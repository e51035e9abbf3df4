import SlotRing.Proofs.InPlace

/-!
# What becomes of the slots that are held

A draft or a loan lives from the answer that names its slot to the operation that
ends it: one of its own, a panic, splitting again, or dropping the halves. How it
ended decides whether and how it is reported (`Life.report`), and the events of a
run are those reports and no others. Together with the pushes and the pops they
tell the indices (`run_lives`).
-/

set_option autoImplicit false

namespace SlotRing

variable {g : Geometry}

/-! ## Lives -/

inductive Life where
  | draft (index : UInt64) (how : Draft.Ending)
  | loan (index : UInt64) (how : Loan.Ending)
  deriving DecidableEq, Repr

namespace Life

def report : Life → Option Event
  | .draft index .release | .draft index .drop => some (.draftPublished index)
  | .draft index .discard => some (.draftDiscarded index)
  | .draft index .unwind => some (.draftUnwound index)
  | .loan index .release | .loan index .drop | .loan index .unwind => some (.loanReleased index)
  | .loan index .retain => some (.loanRetained index)
  | .draft _ .forget | .loan _ .forget => none

def draft? : Life → Option UInt64
  | .draft index _ => some index
  | .loan .. => none

def loan? : Life → Option UInt64
  | .loan index _ => some index
  | .draft .. => none

end Life

namespace Event

def ends : Event → Bool
  | .draftPublished _ | .draftDiscarded _ | .draftUnwound _ => true
  | .loanReleased _ | .loanRetained _ => true
  | .storageRejected _ | .ringReady .. | .pushOversized .. => false

def published? : Event → Option UInt64
  | .draftPublished index => some index
  | _ => none

end Event

namespace Session

def Answer.drafted? : Answer → Option UInt64
  | .produced (.drafted index _) => some index
  | _ => none

def Answer.lent? : Answer → Option UInt64
  | .consumed (.lent index _) => some index
  | _ => none

def Answer.pops : Answer → Bool
  | .consumed (.popped (some _) _) => true
  | _ => false

structure Held where
  draft : Option UInt64
  loan : Option UInt64
  deriving DecidableEq, Repr

namespace Held

/-- The slots that an operation let go, given its answer. What is held when the
halves are dropped is dropped, the draft first. -/
def ended (held : Held) : Op → Answer → List Life
  | .produce (.finish how), .produced .finished => held.draft.toList.map (.draft · how)
  | .produce _, .produced .panicked => held.draft.toList.map (.draft · .unwind)
  | .consume (.finish how), .consumed .finished => held.loan.toList.map (.loan · how)
  | .consume _, .consumed .panicked => held.loan.toList.map (.loan · .unwind)
  | .resplit, .resplit =>
    held.draft.toList.map (.draft · .drop) ++ held.loan.toList.map (.loan · .drop)
  | _, _ => []

def after (held : Held) : Answer → Held
  | .produced (.drafted index _) => { held with draft := some index }
  | .produced .finished | .produced .panicked => { held with draft := none }
  | .consumed (.lent index _) => { held with loan := some index }
  | .consumed .finished | .consumed .panicked => { held with loan := none }
  | .resplit => ⟨none, none⟩
  | _ => held

def lives : Held → List (Op × Answer × List Event) → List (List Life)
  | _, [] => []
  | held, (op, done) :: rest => held.ended op done.1 :: (held.after done.1).lives rest

def left (held : Held) (log : List (Op × Answer × List Event)) : Held :=
  log.foldl (fun held entry => held.after entry.2.1) held

theorem lives_append (held : Held) (log rest : List (Op × Answer × List Event)) :
    held.lives (log ++ rest) = held.lives log ++ (held.left log).lives rest := by
  induction log generalizing held with
  | nil => rfl
  | cons entry log ih => exact congrArg (_ :: ·) (ih _)

/-- A log accounts for all slots held: each that was found is either held in the end
or was let go once, and the events tell of those let go as they should. -/
structure Balanced (held : Held) (log : List (Op × Answer × List Event)) (held' : Held) :
    Prop where
  left : held.left log = held'
  reported : log.map (fun entry => entry.2.2.filter Event.ends) =
    (held.lives log).map (List.filterMap Life.report)
  drafts : held.draft.toList ++ log.filterMap (fun entry => entry.2.1.drafted?) =
    (held.lives log).flatten.filterMap Life.draft? ++ held'.draft.toList
  loans : held.loan.toList ++ log.filterMap (fun entry => entry.2.1.lent?) =
    (held.lives log).flatten.filterMap Life.loan? ++ held'.loan.toList

variable {held held' held'' : Held} {log rest : List (Op × Answer × List Event)}

theorem balanced_append (h : held.Balanced log held') (h' : held'.Balanced rest held'') :
    held.Balanced (log ++ rest) held'' where
  left := by
    calc held.left (log ++ rest) = (held.left log).left rest := List.foldl_append
      _ = held'' := by rw [h.left, h'.left]
  reported := by
    rw [lives_append, h.left, List.map_append, List.map_append, h.reported, h'.reported]
  drafts := by
    rw [lives_append, h.left, List.filterMap_append, ← List.append_assoc, h.drafts,
      List.append_assoc, h'.drafts, List.flatten_append, List.filterMap_append, List.append_assoc]
  loans := by
    rw [lives_append, h.left, List.filterMap_append, ← List.append_assoc, h.loans,
      List.append_assoc, h'.loans, List.flatten_append, List.filterMap_append, List.append_assoc]

theorem balanced_singleton {op : Op} {answer : Answer} {events : List Event}
    (hleft : held.after answer = held')
    (hreported : events.filter Event.ends = (held.ended op answer).filterMap Life.report)
    (hdrafts : held.draft.toList ++ answer.drafted?.toList =
      (held.ended op answer).filterMap Life.draft? ++ held'.draft.toList)
    (hloans : held.loan.toList ++ answer.lent?.toList =
      (held.ended op answer).filterMap Life.loan? ++ held'.loan.toList) :
    held.Balanced [(op, answer, events)] held' where
  left := hleft
  reported := congrArg ([·]) hreported
  drafts := by
    rw [lives, lives, List.flatten_singleton, ← hdrafts]
    cases h : answer.drafted? <;> simp [h]
  loans := by
    rw [lives, lives, List.flatten_singleton, ← hloans]
    cases h : answer.lent? <;> simp [h]

end Held

end Session

namespace Account

open Session (Held)

variable {build : Build} {a : Account g}

def held (a : Account g) : Held where
  draft := if a.drafting then some (g.place a.ledger.published) else none
  loan := if a.lending then some (g.place a.ledger.freed) else none

theorem balanced_idle {held : Held} {op : Session.Op} {answer : Session.Answer}
    {events : List Event} (hended : held.ended op answer = []) (hafter : held.after answer = held)
    (hevents : events.filter Event.ends = []) (hdrafted : answer.drafted? = none)
    (hlent : answer.lent? = none) : held.Balanced [(op, answer, events)] held := by
  apply Held.balanced_singleton hafter
  · rw [hended, hevents]
    rfl
  · rw [hended, hdrafted]
    exact List.append_nil _
  · rw [hended, hlent]
    exact List.append_nil _

theorem balanced_produceFree (build : Build) (op : Producer.Op) (b : Ledger g) (lending : Bool) :
    let done := (⟨b, false, lending⟩ : Account g).step build (.produce op)
    (⟨b, false, lending⟩ : Account g).held.Balanced [(.produce op, done.answer, done.events)]
      done.account.held := by
  simp only [step, Ledger.produce, if_neg Bool.false_ne_true]
  cases op with
  | push item =>
    simp only [Ledger.produceFree]
    split
    · cases build <;> exact balanced_idle rfl rfl rfl rfl rfl
    · split
      · exact balanced_idle rfl rfl rfl rfl rfl
      · exact balanced_idle rfl rfl rfl rfl rfl
  | draft =>
    rw [Ledger.produceFree]
    split
    · exact balanced_idle rfl rfl rfl rfl rfl
    · exact Held.balanced_singleton rfl rfl rfl (List.append_nil _)
  | contents | store _ _ | fill _ | overwrite _ => exact balanced_idle rfl rfl rfl rfl rfl
  | finish how => exact balanced_idle rfl rfl rfl rfl rfl

theorem balanced_produceHolding (build : Build) (op : Producer.Op) (b : Ledger g)
    (lending : Bool) :
    let done := (⟨b, true, lending⟩ : Account g).step build (.produce op)
    (⟨b, true, lending⟩ : Account g).held.Balanced [(.produce op, done.answer, done.events)]
      done.account.held := by
  simp only [step, Ledger.produce, if_pos]
  cases op with
  | push _ | draft | contents => exact balanced_idle rfl rfl rfl rfl rfl
  | store position bytes =>
    rw [Ledger.produceHolding]
    cases decide (bytes.length ≤ g.slotSize - position) with
    | true => exact balanced_idle rfl rfl rfl rfl rfl
    | false => exact Held.balanced_singleton rfl rfl rfl (List.append_nil _)
  | fill byte => exact balanced_idle rfl rfl rfl rfl rfl
  | overwrite bytes =>
    rw [Ledger.produceHolding]
    split
    · exact balanced_idle rfl rfl rfl rfl rfl
    · exact Held.balanced_singleton rfl rfl rfl (List.append_nil _)
  | finish how => cases how <;> exact Held.balanced_singleton rfl rfl rfl (List.append_nil _)

theorem balanced_consume (build : Build) (op : Consumer.Op) (a : Account g) :
    let done := a.step build (.consume op)
    a.held.Balanced [(.consume op, done.answer, done.events)] done.account.held := by
  obtain ⟨b, drafting, lending⟩ := a
  cases lending with
  | false =>
    simp only [step, Ledger.consume, if_neg Bool.false_ne_true]
    cases op with
    | pop dest =>
      rw [Ledger.consumeFree]
      split
      · exact balanced_idle rfl rfl rfl rfl rfl
      · exact balanced_idle rfl rfl rfl rfl rfl
    | borrow =>
      rw [Ledger.consumeFree]
      split
      · exact balanced_idle rfl rfl rfl rfl rfl
      · exact Held.balanced_singleton rfl rfl (List.append_nil _) rfl
    | contents | byteAt _ | finish _ => exact balanced_idle rfl rfl rfl rfl rfl
  | true =>
    simp only [step, Ledger.consume, if_pos]
    cases op with
    | pop _ | borrow | contents => exact balanced_idle rfl rfl rfl rfl rfl
    | byteAt position =>
      rw [Ledger.consumeHolding]
      split
      · exact balanced_idle rfl rfl rfl rfl rfl
      · exact Held.balanced_singleton rfl rfl (List.append_nil _) rfl
    | finish how => cases how <;> exact Held.balanced_singleton rfl rfl (List.append_nil _) rfl

theorem balanced_step (build : Build) (op : Session.Op) (a : Account g) :
    let done := a.step build op
    a.held.Balanced [(op, done.answer, done.events)] done.account.held := by
  cases op with
  | produce op =>
    obtain ⟨b, drafting, lending⟩ := a
    cases drafting with
    | false => exact balanced_produceFree build op b lending
    | true => exact balanced_produceHolding build op b lending
  | consume op => exact balanced_consume build op a
  | resplit =>
    obtain ⟨b, drafting, lending⟩ := a
    cases drafting <;> cases lending <;> exact Held.balanced_singleton rfl rfl rfl rfl

end Account

/-! ## Publications -/

namespace Session

/-- What an operation published: a push without telling the index, a draft with it. -/
def publications : Answer × List Event → List (Option UInt64)
  | (.produced .pushed, events) => none :: (events.filterMap Event.published?).map some
  | (_, events) => (events.filterMap Event.published?).map some

theorem length_publications (done : Answer × List Event) :
    (publications done).length = publishedBy done := by
  obtain ⟨answer, events⟩ := done
  have hcount : ((events.filterMap Event.published?).map some).length =
      events.countP Event.publishes := by
    rw [List.length_map, List.length_filterMap_eq_countP]
    congr 1
    funext event
    cases event <;> rfl
  cases answer with
  | produced answer =>
    cases answer with
    | pushed => exact congrArg (· + 1) hcount
    | slotHeld | noSlot | refused _ | full | drafted _ _ | contents _ | panicked | finished =>
      exact hcount
  | consumed _ | resplit | faulted _ => exact hcount

def Numbered (g : Geometry) (start : Nat) (publications : List (Option UInt64)) : Prop :=
  ∀ k index, publications[k]? = some (some index) → index = g.place (start + k)

theorem numbered_append {start : Nat} {xs ys : List (Option UInt64)} (hx : Numbered g start xs)
    (hy : Numbered g (start + xs.length) ys) : Numbered g start (xs ++ ys) := by
  intro k index hk
  by_cases hlt : k < xs.length
  · rw [List.getElem?_append_left hlt] at hk
    exact hx k index hk
  · rw [List.getElem?_append_right (Nat.le_of_not_lt hlt)] at hk
    have hplace := hy _ index hk
    rwa [Nat.add_assoc, Nat.add_sub_cancel' (Nat.le_of_not_lt hlt)] at hplace

/-- From one reported publication to the next, the index has advanced once for it and
once for every push in between. -/
theorem spacing_of_numbered {start m : Nat} {before after : List (Option UInt64)}
    {i j : UInt64}
    (h : Numbered g start (before ++ some i :: (List.replicate m none ++ some j :: after))) :
    j.toNat = (i.toNat + m + 1) % g.slotCount.toNat := by
  have hi := h before.length i (by simp)
  have hassoc : before ++ some i :: (List.replicate m none ++ some j :: after) =
      (before ++ some i :: List.replicate m none) ++ some j :: after := by simp
  have hj := h (before ++ some i :: List.replicate m none).length j (by rw [hassoc]; simp)
  have hlength : start + (before ++ some i :: List.replicate m none).length =
      start + before.length + (m + 1) := by
    rw [List.length_append, List.length_cons, List.length_replicate, Nat.add_assoc]
  rw [hi, hj, g.place_toNat, g.place_toNat, hlength, Nat.add_assoc _ m 1]
  exact (Nat.mod_add_mod _ _ _).symm

theorem published_events (events : List Event) :
    (events.filter Event.ends).filterMap Event.published? = events.filterMap Event.published? := by
  rw [List.filterMap_filter]
  congr 1
  funext event
  cases event <;> rfl

theorem Held.ended_pushed (held : Held) (op : Op) : held.ended op (.produced .pushed) = [] := by
  cases op with
  | produce op => cases op <;> rfl
  | consume op => cases op <;> rfl
  | resplit => rfl

theorem Held.published_ended (held : Held) (op : Op) (answer : Answer) :
    ((held.ended op answer).filterMap Life.report).filterMap Event.published? = [] ∨
      ∃ index, held.draft = some index ∧
        ((held.ended op answer).filterMap Life.report).filterMap Event.published? = [index] := by
  obtain ⟨draft, loan⟩ := held
  unfold ended
  split
  · next how => cases draft <;> cases how <;> simp [Life.report, Event.published?]
  · cases draft <;> simp [Life.report, Event.published?]
  · next how => cases loan <;> cases how <;> simp [Life.report, Event.published?]
  · cases loan <;> simp [Life.report, Event.published?]
  · cases draft <;> cases loan <;> simp [Life.report, Event.published?]
  · exact .inl rfl

end Session

namespace Account

open Session (publications Numbered)

variable {a : Account g}

theorem place_of_drafting {index : UInt64} (h : a.held.draft = some index) :
    index = g.place a.ledger.published := by
  simp only [held] at h
  split at h
  · exact (Option.some.inj h).symm
  · cases h

theorem numbered_step (build : Build) (op : Session.Op) (a : Account g) :
    Numbered g a.ledger.published
      (publications ((a.step build op).answer, (a.step build op).events)) := by
  have hreported := List.singleton_inj.mp (balanced_step build op a).reported
  change (a.step build op).events.filter _ = _ at hreported
  have hpublished := a.held.published_ended op (a.step build op).answer
  have hpushed := a.held.ended_pushed op
  rw [← hreported, Session.published_events] at hpublished
  generalize (a.step build op).answer = answer at *
  generalize (a.step build op).events = events at *
  unfold publications
  -- A push ends no draft, and any other operation ends one at most.
  split
  · next heq =>
    cases heq
    rw [← Session.published_events, hreported, hpushed]
    intro k index hk
    cases k <;> cases hk
  · next heq =>
    cases heq
    rcases hpublished with hnone | ⟨index, hheld, hone⟩
    · rw [hnone]
      exact nofun
    · rw [hone]
      intro k index' hk
      cases k with
      | zero =>
        cases hk
        exact place_of_drafting hheld
      | succ k => cases hk

end Account

/-! ## Sessions -/

namespace Session

variable {build : Build} {s : Session g} {a : Account g}

def held (s : Session g) : Held where
  draft := s.producer.draft.map Draft.index
  loan := s.consumer.loan.map Loan.index

theorem held_tracks (h : s.Tracks a) : s.held = a.held := by
  have hdraft : s.producer.draft.map Draft.index = a.held.draft := by
    cases hd : s.producer.draft with
    | none =>
      have hfree : a.drafting = false := h.drafting.trans (Producer.held_of_none hd)
      rw [Account.held, hfree]
      rfl
    | some d =>
      obtain ⟨rfl, hholds⟩ := Producer.holds_of_draft h.producer hd
      rw [Account.held, h.drafting.trans (Producer.held_of_holds hholds)]
      rfl
  have hloan : s.consumer.loan.map Loan.index = a.held.loan := by
    cases hl : s.consumer.loan with
    | none =>
      have hfree : a.lending = false := h.lending.trans (Consumer.held_of_none hl)
      rw [Account.held, hfree]
      rfl
    | some l =>
      obtain ⟨rfl, hholds⟩ := Consumer.holds_of_loan h.consumer hl
      rw [Account.held, h.lending.trans (Consumer.held_of_holds hholds)]
      rfl
  rw [held, hdraft, hloan]

theorem publishedBy_eq (answer : Answer) (events : List Event) :
    publishedBy (answer, events) =
      (if answer = .produced .pushed then 1 else 0) + events.countP Event.publishes := by
  cases answer with
  | produced answer => cases answer <;> simp [publishedBy, Nat.add_comm]
  | consumed _ | resplit | faulted _ => simp [publishedBy]

theorem freedBy_eq (answer : Answer) (events : List Event) :
    freedBy (answer, events) =
      (if answer.pops = true then 1 else 0) + events.countP Event.frees := by
  cases answer with
  | consumed answer =>
    cases answer with
    | popped copied _ => cases copied <;> simp [freedBy, Answer.pops, Nat.add_comm]
    | slotHeld | noSlot | empty | lent _ _ | contents _ | byte _ | panicked | finished =>
      simp [freedBy, Answer.pops]
  | produced _ | resplit | faulted _ => simp [freedBy, Answer.pops]

theorem published_eq (trace : List (Answer × List Event)) :
    published trace = trace.countP (fun done => done.1 = .produced .pushed) +
      (trace.flatMap Prod.snd).countP Event.publishes := by
  induction trace with
  | nil => rfl
  | cons done trace ih =>
    rw [published, ih, publishedBy_eq, List.countP_cons, List.flatMap_cons, List.countP_append]
    simp only [decide_eq_true_eq]
    omega

theorem freed_eq (trace : List (Answer × List Event)) :
    freed trace = trace.countP (fun done => done.1.pops) +
      (trace.flatMap Prod.snd).countP Event.frees := by
  induction trace with
  | nil => rfl
  | cons done trace ih =>
    rw [freed, ih, freedBy_eq, List.countP_cons, List.flatMap_cons, List.countP_append]
    omega

theorem balanced_of_tracks (build : Build) (op : Op) (h : s.Tracks a) :
    s.held.Balanced [(op, (s.step build op).answer, (s.step build op).events)]
      (s.step build op).session.held := by
  obtain ⟨ht, hevents, hanswer⟩ := tracks_step build op h
  rw [held_tracks h, held_tracks ht, hevents, hanswer]
  exact Account.balanced_step build op a

theorem balanced_run (build : Build) (ops : List Op) (h : s.Tracks a) :
    s.held.Balanced (ops.zip (run build ops s).2) (run build ops s).1.held := by
  induction ops generalizing s a with
  | nil => exact ⟨rfl, rfl, (List.append_nil _), (List.append_nil _)⟩
  | cons op ops ih =>
    exact Held.balanced_append (balanced_of_tracks build op h) (ih (tracks_step build op h).1)

theorem numbered_run (build : Build) (ops : List Op) (h : s.Tracks a) :
    Numbered g a.ledger.published ((run build ops s).2.flatMap publications) := by
  induction ops generalizing s a with
  | nil => exact nofun
  | cons op ops ih =>
    obtain ⟨ht, hevents, hanswer⟩ := tracks_step build op h
    have hstep := Account.numbered_step build op a
    have hcount := (Account.step_counts build op a).1
    rw [← hevents, ← hanswer] at hstep hcount
    have hrest := ih ht
    rw [hcount, ← length_publications] at hrest
    exact numbered_append hstep hrest

structure Accounted (s : Session g) (ops : List Op) (trace : List (Answer × List Event)) :
    Prop where
  writeIndex : s.ring.writeIndex.toNat =
    (trace.countP (fun done => done.1 = .produced .pushed) +
      (trace.flatMap Prod.snd).countP Event.publishes) % g.slotCount.toNat
  readIndex : s.ring.readIndex.toNat =
    (trace.countP (fun done => done.1.pops) +
      (trace.flatMap Prod.snd).countP Event.frees) % g.slotCount.toNat
  balanced : Held.Balanced ⟨none, none⟩ (ops.zip trace) s.held
  spaced : ∀ before after m i j,
    trace.flatMap publications =
        before ++ some i :: (List.replicate m none ++ some j :: after) →
      j.toNat = (i.toNat + m + 1) % g.slotCount.toNat

theorem accounted_run {line : Padding.Line} {storage : Storage} {itemSize : UInt64} {r : Ring g}
    {e : Event} (h : Ring.construct line storage itemSize = (.ok ⟨g, r⟩, e)) (build : Build)
    (ops : List Op) : (run build ops (split r)).1.Accounted ops (run build ops (split r)).2 := by
  obtain ⟨⟨_, _, hwindow⟩, -⟩ := run_window h build ops
  have ht : (split r).Tracks _ := (tracks_construct build [] h).1
  constructor
  · rw [← published_eq]
    exact hwindow.writeIndex
  · rw [← freed_eq]
    exact hwindow.readIndex
  · exact balanced_run build ops ht
  · intro before after m i j hpublications
    have hnumbered := numbered_run build ops ht
    rw [hpublications] at hnumbered
    exact spacing_of_numbered hnumbered

/-- At any time the indices are those of the pushes, the pops and the events so
far, and these are one event for each draft and each loan that has ended, forgotten
ones apart. So they are when the halves are dropped, and then nothing is held. -/
theorem run_lives {line : Padding.Line} {storage : Storage} {itemSize : UInt64} {r : Ring g}
    {e : Event} (h : Ring.construct line storage itemSize = (.ok ⟨g, r⟩, e)) (build : Build)
    (ops : List Op) :
    let final := run build ops (split r)
    let closed := final.1.close build
    final.1.Accounted ops final.2 ∧
      (split closed.1).Accounted (ops ++ [.resplit]) (final.2 ++ [(.resplit, closed.2)]) := by
  intro final closed
  refine ⟨accounted_run h build ops, ?_⟩
  have hclosed := accounted_run h build (ops ++ [.resplit])
  rw [run_append] at hclosed
  exact hclosed

/-- Three slots of two bytes. A draft is published between two pushes and one is
discarded, a loan is retained and one panics, a draft is forgotten, and splitting
again drops a draft before a loan. -/
theorem run_lives_three_slots :
    ∃ (g : Geometry) (r : Ring g) (e : Event),
      Ring.construct .line64 ⟨#[1, 2, 3, 4, 5, 6, 7], by decide⟩ 2 = (.ok ⟨g, r⟩, e) ∧
      let ops : List Op := [.produce .draft, .produce (.finish .release), .produce .draft,
        .produce (.store 1 [8, 8]), .consume .borrow, .consume (.finish .retain), .consume .borrow,
        .consume (.byteAt 2), .produce .draft, .produce (.finish .forget), .produce (.push [9]),
        .produce .draft, .consume .borrow, .resplit]
      let final := run .release ops (split r)
      final.1.Accounted ops final.2 ∧ final.1.ring.writeIndex = 0 ∧ final.1.ring.readIndex = 2 ∧
        (Held.lives ⟨none, none⟩ (ops.zip final.2)).flatten =
          [.draft 0 .release, .draft 1 .unwind, .loan 0 .retain, .loan 0 .unwind,
            .draft 1 .forget, .draft 2 .drop, .loan 1 .drop] ∧
        final.2.flatMap Prod.snd = [.draftPublished 0, .draftUnwound 1, .loanRetained 0,
          .loanReleased 0, .draftPublished 2, .loanReleased 1] := by
  refine ⟨_, _, _, rfl, ?_⟩
  intro ops final
  have haccounted :=
    (@run_lives _ .line64 ⟨#[1, 2, 3, 4, 5, 6, 7], by decide⟩ 2 _ _ rfl .release ops).1
  exact ⟨haccounted, by decide +kernel, by decide +kernel, by decide +kernel, by decide +kernel⟩

end Session

end SlotRing
