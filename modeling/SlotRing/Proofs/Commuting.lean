import SlotRing.Proofs.Provenance
import SlotRing.Proofs.Refusals

/-!
# Operations in either order

With an item to read and a slot to fill, neither half can tell whether the
other one has gone first: the producer asks of the consumer only whether there
is room, the consumer takes the oldest item only, and both stay as they are.
What may differ are the copies of the indices, and nothing but a debug text of
a half shows those (`follow_commute`).
-/

set_option autoImplicit false

namespace SlotRing

variable {g : Geometry}

/-! ## Ledgers -/

namespace Ledger

variable {b c : Ledger g}

/-- With room before and after, the producer does not notice what is freed. -/
theorem produce_past_free (build : Build) (held : Bool) (op : Producer.Op) {freed : Nat}
    (hb : ¬ b.Full) (hc : ¬ ({ b with freed := freed } : Ledger g).Full) :
    ({ b with freed := freed } : Ledger g).produce build held op =
      ⟨{ (b.produce build held op).ledger with freed := freed }, (b.produce build held op).held,
        (b.produce build held op).events, (b.produce build held op).answer⟩ := by
  have hsettle : ∀ (d : Ledger g) (stored : Bool),
      ({ d with freed := freed } : Ledger g).settle stored =
        ⟨{ (d.settle stored).ledger with freed := freed }, (d.settle stored).held,
          (d.settle stored).events, (d.settle stored).answer⟩ := by
    intro d stored
    cases stored <;> rfl
  cases held with
  | false =>
    simp only [produce, if_neg Bool.false_ne_true]
    cases op with
    | push item =>
      by_cases hl : g.slotSize < item.length
      · simp only [produceFree, if_pos hl]
        cases build <;> rfl
      · simp only [produceFree, if_neg hl, if_neg hb, if_neg hc]
        rfl
    | draft =>
      simp only [produceFree, if_neg hb, if_neg hc]
      rfl
    | contents | store _ _ | fill _ | overwrite _ | finish _ => rfl
  | true =>
    simp only [produce, if_pos]
    cases op with
    | push _ | draft | contents => rfl
    | store position bytes => exact hsettle (b.write _ _) _
    | fill byte => exact hsettle (b.write _ _) true
    | overwrite bytes =>
      simp only [produceHolding]
      split
      · exact hsettle (b.write _ _) true
      · exact hsettle b false
    | finish how => cases how <;> rfl

/-- With an item to read, the consumer does not notice what is published. -/
theorem consume_past_publish (held : Bool) (op : Consumer.Op) (hr : b.Ready .consumer)
    (hitems : b.items <+: c.items) (hfreed : c.freed = b.freed) :
    c.consume held op =
      ⟨{ c with freed := (b.consume held op).ledger.freed }, (b.consume held op).held,
        (b.consume held op).events, (b.consume held op).answer⟩ := by
  have holdest : c.oldest = b.oldest := by
    obtain ⟨more, hmore⟩ := hitems
    rw [oldest, oldest, hfreed, ← hmore, List.getD_eq_getElem?_getD,
      List.getElem?_append_left hr, ← List.getD_eq_getElem?_getD]
  have hb : ¬ b.Empty := Nat.ne_of_lt hr
  have hc : ¬ c.Empty := Nat.ne_of_lt (hfreed ▸ Nat.lt_of_lt_of_le hr hitems.length_le)
  have hsame : ({ c with freed := b.freed } : Ledger g) = c := by rw [← hfreed]
  have hplace : g.place c.freed = g.place b.freed := congrArg g.place hfreed
  have hfree : c.free = { c with freed := b.free.freed } := by
    rw [free, hfreed]
    rfl
  cases held with
  | false =>
    simp only [consume, if_neg Bool.false_ne_true]
    cases op with
    | pop dest | borrow =>
      simp only [consumeFree, if_neg hb, if_neg hc, holdest, hfree, hsame, hplace]
    | contents | byteAt _ | finish _ => simp only [consumeFree, hsame]
  | true =>
    simp only [consume, if_pos]
    cases op with
    | pop _ | borrow | contents => simp only [consumeHolding, holdest, hsame]
    | byteAt position =>
      simp only [consumeHolding, holdest]
      split
      · simp only [hsame]
      · simp only [hfree, hplace]
    | finish how => cases how <;> simp only [consumeHolding, endLoan, hfree, hsame, hplace]

end Ledger

/-! ## Accounts -/

namespace Account

/-- Whichever half goes first, the answers are those of going first and the
account is the same in the end. -/
theorem step_commute (build : Build) (p : Producer.Op) (c : Consumer.Op) {a : Account g}
    (hroom : a.ledger.Ready .producer) (hitem : a.ledger.Ready .consumer) :
    let produced := a.step build (.produce p)
    let consumed := a.step build (.consume c)
    ∃ both : Account g,
      produced.account.step build (.consume c) = ⟨both, consumed.events, consumed.answer⟩ ∧
        consumed.account.step build (.produce p) = ⟨both, produced.events, produced.answer⟩ := by
  obtain ⟨b, drafting, lending⟩ := a
  have halone := Ledger.consume_past_publish lending c hitem (List.prefix_refl b.items) rfl
  obtain ⟨freed, hledger⟩ : ∃ freed, (b.consume lending c).ledger = { b with freed := freed } :=
    ⟨_, congrArg Deed.ledger halone⟩
  have hfreed : b.freed ≤ freed := by
    have hcount := (consume_counts lending c b).2
    rw [hledger] at hcount
    exact Nat.le.intro hcount.symm
  have hfull : ¬ b.Full := Nat.ne_of_lt hroom
  have hfull' : ¬ ({ b with freed := freed } : Ledger g).Full :=
    Nat.ne_of_lt (Nat.lt_of_lt_of_le hroom (Nat.add_le_add_right hfreed _))
  have hitems : b.items <+: (b.produce build drafting p).ledger.items := by
    rcases (fills_step build (.produce p) ⟨b, drafting, lending⟩).items with h | h
    · exact h ▸ List.prefix_refl _
    · exact h ▸ List.prefix_append _ _
  have hsame : (b.produce build drafting p).ledger.freed = b.freed := by
    rw [Ledger.produce_past_free build drafting p hfull hfull]
  have hlast := Ledger.consume_past_publish lending c hitem hitems hsame
  have hfirst := Ledger.produce_past_free build drafting p hfull hfull'
  refine ⟨⟨{ (b.produce build drafting p).ledger with freed := freed },
    (b.produce build drafting p).held, (b.consume lending c).held⟩, ?_, ?_⟩
  · simp only [step, hlast, hledger]
  · simp only [step, hledger, hfirst]

end Account

/-! ## Requests -/

namespace Transcript

open Session

/-- The debug text of a half shows its copy; that of a slot does not. -/
def Request.showsCopy : Request → Bool
  | .describe .producer _ | .describe .consumer _ => true
  | .describe .draft _ | .describe .loan _ | .act _ | .sizes => false

def Request.blank (request : Request) (entry : Entry) : Entry :=
  if request.showsCopy then { entry with reply := .text "" } else entry

variable {build : Build} {line : Padding.Line} {s s' : Session g} {a : Account g}

theorem serve_same_account (build : Build) (line : Padding.Line) (request : Request)
    (h : s.Tracks a) (h' : s'.Tracks a) :
    let served := serve build line s request
    let served' := serve build line s' request
    (∃ b, served.1.Tracks b ∧ served'.1.Tracks b) ∧ served.2.2 = served'.2.2 ∧
      (request.showsCopy = false → served.2.1 = served'.2.1) := by
  obtain ⟨hring, hdraft, hloan⟩ := resembles_of_tracks h h'
  cases request with
  | sizes => exact ⟨⟨a, h, h'⟩, rfl, fun _ => rfl⟩
  | describe subject pretty =>
    refine ⟨⟨a, h, h'⟩, rfl, fun hshows => ?_⟩
    cases subject with
    | producer | consumer => cases hshows
    | draft => simp only [serve, describe, Describe.draft, hring, hdraft]
    | loan => simp only [serve, describe, Describe.loan, hring, hloan]
  | act op =>
    obtain ⟨ht, hevents, hanswer⟩ := tracks_step build op h
    obtain ⟨ht', hevents', hanswer'⟩ := tracks_step build op h'
    have hsame := (resembles_of_tracks ht ht').ring
    rw [← hevents'] at hevents
    rw [← hanswer'] at hanswer
    simp only [serve]
    generalize s.step build op = done at *
    generalize s'.step build op = done' at *
    obtain ⟨t, events, answer⟩ := done
    obtain ⟨t', events', answer'⟩ := done'
    cases hevents
    cases hanswer
    cases answer with
    | resplit =>
      exact ⟨⟨_, ht, ht'⟩, rfl, fun _ => congrArg (Reply.resplit ∘ snapshot build line) hsame⟩
    | produced _ | consumed _ | faulted _ => exact ⟨⟨_, ht, ht'⟩, rfl, fun _ => rfl⟩

theorem follow_same_account (build : Build) (line : Padding.Line) (requests : List Request)
    (h : s.Tracks a) (h' : s'.Tracks a) :
    let followed := follow build line requests s
    let followed' := follow build line requests s'
    List.zipWith Request.blank requests followed.2 =
        List.zipWith Request.blank requests followed'.2 ∧
      followed.1.Resembles followed'.1 := by
  induction requests generalizing s s' a with
  | nil => exact ⟨rfl, resembles_of_tracks h h'⟩
  | cons request rest ih =>
    obtain ⟨⟨b, hb, hb'⟩, hevents, hreply⟩ := serve_same_account build line request h h'
    have hring := (resembles_of_tracks hb hb').ring
    obtain ⟨hentries, hlast⟩ := ih hb hb'
    refine ⟨?_, hlast⟩
    simp only [follow_cons, List.zipWith_cons_cons, hentries, List.cons.injEq, and_true]
    simp only [Request.blank, hring, hevents]
    split
    · rfl
    · rw [hreply (Bool.eq_false_iff.mpr ‹_›)]

/-- With an item and room, two operations of the two halves are answered alike in
either order and leave the same but for the copies, and so is everything asked
for afterwards but for what shows a copy. -/
theorem follow_commute {line : Padding.Line} {storage : Storage} {itemSize : UInt64} {r : Ring g}
    {e : Event} (h : Ring.construct line storage itemSize = (.ok ⟨g, r⟩, e)) (build : Build)
    (ops : List Op) (p : Producer.Op) (c : Consumer.Op) :
    let s := (run build ops (split r)).1
    let produced := s.step build (.produce p)
    let consumed := s.step build (.consume c)
    let last := produced.session.step build (.consume c)
    let last' := consumed.session.step build (.produce p)
    0 < s.ring.length → s.ring.length < g.capacity.toNat →
      (produced.answer, produced.events) = (last'.answer, last'.events) ∧
        (last.answer, last.events) = (consumed.answer, consumed.events) ∧
        last.session.Resembles last'.session ∧
        ∀ requests,
          let followed := follow build line requests last.session
          let followed' := follow build line requests last'.session
          List.zipWith Request.blank requests followed.2 =
              List.zipWith Request.blank requests followed'.2 ∧
            followed.1.Resembles followed'.1 := by
  intro s produced consumed last last' hl hu
  have ht : s.Tracks _ := (tracks_construct build ops h).1
  generalize (Account.run build ops ⟨r.ledger, false, false⟩).1 = a at ht
  have hlength := ht.ring ▸ Ring.length_ledger ht.valid
  rw [hlength] at hl hu
  rw [g.toNat_capacity] at hu
  have hordered := ht.valid.freed_le
  obtain ⟨both, hboth, hboth'⟩ := @Account.step_commute g build p c a
    (show _ + 1 < _ + _ by omega) (show _ < _ by omega)
  obtain ⟨hp, hpe, hpa⟩ := tracks_step build (.produce p) ht
  obtain ⟨hc, hce, hca⟩ := tracks_step build (.consume c) ht
  obtain ⟨hlast, hle, hla⟩ := tracks_step build (.consume c) hp
  obtain ⟨hlast', hle', hla'⟩ := tracks_step build (.produce p) hc
  rw [hboth] at hlast hle hla
  rw [hboth'] at hlast' hle' hla'
  refine ⟨?_, ?_, resembles_of_tracks hlast hlast', fun requests => ?_⟩
  · exact Prod.ext (hpa.trans hla'.symm) (hpe.trans hle'.symm)
  · exact Prod.ext (hla.trans hca.symm) (hle.trans hce.symm)
  · exact follow_same_account build line requests hlast hlast'

/-- Four slots of one byte, the indices gone round and one item of three: it is
popped before or after another one is pushed, and only in the one order does the
producer load the read index again. -/
theorem follow_commute_wrapped :
    ∃ (g : Geometry) (r : Ring g) (e : Event),
      Ring.construct .line64 ⟨#[1, 2, 3, 4], by decide⟩ 1 = (.ok ⟨g, r⟩, e) ∧
      let ops := [.produce (.push [9]), .produce (.push [8]), .produce (.push [7]),
        .consume (.pop [0]), .consume (.pop [0])]
      let p := .push [6]
      let c := .pop [0]
      let s := (run .release ops (split r)).1
      let produced := s.step .release (.produce p)
      let consumed := s.step .release (.consume c)
      let last := produced.session.step .release (.consume c)
      let last' := consumed.session.step .release (.produce p)
      let requests := [.describe .producer false, .act (.consume .borrow), .describe .loan true]
      s.ring.length = 1 ∧ produced.answer = last'.answer ∧ last.answer = consumed.answer ∧
        last.session.producer.cachedRead = 2 ∧ last'.session.producer.cachedRead = 3 ∧
        last.session.Resembles last'.session ∧
        List.zipWith Request.blank requests
            (follow .release .line64 requests last.session).2 =
          List.zipWith Request.blank requests
            (follow .release .line64 requests last'.session).2 := by
  refine ⟨_, _, _, rfl, ?_⟩
  intro ops p c s produced consumed last last' requests
  have hlength : s.ring.length = 1 := by decide +kernel
  obtain ⟨hp, hc, hsame, hlater⟩ :=
    @follow_commute _ .line64 ⟨#[1, 2, 3, 4], by decide⟩ 1 _ _ rfl .release ops p c
      (show 0 < s.ring.length by rw [hlength]; decide)
      (show s.ring.length < _ by rw [hlength]; decide)
  exact ⟨hlength, congrArg Prod.fst hp, congrArg Prod.fst hc, by decide +kernel,
    by decide +kernel, hsame, (hlater requests).1⟩

end Transcript

end SlotRing
