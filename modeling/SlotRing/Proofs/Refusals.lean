import SlotRing.Transcript
import SlotRing.Proofs.Checks
import SlotRing.Proofs.Staleness

/-!
# Refused operations

A half that is refused for want of room or of an item has renewed its copy,
but the copy was up to date before: had it been older, there would have been
room or an item. So a refusal changes nothing at all, and a run goes on as if
the operations that were refused had never been asked for (`follow_refusals`).
-/

set_option autoImplicit false

namespace SlotRing

variable {g : Geometry}

namespace Session

def Answer.isOversized : Answer → Bool
  | .produced (.refused (.oversized ..)) => true
  | _ => false

def Answer.isRefusal (answer : Answer) : Bool := answer.isWant || answer.isOversized

def Op.side? : Op → Option Side
  | .produce _ => some .producer
  | .consume _ => some .consumer
  | .resplit => none

def copy (s : Session g) : Side → UInt64
  | .producer => s.producer.cachedRead
  | .consumer => s.consumer.cachedWrite

end Session

/-! ## Accounts -/

namespace Account

variable {build : Build} {a : Account g}

theorem produceFree_refuses (op : Producer.Op) (b : Ledger g) :
    let deed := b.produceFree build op
    (produced deed.answer).isRefusal = true → deed.ledger = b ∧ deed.held = false ∧
      ((produced deed.answer).isWant = true → ¬ b.Ready .producer) := by
  cases op with
  | push item =>
    simp only [Ledger.produceFree]
    split
    · cases build with
      | release => exact fun _ => ⟨rfl, rfl, fun h => absurd h Bool.false_ne_true⟩
      | checked =>
        intro h
        cases h
    · split
      · exact fun _ => ⟨rfl, rfl, fun _ => Ledger.not_ready_of_full ‹_›⟩
      · intro h
        cases h
  | draft =>
    simp only [Ledger.produceFree]
    split
    · exact fun _ => ⟨rfl, rfl, fun _ => Ledger.not_ready_of_full ‹_›⟩
    · intro h
      cases h
  | contents | store _ _ | fill _ | overwrite _ | finish _ =>
    intro _ h
    cases h

theorem produceHolding_not_refusal (op : Producer.Op) (b : Ledger g) :
    (produced (b.produceHolding op).answer).isRefusal = false := by
  have hsettle : ∀ (c : Ledger g) (stored : Bool),
      (produced (c.settle stored).answer).isRefusal = false := by
    intro c stored
    cases stored <;> rfl
  cases op with
  | push _ | draft | contents | finish _ => rfl
  | store _ _ | fill _ => exact hsettle _ _
  | overwrite bytes =>
    simp only [Ledger.produceHolding]
    split
    · exact hsettle _ _
    · exact hsettle _ _

theorem consumeFree_refuses (op : Consumer.Op) (b : Ledger g) :
    let deed := b.consumeFree op
    (consumed deed.answer).isRefusal = true →
      deed.ledger = b ∧ deed.held = false ∧ ¬ b.Ready .consumer := by
  cases op with
  | pop _ | borrow =>
    simp only [Ledger.consumeFree]
    split
    · exact fun _ => ⟨rfl, rfl, Ledger.not_ready_of_empty ‹_›⟩
    · intro h
      cases h
  | contents | byteAt _ | finish _ =>
    intro _ h
    cases h

theorem consumeHolding_not_refusal (op : Consumer.Op) (b : Ledger g) :
    (consumed (b.consumeHolding op).answer).isRefusal = false := by
  cases op with
  | pop _ | borrow | contents | finish _ => rfl
  | byteAt position =>
    simp only [Ledger.consumeHolding]
    split
    · rfl
    · rfl

/-- A refusal leaves the account, and a want has a cause. -/
theorem step_refused (op : Session.Op) (h : (a.step build op).answer.isRefusal = true) :
    (a.step build op).account = a ∧ ((a.step build op).answer.isWant = true →
      ∃ side, op.side? = some side ∧ ¬ a.ledger.Ready side) := by
  obtain ⟨b, drafting, lending⟩ := a
  cases op with
  | produce op =>
    cases drafting with
    | true => exact absurd h (Bool.eq_false_iff.mp (produceHolding_not_refusal op b))
    | false =>
      obtain ⟨hledger, hheld, hcause⟩ := produceFree_refuses op b h
      refine ⟨congrFun (congr (congrArg mk hledger) hheld) lending, fun hw => ?_⟩
      exact ⟨.producer, rfl, hcause hw⟩
  | consume op =>
    cases lending with
    | true => exact absurd h (Bool.eq_false_iff.mp (consumeHolding_not_refusal op b))
    | false =>
      obtain ⟨hledger, hheld, hr⟩ := consumeFree_refuses op b h
      refine ⟨congr (congrFun (congrArg mk hledger) drafting) hheld, fun _ => ?_⟩
      exact ⟨.consumer, rfl, hr⟩
  | resplit => cases h

end Account

/-! ## Sessions -/

namespace Session

variable {build : Build} {s s' : Session g} {op : Op} {a : Account g}

theorem below_of_tracks (h : s.Tracks a) : s.Below where
  ring := by
    rw [h.ring]
    exact ⟨g.place_lt _, g.place_lt _⟩
  producer := by
    obtain ⟨seen, hs⟩ := h.producer
    refine ⟨hs.cachedRead ▸ g.place_lt _, fun d hd => ?_⟩
    obtain ⟨rfl, -⟩ := hs.draft d hd
    exact ⟨g.place_lt _, g.place_lt _⟩
  consumer := by
    obtain ⟨seen, hs⟩ := h.consumer
    refine ⟨hs.cachedWrite ▸ g.place_lt _, fun l hl => ?_⟩
    obtain ⟨rfl, -⟩ := hs.loan l hl
    exact g.place_lt _

/-- The copy of a half that can do nothing is up to date. -/
theorem copy_of_not_ready {side : Side} (h : s.Tracks a) (hr : ¬ a.ledger.Ready side) :
    s.copy side = s.ring.index side.other := by
  rw [h.ring, Ledger.index_ring]
  cases side with
  | producer =>
    obtain ⟨seen, hs⟩ := h.producer
    have hle := hs.le_freed
    have hlt := hs.published_lt
    have hseen : seen = a.ledger.freed := by
      simp only [Ledger.Ready] at hr
      omega
    exact hs.cachedRead.trans (congrArg g.place hseen)
  | consumer =>
    obtain ⟨seen, hs⟩ := h.consumer
    have hle := hs.freed_le
    have hlt := hs.le_published
    have hseen : seen = a.ledger.published := by
      simp only [Ledger.Ready] at hr
      omega
    exact hs.cachedWrite.trans (congrArg g.place hseen)

theorem consumer_step_produce (op : Producer.Op) :
    (s.step build (.produce op)).session.consumer = s.consumer := by
  rw [step_produce]
  rfl

theorem producer_step_consume (op : Consumer.Op) :
    (s.step build (.consume op)).session.producer = s.producer := by
  rw [step_consume]
  rfl

theorem eq_of_copies (h : s.Resembles s') (hp : s.copy .producer = s'.copy .producer)
    (hc : s.copy .consumer = s'.copy .consumer) : s = s' := by
  obtain ⟨ring, ⟨cachedRead, draft⟩, ⟨cachedWrite, loan⟩⟩ := s
  obtain ⟨ring', ⟨cachedRead', draft'⟩, ⟨cachedWrite', loan'⟩⟩ := s'
  obtain ⟨rfl, rfl, rfl⟩ := h
  cases hp
  cases hc
  rfl

theorem step_oversized (h : s.Below) (ha : (s.step build op).answer.isOversized = true) :
    (s.step build op).session = s := by
  cases he : s.excess op with
  | none =>
    have hwithin := (@sound_step g build s op h he).2.2
    generalize (s.step build op).answer = answer at ha hwithin
    match answer, ha with
    | .produced (.refused (.oversized ..)), _ => exact hwithin.elim
  | some _ =>
    cases build with
    | release => rw [(step_excess he).1]
    | checked => rw [(step_excess he).2]

/-- A refusal changes nothing, and for want of room or of an item it takes a copy
that is up to date. -/
theorem step_refused (h : s.Tracks a) (hr : (s.step build op).answer.isRefusal = true) :
    (s.step build op).session = s ∧ ((s.step build op).answer.isWant = true →
      ∀ side ∈ op.side?, s.copy side = s.ring.index side.other) := by
  obtain ⟨ht, -, hanswer⟩ := tracks_step build op h
  obtain ⟨haccount, hcause⟩ := Account.step_refused op (hanswer ▸ hr)
  rw [haccount] at ht
  rw [← hanswer] at hcause
  have hsame := resembles_of_tracks ht h
  constructor
  · rcases Bool.or_eq_true_iff.mp hr with hw | ho
    · obtain ⟨side, hside, hready⟩ := hcause hw
      have hcopy := copy_of_not_ready ht hready
      rw [hsame.ring, ← copy_of_not_ready h hready] at hcopy
      cases op with
      | produce op =>
        cases hside
        exact eq_of_copies hsame hcopy (congrArg Consumer.cachedWrite (consumer_step_produce op))
      | consume op =>
        cases hside
        exact eq_of_copies hsame (congrArg Producer.cachedRead (producer_step_consume op)) hcopy
      | resplit => cases hside
    · exact step_oversized (below_of_tracks h) ho
  · intro hw side hside
    obtain ⟨asked, hasked, hready⟩ := hcause hw
    obtain rfl : asked = side := Option.some.inj (hasked.symm.trans hside)
    exact copy_of_not_ready h hready

theorem dest_of_popped_none (h : s.Tracks a) {dest rest : List UInt8}
    (ha : (s.step build (.consume (.pop dest))).answer = .consumed (.popped none rest)) :
    rest = dest := by
  rw [(tracks_step build _ h).2.2] at ha
  obtain ⟨b, drafting, lending⟩ := a
  cases lending with
  | true => cases ha
  | false =>
    by_cases he : b.Empty
    · simp only [Account.step, Ledger.consume, Ledger.consumeFree, he] at ha
      cases ha
      rfl
    · simp only [Account.step, Ledger.consume, Ledger.consumeFree, he] at ha
      cases ha

end Session

/-! ## Requests -/

namespace Transcript

open Session

def Reply.isRefusal : Reply → Bool
  | .answer result => result.isRefusal
  | .resplit _ | .sizes .. | .text _ => false

def unmarked (marked : List (Request × Bool)) : List Request :=
  (marked.filter fun x => !x.2).map Prod.fst

variable {build : Build} {line : Padding.Line} {s : Session g} {a : Account g}

theorem session_serve_act (op : Op) :
    (serve build line s (.act op)).1 = (s.step build op).session := by
  simp only [serve]
  generalize s.step build op = done
  obtain ⟨t, events, answer⟩ := done
  cases answer <;> rfl

theorem isRefusal_serve_act (op : Op) :
    (serve build line s (.act op)).2.1.isRefusal = (s.step build op).answer.isRefusal := by
  simp only [serve]
  generalize s.step build op = done
  obtain ⟨t, events, answer⟩ := done
  cases answer <;> rfl

theorem tracks_serve (build : Build) (line : Padding.Line) (request : Request)
    (h : s.Tracks a) : ∃ b, (serve build line s request).1.Tracks b := by
  cases request with
  | act op =>
    rw [session_serve_act]
    exact ⟨_, (tracks_step build op h).1⟩
  | sizes | describe _ _ => exact ⟨a, h⟩

theorem serve_refused (request : Request) (h : s.Tracks a)
    (hr : (serve build line s request).2.1.isRefusal = true) :
    (serve build line s request).1 = s := by
  cases request with
  | act op =>
    rw [session_serve_act]
    rw [isRefusal_serve_act] at hr
    exact (step_refused h hr).1
  | sizes | describe _ _ => rfl

theorem follow_cons (request : Request) (rest : List Request) :
    let served := serve build line s request
    let seen := Observer.see build served.1.ring
    follow build line (request :: rest) s =
      ((follow build line rest served.1).1,
        ⟨served.2.1, seen, seen, served.2.2⟩ :: (follow build line rest served.1).2) := rfl

/-- If every marked request is refused, then all goes on without them as with them. -/
theorem follow_unmarked (build : Build) (line : Padding.Line) (marked : List (Request × Bool))
    (h : s.Tracks a) :
    let full := follow build line (marked.map Prod.fst) s
    let trace := marked.zip full.2
    (∀ x ∈ trace, x.1.2 = true → x.2.reply.isRefusal = true) →
      follow build line (unmarked marked) s =
        (full.1, (trace.filter fun x => !x.1.2).map Prod.snd) := by
  induction marked generalizing s a with
  | nil => exact fun _ => rfl
  | cons x marked ih =>
    obtain ⟨request, mark⟩ := x
    intro full trace hr
    obtain ⟨b, hb⟩ := tracks_serve build line request h
    have hrest := ih hb fun x hx => hr x (List.mem_cons_of_mem _ hx)
    cases mark with
    | false =>
      show follow build line (request :: unmarked marked) s = _
      rw [follow_cons, hrest]
      rfl
    | true =>
      have hsame := serve_refused request h (hr _ List.mem_cons_self rfl)
      calc follow build line (unmarked marked) s
          = follow build line (unmarked marked) (serve build line s request).1 := by rw [hsame]
        _ = _ := hrest

/-- A refused operation changes nothing, and the copy that it renewed was up to
date; so requests that are refused leave the other entries of a transcript as
they are without them. -/
theorem follow_refusals {storage : Storage} {itemSize : UInt64} {r : Ring g} {e : Event}
    (h : Ring.construct line storage itemSize = (.ok ⟨g, r⟩, e)) (build : Build) :
    (∀ ops op,
      let s := (run build ops (split r)).1
      let done := s.step build op
      done.answer.isRefusal = true → done.session = s ∧
        (done.answer.isWant = true →
          ∀ side ∈ op.side?, s.copy side = s.ring.index side.other) ∧
        ∀ dest rest, op = .consume (.pop dest) →
          done.answer = .consumed (.popped none rest) → rest = dest) ∧
      ∀ marked,
        let full := follow build line (marked.map Prod.fst) (split r)
        let trace := marked.zip full.2
        (∀ x ∈ trace, x.1.2 = true → x.2.reply.isRefusal = true) →
          follow build line (unmarked marked) (split r) =
            (full.1, (trace.filter fun x => !x.1.2).map Prod.snd) := by
  constructor
  · intro ops op s done hr
    have htracks := (tracks_construct build ops h).1
    obtain ⟨hsession, hcopy⟩ := step_refused htracks hr
    refine ⟨hsession, hcopy, ?_⟩
    rintro dest rest rfl ha
    exact dest_of_popped_none htracks ha
  · exact fun marked => follow_unmarked build line marked (tracks_construct build [] h).1

/-- Three slots of two bytes. A pop finds no item; then the ring is full, and
after two pushes and a draft were refused, the copy of the producer is shown and
the ring goes on. -/
theorem follow_refusals_three_slots :
    ∃ (g : Geometry) (r : Ring g) (e : Event),
      Ring.construct .line64 ⟨#[1, 2, 3, 4, 5, 6, 7], by decide⟩ 2 = (.ok ⟨g, r⟩, e) ∧
      let ops := [.produce (.push [9]), .produce (.push [8]), .consume (.pop [0]),
        .produce (.push [6])]
      let s := (run .release ops (split r)).1
      let done := s.step .release (.produce (.push [5]))
      let marked := [(.act (.consume (.pop [7, 7])), true), (.act (.produce (.push [9])), false),
        (.act (.produce (.push [8])), false), (.act (.produce (.push [5])), true),
        (.act (.produce (.push [3, 3, 3])), true), (.act (.produce .draft), true),
        (.describe .producer false, false), (.act (.consume (.pop [0])), false),
        (.act (.produce .draft), false), (.act .resplit, false)]
      let full := follow .release .line64 (marked.map Prod.fst) (split r)
      let trace := marked.zip full.2
      done.answer = .produced (.refused .full) ∧ done.session = s ∧
        s.producer.cachedRead = 1 ∧ s.ring.readIndex = 1 ∧
        (trace.map fun x => x.2.reply.isRefusal) = marked.map Prod.snd ∧
        follow .release .line64 (unmarked marked) (split r) =
          (full.1, (trace.filter fun x => !x.1.2).map Prod.snd) := by
  refine ⟨_, _, _, rfl, ?_⟩
  intro ops s done marked full trace
  obtain ⟨hrefused, hfollow⟩ :=
    @follow_refusals _ .line64 ⟨#[1, 2, 3, 4, 5, 6, 7], by decide⟩ 2 _ _ rfl .release
  have hanswer : done.answer = .produced (.refused .full) := by decide +kernel
  have hsession := (hrefused ops (.produce (.push [5])) (congrArg Answer.isRefusal hanswer)).1
  exact ⟨hanswer, hsession, by decide +kernel, by decide +kernel, by decide +kernel,
    hfollow marked (by decide +kernel)⟩

end Transcript

end SlotRing
