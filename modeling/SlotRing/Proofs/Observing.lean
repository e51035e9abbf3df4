import SlotRing.Proofs.Builds

/-!
# What observers see

A question is two loads, and the other half may move between them. Only one of
the two indices can change then, the one the asking half does not own, so the
pair that was loaded is still that of one ledger on the way: of the one at the
second load if the producer asks, of the one at the first if the consumer does
(`exists_snapshot`). The answer is exact for that ledger (`safe_ask`). Without
interruption the answers agree with each other, even for indices that no run
comes to.
-/

set_option autoImplicit false

namespace SlotRing

open Access

variable {g : Geometry}

/-! ## Of two indices -/

theorem Observer.see_below (build : Build) {r : Ring g} (hr : r.Below) :
    see build r = .ok ⟨Cyclic.distance g.slotCount r.readIndex r.writeIndex,
      r.writeIndex == r.readIndex, g.next r.writeIndex == r.readIndex⟩ := by
  cases build with
  | release => rfl
  | checked => exact see_checked hr

inductive Question where
  | length
  | isEmpty
  | isFull
  deriving DecidableEq, Repr

inductive Seen where
  | count (n : UInt64)
  | flag (holds : Bool)
  deriving DecidableEq, Repr

namespace Question

def ask (g : Geometry) : Question → Access Seen
  | .length => do
    let n ← Observer.length g
    pure (.count n)
  | .isEmpty => do
    let holds ← Observer.isEmpty
    pure (.flag holds)
  | .isFull => do
    let holds ← Observer.isFull g
    pure (.flag holds)

def answer (g : Geometry) (write read : UInt64) : Question → Seen
  | .length => .count (Cyclic.distance g.slotCount read write)
  | .isEmpty => .flag (write == read)
  | .isFull => .flag (g.next write == read)

def Exact (g : Geometry) (k : Nat) : Question → Seen → Prop
  | .length, .count n => n.toNat = k
  | .isEmpty, .flag holds => holds = true ↔ k = 0
  | .isFull, .flag holds => holds = true ↔ k = g.capacity.toNat
  | _, _ => False

end Question

namespace Geometry

theorem exists_counters {write read : UInt64} (hw : write < g.slotCount)
    (hr : read < g.slotCount) :
    ∃ published freed, freed ≤ published ∧ published < freed + g.slots ∧
      g.place published = write ∧ g.place freed = read := by
  have hw' : write.toNat < g.slots := UInt64.lt_iff_toNat_lt.mp hw
  have hr' : read.toNat < g.slots := UInt64.lt_iff_toNat_lt.mp hr
  by_cases hle : read.toNat ≤ write.toNat
  · exact ⟨write.toNat, read.toNat, hle, by omega, place_toNat_of_lt hw, place_toNat_of_lt hr⟩
  · refine ⟨write.toNat + g.slots, read.toNat, by omega, by omega, ?_, place_toNat_of_lt hr⟩
    rw [g.place_add_slots, place_toNat_of_lt hw]

end Geometry

/-- The answer to the places of two counters is right for their difference. -/
theorem Question.exact_answer (q : Question) {published freed : Nat} (hle : freed ≤ published)
    (hlt : published < freed + g.slots) :
    q.Exact g (published - freed) (q.answer g (g.place published) (g.place freed)) := by
  cases q with
  | length => exact g.toNat_distance_place hle hlt
  | isEmpty =>
    show (g.place published == g.place freed) = true ↔ published - freed = 0
    rw [beq_iff_eq, eq_comm, g.place_inj hle hlt]
    omega
  | isFull =>
    have hslots := g.two_le_slots
    show (g.next (g.place published) == g.place freed) = true ↔
      published - freed = g.capacity.toNat
    rw [beq_iff_eq, g.next_place, g.place_succ_eq_iff hle hlt, g.toNat_capacity]
    omega

structure Observation.Consistent (g : Geometry) (seen : Observation) : Prop where
  length_le : seen.length ≤ g.capacity
  isEmpty_iff : seen.length = 0 ↔ seen.isEmpty = true
  isFull_iff : seen.length = g.capacity ↔ seen.isFull = true

/-- The three answers agree for any two indices, whether or not a ring can come to
them. -/
theorem Observer.see_consistent (build : Build) {r : Ring g} (hr : r.Below) :
    ∃ seen, see build r = .ok seen ∧ seen.Consistent g := by
  obtain ⟨published, freed, hle, hlt, hw, hf⟩ := Geometry.exists_counters hr.writeIndex hr.readIndex
  refine ⟨_, see_below build hr, ?_⟩
  have hlength : (Cyclic.distance g.slotCount r.readIndex r.writeIndex).toNat =
      published - freed := by
    rw [← hw, ← hf]
    exact Question.exact_answer .length hle hlt
  have hempty : (r.writeIndex == r.readIndex) = true ↔ published - freed = 0 := by
    rw [← hw, ← hf]
    exact Question.exact_answer .isEmpty hle hlt
  have hfull : (g.next r.writeIndex == r.readIndex) = true ↔
      published - freed = g.capacity.toNat := by
    rw [← hw, ← hf]
    exact Question.exact_answer .isFull hle hlt
  constructor
  · rw [UInt64.le_iff_toNat_le, hlength, g.toNat_capacity]
    omega
  · rw [hempty, ← UInt64.toNat_inj, hlength]
    rfl
  · rw [hfull, ← UInt64.toNat_inj, hlength]

/-! ## Of two ledgers -/

namespace Ledger

def size (b : Ledger g) : Nat := b.published - b.freed

/-- Whichever side looks on, the write index as it was before the other side
moved and the read index as it is after belong to one ledger. -/
theorem exists_snapshot {side : Side} {c d : Ledger g} (hv : c.Valid) (h : Moves side.other c d) :
    ∃ e, Moves side.other c e ∧ Moves side.other e d ∧ e.published = c.published ∧
      e.freed = d.freed := by
  cases side with
  | producer => exact ⟨d, h, moves_refl _ h.1, published_consumer h, rfl⟩
  | consumer => exact ⟨c, moves_refl _ hv, h, rfl, h.2.1.symm⟩

end Ledger

def Question.Saw (side : Side) (q : Question) (b : Ledger g) (v : Seen) (d : Ledger g) : Prop :=
  ∃ e, e.Valid ∧ Ledger.Moves side.other b e ∧ Ledger.Moves side.other e d ∧ q.Exact g e.size v

theorem Question.saw_loads {side : Side} {b c d d' : Ledger g} (q : Question)
    (hc : Ledger.Moves side.other b c) (hd : Ledger.Moves side.other c d)
    (hd' : Ledger.Moves side.other d d') :
    q.Saw side b (q.answer g (g.place c.published) (g.place d.freed)) d' := by
  have hv : c.Valid := Ledger.moves_valid hc
  obtain ⟨e, hce, hed, hp, hf⟩ := Ledger.exists_snapshot hv hd
  have he : e.Valid := Ledger.moves_valid hce
  rw [← hp, ← hf]
  exact ⟨e, he, Ledger.moves_trans hc hce, Ledger.moves_trans hed hd',
    q.exact_answer he.freed_le he.published_lt⟩

/-- A half that asks while the other one moves gets a right answer. -/
theorem Question.safe_ask (side : Side) (q : Question) {b : Ledger g} :
    Safe .release side true (q.ask g)
      (fun _ r d => Ledger.Moves side.other b d ∧ ∃ v, r = .ok v ∧ q.Saw side b v d) b := by
  -- One ledger for each access: the loads of the two indices, and a check after or between them.
  cases q with
  | length =>
    intro c hc d hd d' hd'
    exact ⟨Ledger.moves_trans hc (Ledger.moves_trans hd hd'), _, rfl,
      Question.saw_loads .length hc hd hd'⟩
  | isEmpty =>
    intro c hc d hd
    exact ⟨Ledger.moves_trans hc hd, _, rfl,
      Question.saw_loads .isEmpty hc hd (Ledger.moves_refl _ (Ledger.moves_valid hd))⟩
  | isFull =>
    intro c hc c' hc' d hd
    have hd' := Ledger.moves_trans hc' hd
    exact ⟨Ledger.moves_trans hc hd', _, rfl,
      Question.saw_loads .isFull hc hd' (Ledger.moves_refl _ (Ledger.moves_valid hd))⟩

end SlotRing
