import Mathlib.Data.Nat.ModEq
import Mathlib.Data.Set.Function
import SlotRing.Proofs.Observing

/-!
# Going round

The successor of an index multiplies by a comparison bit, and the number of
published slots is one of two subtractions. Both stand for arithmetic modulo the
number of slots, whatever it is: `k` successors add `k` (`toNat_iterate_next`), so
that many rounds lead back and nothing less does, and the distance of two indices
counts the successors between them (`next_goesRound`).
-/

set_option autoImplicit false

namespace SlotRing

namespace Cyclic

variable {n i j : UInt64}

theorem next_lt (h : i < n) : next n i < n := by
  rw [UInt64.lt_iff_toNat_lt] at h ⊢
  rw [toNat_next h]
  exact Nat.mod_lt _ (Nat.zero_lt_of_lt h)

theorem distance_lt (hi : i < n) (hj : j < n) : distance n i j < n := by
  rw [UInt64.lt_iff_toNat_lt] at hi hj ⊢
  rw [toNat_distance hi hj]
  exact Nat.mod_lt _ (Nat.zero_lt_of_lt hi)

theorem mapsTo_next (n : UInt64) : Set.MapsTo (next n) {i | i < n} {i | i < n} :=
  fun _ h => next_lt h

theorem toNat_iterate_next (h : i < n) (k : Nat) :
    ((next n)^[k] i).toNat = (i.toNat + k) % n.toNat := by
  induction k with
  | zero => exact (Nat.mod_eq_of_lt (UInt64.lt_iff_toNat_lt.mp h)).symm
  | succ k ih =>
    have hk : (next n)^[k] i < n := (mapsTo_next n).iterate k h
    rw [Function.iterate_succ_apply', toNat_next (UInt64.lt_iff_toNat_lt.mp hk), ih,
      Nat.mod_add_mod, Nat.add_assoc]

theorem iterate_next_eq_self_iff (h : i < n) (k : Nat) : (next n)^[k] i = i ↔ n.toNat ∣ k := by
  rw [← UInt64.toNat_inj, toNat_iterate_next h, ← Nat.add_modEq_left_iff, Nat.ModEq,
    Nat.mod_eq_of_lt (UInt64.lt_iff_toNat_lt.mp h)]

/-- The index before `i` is reached by going on from `i` for a round less one step. -/
theorem bijOn_next (n : UInt64) : Set.BijOn (next n) {i | i < n} {i | i < n} := by
  have hround : ∀ i < n, (next n)^[n.toNat - 1 + 1] i = i := by
    intro i hi
    have hn : 0 < n.toNat := Nat.zero_lt_of_lt (UInt64.lt_iff_toNat_lt.mp hi)
    rw [Nat.sub_add_cancel hn]
    exact (iterate_next_eq_self_iff hi n.toNat).mpr (Nat.dvd_refl _)
  refine Set.InvOn.bijOn ⟨fun i hi => ?_, fun i hi => ?_⟩ (mapsTo_next n)
    ((mapsTo_next n).iterate (n.toNat - 1))
  · exact (Function.iterate_succ_apply (next n) (n.toNat - 1) i).symm.trans (hround i hi)
  · exact (Function.iterate_succ_apply' (next n) (n.toNat - 1) i).symm.trans (hround i hi)

/-- The distance of two indices is the number of successors from one to the other,
full rounds left out. -/
theorem iterate_next_eq_iff (hi : i < n) (hj : j < n) {m : Nat} (hm : m < n.toNat) :
    (next n)^[m] i = j ↔ m = (distance n i j).toNat := by
  have hi' := UInt64.lt_iff_toNat_lt.mp hi
  have hj' := UInt64.lt_iff_toNat_lt.mp hj
  rw [← UInt64.toNat_inj, toNat_iterate_next hi, toNat_distance hi' hj']
  constructor
  · intro hsum
    have hwindow := @Geometry.mod_sub_window n.toNat i.toNat (i.toNat + m)
      (Nat.le_add_right _ _) (Nat.add_lt_add_left hm _)
    rw [hsum, Nat.mod_eq_of_lt hi', Nat.add_sub_cancel_left] at hwindow
    exact hwindow.symm
  · intro hdiff
    rw [hdiff, Nat.add_mod_mod, Nat.add_sub_of_le (by omega), Nat.add_mod_right,
      Nat.mod_eq_of_lt hj']

/-- The successor among `n` indices is the one modulo `n`: it passes through every
index and comes back after full rounds only, and what an observer counts is how
many successors lead from the read index to the write index. -/
structure GoesRound (n : UInt64) : Prop where
  succ : ∀ i < n, (next n i).toNat = (i.toNat + 1) % n.toNat ∧ next n i < n
  iterate : ∀ i < n, ∀ k, ((next n)^[k] i).toNat = (i.toNat + k) % n.toNat
  bijOn : Set.BijOn (next n) {i | i < n} {i | i < n}
  returns : ∀ i < n, ∀ k, (next n)^[k] i = i ↔ n.toNat ∣ k
  between : ∀ read < n, ∀ write < n, distance n read write < n ∧
    ∀ m < n.toNat, (next n)^[m] read = write ↔ m = (distance n read write).toNat
  observed : ∀ (build : Build) (g : Geometry) (r : Ring g), g.slotCount = n →
    r.readIndex < n → r.writeIndex < n →
      ∃ seen, Observer.see build r = .ok seen ∧
        seen.length = distance n r.readIndex r.writeIndex

/-- Indices go round among any number of slots that a word can hold. -/
theorem next_goesRound (n : UInt64) : GoesRound n where
  succ _ hi := ⟨toNat_next (UInt64.lt_iff_toNat_lt.mp hi), next_lt hi⟩
  iterate _ hi := toNat_iterate_next hi
  bijOn := bijOn_next n
  returns _ hi := iterate_next_eq_self_iff hi
  between _ hread _ hwrite :=
    ⟨distance_lt hread hwrite, fun _ hm => iterate_next_eq_iff hread hwrite hm⟩
  observed := by
    rintro build g r rfl hread hwrite
    exact ⟨_, Observer.see_below build ⟨hwrite, hread⟩, rfl⟩

/-- Among as many slots as a word can number, the last index is followed by the first,
and three successors lead from the last but one to the second. -/
theorem next_goesRound_largest :
    let n : UInt64 := 18446744073709551615
    GoesRound n ∧ next n (n - 1) = 0 ∧ (next n)^[3] (n - 2) = 1 ∧ distance n (n - 2) 1 = 3 ∧
      (next n)^[2 * n.toNat] (n - 2) = n - 2 := by
  intro n
  have hround : GoesRound n := next_goesRound n
  exact ⟨hround, by decide, by decide, by decide,
    (hround.returns (n - 2) (by decide) _).mpr (Nat.dvd_mul_left _ _)⟩

end Cyclic

end SlotRing
