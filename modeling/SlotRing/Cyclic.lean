/-!
# Cyclic index arithmetic

Indices run through `0, …, n - 1` in 64-bit words. The successor multiplies
by a comparison bit in place of a remainder, and the distance between two
indices is one of two subtractions. On indices below `n` both agree with
arithmetic modulo `n`: `toNat_next` and `toNat_distance`.
-/

set_option autoImplicit false

namespace SlotRing.Cyclic

def next (n i : UInt64) : UInt64 := (i + 1) * (if i + 1 < n then 1 else 0)

def distance (n start stop : UInt64) : UInt64 :=
  if start ≤ stop then stop - start else n - start + stop

theorem next_of_lt (n i : UInt64) (h : i + 1 < n) : next n i = i + 1 := by
  simp [next, h]

theorem next_of_not_lt (n i : UInt64) (h : ¬ i + 1 < n) : next n i = 0 := by
  simp [next, h]

theorem toNat_succ_of_lt {n i : UInt64} (h : i.toNat < n.toNat) : (i + 1).toNat = i.toNat + 1 := by
  have hn := n.toNat_lt
  rw [UInt64.toNat_add, UInt64.toNat_one, Nat.mod_eq_of_lt (by omega)]

/-- The branch-free successor is the successor modulo `n`. -/
theorem toNat_next {n i : UInt64} (h : i.toNat < n.toNat) :
    (next n i).toNat = (i.toNat + 1) % n.toNat := by
  have hs := toNat_succ_of_lt h
  by_cases hlt : i + 1 < n
  · rw [next_of_lt n i hlt, hs, Nat.mod_eq_of_lt]
    rw [UInt64.lt_iff_toNat_lt] at hlt
    omega
  · rw [next_of_not_lt n i hlt]
    rw [UInt64.lt_iff_toNat_lt] at hlt
    rw [show i.toNat + 1 = n.toNat by omega, Nat.mod_self]
    rfl

theorem toNat_distance {n start stop : UInt64} (hs : start.toNat < n.toNat)
    (ht : stop.toNat < n.toNat) :
    (distance n start stop).toNat = (stop.toNat + n.toNat - start.toNat) % n.toNat := by
  have hn := n.toNat_lt
  by_cases h : start ≤ stop
  · have h' := UInt64.le_iff_toNat_le.mp h
    rw [distance, if_pos h, UInt64.toNat_sub_of_le _ _ h]
    rw [show stop.toNat + n.toNat - start.toNat = stop.toNat - start.toNat + n.toNat by omega,
      Nat.add_mod_right, Nat.mod_eq_of_lt (by omega)]
  · have h' : ¬ start.toNat ≤ stop.toNat := fun hle => h (UInt64.le_iff_toNat_le.mpr hle)
    rw [distance, if_neg h, UInt64.toNat_add, UInt64.toNat_sub_of_le _ _
      (UInt64.le_iff_toNat_le.mpr (by omega)), Nat.mod_eq_of_lt (by omega),
      Nat.mod_eq_of_lt (by omega)]
    omega

end SlotRing.Cyclic
