import SlotRing.Padding.Line

/-!
# Layout of padded values

Sizes and alignments in memory. The fields of a record are placed in order,
each at the first offset that its alignment divides, and the record ends at
the next multiple of the largest alignment. Padding a value to a line puts it
behind a field of no size that is aligned to the line.
-/

set_option autoImplicit false

namespace SlotRing.Padding

structure Layout where
  size : Nat
  align : Nat
  deriving DecidableEq, Repr

namespace Layout

def roundUp (n align : Nat) : Nat := (n + (align - 1)) / align * align

theorem le_roundUp (n : Nat) {align : Nat} (h : 0 < align) : n ≤ roundUp n align := by
  have hm := Nat.div_add_mod (n + (align - 1)) align
  have hr := Nat.mod_lt (n + (align - 1)) h
  rw [roundUp, Nat.mul_comm]
  omega

theorem align_dvd_roundUp (n align : Nat) : align ∣ roundUp n align := Nat.dvd_mul_left _ _

theorem roundUp_le {n align m : Nat} (h : 0 < align) (hn : n ≤ m) (hm : align ∣ m) :
    roundUp n align ≤ m := by
  obtain ⟨k, rfl⟩ := hm
  rw [roundUp, Nat.mul_comm align]
  apply Nat.mul_le_mul_right
  rw [← Nat.lt_succ_iff, Nat.div_lt_iff_lt_mul h, Nat.succ_mul, Nat.mul_comm k]
  omega

theorem roundUp_zero (align : Nat) : roundUp 0 align = 0 := by
  rw [roundUp, Nat.zero_add]
  rcases Nat.eq_zero_or_pos align with h | h
  · rw [h, Nat.mul_zero]
  · rw [Nat.div_eq_of_lt (Nat.sub_one_lt_of_lt h), Nat.zero_mul]

/-- Rounding up to a divisor first makes no difference. -/
theorem roundUp_roundUp {n a b : Nat} (ha : 0 < a) (hb : 0 < b) (hab : a ∣ b) :
    roundUp (roundUp n a) b = roundUp n b := by
  apply Nat.le_antisymm
  · apply roundUp_le hb _ (align_dvd_roundUp n b)
    exact roundUp_le ha (le_roundUp n hb) (Nat.dvd_trans hab (align_dvd_roundUp n b))
  · apply roundUp_le hb _ (align_dvd_roundUp _ b)
    exact Nat.le_trans (le_roundUp n ha) (le_roundUp _ hb)

def word (size : Nat) : Layout := ⟨size, size⟩

def bytes (size : Nat) : Layout := ⟨size, 1⟩

def append (fields field : Layout) : Layout where
  size := roundUp fields.size field.align + field.size
  align := max fields.align field.align

def record (fields : List Layout) : Layout :=
  let all := fields.foldl append ⟨0, 1⟩
  ⟨roundUp all.size all.align, all.align⟩

def padded (line : Line) (value : Layout) : Layout := record [⟨0, line.size⟩, value]

/-- A ring: both indices on lines of their own, and the geometry, an address
and three words, on the one after. -/
def ring (line : Line) : Layout :=
  record [padded line (word 8), padded line (word 8), record (List.replicate 4 (word 8))]

end Layout

end SlotRing.Padding
