import SlotRing.Addressing

/-!
# Counters and places

Indices go round; the counters behind them do not. The `k`-th item of a ring,
counted over its whole life, takes the slot at `place k`, whose first byte is
at `base k`. Two counters less than one round apart have different places and
disjoint slots, so every comparison of indices is one of counters.
-/

set_option autoImplicit false

namespace SlotRing

namespace Geometry

variable (g : Geometry)

def slots : Nat := g.slotCount.toNat

def place (k : Nat) : UInt64 := UInt64.ofNat (k % g.slots)

def base (k : Nat) : Nat := k % g.slots * g.slotSize

theorem two_le_slots : 2 ≤ g.slots := g.two_le_slotCount

theorem slots_lt : g.slots < UInt64.size := g.slotCount.toNat_lt

theorem toNat_capacity : g.capacity.toNat = g.slots - 1 :=
  UInt64.toNat_sub_of_le _ _ (UInt64.le_iff_toNat_le.mpr
    (Nat.le_trans (Nat.le_succ 1) g.two_le_slots))

theorem mod_slots_lt (k : Nat) : k % g.slots < g.slots :=
  Nat.mod_lt k (Nat.lt_of_lt_of_le Nat.two_pos g.two_le_slots)

theorem place_toNat (k : Nat) : (g.place k).toNat = k % g.slots := by
  rw [place, UInt64.toNat_ofNat']
  exact Nat.mod_eq_of_lt (Nat.lt_trans (g.mod_slots_lt k) g.slots_lt)

theorem place_lt (k : Nat) : g.place k < g.slotCount := by
  rw [UInt64.lt_iff_toNat_lt, place_toNat]
  exact g.mod_slots_lt k

theorem place_zero : g.place 0 = 0 := by
  rw [place, Nat.zero_mod]
  rfl

theorem next_place (k : Nat) : g.next (g.place k) = g.place (k + 1) := by
  apply UInt64.toNat_inj.mp
  have hk : (g.place k).toNat < g.slotCount.toNat := UInt64.lt_iff_toNat_lt.mp (g.place_lt k)
  rw [next, Cyclic.toNat_next hk, place_toNat, place_toNat]
  exact Nat.mod_add_mod k g.slots 1

theorem mod_inj_window {n a b : Nat} (hab : a ≤ b) (hb : b < a + n) (h : a % n = b % n) :
    a = b := by
  have hd : n ∣ b - a := Nat.dvd_of_mod_eq_zero (Nat.sub_mod_eq_zero_of_mod_eq h.symm)
  have hz : b - a = 0 := Nat.eq_zero_of_dvd_of_lt hd (by omega)
  omega

theorem mod_sub_window {n a b : Nat} (hab : a ≤ b) (hb : b < a + n) :
    (b % n + n - a % n) % n = b - a := by
  obtain ⟨d, rfl⟩ := Nat.exists_eq_add_of_le hab
  have ha : a % n < n := Nat.mod_lt a (by omega)
  rw [← Nat.mod_add_mod, Nat.add_sub_cancel_left]
  by_cases h : a % n + d < n
  · rw [Nat.mod_eq_of_lt h, show a % n + d + n - a % n = d + n by omega, Nat.add_mod_right,
      Nat.mod_eq_of_lt (by omega)]
  · have hround : (a % n + d) % n = a % n + d - n := by
      rw [Nat.mod_eq_sub_mod (Nat.le_of_not_lt h), Nat.mod_eq_of_lt (by omega)]
    rw [hround, show a % n + d - n + n - a % n = d by omega, Nat.mod_eq_of_lt (by omega)]

theorem mod_sub_succ_window {n a b : Nat} (hab : a ≤ b) (hb : b < a + n) :
    (a % n + n - (b % n + 1)) % n = a + n - (b + 1) := by
  have hwindow := @mod_sub_window n (b + 1) (a + n) (by omega) (by omega)
  have hlt : b % n < n := Nat.mod_lt b (by omega)
  rw [Nat.add_mod_right, ← Nat.mod_add_mod b n 1] at hwindow
  by_cases h : b % n + 1 < n
  · rwa [Nat.mod_eq_of_lt h] at hwindow
  · have hround : b % n + 1 = n := by omega
    rw [hround, Nat.mod_self, Nat.sub_zero, Nat.add_mod_right] at hwindow
    rwa [hround, Nat.add_sub_cancel]

theorem place_inj {a b : Nat} (hab : a ≤ b) (hb : b < a + g.slots) :
    g.place a = g.place b ↔ a = b := by
  constructor
  · intro h
    have hm := congrArg UInt64.toNat h
    rw [place_toNat, place_toNat] at hm
    exact mod_inj_window hab hb hm
  · intro h
    rw [h]

theorem place_add_slots (k : Nat) : g.place (k + g.slots) = g.place k := by
  rw [place, place, Nat.add_mod_right]

/-- The successor meets an index at most one round behind only when the
counters are a whole round apart. -/
theorem place_succ_eq_iff {seen k : Nat} (h : seen ≤ k) (hk : k < seen + g.slots) :
    g.place (k + 1) = g.place seen ↔ k + 1 = seen + g.slots := by
  constructor
  · intro he
    by_cases hlt : k + 1 < seen + g.slots
    · have := (g.place_inj (Nat.le_succ_of_le h) hlt).mp he.symm
      omega
    · omega
  · intro he
    rw [he, place_add_slots]

theorem toNat_distance_place {a b : Nat} (hab : a ≤ b) (hb : b < a + g.slots) :
    (Cyclic.distance g.slotCount (g.place a) (g.place b)).toNat = b - a := by
  have hlt : ∀ k, (g.place k).toNat < g.slotCount.toNat :=
    fun k => UInt64.lt_iff_toNat_lt.mp (g.place_lt k)
  rw [Cyclic.toNat_distance (hlt a) (hlt b), place_toNat, place_toNat]
  exact mod_sub_window hab hb

theorem base_add_slots (k : Nat) : g.base (k + g.slots) = g.base k := by
  rw [base, base, Nat.add_mod_right]

theorem base_fits (k : Nat) : g.base k + g.slotSize ≤ g.storageLen.toNat := by
  have hs : (k % g.slots + 1) * g.slotSize ≤ g.slots * g.slotSize :=
    Nat.mul_le_mul_right _ (g.mod_slots_lt k)
  rw [Nat.succ_mul] at hs
  exact Nat.le_trans hs g.slots_fit

theorem base_lt (k : Nat) : g.base k < UInt64.size := by
  have hk : g.base k < g.base k + g.slotSize := Nat.lt_add_of_pos_right g.slotSize_pos
  exact Nat.lt_trans (Nat.lt_of_lt_of_le hk (g.base_fits k)) g.storageLen.toNat_lt

theorem start_place (k : Nat) : (g.start (g.place k)).toNat = g.base k := by
  rw [start, UInt64.toNat_mul, place_toNat]
  exact Nat.mod_eq_of_lt (g.base_lt k)

/-- Slots of counters less than one round apart do not overlap. -/
theorem base_apart {a b : Nat} (hab : a < b) (hb : b < a + g.slots) :
    g.base a + g.slotSize ≤ g.base b ∨ g.base b + g.slotSize ≤ g.base a := by
  have hne : a % g.slots ≠ b % g.slots := by
    intro h
    have := mod_inj_window (Nat.le_of_lt hab) hb h
    omega
  rcases Nat.lt_or_gt_of_ne hne with h | h
  · left
    have := Nat.mul_le_mul_right g.slotSize (Nat.succ_le_of_lt h)
    rwa [Nat.succ_mul] at this
  · right
    have := Nat.mul_le_mul_right g.slotSize (Nat.succ_le_of_lt h)
    rwa [Nat.succ_mul] at this

end Geometry

/-! ## Writing bytes in a row -/

def overlay (position : Nat) (bytes slot : List UInt8) : List UInt8 :=
  slot.take position ++ bytes ++ slot.drop (position + bytes.length)

namespace Storage

def write (s : Storage) (address : Nat) : List UInt8 → Storage
  | [] => s
  | b :: rest => (s.set address b).write (address + 1) rest

theorem size_write (s : Storage) (address : Nat) (bytes : List UInt8) :
    (s.write address bytes).size = s.size := by
  induction bytes generalizing s address with
  | nil => rfl
  | cons b rest ih => rw [write, ih, size_set]

theorem get_write_outside (s : Storage) (address : Nat) (bytes : List UInt8) (a : Nat)
    (h : a < address ∨ address + bytes.length ≤ a) : (s.write address bytes).get a = s.get a := by
  induction bytes generalizing s address with
  | nil => rfl
  | cons b rest ih =>
    rw [List.length_cons] at h
    rw [write, ih _ _ (by omega)]
    exact get_set_other _ _ _ _ (by omega)

theorem get_write_inside (s : Storage) (address : Nat) (bytes : List UInt8) (j : Nat)
    (hj : j < bytes.length) (h : address + bytes.length ≤ s.size) :
    (s.write address bytes).get (address + j) = bytes[j] := by
  induction bytes generalizing s address j with
  | nil => exact absurd hj (Nat.not_lt_zero j)
  | cons b rest ih =>
    rw [List.length_cons] at hj h
    rw [write]
    cases j with
    | zero =>
      rw [get_write_outside _ _ _ _ (by omega)]
      exact get_set_same _ _ _ (by omega)
    | succ j =>
      have := ih (s.set address b) (address + 1) j (by omega) (by rw [size_set]; omega)
      rwa [show address + (j + 1) = address + 1 + j by omega]

theorem slice_congr {s t : Storage} {start count : Nat}
    (h : ∀ j < count, s.get (start + j) = t.get (start + j)) :
    s.slice start count = t.slice start count := by
  apply List.map_congr_left
  intro j hj
  exact h j (List.mem_range.mp hj)

theorem getElem?_slice (s : Storage) (start : Nat) {count j : Nat} (h : j < count) :
    (s.slice start count)[j]? = some (s.get (start + j)) := by
  simp [slice, h]

theorem take_slice (s : Storage) (start count len : Nat) :
    (s.slice start count).take len = s.slice start (min len count) := by
  rw [slice, slice, ← List.map_take, List.take_range]

theorem slice_write_apart (s : Storage) (address : Nat) (bytes : List UInt8) {start count : Nat}
    (h : address + bytes.length ≤ start ∨ start + count ≤ address) :
    (s.write address bytes).slice start count = s.slice start count := by
  apply slice_congr
  intro j hj
  exact get_write_outside _ _ _ _ (by omega)

theorem slice_write_within (s : Storage) (start count position : Nat) (bytes : List UInt8)
    (hb : position + bytes.length ≤ count) (hs : start + count ≤ s.size) :
    (s.write (start + position) bytes).slice start count =
      overlay position bytes (s.slice start count) := by
  apply List.ext_getElem?
  intro j
  by_cases hj : j < count
  · rw [getElem?_slice _ _ hj, overlay, List.append_assoc]
    by_cases hp : j < position
    · rw [get_write_outside _ _ _ _ (by omega), List.getElem?_append_left (by simp; omega),
        List.getElem?_take_of_lt hp, getElem?_slice _ _ hj]
    · rw [List.getElem?_append_right (by simp; omega)]
      have hl : (List.take position (s.slice start count)).length = position := by simp; omega
      rw [hl]
      by_cases hq : j - position < bytes.length
      · rw [List.getElem?_append_left hq, List.getElem?_eq_getElem hq,
          ← get_write_inside s (start + position) bytes (j - position) hq (by omega)]
        congr 2
        omega
      · rw [List.getElem?_append_right (by omega), List.getElem?_drop,
          get_write_outside _ _ _ _ (by omega),
          show position + bytes.length + (j - position - bytes.length) = j by omega,
          getElem?_slice _ _ hj]
  · rw [List.getElem?_eq_none (by simp; omega), List.getElem?_eq_none]
    simp [overlay]
    omega

end Storage

end SlotRing
