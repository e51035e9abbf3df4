import SlotRing.Cyclic

/-!
# Geometry of a ring

How a storage is cut into slots of one size: as many whole slots as fit, at
least two, from its first byte on. The bytes after the last slot stay unused.
A storage that cannot be cut is refused for exactly one cause.
-/

set_option autoImplicit false

namespace SlotRing

inductive GeometryError where
  | emptyStorage
  | zeroItemSize
  | itemTooLarge (itemSize storageLen : Nat)
  | tooFewSlots (storageLen itemSize slotCount : Nat)
  deriving DecidableEq, Repr

def GeometryError.message : GeometryError → String
  | .emptyStorage => "backing storage is empty"
  | .zeroItemSize => "item size must be greater than zero"
  | .itemTooLarge itemSize storageLen =>
    "item size " ++ toString itemSize ++ " must be smaller than the storage length " ++
      toString storageLen
  | .tooFewSlots storageLen itemSize slotCount =>
    toString storageLen ++ " bytes hold " ++ toString slotCount ++ " slot(s) of " ++
      toString itemSize ++ " bytes, at least 2 are required"

structure Geometry where
  storageLen : UInt64
  itemSize : UInt64
  slotCount : UInt64
  slotCount_eq : slotCount = storageLen / itemSize
  two_le_slotCount : 2 ≤ slotCount.toNat

namespace Geometry

/-- Cuts `storageLen` bytes into slots of `itemSize` bytes. The causes are
tested in a fixed order, so the first that applies is reported. -/
def ofSizes (storageLen itemSize : UInt64) : Except GeometryError Geometry :=
  if storageLen = 0 then .error .emptyStorage
  else if itemSize = 0 then .error .zeroItemSize
  else if storageLen ≤ itemSize then
    .error (.itemTooLarge itemSize.toNat storageLen.toNat)
  else if h : (storageLen / itemSize).toNat < 2 then
    .error (.tooFewSlots storageLen.toNat itemSize.toNat (storageLen / itemSize).toNat)
  else .ok
    { storageLen, itemSize, slotCount := storageLen / itemSize, slotCount_eq := rfl,
      two_le_slotCount := Nat.le_of_not_lt h }

def capacity (g : Geometry) : UInt64 := g.slotCount - 1

def next (g : Geometry) (index : UInt64) : UInt64 := Cyclic.next g.slotCount index

def start (g : Geometry) (index : UInt64) : UInt64 := index * g.itemSize

def slotSize (g : Geometry) : Nat := g.itemSize.toNat

theorem toNat_slotCount (g : Geometry) :
    g.slotCount.toNat = g.storageLen.toNat / g.itemSize.toNat := by
  rw [g.slotCount_eq, UInt64.toNat_div]

theorem slotSize_pos (g : Geometry) : 0 < g.slotSize := by
  have h := g.two_le_slotCount
  rw [toNat_slotCount] at h
  rcases Nat.eq_zero_or_pos g.itemSize.toNat with h0 | h0
  · simp [h0] at h
  · exact h0

theorem slots_fit (g : Geometry) : g.slotCount.toNat * g.slotSize ≤ g.storageLen.toNat := by
  rw [toNat_slotCount]
  exact Nat.div_mul_le_self _ _

theorem storageLen_of_ofSizes {n s : UInt64} {g : Geometry} (h : ofSizes n s = .ok g) :
    g.storageLen = n := by
  simp only [ofSizes] at h
  split at h <;> try contradiction
  split at h <;> try contradiction
  split at h <;> try contradiction
  split at h <;> try contradiction
  cases h
  rfl

theorem itemSize_of_ofSizes {n s : UInt64} {g : Geometry} (h : ofSizes n s = .ok g) :
    g.itemSize = s := by
  simp only [ofSizes] at h
  split at h <;> try contradiction
  split at h <;> try contradiction
  split at h <;> try contradiction
  split at h <;> try contradiction
  cases h
  rfl

end Geometry

end SlotRing
