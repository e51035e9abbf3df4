import SlotRing.Access

/-!
# Addressing slots

The accesses that operations of both halves share: advancing an index,
finding the address of a slot, and loading or storing its bytes. A checked
build demands that no index arithmetic overflows, that the slot is one of
the ring's and that no item is longer than its slot.
-/

set_option autoImplicit false

namespace SlotRing.Geometry

open Access

def advance (g : Geometry) (index : UInt64) : Access UInt64 := do
  demand (index.toNat + 1 < UInt64.size) .addOverflow
  pure (g.next index)

def address (g : Geometry) (index : UInt64) : Access Nat := do
  demand (index < g.slotCount) (.slotOutOfRange index g.slotCount)
  demand (index.toNat * g.itemSize.toNat < UInt64.size) .mulOverflow
  pure (g.start index).toNat

def loadFront (g : Geometry) (index : UInt64) (count : Nat) : Access (List UInt8) := do
  let start ← g.address index
  loadBytes start count

def loadSlot (g : Geometry) (index : UInt64) : Access (List UInt8) :=
  g.loadFront index g.slotSize

/-- Stores an item at the start of a slot, whose later bytes stay. -/
def storeFront (g : Geometry) (index : UInt64) (item : List UInt8) : Access Unit := do
  demand (item.length ≤ g.slotSize) (.oversizedCopy item.length g.slotSize)
  let start ← g.address index
  storeBytes start item

/-- Stores bytes from a position of a slot on, as far as the slot reaches,
and tells whether all of them went in. -/
def storeWithin (g : Geometry) (index : UInt64) (position : Nat) (bytes : List UInt8) :
    Access Bool := do
  let start ← g.address index
  storeBytes (start + position) (bytes.take (g.slotSize - position))
  pure (bytes.length ≤ g.slotSize - position)

end SlotRing.Geometry
