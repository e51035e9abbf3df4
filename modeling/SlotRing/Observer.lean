import SlotRing.Addressing

/-!
# Observers

What either half can ask about the ring while the other one works. Each
question loads the write index first and the read index second; the two loads
are separate accesses, so the answer is a snapshot of nothing but the indices
it saw.
-/

set_option autoImplicit false

namespace SlotRing

structure Observation where
  length : UInt64
  isEmpty : Bool
  isFull : Bool
  deriving DecidableEq, Repr

namespace Observer

open Access

/-- The number of published slots that are not freed yet. Past the end of the
storage it is a difference first and a sum then, and either may overflow. -/
def length (g : Geometry) : Access UInt64 := do
  let write ← load .producer
  let read ← load .consumer
  demand (read ≤ write ∨
    read ≤ g.slotCount ∧ g.slotCount.toNat - read.toNat + write.toNat < UInt64.size)
    (if read ≤ g.slotCount then .addOverflow else .subOverflow)
  pure (Cyclic.distance g.slotCount read write)

def isEmpty : Access Bool := do
  let write ← load .producer
  let read ← load .consumer
  pure (write == read)

def isFull (g : Geometry) : Access Bool := do
  let write ← load .producer
  let next ← g.advance write
  let read ← load .consumer
  pure (next == read)

def observe (g : Geometry) : Access Observation := do
  let length ← length g
  let empty ← isEmpty
  let full ← isFull g
  pure ⟨length, empty, full⟩

def see (build : Build) {g : Geometry} (r : Ring g) : Except Fault Observation :=
  ((observe g).run build r).result

end Observer

end SlotRing
