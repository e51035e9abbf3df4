import SlotRing.Storage
import SlotRing.Event

/-!
# The shared memory of a ring

What both halves can reach: the storage and the two indices. The producer is
the only one to store the write index and the consumer the only one to store
the read index; either may load both. Which slots are published is read off
the indices alone, so nothing else is shared.
-/

set_option autoImplicit false

namespace SlotRing

/-- A half of the ring, and thereby the index it owns. -/
inductive Side where
  | producer
  | consumer
  deriving DecidableEq, Repr

@[ext]
structure Ring (g : Geometry) where
  storage : Storage
  writeIndex : UInt64
  readIndex : UInt64
  fits : storage.size = g.storageLen.toNat

namespace Ring

variable {g : Geometry}

def construct (line : Padding.Line) (storage : Storage) (itemSize : UInt64) :
    Except GeometryError ((g : Geometry) × Ring g) × Event :=
  match h : Geometry.ofSizes storage.length itemSize with
  | .error reason => (.error reason, .storageRejected reason)
  | .ok g =>
    (.ok ⟨g, {
      storage
      writeIndex := 0
      readIndex := 0
      fits := by rw [Geometry.storageLen_of_ofSizes h, Storage.toNat_length] }⟩,
      .ringReady g.storageLen g.itemSize g.slotCount line)

def index (r : Ring g) : Side → UInt64
  | .producer => r.writeIndex
  | .consumer => r.readIndex

def setIndex (r : Ring g) : Side → UInt64 → Ring g
  | .producer, i => { r with writeIndex := i }
  | .consumer, i => { r with readIndex := i }

def byte (r : Ring g) (address : Nat) : UInt8 := r.storage.get address

def setByte (r : Ring g) (address : Nat) (byte : UInt8) : Ring g :=
  { r with storage := r.storage.set address byte, fits := by rw [Storage.size_set, r.fits] }

def slot (r : Ring g) (index : UInt64) : List UInt8 :=
  r.storage.slice (g.start index).toNat g.slotSize

end Ring

end SlotRing
