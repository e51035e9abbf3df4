/-!
# Backing storage

A block of bytes with total access: a load outside the block gives zero and
a store outside it changes nothing. The length fits a 64-bit word, so an
address inside the block is always a machine number.
-/

set_option autoImplicit false

namespace SlotRing

structure Storage where
  bytes : Array UInt8
  size_lt : bytes.size < UInt64.size

namespace Storage

def size (s : Storage) : Nat := s.bytes.size

def length (s : Storage) : UInt64 := UInt64.ofNat s.bytes.size

def get (s : Storage) (address : Nat) : UInt8 := s.bytes.getD address 0

def set (s : Storage) (address : Nat) (byte : UInt8) : Storage where
  bytes := s.bytes.setIfInBounds address byte
  size_lt := by simpa using s.size_lt

def slice (s : Storage) (start count : Nat) : List UInt8 :=
  (List.range count).map fun j => s.get (start + j)

def toList (s : Storage) : List UInt8 := s.bytes.toList

def ofList? (bytes : List UInt8) : Option Storage :=
  if h : bytes.toArray.size < UInt64.size then some ⟨bytes.toArray, h⟩ else none

@[simp] theorem toNat_length (s : Storage) : s.length.toNat = s.size := by
  simp only [length, size, UInt64.toNat_ofNat']
  exact Nat.mod_eq_of_lt s.size_lt

@[simp] theorem size_set (s : Storage) (address : Nat) (byte : UInt8) :
    (s.set address byte).size = s.size := by
  simp [set, size]

theorem get_set_same (s : Storage) (address : Nat) (byte : UInt8) (h : address < s.size) :
    (s.set address byte).get address = byte := by
  simp only [size] at h
  simp [get, set, Array.getD_eq_getD_getElem?, h]

theorem get_set_other (s : Storage) (address other : Nat) (byte : UInt8) (h : other ≠ address) :
    (s.set address byte).get other = s.get other := by
  simp [get, set, Array.getD_eq_getD_getElem?, Ne.symm h]

theorem slice_succ (s : Storage) (start count : Nat) :
    s.slice start (count + 1) = s.get start :: s.slice (start + 1) count := by
  simp [slice, List.range_succ_eq_map, Function.comp_def, Nat.add_assoc, Nat.add_comm 1]

@[simp] theorem length_slice (s : Storage) (start count : Nat) :
    (s.slice start count).length = count := by
  simp [slice]

end Storage

end SlotRing
