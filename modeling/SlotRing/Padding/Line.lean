/-!
# Cache lines

The line sizes that a value can be padded to.
-/

set_option autoImplicit false

namespace SlotRing.Padding

inductive Line where
  | line32
  | line64
  | line128
  deriving DecidableEq, Repr

namespace Line

def size : Line → Nat
  | .line32 => 32
  | .line64 => 64
  | .line128 => 128

def marker : Line → String
  | .line32 => "Line32"
  | .line64 => "Line64"
  | .line128 => "Line128"

def ofSize? : Nat → Option Line
  | 32 => some .line32
  | 64 => some .line64
  | 128 => some .line128
  | _ => none

theorem size_pos (l : Line) : 0 < l.size := by
  cases l <;> decide

theorem isPowerOfTwo_size (l : Line) : l.size.isPowerOfTwo := by
  cases l with
  | line32 => exact ⟨5, rfl⟩
  | line64 => exact ⟨6, rfl⟩
  | line128 => exact ⟨7, rfl⟩

end Line

end SlotRing.Padding
