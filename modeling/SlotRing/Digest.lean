/-!
# Digest of a byte sequence

The 64-bit FNV-1a digest: from the offset basis on, each byte is mixed into
the low end and the word is multiplied by the prime.
-/

set_option autoImplicit false

namespace SlotRing.Digest

def offsetBasis : UInt64 := 0xcbf29ce484222325

def prime : UInt64 := 0x100000001b3

def mix (digest : UInt64) (byte : UInt8) : UInt64 := (digest ^^^ byte.toUInt64) * prime

def extend (digest : UInt64) (bytes : List UInt8) : UInt64 := bytes.foldl mix digest

def hex (digest : UInt64) : String :=
  let digits := Nat.toDigits 16 digest.toNat
  String.ofList (List.replicate (16 - digits.length) '0' ++ digits)

end SlotRing.Digest
