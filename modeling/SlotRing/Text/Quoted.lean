import SlotRing.Text.Hidden

/-!
# Quoted text

Text between double quotes. Quotes and backslashes are escaped, so are the
tab, the line breaks and the null character by a letter or digit, and every
other character without a visible form by its code point in hexadecimal.
-/

set_option autoImplicit false

namespace SlotRing.Text.Quoted

def isPlain (c : Char) : Bool :=
  if c.toNat < 0x80 then 0x20 ≤ c.toNat && c.toNat ≠ 0x7f else !Hidden.contains c

def escape (c : Char) : List Char :=
  match c with
  | '"' => ['\\', '"']
  | '\\' => ['\\', '\\']
  | '\t' => ['\\', 't']
  | '\n' => ['\\', 'n']
  | '\r' => ['\\', 'r']
  | '\x00' => ['\\', '0']
  | c =>
    if isPlain c then [c]
    else ['\\', 'u', '\x7b'] ++ Nat.toDigits 16 c.toNat ++ ['\x7d']

def quote (text : String) : String :=
  String.ofList ('"' :: text.toList.flatMap escape ++ ['"'])

end SlotRing.Text.Quoted
