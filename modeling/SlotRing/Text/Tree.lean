/-!
# Trees of named values

The shape of a value as a reader sees it in a debug text, and its two
printed forms: on one line, and spread over lines that are indented by four
spaces for each level, every entry ended by a comma.
-/

set_option autoImplicit false

namespace SlotRing.Text

inductive Tree where
  | leaf (text : String)
  | record (name : String) (fields : List (String × Tree))
  | wrapped (name : String) (inner : Tree)
  | sequence (items : List Tree)

namespace Tree

def number (n : Nat) : Tree := .leaf (toString n)

def ofOption {α : Type} (tree : α → Tree) : Option α → Tree
  | none => .leaf "None"
  | some a => .wrapped "Some" (tree a)

def indent (level : Nat) : String := String.ofList (List.replicate (4 * level) ' ')

def block (level : Nat) (opening closing : String) (entries : List String) : String :=
  opening ++ "\n" ++
    String.join (entries.map fun e => indent (level + 1) ++ e ++ ",\n") ++ indent level ++ closing

mutual

def compact : Tree → String
  | .leaf text => text
  | .record name [] => name
  | .record name (f :: fs) =>
    name ++ " \x7b " ++ ", ".intercalate (compactField f :: compactFields fs) ++ " \x7d"
  | .wrapped name inner => name ++ "(" ++ compact inner ++ ")"
  | .sequence items => "[" ++ ", ".intercalate (compactItems items) ++ "]"

def compactFields : List (String × Tree) → List String
  | [] => []
  | f :: fs => compactField f :: compactFields fs

def compactField : String × Tree → String
  | (name, value) => name ++ ": " ++ compact value

def compactItems : List Tree → List String
  | [] => []
  | t :: ts => compact t :: compactItems ts

end

mutual

def prettyAt (level : Nat) : Tree → String
  | .leaf text => text
  | .record name [] => name
  | .record name (f :: fs) =>
    block level (name ++ " \x7b") "\x7d" (prettyField (level + 1) f :: prettyFields (level + 1) fs)
  | .wrapped name inner => block level (name ++ "(") ")" [prettyAt (level + 1) inner]
  | .sequence [] => "[]"
  | .sequence (t :: ts) =>
    block level "[" "]" (prettyAt (level + 1) t :: prettyItems (level + 1) ts)

def prettyFields (level : Nat) : List (String × Tree) → List String
  | [] => []
  | f :: fs => prettyField level f :: prettyFields level fs

def prettyField (level : Nat) : String × Tree → String
  | (name, value) => name ++ ": " ++ prettyAt level value

def prettyItems (level : Nat) : List Tree → List String
  | [] => []
  | t :: ts => prettyAt level t :: prettyItems level ts

end

def pretty (t : Tree) : String := prettyAt 0 t

end Tree

end SlotRing.Text
