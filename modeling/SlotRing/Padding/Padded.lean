import SlotRing.Padding.Line
import SlotRing.Text.Tree
import SlotRing.Text.Quoted

/-!
# Padded values

A value padded to a line holds and gives back what was put into it; the line
shows only in its debug text. A cell keeps such a value beside a saved copy.
-/

set_option autoImplicit false

namespace SlotRing.Padding

open Text

class Shown (α : Type) where
  tree : α → Tree

instance : Shown UInt64 where
  tree n := .number n.toNat

instance : Shown (List UInt8) where
  tree bytes := .sequence (bytes.map fun b => .number b.toNat)

instance : Shown String where
  tree text := .leaf (Quoted.quote text)

instance {α : Type} [Shown α] : Shown (Option α) where
  tree := .ofOption Shown.tree

structure Padded (α : Type) where
  line : Line
  value : α
  deriving DecidableEq, Repr

instance {α : Type} [Shown α] : Shown (Padded α) where
  tree p := .record "CachePadded" [("line", .number p.line.size), ("value", Shown.tree p.value)]

structure Cell (α : Type) where
  current : Padded α
  saved : Padded α

namespace Cell

variable {α : Type}

def new (line : Line) (value : α) : Cell α := ⟨⟨line, value⟩, ⟨line, value⟩⟩

inductive Op (α : Type) where
  | get
  | set (value : α)
  | replace (value : α)
  | save
  | restore
  | eqSaved
  | debug
  | pretty

inductive Answer (α : Type) where
  | value (value : α)
  | same (equal : Bool)
  | text (text : String)

def step [DecidableEq α] [Shown α] (c : Cell α) : Op α → Cell α × Answer α
  | .get => (c, .value c.current.value)
  | .set value => ({ c with current.value := value }, .value value)
  | .replace value => ({ c with current.value := value }, .value c.current.value)
  | .save => ({ c with saved := c.current }, .value c.current.value)
  | .restore => ({ c with current := c.saved }, .value c.saved.value)
  | .eqSaved => (c, .same (c.current = c.saved))
  | .debug => (c, .text (Shown.tree c.current).compact)
  | .pretty => (c, .text (Shown.tree c.current).pretty)

def run [DecidableEq α] [Shown α] : List (Op α) → Cell α → Cell α × List (Answer α)
  | [], c => (c, [])
  | op :: ops, c =>
    match c.step op with
    | (c, answer) =>
      match run ops c with
      | (c, answers) => (c, answer :: answers)

end Cell

end SlotRing.Padding
