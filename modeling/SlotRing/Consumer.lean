import SlotRing.Addressing

/-!
# The consumer

The half that frees slots. It owns the read index and keeps a copy of the
write index, which it reloads only when the copy leaves nothing to read. The
oldest item is popped by copying it out, or lent: its slot is read in place
and freed when the loan ends by release, drop or unwinding. A loan that is
retained or forgotten leaves the item to be read again.

While a loan is held the consumer does nothing else.
-/

set_option autoImplicit false

namespace SlotRing

structure Loan where
  index : UInt64
  deriving DecidableEq, Repr

structure Consumer where
  cachedWrite : UInt64
  loan : Option Loan
  deriving DecidableEq, Repr

inductive Loan.Ending where
  | release
  | drop
  | unwind
  | retain
  | forget
  deriving DecidableEq, Repr

namespace Loan

open Access

def free (l : Loan) (g : Geometry) : Access Unit := do
  report (.loanReleased l.index)
  let next ← g.advance l.index
  store .consumer next

def finish (l : Loan) (g : Geometry) : Ending → Access Unit
  | .release | .drop | .unwind => l.free g
  | .retain => report (.loanRetained l.index)
  | .forget => pure ()

end Loan

namespace Consumer

open Access

def locate (c : Consumer) : Access (Consumer × Option Loan) := do
  let index ← load .consumer
  if index = c.cachedWrite then
    let write ← load .producer
    pure ({ c with cachedWrite := write }, if index = write then none else some ⟨index⟩)
  else
    pure (c, some ⟨index⟩)

def take (c : Consumer) (g : Geometry) (room : Nat) :
    Access (Consumer × Option (List UInt8)) := do
  match ← c.locate with
  | (c, none) => pure (c, none)
  | (c, some l) =>
    let bytes ← g.loadFront l.index (min room g.slotSize)
    let next ← g.advance l.index
    store .consumer next
    pure (c, some bytes)

inductive Op where
  | pop (dest : List UInt8)
  | borrow
  | contents
  | byteAt (position : Nat)
  | finish (how : Loan.Ending)
  deriving DecidableEq, Repr

inductive Answer where
  | slotHeld
  | noSlot
  | popped (copied : Option Nat) (dest : List UInt8)
  | empty
  | lent (index : UInt64) (contents : List UInt8)
  | contents (bytes : List UInt8)
  | byte (value : UInt8)
  | panicked
  | finished
  deriving DecidableEq, Repr

def finish (c : Consumer) (g : Geometry) (how : Loan.Ending) : Access Consumer :=
  match c.loan with
  | none => pure c
  | some l => do
    l.finish g how
    pure { c with loan := none }

def performFree (c : Consumer) (g : Geometry) : Op → Access (Consumer × Answer)
  | .pop dest => do
    match ← c.take g dest.length with
    | (c, none) => pure (c, .popped none dest)
    | (c, some bytes) => pure (c, .popped (some bytes.length) (bytes ++ dest.drop bytes.length))
  | .borrow => do
    match ← c.locate with
    | (c, none) => pure (c, .empty)
    | (c, some l) =>
      let bytes ← g.loadSlot l.index
      pure ({ c with loan := some l }, .lent l.index bytes)
  | .contents | .byteAt _ | .finish _ => pure (c, .noSlot)

/-- What is asked while the loan `l` is held. A read outside the slot panics,
and the loan ends by unwinding. -/
def performHolding (c : Consumer) (g : Geometry) (l : Loan) : Op → Access (Consumer × Answer)
  | .pop _ | .borrow => pure (c, .slotHeld)
  | .contents => do
    let bytes ← g.loadSlot l.index
    pure (c, .contents bytes)
  | .byteAt position =>
    if position < g.slotSize then do
      let start ← g.address l.index
      let value ← loadByteAt (start + position)
      pure (c, .byte value)
    else do
      let c ← c.finish g .unwind
      pure (c, .panicked)
  | .finish how => do
    let c ← c.finish g how
    pure (c, .finished)

def perform (c : Consumer) (g : Geometry) (op : Op) : Access (Consumer × Answer) :=
  match c.loan with
  | none => c.performFree g op
  | some l => c.performHolding g l op

end Consumer

end SlotRing
