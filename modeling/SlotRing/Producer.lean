import SlotRing.Addressing

/-!
# The producer

The half that publishes slots. It owns the write index and keeps a copy of
the read index, which it reloads only when the copy leaves no room. An item
is pushed by copying it, or drafted: the next free slot is filled in place
and published when the draft ends by release or drop. A draft that ends in
any other way publishes nothing, and its slot is the next one drafted again.

While a draft is held the producer does nothing else.
-/

set_option autoImplicit false

namespace SlotRing

/-- A free slot being filled: its index and the write index that publishes it. -/
structure Draft where
  index : UInt64
  next : UInt64
  deriving DecidableEq, Repr

structure Producer where
  cachedRead : UInt64
  draft : Option Draft
  deriving DecidableEq, Repr

inductive PushRefusal where
  | full
  | oversized (length itemSize : Nat)
  deriving DecidableEq, Repr

def PushRefusal.message : PushRefusal → String
  | .full => "ring buffer is full"
  | .oversized length itemSize =>
    "item of " ++ toString length ++ " bytes exceeds the slot size of " ++ toString itemSize ++
      " bytes"

/-- How a draft ends. The last way is to be dropped by a panic. -/
inductive Draft.Ending where
  | release
  | drop
  | discard
  | forget
  | unwind
  deriving DecidableEq, Repr

namespace Draft

open Access

def publish (d : Draft) : Access Unit := do
  report (.draftPublished d.index)
  store .producer d.next

def finish (d : Draft) : Ending → Access Unit
  | .release | .drop => d.publish
  | .discard => report (.draftDiscarded d.index)
  | .forget => pure ()
  | .unwind => report (.draftUnwound d.index)

end Draft

namespace Producer

open Access

def claim (p : Producer) (g : Geometry) : Access (Producer × Option Draft) := do
  let index ← load .producer
  let next ← g.advance index
  if next = p.cachedRead then
    let read ← load .consumer
    pure ({ p with cachedRead := read }, if next = read then none else some ⟨index, next⟩)
  else
    pure (p, some ⟨index, next⟩)

/-- Copies an item into the next free slot and publishes it. The length is
tested before the room. -/
def push (p : Producer) (g : Geometry) (item : List UInt8) :
    Access (Producer × Except PushRefusal Unit) := do
  demand (item.length ≤ g.slotSize) (.oversizedItem item.length g.slotSize)
  if g.slotSize < item.length then
    report (.pushOversized item.length g.slotSize)
    pure (p, .error (.oversized item.length g.slotSize))
  else
    match ← p.claim g with
    | (p, none) => pure (p, .error .full)
    | (p, some d) =>
      g.storeFront d.index item
      store .producer d.next
      pure (p, .ok ())

inductive Op where
  | push (item : List UInt8)
  | draft
  | contents
  | store (position : Nat) (bytes : List UInt8)
  | fill (byte : UInt8)
  | overwrite (bytes : List UInt8)
  | finish (how : Draft.Ending)
  deriving DecidableEq, Repr

inductive Answer where
  | slotHeld
  | noSlot
  | pushed
  | refused (why : PushRefusal)
  | full
  | drafted (index : UInt64) (contents : List UInt8)
  | contents (bytes : List UInt8)
  | panicked
  | finished
  deriving DecidableEq, Repr

def finish (p : Producer) (how : Draft.Ending) : Access Producer :=
  match p.draft with
  | none => pure p
  | some d => do
    d.finish how
    pure { p with draft := none }

/-- Answers with the bytes of the draft if the last store went in; otherwise
the store panicked, and the draft ends by unwinding. -/
def settle (p : Producer) (g : Geometry) (d : Draft) (stored : Bool) :
    Access (Producer × Answer) :=
  if stored then do
    let bytes ← g.loadSlot d.index
    pure (p, .contents bytes)
  else do
    let p ← p.finish .unwind
    pure (p, .panicked)

def performFree (p : Producer) (g : Geometry) : Op → Access (Producer × Answer)
  | .push item => do
    match ← p.push g item with
    | (p, .ok _) => pure (p, .pushed)
    | (p, .error why) => pure (p, .refused why)
  | .draft => do
    match ← p.claim g with
    | (p, none) => pure (p, .full)
    | (p, some d) =>
      let bytes ← g.loadSlot d.index
      pure ({ p with draft := some d }, .drafted d.index bytes)
  | .contents | .store .. | .fill _ | .overwrite _ | .finish _ => pure (p, .noSlot)

def performHolding (p : Producer) (g : Geometry) (d : Draft) : Op → Access (Producer × Answer)
  | .push _ | .draft => pure (p, .slotHeld)
  | .contents => do
    let bytes ← g.loadSlot d.index
    pure (p, .contents bytes)
  | .store position bytes => do
    let stored ← g.storeWithin d.index position bytes
    p.settle g d stored
  | .fill byte => do
    g.storeFront d.index (List.replicate g.slotSize byte)
    p.settle g d true
  | .overwrite bytes =>
    if bytes.length = g.slotSize then do
      g.storeFront d.index bytes
      p.settle g d true
    else
      p.settle g d false
  | .finish how => do
    let p ← p.finish how
    pure (p, .finished)

def perform (p : Producer) (g : Geometry) (op : Op) : Access (Producer × Answer) :=
  match p.draft with
  | none => p.performFree g op
  | some d => p.performHolding g d op

end Producer

end SlotRing
