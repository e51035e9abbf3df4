import SlotRing.Interleaving
import SlotRing.Producer
import SlotRing.Consumer
import SlotRing.Digest

/-!
# Transfers between two threads

One thread sends a number of items through a ring while another receives
them. The items are any bytes. Their lengths, the ways they are sent and the
ways they are received each go round a list, which may be empty only if nothing
is taken from it: an item without a length or a way to be sent is not sent. A
thread that finds the ring full or empty tries again; an item that is pushed
but does not fit into a slot is dropped and counted as rejected.

`Transfer.run` is one run, in which the threads make whole attempts by turns.
-/

set_option autoImplicit false

namespace SlotRing

namespace Transfer

open Access

/-- The `k`-th entry of a list gone round without end, if it has any. -/
def around {α : Type} (xs : List α) (k : Nat) : Option α := xs[k % xs.length]?

theorem around_eq_none_iff {α : Type} (xs : List α) (k : Nat) : around xs k = none ↔ xs = [] := by
  rw [around, List.getElem?_eq_none_iff]
  constructor
  · intro h
    rcases Nat.eq_zero_or_pos xs.length with h0 | h0
    · exact List.eq_nil_of_length_eq_zero h0
    · exact absurd (Nat.mod_lt k h0) (Nat.not_lt.mpr h)
  · intro h
    simp [h]

/-- How an item is sent: copied; drafted and released or dropped; or drafted,
spoilt and discarded before it is drafted again. -/
inductive SendMode where
  | push
  | write
  | drop
  | redo
  deriving DecidableEq, Repr

/-- How an item is received: copied out, as far as there is room; borrowed; or
borrowed twice, the first time only to look at it. -/
inductive ReceiveMode where
  | pop (room : Nat)
  | read
  | peek
  deriving DecidableEq, Repr

structure Plan where
  count : Nat
  lengths : List Nat
  sendModes : List SendMode
  receiveModes : List ReceiveMode
  /-- The bytes of the `i`-th item, of which the first ones are sent. -/
  bytes : Nat → Nat → UInt8
  /-- What a draft of the `i`-th item is filled with to be discarded. -/
  filling : Nat → Nat → UInt8

namespace Plan

def content (t : Plan) (i length : Nat) : List UInt8 := (List.range length).map (t.bytes i)

def waste (t : Plan) (g : Geometry) (i : Nat) : List UInt8 :=
  (List.range g.slotSize).map (t.filling i)

@[simp] theorem length_content (t : Plan) (i length : Nat) :
    (t.content i length).length = length := by
  simp [content]

@[simp] theorem length_waste (t : Plan) (g : Geometry) (i : Nat) :
    (t.waste g i).length = g.slotSize := by
  simp [waste]

def item? (t : Plan) (i : Nat) : Option (SendMode × Nat) := do
  let mode ← around t.sendModes i
  let length ← around t.lengths i
  some (mode, length)

def accepts (t : Plan) (g : Geometry) (i : Nat) : Bool :=
  match t.item? i with
  | none => false
  | some (mode, length) => mode ≠ .push || length ≤ g.slotSize

def accepted (t : Plan) (g : Geometry) : Nat :=
  (List.range t.count).countP (t.accepts g)

end Plan

/-! ## The sending thread -/

structure Sender where
  producer : Producer
  sent : Nat
  rejected : Nat
  /-- Whether the draft of the current item was spoilt and discarded. -/
  redone : Bool

namespace Sender

def advance (s : Sender) : Sender := { s with sent := s.sent + 1, redone := false }

def reject (s : Sender) : Sender := { s.advance with rejected := s.rejected + 1 }

def inPlace (s : Sender) (g : Geometry) (bytes : List UInt8) (how : Draft.Ending)
    (after : Sender → Sender) : Access Sender := do
  match ← s.producer.claim g with
  | (p, none) => pure { s with producer := p }
  | (p, some d) =>
    g.storeFront d.index bytes
    d.finish how
    pure (after { s with producer := p })

def attempt (t : Plan) (g : Geometry) (s : Sender) : Option (Access Sender) :=
  if t.count ≤ s.sent then none
  else (t.item? s.sent).map fun (mode, length) =>
    let item := t.content s.sent length
    match mode with
    | .push => do
      match ← s.producer.push g item with
      | (p, .ok _) => pure { s with producer := p }.advance
      | (p, .error .full) => pure { s with producer := p }
      | (p, .error (.oversized ..)) => pure { s with producer := p }.reject
    | .write => s.inPlace g (item.take g.slotSize) .release advance
    | .drop => s.inPlace g (item.take g.slotSize) .drop advance
    | .redo =>
      if s.redone then s.inPlace g (item.take g.slotSize) .release advance
      else s.inPlace g (t.waste g s.sent) .discard fun s => { s with redone := true }

end Sender

/-! ## The receiving thread -/

structure Receiver where
  consumer : Consumer
  due : Nat
  values : Array (List UInt8)
  /-- The current item if it was only looked at so far. -/
  seen : Option (List UInt8)

namespace Receiver

def receive (s : Receiver) (value : List UInt8) : Receiver :=
  { s with values := s.values.push value, seen := none }

def inPlace (s : Receiver) (g : Geometry) (how : Loan.Ending)
    (after : Receiver → List UInt8 → Receiver) : Access Receiver := do
  match ← s.consumer.locate with
  | (c, none) => pure { s with consumer := c }
  | (c, some l) =>
    let bytes ← g.loadSlot l.index
    l.finish g how
    pure (after { s with consumer := c } bytes)

def attempt (t : Plan) (g : Geometry) (s : Receiver) : Option (Access Receiver) :=
  if s.due ≤ s.values.size then none
  else (around t.receiveModes s.values.size).map fun
    | .pop room => do
      match ← s.consumer.take g room with
      | (c, none) => pure { s with consumer := c }
      | (c, some bytes) => pure ({ s with consumer := c }.receive bytes)
    | .read => s.inPlace g .release receive
    | .peek =>
      match s.seen with
      | none => s.inPlace g .retain fun s bytes => { s with seen := some bytes }
      | some first => s.inPlace g .release fun s bytes => s.receive (first ++ bytes)

end Receiver

/-! ## Both -/

def threads (t : Plan) (g : Geometry) : Threads Sender Receiver where
  producer := Sender.attempt t g
  consumer := Receiver.attempt t g

def start {g : Geometry} (t : Plan) (r : Ring g) : Interleaving g Sender Receiver :=
  .start r ⟨⟨r.readIndex, none⟩, 0, 0, false⟩ ⟨⟨r.writeIndex, none⟩, t.accepted g, #[], none⟩

/-- Enough rounds for all items: an item takes at most two attempts that
succeed to be sent and two to be received, and every round has one. -/
def rounds (t : Plan) : Nat := 4 * t.count + 1

structure Report where
  rejected : Nat
  received : Nat
  copied : Nat
  digest : UInt64
  heads : List (List UInt8)

def report (s : Sender) (r : Receiver) : Report where
  rejected := s.rejected
  received := r.values.size
  copied := r.values.foldl (fun n value => n + value.length) 0
  digest := r.values.foldl Digest.extend Digest.offsetBasis
  heads := (r.values.take 8).toList

def run {g : Geometry} (t : Plan) (r : Ring g) : Ring g × Report :=
  match Interleaving.alternate (threads t g) (rounds t) (start t r) with
  | ⟨ring, producer, consumer⟩ => (ring, report producer.state consumer.state)

end Transfer

end SlotRing
