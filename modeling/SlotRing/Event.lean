import SlotRing.Geometry
import SlotRing.Padding.Line

/-!
# Log events

What a ring reports while it works. Every event has a level, a message and
named fields; a published, discarded, freed or retained slot is named by its
index. Abandoning a draft silently is the one ending without an event, and
copying an item in or out is reported only when the item is too long.
-/

set_option autoImplicit false

namespace SlotRing

inductive Event where
  | storageRejected (reason : GeometryError)
  | ringReady (storageLen itemSize slotCount : UInt64) (line : Padding.Line)
  | pushOversized (length itemSize : Nat)
  | draftPublished (index : UInt64)
  | draftDiscarded (index : UInt64)
  | draftUnwound (index : UInt64)
  | loanReleased (index : UInt64)
  | loanRetained (index : UInt64)
  deriving DecidableEq, Repr

namespace Event

inductive Level where
  | trace
  | debug
  | warn
  deriving DecidableEq, Repr

inductive Field where
  | number (value : Nat)
  | text (value : String)
  deriving DecidableEq, Repr

def Level.label : Level → String
  | .trace => "TRACE"
  | .debug => "DEBUG"
  | .warn => "WARN"

def level : Event → Level
  | .storageRejected _ | .ringReady .. => .debug
  | .pushOversized .. | .draftUnwound _ => .warn
  | .draftPublished _ | .draftDiscarded _ | .loanReleased _ | .loanRetained _ => .trace

def message : Event → String
  | .storageRejected _ => "rejected ring buffer storage"
  | .ringReady .. => "initialized spsc ring buffer"
  | .pushOversized .. => "rejected oversized push"
  | .draftPublished _ => "producer slot release"
  | .draftDiscarded _ => "producer slot discard"
  | .draftUnwound _ => "producer slot discarded during unwind"
  | .loanReleased _ => "consumer slot release"
  | .loanRetained _ => "consumer slot retain"

def fields : Event → List (String × Field)
  | .storageRejected reason => [("reason", .text reason.message)]
  | .ringReady storageLen itemSize slotCount line =>
    [("storage_len", .number storageLen.toNat), ("item_size", .number itemSize.toNat),
      ("slot_count", .number slotCount.toNat), ("cache_line", .number line.size)]
  | .pushOversized length itemSize => [("len", .number length), ("item_size", .number itemSize)]
  | .draftPublished index | .draftDiscarded index | .draftUnwound index
  | .loanReleased index | .loanRetained index => [("index", .number index.toNat)]

end Event

end SlotRing
