import SlotRing.Session
import SlotRing.Padding.Padded

/-!
# Debug texts

The debug text of each error, of a ring and of its halves with what they
hold. The address of the storage is not shown.
-/

set_option autoImplicit false

namespace SlotRing

open Text Padding

def GeometryError.tree : GeometryError → Tree
  | .emptyStorage => .record "EmptyStorage" []
  | .zeroItemSize => .record "ZeroItemSize" []
  | .itemTooLarge itemSize storageLen =>
    .record "ItemTooLarge" [("item_size", .number itemSize), ("storage_len", .number storageLen)]
  | .tooFewSlots storageLen itemSize slotCount =>
    .record "TooFewSlots" [("storage_len", .number storageLen), ("item_size", .number itemSize),
      ("slot_count", .number slotCount)]

def PushRefusal.tree : PushRefusal → Tree
  | .full => .record "Full" []
  | .oversized length itemSize =>
    .record "Oversized" [("len", .number length), ("item_size", .number itemSize)]

namespace Describe

variable {g : Geometry}

def word (n : UInt64) : Tree := .number n.toNat

def geometry (g : Geometry) : Tree :=
  .record "Slots" [("base", .leaf "PTR"), ("storage_len", word g.storageLen),
    ("item_size", word g.itemSize), ("slot_count", word g.slotCount),
    ("_storage", .leaf "PhantomData<&mut [u8]>")]

def ring (line : Line) (r : Ring g) : Tree :=
  .record "RingBuffer" [("write_index", Shown.tree (Padded.mk line r.writeIndex)),
    ("read_index", Shown.tree (Padded.mk line r.readIndex)), ("slots", geometry g)]

def producer (line : Line) (s : Session g) : Tree :=
  .record "Producer" [("ring", ring line s.ring),
    ("cached_read_index", word s.producer.cachedRead)]

def consumer (line : Line) (s : Session g) : Tree :=
  .record "Consumer" [("ring", ring line s.ring),
    ("cached_write_index", word s.consumer.cachedWrite)]

def draft (line : Line) (s : Session g) : Tree :=
  .ofOption (fun d => .record "WriteSlot" [("ring", ring line s.ring), ("index", word d.index),
    ("next", word d.next)]) s.producer.draft

def loan (line : Line) (s : Session g) : Tree :=
  .ofOption (fun l => .record "ReadSlot" [("ring", ring line s.ring), ("index", word l.index)])
    s.consumer.loan

end Describe

end SlotRing
