import SlotRing.Proofs.Places

/-!
# Ledgers

A ring with counters in place of its indices and with every item it ever
published on record. `Valid` is the invariant of the shared memory: the
published items that are not freed yet still lie in their slots, and one slot
stays free. `Moves` is all that one side may do to a ledger while the other
side looks on: the producer appends items and writes outside the published
slots, the consumer frees items and writes nothing.
-/

set_option autoImplicit false

namespace SlotRing

def Side.other : Side → Side
  | .producer => .consumer
  | .consumer => .producer

@[ext]
structure Ledger (g : Geometry) where
  storage : Storage
  fits : storage.size = g.storageLen.toNat
  /-- What the slot of each item held when it was published, oldest first. -/
  items : List (List UInt8)
  freed : Nat

def Geometry.Fits (g : Geometry) (position : Nat) (bytes : List UInt8) : Prop :=
  bytes = [] ∨ position + bytes.length ≤ g.slotSize

theorem Geometry.fits_take (g : Geometry) (position : Nat) (bytes : List UInt8) :
    g.Fits position (bytes.take (g.slotSize - position)) := by
  by_cases h : position ≤ g.slotSize
  · right
    rw [List.length_take]
    omega
  · left
    rw [show g.slotSize - position = 0 by omega, List.take_zero]

theorem Geometry.fits_zero (g : Geometry) {bytes : List UInt8} (h : bytes.length ≤ g.slotSize) :
    g.Fits 0 bytes := .inr (by omega)

namespace Ledger

variable {g : Geometry}

def published (b : Ledger g) : Nat := b.items.length

def ring (b : Ledger g) : Ring g where
  storage := b.storage
  writeIndex := g.place b.published
  readIndex := g.place b.freed
  fits := b.fits

def slot (b : Ledger g) (k : Nat) : List UInt8 := b.storage.slice (g.base k) g.slotSize

def counter (b : Ledger g) : Side → Nat
  | .producer => b.published
  | .consumer => b.freed

def Full (b : Ledger g) : Prop := b.published + 1 = b.freed + g.slots

def Empty (b : Ledger g) : Prop := b.freed = b.published

instance (b : Ledger g) : Decidable b.Full := inferInstanceAs (Decidable (_ = _))

instance (b : Ledger g) : Decidable b.Empty := inferInstanceAs (Decidable (_ = _))

structure Valid (b : Ledger g) : Prop where
  freed_le : b.freed ≤ b.published
  published_lt : b.published < b.freed + g.slots
  kept : ∀ k, b.freed ≤ k → k < b.published → b.items[k]? = some (b.slot k)

/-- A side has a slot to work on: the producer a free one besides the one that
stays free, the consumer a published one. -/
def Ready (b : Ledger g) : Side → Prop
  | .producer => b.published + 1 < b.freed + g.slots
  | .consumer => b.freed < b.published

def Reaches (b : Ledger g) (side : Side) (address : Nat) : Prop :=
  b.Ready side ∧ g.base (b.counter side) ≤ address ∧
    address < g.base (b.counter side) + g.slotSize

def Moves : Side → Ledger g → Ledger g → Prop
  | .producer, b, b' => b'.Valid ∧ b'.freed = b.freed ∧ b.items <+: b'.items
  | .consumer, b, b' =>
    b'.Valid ∧ b'.storage = b.storage ∧ b'.items = b.items ∧ b.freed ≤ b'.freed

/-! ## What the sides do -/

def setByte (b : Ledger g) (address : Nat) (byte : UInt8) : Ledger g :=
  { b with storage := b.storage.set address byte, fits := by rw [Storage.size_set, b.fits] }

def write (b : Ledger g) (position : Nat) (bytes : List UInt8) : Ledger g :=
  { b with
    storage := b.storage.write (g.base b.published + position) bytes
    fits := by rw [Storage.size_write, b.fits] }

def publish (b : Ledger g) : Ledger g := { b with items := b.items ++ [b.slot b.published] }

def free (b : Ledger g) : Ledger g := { b with freed := b.freed + 1 }

def advance (b : Ledger g) : Side → Ledger g
  | .producer => b.publish
  | .consumer => b.free

def oldest (b : Ledger g) : List UInt8 := b.items.getD b.freed []

@[simp] theorem published_write (b : Ledger g) (p : Nat) (bytes : List UInt8) :
    (b.write p bytes).published = b.published := rfl

@[simp] theorem published_publish (b : Ledger g) : b.publish.published = b.published + 1 := by
  simp [publish, published]

@[simp] theorem published_free (b : Ledger g) : b.free.published = b.published := rfl

@[simp] theorem freed_publish (b : Ledger g) : b.publish.freed = b.freed := rfl

@[simp] theorem freed_free (b : Ledger g) : b.free.freed = b.freed + 1 := rfl

@[simp] theorem freed_write (b : Ledger g) (p : Nat) (bytes : List UInt8) :
    (b.write p bytes).freed = b.freed := rfl

@[simp] theorem slot_free (b : Ledger g) (k : Nat) : b.free.slot k = b.slot k := rfl

@[simp] theorem length_slot (b : Ledger g) (k : Nat) : (b.slot k).length = g.slotSize :=
  Storage.length_slice _ _ _

theorem index_ring (b : Ledger g) (side : Side) : b.ring.index side = g.place (b.counter side) := by
  cases side <;> rfl

theorem slot_ring (b : Ledger g) (side : Side) :
    b.ring.slot (b.ring.index side) = b.slot (b.counter side) := by
  rw [index_ring, Ring.slot, g.start_place]
  rfl

theorem ring_advance (b : Ledger g) (side : Side) :
    (b.advance side).ring = b.ring.setIndex side (g.place (b.counter side + 1)) := by
  cases side with
  | producer => simp [advance, ring, Ring.setIndex, counter, publish, published]
  | consumer => rfl

theorem counter_advance (b : Ledger g) (side : Side) :
    (b.advance side).counter side = b.counter side + 1 ∧
      (b.advance side).counter side.other = b.counter side.other := by
  cases side with
  | producer => exact ⟨published_publish b, rfl⟩
  | consumer => exact ⟨rfl, rfl⟩

theorem slot_of_storage {b b' : Ledger g} (h : b'.storage = b.storage) (k : Nat) :
    b'.slot k = b.slot k := by
  rw [slot, slot, h]

theorem slot_write (b : Ledger g) (p : Nat) (bytes : List UInt8) (h : g.Fits p bytes) :
    (b.write p bytes).slot b.published = overlay p bytes (b.slot b.published) := by
  rcases h with rfl | h
  · simp [overlay, write, Storage.write, slot]
  · apply Storage.slice_write_within _ _ _ _ _ h
    rw [b.fits]
    exact g.base_fits _

/-- Writing into the next item's slot leaves the slots of the same round. -/
theorem slot_write_apart (b : Ledger g) (p : Nat) (bytes : List UInt8) (h : g.Fits p bytes)
    {k : Nat} (hk : k ≠ b.published) (hl : b.published < k + g.slots)
    (hr : k < b.published + g.slots) : (b.write p bytes).slot k = b.slot k := by
  rcases h with rfl | h
  · rfl
  · apply Storage.slice_write_apart
    rcases Nat.lt_or_gt_of_ne hk with hlt | hgt
    · rcases g.base_apart hlt hl with h' | h' <;> omega
    · rcases g.base_apart hgt hr with h' | h' <;> omega

theorem ready_of_not_empty {b : Ledger g} (hv : b.Valid) (h : ¬ b.Empty) : b.Ready .consumer :=
  Nat.lt_of_le_of_ne hv.freed_le h

theorem not_ready_of_empty {b : Ledger g} (h : b.Empty) : ¬ b.Ready .consumer :=
  Nat.not_lt.mpr (Nat.le_of_eq h.symm)

theorem not_ready_of_full {b : Ledger g} (h : b.Full) : ¬ b.Ready .producer := by
  simp only [Full] at h
  simp only [Ready]
  omega

theorem oldest_eq {b : Ledger g} (hv : b.Valid) (h : b.Ready .consumer) :
    b.oldest = b.slot b.freed := by
  rw [oldest, List.getD_eq_getElem?_getD, hv.kept _ (Nat.le_refl _) h]
  rfl

/-! ## Moves keep the invariant -/

theorem moves_valid {side : Side} {b b' : Ledger g} (h : Moves side b b') : b'.Valid := by
  cases side <;> exact h.1

theorem moves_refl (side : Side) {b : Ledger g} (h : b.Valid) : Moves side b b := by
  cases side with
  | producer => exact ⟨h, rfl, List.prefix_refl _⟩
  | consumer => exact ⟨h, rfl, rfl, Nat.le_refl _⟩

theorem moves_trans {side : Side} {b c d : Ledger g} (h : Moves side b c) (h' : Moves side c d) :
    Moves side b d := by
  cases side with
  | producer => exact ⟨h'.1, h'.2.1.trans h.2.1, h.2.2.trans h'.2.2⟩
  | consumer =>
    exact ⟨h'.1, h'.2.1.trans h.2.1, h'.2.2.1.trans h.2.2.1, Nat.le_trans h.2.2.2 h'.2.2.2⟩

theorem counter_other {side : Side} {b b' : Ledger g} (h : Moves side.other b b') :
    b'.counter side = b.counter side := by
  cases side with
  | producer => exact congrArg List.length h.2.2.1
  | consumer => exact h.2.1

theorem counter_mono {side : Side} {b b' : Ledger g} (h : Moves side b b') :
    b.counter side ≤ b'.counter side := by
  cases side with
  | producer => exact h.2.2.length_le
  | consumer => exact h.2.2.2

theorem counter_fixed {side : Side} {b b' : Ledger g} (h : Moves side b b') :
    b'.counter side.other = b.counter side.other := by
  cases side with
  | producer => exact h.2.1
  | consumer => exact congrArg List.length h.2.2.1

theorem counter_congr {b b' : Ledger g} (hi : b'.items = b.items) (hf : b'.freed = b.freed)
    (side : Side) : b'.counter side = b.counter side := by
  cases side with
  | producer => exact congrArg List.length hi
  | consumer => exact hf

theorem ready_other {side : Side} {b b' : Ledger g} (h : Moves side.other b b')
    (hr : b.Ready side) : b'.Ready side := by
  cases side with
  | producer =>
    have hp : b'.published = b.published := congrArg List.length h.2.2.1
    have hf := h.2.2.2
    simp only [Ready] at hr ⊢
    omega
  | consumer =>
    have hl : b.published ≤ b'.published := h.2.2.length_le
    have hf := h.2.1
    simp only [Ready] at hr ⊢
    omega

/-- The slot a side works on keeps its bytes while the other side moves. -/
theorem front_other {side : Side} {b b' : Ledger g} (hv : b.Valid) (h : Moves side.other b b')
    (hr : b.Ready side) : b'.slot (b'.counter side) = b.slot (b.counter side) := by
  rw [counter_other h]
  cases side with
  | producer => exact slot_of_storage h.2.1 _
  | consumer =>
    -- The producer may have written elsewhere, but the item is on record in both ledgers.
    have hk : b.items[b.freed]? = some (b.slot b.freed) := hv.kept _ (Nat.le_refl _) hr
    have hr' := ready_other h hr
    have hk' := h.1.kept b'.freed (Nat.le_refl _) hr'
    rw [h.2.1] at hk'
    obtain ⟨rest, hrest⟩ := h.2.2
    rw [← hrest, List.getElem?_append_left hr, hk] at hk'
    exact (Option.some.inj hk').symm

theorem get_other {side : Side} {b b' : Ledger g} (hv : b.Valid) (h : Moves side.other b b')
    {a : Nat} (ha : b.Reaches side a) : b'.storage.get a = b.storage.get a := by
  obtain ⟨hr, hl, hu⟩ := ha
  have hs := front_other hv h hr
  rw [counter_other h] at hs
  have hj : a - g.base (b.counter side) < g.slotSize := by omega
  have hget := congrArg (fun bytes => bytes[a - g.base (b.counter side)]?) hs
  simp only [slot, Storage.getElem?_slice _ _ hj] at hget
  rw [show g.base (b.counter side) + (a - g.base (b.counter side)) = a by omega] at hget
  exact Option.some.inj hget

theorem reaches_other {side : Side} {b b' : Ledger g} (h : Moves side.other b b') {a : Nat}
    (ha : b.Reaches side a) : b'.Reaches side a := by
  obtain ⟨hr, hl, hu⟩ := ha
  rw [← counter_other h] at hl hu
  exact ⟨ready_other h hr, hl, hu⟩

theorem published_consumer {b b' : Ledger g} (h : Moves .consumer b b') :
    b'.published = b.published := congrArg List.length h.2.2.1

theorem ready_consumer {b b' : Ledger g} (h : Moves .consumer b b') (hr : b.Ready .producer) :
    b'.Ready .producer := @ready_other g .producer b b' h hr

/-- The consumer's moves do nothing but free published items. -/
theorem moves_consumer_iff {b b' : Ledger g} (hv : b.Valid) :
    Moves .consumer b b' ↔
      ∃ c, b.freed ≤ c ∧ c ≤ b.published ∧ b' = { b with freed := c } := by
  constructor
  · rintro ⟨hv', hs, hi, hf⟩
    have hle := hv'.freed_le
    rw [published, hi] at hle
    exact ⟨b'.freed, hf, hle, Ledger.ext hs hi rfl⟩
  · rintro ⟨c, hf, hc, rfl⟩
    refine ⟨⟨hc, ?_, fun k hk hl => hv.kept k (Nat.le_trans hf hk) hl⟩, rfl, rfl, hf⟩
    exact Nat.lt_of_lt_of_le hv.published_lt (Nat.add_le_add_right hf _)

theorem eq_of_consumer {b b' : Ledger g} (h : Moves .consumer b b') :
    ({ b with freed := b'.freed } : Ledger g) = b' :=
  Ledger.ext h.2.1.symm h.2.2.1.symm rfl

theorem eq_of_producer {b b' : Ledger g} (h : Moves .producer b b') :
    ({ b' with freed := b.freed } : Ledger g) = b' :=
  Ledger.ext rfl rfl h.2.1.symm

theorem valid_write {b : Ledger g} (hv : b.Valid) {p : Nat} {bytes : List UInt8}
    (h : g.Fits p bytes) : (b.write p bytes).Valid where
  freed_le := hv.freed_le
  published_lt := hv.published_lt
  kept k hf hk := by
    have hp := hv.published_lt
    rw [published_write] at hk
    rw [slot_write_apart b p bytes h (by omega) (by simp at hf; omega) (by omega)]
    exact hv.kept k hf hk

theorem moves_write {b : Ledger g} (hv : b.Valid) {p : Nat} {bytes : List UInt8}
    (h : g.Fits p bytes) : Moves .producer b (b.write p bytes) :=
  ⟨valid_write hv h, rfl, List.prefix_refl _⟩

theorem write_singleton {b : Ledger g} {a : Nat} (v : UInt8) (h : g.base b.published ≤ a) :
    b.write (a - g.base b.published) [v] = b.setByte a v := by
  have ha : g.base b.published + (a - g.base b.published) = a := by omega
  simp only [write, setByte, ha]
  rfl

theorem write_cons (b : Ledger g) (p : Nat) (v : UInt8) (rest : List UInt8) :
    (b.write p [v]).write (p + 1) rest = b.write p (v :: rest) := by
  apply Ledger.ext
  · simp only [write, published, Storage.write, Nat.add_assoc]
  · rfl
  · rfl

/-- The consumer's moves after a write might as well have come before it. -/
theorem moves_past_write {b c : Ledger g} (hv : b.Valid) {p : Nat} {bytes : List UInt8}
    (h : Moves .consumer (b.write p bytes) c) :
    ∃ b', Moves .consumer b b' ∧ c = b'.write p bytes := by
  have hle : c.freed ≤ c.published := h.1.freed_le
  rw [published_consumer h] at hle
  have hm : Moves .consumer b { b with freed := c.freed } :=
    (moves_consumer_iff hv).mpr ⟨c.freed, h.2.2.2, hle, rfl⟩
  exact ⟨_, hm, Ledger.ext h.2.1 h.2.2.1 rfl⟩

theorem moves_setByte {b : Ledger g} (hv : b.Valid) {a : Nat} (v : UInt8)
    (h : b.Reaches .producer a) : Moves .producer b (b.setByte a v) := by
  obtain ⟨_, hl, hr⟩ := h
  simp only [counter] at hl hr
  rw [← write_singleton v hl]
  exact moves_write hv (.inr (by rw [List.length_singleton]; omega))

theorem moves_advance {side : Side} {b : Ledger g} (hv : b.Valid) (h : b.Ready side) :
    Moves side b (b.advance side) := by
  have hf := hv.freed_le
  have hp := hv.published_lt
  cases side with
  | producer =>
    refine ⟨⟨?_, ?_, ?_⟩, rfl, List.prefix_append _ _⟩
    · simp only [advance, freed_publish, published_publish]; omega
    · simp only [advance, freed_publish, published_publish]; exact h
    · intro k hk hl
      simp only [advance, freed_publish, published_publish] at hk hl
      by_cases hlt : k < b.published
      · simp only [advance, publish, slot]
        rw [List.getElem?_append_left hlt]
        exact hv.kept k hk hlt
      · obtain rfl : k = b.published := by omega
        simp [advance, publish, published, slot]
  | consumer =>
    refine ⟨⟨h, ?_, ?_⟩, rfl, rfl, Nat.le_succ _⟩
    · simp only [advance, freed_free, published_free]; omega
    · intro k hk hl
      simp only [advance, freed_free, published_free] at hk hl
      exact hv.kept k (by omega) hl

end Ledger

end SlotRing
