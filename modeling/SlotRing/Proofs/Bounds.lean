import SlotRing.Proofs.Linearization
import SlotRing.Observer

/-!
# Arithmetic without overflow

All index arithmetic is on indices below the number of slots, and there the
machine words are the exact numbers (`Geometry.exact`). A program is `Bounded`
if it stays there whatever it loads: then every check on its way holds and
every byte it touches lies in a slot, whether it runs alone (`bounded_run`) or
with another thread between its accesses (`bounded_step`). Only the push of an
item that no slot can hold fails a check, its first, and touches nothing.
-/

set_option autoImplicit false

namespace SlotRing

open Access

namespace Geometry

def extent (g : Geometry) : Nat := g.slotCount.toNat * g.slotSize

structure Exact (g : Geometry) : Prop where
  slotCount : g.slotCount.toNat = g.storageLen.toNat / g.itemSize.toNat
  capacity : g.capacity.toNat + 1 = g.slotCount.toNat
  succ : ∀ i < g.slotCount, (i + 1).toNat = i.toNat + 1
  next : ∀ i < g.slotCount, (g.next i).toNat =
    (i.toNat + 1) * (if i.toNat + 1 < g.slotCount.toNat then 1 else 0)
  start : ∀ i < g.slotCount, (g.start i).toNat = i.toNat * g.slotSize
  stop : ∀ i < g.slotCount, (g.start i + g.itemSize).toNat = i.toNat * g.slotSize + g.slotSize
  forward : ∀ w < g.slotCount, ∀ r < g.slotCount, r ≤ w → (w - r).toNat + r.toNat = w.toNat
  around : ∀ w < g.slotCount, ∀ r < g.slotCount, ¬ r ≤ w →
    (g.slotCount - r).toNat + r.toNat = g.slotCount.toNat ∧
      (g.slotCount - r + w).toNat = (g.slotCount - r).toNat + w.toNat
  inside : ∀ i < g.slotCount, i.toNat * g.slotSize + g.slotSize ≤ g.extent
  fits : g.extent ≤ g.storageLen.toNat
  apart : ∀ i < g.slotCount, ∀ j < g.slotCount, i ≠ j →
    i.toNat * g.slotSize + g.slotSize ≤ j.toNat * g.slotSize ∨
      j.toNat * g.slotSize + g.slotSize ≤ i.toNat * g.slotSize

variable {g : Geometry} {i j : UInt64}

theorem place_toNat_of_lt (h : i < g.slotCount) : g.place i.toNat = i := by
  apply UInt64.toNat_inj.mp
  rw [place_toNat]
  exact Nat.mod_eq_of_lt (UInt64.lt_iff_toNat_lt.mp h)

theorem next_lt (h : i < g.slotCount) : g.next i < g.slotCount := by
  rw [← place_toNat_of_lt h, next_place]
  exact g.place_lt _

theorem slot_le_of_lt {a b : Nat} (h : a < b) : a * g.slotSize + g.slotSize ≤ b * g.slotSize := by
  rw [← Nat.succ_mul]
  exact Nat.mul_le_mul_right _ h

theorem toNat_start (h : i < g.slotCount) : (g.start i).toNat = i.toNat * g.slotSize := by
  rw [← place_toNat_of_lt h, start_place, place_toNat]
  rfl

theorem slot_le_extent (h : i < g.slotCount) :
    i.toNat * g.slotSize + g.slotSize ≤ g.extent :=
  slot_le_of_lt (UInt64.lt_iff_toNat_lt.mp h)

theorem start_le_extent (h : i < g.slotCount) : (g.start i).toNat + g.slotSize ≤ g.extent := by
  rw [toNat_start h]
  exact slot_le_extent h

theorem exact (g : Geometry) : g.Exact where
  slotCount := g.toNat_slotCount
  capacity := by
    rw [toNat_capacity]
    exact Nat.sub_add_cancel (Nat.le_of_lt g.two_le_slots)
  succ i h := Cyclic.toNat_succ_of_lt (UInt64.lt_iff_toNat_lt.mp h)
  next i h := by
    have hi := UInt64.lt_iff_toNat_lt.mp h
    rw [next, Cyclic.toNat_next hi]
    split
    · rw [Nat.mul_one, Nat.mod_eq_of_lt ‹_›]
    · rw [Nat.mul_zero, show i.toNat + 1 = g.slotCount.toNat by omega, Nat.mod_self]
  start i h := toNat_start h
  stop i h := by
    have hfits := Nat.le_trans (start_le_extent h) g.slots_fit
    rw [← toNat_start h, UInt64.toNat_add]
    exact Nat.mod_eq_of_lt (Nat.lt_of_le_of_lt hfits g.storageLen.toNat_lt)
  forward w hw r hr h := by
    rw [UInt64.toNat_sub_of_le _ _ h]
    exact Nat.sub_add_cancel (UInt64.le_iff_toNat_le.mp h)
  around w hw r hr h := by
    have hn := g.slotCount.toNat_lt
    rw [UInt64.lt_iff_toNat_lt] at hw hr
    rw [UInt64.le_iff_toNat_le] at h
    have hle : r ≤ g.slotCount := UInt64.le_iff_toNat_le.mpr (Nat.le_of_lt hr)
    rw [UInt64.toNat_add, UInt64.toNat_sub_of_le _ _ hle]
    exact ⟨by omega, Nat.mod_eq_of_lt (by omega)⟩
  inside i h := slot_le_extent h
  fits := g.slots_fit
  apart i hi j hj hne := by
    rcases Nat.lt_or_gt_of_ne (mt UInt64.toNat_inj.mp hne) with h | h
    · exact .inl (slot_le_of_lt h)
    · exact .inr (slot_le_of_lt h)

end Geometry

/-! ## What a program touches -/

inductive Touch where
  | index (value : UInt64)
  | byte (address : Nat)
  | check (holds : Bool) (fault : Fault)
  deriving DecidableEq, Repr

namespace Touch

/-- An index is that of a slot, a byte lies in a slot, and a check holds: the
slot addressed is one of the ring's, and no more is copied than a slot has. -/
def Sound (g : Geometry) : Touch → Prop
  | .index value => value < g.slotCount
  | .byte address => address < g.extent
  | .check holds (.slotOutOfRange slot count) =>
    holds = true ∧ count = g.slotCount ∧ slot < g.slotCount
  | .check holds (.oversizedItem length itemSize)
  | .check holds (.oversizedCopy length itemSize) =>
    holds = true ∧ itemSize = g.slotSize ∧ length ≤ g.slotSize
  | .check holds .addOverflow | .check holds .subOverflow | .check holds .mulOverflow =>
    holds = true

theorem holds_of_sound {g : Geometry} {holds : Bool} {fault : Fault}
    (h : (check holds fault).Sound g) : holds = true := by
  cases fault with
  | oversizedItem _ _ | oversizedCopy _ _ | slotOutOfRange _ _ => exact h.1
  | addOverflow | subOverflow | mulOverflow => exact h

end Touch

namespace Access

variable {α β : Type} {g : Geometry}

def touch? : Access α → Ring g → Option Touch
  | .done _, _ | .log _ _, _ => none
  | .loadIndex o _, r => some (.index (r.index o))
  | .storeIndex _ i _, _ => some (.index i)
  | .loadByte a _, _ | .storeByte a _ _, _ => some (.byte a)
  | .require holds fault _, _ => some (.check holds fault)

def touches (build : Build) : Access α → Ring g → List Touch
  | .done _, _ => []
  | .loadIndex o k, r => .index (r.index o) :: (k (r.index o)).touches build r
  | .storeIndex o i k, r => .index i :: (k ()).touches build (r.setIndex o i)
  | .loadByte a k, r => .byte a :: (k (r.byte a)).touches build r
  | .storeByte a b k, r => .byte a :: (k ()).touches build (r.setByte a b)
  | .log _ k, r => (k ()).touches build r
  | .require holds fault k, r =>
    .check holds fault :: if passes build holds then (k ()).touches build r else []

/-- All that a program touches is sound and its result satisfies `post`,
whatever bytes and indices of slots it loads. -/
def Bounded (g : Geometry) : Access α → (α → Prop) → Prop
  | .done a, post => post a
  | .loadIndex _ k, post => ∀ i < g.slotCount, (k i).Bounded g post
  | .storeIndex _ i k, post => i < g.slotCount ∧ (k ()).Bounded g post
  | .loadByte a k, post => a < g.extent ∧ ∀ b, (k b).Bounded g post
  | .storeByte a _ k, post => a < g.extent ∧ (k ()).Bounded g post
  | .log _ k, post => (k ()).Bounded g post
  | .require holds fault k, post => (Touch.check holds fault).Sound g ∧ (k ()).Bounded g post

end Access

structure Ring.Below {g : Geometry} (r : Ring g) : Prop where
  writeIndex : r.writeIndex < g.slotCount
  readIndex : r.readIndex < g.slotCount

namespace Ring

variable {g : Geometry} {r : Ring g}

theorem index_below (h : r.Below) (side : Side) : r.index side < g.slotCount := by
  cases side with
  | producer => exact h.writeIndex
  | consumer => exact h.readIndex

theorem below_setIndex (h : r.Below) (side : Side) {i : UInt64} (hi : i < g.slotCount) :
    (r.setIndex side i).Below := by
  cases side with
  | producer => exact ⟨hi, h.readIndex⟩
  | consumer => exact ⟨h.writeIndex, hi⟩

theorem below_setByte (h : r.Below) (address : Nat) (byte : UInt8) :
    (r.setByte address byte).Below :=
  ⟨h.writeIndex, h.readIndex⟩

end Ring

namespace Access

variable {α β : Type} {g : Geometry} {build : Build} {r : Ring g} {p : Access α}
variable {post : α → Prop}

theorem bounded_bind {f : α → Access β} {post : α → Prop} {post' : β → Prop}
    (h : p.Bounded g post) (hf : ∀ a, post a → (f a).Bounded g post') :
    (p >>= f).Bounded g post' := by
  induction p with
  | done a => exact hf a h
  | loadIndex _ _ ih => exact fun i hi => ih i (h i hi)
  | loadByte _ _ ih => exact ⟨h.1, fun b => ih b (h.2 b)⟩
  | log _ _ ih => exact ih () h
  | storeIndex _ _ _ ih | storeByte _ _ _ ih | require _ _ _ ih => exact ⟨h.1, ih () h.2⟩

theorem bounded_run (h : p.Bounded g post) (hr : r.Below) :
    (∀ t ∈ p.touches build r, t.Sound g) ∧ (p.run build r).ring.Below ∧
      ∃ a, (p.run build r).result = .ok a ∧ post a := by
  induction p generalizing r with
  | done a => exact ⟨nofun, hr, a, rfl, h⟩
  | loadIndex o k ih =>
    have hi := Ring.index_below hr o
    obtain ⟨ht, hrest⟩ := ih _ (h _ hi) hr
    exact ⟨List.forall_mem_cons.mpr ⟨hi, ht⟩, hrest⟩
  | storeIndex o i k ih =>
    obtain ⟨ht, hrest⟩ := ih () h.2 (Ring.below_setIndex hr o h.1)
    exact ⟨List.forall_mem_cons.mpr ⟨h.1, ht⟩, hrest⟩
  | loadByte a k ih =>
    obtain ⟨ht, hrest⟩ := ih _ (h.2 _) hr
    exact ⟨List.forall_mem_cons.mpr ⟨h.1, ht⟩, hrest⟩
  | storeByte a b k ih =>
    obtain ⟨ht, hrest⟩ := ih () h.2 (Ring.below_setByte hr a b)
    exact ⟨List.forall_mem_cons.mpr ⟨h.1, ht⟩, hrest⟩
  | log e k ih => exact ih () h hr
  | require holds fault k ih =>
    have hp : passes build holds = true := by
      rw [Touch.holds_of_sound h.1]
      cases build <;> rfl
    obtain ⟨ht, hrest⟩ := ih () h.2 hr
    rw [touches, run, if_pos hp, if_pos hp]
    exact ⟨List.forall_mem_cons.mpr ⟨h.1, ht⟩, hrest⟩

theorem bounded_step (h : p.Bounded g post) (hr : r.Below) :
    (∀ t ∈ p.touch? r, t.Sound g) ∧ (p.step r).1.Bounded g post ∧ (p.step r).2.Below := by
  cases p with
  | done a => exact ⟨nofun, h, hr⟩
  | loadIndex o k =>
    have hi := Ring.index_below hr o
    exact ⟨fun t ht => Option.some.inj ht ▸ hi, h _ hi, hr⟩
  | storeIndex o i k =>
    exact ⟨fun t ht => Option.some.inj ht ▸ h.1, h.2, Ring.below_setIndex hr o h.1⟩
  | loadByte a k => exact ⟨fun t ht => Option.some.inj ht ▸ h.1, h.2 _, hr⟩
  | storeByte a b k =>
    exact ⟨fun t ht => Option.some.inj ht ▸ h.1, h.2, Ring.below_setByte hr a b⟩
  | log e k => exact ⟨nofun, h, hr⟩
  | require holds fault k => exact ⟨fun t ht => Option.some.inj ht ▸ h.1, h.2, hr⟩

/-! ## Rules for the parts of an operation -/

variable {i : UInt64}

theorem bounded_advance {f : UInt64 → Access α} (hi : i < g.slotCount)
    (h : ∀ j < g.slotCount, (f j).Bounded g post) : (g.advance i >>= f).Bounded g post := by
  refine ⟨?_, h _ (Geometry.next_lt hi)⟩
  have hn := g.slots_lt
  have hlt : i.toNat < g.slots := UInt64.lt_iff_toNat_lt.mp hi
  have hsucc : i.toNat + 1 < UInt64.size := Nat.lt_of_le_of_lt hlt hn
  exact decide_eq_true hsucc

theorem bounded_address {f : Nat → Access α} (hi : i < g.slotCount)
    (h : (f (g.start i).toNat).Bounded g post) : (g.address i >>= f).Bounded g post := by
  refine ⟨⟨decide_eq_true hi, rfl, hi⟩, decide_eq_true ?_, h⟩
  rw [show g.itemSize.toNat = g.slotSize from rfl, ← Geometry.toNat_start hi]
  exact (g.start i).toNat_lt

theorem bounded_loadBytesOnto {start count : Nat} {seen : List UInt8}
    {f : List UInt8 → Access α} (hs : start + count ≤ g.extent)
    (h : ∀ bytes, bytes.length = seen.length + count → (f bytes).Bounded g post) :
    (loadBytesOnto start count seen >>= f).Bounded g post := by
  induction count generalizing start seen with
  | zero => exact h _ List.length_reverse
  | succ count ih =>
    refine ⟨by omega, fun b => ih (by omega) fun bytes hb => h bytes ?_⟩
    rw [hb, List.length_cons]
    omega

theorem bounded_loadFront {count : Nat} {f : List UInt8 → Access α} (hi : i < g.slotCount)
    (hc : count ≤ g.slotSize) (h : ∀ bytes, bytes.length = count → (f bytes).Bounded g post) :
    (g.loadFront i count >>= f).Bounded g post := by
  have hs := Geometry.start_le_extent hi
  rw [Geometry.loadFront, LawfulMonad.bind_assoc]
  apply bounded_address hi
  apply bounded_loadBytesOnto (by omega)
  intro bytes hb
  exact h bytes (hb.trans (Nat.zero_add _))

theorem bounded_loadSlot {f : List UInt8 → Access α} (hi : i < g.slotCount)
    (h : ∀ bytes, (f bytes).Bounded g post) : (g.loadSlot i >>= f).Bounded g post :=
  bounded_loadFront hi (Nat.le_refl _) fun bytes _ => h bytes

theorem bounded_storeBytes {start : Nat} {bytes : List UInt8} {f : Unit → Access α}
    (hs : start + bytes.length ≤ g.extent) (h : (f ()).Bounded g post) :
    (storeBytes start bytes >>= f).Bounded g post := by
  induction bytes generalizing start with
  | nil => exact h
  | cons b rest ih =>
    rw [List.length_cons] at hs
    exact ⟨by omega, ih (by omega)⟩

theorem bounded_storeFront {item : List UInt8} {f : Unit → Access α} (hi : i < g.slotCount)
    (hl : item.length ≤ g.slotSize) (h : (f ()).Bounded g post) :
    (g.storeFront i item >>= f).Bounded g post := by
  have hs := Geometry.start_le_extent hi
  refine ⟨⟨decide_eq_true hl, rfl, hl⟩, ?_⟩
  show ((g.address i >>= fun start => storeBytes start item) >>= f).Bounded g post
  rw [LawfulMonad.bind_assoc]
  apply bounded_address hi
  exact bounded_storeBytes (by omega) h

theorem bounded_storeWithin {position : Nat} {bytes : List UInt8} {f : Bool → Access α}
    (hi : i < g.slotCount) (h : ∀ stored, (f stored).Bounded g post) :
    (g.storeWithin i position bytes >>= f).Bounded g post := by
  have hs := Geometry.start_le_extent hi
  rw [Geometry.storeWithin, LawfulMonad.bind_assoc]
  apply bounded_address hi
  rw [LawfulMonad.bind_assoc]
  rcases g.fits_take position bytes with ht | ht
  · rw [ht]
    exact h _
  · exact bounded_storeBytes (by omega) (h _)

end Access

/-! ## The producer's operations -/

namespace Producer

variable {g : Geometry} {p : Producer} {op : Op}

structure Below (g : Geometry) (p : Producer) : Prop where
  cachedRead : p.cachedRead < g.slotCount
  draft : ∀ d ∈ p.draft, d.index < g.slotCount ∧ d.next < g.slotCount

def excess (g : Geometry) (p : Producer) : Op → Option Nat
  | .push item => if p.draft = none ∧ g.slotSize < item.length then some item.length else none
  | _ => none

def Answer.Within : Answer → Prop
  | .refused (.oversized _ _) => False
  | _ => True

theorem bounded_claim (hp : p.Below g) : (p.claim g).Bounded g fun found =>
    found.1.Below g ∧ ∀ d ∈ found.2, d.index < g.slotCount ∧ d.next < g.slotCount := by
  intro index hindex
  apply bounded_advance hindex
  intro next hnext
  split
  · intro read hread
    refine ⟨⟨hread, hp.draft⟩, fun d hd => ?_⟩
    split at hd
    · cases hd
    · cases hd
      exact ⟨hindex, hnext⟩
  · exact ⟨hp, fun d hd => Option.some.inj hd ▸ ⟨hindex, hnext⟩⟩

theorem bounded_push {item : List UInt8} (hl : item.length ≤ g.slotSize) (hp : p.Below g) :
    (p.push g item).Bounded g fun found =>
      found.1.Below g ∧ (found.2 = .ok () ∨ found.2 = .error .full) := by
  refine ⟨⟨decide_eq_true hl, rfl, hl⟩, ?_⟩
  show Access.Bounded g (if g.slotSize < item.length then _ else _) _
  rw [if_neg (Nat.not_lt.mpr hl)]
  apply bounded_bind (bounded_claim hp)
  rintro ⟨p', _ | d⟩ ⟨hp', hd⟩
  · exact ⟨hp', .inr rfl⟩
  · obtain ⟨hindex, hnext⟩ := hd d rfl
    apply bounded_storeFront hindex hl
    exact ⟨hnext, hp', .inl rfl⟩

theorem bounded_finish {how : Draft.Ending} (hp : p.Below g) :
    (p.finish how).Bounded g (Below g) := by
  have hended : Below g { p with draft := none } := ⟨hp.cachedRead, nofun⟩
  rw [finish]
  split
  · exact hp
  · rename_i d hd
    cases how with
    | release | drop => exact ⟨(hp.draft d hd).2, hended⟩
    | discard | forget | unwind => exact hended

theorem bounded_settle {d : Draft} {stored : Bool} (hd : d.index < g.slotCount) (hp : p.Below g) :
    (p.settle g d stored).Bounded g fun found => found.1.Below g ∧ found.2.Within := by
  rw [settle]
  split
  · exact bounded_loadSlot hd fun _ => ⟨hp, trivial⟩
  · exact bounded_bind (bounded_finish hp) fun _ h => ⟨h, trivial⟩

theorem bounded_performFree (h : ∀ item, op = .push item → item.length ≤ g.slotSize)
    (hp : p.Below g) :
    (p.performFree g op).Bounded g fun found => found.1.Below g ∧ found.2.Within := by
  cases op with
  | push item =>
    apply bounded_bind (bounded_push (h item rfl) hp)
    rintro ⟨p', _⟩ ⟨hp', rfl | rfl⟩
    · exact ⟨hp', trivial⟩
    · exact ⟨hp', trivial⟩
  | draft =>
    apply bounded_bind (bounded_claim hp)
    rintro ⟨p', _ | d⟩ ⟨hp', hd⟩
    · exact ⟨hp', trivial⟩
    · apply bounded_loadSlot (hd d rfl).1
      exact fun _ => ⟨⟨hp'.cachedRead, hd⟩, trivial⟩
  | contents | store _ _ | fill _ | overwrite _ | finish _ => exact ⟨hp, trivial⟩

theorem bounded_performHolding {d : Draft} (hd : d.index < g.slotCount) (hp : p.Below g) :
    (p.performHolding g d op).Bounded g fun found => found.1.Below g ∧ found.2.Within := by
  cases op with
  | push _ | draft => exact ⟨hp, trivial⟩
  | contents => exact bounded_loadSlot hd fun _ => ⟨hp, trivial⟩
  | store position bytes => exact bounded_storeWithin hd fun _ => bounded_settle hd hp
  | fill byte =>
    apply bounded_storeFront hd (Nat.le_of_eq List.length_replicate)
    exact bounded_settle hd hp
  | overwrite bytes =>
    rw [performHolding]
    split
    · apply bounded_storeFront hd (Nat.le_of_eq ‹_›)
      exact bounded_settle hd hp
    · exact bounded_settle hd hp
  | finish how => exact bounded_bind (bounded_finish hp) fun _ h => ⟨h, trivial⟩

theorem bounded_perform (h : p.excess g op = none) (hp : p.Below g) :
    (p.perform g op).Bounded g fun found => found.1.Below g ∧ found.2.Within := by
  rw [perform]
  split
  · apply bounded_performFree _ hp
    rintro item rfl
    simpa [excess, ‹p.draft = none›] using h
  · exact bounded_performHolding (hp.draft _ ‹_›).1 hp

/-- The push of an item that no slot can hold demands that one can. -/
theorem perform_excess {length : Nat} (h : p.excess g op = some length) :
    p.perform g op = .require false (.oversizedItem length g.slotSize) fun _ =>
      .log (.pushOversized length g.slotSize) fun _ =>
        .done (p, .refused (.oversized length g.slotSize)) := by
  cases op with
  | push item =>
    obtain ⟨⟨hd, hl⟩, hlength⟩ := Option.ite_none_right_eq_some.mp h
    cases hlength
    have hfails : decide (item.length ≤ g.slotSize) = false := decide_eq_false (Nat.not_le.mpr hl)
    simp only [perform, hd, performFree, push, if_pos hl, hfails]
    rfl
  | draft | contents | store _ _ | fill _ | overwrite _ | finish _ => cases h

end Producer

/-! ## The consumer's operations -/

namespace Consumer

variable {g : Geometry} {c : Consumer} {op : Op}

structure Below (g : Geometry) (c : Consumer) : Prop where
  cachedWrite : c.cachedWrite < g.slotCount
  loan : ∀ l ∈ c.loan, l.index < g.slotCount

def Answer.Within (g : Geometry) : Answer → Prop
  | .popped (some copied) _ => copied ≤ g.slotSize
  | _ => True

theorem bounded_locate (hc : c.Below g) : c.locate.Bounded g fun found =>
    found.1.Below g ∧ ∀ l ∈ found.2, l.index < g.slotCount := by
  intro index hindex
  show Access.Bounded g (if index = c.cachedWrite then _ else _) _
  split
  · intro write hwrite
    refine ⟨⟨hwrite, hc.loan⟩, fun l hl => ?_⟩
    split at hl
    · cases hl
    · cases hl
      exact hindex
  · exact ⟨hc, fun l hl => Option.some.inj hl ▸ hindex⟩

theorem bounded_take {room : Nat} (hc : c.Below g) : (c.take g room).Bounded g fun found =>
    found.1.Below g ∧ ∀ bytes ∈ found.2, bytes.length ≤ g.slotSize := by
  apply bounded_bind (bounded_locate hc)
  rintro ⟨c', _ | l⟩ ⟨hc', hl⟩
  · exact ⟨hc', nofun⟩
  · have hindex := hl l rfl
    apply bounded_loadFront hindex (Nat.min_le_right _ _)
    intro bytes hb
    apply bounded_advance hindex
    intro next hnext
    exact ⟨hnext, hc', fun _ h => Option.some.inj h ▸ hb ▸ Nat.min_le_right _ _⟩

theorem bounded_free {l : Loan} (hl : l.index < g.slotCount) :
    (l.free g).Bounded g fun _ => True :=
  bounded_advance hl fun _ hnext => ⟨hnext, trivial⟩

theorem bounded_finish {how : Loan.Ending} (hc : c.Below g) :
    (c.finish g how).Bounded g (Below g) := by
  have hended : Below g { c with loan := none } := ⟨hc.cachedWrite, nofun⟩
  rw [finish]
  split
  · exact hc
  · rename_i l hl
    cases how with
    | release | drop | unwind =>
      exact bounded_bind (bounded_free (hc.loan l hl)) fun _ _ => hended
    | retain | forget => exact hended

theorem bounded_perform (hc : c.Below g) : (c.perform g op).Bounded g fun found =>
    found.1.Below g ∧ found.2.Within g := by
  rw [perform]
  split
  · cases op with
    | pop dest =>
      apply bounded_bind (bounded_take hc)
      rintro ⟨c', _ | bytes⟩ ⟨hc', hb⟩
      · exact ⟨hc', trivial⟩
      · exact ⟨hc', hb bytes rfl⟩
    | borrow =>
      apply bounded_bind (bounded_locate hc)
      rintro ⟨c', _ | l⟩ ⟨hc', hl⟩
      · exact ⟨hc', trivial⟩
      · exact bounded_loadSlot (hl l rfl) fun _ => ⟨⟨hc'.cachedWrite, hl⟩, trivial⟩
    | contents | byteAt _ | finish _ => exact ⟨hc, trivial⟩
  · have hindex := hc.loan _ ‹_›
    cases op with
    | pop _ | borrow => exact ⟨hc, trivial⟩
    | contents => exact bounded_loadSlot hindex fun _ => ⟨hc, trivial⟩
    | byteAt position =>
      have hs := Geometry.start_le_extent hindex
      rw [performHolding]
      split
      · apply bounded_address hindex
        exact ⟨by omega, fun _ => ⟨hc, trivial⟩⟩
      · exact bounded_bind (bounded_finish hc) fun _ h => ⟨h, trivial⟩
    | finish how => exact bounded_bind (bounded_finish hc) fun _ h => ⟨h, trivial⟩

end Consumer

/-! ## What either half asks of the ring -/

namespace Observer

variable {g : Geometry}

theorem bounded_length : (length g).Bounded g fun _ => True := by
  intro write hwrite read hread
  show (Touch.check _ (if read ≤ g.slotCount then _ else _)).Sound g ∧ True
  rw [if_pos (UInt64.le_of_lt hread)]
  refine ⟨decide_eq_true ?_, trivial⟩
  have hn := g.slotCount.toNat_lt
  have hsize : UInt64.size = 2 ^ 64 := rfl
  simp only [UInt64.lt_iff_toNat_lt, UInt64.le_iff_toNat_le] at hwrite hread ⊢
  omega

theorem bounded_isEmpty : isEmpty.Bounded g fun _ => True :=
  fun _ _ _ _ => trivial

theorem bounded_isFull : (isFull g).Bounded g fun _ => True := by
  intro write hwrite
  apply bounded_advance hwrite
  exact fun _ _ _ _ => trivial

theorem bounded_observe : (observe g).Bounded g fun _ => True := by
  apply bounded_bind bounded_length
  intro _ _
  apply bounded_bind bounded_isEmpty
  intro _ _
  exact bounded_bind bounded_isFull fun _ _ => trivial

end Observer

end SlotRing
