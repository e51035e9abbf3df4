import SlotRing.Proofs.Windows
import SlotRing.Proofs.Queue

/-!
# Where the bytes of an item come from

A slot keeps what was last stored in it, from round to round, and so does an
item. The stores of a run are read off its operations and their answers: a
push that succeeds stores its item, and a store through a draft as many bytes
as went in, whatever becomes of the draft. Each item lies in the slot that its
number gives, and each of its bytes is the last one stored there before it was
published, or the one that the storage came with (`run_provenance`).
-/

set_option autoImplicit false

namespace SlotRing

structure Store where
  published : Nat
  address : Nat
  byte : UInt8
  deriving DecidableEq, Repr

namespace Store

def latest (initial : UInt8) (address : Nat) (stores : List Store) : UInt8 :=
  ((stores.filter fun s => s.address = address).getLast?.map byte).getD initial

def row (published : Nat) : Nat → List UInt8 → List Store
  | _, [] => []
  | address, b :: rest => ⟨published, address, b⟩ :: row published (address + 1) rest

def before (k : Nat) (stores : List Store) : List Store :=
  stores.filter fun s => s.published ≤ k

/-- The bytes of the slot that the `k`-th item takes, as they were last stored
before the item was published. -/
def contents (g : Geometry) (storage : Storage) (stores : List Store) (k : Nat) : List UInt8 :=
  (List.range g.slotSize).map fun j =>
    let address := k % g.slotCount.toNat * g.slotSize + j
    latest (storage.get address) address (before k stores)

theorem latest_append (initial : UInt8) (address : Nat) (xs ys : List Store) :
    latest initial address (xs ++ ys) = latest (latest initial address xs) address ys := by
  simp only [latest, List.filter_append, List.getLast?_append]
  cases (ys.filter fun s => s.address = address).getLast? <;> simp

theorem latest_cons (initial : UInt8) (address : Nat) (s : Store) (rest : List Store) :
    latest initial address (s :: rest) =
      latest (if s.address = address then s.byte else initial) address rest := by
  rw [← List.singleton_append, latest_append]
  by_cases h : s.address = address <;> simp [latest, h]

theorem before_append (k : Nat) (xs ys : List Store) :
    before k (xs ++ ys) = before k xs ++ before k ys :=
  List.filter_append ..

theorem before_of_le {k : Nat} {stores : List Store} (h : ∀ s ∈ stores, s.published ≤ k) :
    before k stores = stores := by
  rw [before, List.filter_eq_self]
  intro s hs
  exact decide_eq_true (h s hs)

theorem before_of_lt {k : Nat} {stores : List Store} (h : ∀ s ∈ stores, k < s.published) :
    before k stores = [] := by
  rw [before, List.filter_eq_nil_iff]
  intro s hs hle
  exact Nat.not_le.mpr (h s hs) (of_decide_eq_true hle)

theorem published_of_mem_row {k address : Nat} {bytes : List UInt8} {s : Store}
    (h : s ∈ row k address bytes) : s.published = k := by
  induction bytes generalizing address with
  | nil => cases h
  | cons b rest ih =>
    cases h with
    | head => rfl
    | tail _ h => exact ih h

theorem get_write (s : Storage) (k start : Nat) (bytes : List UInt8) (address : Nat)
    (h : bytes = [] ∨ start + bytes.length ≤ s.size) :
    (s.write start bytes).get address =
      latest (s.get address) address (row k start bytes) := by
  induction bytes generalizing s start with
  | nil => rfl
  | cons b rest ih =>
    have hend : start + (rest.length + 1) ≤ s.size := by simpa using h
    rw [Storage.write, ih _ _ (by rw [Storage.size_set]; omega), row, latest_cons]
    by_cases ha : start = address
    · rw [if_pos ha, ← ha, Storage.get_set_same _ _ _ (by omega)]
    · rw [if_neg ha, Storage.get_set_other _ _ _ _ (Ne.symm ha)]

variable {g : Geometry} {storage : Storage} {stores : List Store} {k : Nat}

theorem slice_eq_contents {s : Storage}
    (h : ∀ address, s.get address = latest (storage.get address) address (before k stores)) :
    s.slice (g.base k) g.slotSize = contents g storage stores k := by
  apply List.map_congr_left
  intro j _
  exact h _

/-- Contents as of before earlier stores, which all count. -/
theorem contents_append {s : Storage} {xs ys : List Store} (hx : ∀ x ∈ xs, x.published ≤ k)
    (hs : ∀ address, s.get address = latest (storage.get address) address xs) :
    contents g s ys k = contents g storage (xs ++ ys) k := by
  apply List.map_congr_left
  intro j _
  simp only [before_append, latest_append, before_of_le hx, hs]

end Store

namespace Session

/-- The bytes that an operation stored, and the position of the first of them
in its slot. A store that panicked had stored what lies inside the slot. -/
def stored (g : Geometry) : Op → Answer → Nat × List UInt8
  | .produce (.push item), .produced .pushed => (0, item)
  | .produce (.store position bytes), .produced (.contents _)
  | .produce (.store position bytes), .produced .panicked =>
    (position, bytes.take (g.slotSize - position))
  | .produce (.fill byte), .produced (.contents _) => (0, List.replicate g.slotSize byte)
  | .produce (.overwrite bytes), .produced (.contents _) => (0, bytes)
  | _, _ => (0, [])

/-- The stores of a run in their order, with the number of items published
before it. All of them go to the slot of the item to be published next. -/
def stores (g : Geometry) : Nat → List (Op × Answer × List Event) → List Store
  | _, [] => []
  | k, (op, done) :: rest =>
    Store.row k (k % g.slotCount.toNat * g.slotSize + (stored g op done.1).1)
      (stored g op done.1).2 ++ stores g (k + publishedBy done) rest

theorem le_published_of_mem {g : Geometry} {k : Nat} {log : List (Op × Answer × List Event)}
    {s : Store} (h : s ∈ stores g k log) : k ≤ s.published := by
  induction log generalizing k with
  | nil => cases h
  | cons entry rest ih =>
    rcases List.mem_append.mp h with h | h
    · exact Nat.le_of_eq (Store.published_of_mem_row h).symm
    · exact Nat.le_trans (Nat.le_add_right _ _) (ih h)

end Session

/-! ## What an operation does to the slots -/

namespace Ledger

variable {g : Geometry} {b b' : Ledger g}

structure Fills (b b' : Ledger g) (written : Nat × List UInt8) : Prop where
  fits : g.Fits written.1 written.2
  storage : b'.storage = (b.write written.1 written.2).storage
  items : b'.items = b.items ∨ b'.items = b.items ++ [b'.slot b.published]

theorem fills_write {p : Nat} {bytes : List UInt8} (h : g.Fits p bytes) :
    Fills b (b.write p bytes) (p, bytes) :=
  ⟨h, rfl, .inl rfl⟩

theorem fills_publish {p : Nat} {bytes : List UInt8} (h : g.Fits p bytes) :
    Fills b (b.write p bytes).publish (p, bytes) :=
  ⟨h, rfl, .inr rfl⟩

theorem fills_self (b : Ledger g) : Fills b b (0, []) := ⟨.inl rfl, rfl, .inl rfl⟩

theorem fills_produceFree (build : Build) (op : Producer.Op) (b : Ledger g) :
    let deed := b.produceFree build op
    Fills b deed.ledger (Session.stored g (.produce op) (Account.produced deed.answer)) := by
  cases op with
  | push item =>
    by_cases hl : g.slotSize < item.length
    · simp only [produceFree, if_pos hl]
      cases build <;> exact fills_self b
    · by_cases hf : b.Full
      · simp only [produceFree, if_neg hl, if_pos hf]
        exact fills_self b
      · simp only [produceFree, if_neg hl, if_neg hf]
        exact fills_publish (g.fits_zero (Nat.le_of_not_lt hl))
  | draft =>
    rw [produceFree]
    split <;> exact fills_self b
  | contents | store _ _ | fill _ | overwrite _ | finish _ => exact fills_self b

theorem fills_produceHolding (op : Producer.Op) (b : Ledger g) :
    let deed := b.produceHolding op
    Fills b deed.ledger (Session.stored g (.produce op) (Account.produced deed.answer)) := by
  cases op with
  | push _ | draft | contents => exact fills_self b
  | store position bytes =>
    rw [produceHolding]
    cases decide (bytes.length ≤ g.slotSize - position) <;>
      exact fills_write (g.fits_take position bytes)
  | fill byte => exact fills_write (g.fits_zero (Nat.le_of_eq List.length_replicate))
  | overwrite bytes =>
    rw [produceHolding]
    split
    · exact fills_write (g.fits_zero (Nat.le_of_eq ‹_›))
    · exact fills_self b
  | finish how =>
    cases how with
    | release | drop => exact fills_publish (.inl rfl)
    | discard | forget | unwind => exact fills_self b

theorem fills_consume (held : Bool) (op : Consumer.Op) (b : Ledger g) :
    Fills b (b.consume held op).ledger (0, []) := by
  cases held with
  | false =>
    simp only [consume, if_neg Bool.false_ne_true]
    cases op with
    | pop dest =>
      rw [consumeFree]
      split <;> exact ⟨.inl rfl, rfl, .inl rfl⟩
    | borrow =>
      rw [consumeFree]
      split <;> exact fills_self b
    | contents | byteAt _ | finish _ => exact fills_self b
  | true =>
    simp only [consume, if_pos]
    cases op with
    | pop _ | borrow | contents => exact fills_self b
    | byteAt position =>
      rw [consumeHolding]
      split <;> exact ⟨.inl rfl, rfl, .inl rfl⟩
    | finish how => cases how <;> exact ⟨.inl rfl, rfl, .inl rfl⟩

theorem get_fills {written : Nat × List UInt8} (h : Fills b b' written) (address : Nat) :
    b'.storage.get address = Store.latest (b.storage.get address) address
      (Store.row b.published (g.base b.published + written.1) written.2) := by
  have hfits := g.base_fits b.published
  rw [h.storage]
  apply Store.get_write
  rw [b.fits]
  rcases h.fits with hnil | hlen
  · exact .inl hnil
  · exact .inr (by omega)

theorem getElem?_fills {written : Nat × List UInt8} (h : Fills b b' written) {k : Nat}
    (hl : b.published ≤ k) (hu : k < b'.published) :
    k = b.published ∧ b'.items[k]? = some (b'.slot k) := by
  rcases h.items with hi | hi
  · rw [published, hi] at hu
    exact absurd hu (Nat.not_lt.mpr hl)
  · rw [published, hi, List.length_append, List.length_singleton] at hu
    obtain rfl : k = b.published := Nat.le_antisymm (Nat.le_of_lt_succ hu) hl
    refine ⟨rfl, ?_⟩
    rw [hi, published, List.getElem?_concat_length]

theorem slot_fills {written : Nat × List UInt8} (h : Fills b b' written) :
    b'.slot b.published = overlay written.1 written.2 (b.slot b.published) := by
  rw [← slot_write b _ _ h.fits, slot, slot, h.storage]

end Ledger

namespace Account

variable {g : Geometry}

theorem fills_step (build : Build) (op : Session.Op) (a : Account g) :
    a.ledger.Fills (a.step build op).account.ledger
      (Session.stored g op (a.step build op).answer) := by
  obtain ⟨b, drafting, lending⟩ := a
  cases op with
  | produce op =>
    cases drafting with
    | false => exact Ledger.fills_produceFree build op b
    | true => exact Ledger.fills_produceHolding op b
  | consume op => exact Ledger.fills_consume lending op b
  | resplit =>
    cases drafting with
    | false => cases lending <;> exact ⟨.inl rfl, rfl, .inl rfl⟩
    | true => cases lending <;> exact ⟨.inl rfl, rfl, .inr rfl⟩

def stores (build : Build) (ops : List Session.Op) (a : Account g) : List Store :=
  Session.stores g a.ledger.published (ops.zip (a.run build ops).2)

theorem stores_cons (build : Build) (op : Session.Op) (ops : List Session.Op) (a : Account g) :
    let written := Session.stored g op (a.step build op).answer
    a.stores build (op :: ops) =
      Store.row a.ledger.published (g.base a.ledger.published + written.1) written.2 ++
        (a.step build op).account.stores build ops := by
  rw [stores, stores, (step_counts build op a).1]
  rfl

theorem items_prefix_run (build : Build) (ops : List Session.Op) (a : Account g) :
    a.ledger.items <+: (a.run build ops).1.ledger.items := by
  induction ops generalizing a with
  | nil => exact List.prefix_refl _
  | cons op ops ih =>
    apply List.IsPrefix.trans _ (ih (a.step build op).account)
    rcases (fills_step build op a).items with h | h
    · exact h ▸ List.prefix_refl _
    · exact h ▸ List.prefix_append _ _

theorem get_run (build : Build) (ops : List Session.Op) (a : Account g) (address : Nat) :
    (a.run build ops).1.ledger.storage.get address =
      Store.latest (a.ledger.storage.get address) address (a.stores build ops) := by
  induction ops generalizing a with
  | nil => rfl
  | cons op ops ih =>
    rw [stores_cons, Store.latest_append, ← Ledger.get_fills (fills_step build op a)]
    exact ih _

/-- The items that a run publishes hold what was stored last before them. -/
theorem getElem?_run (build : Build) (ops : List Session.Op) (a : Account g) {k : Nat}
    (hl : a.ledger.published ≤ k) (hu : k < (a.run build ops).1.ledger.published) :
    (a.run build ops).1.ledger.items[k]? =
      some (Store.contents g a.ledger.storage (a.stores build ops) k) := by
  induction ops generalizing a with
  | nil => exact absurd hu (Nat.not_lt.mpr hl)
  | cons op ops ih =>
    have hfills := fills_step build op a
    have hget := Ledger.get_fills hfills
    have hrow : ∀ s ∈ Store.row a.ledger.published (g.base a.ledger.published +
        (Session.stored g op (a.step build op).answer).1)
        (Session.stored g op (a.step build op).answer).2, s.published ≤ k := by
      intro s hs
      rw [Store.published_of_mem_row hs]
      exact hl
    rw [stores_cons]
    by_cases hk : (a.step build op).account.ledger.published ≤ k
    · rw [← Store.contents_append hrow hget]
      exact ih _ hk hu
    · -- The operation itself published the item, and the later stores do not count.
      obtain ⟨rfl, hitem⟩ := Ledger.getElem?_fills hfills hl (Nat.lt_of_not_le hk)
      have hlater : ∀ s ∈ (a.step build op).account.stores build ops,
          a.ledger.published < s.published := fun s hs =>
        Nat.lt_of_lt_of_le (Nat.lt_of_not_le hk) (Session.le_published_of_mem hs)
      obtain ⟨more, hmore⟩ := items_prefix_run build ops (a.step build op).account
      have hrun : (a.run build (op :: ops)).1.ledger.items =
          (a.step build op).account.ledger.items ++ more := hmore.symm
      rw [hrun, List.getElem?_append_left (Nat.lt_of_not_le hk), hitem]
      congr 1
      apply Store.slice_eq_contents
      intro address
      rw [Store.before_append, Store.before_of_le hrow, Store.before_of_lt hlater,
        List.append_nil, hget]

theorem published_le_run (build : Build) (ops : List Session.Op) (a : Account g) :
    ∀ s ∈ a.stores build ops, s.published ≤ (a.run build ops).1.ledger.published := by
  induction ops generalizing a with
  | nil => exact nofun
  | cons op ops ih =>
    intro s hs
    rw [stores_cons] at hs
    rcases List.mem_append.mp hs with hs | hs
    · rw [Store.published_of_mem_row hs]
      exact (items_prefix_run build (op :: ops) a).length_le
    · exact ih _ s hs

/-- Every slot from the oldest item on and up to the next one has what was
last stored in it before its item was published. -/
theorem slot_run (build : Build) (ops : List Session.Op) {a : Account g}
    (hstart : a.ledger.published = 0) (hv : (a.run build ops).1.ledger.Valid) {k : Nat}
    (hl : (a.run build ops).1.ledger.freed ≤ k)
    (hu : k ≤ (a.run build ops).1.ledger.published) :
    (a.run build ops).1.ledger.slot k =
      Store.contents g a.ledger.storage (a.stores build ops) k := by
  rcases Nat.lt_or_eq_of_le hu with hlt | rfl
  · have hkept := hv.kept k hl hlt
    rw [getElem?_run build ops a (by omega) hlt] at hkept
    exact (Option.some.inj hkept).symm
  · apply Store.slice_eq_contents
    intro address
    rw [Store.before_of_le (published_le_run build ops a), get_run]

/-- An item that is pushed comes before what its slot held behind it. -/
theorem contents_push (build : Build) (ops : List Session.Op) (item : List UInt8)
    {a : Account g} (hzero : a.ledger.published = 0) :
    let last := (a.run build ops).1
    let op : Session.Op := .produce (.push item)
    (last.step build op).answer = .produced .pushed →
      Store.contents g a.ledger.storage (a.stores build (ops ++ [op])) last.ledger.published =
        item ++ (last.ledger.slot last.ledger.published).drop item.length := by
  intro last op hanswer
  have hfills := fills_step build op last
  have hcount := (step_counts build op last).1
  have hrun : (a.run build (ops ++ [op])).1 = (last.step build op).account := by
    rw [run_append]
    rfl
  rw [hanswer] at hfills hcount
  have hmore : last.ledger.published < (last.step build op).account.ledger.published := by
    rw [hcount]
    exact Nat.lt_add_of_pos_right (Nat.succ_pos _)
  have hitem := getElem?_run build (ops ++ [op]) a (by omega) (by rwa [hrun])
  rw [hrun, (Ledger.getElem?_fills hfills (Nat.le_refl _) hmore).2, Option.some.injEq,
    Ledger.slot_fills hfills] at hitem
  rw [← hitem]
  simp [op, Session.stored, overlay]

end Account

theorem Ring.slot_place {g : Geometry} (b : Ledger g) (k : Nat) :
    b.ring.slot (g.place k) = b.slot k := by
  rw [slot, g.start_place]
  rfl

/-! ## What the halves are told -/

namespace Session

variable {g : Geometry}

def log (build : Build) (ops : List Op) (s : Session g) : List (Op × Answer × List Event) :=
  ops.zip (run build ops s).2

/-- The slots and bytes that an answer names: for a draft those of the next
item, and for the consumer those of the oldest one, which is there. -/
def Tells (g : Geometry) (published freed : Nat) (next oldest : List UInt8) : Op → Answer → Prop
  | .produce .draft, .produced (.drafted index contents) =>
    index.toNat = published % g.slotCount.toNat ∧ contents = next
  | .consume .borrow, .consumed (.lent index contents) =>
    freed < published ∧ index.toNat = freed % g.slotCount.toNat ∧ contents = oldest
  | .consume (.pop dest), .consumed (.popped (some copied) filled) =>
    freed < published ∧ copied = min dest.length g.slotSize ∧
      filled = oldest.take copied ++ dest.drop copied
  | .consume .contents, .consumed (.contents contents) => freed < published ∧ contents = oldest
  | .consume (.byteAt position), .consumed (.byte value) =>
    freed < published ∧ oldest[position]? = some value
  | _, _ => True

theorem tells_produce (build : Build) (op : Producer.Op) (held : Bool) (b : Ledger g) :
    Tells g b.published b.freed (b.slot b.published) (b.slot b.freed) (.produce op)
      (Account.produced (b.produce build held op).answer) := by
  cases op with
  | draft =>
    cases held with
    | true => trivial
    | false =>
      simp only [Ledger.produce, if_neg Bool.false_ne_true, Ledger.produceFree]
      split
      · trivial
      · exact ⟨g.place_toNat _, rfl⟩
  | push _ | contents | store _ _ | fill _ | overwrite _ | finish _ => trivial

theorem tells_consume (op : Consumer.Op) {held : Bool} {b : Ledger g} (hv : b.Valid)
    (hr : held = true → b.Ready .consumer) :
    Tells g b.published b.freed (b.slot b.published) (b.slot b.freed) (.consume op)
      (Account.consumed (b.consume held op).answer) := by
  cases held with
  | false =>
    simp only [Ledger.consume, if_neg Bool.false_ne_true]
    cases op with
    | pop dest =>
      simp only [Ledger.consumeFree]
      split
      · trivial
      · have hr := Ledger.ready_of_not_empty hv ‹_›
        have hlen : (b.oldest.take dest.length).length = min dest.length g.slotSize := by
          rw [List.length_take, Ledger.oldest_eq hv hr, b.length_slot]
        refine ⟨hr, hlen, ?_⟩
        rw [hlen, Ledger.oldest_eq hv hr, ← b.length_slot b.freed, List.take_eq_take_min]
    | borrow =>
      simp only [Ledger.consumeFree]
      split
      · trivial
      · have hr := Ledger.ready_of_not_empty hv ‹_›
        exact ⟨hr, g.place_toNat _, Ledger.oldest_eq hv hr⟩
    | contents | byteAt _ | finish _ => trivial
  | true =>
    have hready := hr rfl
    simp only [Ledger.consume, if_pos]
    cases op with
    | contents => exact ⟨hready, Ledger.oldest_eq hv hready⟩
    | byteAt position =>
      simp only [Ledger.consumeHolding, Ledger.oldest_eq hv hready]
      split
      · exact ⟨hready, ‹_›⟩
      · trivial
    | pop _ | borrow | finish _ => trivial

theorem tells_step (build : Build) (op : Op) {a : Account g} (hs : a.Sound) :
    Tells g a.ledger.published a.ledger.freed (a.ledger.slot a.ledger.published)
      (a.ledger.slot a.ledger.freed) op (a.step build op).answer := by
  cases op with
  | produce op => exact tells_produce build op a.drafting a.ledger
  | consume op => exact tells_consume op hs.valid hs.lending
  | resplit => trivial

/-- After any operations on a fresh ring, the items that wait and the slot to
be filled next lie where their numbers say and hold what was stored last before
they were published; the next answer tells of them; and if it is a push, its
item and the rest of the slot become the next item. -/
theorem run_provenance {line : Padding.Line} {storage : Storage} {itemSize : UInt64} {r : Ring g}
    {e : Event} (h : Ring.construct line storage itemSize = (.ok ⟨g, r⟩, e)) (build : Build)
    (ops : List Op) (op : Op) :
    let final := run build ops (split r)
    let answer := (final.1.step build op).answer
    let bytes := Store.contents g storage (stores g 0 (log build ops (split r)))
    (∀ k, freed final.2 ≤ k → k ≤ published final.2 →
        final.1.ring.slot (.ofNat (k % g.slotCount.toNat)) = bytes k) ∧
      Tells g (published final.2) (freed final.2) (bytes (published final.2))
        (bytes (freed final.2)) op answer ∧
      ∀ item, op = .produce (.push item) → answer = .produced .pushed →
        Store.contents g storage (stores g 0 (log build (ops ++ [op]) (split r)))
            (published final.2) =
          item ++ (final.1.ring.slot final.1.ring.writeIndex).drop item.length := by
  obtain ⟨htracks, htrace⟩ := tracks_construct build ops h
  obtain ⟨-, htrace'⟩ := tracks_construct build (ops ++ [op]) h
  have hstorage : r.ledger.storage = storage := (Ring.construct_ok h).1
  have hzero : (⟨r.ledger, false, false⟩ : Account g).ledger.published = 0 := rfl
  obtain ⟨hpublished, hfreed⟩ := Account.run_counts build ops ⟨r.ledger, false, false⟩
  rw [← htrace, hzero, Nat.zero_add] at hpublished
  rw [← htrace] at hfreed
  have hfreed : _ = freed (run build ops (split r)).2 := hfreed.trans (Nat.zero_add _)
  have hslot := fun k => @Account.slot_run g build ops _ hzero htracks.valid k
  have hpush := fun item => @Account.contents_push g build ops item _ hzero
  have htells := tells_step build op (Account.sound_tracks htracks)
  have hle := htracks.valid.freed_le
  have hanswer := (tracks_step build op htracks).2.2
  intro final answer bytes
  have hbytes : bytes = Store.contents g r.ledger.storage
      (Account.stores build ops ⟨r.ledger, false, false⟩) := by
    simp only [bytes, log, Account.stores, htrace, hstorage]
    rfl
  rw [← hbytes] at hslot
  refine ⟨?_, ?_, ?_⟩
  · intro k hl hu
    rw [← hslot k (by rwa [hfreed]) (by rwa [hpublished]), htracks.ring]
    exact Ring.slot_place _ k
  · rwa [hslot _ hle (Nat.le_refl _), hslot _ (Nat.le_refl _) hle, hpublished, hfreed,
      ← hanswer] at htells
  · rintro item rfl hpushed
    have hnext := hpush item (hanswer.symm.trans hpushed)
    rw [Account.stores, ← htrace', hstorage, ← Ring.slot_place, ← htracks.ring] at hnext
    have hindex : final.1.ring.writeIndex = _ := congrArg Ring.writeIndex htracks.ring
    rw [← hpublished, hindex]
    exact hnext

/-- Three slots of two bytes: a store panics after the last byte of slot 1, a
short item goes before that byte, and a draft spoils slot 0 for the item of the
next round, which is on loan. -/
theorem run_provenance_three_slots :
    ∃ (g : Geometry) (r : Ring g) (e : Event),
      Ring.construct .line64 ⟨#[1, 2, 3, 4, 5, 6, 7], by decide⟩ 2 = (.ok ⟨g, r⟩, e) ∧
      let ops := [.produce (.push [9]), .produce .draft, .produce (.store 1 [8, 8]),
        .produce (.push [7]), .consume (.pop [0, 0]), .consume (.pop [0, 0]), .produce .draft,
        .resplit, .produce .draft, .produce (.fill 6), .produce (.finish .discard),
        .produce (.push [4]), .consume (.pop [0])]
      let op := .consume .borrow
      let final := run .release ops (split r)
      let answer := (final.1.step .release op).answer
      let bytes := Store.contents g ⟨#[1, 2, 3, 4, 5, 6, 7], by decide⟩
        (stores g 0 (log .release ops (split r)))
      published final.2 = 4 ∧ freed final.2 = 3 ∧
        [bytes 0, bytes 1, bytes 2, bytes 3] = [[9, 2], [7, 8], [5, 6], [4, 6]] ∧
        answer = .consumed (.lent 0 [4, 6]) ∧
        final.1.ring.slot (.ofNat (3 % g.slotCount.toNat)) = bytes 3 ∧
        Tells g 4 3 (bytes 4) (bytes 3) op answer := by
  refine ⟨_, _, _, rfl, ?_⟩
  intro ops op final answer bytes
  have h := @run_provenance _ .line64 ⟨#[1, 2, 3, 4, 5, 6, 7], by decide⟩ 2 _ _ rfl .release
    ops op
  have hpublished : published final.2 = 4 := by decide +kernel
  have hfreed : freed final.2 = 3 := by decide +kernel
  have hslot := h.1 3 (Nat.le_of_eq hfreed)
    (Nat.le_trans (Nat.le_succ 3) (Nat.le_of_eq hpublished.symm))
  have htells := h.2.1
  rw [hpublished, hfreed] at htells
  exact ⟨hpublished, hfreed, by decide +kernel, by decide +kernel, hslot, htells⟩

end Session

end SlotRing
