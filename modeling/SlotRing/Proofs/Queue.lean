import SlotRing.Proofs.Accounts

/-!
# A ring is a queue of slots

The queue knows no indices, copies or addresses: a list of filled slots,
oldest first, and a list of spare ones in the order they will be filled. An
item that is taken out becomes the last spare slot, with its bytes. Every
session is this queue, operation by operation (`run_queue`).
-/

set_option autoImplicit false

namespace SlotRing

@[ext]
structure SlotQueue where
  items : List (List UInt8)
  spare : List (List UInt8)
  front : Nat
  drafting : Bool
  lending : Bool
  deriving DecidableEq, Repr

namespace SlotQueue

def fresh (g : Geometry) (storage : Storage) : SlotQueue where
  items := []
  spare := (List.range g.slotCount.toNat).map fun i => storage.slice (i * g.slotSize) g.slotSize
  front := 0
  drafting := false
  lending := false

def back (g : Geometry) (q : SlotQueue) : Nat := (q.front + q.items.length) % g.slotCount.toNat

def next (q : SlotQueue) : List UInt8 := q.spare.headD []

def oldest (q : SlotQueue) : List UInt8 := q.items.headD []

def edit (position : Nat) (bytes : List UInt8) (q : SlotQueue) : SlotQueue :=
  { q with spare := q.spare.modifyHead (overlay position bytes) }

def enqueue (q : SlotQueue) : SlotQueue :=
  { q with items := q.items ++ q.spare.take 1, spare := q.spare.tail }

def dequeue (g : Geometry) (q : SlotQueue) : SlotQueue :=
  { q with
    items := q.items.tail
    spare := q.spare ++ q.items.take 1
    front := (q.front + 1) % g.slotCount.toNat }

/-! ## Producing -/

def produceFree (g : Geometry) (build : Build) (q : SlotQueue) :
    Producer.Op → SlotQueue × Except Fault Producer.Answer
  | .push item =>
    if g.slotSize < item.length then
      match build with
      | .release => (q, .ok (.refused (.oversized item.length g.slotSize)))
      | .checked => (q, .error (.oversizedItem item.length g.slotSize))
    else if q.items.length = g.capacity.toNat then (q, .ok (.refused .full))
    else ((q.edit 0 item).enqueue, .ok .pushed)
  | .draft =>
    if q.items.length = g.capacity.toNat then (q, .ok .full)
    else ({ q with drafting := true }, .ok (.drafted (.ofNat (q.back g)) q.next))
  | .contents | .store .. | .fill _ | .overwrite _ | .finish _ => (q, .ok .noSlot)

/-- A store that does not fit ends the draft by a panic. -/
def settle (q : SlotQueue) (stored : Bool) : SlotQueue × Except Fault Producer.Answer :=
  if stored then (q, .ok (.contents q.next)) else ({ q with drafting := false }, .ok .panicked)

def endDraft (q : SlotQueue) : Draft.Ending → SlotQueue
  | .release | .drop => { q with drafting := false }.enqueue
  | .discard | .forget | .unwind => { q with drafting := false }

def produceHolding (g : Geometry) (q : SlotQueue) :
    Producer.Op → SlotQueue × Except Fault Producer.Answer
  | .push _ | .draft => (q, .ok .slotHeld)
  | .contents => (q, .ok (.contents q.next))
  | .store position bytes =>
    (q.edit position (bytes.take (g.slotSize - position))).settle
      (bytes.length ≤ g.slotSize - position)
  | .fill byte => (q.edit 0 (List.replicate g.slotSize byte)).settle true
  | .overwrite bytes =>
    if bytes.length = g.slotSize then (q.edit 0 bytes).settle true else q.settle false
  | .finish how => (q.endDraft how, .ok .finished)

def produce (g : Geometry) (build : Build) (op : Producer.Op) (q : SlotQueue) :
    SlotQueue × Except Fault Producer.Answer :=
  if q.drafting then q.produceHolding g op else q.produceFree g build op

/-! ## Consuming -/

def consumeFree (g : Geometry) (q : SlotQueue) :
    Consumer.Op → SlotQueue × Except Fault Consumer.Answer
  | .pop dest =>
    if q.items = [] then (q, .ok (.popped none dest))
    else
      let bytes := q.oldest.take dest.length
      (q.dequeue g, .ok (.popped (some bytes.length) (bytes ++ dest.drop bytes.length)))
  | .borrow =>
    if q.items = [] then (q, .ok .empty)
    else ({ q with lending := true }, .ok (.lent (.ofNat q.front) q.oldest))
  | .contents | .byteAt _ | .finish _ => (q, .ok .noSlot)

def endLoan (g : Geometry) (q : SlotQueue) : Loan.Ending → SlotQueue
  | .release | .drop | .unwind => { q with lending := false }.dequeue g
  | .retain | .forget => { q with lending := false }

def consumeHolding (g : Geometry) (q : SlotQueue) :
    Consumer.Op → SlotQueue × Except Fault Consumer.Answer
  | .pop _ | .borrow => (q, .ok .slotHeld)
  | .contents => (q, .ok (.contents q.oldest))
  | .byteAt position =>
    match q.oldest[position]? with
    | some value => (q, .ok (.byte value))
    | none => (q.endLoan g .unwind, .ok .panicked)
  | .finish how => (q.endLoan g how, .ok .finished)

def consume (g : Geometry) (op : Consumer.Op) (q : SlotQueue) :
    SlotQueue × Except Fault Consumer.Answer :=
  if q.lending then q.consumeHolding g op else q.consumeFree g op

/-! ## Both -/

def close (g : Geometry) (q : SlotQueue) : SlotQueue :=
  let q := if q.drafting then q.endDraft .drop else q
  if q.lending then q.endLoan g .drop else q

def step (g : Geometry) (build : Build) (q : SlotQueue) :
    Session.Op → SlotQueue × Session.Answer
  | .produce op => ((q.produce g build op).1, Account.produced (q.produce g build op).2)
  | .consume op => ((q.consume g op).1, Account.consumed (q.consume g op).2)
  | .resplit => (q.close g, .resplit)

def run (g : Geometry) (build : Build) : List Session.Op → SlotQueue →
    SlotQueue × List Session.Answer
  | [], q => (q, [])
  | op :: ops, q =>
    let rest := run g build ops (q.step g build op).1
    (rest.1, (q.step g build op).2 :: rest.2)

theorem run_append (g : Geometry) (build : Build) (ops rest : List Session.Op) (q : SlotQueue) :
    q.run g build (ops ++ rest) =
      (((q.run g build ops).1.run g build rest).1,
        (q.run g build ops).2 ++ ((q.run g build ops).1.run g build rest).2) := by
  induction ops generalizing q with
  | nil => rfl
  | cons op ops ih => simp only [List.cons_append, run, ih]

end SlotQueue

/-! ## The queue of a ledger -/

namespace Ledger

variable {g : Geometry} {b : Ledger g} (drafting lending : Bool)

def slotsFrom (b : Ledger g) (k count : Nat) : List (List UInt8) :=
  (List.range count).map fun i => b.slot (k + i)

def queue (b : Ledger g) (drafting lending : Bool) : SlotQueue where
  items := b.items.drop b.freed
  spare := b.slotsFrom b.published (g.slots + b.freed - b.published)
  front := b.freed % g.slots
  drafting
  lending

theorem slotsFrom_succ (b : Ledger g) (k count : Nat) :
    b.slotsFrom k (count + 1) = b.slot k :: b.slotsFrom (k + 1) count := by
  simp [slotsFrom, List.range_succ_eq_map, Function.comp_def, Nat.add_assoc, Nat.add_comm 1]

theorem slotsFrom_append (b : Ledger g) (k count : Nat) :
    b.slotsFrom k (count + 1) = b.slotsFrom k count ++ [b.slot (k + count)] := by
  simp [slotsFrom, List.range_succ]

theorem slot_add_slots (b : Ledger g) (k : Nat) : b.slot (k + g.slots) = b.slot k := by
  rw [slot, slot, g.base_add_slots]

theorem items_eq_slots (hv : b.Valid) :
    b.items.drop b.freed = b.slotsFrom b.freed (b.published - b.freed) := by
  apply List.ext_getElem?
  intro i
  rw [List.getElem?_drop, slotsFrom, List.getElem?_map]
  by_cases hi : b.freed + i < b.published
  · rw [hv.kept _ (Nat.le_add_right _ _) hi, List.getElem?_range (by omega)]
    rfl
  · rw [List.getElem?_eq_none (Nat.le_of_not_lt hi),
      List.getElem?_eq_none (by rw [List.length_range]; omega)]
    rfl

theorem length_queue (b : Ledger g) :
    (b.queue drafting lending).items.length = b.published - b.freed := by
  rw [queue, List.length_drop, published]

theorem spare_queue (hv : b.Valid) :
    (b.queue drafting lending).spare =
      b.slot b.published ::
        b.slotsFrom (b.published + 1) (g.slots + b.freed - b.published - 1) := by
  have hlt := hv.published_lt
  have hcount : g.slots + b.freed - b.published =
      g.slots + b.freed - b.published - 1 + 1 := by omega
  rw [queue, hcount, slotsFrom_succ]
  rfl

theorem next_queue (hv : b.Valid) : (b.queue drafting lending).next = b.slot b.published := by
  rw [SlotQueue.next, spare_queue _ _ hv]
  rfl

theorem oldest_queue (b : Ledger g) : (b.queue drafting lending).oldest = b.oldest := by
  simp [SlotQueue.oldest, queue, oldest]

theorem back_queue (hv : b.Valid) : (b.queue drafting lending).back g = b.published % g.slots := by
  have hle := hv.freed_le
  rw [SlotQueue.back, length_queue]
  show (b.freed % g.slots + (b.published - b.freed)) % g.slots = _
  rw [Nat.mod_add_mod, Nat.add_sub_cancel' hle]

theorem full_queue (hv : b.Valid) :
    (b.queue drafting lending).items.length = g.capacity.toNat ↔ b.Full := by
  have hle := hv.freed_le
  have hn := g.two_le_slots
  rw [length_queue, g.toNat_capacity, Full]
  omega

theorem length_queue_le (hv : b.Valid) :
    (b.queue drafting lending).items.length ≤ g.capacity.toNat := by
  have hlt := hv.published_lt
  rw [length_queue, g.toNat_capacity]
  omega

theorem empty_queue (hv : b.Valid) : (b.queue drafting lending).items = [] ↔ b.Empty := by
  have hle := hv.freed_le
  rw [← List.length_eq_zero_iff, length_queue, Empty]
  omega

theorem queue_write (hv : b.Valid) {p : Nat} {bytes : List UInt8} (h : g.Fits p bytes) :
    (b.write p bytes).queue drafting lending = (b.queue drafting lending).edit p bytes := by
  have hlt := hv.published_lt
  have hle := hv.freed_le
  have hrest : (b.write p bytes).slotsFrom (b.published + 1)
      (g.slots + b.freed - b.published - 1) =
      b.slotsFrom (b.published + 1) (g.slots + b.freed - b.published - 1) := by
    apply List.map_congr_left
    intro i hi
    rw [List.mem_range] at hi
    exact slot_write_apart b p bytes h (by omega) (by omega) (by omega)
  apply SlotQueue.ext
  · rfl
  · rw [SlotQueue.edit, spare_queue _ _ hv, spare_queue _ _ (valid_write hv h)]
    simp only [published_write, freed_write, hrest, slot_write b p bytes h, List.modifyHead]
  · rfl
  · rfl
  · rfl

theorem queue_publish (hv : b.Valid) :
    b.publish.queue drafting lending = (b.queue drafting lending).enqueue := by
  have hlt := hv.published_lt
  have hle := hv.freed_le
  apply SlotQueue.ext
  · rw [SlotQueue.enqueue, spare_queue _ _ hv]
    show (b.items ++ [b.slot b.published]).drop b.freed =
      b.items.drop b.freed ++ [b.slot b.published]
    rw [List.drop_append_of_le_length hle]
  · rw [SlotQueue.enqueue, spare_queue _ _ hv, List.tail_cons]
    show b.publish.slotsFrom b.publish.published (g.slots + b.freed - b.publish.published) = _
    rw [published_publish, Nat.sub_sub]
    rfl
  · rfl
  · rfl
  · rfl

theorem queue_free (hv : b.Valid) (hr : b.Ready .consumer) :
    b.free.queue drafting lending = (b.queue drafting lending).dequeue g := by
  have hlt := hv.published_lt
  have hcount : g.slots + (b.freed + 1) - b.published = g.slots + b.freed - b.published + 1 := by
    omega
  have hlast : b.published + (g.slots + b.freed - b.published) = b.freed + g.slots := by omega
  have hkept : b.items[b.freed]? = some (b.slot b.freed) := hv.kept _ (Nat.le_refl _) hr
  apply SlotQueue.ext
  · show b.items.drop (b.freed + 1) = (b.items.drop b.freed).tail
    rw [List.tail_drop]
  · show b.free.slotsFrom b.published (g.slots + (b.freed + 1) - b.published) = _
    rw [hcount, slotsFrom_append, slot_free, hlast, slot_add_slots, SlotQueue.dequeue, queue,
      List.take_one, List.head?_drop, hkept]
    rfl
  · show (b.freed + 1) % g.slots = (b.freed % g.slots + 1) % g.slots
    rw [Nat.mod_add_mod]
  · rfl
  · rfl

theorem endDraft_queue (how : Draft.Ending) (hv : b.Valid) :
    (b.queue true lending).endDraft how = (b.endDraft how).1.queue false lending := by
  cases how with
  | release | drop => exact (queue_publish false lending hv).symm
  | discard | forget | unwind => rfl

theorem settle_queue (stored : Bool) (hv : b.Valid) :
    (b.queue true lending).settle stored =
      ((b.settle stored).ledger.queue (b.settle stored).held lending,
        (b.settle stored).answer) := by
  cases stored with
  | true => simp only [SlotQueue.settle, settle, if_pos, next_queue _ _ hv]
  | false => rfl

theorem produceFree_queue (build : Build) (op : Producer.Op) (hv : b.Valid) :
    let deed := b.produceFree build op
    (b.queue false lending).produceFree g build op =
      (deed.ledger.queue deed.held lending, deed.answer) := by
  have hfull := full_queue false lending hv
  cases op with
  | push item =>
    by_cases hl : g.slotSize < item.length
    · cases build <;> simp only [SlotQueue.produceFree, produceFree, if_pos hl]
    · have hfits := g.fits_zero (Nat.le_of_not_lt hl)
      by_cases hf : b.Full
      · simp only [SlotQueue.produceFree, produceFree, if_neg hl, if_pos hf, if_pos (hfull.mpr hf)]
      · have hroom := fun h => hf (hfull.mp h)
        simp only [SlotQueue.produceFree, produceFree, if_neg hl, if_neg hf, if_neg hroom,
          queue_publish _ _ (valid_write hv hfits), queue_write _ _ hv hfits]
  | draft =>
    by_cases hf : b.Full
    · simp only [SlotQueue.produceFree, produceFree, if_pos hf, if_pos (hfull.mpr hf)]
    · have hroom := fun h => hf (hfull.mp h)
      simp only [SlotQueue.produceFree, produceFree, if_neg hf, if_neg hroom, back_queue _ _ hv,
        next_queue _ _ hv]
      rfl
  | contents | store _ _ | fill _ | overwrite _ | finish _ => rfl

theorem produceHolding_queue (op : Producer.Op) (hv : b.Valid) :
    let deed := b.produceHolding op
    (b.queue true lending).produceHolding g op =
      (deed.ledger.queue deed.held lending, deed.answer) := by
  have hsettle : ∀ {p : Nat} {bytes : List UInt8} (stored : Bool), g.Fits p bytes →
      ((b.queue true lending).edit p bytes).settle stored =
        (((b.write p bytes).settle stored).ledger.queue ((b.write p bytes).settle stored).held
          lending, ((b.write p bytes).settle stored).answer) := by
    intro p bytes stored h
    rw [← queue_write _ _ hv h, settle_queue _ _ (valid_write hv h)]
  cases op with
  | push _ | draft => rfl
  | contents => simp only [SlotQueue.produceHolding, produceHolding, next_queue _ _ hv]
  | store position bytes => exact hsettle _ (g.fits_take position bytes)
  | fill byte => exact hsettle _ (g.fits_zero (Nat.le_of_eq List.length_replicate))
  | overwrite bytes =>
    by_cases hl : bytes.length = g.slotSize
    · simp only [SlotQueue.produceHolding, produceHolding, if_pos hl]
      exact hsettle _ (g.fits_zero (Nat.le_of_eq hl))
    · simp only [SlotQueue.produceHolding, produceHolding, if_neg hl]
      exact settle_queue _ _ hv
  | finish how => simp only [SlotQueue.produceHolding, produceHolding, endDraft_queue _ _ hv]

theorem produce_queue (build : Build) (op : Producer.Op) (hv : b.Valid) :
    let deed := b.produce build drafting op
    (b.queue drafting lending).produce g build op =
      (deed.ledger.queue deed.held lending, deed.answer) := by
  cases drafting with
  | false => exact produceFree_queue lending build op hv
  | true => exact produceHolding_queue lending op hv

theorem endLoan_queue (how : Loan.Ending) (hv : b.Valid) (hr : b.Ready .consumer) :
    (b.queue drafting true).endLoan g how = (b.endLoan how).1.queue drafting false := by
  cases how with
  | release | drop | unwind => exact (queue_free drafting false hv hr).symm
  | retain | forget => rfl

theorem consumeFree_queue (op : Consumer.Op) (hv : b.Valid) :
    let deed := b.consumeFree op
    (b.queue drafting false).consumeFree g op =
      (deed.ledger.queue drafting deed.held, deed.answer) := by
  have hempty := empty_queue drafting false hv
  cases op with
  | pop dest =>
    by_cases he : b.Empty
    · simp only [SlotQueue.consumeFree, consumeFree, if_pos he, if_pos (hempty.mpr he)]
    · have hitems := fun h => he (hempty.mp h)
      simp only [SlotQueue.consumeFree, consumeFree, if_neg he, if_neg hitems, oldest_queue,
        queue_free _ _ hv (ready_of_not_empty hv he)]
  | borrow =>
    by_cases he : b.Empty
    · simp only [SlotQueue.consumeFree, consumeFree, if_pos he, if_pos (hempty.mpr he)]
    · have hitems := fun h => he (hempty.mp h)
      simp only [SlotQueue.consumeFree, consumeFree, if_neg he, if_neg hitems, oldest_queue]
      rfl
  | contents | byteAt _ | finish _ => rfl

theorem consumeHolding_queue (op : Consumer.Op) (hv : b.Valid) (hr : b.Ready .consumer) :
    let deed := b.consumeHolding op
    (b.queue drafting true).consumeHolding g op =
      (deed.ledger.queue drafting deed.held, deed.answer) := by
  cases op with
  | pop _ | borrow => rfl
  | contents => simp only [SlotQueue.consumeHolding, consumeHolding, oldest_queue]
  | byteAt position =>
    cases hget : b.oldest[position]? with
    | some value => simp only [SlotQueue.consumeHolding, consumeHolding, oldest_queue, hget]
    | none =>
      simp only [SlotQueue.consumeHolding, consumeHolding, oldest_queue, hget,
        endLoan_queue _ _ hv hr]
      rfl
  | finish how => simp only [SlotQueue.consumeHolding, consumeHolding, endLoan_queue _ _ hv hr]

theorem consume_queue (op : Consumer.Op) (hv : b.Valid) (hr : lending = true → b.Ready .consumer) :
    let deed := b.consume lending op
    (b.queue drafting lending).consume g op =
      (deed.ledger.queue drafting deed.held, deed.answer) := by
  cases lending with
  | false => exact consumeFree_queue drafting op hv
  | true => exact consumeHolding_queue drafting op hv (hr rfl)

end Ledger

/-! ## The queue of an account -/

namespace Account

variable {g : Geometry} {a : Account g}

structure Sound (a : Account g) : Prop where
  valid : a.ledger.Valid
  drafting : a.drafting = true → a.ledger.Ready .producer
  lending : a.lending = true → a.ledger.Ready .consumer

theorem sound_tracks {s : Session g} (h : s.Tracks a) : a.Sound where
  valid := h.valid
  drafting hd := Producer.ready_of_held h.producer (h.drafting.symm.trans hd)
  lending hl := Consumer.ready_of_held h.consumer (h.lending.symm.trans hl)

/-- Some session has the account: one whose copies are as new as can be. -/
theorem exists_tracks (h : a.Sound) : ∃ s : Session g, s.Tracks a := by
  obtain ⟨b, drafting, lending⟩ := a
  obtain ⟨hv, hd, hl⟩ := h
  refine ⟨⟨b.ring,
    ⟨g.place b.freed, if drafting then some ⟨g.place b.published, g.place (b.published + 1)⟩
      else none⟩,
    ⟨g.place b.published, if lending then some ⟨g.place b.freed⟩ else none⟩⟩,
    rfl, hv, ⟨b.freed, rfl, Nat.le_refl _, hv.published_lt, ?_⟩,
    ⟨b.published, rfl, hv.freed_le, Nat.le_refl _, ?_⟩, ?_, ?_⟩
  · intro d h
    cases drafting <;> cases h
    exact ⟨rfl, hd rfl⟩
  · intro l h
    cases lending <;> cases h
    exact ⟨rfl, hl rfl⟩
  · cases drafting <;> rfl
  · cases lending <;> rfl

theorem sound_step (build : Build) (op : Session.Op) (h : a.Sound) :
    (a.step build op).account.Sound := by
  obtain ⟨s, hs⟩ := exists_tracks h
  exact sound_tracks (Session.tracks_step build op hs).1

def queue (a : Account g) : SlotQueue := a.ledger.queue a.drafting a.lending

theorem close_queue (h : a.Sound) : a.queue.close g = a.close.1.queue false false := by
  obtain ⟨b, drafting, lending⟩ := a
  obtain ⟨hv, hd, hl⟩ := h
  cases drafting with
  | false =>
    cases lending with
    | false => rfl
    | true => exact Ledger.endLoan_queue false .drop hv (hl rfl)
  | true =>
    have hm : Ledger.Moves .producer b b.publish := Ledger.moves_advance hv (hd rfl)
    cases lending with
    | false => exact Ledger.endDraft_queue false .drop hv
    | true =>
      have hr : b.publish.Ready .consumer := @Ledger.ready_other g .consumer b _ hm (hl rfl)
      have hdraft : (b.queue true true).endDraft .drop = b.publish.queue false true :=
        Ledger.endDraft_queue true .drop hv
      show ((b.queue true true).endDraft .drop).endLoan g .drop = _
      rw [hdraft]
      exact Ledger.endLoan_queue false .drop hm.1 hr

/-- An operation on an account is the operation on its queue. -/
theorem queue_step (build : Build) (op : Session.Op) (h : a.Sound) :
    a.queue.step g build op =
      ((a.step build op).account.queue, (a.step build op).answer) := by
  cases op with
  | produce op =>
    rw [SlotQueue.step, queue, Ledger.produce_queue _ _ build op h.valid]
    rfl
  | consume op =>
    rw [SlotQueue.step, queue, Ledger.consume_queue _ _ op h.valid h.lending]
    rfl
  | resplit => rw [SlotQueue.step, close_queue h]; rfl

theorem queue_run (build : Build) (ops : List Session.Op) (h : a.Sound) :
    a.queue.run g build ops =
      ((a.run build ops).1.queue, (a.run build ops).2.map Prod.fst) := by
  induction ops generalizing a with
  | nil => rfl
  | cons op ops ih =>
    have hrest := ih (sound_step build op h)
    simp only [SlotQueue.run, queue_step build op h, hrest]
    rfl

end Account

/-! ## The queue of a session -/

namespace Ring

variable {g : Geometry}

def slotsFrom (r : Ring g) (index : UInt64) (count : Nat) : List (List UInt8) :=
  (List.range count).map fun i => r.slot (.ofNat ((index.toNat + i) % g.slotCount.toNat))

def length (r : Ring g) : Nat := (Cyclic.distance g.slotCount r.readIndex r.writeIndex).toNat

theorem slotsFrom_ledger (b : Ledger g) (k count : Nat) :
    b.ring.slotsFrom (g.place k) count = b.slotsFrom k count := by
  apply List.map_congr_left
  intro i _
  have hplace : (UInt64.ofNat (((g.place k).toNat + i) % g.slotCount.toNat)) = g.place (k + i) := by
    rw [g.place_toNat, Geometry.place]
    congr 1
    exact Nat.mod_add_mod k g.slots i
  rw [hplace, slot, g.start_place]
  rfl

theorem fresh_queue (r : Ring g) : SlotQueue.fresh g r.storage = r.ledger.queue false false := by
  apply SlotQueue.ext
  · rfl
  · apply List.map_congr_left
    intro i hi
    have hlt : i < g.slots := List.mem_range.mp hi
    show _ = r.storage.slice ((0 + i) % g.slots * g.slotSize) g.slotSize
    rw [Nat.zero_add, Nat.mod_eq_of_lt hlt]
  · exact (Nat.zero_mod _).symm
  · rfl
  · rfl

theorem length_ledger {b : Ledger g} (hv : b.Valid) : b.ring.length = b.published - b.freed :=
  g.toNat_distance_place hv.freed_le hv.published_lt

end Ring

namespace Session

variable {g : Geometry}

def queue (s : Session g) : SlotQueue where
  items := s.ring.slotsFrom s.ring.readIndex s.ring.length
  spare := s.ring.slotsFrom s.ring.writeIndex (g.slotCount.toNat - s.ring.length)
  front := s.ring.readIndex.toNat
  drafting := s.producer.held
  lending := s.consumer.held

theorem queue_tracks {s : Session g} {a : Account g} (h : s.Tracks a) : s.queue = a.queue := by
  obtain ⟨b, drafting, lending⟩ := a
  obtain ⟨ring, hv, -, -, hd, hl⟩ := h
  have hle : b.freed ≤ b.published := hv.freed_le
  have hlength : b.ring.length = b.published - b.freed := Ring.length_ledger hv
  have hspare : g.slotCount.toNat - (b.published - b.freed) = g.slots + b.freed - b.published := by
    show g.slots - _ = _
    omega
  rw [queue, ring]
  apply SlotQueue.ext
  · show b.ring.slotsFrom (g.place b.freed) b.ring.length = b.items.drop b.freed
    rw [hlength, Ring.slotsFrom_ledger, Ledger.items_eq_slots hv]
  · show b.ring.slotsFrom (g.place b.published) (g.slotCount.toNat - b.ring.length) = _
    rw [hlength, hspare, Ring.slotsFrom_ledger]
    rfl
  · exact g.place_toNat _
  · exact hd.symm
  · exact hl.symm

/-- Any operations on a fresh ring are answered as by the queue of its slots,
leave what the queue leaves and never more than the capacity. -/
theorem run_queue {line : Padding.Line} {storage : Storage} {itemSize : UInt64} {r : Ring g}
    {e : Event} (h : Ring.construct line storage itemSize = (.ok ⟨g, r⟩, e)) (build : Build)
    (ops : List Op) :
    let final := run build ops (split r)
    (final.1.queue, final.2.map Prod.fst) = (SlotQueue.fresh g storage).run g build ops ∧
      final.1.queue.items.length ≤ g.capacity.toNat := by
  obtain ⟨htracks, htrace⟩ := tracks_construct build ops h
  have hsound : (⟨r.ledger, false, false⟩ : Account g).Sound := ⟨r.valid_ledger, nofun, nofun⟩
  have hfresh : SlotQueue.fresh g storage = (⟨r.ledger, false, false⟩ : Account g).queue := by
    rw [← (Ring.construct_ok h).1]
    exact Ring.fresh_queue r
  intro final
  rw [hfresh, Account.queue_run build ops hsound, queue_tracks htracks, htrace]
  exact ⟨rfl, Ledger.length_queue_le _ _ htracks.valid⟩

/-- Three slots of two bytes: a short item keeps the second byte of its slot, a
discarded draft its slot, and a retained loan its item. -/
theorem run_queue_three_slots :
    ∃ (g : Geometry) (r : Ring g) (e : Event),
      Ring.construct .line64 ⟨#[1, 2, 3, 4, 5, 6, 7], by decide⟩ 2 = (.ok ⟨g, r⟩, e) ∧
      let final := run .release [.produce (.push [9]), .produce .draft, .produce (.store 1 [8]),
        .produce (.finish .discard), .produce (.push [7, 7, 7]), .consume .borrow,
        .consume (.finish .retain), .consume (.pop [0]), .consume .borrow] (split r)
      final.1.queue = ⟨[], [[3, 8], [5, 6], [9, 2]], 1, false, false⟩ ∧
        final.2.map Prod.fst = [.produced .pushed, .produced (.drafted 1 [3, 4]),
          .produced (.contents [3, 8]), .produced .finished,
          .produced (.refused (.oversized 3 2)), .consumed (.lent 0 [9, 2]),
          .consumed .finished, .consumed (.popped (some 1) [9]), .consumed .empty] := by
  refine ⟨_, _, _, rfl, ?_⟩
  have h := (@run_queue _ .line64 ⟨#[1, 2, 3, 4, 5, 6, 7], by decide⟩ 2 _ _ rfl .release
    [.produce (.push [9]), .produce .draft, .produce (.store 1 [8]),
      .produce (.finish .discard), .produce (.push [7, 7, 7]), .consume .borrow,
      .consume (.finish .retain), .consume (.pop [0]), .consume .borrow]).1
  exact Prod.ext_iff.mp h

end Session

end SlotRing
