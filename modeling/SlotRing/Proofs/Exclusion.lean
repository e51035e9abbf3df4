import SlotRing.Proofs.Linearization

/-!
# One side at a time

The slots from the read index on and round to the write index are occupied.
Wherever the turns of two workers leave them, the producer has its hands on a
slot that is not occupied and the consumer on one that is, so no byte of an
occupied slot changes before the slot is freed (`run_exclusive`). What the
consumer is told of an item is then the same each time, until it frees it.
-/

set_option autoImplicit false

namespace SlotRing

open Access Interleaving

/-! ## Occupied slots -/

namespace Geometry

variable {g : Geometry}

def slotAt (g : Geometry) (address : Nat) : UInt64 := .ofNat (address / g.slotSize)

theorem slotAt_of_mem {k address : Nat} (hl : g.base k ≤ address)
    (hu : address < g.base k + g.slotSize) : g.slotAt address = g.place k := by
  rw [slotAt, place]
  congr 1
  apply Nat.div_eq_of_lt_le hl
  rw [Nat.succ_mul]
  exact hu

end Geometry

namespace Ring

variable {g : Geometry}

def ahead (r : Ring g) (index : UInt64) : Nat :=
  (Cyclic.distance g.slotCount r.readIndex index).toNat

/-- The slot is one of those from the read index on and round to the write index. -/
def Occupied (r : Ring g) (index : UInt64) : Prop :=
  index < g.slotCount ∧ r.ahead index < r.length

theorem ahead_ledger (b : Ledger g) {k : Nat} (hl : b.freed ≤ k) (hu : k < b.freed + g.slots) :
    b.ring.ahead (g.place k) = k - b.freed :=
  g.toNat_distance_place hl hu

theorem occupied_ledger {b : Ledger g} (hv : b.Valid) {k : Nat} (hl : b.freed ≤ k)
    (hu : k < b.freed + g.slots) : b.ring.Occupied (g.place k) ↔ k < b.published := by
  have hle := hv.freed_le
  rw [Occupied, ahead_ledger b hl hu, length_ledger hv]
  have hplace := g.place_lt k
  simp only [hplace, true_and]
  omega

theorem exists_counter (b : Ledger g) {index : UInt64} (h : index < g.slotCount) :
    ∃ k, b.freed ≤ k ∧ k < b.freed + g.slots ∧ index = g.place k := by
  have hi : index.toNat < g.slots := UInt64.lt_iff_toNat_lt.mp h
  have hf := g.mod_slots_lt b.freed
  have hround : b.freed = g.slots * (b.freed / g.slots) + b.freed % g.slots :=
    (Nat.div_add_mod _ _).symm
  have hplace : ∀ q, index = g.place (index.toNat + g.slots * q) := by
    intro q
    apply UInt64.toNat_inj.mp
    rw [g.place_toNat, Nat.add_mul_mod_self_left, Nat.mod_eq_of_lt hi]
  by_cases hle : b.freed % g.slots ≤ index.toNat
  · exact ⟨_, by omega, by omega, hplace (b.freed / g.slots)⟩
  · refine ⟨_, ?_, ?_, hplace (b.freed / g.slots + 1)⟩ <;> rw [Nat.mul_add] <;> omega

end Ring

/-! ## What the consumer is told -/

namespace Consumer

/-- The item last lent, unless the read index went past it since. -/
def remember (item : Option (UInt64 × List UInt8)) :
    Op × Answer → Option (UInt64 × List UInt8)
  | (_, .lent index bytes) => some (index, bytes)
  | (op, answer) => if decisive op answer = some (.storeIndex .consumer) then none else item

def recalled (record : List (Op × Answer)) : Option (UInt64 × List UInt8) :=
  record.foldl remember none

def Agrees (item : Option (UInt64 × List UInt8)) (op : Op) : Answer → Prop
  | .lent index bytes => ∀ known ∈ item, known = (index, bytes)
  | .contents bytes => ∃ index, item = some (index, bytes)
  | .byte value => ∃ position index bytes, op = .byteAt position ∧
      item = some (index, bytes) ∧ bytes[position]? = some value
  | .popped copied dest => ∀ known ∈ item, ∃ room, op = .pop room ∧
      copied = some (known.2.take room.length).length ∧
      dest = known.2.take room.length ++ room.drop (known.2.take room.length).length
  | .empty => item = none
  | _ => True

def Faithful (record : List (Op × Answer)) : Prop :=
  ∀ before op answer after, record = before ++ (op, answer) :: after →
    Agrees (recalled before) op answer

variable {record : List (Op × Answer)} {op : Op} {answer : Answer}

theorem recalled_append (record : List (Op × Answer)) (entry : Op × Answer) :
    recalled (record ++ [entry]) = remember (recalled record) entry := by
  rw [recalled, recalled, List.foldl_append]
  rfl

theorem faithful_append (h : Faithful record) (ha : Agrees (recalled record) op answer) :
    Faithful (record ++ [(op, answer)]) := by
  intro before op' answer' after heq
  rcases List.eq_nil_or_concat after with rfl | ⟨init, last, rfl⟩
  · obtain ⟨rfl, hlast⟩ := List.append_inj' heq rfl
    cases hlast
    exact ha
  · rw [List.concat_eq_append, ← List.cons_append, ← List.append_assoc] at heq
    exact h before op' answer' init (List.append_inj' heq rfl).1

end Consumer

namespace SlotQueue

open Consumer

variable {g : Geometry} {build : Build} {q q' : SlotQueue}
variable {record : List (Consumer.Op × Consumer.Answer)}

structure Recalls (record : List (Consumer.Op × Consumer.Answer)) (q : SlotQueue) : Prop where
  faithful : Faithful record
  known : ∀ item ∈ recalled record, item.1 = .ofNat q.front ∧ ∃ rest, q.items = item.2 :: rest
  lending : q.lending = true → ∃ item, recalled record = some item

structure Extends (q q' : SlotQueue) : Prop where
  items : q.items <+: q'.items
  front : q'.front = q.front
  lending : q'.lending = q.lending

theorem extends_settle (stored : Bool) (h : Extends q q') : Extends q (q'.settle stored).1 := by
  cases stored <;> exact ⟨h.items, h.front, h.lending⟩

theorem extends_produce (op : Producer.Op) (q : SlotQueue) :
    Extends q (q.produce g build op).1 := by
  have hself : Extends q q := ⟨List.prefix_refl _, rfl, rfl⟩
  have hedit : ∀ position bytes, Extends q (q.edit position bytes) :=
    fun _ _ => ⟨List.prefix_refl _, rfl, rfl⟩
  rw [produce]
  split
  · cases op with
    | push _ | draft | contents => exact hself
    | store position bytes => exact extends_settle _ (hedit _ _)
    | fill byte => exact extends_settle _ (hedit _ _)
    | overwrite bytes =>
      simp only [produceHolding]
      split
      · exact extends_settle _ (hedit _ _)
      · exact extends_settle _ hself
    | finish how =>
      cases how with
      | release | drop => exact ⟨List.prefix_append _ _, rfl, rfl⟩
      | discard | forget | unwind => exact ⟨List.prefix_refl _, rfl, rfl⟩
  · cases op with
    | push item =>
      simp only [produceFree]
      split
      · cases build <;> exact hself
      · split
        · exact hself
        · exact ⟨List.prefix_append _ _, rfl, rfl⟩
    | draft =>
      simp only [produceFree]
      split
      · exact hself
      · exact ⟨List.prefix_refl _, rfl, rfl⟩
    | contents | store _ _ | fill _ | overwrite _ | finish _ => exact hself

theorem recalls_produce (op : Producer.Op) (h : Recalls record q) :
    Recalls record (q.produce g build op).1 := by
  have he := @extends_produce g build op q
  refine ⟨h.faithful, ?_, ?_⟩
  · intro item hitem
    obtain ⟨hindex, rest, hrest⟩ := h.known item hitem
    obtain ⟨more, hmore⟩ := he.items
    rw [he.front]
    exact ⟨hindex, rest ++ more, by rw [← hmore, hrest, List.cons_append]⟩
  · rw [he.lending]
    exact h.lending

theorem recalls_stay {op : Consumer.Op} {answer : Consumer.Answer} (h : Recalls record q)
    (hitems : q'.items = q.items) (hfront : q'.front = q.front)
    (ha : Agrees (recalled record) op answer)
    (hr : remember (recalled record) (op, answer) = recalled record)
    (hl : q'.lending = true → q.lending = true) : Recalls (record ++ [(op, answer)]) q' := by
  refine ⟨faithful_append h.faithful ha, ?_, ?_⟩
  · rw [recalled_append, hr, hitems, hfront]
    exact h.known
  · rw [recalled_append, hr]
    exact fun hq => h.lending (hl hq)

theorem recalls_free {op : Consumer.Op} {answer : Consumer.Answer} (h : Recalls record q)
    (ha : Agrees (recalled record) op answer)
    (hr : remember (recalled record) (op, answer) = none) (hl : q'.lending = false) :
    Recalls (record ++ [(op, answer)]) q' := by
  refine ⟨faithful_append h.faithful ha, ?_, ?_⟩
  · rw [recalled_append, hr]
    exact nofun
  · rw [hl]
    exact nofun

theorem oldest_of_known {item : UInt64 × List UInt8} (h : Recalls record q)
    (hi : recalled record = some item) : q.oldest = item.2 := by
  obtain ⟨-, rest, hrest⟩ := h.known item hi
  rw [oldest, hrest]
  rfl

theorem recalled_of_empty (h : Recalls record q) (he : q.items = []) :
    recalled record = none := by
  cases hi : recalled record with
  | none => rfl
  | some item =>
    obtain ⟨-, rest, hrest⟩ := h.known item hi
    rw [he] at hrest
    cases hrest

theorem recalls_consumeFree (op : Consumer.Op) {answer : Consumer.Answer} (h : Recalls record q)
    (hl : q.lending = false) (ha : (q.consumeFree g op).2 = .ok answer) :
    Recalls (record ++ [(op, answer)]) (q.consumeFree g op).1 := by
  cases op with
  | pop dest =>
    by_cases he : q.items = []
    · simp only [consumeFree, if_pos he] at ha ⊢
      cases ha
      refine recalls_stay h rfl rfl ?_ rfl id
      rw [recalled_of_empty h he]
      rintro _ ⟨⟩
    · simp only [consumeFree, if_neg he] at ha ⊢
      cases ha
      refine recalls_free h ?_ rfl hl
      intro item hi
      rw [oldest_of_known h hi]
      exact ⟨dest, rfl, rfl, rfl⟩
  | borrow =>
    by_cases he : q.items = []
    · simp only [consumeFree, if_pos he] at ha ⊢
      cases ha
      exact recalls_stay h rfl rfl (recalled_of_empty h he) rfl id
    · simp only [consumeFree, if_neg he] at ha ⊢
      cases ha
      obtain ⟨first, rest, hrest⟩ := List.exists_cons_of_ne_nil he
      have hold : q.oldest = first := by
        rw [oldest, hrest]
        rfl
      refine ⟨faithful_append h.faithful ?_, ?_, ?_⟩
      · intro item hi
        rw [oldest_of_known h hi, ← (h.known item hi).1]
      · rw [recalled_append]
        rintro _ ⟨⟩
        exact ⟨rfl, rest, by rw [hold]; exact hrest⟩
      · rw [recalled_append]
        exact fun _ => ⟨_, rfl⟩
  | contents | byteAt _ | finish _ =>
    cases ha
    exact recalls_stay h rfl rfl trivial rfl id

theorem recalls_consumeHolding (op : Consumer.Op) {answer : Consumer.Answer}
    (h : Recalls record q) (hl : q.lending = true)
    (ha : (q.consumeHolding g op).2 = .ok answer) :
    Recalls (record ++ [(op, answer)]) (q.consumeHolding g op).1 := by
  obtain ⟨⟨index, bytes⟩, hitem⟩ := h.lending hl
  have hold : q.oldest = bytes := oldest_of_known h hitem
  cases op with
  | pop _ | borrow =>
    cases ha
    exact recalls_stay h rfl rfl trivial rfl id
  | contents =>
    cases ha
    exact recalls_stay h rfl rfl ⟨index, by rw [hold, hitem]⟩ rfl id
  | byteAt position =>
    cases hget : q.oldest[position]? with
    | some value =>
      simp only [consumeHolding, hget] at ha ⊢
      cases ha
      rw [hold] at hget
      exact recalls_stay h rfl rfl ⟨position, index, bytes, rfl, hitem, hget⟩ rfl id
    | none =>
      simp only [consumeHolding, hget] at ha ⊢
      cases ha
      exact recalls_free h trivial rfl rfl
  | finish how =>
    cases ha
    cases how with
    | release | drop | unwind => exact recalls_free h trivial rfl rfl
    | retain | forget => exact recalls_stay h rfl rfl trivial rfl fun _ => hl

theorem recalls_consume (op : Consumer.Op) {answer : Consumer.Answer} (h : Recalls record q)
    (ha : (q.consume g op).2 = .ok answer) :
    Recalls (record ++ [(op, answer)]) (q.consume g op).1 := by
  cases hl : q.lending with
  | false =>
    simp only [consume, hl, Bool.false_eq_true, if_false] at ha ⊢
    exact recalls_consumeFree op h hl ha
  | true =>
    simp only [consume, hl, if_true] at ha ⊢
    exact recalls_consumeHolding op h hl ha

theorem recalls_run (points : List Point) (h : Recalls record q)
    (hrun : q.run g build (points.map Point.op) = (q', points.map Point.answer)) :
    Recalls (record ++ points.filterMap Point.consumed?) q' := by
  induction points generalizing q record with
  | nil =>
    cases hrun
    rwa [List.filterMap_nil, List.append_nil]
  | cons point points ih =>
    simp only [List.map_cons, run, Prod.mk.injEq, List.cons.injEq] at hrun
    obtain ⟨hq, hanswer, hrest⟩ := hrun
    cases point with
    | produce op answer access =>
      exact ih (recalls_produce op h) (Prod.ext hq hrest)
    | consume op answer access =>
      have ha : (q.consume g op).2 = .ok answer := by
        cases hres : (q.consume g op).2 with
        | error fault => simp [step, Account.consumed, Point.op, Point.answer, hres] at hanswer
        | ok a => simpa [step, Account.consumed, Point.op, Point.answer, hres] using hanswer
      have := ih (recalls_consume op h ha) (Prod.ext hq hrest)
      rwa [List.append_assoc] at this

end SlotQueue

/-! ## Slots worked on -/

namespace Workers

variable {g : Geometry} {m : Interleaving g ProducerWorker ConsumerWorker} {b : Ledger g}
variable {produce : List (Producer.Op × Producer.Answer) → Option Producer.Op}
variable {consume : List (Consumer.Op × Consumer.Answer) → Option Consumer.Op}

def address? : Side → Interleaving g ProducerWorker ConsumerWorker → Option Nat
  | .producer, m => m.producer.address?
  | .consumer, m => m.consumer.address?

/-- A slot that a side has its hands on: the one it holds, the one of the byte
it loads or stores in its next turn, or the one it passes on then. -/
inductive WorksOn (m : Interleaving g ProducerWorker ConsumerWorker) : Side → UInt64 → Prop
  | draft {d : Draft} (h : m.producer.current.half.draft = some d) : WorksOn m .producer d.index
  | loan {l : Loan} (h : m.consumer.current.half.loan = some l) : WorksOn m .consumer l.index
  | byte {side : Side} {address : Nat} (h : address? side m = some address) :
    WorksOn m side (g.slotAt address)
  | pass {side : Side} (h : m.kind? side = some (.storeIndex side)) :
    WorksOn m side (m.ring.index side)

abbrev Tracking (m : Interleaving g ProducerWorker ConsumerWorker) (b : Ledger g) : Prop :=
  m.Abides (fun w b => w.half.Tracks b) (fun w b => w.half.Tracks b) b

theorem disciplined : (threads g produce consume).Disciplined
    (fun w (b : Ledger g) => w.half.Tracks b) (fun w b => w.half.Tracks b) where
  producer w p b hv hp ht := by
    have hs : ProducerSettled ⟨b, w.half.held, false⟩ w b := ⟨ht, rfl, rfl⟩
    apply safe_mono (producer_next hv w p hp hs).1
    rintro _ _ c ⟨op, p', answer, es, rfl, ht', -⟩
    exact ⟨_, rfl, ht'⟩
  consumer w p b hv hp ht := by
    have hs : ConsumerSettled ⟨b, false, w.half.held⟩ w b := ⟨ht, rfl⟩
    apply safe_mono (consumer_next hv rfl w p hp hs).1
    rintro _ _ c ⟨op, c', answer, es, rfl, ht', -⟩
    exact ⟨_, rfl, ht'⟩
  producerStable _ _ _ hm ht := Producer.tracks_other ht hm
  consumerStable _ _ _ _ hm ht := Consumer.tracks_other ht hm

theorem steady_producer : Thread.Steady fun (w : ProducerWorker) (b : Ledger g) =>
    w.half.Tracks b :=
  fun _ _ _ hi hf h => Producer.tracks_congr h (congrArg List.length hi) hf

theorem steady_consumer : Thread.Steady fun (w : ConsumerWorker) (b : Ledger g) =>
    w.half.Tracks b :=
  fun _ _ _ hi hf h => Consumer.tracks_congr h (congrArg List.length hi) hf

theorem tracking_split (hv : b.Valid) : Tracking (start b.ring) b := by
  have ht := Session.split_tracks hv
  exact ⟨⟨rfl, hv, .idle ht.producer, .idle ht.consumer⟩, ht.producer, ht.consumer⟩

/-- A side works on the slot at its own index, and there is one for it. -/
theorem ready_worksOn (h : Tracking m b) {side : Side} {index : UInt64}
    (hw : WorksOn m side index) : b.Ready side ∧ index = g.place (b.counter side) := by
  cases hw with
  | draft hd =>
    obtain ⟨rfl, hholds⟩ := Producer.holds_of_draft h.producing hd
    exact ⟨Producer.holds_ready hholds, rfl⟩
  | loan hl =>
    obtain ⟨rfl, hholds⟩ := Consumer.holds_of_loan h.consuming hl
    exact ⟨Consumer.holds_ready hholds, rfl⟩
  | @byte side address ha =>
    have hreaches : b.Reaches side address := by
      cases side with
      | producer => exact Thread.reaches_address h.producer h.valid ha
      | consumer => exact Thread.reaches_address h.consumer h.valid ha
    exact ⟨hreaches.1, Geometry.slotAt_of_mem hreaches.2.1 hreaches.2.2⟩
  | pass hk =>
    refine ⟨?_, by rw [h.ring, Ledger.index_ring]⟩
    cases side with
    | producer => exact Thread.ready_store h.producer h.valid hk
    | consumer => exact Thread.ready_store h.consumer h.valid hk

theorem unoccupied_of_worksOn (h : Tracking m b) {index : UInt64}
    (hw : WorksOn m .producer index) : index < g.slotCount ∧ ¬ m.ring.Occupied index := by
  obtain ⟨hr, rfl⟩ := ready_worksOn h hw
  refine ⟨g.place_lt _, ?_⟩
  rw [h.ring, Ledger.counter,
    Ring.occupied_ledger h.valid h.valid.freed_le h.valid.published_lt]
  exact Nat.lt_irrefl _

theorem occupied_of_worksOn (h : Tracking m b) {index : UInt64}
    (hw : WorksOn m .consumer index) : m.ring.Occupied index := by
  obtain ⟨hr, rfl⟩ := ready_worksOn h hw
  have hn := g.two_le_slots
  rw [h.ring, Ledger.counter,
    Ring.occupied_ledger h.valid (Nat.le_refl _) (Nat.lt_add_of_pos_right (by omega))]
  exact hr

/-- An item stays in its slot until the items before it and itself are freed. -/
theorem slot_kept {h h' : History g} {m' : Interleaving g ProducerWorker ConsumerWorker}
    {published removed : List (List UInt8)} {points : List Point} (hl : Linear m h)
    (hl' : Linear m' h') (hp : Passage h h' published removed points) {index : UInt64}
    (ho : m.ring.Occupied index) (hr : removed.length ≤ m.ring.ahead index) :
    m'.ring.Occupied index ∧ m'.ring.slot index = m.ring.slot index := by
  obtain ⟨k, hlow, hhigh, rfl⟩ := Ring.exists_counter h.ledger ho.1
  rw [hl.ring] at ho hr
  rw [Ring.ahead_ledger _ hlow hhigh] at hr
  have hk : k < h.ledger.published := (Ring.occupied_ledger hl.valid hlow hhigh).mp ho
  have hfreed : h'.ledger.freed = h.ledger.freed + removed.length := by
    have hlength := congrArg List.length hp.removed
    have hle := hl.valid.freed_le
    have hle' := hl'.valid.freed_le
    simp only [Ledger.published] at hle hle'
    rw [List.length_append, List.length_take, List.length_take, Nat.min_eq_left hle,
      Nat.min_eq_left hle'] at hlength
    exact hlength
  have hpublished : k < h'.ledger.published := by
    rw [Ledger.published, hp.published, List.length_append]
    exact Nat.lt_add_right _ hk
  have hitem : h'.ledger.items[k]? = h.ledger.items[k]? := by
    rw [hp.published]
    exact List.getElem?_append_left hk
  rw [hl.valid.kept k hlow hk, hl'.valid.kept k (by omega) hpublished] at hitem
  rw [hl'.ring, hl.ring]
  refine ⟨(Ring.occupied_ledger hl'.valid (by omega) (by omega)).mpr hpublished, ?_⟩
  rw [Ring.slot, Ring.slot, g.start_place]
  exact Option.some.inj hitem

structure Exclusive (threads : Threads ProducerWorker ConsumerWorker)
    (m : Interleaving g ProducerWorker ConsumerWorker) : Prop where
  writes : ∀ index, WorksOn m .producer index → index < g.slotCount ∧ ¬ m.ring.Occupied index
  reads : ∀ index, WorksOn m .consumer index → m.ring.Occupied index
  apart : ∀ index, WorksOn m .producer index → ¬ WorksOn m .consumer index
  /-- Whatever comes next, as long as no more items are freed than come before
  the one in the slot. -/
  kept : ∀ index schedule, m.ring.Occupied index →
    (passedBy threads .consumer schedule m).length ≤ m.ring.ahead index →
    (run threads schedule m).ring.Occupied index ∧
      (run threads schedule m).ring.slot index = m.ring.slot index
  faithful : Consumer.Faithful m.consumer.current.record

/-- The workers share a ring that any session may have left. -/
theorem run_exclusive {line : Padding.Line} {storage : Storage} {itemSize : UInt64} {r : Ring g}
    {e : Event} (h : Ring.construct line storage itemSize = (.ok ⟨g, r⟩, e)) (build : Build)
    (earlier : List Session.Op)
    (produce : List (Producer.Op × Producer.Answer) → Option Producer.Op)
    (consume : List (Consumer.Op × Consumer.Answer) → Option Consumer.Op)
    (schedule : List Side) :
    let left := ((Session.run build earlier (Session.split r)).1.close build).1
    Exclusive (threads g produce consume)
      (run (threads g produce consume) schedule (start left)) := by
  obtain ⟨hclose, hv⟩ :=
    Session.close_tracks build (Session.tracks_construct build earlier h).1
  intro left
  have hleft : left = _ := congrArg Prod.fst hclose
  generalize Account.close _ = closed at hleft hv
  rw [hleft]
  obtain ⟨b, ht⟩ := abides_run disciplined steady_producer steady_consumer schedule
    (tracking_split hv)
  obtain ⟨h', hl, hp⟩ := @linear_run g produce consume _ _ schedule (linear_split hv)
  constructor
  · exact fun index => unoccupied_of_worksOn ht
  · exact fun index => occupied_of_worksOn ht
  · exact fun index hw hw' => (unoccupied_of_worksOn ht hw).2 (occupied_of_worksOn ht hw')
  · intro index schedule' ho hr
    obtain ⟨h'', hl', hp'⟩ := @linear_run g produce consume _ _ schedule' hl
    exact slot_kept hl hl' hp' ho hr
  · have hrecalls : SlotQueue.Recalls [] (⟨closed.1, false, false⟩ : Account g).queue :=
      ⟨fun _ _ _ _ heq => by simp at heq, nofun, nofun⟩
    have := SlotQueue.recalls_run _ hrecalls hp.legal
    rw [hl.consumed, hp.consumed]
    exact this.faithful

/-- Three slots of two bytes, both items of which an earlier session left: the
producer is about to store the first byte of slot 0 while the consumer holds
the item in slot 2 for the second time. -/
theorem run_exclusive_wrapped :
    ∃ (g : Geometry) (r : Ring g) (e : Event),
      Ring.construct .line64 ⟨#[1, 2, 3, 4, 5, 6, 7], by decide⟩ 2 = (.ok ⟨g, r⟩, e) ∧
      let earlier := [.produce (.push [9]), .produce (.push [8]), .consume (.pop [0]),
        .produce .draft]
      let left := ((Session.run .release earlier (Session.split r)).1.close .release).1
      let produce := fun record => [.push [7]][record.length]?
      let consume := fun record =>
        [.pop [0], .borrow, .finish .retain, .borrow][record.length]?
      let m := run (threads g produce consume)
        (List.replicate 30 Side.consumer ++ List.replicate 8 Side.producer) (start left)
      WorksOn m .producer 0 ∧ WorksOn m .consumer 2 ∧
        m.consumer.current.record = [(.pop [0], .popped (some 1) [8]), (.borrow, .lent 2 [5, 6]),
          (.finish .retain, .finished), (.borrow, .lent 2 [5, 6])] ∧
        Exclusive (threads g produce consume) m := by
  refine ⟨_, _, _, rfl, ?_⟩
  refine ⟨@WorksOn.byte _ _ .producer 0 (by decide +kernel),
    @WorksOn.loan _ _ ⟨2⟩ (by decide +kernel), by decide +kernel, ?_⟩
  exact @run_exclusive _ .line64 ⟨#[1, 2, 3, 4, 5, 6, 7], by decide⟩ 2 _ _ rfl .release
    [.produce (.push [9]), .produce (.push [8]), .consume (.pop [0]), .produce .draft] _ _ _

end Workers

end SlotRing
