import SlotRing.Proofs.Queue
import SlotRing.Proofs.Turns

/-!
# Linearization

Two workers perform operations on the halves of a ring, access by access and
in any order of turns. Each operation lands in one turn, its linearization
point, and the operations in the order of their points are a run of the queue
of slots with the very answers that the workers get. The invariant is
`Linear`: the account of the operations that landed has the same items as the
shared memory, and the same bytes too unless the producer is at work.
-/

set_option autoImplicit false

namespace SlotRing

open Access Interleaving

structure Worker (H O A : Type) where
  half : H
  record : List (O × A)

abbrev ProducerWorker := Worker Producer Producer.Op Producer.Answer

abbrev ConsumerWorker := Worker Consumer Consumer.Op Consumer.Answer

def Worker.next {H O A : Type} (perform : H → O → Access (H × A)) (choose : List (O × A) → Option O)
    (w : Worker H O A) : Option (Access (Worker H O A)) :=
  (choose w.record).map fun op => do
    let (half, answer) ← perform w.half op
    pure ⟨half, w.record ++ [(op, answer)]⟩

/-- The turn that an operation took effect in: its answer and the access. -/
inductive Point where
  | produce (op : Producer.Op) (answer : Producer.Answer) (access : Option Kind)
  | consume (op : Consumer.Op) (answer : Consumer.Answer) (access : Option Kind)

namespace Point

def op : Point → Session.Op
  | .produce op _ _ => .produce op
  | .consume op _ _ => .consume op

def answer : Point → Session.Answer
  | .produce _ answer _ => .produced answer
  | .consume _ answer _ => .consumed answer

def produced? : Point → Option (Producer.Op × Producer.Answer)
  | .produce op answer _ => some (op, answer)
  | .consume .. => none

def consumed? : Point → Option (Consumer.Op × Consumer.Answer)
  | .consume op answer _ => some (op, answer)
  | .produce .. => none

/-- The access is the store of one's own index or the load of the other one,
if the answer depends on either. -/
def Decided : Point → Prop
  | .produce op answer access =>
    ∀ kind, Producer.decisive op answer = some kind → access = some kind
  | .consume op answer access =>
    ∀ kind, Consumer.decisive op answer = some kind → access = some kind

end Point

namespace Interleaving

variable {g : Geometry} {σ τ : Type}

def kind? : Side → Interleaving g σ τ → Option Kind
  | .producer, m => m.producer.kind?
  | .consumer, m => m.consumer.kind?

/-- The slot that `side` passes on in a turn: the one at its index, as it is
when the index is moved on. -/
def passed (turn side : Side) (m : Interleaving g σ τ) : List (List UInt8) :=
  if turn = side ∧ m.kind? side = some (.storeIndex side) then
    [m.ring.slot (m.ring.index side)]
  else []

def passedBy (threads : Threads σ τ) (side : Side) :
    List Side → Interleaving g σ τ → List (List UInt8)
  | [], _ => []
  | turn :: schedule, m =>
    m.passed turn side ++ passedBy threads side schedule (m.turn threads turn)

end Interleaving

/-! ## Two workers -/

namespace Workers

variable {g : Geometry}

def threads (g : Geometry) (produce : List (Producer.Op × Producer.Answer) → Option Producer.Op)
    (consume : List (Consumer.Op × Consumer.Answer) → Option Consumer.Op) :
    Threads ProducerWorker ConsumerWorker where
  producer := Worker.next (fun p op => p.perform g op) produce
  consumer := Worker.next (fun c op => c.perform g op) consume

def start (r : Ring g) : Interleaving g ProducerWorker ConsumerWorker :=
  .start r ⟨(Session.split r).producer, []⟩ ⟨(Session.split r).consumer, []⟩

def point? (threads : Threads ProducerWorker ConsumerWorker) :
    Side → Interleaving g ProducerWorker ConsumerWorker → Option Point
  | .producer, m => do
    let w ← m.producer.landed (m.turn threads .producer).producer
    let (op, answer) ← w.record.getLast?
    some (.produce op answer m.producer.kind?)
  | .consumer, m => do
    let w ← m.consumer.landed (m.turn threads .consumer).consumer
    let (op, answer) ← w.record.getLast?
    some (.consume op answer m.consumer.kind?)

def points (threads : Threads ProducerWorker ConsumerWorker) :
    List Side → Interleaving g ProducerWorker ConsumerWorker → List Point
  | [], _ => []
  | turn :: schedule, m =>
    (point? threads turn m).toList ++ points threads schedule (m.turn threads turn)

/-! ## The invariant -/

def ProducerSettled (a : Account g) (w : ProducerWorker) (b : Ledger g) : Prop :=
  w.half.Tracks b ∧ a.drafting = w.half.held ∧ a.ledger = b

/-- The operation under way will be that of the account as the consumer's
operations leave it. -/
def ProducerGoal (a : Account g) (w : ProducerWorker) (r : Except Fault ProducerWorker)
    (b : Ledger g) : Prop :=
  ∃ op p answer es, r = .ok ⟨p, w.record ++ [(op, answer)]⟩ ∧ p.Tracks b ∧
    ({ a.ledger with freed := b.freed } : Ledger g).produce .release a.drafting op =
      ⟨b, p.held, es, .ok answer⟩

def ProducerEnds (w : ProducerWorker) (last : Option Kind) (w' : ProducerWorker) : Prop :=
  ∀ op p answer, w' = ⟨p, w.record ++ [(op, answer)]⟩ → Producer.Decided op last (p, answer)

def ConsumerSettled (a : Account g) (w : ConsumerWorker) (b : Ledger g) : Prop :=
  w.half.Tracks b ∧ a.lending = w.half.held

def ConsumerGoal (a : Account g) (w : ConsumerWorker) (r : Except Fault ConsumerWorker)
    (b : Ledger g) : Prop :=
  ∃ op c answer es, r = .ok ⟨c, w.record ++ [(op, answer)]⟩ ∧ c.Tracks b ∧
    ({ b with freed := a.ledger.freed } : Ledger g).consume a.lending op =
      ⟨b, c.held, es, .ok answer⟩

def ConsumerEnds (w : ConsumerWorker) (last : Option Kind) (w' : ConsumerWorker) : Prop :=
  ∀ op c answer, w' = ⟨c, w.record ++ [(op, answer)]⟩ → Consumer.Decided op last (c, answer)

structure History (g : Geometry) where
  account : Account g
  ledger : Ledger g
  produced : List (Producer.Op × Producer.Answer)
  consumed : List (Consumer.Op × Consumer.Answer)

structure Linear (m : Interleaving g ProducerWorker ConsumerWorker) (h : History g) : Prop where
  ring : m.ring = h.ledger.ring
  valid : h.ledger.Valid
  sound : h.account.Sound
  items : h.account.ledger.items = h.ledger.items
  freed : h.account.ledger.freed = h.ledger.freed
  producer : m.producer.Stands .producer (ProducerSettled h.account) (ProducerGoal h.account)
    ProducerEnds h.ledger
  consumer : m.consumer.Stands .consumer (ConsumerSettled h.account) (ConsumerGoal h.account)
    ConsumerEnds h.ledger
  produced : m.producer.current.record = h.produced
  consumed : m.consumer.current.record = h.consumed
  completed : m.producer.state.record <+: h.produced
  returned : m.consumer.state.record <+: h.consumed

structure Passage (h h' : History g) (published removed : List (List UInt8))
    (points : List Point) : Prop where
  published : h'.ledger.items = h.ledger.items ++ published
  removed : h'.ledger.items.take h'.ledger.freed = h.ledger.items.take h.ledger.freed ++ removed
  legal : h.account.queue.run g .release (points.map Point.op) =
    (h'.account.queue, points.map Point.answer)
  produced : h'.produced = h.produced ++ points.filterMap Point.produced?
  consumed : h'.consumed = h.consumed ++ points.filterMap Point.consumed?
  decided : ∀ point ∈ points, point.Decided

theorem producer_next {choose : List (Producer.Op × Producer.Answer) → Option Producer.Op}
    {a : Account g} {b : Ledger g} (hv : b.Valid) (w : ProducerWorker) (p : Access ProducerWorker)
    (hp : Worker.next (fun p op => p.perform g op) choose w = some p)
    (hs : ProducerSettled a w b) :
    Safe .release .producer true p (fun _ => ProducerGoal a w) b ∧
      p.EndsBy (ProducerEnds w) none := by
  obtain ⟨ht, hd, rfl⟩ := hs
  obtain ⟨op, -, rfl⟩ := Option.map_eq_some_iff.mp hp
  constructor
  · apply safe_end (fun _ => ⟨_, rfl⟩)
    apply safe_mono (safe_release (Producer.safe_perform op hv ht))
    rintro es r b' ⟨⟨p', answer⟩, rfl, hp', hdeed⟩ _ ⟨⟩
    refine ⟨op, p', answer, es, rfl, hp', ?_⟩
    rw [hd]
    exact hdeed
  · apply endsBy_bind
    apply endsBy_mono (Producer.endsBy_perform w.half op)
    rintro last ⟨p', answer⟩ hdecided op' p'' answer' h
    cases List.append_cancel_left (congrArg Worker.record h)
    exact hdecided

theorem consumer_next {choose : List (Consumer.Op × Consumer.Answer) → Option Consumer.Op}
    {a : Account g} {b : Ledger g} (hv : b.Valid) (hf : a.ledger.freed = b.freed)
    (w : ConsumerWorker) (p : Access ConsumerWorker)
    (hp : Worker.next (fun c op => c.perform g op) choose w = some p)
    (hs : ConsumerSettled a w b) :
    Safe .release .consumer true p (fun _ => ConsumerGoal a w) b ∧
      p.EndsBy (ConsumerEnds w) none := by
  obtain ⟨ht, hl⟩ := hs
  obtain ⟨op, -, rfl⟩ := Option.map_eq_some_iff.mp hp
  constructor
  · apply safe_end (fun _ => ⟨_, rfl⟩)
    apply safe_mono (safe_release (Consumer.safe_perform op hv ht))
    rintro es r b' ⟨⟨c', answer⟩, rfl, hc', hdeed⟩ _ ⟨⟩
    refine ⟨op, c', answer, es, rfl, hc', ?_⟩
    rw [hl, hf]
    exact hdeed
  · apply endsBy_bind
    apply endsBy_mono (Consumer.endsBy_perform w.half op)
    rintro last ⟨c', answer⟩ hdecided op' c'' answer' h
    cases List.append_cancel_left (congrArg Worker.record h)
    exact hdecided

/-! ## Turns -/

variable {produce : List (Producer.Op × Producer.Answer) → Option Producer.Op}
variable {consume : List (Consumer.Op × Consumer.Answer) → Option Consumer.Op}
variable {m : Interleaving g ProducerWorker ConsumerWorker} {h : History g}

theorem consume_record (held : Bool) (op : Consumer.Op) {b c : Ledger g} (hi : c.items = b.items)
    (hf : c.freed = b.freed) :
    c.consume held op =
      ⟨{ c with freed := (b.consume held op).ledger.freed }, (b.consume held op).held,
        (b.consume held op).events, (b.consume held op).answer⟩ := by
  obtain ⟨storage, fits, items, freed⟩ := b
  obtain ⟨storage', fits', items', freed'⟩ := c
  obtain rfl : items' = items := hi
  obtain rfl : freed' = freed := hf
  cases held with
  | false =>
    simp only [Ledger.consume, if_neg Bool.false_ne_true]
    cases op with
    | pop dest =>
      by_cases he : freed' = items'.length
      · simp [Ledger.consumeFree, Ledger.Empty, Ledger.published, he]
      · simp [Ledger.consumeFree, Ledger.Empty, Ledger.published, Ledger.free, Ledger.oldest, he]
    | borrow =>
      by_cases he : freed' = items'.length
      · simp [Ledger.consumeFree, Ledger.Empty, Ledger.published, he]
      · simp [Ledger.consumeFree, Ledger.Empty, Ledger.published, Ledger.oldest, he]
    | contents | byteAt _ | finish _ => rfl
  | true =>
    simp only [Ledger.consume, if_pos]
    cases op with
    | pop _ | borrow | contents => rfl
    | byteAt position =>
      have holdest : (⟨storage', fits', items', freed'⟩ : Ledger g).oldest =
        (⟨storage, fits, items', freed'⟩ : Ledger g).oldest := rfl
      simp only [Ledger.consumeHolding, holdest]
      cases (⟨storage, fits, items', freed'⟩ : Ledger g).oldest[position]? <;> rfl
    | finish how => cases how <;> rfl

theorem passed_self (hr : m.ring = h.ledger.ring) (side : Side) :
    m.passed side side =
      if m.kind? side = some (.storeIndex side) then [h.ledger.slot (h.ledger.counter side)]
      else [] := by
  simp only [passed, hr, Ledger.slot_ring, true_and]

theorem passed_other (side : Side) : m.passed side side.other = [] := by
  cases side <;> exact if_neg fun h => nomatch h.1

theorem passage_silent {b : Ledger g} (hi : b.items = h.ledger.items)
    (hf : b.freed = h.ledger.freed) : Passage h { h with ledger := b } [] [] [] where
  published := by rw [hi, List.append_nil]
  removed := by rw [hi, hf, List.append_nil]
  legal := rfl
  produced := (List.append_nil _).symm
  consumed := (List.append_nil _).symm
  decided _ hmem := absurd hmem List.not_mem_nil

theorem passage_trans {h' h'' : History g} {points points' : List Point}
    {published removed published' removed' : List (List UInt8)}
    (hp : Passage h h' published removed points)
    (hp' : Passage h' h'' published' removed' points') :
    Passage h h'' (published ++ published') (removed ++ removed') (points ++ points') where
  published := by rw [hp'.published, hp.published, List.append_assoc]
  removed := by rw [hp'.removed, hp.removed, List.append_assoc]
  legal := by
    rw [List.map_append, List.map_append, SlotQueue.run_append, hp.legal, hp'.legal]
  produced := by rw [hp'.produced, hp.produced, List.filterMap_append, List.append_assoc]
  consumed := by rw [hp'.consumed, hp.consumed, List.filterMap_append, List.append_assoc]
  decided point hmem := (List.mem_append.mp hmem).elim (hp.decided point) (hp'.decided point)

theorem queue_point {a a' : Account g} {point : Point} {es : List Event} (hs : a.Sound)
    (hstep : a.step .release point.op = ⟨a', es, point.answer⟩) :
    a.queue.run g .release [point.op] = (a'.queue, [point.answer]) := by
  simp only [SlotQueue.run, Account.queue_step .release point.op hs, hstep]

theorem completed_of_state {H O A : Type} {t t' : Thread (Worker H O A)} {record : List (O × A)}
    (h : t'.state = t.state ∨ t'.state = t.current) (hc : t.current.record = record)
    (hs : t.state.record <+: record) : t'.state.record <+: record := by
  rcases h with h | h
  · rwa [h]
  · exact ⟨[], by rw [List.append_nil, h, hc]⟩

section

variable {ts : Threads ProducerWorker ConsumerWorker} {b : Ledger g} {es : List Event}

/-! ### Of the producer -/

variable {p : Producer} {produceOp : Producer.Op} {produced : Producer.Answer}

theorem producer_quiet (hl : Linear m h) (hm : Ledger.Moves .producer h.ledger b)
    (hring : (m.turn ts .producer).ring = b.ring)
    (hquiet : Thread.Quiet .producer m.producer (m.turn ts .producer).producer h.ledger b)
    (hstands : (m.turn ts .producer).producer.Stands .producer (ProducerSettled h.account)
      (ProducerGoal h.account) ProducerEnds b) :
    Linear (m.turn ts .producer) { h with ledger := b } ∧
      Passage h { h with ledger := b } (m.passed .producer .producer)
        (m.passed .producer .consumer) (point? ts .producer m).toList := by
  constructor
  · refine ⟨hring, hm.1, hl.sound, hl.items.trans hquiet.items.symm,
      hl.freed.trans hquiet.freed.symm, hstands, ?_,
      (congrArg Worker.record hquiet.current).trans hl.produced, hl.consumed,
      completed_of_state hquiet.state hl.produced hl.completed, hl.returned⟩
    apply Thread.stands_other hl.consumer hm
    · exact fun w hw => ⟨Consumer.tracks_other hw.1 hm, hw.2⟩
    · exact fun _ _ _ hg => hg
  · have hpoint : point? ts .producer m = none := by
      rw [point?, hquiet.landed]
      rfl
    have hkind : m.kind? .producer ≠ some (.storeIndex .producer) := hquiet.kind
    have hother : m.passed .producer .consumer = [] := passed_other .producer
    rw [passed_self hl.ring .producer, if_neg hkind, hother, hpoint]
    exact passage_silent hquiet.items hquiet.freed

theorem linear_produced (hl : Linear m h) (hm : Ledger.Moves .producer h.ledger b)
    (hring : (m.turn ts .producer).ring = b.ring)
    (hland : Thread.Lands .producer m.producer (m.turn ts .producer).producer h.ledger b
      ⟨p, m.producer.current.record ++ [(produceOp, produced)]⟩)
    (ht : p.Tracks b)
    (hstep : h.account.step .release (.produce produceOp) =
      ⟨⟨b, p.held, h.account.lending⟩, es, .produced produced⟩) :
    Linear (m.turn ts .producer) ⟨⟨b, p.held, h.account.lending⟩, b,
      h.produced ++ [(produceOp, produced)], h.consumed⟩ := by
  have hsound := Account.sound_step .release (.produce produceOp) hl.sound
  rw [hstep] at hsound
  refine ⟨hring, hm.1, hsound, rfl, rfl, ?_, ?_, ?_, hl.consumed, ?_, hl.returned⟩
  · rw [hland.thread]
    exact .past ⟨ht, rfl, rfl⟩
  · apply Thread.stands_other hl.consumer hm
    · exact fun w hw => ⟨Consumer.tracks_other hw.1 hm, hw.2⟩
    · intro w r c hg
      have hfreed : b.freed = h.account.ledger.freed := hm.2.1.trans hl.freed.symm
      simpa only [ConsumerGoal, hfreed] using hg
  · rw [hland.thread, ← hl.produced]
    rfl
  · rw [hland.thread, ← hl.produced]
    exact List.prefix_append _ _

theorem passage_produced (hl : Linear m h) (hm : Ledger.Moves .producer h.ledger b)
    (hland : Thread.Lands .producer m.producer (m.turn ts .producer).producer h.ledger b
      ⟨p, m.producer.current.record ++ [(produceOp, produced)]⟩)
    (hstep : h.account.step .release (.produce produceOp) =
      ⟨⟨b, p.held, h.account.lending⟩, es, .produced produced⟩)
    (hdecided : Producer.Decided produceOp m.producer.kind? (p, produced)) :
    Passage h ⟨⟨b, p.held, h.account.lending⟩, b, h.produced ++ [(produceOp, produced)],
        h.consumed⟩
      (m.passed .producer .producer) (m.passed .producer .consumer)
      (point? ts .producer m).toList := by
  have hpoint : point? ts .producer m = some (.produce produceOp produced m.producer.kind?) := by
    rw [point?, hland.landed]
    simp
  have hother : m.passed .producer .consumer = [] := passed_other .producer
  have hown : m.kind? .producer = m.producer.kind? := rfl
  have hcount := hland.counted
  rw [passed_self hl.ring .producer, hown, hother, hpoint]
  constructor
  · by_cases hkind : m.producer.kind? = some (.storeIndex .producer)
    · rw [if_pos hkind] at hcount ⊢
      rw [hcount.2]
      rfl
    · rw [if_neg hkind] at hcount ⊢
      rw [hcount.1, List.append_nil]
  · obtain ⟨rest, hrest⟩ := hm.2.2
    rw [List.append_nil, hm.2.1, ← hrest, List.take_append_of_le_length hl.valid.freed_le]
  · exact @queue_point g _ _ (.produce produceOp produced m.producer.kind?) _ hl.sound hstep
  · rfl
  · exact (List.append_nil _).symm
  · intro point hmem
    obtain rfl := List.mem_singleton.mp hmem
    exact hdecided

/-! ### Of the consumer -/

variable {c : Consumer} {consumeOp : Consumer.Op} {consumed : Consumer.Answer}

theorem consumer_quiet (hl : Linear m h) (hm : Ledger.Moves .consumer h.ledger b)
    (hring : (m.turn ts .consumer).ring = b.ring)
    (hquiet : Thread.Quiet .consumer m.consumer (m.turn ts .consumer).consumer h.ledger b)
    (hstands : (m.turn ts .consumer).consumer.Stands .consumer (ConsumerSettled h.account)
      (ConsumerGoal h.account) ConsumerEnds b) :
    Linear (m.turn ts .consumer) h ∧
      Passage h h (m.passed .consumer .producer) (m.passed .consumer .consumer)
        (point? ts .consumer m).toList := by
  obtain rfl : b = h.ledger := Ledger.ext hm.2.1 hm.2.2.1 hquiet.freed
  constructor
  · exact ⟨hring, hl.valid, hl.sound, hl.items, hl.freed, hl.producer, hstands, hl.produced,
      (congrArg Worker.record hquiet.current).trans hl.consumed, hl.completed,
      completed_of_state hquiet.state hl.consumed hl.returned⟩
  · have hpoint : point? ts .consumer m = none := by
      rw [point?, hquiet.landed]
      rfl
    have hkind : m.kind? .consumer ≠ some (.storeIndex .consumer) := hquiet.kind
    have hother : m.passed .consumer .producer = [] := passed_other .consumer
    rw [passed_self hl.ring .consumer, if_neg hkind, hother, hpoint]
    exact passage_silent rfl rfl

theorem linear_consumed (hl : Linear m h) (hm : Ledger.Moves .consumer h.ledger b)
    (hring : (m.turn ts .consumer).ring = b.ring)
    (hland : Thread.Lands .consumer m.consumer (m.turn ts .consumer).consumer h.ledger b
      ⟨c, m.consumer.current.record ++ [(consumeOp, consumed)]⟩)
    (ht : c.Tracks b)
    (hstep : h.account.step .release (.consume consumeOp) =
      ⟨⟨{ h.account.ledger with freed := b.freed }, h.account.drafting, c.held⟩, es,
        .consumed consumed⟩) :
    Linear (m.turn ts .consumer)
      ⟨⟨{ h.account.ledger with freed := b.freed }, h.account.drafting, c.held⟩, b,
        h.produced, h.consumed ++ [(consumeOp, consumed)]⟩ := by
  have hsound := Account.sound_step .release (.consume consumeOp) hl.sound
  rw [hstep] at hsound
  refine ⟨hring, hm.1, hsound, hl.items.trans hm.2.2.1.symm, rfl, ?_, ?_, hl.produced, ?_,
    hl.completed, ?_⟩
  · apply Thread.stands_other hl.producer hm
    · rintro w ⟨htw, hd, hledger⟩
      refine ⟨Producer.tracks_other htw hm, hd, ?_⟩
      rw [hledger]
      exact Ledger.eq_of_consumer hm
    · exact fun _ _ _ hg => hg
  · rw [hland.thread]
    exact .past ⟨ht, rfl⟩
  · rw [hland.thread, ← hl.consumed]
    rfl
  · rw [hland.thread, ← hl.consumed]
    exact List.prefix_append _ _

theorem passage_consumed (hl : Linear m h) (hm : Ledger.Moves .consumer h.ledger b)
    (hland : Thread.Lands .consumer m.consumer (m.turn ts .consumer).consumer h.ledger b
      ⟨c, m.consumer.current.record ++ [(consumeOp, consumed)]⟩)
    (hstep : h.account.step .release (.consume consumeOp) =
      ⟨⟨{ h.account.ledger with freed := b.freed }, h.account.drafting, c.held⟩, es,
        .consumed consumed⟩)
    (hdecided : Consumer.Decided consumeOp m.consumer.kind? (c, consumed)) :
    Passage h
      ⟨⟨{ h.account.ledger with freed := b.freed }, h.account.drafting, c.held⟩, b,
        h.produced, h.consumed ++ [(consumeOp, consumed)]⟩
      (m.passed .consumer .producer) (m.passed .consumer .consumer)
      (point? ts .consumer m).toList := by
  have hpoint : point? ts .consumer m = some (.consume consumeOp consumed m.consumer.kind?) := by
    rw [point?, hland.landed]
    simp
  have hother : m.passed .consumer .producer = [] := passed_other .consumer
  have hown : m.kind? .consumer = m.consumer.kind? := rfl
  have hitems : b.items = h.ledger.items := hm.2.2.1
  have hcount := hland.counted
  rw [passed_self hl.ring .consumer, hown, hother, hpoint]
  constructor
  · rw [hitems, List.append_nil]
  · rw [hitems]
    by_cases hkind : m.consumer.kind? = some (.storeIndex .consumer)
    · rw [if_pos hkind] at hcount ⊢
      have hkept := hl.valid.kept _ (Nat.le_refl _) hcount.1
      rw [hcount.2]
      show h.ledger.items.take (h.ledger.freed + 1) = _
      rw [List.take_add_one, hkept]
      rfl
    · rw [if_neg hkind] at hcount ⊢
      rw [hcount.2, List.append_nil]
  · exact @queue_point g _ _ (.consume consumeOp consumed m.consumer.kind?) _ hl.sound hstep
  · exact (List.append_nil _).symm
  · rfl
  · intro point hmem
    obtain rfl := List.mem_singleton.mp hmem
    exact hdecided

end

theorem producer_turn (hl : Linear m h) :
    ∃ h', Linear (m.turn (threads g produce consume) .producer) h' ∧
      Passage h h' (m.passed .producer .producer) (m.passed .producer .consumer)
        (point? (threads g produce consume) .producer m).toList := by
  obtain ⟨b, hm, hring, hcase⟩ :=
    Thread.stands_turn hl.producer hl.valid (@producer_next g produce _ _ hl.valid)
  rw [← hl.ring] at hring hcase
  rcases hcase with ⟨hquiet, hstands⟩ | ⟨w, hland, ⟨op, p, answer, es, hw, ht, hdeed⟩, hends⟩
  · exact ⟨_, producer_quiet hl hm hring hquiet hstands⟩
  · cases hw
    have hback : ({ h.account.ledger with freed := b.freed } : Ledger g) = h.account.ledger := by
      rw [hm.2.1, ← hl.freed]
    have hstep : h.account.step .release (.produce op) =
        ⟨⟨b, p.held, h.account.lending⟩, es, .produced answer⟩ := by
      rw [hback] at hdeed
      simp only [Account.step, hdeed, Account.produced]
    exact ⟨_, linear_produced hl hm hring hland ht hstep,
      passage_produced hl hm hland hstep (hends op p answer rfl)⟩

theorem consumer_turn (hl : Linear m h) :
    ∃ h', Linear (m.turn (threads g produce consume) .consumer) h' ∧
      Passage h h' (m.passed .consumer .producer) (m.passed .consumer .consumer)
        (point? (threads g produce consume) .consumer m).toList := by
  obtain ⟨b, hm, hring, hcase⟩ :=
    Thread.stands_turn hl.consumer hl.valid (@consumer_next g consume _ _ hl.valid hl.freed)
  rw [← hl.ring] at hring hcase
  rcases hcase with ⟨hquiet, hstands⟩ | ⟨w, hland, ⟨op, c, answer, es, hw, ht, hdeed⟩, hends⟩
  · exact ⟨_, consumer_quiet hl hm hring hquiet hstands⟩
  · cases hw
    -- The account has the items of the ledger, but not the bytes of a slot being filled.
    have hitems : h.account.ledger.items =
        ({ b with freed := h.account.ledger.freed } : Ledger g).items :=
      hl.items.trans hm.2.2.1.symm
    have hstep : h.account.step .release (.consume op) =
        ⟨⟨{ h.account.ledger with freed := b.freed }, h.account.drafting, c.held⟩, es,
          .consumed answer⟩ := by
      have hrecord := consume_record h.account.lending op hitems rfl
      rw [hdeed] at hrecord
      simp only [Account.step, hrecord, Account.consumed]
    exact ⟨_, linear_consumed hl hm hring hland ht hstep,
      passage_consumed hl hm hland hstep (hends op c answer rfl)⟩

/-! ## Runs -/

theorem linear_split {b : Ledger g} (hv : b.Valid) :
    Linear (start b.ring) ⟨⟨b, false, false⟩, b, [], []⟩ := by
  have ht := Session.split_tracks hv
  exact ⟨rfl, hv, ⟨hv, nofun, nofun⟩, rfl, rfl, .idle ⟨ht.producer, rfl, rfl⟩,
    .idle ⟨ht.consumer, rfl⟩, rfl, rfl, List.prefix_refl _, List.prefix_refl _⟩

theorem linear_start (r : Ring g) (hr : r = r.ledger.ring) :
    Linear (start r) ⟨⟨r.ledger, false, false⟩, r.ledger, [], []⟩ := by
  have h := linear_split r.valid_ledger
  rwa [← hr] at h

theorem linear_run (schedule : List Side) (hl : Linear m h) :
    ∃ h', Linear (run (threads g produce consume) schedule m) h' ∧
      Passage h h' (passedBy (threads g produce consume) .producer schedule m)
        (passedBy (threads g produce consume) .consumer schedule m)
        (points (threads g produce consume) schedule m) := by
  induction schedule generalizing m h with
  | nil => exact ⟨h, hl, passage_silent rfl rfl⟩
  | cons turn schedule ih =>
    have hturn : ∃ h', Linear (m.turn (threads g produce consume) turn) h' ∧
        Passage h h' (m.passed turn .producer) (m.passed turn .consumer)
          (point? (threads g produce consume) turn m).toList := by
      cases turn with
      | producer => exact producer_turn hl
      | consumer => exact consumer_turn hl
    obtain ⟨h', hl', hp⟩ := hturn
    obtain ⟨h'', hl'', hp'⟩ := ih hl'
    exact ⟨h'', hl'', passage_trans hp hp'⟩

structure Linearized (storage : Storage) (m : Interleaving g ProducerWorker ConsumerWorker)
    (published removed : List (List UInt8)) (points : List Point) : Prop where
  fifo : removed <+: published
  window : published.length ≤ removed.length + (g.slotCount.toNat - 1)
  /-- A byte that the consumer is about to load is one of the next item to be
  removed, as it was published. -/
  reads : ∀ address k, m.consumer.pending = some (.loadByte address k) →
    ∃ item j, published[removed.length]? = some item ∧
      address = (g.start m.ring.readIndex).toNat + j ∧ item[j]? = some (m.ring.byte address)
  legal : ∃ queue, (SlotQueue.fresh g storage).run g .release (points.map Point.op) =
    (queue, points.map Point.answer) ∧ queue.items = published.drop removed.length
  decided : ∀ point ∈ points, point.Decided
  produced : points.filterMap Point.produced? = m.producer.current.record
  consumed : points.filterMap Point.consumed? = m.consumer.current.record
  completed : m.producer.state.record <+: m.producer.current.record
  returned : m.consumer.state.record <+: m.consumer.current.record

/-- Whatever the workers do and in whatever order they take turns. -/
theorem run_linearized {line : Padding.Line} {storage : Storage} {itemSize : UInt64} {r : Ring g}
    {e : Event} (h : Ring.construct line storage itemSize = (.ok ⟨g, r⟩, e))
    (produce : List (Producer.Op × Producer.Answer) → Option Producer.Op)
    (consume : List (Consumer.Op × Consumer.Answer) → Option Consumer.Op)
    (schedule : List Side) :
    Linearized storage (run (threads g produce consume) schedule (start r))
      (passedBy (threads g produce consume) .producer schedule (start r))
      (passedBy (threads g produce consume) .consumer schedule (start r))
      (points (threads g produce consume) schedule (start r)) := by
  obtain ⟨hstorage, hr⟩ := Ring.construct_ok h
  obtain ⟨h', hl, hp⟩ := linear_run schedule (linear_start r hr)
  have hitems : h'.ledger.items =
      passedBy (threads g produce consume) .producer schedule (start r) := hp.published
  have htake : h'.ledger.items.take h'.ledger.freed =
      passedBy (threads g produce consume) .consumer schedule (start r) := hp.removed
  have hle : h'.ledger.freed ≤ h'.ledger.items.length := hl.valid.freed_le
  have hlength : (h'.ledger.items.take h'.ledger.freed).length = h'.ledger.freed := by
    rw [List.length_take, Nat.min_eq_left hle]
  rw [← hitems, ← htake]
  constructor
  · exact List.take_prefix _ _
  · have hlt : h'.ledger.items.length < h'.ledger.freed + g.slotCount.toNat := hl.valid.published_lt
    rw [hlength]
    omega
  · -- The slot that the consumer reads holds the item on record until it is freed.
    intro address k hpending
    obtain ⟨hready, hlow, hhigh⟩ := Thread.reaches_stands hl.consumer hl.valid hpending
    simp only [Ledger.counter] at hlow hhigh
    have hstart : (g.start h'.ledger.ring.readIndex).toNat = g.base h'.ledger.freed :=
      g.start_place _
    refine ⟨h'.ledger.slot h'.ledger.freed, address - g.base h'.ledger.freed, ?_, ?_, ?_⟩
    · rw [hlength]
      exact hl.valid.kept _ (Nat.le_refl _) hready
    · rw [hl.ring, hstart]
      omega
    · rw [hl.ring, Ledger.slot, Storage.getElem?_slice _ _ (by omega)]
      congr 2
      omega
  · refine ⟨h'.account.queue, ?_, ?_⟩
    · rw [← hstorage, Ring.fresh_queue]
      exact hp.legal
    · rw [hlength, ← hl.items, ← hl.freed]
      rfl
  · exact hp.decided
  · exact hp.produced.symm.trans hl.produced.symm
  · exact hp.consumed.symm.trans hl.consumed.symm
  · rw [hl.produced]
    exact hl.completed
  · rw [hl.consumed]
    exact hl.returned

/-- A pop falls between the drafting and the dropping of the next item. -/
theorem run_linearized_two_items :
    ∃ (g : Geometry) (r : Ring g) (e : Event),
      Ring.construct .line64 ⟨#[1, 2, 3, 4, 5, 6, 7], by decide⟩ 2 = (.ok ⟨g, r⟩, e) ∧
      let produce := fun record => [.push [9], .draft, .finish .drop][record.length]?
      let consume := fun record => [.pop [0, 0]][record.length]?
      let schedule := List.replicate 9 Side.producer ++
        (List.replicate 12 [Side.consumer, .producer]).flatten
      let published := passedBy (threads g produce consume) .producer schedule (start r)
      let removed := passedBy (threads g produce consume) .consumer schedule (start r)
      published = [[9, 2], [3, 4]] ∧ removed = [[9, 2]] ∧
        Linearized ⟨#[1, 2, 3, 4, 5, 6, 7], by decide⟩
          (run (threads g produce consume) schedule (start r)) published removed
          (points (threads g produce consume) schedule (start r)) := by
  refine ⟨_, _, _, rfl, ?_⟩
  dsimp only
  refine ⟨by decide +kernel, by decide +kernel, ?_⟩
  exact @run_linearized _ .line64 ⟨#[1, 2, 3, 4, 5, 6, 7], by decide⟩ 2 _ _ rfl _ _ _

end Workers

end SlotRing
