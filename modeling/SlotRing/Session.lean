import SlotRing.Producer
import SlotRing.Consumer

/-!
# Sessions

A ring split into its two halves, with the operations of both performed one
after another on a single thread. Splitting seeds each half's copy of the
other's index with the current one. Splitting again first ends what is still
held, the draft before the loan, each as if it were dropped; the items
published so far are seen by the new halves.
-/

set_option autoImplicit false

namespace SlotRing

structure Session (g : Geometry) where
  ring : Ring g
  producer : Producer
  consumer : Consumer

namespace Session

variable {g : Geometry}

def split (ring : Ring g) : Session g where
  ring
  producer := { cachedRead := ring.readIndex, draft := none }
  consumer := { cachedWrite := ring.writeIndex, loan := none }

inductive Op where
  | produce (op : Producer.Op)
  | consume (op : Consumer.Op)
  | resplit
  deriving DecidableEq, Repr

inductive Answer where
  | produced (answer : Producer.Answer)
  | consumed (answer : Consumer.Answer)
  | resplit
  | faulted (fault : Fault)
  deriving DecidableEq, Repr

structure Effect (g : Geometry) where
  session : Session g
  events : List Event
  answer : Answer

def closing (producer : Producer) (consumer : Consumer) (g : Geometry) : Access Unit := do
  let _ ← producer.finish .drop
  let _ ← consumer.finish g .drop
  pure ()

def close (build : Build) : Session g → Ring g × List Event
  | ⟨ring, producer, consumer⟩ =>
    match (closing producer consumer g).run build ring with
    | ⟨ring, events, _⟩ => (ring, events)

/-- One operation. A fault leaves the halves as they were. -/
def step (build : Build) : Session g → Op → Effect g
  | ⟨ring, producer, consumer⟩, .produce op =>
    match (producer.perform g op).run build ring with
    | ⟨ring, events, .ok (producer, answer)⟩ =>
      ⟨⟨ring, producer, consumer⟩, events, .produced answer⟩
    | ⟨ring, events, .error fault⟩ => ⟨⟨ring, producer, consumer⟩, events, .faulted fault⟩
  | ⟨ring, producer, consumer⟩, .consume op =>
    match (consumer.perform g op).run build ring with
    | ⟨ring, events, .ok (consumer, answer)⟩ =>
      ⟨⟨ring, producer, consumer⟩, events, .consumed answer⟩
    | ⟨ring, events, .error fault⟩ => ⟨⟨ring, producer, consumer⟩, events, .faulted fault⟩
  | s, .resplit =>
    match s.close build with
    | (ring, events) => ⟨split ring, events, .resplit⟩

def run (build : Build) : List Op → Session g → Session g × List (Answer × List Event)
  | [], s => (s, [])
  | op :: ops, s =>
    match s.step build op with
    | ⟨s, events, answer⟩ =>
      match run build ops s with
      | (s, rest) => (s, (answer, events) :: rest)

theorem run_append (build : Build) (ops rest : List Op) (s : Session g) :
    run build (ops ++ rest) s =
      ((run build rest (run build ops s).1).1,
        (run build ops s).2 ++ (run build rest (run build ops s).1).2) := by
  induction ops generalizing s with
  | nil => rfl
  | cons op ops ih => simp only [List.cons_append, run, ih]

end Session

end SlotRing
