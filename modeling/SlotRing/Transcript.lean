import SlotRing.Describe
import SlotRing.Observer

/-!
# Transcripts

Rings built one after another over the same storage, each driven by a list
of requests and reported step by step: the answer, what either half sees
afterwards, and the events since the step before. The bytes stay from one
ring to the next.
-/

set_option autoImplicit false

namespace SlotRing.Transcript

open Text

inductive Subject where
  | producer
  | consumer
  | draft
  | loan
  deriving DecidableEq, Repr

inductive Request where
  | act (op : Session.Op)
  | sizes
  | describe (subject : Subject) (pretty : Bool)

structure Snapshot where
  line : Padding.Line
  geometry : Geometry
  seen : Except Fault Observation
  text : String

inductive Reply where
  | answer (answer : Session.Answer)
  | resplit (snapshot : Snapshot)
  | sizes (itemSize capacity : UInt64)
  | text (text : String)

structure Entry where
  reply : Reply
  seenByProducer : Except Fault Observation
  seenByConsumer : Except Fault Observation
  events : List Event

structure Plan where
  itemSize : UInt64
  line : Padding.Line
  requests : List Request

inductive Report where
  | refused (reason : GeometryError) (events : List Event)
  | ran (start : Snapshot) (initial : List Event) (entries : List Entry) (stop : Snapshot)
    (final : List Event)

variable {g : Geometry}

def snapshot (build : Build) (line : Padding.Line) (r : Ring g) : Snapshot where
  line
  geometry := g
  seen := Observer.see build r
  text := (Describe.ring line r).compact

def describe (line : Padding.Line) (s : Session g) : Subject → Tree
  | .producer => Describe.producer line s
  | .consumer => Describe.consumer line s
  | .draft => Describe.draft line s
  | .loan => Describe.loan line s

def serve (build : Build) (line : Padding.Line) (s : Session g) :
    Request → Session g × Reply × List Event
  | .act op =>
    match s.step build op with
    | ⟨s, events, .resplit⟩ => (s, .resplit (snapshot build line s.ring), events)
    | ⟨s, events, answer⟩ => (s, .answer answer, events)
  | .sizes => (s, .sizes g.itemSize g.capacity, [])
  | .describe subject pretty =>
    let tree := describe line s subject
    (s, .text (if pretty then tree.pretty else tree.compact), [])

def follow (build : Build) (line : Padding.Line) :
    List Request → Session g → Session g × List Entry
  | [], s => (s, [])
  | request :: rest, s =>
    match serve build line s request with
    | (s, reply, events) =>
      let entry : Entry := ⟨reply, Observer.see build s.ring, Observer.see build s.ring, events⟩
      match follow build line rest s with
      | (s, entries) => (s, entry :: entries)

def runPlan (build : Build) (plan : Plan) (storage : Storage) : Storage × Report :=
  match Ring.construct plan.line storage plan.itemSize with
  | (.error reason, event) => (storage, .refused reason [event])
  | (.ok ⟨_, ring⟩, event) =>
    let start := snapshot build plan.line ring
    match follow build plan.line plan.requests (Session.split ring) with
    | (s, entries) =>
      match s.close build with
      | (ring, events) =>
        (ring.storage, .ran start [event] entries (snapshot build plan.line ring) events)

def runPlans (build : Build) : List Plan → Storage → Storage × List Report
  | [], storage => (storage, [])
  | plan :: plans, storage =>
    match runPlan build plan storage with
    | (storage, report) =>
      match runPlans build plans storage with
      | (storage, reports) => (storage, report :: reports)

end SlotRing.Transcript
