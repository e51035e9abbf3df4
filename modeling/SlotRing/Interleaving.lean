import SlotRing.Access

/-!
# Interleaved threads

Two threads share a ring. Each has a state of its own from which its next
operation follows, and takes turns of one memory access at a time. A schedule
is the list of the sides whose turn it is; nothing is assumed about it.

`alternate` lets the sides perform whole operations by turns until neither
has any left. It is one of the schedules, by `exists_run_eq_alternate`.
-/

set_option autoImplicit false

namespace SlotRing

/-- A thread between two accesses: its state after the last finished
operation, and what is left of the operation under way. -/
structure Thread (σ : Type) where
  state : σ
  pending : Option (Access σ)

namespace Thread

variable {σ : Type} {g : Geometry}

/-- One turn: the next operation is taken up, an access of the one under way
is made, or its outcome becomes the state. -/
def turn (next : σ → Option (Access σ)) : Thread σ → Ring g → Thread σ × Ring g
  | ⟨s, none⟩, r => (⟨s, next s⟩, r)
  | ⟨_, some (.done s)⟩, r => (⟨s, none⟩, r)
  | ⟨s, some p⟩, r =>
    match p.step r with
    | (p, r) => (⟨s, some p⟩, r)

def isFinished (next : σ → Option (Access σ)) (t : Thread σ) : Bool :=
  t.pending.isNone && (next t.state).isNone

def operate (next : σ → Option (Access σ)) : Thread σ → Ring g → Thread σ × Ring g
  | ⟨_, some p⟩, r =>
    match p.complete r with
    | (s, r) => (⟨s, none⟩, r)
  | ⟨s, none⟩, r =>
    match next s with
    | none => (⟨s, none⟩, r)
    | some p =>
      match p.complete r with
      | (s, r) => (⟨s, none⟩, r)

end Thread

structure Threads (σ τ : Type) where
  producer : σ → Option (Access σ)
  consumer : τ → Option (Access τ)

structure Interleaving (g : Geometry) (σ τ : Type) where
  ring : Ring g
  producer : Thread σ
  consumer : Thread τ

namespace Interleaving

variable {σ τ : Type} {g : Geometry}

def start (ring : Ring g) (producer : σ) (consumer : τ) : Interleaving g σ τ :=
  ⟨ring, ⟨producer, none⟩, ⟨consumer, none⟩⟩

def turn (threads : Threads σ τ) : Side → Interleaving g σ τ → Interleaving g σ τ
  | .producer, ⟨ring, producer, consumer⟩ =>
    match producer.turn threads.producer ring with
    | (producer, ring) => ⟨ring, producer, consumer⟩
  | .consumer, ⟨ring, producer, consumer⟩ =>
    match consumer.turn threads.consumer ring with
    | (consumer, ring) => ⟨ring, producer, consumer⟩

def run (threads : Threads σ τ) : List Side → Interleaving g σ τ → Interleaving g σ τ
  | [], m => m
  | side :: schedule, m => run threads schedule (turn threads side m)

def isFinished (threads : Threads σ τ) (m : Interleaving g σ τ) : Bool :=
  m.producer.isFinished threads.producer && m.consumer.isFinished threads.consumer

def operate (threads : Threads σ τ) : Side → Interleaving g σ τ → Interleaving g σ τ
  | .producer, ⟨ring, producer, consumer⟩ =>
    match producer.operate threads.producer ring with
    | (producer, ring) => ⟨ring, producer, consumer⟩
  | .consumer, ⟨ring, producer, consumer⟩ =>
    match consumer.operate threads.consumer ring with
    | (consumer, ring) => ⟨ring, producer, consumer⟩

def alternate (threads : Threads σ τ) : Nat → Interleaving g σ τ → Interleaving g σ τ
  | 0, m => m
  | rounds + 1, m =>
    if m.isFinished threads then m
    else alternate threads rounds (operate threads .consumer (operate threads .producer m))

theorem run_append (threads : Threads σ τ) (schedule rest : List Side) (m : Interleaving g σ τ) :
    run threads (schedule ++ rest) m = run threads rest (run threads schedule m) := by
  induction schedule generalizing m with
  | nil => rfl
  | cons side schedule ih => exact ih _

theorem exists_run_producer (threads : Threads σ τ) (p : Access σ) (ring : Ring g) (s : σ)
    (consumer : Thread τ) :
    ∃ schedule, run threads schedule ⟨ring, ⟨s, some p⟩, consumer⟩ =
      ⟨(p.complete ring).2, ⟨(p.complete ring).1, none⟩, consumer⟩ := by
  induction p generalizing ring with
  | done a => exact ⟨[.producer], rfl⟩
  | loadIndex _ _ ih | storeIndex _ _ _ ih | loadByte _ _ ih | storeByte _ _ _ ih
  | log _ _ ih | require _ _ _ ih =>
    obtain ⟨schedule, h⟩ := ih _ _
    exact ⟨.producer :: schedule, h⟩

theorem exists_run_consumer (threads : Threads σ τ) (p : Access τ) (ring : Ring g) (s : τ)
    (producer : Thread σ) :
    ∃ schedule, run threads schedule ⟨ring, producer, ⟨s, some p⟩⟩ =
      ⟨(p.complete ring).2, producer, ⟨(p.complete ring).1, none⟩⟩ := by
  induction p generalizing ring with
  | done a => exact ⟨[.consumer], rfl⟩
  | loadIndex _ _ ih | storeIndex _ _ _ ih | loadByte _ _ ih | storeByte _ _ _ ih
  | log _ _ ih | require _ _ _ ih =>
    obtain ⟨schedule, h⟩ := ih _ _
    exact ⟨.consumer :: schedule, h⟩

theorem exists_run_eq_operate (threads : Threads σ τ) (side : Side) (m : Interleaving g σ τ) :
    ∃ schedule, run threads schedule m = operate threads side m := by
  obtain ⟨ring, ⟨s, p⟩, ⟨t, q⟩⟩ := m
  cases side with
  | producer =>
    cases p with
    | some p => exact exists_run_producer threads p ring s _
    | none =>
      cases h : threads.producer s with
      | none => exact ⟨[], by simp [run, operate, Thread.operate, h]⟩
      | some p =>
        obtain ⟨schedule, hs⟩ := exists_run_producer threads p ring s ⟨t, q⟩
        exact ⟨.producer :: schedule,
          by simpa [run, turn, Thread.turn, operate, Thread.operate, h] using hs⟩
  | consumer =>
    cases q with
    | some q => exact exists_run_consumer threads q ring t _
    | none =>
      cases h : threads.consumer t with
      | none => exact ⟨[], by simp [run, operate, Thread.operate, h]⟩
      | some q =>
        obtain ⟨schedule, hs⟩ := exists_run_consumer threads q ring t ⟨s, p⟩
        exact ⟨.consumer :: schedule,
          by simpa [run, turn, Thread.turn, operate, Thread.operate, h] using hs⟩

theorem exists_run_eq_alternate (threads : Threads σ τ) (rounds : Nat) (m : Interleaving g σ τ) :
    ∃ schedule, run threads schedule m = alternate threads rounds m := by
  induction rounds generalizing m with
  | zero => exact ⟨[], rfl⟩
  | succ rounds ih =>
    by_cases h : m.isFinished threads
    · exact ⟨[], by simp [run, alternate, h]⟩
    · obtain ⟨a, ha⟩ := exists_run_eq_operate threads .producer m
      obtain ⟨b, hb⟩ := exists_run_eq_operate threads .consumer (operate threads .producer m)
      obtain ⟨c, hc⟩ := ih (operate threads .consumer (operate threads .producer m))
      exact ⟨a ++ b ++ c, by simp [run_append, ha, hb, hc, alternate, h]⟩

end Interleaving

end SlotRing
