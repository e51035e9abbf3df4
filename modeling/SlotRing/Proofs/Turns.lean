import SlotRing.Proofs.Decisive
import SlotRing.Interleaving

/-!
# Turns of a thread

What one turn of a thread comes to if its operations keep the discipline of
its side. An operation lands in the turn that leaves nothing of it to do,
which is the one that makes its last access; until then it has no effect that
the other side could tell, and from then on it only waits to be taken down.
-/

set_option autoImplicit false

namespace SlotRing

open Access

def Access.address? {α : Type} : Access α → Option Nat
  | .loadByte a _ => some a
  | .storeByte a _ _ => some a
  | _ => none

namespace Thread

variable {σ : Type} {g : Geometry}

def kind? (t : Thread σ) : Option Kind := t.pending.bind Access.kind?

def address? (t : Thread σ) : Option Nat := t.pending.bind Access.address?

def outcome? : Thread σ → Option σ
  | ⟨_, some (.done s)⟩ => some s
  | _ => none

/-- The state after the last operation that landed. -/
def current (t : Thread σ) : σ := t.outcome?.getD t.state

def landed (before after : Thread σ) : Option σ :=
  if before.outcome?.isSome then none else after.outcome?

/-- Where a thread stands: between two operations, in the midst of one that
will reach its goal, or past its last access. -/
inductive Stands (side : Side) (settled : σ → Ledger g → Prop)
    (goal : σ → Except Fault σ → Ledger g → Prop) (ends : σ → Option Kind → σ → Prop)
    (b : Ledger g) : Thread σ → Prop
  | idle {s : σ} (h : settled s b) : Stands side settled goal ends b ⟨s, none⟩
  | under {s : σ} {p : Access σ} (hp : p.kind? ≠ none)
      (h : Safe .release side true p (fun _ => goal s) b) (he : p.EndsBy (ends s) none) :
      Stands side settled goal ends b ⟨s, some p⟩
  | past {s s' : σ} (h : settled s' b) : Stands side settled goal ends b ⟨s, some (.done s')⟩

variable {side : Side} {settled : σ → Ledger g → Prop}
variable {goal : σ → Except Fault σ → Ledger g → Prop} {ends : σ → Option Kind → σ → Prop}
variable {t : Thread σ} {b : Ledger g}

theorem eq_done_of_kind? {α : Type} {p : Access α} (h : p.kind? = none) : ∃ a, p = .done a := by
  cases p with
  | done a => exact ⟨a, rfl⟩
  | _ => exact absurd h (Option.some_ne_none _)

theorem outcome_of_kind? {s : σ} {p : Access σ} (h : p.kind? ≠ none) :
    outcome? ⟨s, some p⟩ = none := by
  cases p with
  | done a => exact absurd rfl h
  | _ => rfl

theorem current_of_kind? {s : σ} {p : Access σ} (h : p.kind? ≠ none) :
    current ⟨s, some p⟩ = s := by
  rw [current, outcome_of_kind? h]
  rfl

theorem turn_of_kind? {next : σ → Option (Access σ)} {s : σ} {p : Access σ} {r : Ring g}
    (h : p.kind? ≠ none) : turn next ⟨s, some p⟩ r = (⟨s, some (p.step r).1⟩, (p.step r).2) := by
  cases p with
  | done a => exact absurd rfl h
  | _ => rfl

/-- A turn after which the thread and the ledger are what they were to the
other side. -/
structure Quiet (side : Side) (t t' : Thread σ) (b b' : Ledger g) : Prop where
  landed : t.landed t' = none
  kind : t.kind? ≠ some (.storeIndex side)
  items : b'.items = b.items
  freed : b'.freed = b.freed
  current : t'.current = t.current
  state : t'.state = t.state ∨ t'.state = t.current

/-- The turn in which an operation makes its last access. It counts an item
if that access stores the index. -/
structure Lands (side : Side) (t t' : Thread σ) (b b' : Ledger g) (s : σ) : Prop where
  landed : t.landed t' = some s
  thread : t' = ⟨t.current, some (.done s)⟩
  counted : if t.kind? = some (.storeIndex side) then b.Ready side ∧ b' = b.advance side
    else b'.items = b.items ∧ b'.freed = b.freed

theorem idle_turn {next : σ → Option (Access σ)} {s : σ} (hs : settled s b)
    (hnext : ∀ p, next s = some p →
      Safe .release side true p (fun _ => goal s) b ∧ p.EndsBy (ends s) none) :
    let t' : Thread σ := ⟨s, next s⟩
    Quiet side ⟨s, none⟩ t' b b ∧ Stands side settled goal ends b t' ∨
      ∃ s', Lands side ⟨s, none⟩ t' b b s' ∧ goal s (.ok s') b ∧ ends s none s' := by
  cases hp : next s with
  | none => exact .inl ⟨⟨rfl, (Option.some_ne_none _).symm, rfl, rfl, rfl, .inl rfl⟩, .idle hs⟩
  | some p =>
    obtain ⟨hsafe, hends⟩ := hnext p hp
    by_cases hk : p.kind? = none
    · obtain ⟨s', rfl⟩ := eq_done_of_kind? hk
      exact .inr ⟨s', ⟨rfl, rfl, rfl, rfl⟩, hsafe, hends⟩
    · exact .inl ⟨⟨outcome_of_kind? hk, (Option.some_ne_none _).symm, rfl, rfl,
        current_of_kind? hk, .inl rfl⟩, .under hk hsafe hends⟩

theorem under_turn {s : σ} {p : Access σ} (hp : p.kind? ≠ none) (hv : b.Valid)
    (hsafe : Safe .release side true p (fun _ => goal s) b) (hends : p.EndsBy (ends s) none) :
    let t' : Thread σ := ⟨s, some (p.step b.ring).1⟩
    ∃ b', Ledger.Moves side b b' ∧ (p.step b.ring).2 = b'.ring ∧
      (Quiet side ⟨s, some p⟩ t' b b' ∧ Stands side settled goal ends b' t' ∨
        ∃ s', Lands side ⟨s, some p⟩ t' b b' s' ∧ goal s (.ok s') b' ∧ ends s p.kind? s') := by
  obtain ⟨b', hm, hring, hsafe', hcount⟩ := safe_step hsafe hv
  have hends' : (p.step b.ring).1.EndsBy (ends s) p.kind? := endsBy_step hends hp
  have hbefore : outcome? ⟨s, some p⟩ = none := outcome_of_kind? hp
  have hown : kind? ⟨s, some p⟩ = p.kind? := rfl
  refine ⟨b', hm, hring, ?_⟩
  by_cases hk : (p.step b.ring).1.kind? = none
  · obtain ⟨s', hs'⟩ := eq_done_of_kind? hk
    rw [hs'] at hsafe' hends' ⊢
    refine .inr ⟨s', ⟨?_, ?_, ?_⟩, hsafe', hends'⟩
    · rw [landed, hbefore]
      rfl
    · rw [current_of_kind? hp]
    · rw [hown]
      by_cases hstore : p.kind? = some (.storeIndex side)
      · rw [if_pos hstore] at hcount ⊢
        exact ⟨hcount.1, hcount.2.1⟩
      · rwa [if_neg hstore] at hcount ⊢
  · -- The store of the index is always the last access.
    have hstore : p.kind? ≠ some (.storeIndex side) := by
      intro hstore
      rw [if_pos hstore] at hcount
      exact hk hcount.2.2
    rw [if_neg hstore] at hcount
    refine .inl ⟨⟨?_, hstore, hcount.1, hcount.2, ?_, .inl rfl⟩,
      .under hk hsafe' (endsBy_of_kind? hends' hk)⟩
    · rw [landed, hbefore]
      exact outcome_of_kind? hk
    · rw [current_of_kind? hp, current_of_kind? hk]

/-- A turn of a thread that stands well is quiet or lands its operation. -/
theorem stands_turn {next : σ → Option (Access σ)}
    (h : Stands side settled goal ends b t) (hv : b.Valid)
    (hnext : ∀ s p, next s = some p → settled s b →
      Safe .release side true p (fun _ => goal s) b ∧ p.EndsBy (ends s) none) :
    ∃ b', Ledger.Moves side b b' ∧ (t.turn next b.ring).2 = b'.ring ∧
      (Quiet side t (t.turn next b.ring).1 b b' ∧
          Stands side settled goal ends b' (t.turn next b.ring).1 ∨
        ∃ s, Lands side t (t.turn next b.ring).1 b b' s ∧ goal t.current (.ok s) b' ∧
          ends t.current t.kind? s) := by
  cases h with
  | @idle s hs =>
    exact ⟨b, Ledger.moves_refl _ hv, rfl, idle_turn hs fun p hp => hnext s p hp hs⟩
  | @under s p hp hsafe hends =>
    rw [turn_of_kind? hp, current_of_kind? hp]
    exact under_turn hp hv hsafe hends
  | @past s s' hs =>
    exact ⟨b, Ledger.moves_refl _ hv, rfl,
      .inl ⟨⟨rfl, (Option.some_ne_none _).symm, rfl, rfl, rfl, .inr rfl⟩, .idle hs⟩⟩

theorem reaches_address (h : Stands side settled goal ends b t) (hv : b.Valid) {address : Nat}
    (ha : t.address? = some address) : b.Reaches side address := by
  cases h with
  | idle h => cases ha
  | @under s p _ h _ =>
    cases p with
    | loadByte a k =>
      cases ha
      exact (h b (Ledger.moves_refl _ hv)).1
    | storeByte a v k =>
      cases ha
      exact (h.2 b (Ledger.moves_refl _ hv)).1
    | _ => cases ha
  | past h => cases ha

theorem ready_store (h : Stands side settled goal ends b t) (hv : b.Valid)
    (hk : t.kind? = some (.storeIndex side)) : b.Ready side := by
  cases h with
  | idle h => cases hk
  | @under s p _ h _ =>
    cases p with
    | storeIndex o i k =>
      obtain ⟨-, -, a, -, h⟩ := h
      exact (h b (Ledger.moves_refl _ hv)).1
    | _ => simp [kind?, Access.kind?] at hk
  | past h => cases hk

theorem reaches_stands (h : Stands side settled goal ends b t) (hv : b.Valid) {address : Nat}
    {k : UInt8 → Access σ} (hp : t.pending = some (.loadByte address k)) :
    b.Reaches side address :=
  reaches_address h hv (by simp [address?, Access.address?, hp])

theorem stands_other {settled' : σ → Ledger g → Prop}
    {goal' : σ → Except Fault σ → Ledger g → Prop} {b' : Ledger g}
    (h : Stands side settled goal ends b t) (hm : Ledger.Moves side.other b b')
    (hs : ∀ s, settled s b → settled' s b') (hg : ∀ s r c, goal s r c → goal' s r c) :
    Stands side settled' goal' ends b' t := by
  cases h with
  | idle h => exact .idle (hs _ h)
  | under hp h he =>
    refine .under hp ?_ he
    apply safe_mono (safe_other h hm ?_)
    · exact fun _ r c => hg _ r c
    · rintro a rfl
      exact absurd rfl hp
  | past h => exact .past (hs _ h)

/-- Between its operations the thread satisfies `I`, and each of them leads
back to it. -/
def Keeps (side : Side) (I : σ → Ledger g → Prop) (b : Ledger g) (t : Thread σ) : Prop :=
  t.Stands side I (fun _ r c => ∃ s, r = .ok s ∧ I s c) (fun _ _ _ => True) b

theorem keeps_finished {I : σ → Ledger g → Prop} {next : σ → Option (Access σ)}
    (h : t.Keeps side I b) (hf : t.isFinished next = true) : I t.state b ∧ next t.state = none := by
  simp only [isFinished, Bool.and_eq_true, Option.isNone_iff_eq_none] at hf
  cases h with
  | idle h => exact ⟨h, hf.2⟩
  | under _ _ _ => exact absurd hf.1 (Option.some_ne_none _)
  | past _ => exact absurd hf.1 (Option.some_ne_none _)

theorem keeps_turn {I : σ → Ledger g → Prop} {next : σ → Option (Access σ)}
    (h : t.Keeps side I b) (hv : b.Valid)
    (hnext : ∀ s p, next s = some p → I s b →
      Safe .release side true p (fun _ r c => ∃ s, r = .ok s ∧ I s c) b) :
    ∃ b', Ledger.Moves side b b' ∧ (t.turn next b.ring).2 = b'.ring ∧
      (t.turn next b.ring).1.Keeps side I b' := by
  obtain ⟨b', hm, hring, hcase⟩ := stands_turn h hv fun s p hp hs =>
    ⟨hnext s p hp hs, endsBy_of_forall fun _ _ => trivial⟩
  refine ⟨b', hm, hring, ?_⟩
  rcases hcase with ⟨-, hstands⟩ | ⟨s, hland, ⟨_, ⟨⟩, hs⟩, -⟩
  · exact hstands
  · rw [hland.thread]
    exact .past hs

def Steady (I : σ → Ledger g → Prop) : Prop :=
  ∀ s b b', b'.items = b.items → b'.freed = b.freed → I s b → I s b'

/-- What is kept between the operations is true of the current state all the time. -/
theorem current_turn {I : σ → Ledger g → Prop} {next : σ → Option (Access σ)} (hI : Steady I)
    (h : t.Keeps side I b) (hc : I t.current b) (hv : b.Valid)
    (hnext : ∀ s p, next s = some p → I s b →
      Safe .release side true p (fun _ r c => ∃ s, r = .ok s ∧ I s c) b) :
    ∃ b', Ledger.Moves side b b' ∧ (t.turn next b.ring).2 = b'.ring ∧
      (t.turn next b.ring).1.Keeps side I b' ∧ I (t.turn next b.ring).1.current b' := by
  obtain ⟨b', hm, hring, hcase⟩ := stands_turn h hv fun s p hp hs =>
    ⟨hnext s p hp hs, endsBy_of_forall fun _ _ => trivial⟩
  refine ⟨b', hm, hring, ?_⟩
  rcases hcase with ⟨hquiet, hstands⟩ | ⟨s, hland, ⟨_, ⟨⟩, hs⟩, -⟩
  · refine ⟨hstands, ?_⟩
    rw [hquiet.current]
    exact hI _ b b' hquiet.items hquiet.freed hc
  · rw [hland.thread]
    exact ⟨.past hs, hs⟩

end Thread

/-! ## Two threads -/

variable {σ τ : Type} {g : Geometry}

structure Threads.Disciplined (threads : Threads σ τ) (I : σ → Ledger g → Prop)
    (J : τ → Ledger g → Prop) : Prop where
  producer : ∀ s p b, b.Valid → threads.producer s = some p → I s b →
    Safe .release .producer true p (fun _ r c => ∃ s, r = .ok s ∧ I s c) b
  consumer : ∀ s p b, b.Valid → threads.consumer s = some p → J s b →
    Safe .release .consumer true p (fun _ r c => ∃ s, r = .ok s ∧ J s c) b
  producerStable : ∀ s b b', Ledger.Moves .consumer b b' → I s b → I s b'
  consumerStable : ∀ s b b', b.Valid → Ledger.Moves .producer b b' → J s b → J s b'

namespace Interleaving

structure Keeps (I : σ → Ledger g → Prop) (J : τ → Ledger g → Prop) (m : Interleaving g σ τ)
    (b : Ledger g) : Prop where
  ring : m.ring = b.ring
  valid : b.Valid
  producer : m.producer.Keeps .producer I b
  consumer : m.consumer.Keeps .consumer J b

variable {threads : Threads σ τ} {I : σ → Ledger g → Prop} {J : τ → Ledger g → Prop}

theorem keeps_turn (ht : threads.Disciplined I J) {m : Interleaving g σ τ} {b : Ledger g}
    (h : m.Keeps I J b) (side : Side) : ∃ b', (m.turn threads side).Keeps I J b' := by
  cases side with
  | producer =>
    obtain ⟨b', hm, hring, hkeeps⟩ :=
      Thread.keeps_turn h.producer h.valid fun s p => ht.producer s p b h.valid
    rw [← h.ring] at hring hkeeps
    refine ⟨b', hring, hm.1, hkeeps, Thread.stands_other h.consumer hm ?_ fun _ _ _ hg => hg⟩
    exact fun s => ht.consumerStable s b b' h.valid hm
  | consumer =>
    obtain ⟨b', hm, hring, hkeeps⟩ :=
      Thread.keeps_turn h.consumer h.valid fun s p => ht.consumer s p b h.valid
    rw [← h.ring] at hring hkeeps
    refine ⟨b', hring, hm.1, Thread.stands_other h.producer hm ?_ fun _ _ _ hg => hg, hkeeps⟩
    exact fun s => ht.producerStable s b b' hm

theorem keeps_run (ht : threads.Disciplined I J) (schedule : List Side) {m : Interleaving g σ τ}
    {b : Ledger g} (h : m.Keeps I J b) : ∃ b', (run threads schedule m).Keeps I J b' := by
  induction schedule generalizing m b with
  | nil => exact ⟨b, h⟩
  | cons side schedule ih =>
    obtain ⟨b', h'⟩ := keeps_turn ht h side
    exact ih h'

theorem keeps_operate (ht : threads.Disciplined I J) {m : Interleaving g σ τ} {b : Ledger g}
    (h : m.Keeps I J b) (side : Side) : ∃ b', (m.operate threads side).Keeps I J b' := by
  obtain ⟨schedule, hschedule⟩ := exists_run_eq_operate threads side m
  rw [← hschedule]
  exact keeps_run ht schedule h

structure Abides (I : σ → Ledger g → Prop) (J : τ → Ledger g → Prop) (m : Interleaving g σ τ)
    (b : Ledger g) : Prop extends m.Keeps I J b where
  producing : I m.producer.current b
  consuming : J m.consumer.current b

theorem abides_turn (ht : threads.Disciplined I J) (hI : Thread.Steady I) (hJ : Thread.Steady J)
    {m : Interleaving g σ τ} {b : Ledger g} (h : m.Abides I J b) (side : Side) :
    ∃ b', (m.turn threads side).Abides I J b' := by
  cases side with
  | producer =>
    obtain ⟨b', hm, hring, hkeeps, hcurrent⟩ := Thread.current_turn hI h.producer h.producing
      h.valid fun s p => ht.producer s p b h.valid
    rw [← h.ring] at hring hkeeps hcurrent
    refine ⟨b', ⟨hring, hm.1, hkeeps, Thread.stands_other h.consumer hm ?_ fun _ _ _ hg => hg⟩,
      hcurrent, ht.consumerStable _ b b' h.valid hm h.consuming⟩
    exact fun s => ht.consumerStable s b b' h.valid hm
  | consumer =>
    obtain ⟨b', hm, hring, hkeeps, hcurrent⟩ := Thread.current_turn hJ h.consumer h.consuming
      h.valid fun s p => ht.consumer s p b h.valid
    rw [← h.ring] at hring hkeeps hcurrent
    refine ⟨b', ⟨hring, hm.1, Thread.stands_other h.producer hm ?_ fun _ _ _ hg => hg, hkeeps⟩,
      ht.producerStable _ b b' hm h.producing, hcurrent⟩
    exact fun s => ht.producerStable s b b' hm

theorem abides_run (ht : threads.Disciplined I J) (hI : Thread.Steady I) (hJ : Thread.Steady J)
    (schedule : List Side) {m : Interleaving g σ τ} {b : Ledger g} (h : m.Abides I J b) :
    ∃ b', (run threads schedule m).Abides I J b' := by
  induction schedule generalizing m b with
  | nil => exact ⟨b, h⟩
  | cons side schedule ih =>
    obtain ⟨b', h'⟩ := abides_turn ht hI hJ h side
    exact ih h'

end Interleaving

end SlotRing
