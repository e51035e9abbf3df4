import SlotRing.Proofs.Attending

/-!
# Acting on what was seen

What a half has seen stays true where it matters: the other side only adds to
what is there for it. `Pledged` counts the slots that a half is sure of against
the operations for one since; each of these gets its slot as long as there are
fewer, and each returns if the half keeps taking turns (`Thread.returns`).
-/

set_option autoImplicit false

namespace SlotRing

open Access

variable {g : Geometry}

/-! ## Calls return -/

namespace Thread

variable {σ : Type} {next : σ → Option (Access σ)} {t : Nat → Thread σ} {own : Nat → Prop}

theorem waits (hother : ∀ k, ¬ own k → t (k + 1) = t k) (d k : Nat) (h : own (k + d)) :
    ∃ j, k ≤ j ∧ own j ∧ t j = t k := by
  induction d generalizing k with
  | zero => exact ⟨k, Nat.le_refl k, h, rfl⟩
  | succ d ih =>
    by_cases hk : own k
    · exact ⟨k, Nat.le_refl k, hk, rfl⟩
    · obtain ⟨j, hj, hown, ht⟩ := ih (k + 1) (by rwa [Nat.add_right_comm, Nat.add_assoc])
      exact ⟨j, Nat.le_of_succ_le hj, hown, ht.trans (hother k hk)⟩

/-- A call under way returns if the thread takes turns again and again. -/
theorem returns (hturn : ∀ k, own k → ∃ r : Ring g, t (k + 1) = ((t k).turn next r).1)
    (hother : ∀ k, ¬ own k → t (k + 1) = t k) (hfair : ∀ k, ∃ j, k ≤ j ∧ own j) {s : σ}
    {p : Access σ} {k : Nat} (hk : t k = ⟨s, some p⟩) :
    ∃ j s', k ≤ j ∧ t j = ⟨s, some (.done s')⟩ ∧ t (j + 1) = ⟨s', none⟩ := by
  have hnext : ∀ k, ∃ j, k ≤ j ∧ t j = t k ∧ ∃ r : Ring g, t (j + 1) = ((t k).turn next r).1 := by
    intro k
    obtain ⟨n, hkn, hown⟩ := hfair k
    obtain ⟨d, rfl⟩ := Nat.exists_eq_add_of_le hkn
    obtain ⟨j, hj, hown, ht⟩ := waits hother d k hown
    obtain ⟨r, hr⟩ := hturn j hown
    exact ⟨j, hj, ht, r, by rw [hr, ht]⟩
  induction p generalizing k with
  | done s' =>
    obtain ⟨j, hj, ht, r, hr⟩ := hnext k
    rw [hk] at ht hr
    exact ⟨j, s', hj, ht, hr⟩
  | loadIndex _ _ ih | storeIndex _ _ _ ih | loadByte _ _ ih | storeByte _ _ _ ih
  | log _ _ ih | require _ _ _ ih =>
    obtain ⟨j, hj, -, r, hr⟩ := hnext k
    rw [hk] at hr
    obtain ⟨i, s', hi, hlast⟩ := ih _ hr
    exact ⟨i, s', Nat.le_trans (Nat.le_succ_of_le hj) hi, hlast⟩

end Thread

/-! ## What a half is sure of -/

def Task.wants {O : Type} (wants : O → Bool) : Task O → Bool
  | .act op => wants op
  | .ask _ => false

def tried {O A : Type} (wants : O → Bool) (busy : A → Bool) : Task O × Told A → Bool
  | (.act op, .answered answer) => wants op && !busy answer
  | _ => false

namespace Conduct

variable {side : Side} {H O A : Type} (D : Conduct g side H O A)

def tries : Task O × Told A → Bool := tried D.wants D.busy

/-- The first `n` operations for a slot after `base` got one, but for those
while one was held already. -/
def Honoured (n : Nat) (base record : List (Task O × Told A)) : Prop :=
  ∀ before op answer, base ++ before ++ [(.act op, .answered answer)] <+: record →
    D.wants op = true → before.countP D.tries < n →
      D.served op answer = true ∨ D.busy answer = true ∧ 0 < before.countP D.tries

/-- There were `n` slots ahead when the counter was at `first`, and no more of
them are used up or held than were asked for. -/
structure Pledged (n first : Nat) (base : List (Task O × Told A)) (w : Attendant H O A)
    (b : Ledger g) : Prop where
  tracks : D.Tracks w.half b
  forward : first ≤ b.counter side
  limit : first + n ≤ b.limit side
  honoured : D.Honoured n base w.record
  spent : ∃ rest, w.record = base ++ rest ∧
    b.counter side + (D.held w.half).toNat ≤ first + rest.countP D.tries

variable {D} {n first : Nat} {base record : List (Task O × Told A)}
variable {choose : List (Task O × Told A) → Option (Task O)} {w : Attendant H O A} {b b' : Ledger g}

theorem pledged_of (ht : D.Tracks w.half b') (hc : b'.counter side = b.counter side)
    (hl : b.limit side ≤ b'.limit side) (h : D.Pledged n first base w b) :
    D.Pledged n first base w b' where
  tracks := ht
  forward := hc ▸ h.forward
  limit := Nat.le_trans h.limit hl
  honoured := h.honoured
  spent := hc ▸ h.spent

theorem honoured_concat {rest : List (Task O × Told A)} {task : Task O} {told : Told A}
    (h : D.Honoured n base (base ++ rest))
    (hnew : ∀ op answer, task = .act op → told = .answered answer → D.wants op = true →
      rest.countP D.tries < n →
        D.served op answer = true ∨ D.busy answer = true ∧ 0 < rest.countP D.tries) :
    D.Honoured n base (base ++ rest ++ [(task, told)]) := by
  intro before op answer hp hw hn
  rcases List.prefix_concat_iff.mp hp with heq | hold
  · obtain ⟨hrest, hentry⟩ := List.append_inj' heq rfl
    obtain rfl := List.append_cancel_left hrest
    cases hentry
    exact hnew op answer rfl rfl hw hn
  · exact h before op answer hold hw hn

theorem honoured_first (h : D.Honoured n base record) (hn : 0 < n)
    {between : List (Task O × Told A)} {op : O} {answer : A}
    (hp : base ++ between ++ [(.act op, .answered answer)] <+: record)
    (hbetween : ∀ entry ∈ between, entry.1.wants D.wants = false) (hw : D.wants op = true) :
    D.served op answer = true := by
  have hnone : between.countP D.tries = 0 := by
    rw [List.countP_eq_zero]
    rintro ⟨task, told⟩ hmem
    have hwants := hbetween _ hmem
    cases task with
    | ask _ => exact Bool.false_ne_true
    | act op =>
      simp only [Task.wants] at hwants
      cases told <;> simp [tries, tried, hwants]
  rcases h between op answer hp hw (by rwa [hnone]) with hserved | ⟨-, hpos⟩
  · exact hserved
  · exact absurd hnone (Nat.ne_of_gt hpos)

theorem pledged_start (ht : D.Tracks w.half b) (hh : D.held w.half = false)
    (hl : b.counter side + n ≤ b.limit side) :
    D.Pledged n (b.counter side) w.record w b where
  tracks := ht
  forward := Nat.le_refl _
  limit := hl
  honoured before op answer hp := by
    have hlength := hp.length_le
    simp only [List.length_append, List.length_singleton] at hlength
    omega
  spent := ⟨[], (List.append_nil _).symm, by rw [hh]; exact Nat.le_refl _⟩

theorem pledged_next {p : Access (Attendant H O A)} (hp : D.next choose w = some p) (hv : b.Valid)
    (h : D.Pledged n first base w b) :
    Safe .release side true p (fun _ r c => ∃ w', r = .ok w' ∧ D.Pledged n first base w' c) b := by
  obtain ⟨task, -, rfl⟩ := Option.map_eq_some_iff.mp hp
  obtain ⟨rest, hrest, hspent⟩ := h.spent
  have hforward := h.forward
  have hlimit := h.limit
  have hhonoured : D.Honoured n base (base ++ rest) := hrest ▸ h.honoured
  apply safe_end (fun _ => ⟨_, rfl⟩)
  cases task with
  | ask question =>
    apply safe_end (fun _ => ⟨_, rfl⟩)
    apply safe_mono (question.safe_ask side)
    rintro es _ c ⟨hm, seen, rfl, -⟩ _ ⟨⟩ _ ⟨⟩
    refine ⟨_, rfl, D.stable hm h.tracks, ?_, Nat.le_trans hlimit (Ledger.limit_mono hm), ?_, ?_⟩
    · rw [Ledger.counter_other hm]
      exact hforward
    · rw [hrest]
      exact honoured_concat hhonoured nofun
    · refine ⟨rest ++ [(.ask question, .seen seen)], by rw [hrest, List.append_assoc], ?_⟩
      rw [Ledger.counter_other hm, List.countP_append]
      exact Nat.le_trans hspent (Nat.add_le_add_left (Nat.le_add_right _ _) _)
  | act op =>
    apply safe_end (fun _ => ⟨_, rfl⟩)
    apply safe_mono (D.safe op hv h.tracks)
    rintro es _ c ⟨half, answer, rfl, htracks, hdealt⟩ _ ⟨⟩ _ ⟨⟩
    refine ⟨_, rfl, htracks, Nat.le_trans hforward hdealt.forward,
      Nat.le_trans hlimit hdealt.limit, ?_, ?_⟩
    · rw [hrest]
      apply honoured_concat hhonoured
      rintro _ _ ⟨⟩ ⟨⟩ hw hn
      cases hh : D.held w.half with
      | false =>
        left
        apply hdealt.served hw hh
        rw [Ledger.ready_iff]
        omega
      | true =>
        right
        rw [hh, Bool.toNat_true] at hspent
        exact ⟨(hdealt.busy hw).trans hh, by omega⟩
    · refine ⟨rest ++ [(.act op, .answered answer)], by rw [hrest, List.append_assoc], ?_⟩
      have hcounter := hdealt.counter
      have htries : (D.wants op && !D.held w.half).toNat =
          List.countP D.tries [(.act op, .answered answer)] := by
        cases hw : D.wants op with
        | false => simp [tries, tried, hw]
        | true => cases hh : D.held w.half <;> simp [tries, tried, hw, hdealt.busy hw, hh]
      show c.counter side + (D.held half).toNat ≤ _
      rw [List.countP_append]
      omega

structure Invariant (D : Conduct g side H O A) (choose : List (Task O × Told A) → Option (Task O))
    (I : Attendant H O A → Ledger g → Prop) : Prop where
  next : ∀ w p b, b.Valid → D.next choose w = some p → I w b →
    Safe .release side true p (fun _ r c => ∃ w', r = .ok w' ∧ I w' c) b
  stable : ∀ w b b', Ledger.Moves side.other b b' → I w b → I w b'
  steady : Thread.Steady I

theorem invariant_pledged (choose : List (Task O × Told A) → Option (Task O)) :
    D.Invariant choose (D.Pledged n first base) where
  next _ _ _ hv hp h := pledged_next hp hv h
  stable _ _ _ hm h :=
    pledged_of (D.stable hm h.tracks) (Ledger.counter_other hm) (Ledger.limit_mono hm) h
  steady _ _ _ hi hf h :=
    pledged_of (D.steady hi hf h.tracks) (Ledger.counter_congr hi hf side)
      (Nat.le_of_eq (Ledger.limit_congr hi hf).symm) h

theorem invariant_tracks (choose : List (Task O × Told A) → Option (Task O)) :
    D.Invariant choose (fun w b => D.Tracks w.half b) where
  next _ _ _ hv hp h := by
    apply safe_mono (safe_next hp hv h)
    rintro es _ c ⟨half, task, told, rfl, htracks, -⟩
    exact ⟨_, rfl, htracks⟩
  stable _ _ _ hm h := D.stable hm h
  steady _ _ _ hi hf h := D.steady hi hf h

variable {instant : List (Task O × Told A) → Nat → Prop} {t : Thread (Attendant H O A)}

theorem keeps_attends (h : D.Attends instant b t) :
    t.Keeps side (fun w b => D.Tracks w.half b) b := by
  cases h with
  | idle h => exact .idle h
  | under hp h _ _ =>
    refine .under hp (safe_mono h ?_) (endsBy_of_forall fun _ _ => trivial)
    rintro es _ c ⟨half, task, told, rfl, htracks, -⟩
    exact ⟨_, rfl, htracks⟩
  | past h _ => exact .past h

theorem returned_attends (h : D.Attends instant b t) : t.state.record <+: t.current.record := by
  cases h with
  | idle _ => exact List.prefix_refl _
  | under hp _ _ _ => exact ⟨[], by rw [List.append_nil, Thread.current_of_kind? hp]⟩
  | past _ hr =>
    obtain ⟨entry, hentry⟩ := hr
    exact ⟨[entry], hentry.symm⟩

theorem pledged_idle (h : D.Timed instant b t) (hidle : t.pending = none)
    (hfree : D.held t.state.half = false) (hl : b.counter side + n ≤ b.limit side) :
    t.Keeps side (D.Pledged n (b.counter side) t.state.record) b ∧
      D.Pledged n (b.counter side) t.state.record t.current b := by
  obtain ⟨w, _ | p⟩ := t
  · have hstart := pledged_start h.tracks hfree hl
    exact ⟨.idle hstart, hstart⟩
  · cases hidle

end Conduct

namespace Attending

open Interleaving

variable {trace : List (Session.Answer × List Event)}
variable {produce : List (Task Producer.Op × Told Producer.Answer) → Option (Task Producer.Op)}
variable {consume : List (Task Consumer.Op × Told Consumer.Answer) → Option (Task Consumer.Op)}
variable {m : Interleaving g ProducerAttendant ConsumerAttendant} {schedule : List Side}
variable {b : Ledger g}

theorem disciplined_of {I : ProducerAttendant → Ledger g → Prop}
    {J : ConsumerAttendant → Ledger g → Prop} (hI : (Producer.conduct g).Invariant produce I)
    (hJ : (Consumer.conduct g).Invariant consume J) :
    (threads g produce consume).Disciplined I J where
  producer w p b := hI.next w p b
  consumer w p b := hJ.next w p b
  producerStable := hI.stable
  consumerStable w b b' _ := hJ.stable w b b'

theorem honoured_producer (h : Attended trace (threads g produce consume) m schedule b)
    (hidle : (run (threads g produce consume) schedule m).producer.pending = none)
    (hfree : (run (threads g produce consume) schedule m).producer.state.half.held = false)
    {n : Nat} (hl : b.counter .producer + n ≤ b.limit .producer) (later : List Side) :
    (Producer.conduct g).Honoured n
      (run (threads g produce consume) schedule m).producer.state.record
      (run (threads g produce consume) (schedule ++ later) m).producer.state.record := by
  obtain ⟨hkeeps, hpledged⟩ := Conduct.pledged_idle h.producer hidle hfree hl
  obtain ⟨c, hc⟩ := abides_run (disciplined_of (Conduct.invariant_pledged produce)
    (Conduct.invariant_tracks consume)) (Conduct.invariant_pledged produce).steady
    (Conduct.invariant_tracks consume).steady later
    ⟨⟨h.ring, h.valid, hkeeps, Conduct.keeps_attends h.consumer.attends⟩, hpledged,
      h.consumer.tracks⟩
  obtain ⟨b', h'⟩ := attended_run later h
  have hreturned := Conduct.returned_attends h'.producer.attends
  rw [run_append] at hreturned ⊢
  intro before op answer hp hw hn
  exact hc.producing.honoured before op answer (hp.trans hreturned) hw hn

theorem honoured_consumer (h : Attended trace (threads g produce consume) m schedule b)
    (hidle : (run (threads g produce consume) schedule m).consumer.pending = none)
    (hfree : (run (threads g produce consume) schedule m).consumer.state.half.held = false)
    {n : Nat} (hl : b.counter .consumer + n ≤ b.limit .consumer) (later : List Side) :
    (Consumer.conduct g).Honoured n
      (run (threads g produce consume) schedule m).consumer.state.record
      (run (threads g produce consume) (schedule ++ later) m).consumer.state.record := by
  obtain ⟨hkeeps, hpledged⟩ := Conduct.pledged_idle h.consumer hidle hfree hl
  obtain ⟨c, hc⟩ := abides_run (disciplined_of (Conduct.invariant_tracks produce)
    (Conduct.invariant_pledged consume)) (Conduct.invariant_tracks produce).steady
    (Conduct.invariant_pledged consume).steady later
    ⟨⟨h.ring, h.valid, Conduct.keeps_attends h.producer.attends, hkeeps⟩, h.producer.tracks,
      hpledged⟩
  obtain ⟨b', h'⟩ := attended_run later h
  have hreturned := Conduct.returned_attends h'.consumer.attends
  rw [run_append] at hreturned ⊢
  intro before op answer hp hw hn
  exact hc.consuming.honoured before op answer (hp.trans hreturned) hw hn

/-- The half is between two calls, and in the last one it asked `q` and was told `v`. -/
def Knows {H O A : Type} (t : Thread (Attendant H O A)) (q : Question) (v : Seen) : Prop :=
  t.pending = none ∧ ∃ before, t.state.record = before ++ [(.ask q, .seen v)]

theorem seen_of_knows {side : Side} {H O A : Type} {D : Conduct g side H O A}
    {instant : List (Task O × Told A) → Nat → Prop} {t : Thread (Attendant H O A)} {q : Question}
    {v : Seen} (h : D.Timed instant b t) (hk : Knows t q v) :
    ∃ e : Ledger g, e.Valid ∧ e.Earlier side b ∧ q.Exact g e.size v := by
  obtain ⟨hidle, before, hrecord⟩ := hk
  obtain ⟨w, _ | p⟩ := t
  · exact h.last before q v hrecord
  · cases hidle

theorem room_of_seen {e : Ledger g} (he : e.Valid) (heb : e.Earlier .producer b)
    (hseen : Question.isFull.Exact g e.size (.flag false)) :
    b.counter .producer + 1 ≤ b.limit .producer := by
  have hp : b.published = e.published := heb.1
  have hf : e.freed ≤ b.freed := heb.2
  have hsize : e.size ≠ g.capacity.toNat := fun h => Bool.false_ne_true (hseen.mpr h)
  have hlt := he.published_lt
  rw [g.toNat_capacity] at hsize
  simp only [Ledger.size] at hsize
  simp only [Ledger.counter, Ledger.limit]
  omega

theorem items_of_seen {e : Ledger g} (he : e.Valid) (heb : e.Earlier .consumer b) :
    b.counter .consumer + e.size ≤ b.limit .consumer := by
  have hf : b.freed = e.freed := heb.1
  have hp : e.published ≤ b.published := heb.2
  have hle := he.freed_le
  simp only [Ledger.counter, Ledger.limit, Ledger.size]
  omega

theorem level_le_of_seen {e : Ledger g} {later : List Side}
    (h : Attended trace (threads g produce consume) m schedule b) (heb : e.Earlier .producer b)
    (hsilent : passedBy (threads g produce consume) .producer later
      (run (threads g produce consume) schedule m) = []) :
    level trace (threads g produce consume) m (schedule ++ later) ≤ e.size := by
  have hp : b.published = e.published := heb.1
  have hf : e.freed ≤ b.freed := heb.2
  have hpublished := h.published
  have hfreed := h.freed
  simp only [level, passedBy_append, hsilent, List.append_nil, List.length_append, Ledger.size]
  omega

/-! ## Runs -/

def after (ts : Threads ProducerAttendant ConsumerAttendant)
    (m : Interleaving g ProducerAttendant ConsumerAttendant) (turns : Nat → Side) (k : Nat) :
    Interleaving g ProducerAttendant ConsumerAttendant :=
  run ts ((List.range k).map turns) m

theorem after_succ (ts : Threads ProducerAttendant ConsumerAttendant)
    (m : Interleaving g ProducerAttendant ConsumerAttendant) (turns : Nat → Side) (k : Nat) :
    after ts m turns (k + 1) = (after ts m turns k).turn ts (turns k) := by
  rw [after, List.range_succ, List.map_append, run_append]
  rfl

def Returns {H O A : Type} (t : Nat → Thread (Attendant H O A)) : Prop :=
  ∀ k, (t k).pending.isSome → ∃ j, k < j ∧ (t j).pending = none ∧
    ∃ entry, (t j).state.record = (t k).state.record ++ [entry]

theorem returns_of_turns {side : Side} {H O A : Type} {D : Conduct g side H O A}
    {choose : List (Task O × Told A) → Option (Task O)} {t : Nat → Thread (Attendant H O A)}
    {turns : Nat → Side}
    (hturn : ∀ k, turns k = side → ∃ r : Ring g, t (k + 1) = ((t k).turn (D.next choose) r).1)
    (hother : ∀ k, turns k ≠ side → t (k + 1) = t k) (hfair : ∀ k, ∃ j, k ≤ j ∧ turns j = side)
    (hattends : ∀ k, ∃ instant b, D.Attends instant b (t k)) : Returns t := by
  intro k hk
  obtain ⟨p, hp⟩ := Option.isSome_iff_exists.mp hk
  have ht : t k = ⟨(t k).state, some p⟩ := by rw [← hp]
  obtain ⟨j, w, hj, hdone, hnone⟩ := Thread.returns hturn hother hfair ht
  obtain ⟨instant, b, h⟩ := hattends j
  rw [hdone] at h
  refine ⟨j + 1, Nat.lt_succ_of_le hj, by rw [hnone], ?_⟩
  rw [hnone]
  cases h with
  | under hp _ _ _ => exact absurd rfl hp
  | past _ hr => exact hr

theorem returns_producer (h : Attended trace (threads g produce consume) m [] b)
    {turns : Nat → Side} (hfair : ∀ k, ∃ j, k ≤ j ∧ turns j = .producer) :
    Returns fun k => (after (threads g produce consume) m turns k).producer := by
  apply @returns_of_turns g .producer _ _ _ (Producer.conduct g) produce _ turns _ _ hfair
  · intro k
    obtain ⟨b', h'⟩ := attended_run ((List.range k).map turns) h
    exact ⟨_, b', h'.producer.attends⟩
  · intro k hk
    refine ⟨(after (threads g produce consume) m turns k).ring, ?_⟩
    rw [after_succ, hk]
    rfl
  · intro k hk
    cases hside : turns k with
    | producer => exact absurd hside hk
    | consumer =>
      rw [after_succ, hside]
      rfl

theorem returns_consumer (h : Attended trace (threads g produce consume) m [] b)
    {turns : Nat → Side} (hfair : ∀ k, ∃ j, k ≤ j ∧ turns j = .consumer) :
    Returns fun k => (after (threads g produce consume) m turns k).consumer := by
  apply @returns_of_turns g .consumer _ _ _ (Consumer.conduct g) consume _ turns _ _ hfair
  · intro k
    obtain ⟨b', h'⟩ := attended_run ((List.range k).map turns) h
    exact ⟨_, b', h'.consumer.attends⟩
  · intro k hk
    refine ⟨(after (threads g produce consume) m turns k).ring, ?_⟩
    rw [after_succ, hk]
    rfl
  · intro k hk
    cases hside : turns k with
    | consumer => exact absurd hside hk
    | producer =>
      rw [after_succ, hside]
      rfl

structure Reliable (trace : List (Session.Answer × List Event))
    (ts : Threads ProducerAttendant ConsumerAttendant)
    (m : Interleaving g ProducerAttendant ConsumerAttendant) : Prop where
  exactProducer : ∀ schedule before q told,
    before ++ [(.ask q, told)] <+: (run ts schedule m).producer.state.record →
      ∃ v k, told = .seen v ∧ Instant Interleaving.producer trace ts m schedule before k ∧
        q.Exact g k v
  exactConsumer : ∀ schedule before q told,
    before ++ [(.ask q, told)] <+: (run ts schedule m).consumer.state.record →
      ∃ v k, told = .seen v ∧ Instant Interleaving.consumer trace ts m schedule before k ∧
        q.Exact g k v
  /-- Told that the ring is not full, the producer gets the next slot it asks for. -/
  room : ∀ schedule later between op answer, let told := (run ts schedule m).producer
    Knows told .isFull (.flag false) → told.state.half.draft = none →
    told.state.record ++ between ++ [(.act op, .answered answer)] <+:
      (run ts (schedule ++ later) m).producer.state.record →
    (∀ entry ∈ between, entry.1.wants (Producer.Op.wants g) = false) → op.wants g = true →
      op.served answer = true
  /-- Told how many items there are, it finds no more of them until it publishes. -/
  bound : ∀ schedule later n, Knows (run ts schedule m).producer .length (.count n) →
    passedBy ts .producer later (run ts schedule m) = [] →
      level trace ts m (schedule ++ later) ≤ n.toNat
  /-- Told that the ring is not empty, the consumer gets the next item it asks for. -/
  item : ∀ schedule later between op answer, let told := (run ts schedule m).consumer
    Knows told .isEmpty (.flag false) → told.state.half.loan = none →
    told.state.record ++ between ++ [(.act op, .answered answer)] <+:
      (run ts (schedule ++ later) m).consumer.state.record →
    (∀ entry ∈ between, entry.1.wants Consumer.Op.wants = false) → op.wants = true →
      op.served answer = true
  /-- Told that there are `n` items, it gets one for each of its next `n` tries. -/
  items : ∀ schedule later between op answer n, let told := (run ts schedule m).consumer
    Knows told .length (.count n) → told.state.half.loan = none →
    told.state.record ++ between ++ [(.act op, .answered answer)] <+:
      (run ts (schedule ++ later) m).consumer.state.record →
    between.countP (tried Consumer.Op.wants Consumer.Answer.busy) < n.toNat →
    op.wants = true → answer.busy = false → op.served answer = true
  returnsProducer : ∀ turns, (∀ k, ∃ j, k ≤ j ∧ turns j = Side.producer) →
    Returns fun k => (after ts m turns k).producer
  returnsConsumer : ∀ turns, (∀ k, ∃ j, k ≤ j ∧ turns j = Side.consumer) →
    Returns fun k => (after ts m turns k).consumer

theorem reliable_of_start (h : Attended trace (threads g produce consume) m [] b) :
    Reliable trace (threads g produce consume) m where
  exactProducer schedule before q told hp := by
    obtain ⟨c, hc⟩ := attended_run schedule h
    exact hc.producer.exact before q told (hp.trans (Conduct.returned_attends hc.producer.attends))
  exactConsumer schedule before q told hp := by
    obtain ⟨c, hc⟩ := attended_run schedule h
    exact hc.consumer.exact before q told (hp.trans (Conduct.returned_attends hc.consumer.attends))
  room schedule later between op answer := by
    intro told hk hd hp hbetween hw
    obtain ⟨c, hc⟩ := attended_run schedule h
    obtain ⟨e, he, hec, hseen⟩ := seen_of_knows hc.producer hk
    have hhonoured := honoured_producer hc hk.1 (Producer.held_of_none hd)
      (room_of_seen he hec hseen) later
    exact Conduct.honoured_first hhonoured Nat.one_pos hp hbetween hw
  bound schedule later n := by
    intro hk hsilent
    obtain ⟨c, hc⟩ := attended_run schedule h
    obtain ⟨e, he, hec, hseen⟩ := seen_of_knows hc.producer hk
    rw [show n.toNat = e.size from hseen]
    exact level_le_of_seen hc hec hsilent
  item schedule later between op answer := by
    intro told hk hl hp hbetween hw
    obtain ⟨c, hc⟩ := attended_run schedule h
    obtain ⟨e, he, hec, hseen⟩ := seen_of_knows hc.consumer hk
    have hpos : 0 < e.size := Nat.pos_of_ne_zero fun hzero => Bool.false_ne_true (hseen.mpr hzero)
    have hhonoured := honoured_consumer hc hk.1 (Consumer.held_of_none hl)
      (items_of_seen he hec) later
    exact Conduct.honoured_first hhonoured hpos hp hbetween hw
  items schedule later between op answer n := by
    intro told hk hl hp hfew hw hb
    obtain ⟨c, hc⟩ := attended_run schedule h
    obtain ⟨e, he, hec, hseen⟩ := seen_of_knows hc.consumer hk
    rw [show n.toNat = e.size from hseen] at hfew
    have hhonoured := honoured_consumer hc hk.1 (Consumer.held_of_none hl)
      (items_of_seen he hec) later
    rcases hhonoured between op answer hp hw hfew with hserved | ⟨hbusy, -⟩
    · exact hserved
    · exact absurd (hb.symm.trans hbusy) Bool.false_ne_true
  returnsProducer turns hfair := returns_producer h hfair
  returnsConsumer turns hfair := returns_consumer h hfair

/-- From any session that a run on an accepted ring comes to, the halves can
rely on the answers to their questions; and the answers to any two indices in
range agree with each other. -/
theorem run_reliable {line : Padding.Line} {storage : Storage} {itemSize : UInt64} {r : Ring g}
    {e : Event} (h : Ring.construct line storage itemSize = (.ok ⟨g, r⟩, e)) (build : Build)
    (ops : List Session.Op)
    (produce : List (Task Producer.Op × Told Producer.Answer) → Option (Task Producer.Op))
    (consume : List (Task Consumer.Op × Told Consumer.Answer) → Option (Task Consumer.Op)) :
    let earlier := Session.run build ops (Session.split r)
    Reliable earlier.2 (threads g produce consume) (start earlier.1) ∧
      ∀ (build' : Build) (r' : Ring g), r'.Below →
        ∃ seen, Observer.see build' r' = .ok seen ∧ seen.Consistent g := by
  obtain ⟨htracks, htrace⟩ := Session.tracks_construct build ops h
  obtain ⟨hpublished, hfreed⟩ := Account.run_counts build ops ⟨r.ledger, false, false⟩
  intro earlier
  refine ⟨reliable_of_start (attended_start htracks ?_ ?_), fun build' r' hr =>
    Observer.see_consistent build' hr⟩
  · rw [hpublished, ← htrace]
    exact Nat.zero_add _
  · rw [hfreed, ← htrace]
    exact Nat.zero_add _

/-- The producer asks and pushes an item between the two loads of the consumer,
which is told of the one item that was there before. -/
theorem run_reliable_between_loads :
    ∃ (g : Geometry) (r : Ring g) (e : Event),
      Ring.construct .line64 ⟨#[1, 2, 3, 4, 5, 6, 7], by decide⟩ 2 = (.ok ⟨g, r⟩, e) ∧
      let earlier := Session.run .release [.produce (.push [9])] (Session.split r)
      let ts := threads g
        (fun record => [.ask .isFull, .act (.push [8])][record.length]?)
        (fun record => [.ask .length, .act (.pop [0, 0])][record.length]?)
      let schedule := List.replicate 2 Side.consumer ++ List.replicate 20 .producer ++
        List.replicate 3 .consumer
      (run ts schedule (start earlier.1)).consumer.state.record =
          [(.ask .length, .seen (.count 1))] ∧
        (run ts schedule (start earlier.1)).producer.state.record =
          [(.ask .isFull, .seen (.flag false)), (.act (.push [8]), .answered .pushed)] ∧
        level earlier.2 ts (start earlier.1) [] = 1 ∧
        level earlier.2 ts (start earlier.1) schedule = 2 ∧
        Reliable earlier.2 ts (start earlier.1) ∧
          ∀ (build' : Build) (r' : Ring g), r'.Below →
            ∃ seen, Observer.see build' r' = .ok seen ∧ seen.Consistent g := by
  refine ⟨_, _, _, rfl, ?_⟩
  intro earlier ts schedule
  refine ⟨by decide +kernel, by decide +kernel, by decide +kernel, by decide +kernel, ?_⟩
  exact @run_reliable _ .line64 ⟨#[1, 2, 3, 4, 5, 6, 7], by decide⟩ 2 _ _ rfl .release _ _ _

end Attending

end SlotRing
