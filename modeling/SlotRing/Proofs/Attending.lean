import SlotRing.Proofs.Windows
import SlotRing.Proofs.Linearization
import SlotRing.Proofs.Observing

/-!
# Halves that ask

Two halves take turns access by access, and each asks about the ring between
its operations. `Conduct` is what the two have in common, so that one argument
serves both: a half tracks the ledger, and an operation for a slot gets one if
there is one. An answer is exact for a ledger that the other side passed
through during the call (`safe_ask`); since a turn moves a counter by one at
most, the true number of items was that of this ledger at some instant of the
call. `Timed` carries this from turn to turn.
-/

set_option autoImplicit false

namespace SlotRing

open Access

variable {g : Geometry}

/-! ## Halves that ask -/

inductive Task (O : Type) where
  | act (op : O)
  | ask (question : Question)
  deriving DecidableEq, Repr

inductive Told (A : Type) where
  | answered (answer : A)
  | seen (seen : Seen)
  deriving DecidableEq, Repr

abbrev Attendant (H O A : Type) := Worker H (Task O) (Told A)

def attend {H O A : Type} (g : Geometry) (perform : H → O → Access (H × A)) (half : H) :
    Task O → Access (H × Told A)
  | .act op => do
    let (half, answer) ← perform half op
    pure (half, .answered answer)
  | .ask question => do
    let seen ← question.ask g
    pure (half, .seen seen)

namespace Ledger

def limit (b : Ledger g) : Side → Nat
  | .producer => b.freed + (g.slots - 1)
  | .consumer => b.published

/-- Nothing has changed since but the counter of the other side. -/
def Earlier (side : Side) (e b : Ledger g) : Prop :=
  b.counter side = e.counter side ∧ e.counter side.other ≤ b.counter side.other

variable {side : Side} {b b' c e : Ledger g}

theorem ready_iff : b.Ready side ↔ b.counter side < b.limit side := by
  have hslots := g.two_le_slots
  cases side with
  | producer =>
    simp only [Ready, counter, limit]
    omega
  | consumer => exact Iff.rfl

theorem limit_mono (h : Moves side.other b b') : b.limit side ≤ b'.limit side := by
  cases side with
  | producer => exact Nat.add_le_add_right h.2.2.2 _
  | consumer => exact h.2.2.length_le

theorem limit_congr (hi : b'.items = b.items) (hf : b'.freed = b.freed) :
    b'.limit side = b.limit side := by
  simp only [limit, published, hi, hf]

theorem earlier_refl (side : Side) (b : Ledger g) : Earlier side b b := ⟨rfl, Nat.le_refl _⟩

theorem earlier_trans (h : Earlier side e b) (h' : Earlier side b c) : Earlier side e c :=
  ⟨h'.1.trans h.1, Nat.le_trans h.2 h'.2⟩

theorem earlier_of_moves (h : Moves side.other b b') : Earlier side b b' :=
  ⟨counter_other h, counter_mono h⟩

theorem earlier_of_same (hi : b'.items = b.items) (hf : b'.freed = b.freed) :
    Earlier side b b' :=
  ⟨counter_congr hi hf side, Nat.le_of_eq (counter_congr hi hf side.other).symm⟩

theorem size_congr (h : b.counter side = e.counter side)
    (h' : b.counter side.other = e.counter side.other) : b.size = e.size := by
  cases side <;> simp_all [size, counter, Side.other]

end Ledger

namespace Access

variable {α : Type} {build : Build} {side : Side} {q : Bool} {p : Access α} {post : Post g α}
variable {b : Ledger g}

theorem safe_from {k k' : Nat} (hk : k ≤ k')
    (h : Safe build side q p (fun es r c => post es r c ∧ k' ≤ c.counter side.other) b) :
    Safe build side q p (fun es r c => post es r c ∧ k ≤ c.counter side.other) b :=
  safe_mono h fun _ _ _ hc => ⟨hc.1, Nat.le_trans hk hc.2⟩

theorem safe_later (h : Safe build side q p post b) :
    Safe build side q p
      (fun es r c => post es r c ∧ b.counter side.other ≤ c.counter side.other) b := by
  induction p generalizing post b with
  | done a => exact ⟨h, Nat.le_refl _⟩
  | loadIndex o k ih => exact fun c hc => safe_from (Ledger.counter_mono hc) (ih _ (h c hc))
  | storeIndex o i k ih =>
    obtain ⟨hq, rfl, a, hk, h⟩ := h
    refine ⟨hq, rfl, a, hk, fun c hc => ?_⟩
    obtain ⟨hready, hindex, hpost⟩ := h c hc
    refine ⟨hready, hindex, hpost, ?_⟩
    rw [(Ledger.counter_advance c o).2]
    exact Ledger.counter_mono hc
  | loadByte a k ih =>
    intro c hc
    exact ⟨(h c hc).1, safe_from (Ledger.counter_mono hc) (ih _ (h c hc).2)⟩
  | storeByte a v k ih =>
    obtain ⟨rfl, h⟩ := h
    refine ⟨rfl, fun c hc => ?_⟩
    have hcounter : b.freed ≤ (c.setByte a v).freed := hc.2.2.2
    exact ⟨(h c hc).1, safe_from hcounter (ih _ (h c hc).2)⟩
  | log event k ih => exact fun c hc => safe_from (Ledger.counter_mono hc) (ih _ (h c hc))
  | require holds fault k ih =>
    intro c hc
    have h := h c hc
    by_cases hh : passes build holds
    · rw [if_pos hh] at h ⊢
      exact safe_from (Ledger.counter_mono hc) (ih _ h)
    · rw [if_neg hh] at h ⊢
      exact ⟨h, Ledger.counter_mono hc⟩

end Access

/-- What an operation means to the slots of its side: it takes up one at most,
only if it is for one and none is held, and it gets it if there is one. -/
structure Dealt (side : Side) (wants held held' served busy : Bool) (b c : Ledger g) : Prop where
  counter : c.counter side + held'.toNat ≤ b.counter side + held.toNat + (wants && !held).toNat
  busy : wants = true → busy = held
  served : wants = true → held = false → b.Ready side → served = true
  forward : b.counter side ≤ c.counter side
  limit : b.limit side ≤ c.limit side

structure Conduct (g : Geometry) (side : Side) (H O A : Type) where
  perform : H → O → Access (H × A)
  Tracks : H → Ledger g → Prop
  held : H → Bool
  wants : O → Bool
  served : O → A → Bool
  /-- Whether it was turned away since a slot is held. -/
  busy : A → Bool
  stable : ∀ {h b b'}, Ledger.Moves side.other b b' → Tracks h b → Tracks h b'
  steady : ∀ {h} {b b' : Ledger g}, b'.items = b.items → b'.freed = b.freed → Tracks h b →
    Tracks h b'
  safe : ∀ {h b} (op), b.Valid → Tracks h b → Safe .release side true (perform h op)
    (fun _ r c => ∃ h' a, r = .ok (h', a) ∧ Tracks h' c ∧
      Dealt side (wants op) (held h) (held h') (served op a) (busy a) b c) b

namespace Producer

/-- Whether an operation is for the next free slot. No slot holds an item that is too long. -/
def Op.wants (g : Geometry) : Op → Bool
  | .push item => item.length ≤ g.slotSize
  | .draft => true
  | _ => false

def Op.served : Op → Answer → Bool
  | .push _, .pushed | .draft, .drafted .. => true
  | _, _ => false

def Answer.busy : Answer → Bool
  | .slotHeld => true
  | _ => false

end Producer

namespace Consumer

def Op.wants : Op → Bool
  | .pop _ | .borrow => true
  | _ => false

def Op.served : Op → Answer → Bool
  | .pop _, .popped (some _) _ | .borrow, .lent .. => true
  | _, _ => false

def Answer.busy : Answer → Bool
  | .slotHeld => true
  | _ => false

end Consumer

namespace Ledger

variable {b : Ledger g}

theorem produce_deals (held : Bool) (op : Producer.Op) (b : Ledger g) :
    let deed := b.produce .release held op
    b.published ≤ deed.ledger.published ∧
      deed.ledger.published + deed.held.toNat ≤
        b.published + held.toNat + (op.wants g && !held).toNat ∧
      ∀ a, deed.answer = .ok a → op.wants g = true →
        a.busy = held ∧ (held = false → ¬ b.Full → op.served a = true) := by
  cases held with
  | false =>
    simp only [produce, if_neg Bool.false_ne_true]
    cases op with
    | push item =>
      by_cases hl : g.slotSize < item.length
      · simp [produceFree, hl, Producer.Op.wants, Nat.not_le.mpr hl]
      · by_cases hf : b.Full <;>
          simp [produceFree, hl, hf, Producer.Op.wants, Nat.not_lt.mp hl, Producer.Answer.busy,
            Producer.Op.served]
    | draft =>
      by_cases hf : b.Full <;>
        simp [produceFree, hf, Producer.Op.wants, Producer.Answer.busy, Producer.Op.served]
    | contents | store _ _ | fill _ | overwrite _ | finish _ =>
      simp [produceFree, Producer.Op.wants]
  | true =>
    simp only [produce, if_pos]
    cases op with
    | push _ | draft => simp [produceHolding, Producer.Answer.busy]
    | contents => simp [produceHolding, Producer.Op.wants]
    | store position bytes =>
      cases h : decide (bytes.length ≤ g.slotSize - position) <;>
        simp [produceHolding, settle, Producer.Op.wants, h]
    | fill byte => simp [produceHolding, settle, Producer.Op.wants]
    | overwrite bytes =>
      by_cases hl : bytes.length = g.slotSize <;>
        simp [produceHolding, settle, Producer.Op.wants, hl]
    | finish how => cases how <;> simp [produceHolding, endDraft, Producer.Op.wants]

theorem consume_deals (held : Bool) (op : Consumer.Op) (b : Ledger g) :
    let deed := b.consume held op
    b.freed ≤ deed.ledger.freed ∧
      deed.ledger.freed + deed.held.toNat ≤ b.freed + held.toNat + (op.wants && !held).toNat ∧
      ∀ a, deed.answer = .ok a → op.wants = true →
        a.busy = held ∧ (held = false → ¬ b.Empty → op.served a = true) := by
  cases held with
  | false =>
    simp only [consume, if_neg Bool.false_ne_true]
    cases op with
    | pop dest =>
      by_cases he : b.Empty <;>
        simp [consumeFree, he, Consumer.Op.wants, Consumer.Answer.busy, Consumer.Op.served]
    | borrow =>
      by_cases he : b.Empty <;>
        simp [consumeFree, he, Consumer.Op.wants, Consumer.Answer.busy, Consumer.Op.served]
    | contents | byteAt _ | finish _ => simp [consumeFree, Consumer.Op.wants]
  | true =>
    simp only [consume, if_pos]
    cases op with
    | pop _ | borrow => simp [consumeHolding, Consumer.Answer.busy]
    | contents => simp [consumeHolding, Consumer.Op.wants]
    | byteAt position =>
      cases h : b.oldest[position]? <;> simp [consumeHolding, Consumer.Op.wants, h]
    | finish how => cases how <;> simp [consumeHolding, endLoan, Consumer.Op.wants]

end Ledger

theorem Ledger.not_full_later {b : Ledger g} {freed : Nat} (hr : b.Ready .producer)
    (hf : b.freed ≤ freed) : ¬ ({ b with freed := freed } : Ledger g).Full := by
  have hp : ({ b with freed := freed } : Ledger g).published = b.published := rfl
  simp only [Ready] at hr
  simp only [Full, hp]
  omega

def Producer.conduct (g : Geometry) : Conduct g .producer Producer Producer.Op Producer.Answer where
  perform p op := p.perform g op
  Tracks p b := p.Tracks b
  held := Producer.held
  wants := Producer.Op.wants g
  served := Producer.Op.served
  busy := Producer.Answer.busy
  stable hm h := Producer.tracks_other h hm
  steady hi hf h := Producer.tracks_congr h (congrArg List.length hi) hf
  safe {p b} op hv h := by
    apply safe_mono (safe_later (safe_release (Producer.safe_perform op hv h)))
    rintro es _ c ⟨⟨⟨p', a⟩, rfl, hp', hdeed⟩, hlater⟩
    have hdeals := Ledger.produce_deals p.held op { b with freed := c.freed }
    rw [hdeed] at hdeals
    obtain ⟨hforward, hcounter, hanswer⟩ := hdeals
    refine ⟨p', a, rfl, hp', hcounter, ?_, ?_, hforward, Nat.add_le_add_right hlater _⟩
    · exact fun hw => (hanswer a rfl hw).1
    · exact fun hw hh hr => (hanswer a rfl hw).2 hh (Ledger.not_full_later hr hlater)

def Consumer.conduct (g : Geometry) : Conduct g .consumer Consumer Consumer.Op Consumer.Answer where
  perform c op := c.perform g op
  Tracks c b := c.Tracks b
  held := Consumer.held
  wants := Consumer.Op.wants
  served := Consumer.Op.served
  busy := Consumer.Answer.busy
  stable hm h := Consumer.tracks_other h hm
  steady hi hf h := Consumer.tracks_congr h (congrArg List.length hi) hf
  safe {c b} op hv h := by
    apply safe_mono (safe_later (safe_release (Consumer.safe_perform op hv h)))
    rintro es _ d ⟨⟨⟨c', a⟩, rfl, hc', hdeed⟩, hlater⟩
    have hdeals := Ledger.consume_deals c.held op { d with freed := b.freed }
    rw [hdeed] at hdeals
    obtain ⟨hforward, hcounter, hanswer⟩ := hdeals
    refine ⟨c', a, rfl, hc', hcounter, ?_, ?_, hforward, hlater⟩
    · exact fun hw => (hanswer a rfl hw).1
    · exact fun hw hh hr => (hanswer a rfl hw).2 hh (Nat.ne_of_lt (Nat.lt_of_lt_of_le hr hlater))

/-! ## Calls -/

namespace Conduct

variable {side : Side} {H O A : Type} (D : Conduct g side H O A)

def next (choose : List (Task O × Told A) → Option (Task O)) :
    Attendant H O A → Option (Access (Attendant H O A)) :=
  Worker.next (attend g D.perform) choose

def Goal (a : Ledger g) (w : Attendant H O A) (r : Except Fault (Attendant H O A))
    (c : Ledger g) : Prop :=
  ∃ h task told, r = .ok ⟨h, w.record ++ [(task, told)]⟩ ∧ D.Tracks h c ∧
    ∀ q, task = .ask q → ∃ v, told = .seen v ∧ q.Saw side a v c

variable {D} {choose : List (Task O × Told A) → Option (Task O)}

theorem safe_next {w : Attendant H O A} {p : Access (Attendant H O A)} {b : Ledger g}
    (hp : D.next choose w = some p) (hv : b.Valid) (h : D.Tracks w.half b) :
    Safe .release side true p (fun _ => D.Goal b w) b := by
  obtain ⟨task, -, rfl⟩ := Option.map_eq_some_iff.mp hp
  apply safe_end (fun _ => ⟨_, rfl⟩)
  cases task with
  | act op =>
    apply safe_end (fun _ => ⟨_, rfl⟩)
    apply safe_mono (D.safe op hv h)
    rintro es _ c ⟨h', answer, rfl, hc, -⟩ _ ⟨⟩ _ ⟨⟩
    exact ⟨h', _, _, rfl, hc, nofun⟩
  | ask question =>
    apply safe_end (fun _ => ⟨_, rfl⟩)
    apply safe_mono (question.safe_ask side)
    rintro es _ c ⟨hm, seen, rfl, hsaw⟩ _ ⟨⟩ _ ⟨⟩
    refine ⟨w.half, _, _, rfl, D.stable hm h, ?_⟩
    rintro q ⟨⟩
    exact ⟨seen, rfl, hsaw⟩

variable (D)

/-- Where a half stands. While a call is under way that began at the ledger
`a`, each ledger since then was there at some instant of it. -/
inductive Attends (instant : List (Task O × Told A) → Nat → Prop) (b : Ledger g) :
    Thread (Attendant H O A) → Prop
  | idle {w : Attendant H O A} (h : D.Tracks w.half b) : Attends instant b ⟨w, none⟩
  | under {w : Attendant H O A} {p : Access (Attendant H O A)} {a : Ledger g} (hp : p.kind? ≠ none)
      (h : Safe .release side true p (fun _ => D.Goal a w) b) (ha : a.Earlier side b)
      (hi : ∀ e, a.Earlier side e → e.Earlier side b → instant w.record e.size) :
      Attends instant b ⟨w, some p⟩
  | past {w w' : Attendant H O A} (h : D.Tracks w'.half b)
      (hr : ∃ entry, w'.record = w.record ++ [entry]) : Attends instant b ⟨w, some (.done w')⟩

/-- What is true of a half between any two turns: each answer to a question
was right at an instant of its call, and the last one is so for a ledger that
only the other side has moved since. -/
structure Timed (instant : List (Task O × Told A) → Nat → Prop) (b : Ledger g)
    (t : Thread (Attendant H O A)) : Prop where
  attends : D.Attends instant b t
  tracks : D.Tracks t.current.half b
  exact : ∀ before q told, before ++ [(.ask q, told)] <+: t.current.record →
    ∃ v k, told = .seen v ∧ instant before k ∧ q.Exact g k v
  last : ∀ before q v, t.current.record = before ++ [(.ask q, .seen v)] →
    ∃ e : Ledger g, e.Valid ∧ e.Earlier side b ∧ q.Exact g e.size v

variable {D} {instant instant' : List (Task O × Told A) → Nat → Prop} {b b' : Ledger g}
variable {t : Thread (Attendant H O A)}

theorem timed_start {h : H} (ht : D.Tracks h b) : D.Timed instant b ⟨⟨h, []⟩, none⟩ where
  attends := .idle ht
  tracks := ht
  exact before q told hp := absurd (List.prefix_nil.mp hp) (by simp)
  last before q v hp := absurd hp (by simp [Thread.current, Thread.outcome?])

/-! ### The other side's turn -/

theorem attends_other (h : D.Attends instant b t) (hm : Ledger.Moves side.other b b')
    (hstep : b'.counter side.other ≤ b.counter side.other + 1)
    (hinstant : ∀ record k, instant record k → instant' record k)
    (hnow : t.pending.isSome → instant' t.state.record b'.size) : D.Attends instant' b' t := by
  have hb : b.Earlier side b' := Ledger.earlier_of_moves hm
  cases h with
  | idle h => exact .idle (D.stable hm h)
  | @under w p a hp hs ha hi =>
    refine .under hp (safe_other hs hm ?_) (Ledger.earlier_trans ha hb) fun e hae heb => ?_
    · rintro s rfl
      exact absurd rfl hp
    · by_cases hle : e.counter side.other ≤ b.counter side.other
      · exact hinstant _ _ (hi e hae ⟨hb.1.symm.trans heb.1, hle⟩)
      · -- The counter moved by one, so a ledger beyond the old one is the new one.
        have hother := heb.2
        rw [← Ledger.size_congr heb.1 (by omega)]
        exact hnow rfl
  | past h hr => exact .past (D.stable hm h) hr

theorem timed_of {t' : Thread (Attendant H O A)} (h : D.Timed instant b t)
    (hb : b.Earlier side b') (hcurrent : t'.current = t.current)
    (hinstant : ∀ record k, instant record k → instant' record k)
    (htracks : D.Tracks t.current.half b') (hattends : D.Attends instant' b' t') :
    D.Timed instant' b' t' where
  attends := hattends
  tracks := hcurrent ▸ htracks
  exact before q told hp := by
    obtain ⟨v, k, htold, hk, hexact⟩ := h.exact before q told (hcurrent ▸ hp)
    exact ⟨v, k, htold, hinstant _ _ hk, hexact⟩
  last before q v hp := by
    obtain ⟨e, he, heb, hexact⟩ := h.last before q v (hcurrent ▸ hp)
    exact ⟨e, he, Ledger.earlier_trans heb hb, hexact⟩

theorem timed_other (h : D.Timed instant b t) (hm : Ledger.Moves side.other b b')
    (hstep : b'.counter side.other ≤ b.counter side.other + 1)
    (hinstant : ∀ record k, instant record k → instant' record k)
    (hnow : t.pending.isSome → instant' t.state.record b'.size) : D.Timed instant' b' t :=
  timed_of h (Ledger.earlier_of_moves hm) rfl hinstant (D.stable hm h.tracks)
    (attends_other h.attends hm hstep hinstant hnow)

/-! ### A turn of its own -/

theorem timed_quiet {t' : Thread (Attendant H O A)} (h : D.Timed instant b t)
    (hi : b'.items = b.items) (hf : b'.freed = b.freed) (hcurrent : t'.current = t.current)
    (hinstant : ∀ record k, instant record k → instant' record k)
    (hattends : D.Attends instant' b' t') : D.Timed instant' b' t' :=
  timed_of h (Ledger.earlier_of_same hi hf) hcurrent hinstant (D.steady hi hf h.tracks) hattends

theorem timed_land {w w' : Attendant H O A} {a : Ledger g} (h : D.Timed instant b t)
    (hw : t.current = w) (hgoal : D.Goal a w (.ok w') b')
    (hinstant : ∀ record k, instant record k → instant' record k)
    (hpassed : ∀ e, Ledger.Moves side.other a e → Ledger.Moves side.other e b' →
      instant' w.record e.size) : D.Timed instant' b' ⟨w, some (.done w')⟩ := by
  obtain ⟨h', task, told, hw', htracks, hsaw⟩ := hgoal
  cases hw'
  refine ⟨.past htracks ⟨_, rfl⟩, htracks, ?_, ?_⟩
  · intro before q told hp
    rcases List.prefix_concat_iff.mp hp with hnew | hold
    · obtain ⟨rfl, hentry⟩ := List.append_inj' hnew rfl
      cases hentry
      obtain ⟨v, htold, e, -, hae, heb, hexact⟩ := hsaw q rfl
      exact ⟨v, e.size, htold, hpassed e hae heb, hexact⟩
    · obtain ⟨v, k, htold, hk, hexact⟩ := h.exact before q told (by rwa [hw])
      exact ⟨v, k, htold, hinstant _ _ hk, hexact⟩
  · intro before q v hp
    obtain ⟨rfl, hentry⟩ := List.append_inj' hp rfl
    cases hentry
    obtain ⟨_, ⟨⟩, e, he, -, heb, hexact⟩ := hsaw q rfl
    exact ⟨e, he, Ledger.earlier_of_moves heb, hexact⟩

theorem timed_idle (choose : List (Task O × Told A) → Option (Task O)) {w : Attendant H O A}
    (h : D.Timed instant b ⟨w, none⟩) (hv : b.Valid)
    (hinstant : ∀ record k, instant record k → instant' record k)
    (hnow : (D.next choose w).isSome → instant' w.record b.size) :
    D.Timed instant' b ⟨w, D.next choose w⟩ := by
  cases hp : D.next choose w with
  | none => exact timed_quiet h rfl rfl rfl hinstant (.idle h.tracks)
  | some p =>
    have hsafe := safe_next hp hv h.tracks
    -- The call begins at this ledger, and this turn ends inside it.
    have hhere : ∀ e, b.Earlier side e → e.Earlier side b → instant' w.record e.size := by
      intro e hbe heb
      rw [hp] at hnow
      rw [← Ledger.size_congr heb.1 (Nat.le_antisymm hbe.2 heb.2)]
      exact hnow rfl
    by_cases hk : p.kind? = none
    · obtain ⟨w', rfl⟩ := Thread.eq_done_of_kind? hk
      apply timed_land h rfl hsafe hinstant
      intro e hbe heb
      exact hhere e (Ledger.earlier_of_moves hbe) (Ledger.earlier_of_moves heb)
    · exact timed_quiet h rfl rfl (Thread.current_of_kind? hk) hinstant
        (.under hk hsafe (Ledger.earlier_refl side b) hhere)

theorem timed_under {w : Attendant H O A} {p p' : Access (Attendant H O A)} {a : Ledger g}
    (h : D.Timed instant b ⟨w, some p⟩) (hp : p.kind? ≠ none) (ha : a.Earlier side b)
    (hi : ∀ e, a.Earlier side e → e.Earlier side b → instant w.record e.size)
    (hm : Ledger.Moves side b b')
    (hsafe : Safe .release side true p' (fun _ => D.Goal a w) b')
    (hsame : p'.kind? ≠ none → b'.items = b.items ∧ b'.freed = b.freed)
    (hinstant : ∀ record k, instant record k → instant' record k) :
    D.Timed instant' b' ⟨w, some p'⟩ := by
  have hcurrent : Thread.current ⟨w, some p⟩ = w := Thread.current_of_kind? hp
  by_cases hk : p'.kind? = none
  · obtain ⟨w', rfl⟩ := Thread.eq_done_of_kind? hk
    apply timed_land h hcurrent hsafe hinstant
    intro e hae heb
    have heb' : e.Earlier side b := by
      refine ⟨ha.1.trans (Ledger.counter_other hae).symm, ?_⟩
      rw [← Ledger.counter_fixed hm]
      exact Ledger.counter_mono heb
    exact hinstant _ _ (hi e (Ledger.earlier_of_moves hae) heb')
  · obtain ⟨hitems, hfreed⟩ := hsame hk
    have hstill : Thread.current ⟨w, some p'⟩ = Thread.current ⟨w, some p⟩ := by
      rw [hcurrent, Thread.current_of_kind? hk]
    have hb : b'.Earlier side b := Ledger.earlier_of_same hitems.symm hfreed.symm
    have hpassed : ∀ e, a.Earlier side e → e.Earlier side b' → instant' w.record e.size :=
      fun e hae heb => hinstant _ _ (hi e hae (Ledger.earlier_trans heb hb))
    exact timed_quiet h hitems hfreed hstill hinstant
      (.under hk hsafe (Ledger.earlier_trans ha (Ledger.earlier_of_same hitems hfreed)) hpassed)

theorem timed_own (choose : List (Task O × Told A) → Option (Task O)) (h : D.Timed instant b t)
    (hv : b.Valid) :
    let t' := (t.turn (D.next choose) b.ring).1
    ∃ b', Ledger.Moves side b b' ∧ (t.turn (D.next choose) b.ring).2 = b'.ring ∧
      b'.counter side =
        b.counter side + (if t.kind? = some (.storeIndex side) then 1 else 0) ∧
      ∀ instant', (∀ record k, instant record k → instant' record k) →
        (t'.pending.isSome → instant' t'.state.record b'.size) → D.Timed instant' b' t' := by
  cases h.attends with
  | @idle w _ =>
    exact ⟨b, Ledger.moves_refl _ hv, rfl, rfl, fun _ => timed_idle choose h hv⟩
  | @under w p a hp hsafe ha hi =>
    obtain ⟨b', hm, hring, hsafe', hcount⟩ := safe_step hsafe hv
    rw [Thread.turn_of_kind? hp]
    have hcounter : b'.counter side =
        b.counter side + (if p.kind? = some (.storeIndex side) then 1 else 0) := by
      by_cases hstore : p.kind? = some (.storeIndex side)
      · rw [if_pos hstore] at hcount ⊢
        rw [hcount.2.1, (Ledger.counter_advance b side).1]
      · rw [if_neg hstore] at hcount ⊢
        exact Ledger.counter_congr hcount.1 hcount.2 side
    refine ⟨b', hm, hring, hcounter, fun _ hinstant _ => ?_⟩
    apply timed_under h hp ha hi hm hsafe' _ hinstant
    intro hk
    -- The store of the index is always the last access.
    have hstore : p.kind? ≠ some (.storeIndex side) := by
      intro hstore
      rw [if_pos hstore] at hcount
      exact hk hcount.2.2
    rwa [if_neg hstore] at hcount
  | @past w w' htracks _ =>
    refine ⟨b, Ledger.moves_refl _ hv, rfl, rfl, fun _ hinstant _ => ?_⟩
    exact timed_quiet h rfl rfl rfl hinstant (.idle htracks)

end Conduct

/-! ## Two halves that ask -/

namespace Interleaving

variable {σ τ : Type} (threads : Threads σ τ)

theorem passedBy_append (side : Side) (schedule rest : List Side) (m : Interleaving g σ τ) :
    passedBy threads side (schedule ++ rest) m =
      passedBy threads side schedule m ++ passedBy threads side rest (run threads schedule m) := by
  induction schedule generalizing m with
  | nil => rfl
  | cons turn schedule ih =>
    simp only [List.cons_append, passedBy, run, ih, List.append_assoc]

theorem length_passedBy_own (side : Side) (schedule : List Side) (m : Interleaving g σ τ) :
    (passedBy threads side (schedule ++ [side]) m).length =
      (passedBy threads side schedule m).length +
        (if (run threads schedule m).kind? side = some (.storeIndex side) then 1 else 0) := by
  simp only [passedBy_append, List.length_append, passedBy, List.append_nil, passed, true_and]
  split <;> rfl

theorem passedBy_other {turn side : Side} (h : turn ≠ side) (schedule : List Side)
    (m : Interleaving g σ τ) :
    passedBy threads side (schedule ++ [turn]) m = passedBy threads side schedule m := by
  simp only [passedBy_append, passedBy, passed, h, false_and, if_false, List.append_nil]

end Interleaving

namespace Attending

open Interleaving

abbrev ProducerAttendant := Attendant Producer Producer.Op Producer.Answer

abbrev ConsumerAttendant := Attendant Consumer Consumer.Op Consumer.Answer

def threads (g : Geometry)
    (produce : List (Task Producer.Op × Told Producer.Answer) → Option (Task Producer.Op))
    (consume : List (Task Consumer.Op × Told Consumer.Answer) → Option (Task Consumer.Op)) :
    Threads ProducerAttendant ConsumerAttendant where
  producer := Worker.next (attend g fun p op => p.perform g op) produce
  consumer := Worker.next (attend g fun c op => c.perform g op) consume

def start (s : Session g) : Interleaving g ProducerAttendant ConsumerAttendant :=
  .start s.ring ⟨s.producer, []⟩ ⟨s.consumer, []⟩

/-- The true number of items that are published and not freed: those of the
session before and those that the two sides passed on in a schedule since. -/
def level (trace : List (Session.Answer × List Event))
    (ts : Threads ProducerAttendant ConsumerAttendant)
    (m : Interleaving g ProducerAttendant ConsumerAttendant) (schedule : List Side) : Nat :=
  Session.published trace + (passedBy ts .producer schedule m).length -
    (Session.freed trace + (passedBy ts .consumer schedule m).length)

/-- At some instant of the schedule the half was inside the call that follows
on `record`, and `k` was the true number of items. -/
def Instant {H O A : Type}
    (half : Interleaving g ProducerAttendant ConsumerAttendant → Thread (Attendant H O A))
    (trace : List (Session.Answer × List Event))
    (ts : Threads ProducerAttendant ConsumerAttendant)
    (m : Interleaving g ProducerAttendant ConsumerAttendant) (schedule : List Side)
    (record : List (Task O × Told A)) (k : Nat) : Prop :=
  ∃ within, within <+: schedule ∧ (half (run ts within m)).pending.isSome ∧
    (half (run ts within m)).state.record = record ∧ level trace ts m within = k

variable {trace : List (Session.Answer × List Event)}
variable {produce : List (Task Producer.Op × Told Producer.Answer) → Option (Task Producer.Op)}
variable {consume : List (Task Consumer.Op × Told Consumer.Answer) → Option (Task Consumer.Op)}
variable {m : Interleaving g ProducerAttendant ConsumerAttendant} {schedule : List Side}
variable {b : Ledger g}

theorem instant_mono {H O A : Type}
    {half : Interleaving g ProducerAttendant ConsumerAttendant → Thread (Attendant H O A)}
    {ts : Threads ProducerAttendant ConsumerAttendant} {later : List Side}
    (h : schedule <+: later) (record : List (Task O × Told A)) (k : Nat)
    (hk : Instant half trace ts m schedule record k) : Instant half trace ts m later record k := by
  obtain ⟨within, hw, hinside⟩ := hk
  exact ⟨within, hw.trans h, hinside⟩

structure Attended (trace : List (Session.Answer × List Event))
    (ts : Threads ProducerAttendant ConsumerAttendant)
    (m : Interleaving g ProducerAttendant ConsumerAttendant) (schedule : List Side)
    (b : Ledger g) : Prop where
  ring : (run ts schedule m).ring = b.ring
  valid : b.Valid
  published : b.published =
    Session.published trace + (passedBy ts .producer schedule m).length
  freed : b.freed = Session.freed trace + (passedBy ts .consumer schedule m).length
  producer : (Producer.conduct g).Timed (Instant Interleaving.producer trace ts m schedule) b
    (run ts schedule m).producer
  consumer : (Consumer.conduct g).Timed (Instant Interleaving.consumer trace ts m schedule) b
    (run ts schedule m).consumer

theorem level_eq {ts : Threads ProducerAttendant ConsumerAttendant}
    (hp : b.published = Session.published trace + (passedBy ts .producer schedule m).length)
    (hf : b.freed = Session.freed trace + (passedBy ts .consumer schedule m).length) :
    level trace ts m schedule = b.size := by
  rw [level, ← hp, ← hf]
  rfl

theorem instant_now {H O A : Type}
    (half : Interleaving g ProducerAttendant ConsumerAttendant → Thread (Attendant H O A))
    {ts : Threads ProducerAttendant ConsumerAttendant}
    (hp : b.published = Session.published trace + (passedBy ts .producer schedule m).length)
    (hf : b.freed = Session.freed trace + (passedBy ts .consumer schedule m).length)
    (h : (half (run ts schedule m)).pending.isSome) :
    Instant half trace ts m schedule (half (run ts schedule m)).state.record b.size :=
  ⟨schedule, List.prefix_refl _, h, rfl, level_eq hp hf⟩

theorem attended_producer (h : Attended trace (threads g produce consume) m schedule b) :
    ∃ b', Attended trace (threads g produce consume) m (schedule ++ [.producer]) b' := by
  obtain ⟨b', hm, hring, hcount, htimed⟩ := Conduct.timed_own produce h.producer h.valid
  have hrun := run_append (threads g produce consume) schedule [.producer] m
  have hproducer : (run (threads g produce consume) (schedule ++ [.producer]) m).producer =
      ((run (threads g produce consume) schedule m).producer.turn
        ((Producer.conduct g).next produce) b.ring).1 := by
    rw [hrun, ← h.ring]
    rfl
  have hconsumer : (run (threads g produce consume) (schedule ++ [.producer]) m).consumer =
      (run (threads g produce consume) schedule m).consumer := by
    rw [hrun]
    rfl
  have hp : b'.published = Session.published trace +
      (passedBy (threads g produce consume) .producer (schedule ++ [.producer]) m).length := by
    rw [length_passedBy_own, ← Nat.add_assoc, ← h.published]
    exact hcount
  have hf : b'.freed = Session.freed trace +
      (passedBy (threads g produce consume) .consumer (schedule ++ [.producer]) m).length := by
    rw [passedBy_other _ (show Side.producer ≠ .consumer by decide), ← h.freed]
    exact Ledger.counter_fixed hm
  have hstep : b'.published ≤ b.published + 1 := by
    rw [hp, length_passedBy_own, h.published]
    split <;> omega
  have hmono := List.prefix_append schedule [.producer]
  refine ⟨b', ?_, hm.1, hp, hf, ?_, ?_⟩
  · rw [hrun, ← hring, ← h.ring]
    rfl
  · rw [hproducer]
    apply htimed _ (instant_mono hmono)
    rw [← hproducer]
    exact instant_now Interleaving.producer hp hf
  · rw [hconsumer]
    apply Conduct.timed_other h.consumer hm hstep (instant_mono hmono)
    rw [← hconsumer]
    exact instant_now Interleaving.consumer hp hf

theorem attended_consumer (h : Attended trace (threads g produce consume) m schedule b) :
    ∃ b', Attended trace (threads g produce consume) m (schedule ++ [.consumer]) b' := by
  obtain ⟨b', hm, hring, hcount, htimed⟩ := Conduct.timed_own consume h.consumer h.valid
  have hrun := run_append (threads g produce consume) schedule [.consumer] m
  have hproducer : (run (threads g produce consume) (schedule ++ [.consumer]) m).producer =
      (run (threads g produce consume) schedule m).producer := by
    rw [hrun]
    rfl
  have hconsumer : (run (threads g produce consume) (schedule ++ [.consumer]) m).consumer =
      ((run (threads g produce consume) schedule m).consumer.turn
        ((Consumer.conduct g).next consume) b.ring).1 := by
    rw [hrun, ← h.ring]
    rfl
  have hp : b'.published = Session.published trace +
      (passedBy (threads g produce consume) .producer (schedule ++ [.consumer]) m).length := by
    rw [passedBy_other _ (show Side.consumer ≠ .producer by decide), ← h.published]
    exact Ledger.counter_fixed hm
  have hf : b'.freed = Session.freed trace +
      (passedBy (threads g produce consume) .consumer (schedule ++ [.consumer]) m).length := by
    rw [length_passedBy_own, ← Nat.add_assoc, ← h.freed]
    exact hcount
  have hstep : b'.freed ≤ b.freed + 1 := by
    rw [hf, length_passedBy_own, h.freed]
    split <;> omega
  have hmono := List.prefix_append schedule [.consumer]
  refine ⟨b', ?_, hm.1, hp, hf, ?_, ?_⟩
  · rw [hrun, ← hring, ← h.ring]
    rfl
  · rw [hproducer]
    apply Conduct.timed_other h.producer hm hstep (instant_mono hmono)
    rw [← hproducer]
    exact instant_now Interleaving.producer hp hf
  · rw [hconsumer]
    apply htimed _ (instant_mono hmono)
    rw [← hconsumer]
    exact instant_now Interleaving.consumer hp hf

theorem attended_run (later : List Side)
    (h : Attended trace (threads g produce consume) m schedule b) :
    ∃ b', Attended trace (threads g produce consume) m (schedule ++ later) b' := by
  induction later generalizing schedule b with
  | nil =>
    rw [List.append_nil]
    exact ⟨b, h⟩
  | cons side later ih =>
    have hturn : ∃ b', Attended trace (threads g produce consume) m (schedule ++ [side]) b' := by
      cases side with
      | producer => exact attended_producer h
      | consumer => exact attended_consumer h
    obtain ⟨b', hb⟩ := hturn
    rw [List.append_cons]
    exact ih hb

theorem attended_start {s : Session g} {a : Account g} (h : s.Tracks a)
    (hp : a.ledger.published = Session.published trace)
    (hf : a.ledger.freed = Session.freed trace) :
    Attended trace (threads g produce consume) (start s) [] a.ledger where
  ring := h.ring
  valid := h.valid
  published := hp
  freed := hf
  producer := Conduct.timed_start h.producer
  consumer := Conduct.timed_start h.consumer

end Attending

end SlotRing
