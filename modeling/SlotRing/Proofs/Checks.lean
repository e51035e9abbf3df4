import SlotRing.Proofs.Bounds

/-!
# Checks that hold

Sessions and workers never leave the indices of slots, so the only check that
fails is the first one of a push whose item no slot can hold (`run_inBounds`).
Nothing is asked of the order of turns, nor of what the other side stores: that
it stores indices of slots is enough.
-/

set_option autoImplicit false

namespace SlotRing

open Access Interleaving

namespace Ring

variable {g : Geometry} {line : Padding.Line} {storage : Storage} {itemSize : UInt64}
variable {r : Ring g} {e : Event}

theorem ofSizes_of_construct (h : construct line storage itemSize = (.ok ⟨g, r⟩, e)) :
    Geometry.ofSizes storage.length itemSize = .ok g := by
  simp only [construct] at h
  split at h
  · cases h
  · cases h
    assumption

theorem itemSize_of_construct (h : construct line storage itemSize = (.ok ⟨g, r⟩, e)) :
    g.itemSize = itemSize :=
  Geometry.itemSize_of_ofSizes (ofSizes_of_construct h)

theorem below_of_construct (h : construct line storage itemSize = (.ok ⟨g, r⟩, e)) : r.Below := by
  rw [(construct_ok h).2]
  exact ⟨g.place_lt _, g.place_lt _⟩

end Ring

/-! ## Sessions -/

namespace Session

variable {g : Geometry} {build : Build} {s : Session g} {op : Op}

structure Below (s : Session g) : Prop where
  ring : s.ring.Below
  producer : s.producer.Below g
  consumer : s.consumer.Below g

def excess (s : Session g) : Op → Option Nat
  | .produce op => s.producer.excess g op
  | .consume _ | .resplit => none

def touches (build : Build) (s : Session g) : Op → List Touch
  | .produce op => (s.producer.perform g op).touches build s.ring
  | .consume op => (s.consumer.perform g op).touches build s.ring
  | .resplit => (closing s.producer s.consumer g).touches build s.ring

theorem below_split {r : Ring g} (h : r.Below) : (split r).Below where
  ring := h
  producer := ⟨h.readIndex, nofun⟩
  consumer := ⟨h.writeIndex, nofun⟩

theorem bounded_closing {p : Producer} {c : Consumer} (hp : p.Below g) (hc : c.Below g) :
    (closing p c g).Bounded g fun _ => True := by
  apply bounded_bind (Producer.bounded_finish hp)
  intro _ _
  exact bounded_bind (Consumer.bounded_finish hc) fun _ _ => trivial

theorem below_close (h : s.Below) : (s.close build).1.Below :=
  (bounded_run (bounded_closing h.producer h.consumer) h.ring).2.1

theorem step_excess {length : Nat} (h : s.excess op = some length) :
    s.step .release op = ⟨s, [.pushOversized length g.slotSize],
        .produced (.refused (.oversized length g.slotSize))⟩ ∧
      s.step .checked op = ⟨s, [], .faulted (.oversizedItem length g.slotSize)⟩ := by
  cases op with
  | produce op =>
    have hperform := Producer.perform_excess h
    simp only [step, hperform]
    exact ⟨rfl, rfl⟩
  | consume _ | resplit => cases h

theorem touches_excess {length : Nat} (h : s.excess op = some length) :
    s.touches build op = [.check false (.oversizedItem length g.slotSize)] := by
  cases op with
  | produce op =>
    simp only [touches, Producer.perform_excess h]
    cases build <;> rfl
  | consume _ | resplit => cases h

def Answer.Within (g : Geometry) : Answer → Prop
  | .produced answer => answer.Within
  | .consumed answer => answer.Within g
  | .resplit => True
  | .faulted _ => False

theorem sound_step (h : s.Below) (he : s.excess op = none) :
    (∀ t ∈ s.touches build op, t.Sound g) ∧ (s.step build op).session.Below ∧
      (s.step build op).answer.Within g := by
  cases op with
  | produce op =>
    obtain ⟨ht, hr, found, hresult, hp, hw⟩ :=
      @bounded_run _ g build _ _ _ (Producer.bounded_perform he h.producer) h.ring
    refine ⟨ht, ?_⟩
    simp only [step]
    generalize (s.producer.perform g op).run build s.ring = o at *
    obtain ⟨ring, events, result⟩ := o
    cases hresult
    exact ⟨⟨hr, hp, h.consumer⟩, hw⟩
  | consume op =>
    obtain ⟨ht, hr, found, hresult, hc, hw⟩ :=
      @bounded_run _ g build _ _ _ (@Consumer.bounded_perform _ _ op h.consumer) h.ring
    refine ⟨ht, ?_⟩
    simp only [step]
    generalize (s.consumer.perform g op).run build s.ring = o at *
    obtain ⟨ring, events, result⟩ := o
    cases hresult
    exact ⟨⟨hr, h.producer, hc⟩, hw⟩
  | resplit =>
    have hrun := @bounded_run _ g build _ _ _ (bounded_closing h.producer h.consumer) h.ring
    exact ⟨hrun.1, below_split hrun.2.1, trivial⟩

theorem below_step (h : s.Below) : (s.step build op).session.Below := by
  cases he : s.excess op with
  | none => exact (sound_step h he).2.1
  | some length =>
    cases build with
    | release => rwa [(step_excess he).1]
    | checked => rwa [(step_excess he).2]

theorem below_run (ops : List Op) (h : s.Below) : (run build ops s).1.Below := by
  induction ops generalizing s with
  | nil => exact h
  | cons op ops ih => exact ih (below_step h)

structure InBounds (build : Build) (s : Session g) : Prop where
  below : s.Below
  sound : ∀ op, s.excess op = none →
    (∀ t ∈ s.touches build op, t.Sound g) ∧ (s.step build op).answer.Within g
  excess : ∀ op length, s.excess op = some length →
    s.touches build op = [.check false (.oversizedItem length g.slotSize)]
  observed : (∀ t ∈ (Observer.observe g).touches build s.ring, t.Sound g) ∧
    ∃ seen, Observer.see build s.ring = .ok seen

theorem inBounds_of_below (h : s.Below) : s.InBounds build where
  below := h
  sound op he := ⟨(sound_step h he).1, (sound_step h he).2.2⟩
  excess _ _ he := touches_excess he
  observed := by
    obtain ⟨ht, -, seen, hresult, -⟩ :=
      @bounded_run _ g build _ _ _ Observer.bounded_observe h.ring
    exact ⟨ht, seen, hresult⟩

end Session

/-! ## Workers -/

namespace Thread

variable {g : Geometry} {σ : Type} {r : Ring g} {next : σ → Option (Access σ)}

def touch? (t : Thread σ) (r : Ring g) : Option Touch := t.pending.bind fun p => p.touch? r

/-- An operation is bounded, but for a first check that is known to fail. -/
def Bounded (g : Geometry) (post : σ → Prop) (fails : Fault → Prop) (p : Access σ) : Prop :=
  p.Bounded g post ∨
    ∃ fault k, p = .require false fault k ∧ fails fault ∧ (k ()).Bounded g post

structure Restrained (g : Geometry) (inv : σ → Prop) (fails : σ → Fault → Prop) (t : Thread σ) :
    Prop where
  state : inv t.state
  pending : ∀ p ∈ t.pending, Bounded g inv (fails t.state) p

variable {inv : σ → Prop} {fails : σ → Fault → Prop} {t : Thread σ}

theorem sound_touch? (h : t.Restrained g inv fails) (hr : r.Below) :
    ∀ touch ∈ t.touch? r,
      touch.Sound g ∨ ∃ fault, fails t.state fault ∧ touch = .check false fault := by
  obtain ⟨s, _ | p⟩ := t
  · exact nofun
  · intro touch ht
    rcases h.pending p rfl with hp | ⟨fault, k, rfl, hf, -⟩
    · exact .inl ((bounded_step hp hr).1 touch ht)
    · exact .inr ⟨fault, hf, (Option.some.inj ht).symm⟩

theorem restrained_turn (hnext : ∀ s, inv s → ∀ p ∈ next s, Bounded g inv (fails s) p)
    (h : t.Restrained g inv fails) (hr : r.Below) :
    (t.turn next r).1.Restrained g inv fails ∧ (t.turn next r).2.Below := by
  obtain ⟨s, _ | p⟩ := t
  · exact ⟨⟨h.state, hnext s h.state⟩, hr⟩
  · have hkeep (p' : Access σ) (hp' : p'.Bounded g inv) :
        (⟨s, some p'⟩ : Thread σ).Restrained g inv fails :=
      ⟨h.state, fun _ hp => .inl (Option.some.inj hp ▸ hp')⟩
    rcases h.pending p rfl with hp | ⟨fault, k, rfl, hf, hk⟩
    · have hstep := bounded_step hp hr
      cases p with
      | done s' => exact ⟨⟨hp, nofun⟩, hr⟩
      | loadIndex _ _ | storeIndex _ _ _ | loadByte _ _ | storeByte _ _ _ | log _ _
      | require _ _ _ => exact ⟨hkeep _ hstep.2.1, hstep.2.2⟩
    · exact ⟨hkeep _ hk, hr⟩

end Thread

namespace Workers

variable {g : Geometry} {produce : List (Producer.Op × Producer.Answer) → Option Producer.Op}
variable {consume : List (Consumer.Op × Consumer.Answer) → Option Consumer.Op}
variable {m : Interleaving g ProducerWorker ConsumerWorker}

def excess (g : Geometry) (produce : List (Producer.Op × Producer.Answer) → Option Producer.Op)
    (w : ProducerWorker) : Option Nat :=
  (produce w.record).bind fun op => w.half.excess g op

def Exceeds (g : Geometry) (produce : List (Producer.Op × Producer.Answer) → Option Producer.Op)
    (w : ProducerWorker) (fault : Fault) : Prop :=
  ∃ length, excess g produce w = some length ∧ fault = .oversizedItem length g.slotSize

structure InBounds (produce : List (Producer.Op × Producer.Answer) → Option Producer.Op)
    (m : Interleaving g ProducerWorker ConsumerWorker) : Prop where
  ring : m.ring.Below
  producer : m.producer.state.half.Below g
  consumer : m.consumer.state.half.Below g
  produces : ∀ touch ∈ m.producer.touch? m.ring, touch.Sound g ∨
    ∃ length, excess g produce m.producer.state = some length ∧
      touch = .check false (.oversizedItem length g.slotSize)
  consumes : ∀ touch ∈ m.consumer.touch? m.ring, touch.Sound g

structure Restrained (produce : List (Producer.Op × Producer.Answer) → Option Producer.Op)
    (m : Interleaving g ProducerWorker ConsumerWorker) : Prop where
  ring : m.ring.Below
  producer : m.producer.Restrained g (fun w => w.half.Below g) (Exceeds g produce)
  consumer : m.consumer.Restrained g (fun w => w.half.Below g) fun _ _ => False

theorem bounded_produce (w : ProducerWorker) (hp : w.half.Below g) :
    ∀ p ∈ (threads g produce consume).producer w,
      Thread.Bounded g (fun w => w.half.Below g) (Exceeds g produce w) p := by
  intro p hnext
  obtain ⟨op, hop, rfl⟩ := Option.map_eq_some_iff.mp hnext
  cases he : w.half.excess g op with
  | none =>
    exact .inl (bounded_bind (Producer.bounded_perform he hp) fun _ h => h.1)
  | some length =>
    have hexcess : excess g produce w = some length := by rw [excess, hop, Option.bind_some, he]
    simp only [Producer.perform_excess he]
    exact .inr ⟨_, _, rfl, ⟨length, hexcess, rfl⟩, hp⟩

theorem bounded_consume (w : ConsumerWorker) (hc : w.half.Below g) :
    ∀ p ∈ (threads g produce consume).consumer w,
      Thread.Bounded g (fun w => w.half.Below g) (fun _ => False) p := by
  intro p hnext
  obtain ⟨op, -, rfl⟩ := Option.map_eq_some_iff.mp hnext
  exact .inl (bounded_bind (Consumer.bounded_perform hc) fun _ h => h.1)

theorem restrained_start {r : Ring g} (h : r.Below) : Restrained produce (start r) where
  ring := h
  producer := ⟨(Session.below_split h).producer, nofun⟩
  consumer := ⟨(Session.below_split h).consumer, nofun⟩

theorem restrained_turn (side : Side) (h : Restrained produce m) :
    Restrained produce (m.turn (threads g produce consume) side) := by
  cases side with
  | producer =>
    have hturn := Thread.restrained_turn (@bounded_produce g produce consume) h.producer h.ring
    exact ⟨hturn.2, hturn.1, h.consumer⟩
  | consumer =>
    have hturn := Thread.restrained_turn (@bounded_consume g produce consume) h.consumer h.ring
    exact ⟨hturn.2, h.producer, hturn.1⟩

theorem restrained_run (schedule : List Side) (h : Restrained produce m) :
    Restrained produce (run (threads g produce consume) schedule m) := by
  induction schedule generalizing m with
  | nil => exact h
  | cons side schedule ih => exact ih (restrained_turn side h)

theorem inBounds_of_restrained (h : Restrained produce m) : InBounds produce m where
  ring := h.ring
  producer := h.producer.state
  consumer := h.consumer.state
  produces touch ht := by
    rcases Thread.sound_touch? h.producer h.ring touch ht with hs | ⟨_, ⟨length, he, rfl⟩, rfl⟩
    · exact .inl hs
    · exact .inr ⟨length, he, rfl⟩
  consumes touch ht := by
    rcases Thread.sound_touch? h.consumer h.ring touch ht with hs | ⟨_, hfalse, _⟩
    · exact hs
    · exact hfalse.elim

/-- On a ring that is accepted, the machine arithmetic is exact, and no check
but the first one of too long a push fails: in a session, with an observer that
loads any indices of slots, and wherever two workers are. -/
theorem run_inBounds {line : Padding.Line} {storage : Storage} {itemSize : UInt64} {r : Ring g}
    {e : Event} (h : Ring.construct line storage itemSize = (.ok ⟨g, r⟩, e)) :
    g.storageLen.toNat = storage.size ∧ g.itemSize = itemSize ∧ g.Exact ∧
      (Observer.observe g).Bounded g (fun _ => True) ∧
      (∀ build ops, (Session.run build ops (Session.split r)).1.InBounds build) ∧
      ∀ build earlier produce consume schedule,
        let left := ((Session.run build earlier (Session.split r)).1.close build).1
        InBounds produce (run (threads g produce consume) schedule (start left)) := by
  have hbelow := Session.below_split (Ring.below_of_construct h)
  refine ⟨?_, Ring.itemSize_of_construct h, g.exact, Observer.bounded_observe, ?_, ?_⟩
  · rw [← (Ring.construct_ok h).1, r.fits]
  · exact fun build ops => Session.inBounds_of_below (Session.below_run ops hbelow)
  · intro build earlier produce consume schedule left
    have hleft : left.Below := Session.below_close (Session.below_run earlier hbelow)
    exact inBounds_of_restrained (restrained_run schedule (restrained_start hleft))

/-- Three slots of two bytes. A session refuses a push of three bytes by its
first check; on the ring it leaves, a worker is at that check while the other
one loads the last byte of the last slot. -/
theorem run_inBounds_three_slots :
    ∃ (g : Geometry) (r : Ring g) (e : Event),
      Ring.construct .line64 ⟨#[1, 2, 3, 4, 5, 6, 7], by decide⟩ 2 = (.ok ⟨g, r⟩, e) ∧
      let earlier := [.produce (.push [9]), .produce (.push [8]), .consume (.pop [0]),
        .produce .draft]
      let s := (Session.run .checked earlier (Session.split r)).1
      let afterwards := (s.step .checked (.produce (.finish .discard))).session
      let left := (s.close .checked).1
      let produce := fun record => [.push [7, 7, 7]][record.length]?
      let consume := fun record => [.pop [0], .borrow][record.length]?
      let m := run (threads g produce consume)
        (.producer :: List.replicate 13 .consumer) (start left)
      afterwards.excess (.produce (.push [3, 3, 3])) = some 3 ∧
        afterwards.touches .checked (.produce (.push [3, 3, 3])) =
          [.check false (.oversizedItem 3 2)] ∧
        m.producer.touch? m.ring = some (.check false (.oversizedItem 3 2)) ∧
        m.consumer.touch? m.ring = some (.byte 5) ∧
        g.Exact ∧ afterwards.InBounds .checked ∧ InBounds produce m := by
  refine ⟨_, _, _, rfl, ?_⟩
  intro earlier s afterwards left produce consume m
  obtain ⟨-, -, hexact, -, hsession, hworkers⟩ :=
    @run_inBounds _ .line64 ⟨#[1, 2, 3, 4, 5, 6, 7], by decide⟩ 2 _ _ rfl
  have hrun := hsession .checked (earlier ++ [.produce (.finish .discard)])
  rw [Session.run_append] at hrun
  exact ⟨by decide +kernel, by decide +kernel, by decide +kernel, by decide +kernel, hexact, hrun,
    hworkers .checked earlier produce consume _⟩

end Workers

end SlotRing
