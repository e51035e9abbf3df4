import SlotRing.Proofs.Lookup
import SlotRing.Proofs.Accounts

/-!
# Halves without copies

A plain half loads the other side's index every time it looks for a slot. The
operations are otherwise those of the halves: `pushBy`, `takeBy` and
`performBy` have the way to find a slot as a parameter, and with the claim or
the location of a half they are its own operations. No answer, no event and no
byte tells a session from a plain one (`run_plain`), so a copy may as well be
renewed at any time.
-/

set_option autoImplicit false

namespace SlotRing

open Access

variable {g : Geometry}

/-! ## Plain halves -/

namespace Producer

def pushBy (claim : Access (Producer × Option Draft)) (p : Producer) (g : Geometry)
    (item : List UInt8) : Access (Producer × Except PushRefusal Unit) := do
  demand (item.length ≤ g.slotSize) (.oversizedItem item.length g.slotSize)
  if g.slotSize < item.length then
    report (.pushOversized item.length g.slotSize)
    pure (p, .error (.oversized item.length g.slotSize))
  else
    match ← claim with
    | (p, none) => pure (p, .error .full)
    | (p, some d) =>
      g.storeFront d.index item
      store .producer d.next
      pure (p, .ok ())

/-- Performs an operation, which looks for a slot as `claim` does if it needs one. -/
def performBy (claim : Access (Producer × Option Draft)) (p : Producer) (g : Geometry) (op : Op) :
    Access (Producer × Answer) :=
  match p.draft, op with
  | none, .push item => do
    match ← p.pushBy claim g item with
    | (p, .ok _) => pure (p, .pushed)
    | (p, .error why) => pure (p, .refused why)
  | none, .draft => do
    match ← claim with
    | (p, none) => pure (p, .full)
    | (p, some d) =>
      let bytes ← g.loadSlot d.index
      pure ({ p with draft := some d }, .drafted d.index bytes)
  | _, op => p.perform g op

theorem performBy_claim (p : Producer) (g : Geometry) (op : Op) :
    p.performBy (p.claim g) g op = p.perform g op := by
  cases hd : p.draft with
  | none => cases op <;> simp only [performBy, perform, hd] <;> rfl
  | some d => simp only [performBy, hd]

def claimPlain (p : Producer) (g : Geometry) : Access (Producer × Option Draft) := do
  let index ← load .producer
  let next ← g.advance index
  let read ← load .consumer
  pure ({ p with cachedRead := read }, if next = read then none else some ⟨index, next⟩)

def performPlain (p : Producer) (g : Geometry) (op : Op) : Access (Producer × Answer) :=
  p.performBy (p.claimPlain g) g op

end Producer

namespace Consumer

def takeBy (locate : Access (Consumer × Option Loan)) (g : Geometry) (room : Nat) :
    Access (Consumer × Option (List UInt8)) := do
  match ← locate with
  | (c, none) => pure (c, none)
  | (c, some l) =>
    let bytes ← g.loadFront l.index (min room g.slotSize)
    let next ← g.advance l.index
    store .consumer next
    pure (c, some bytes)

def performBy (locate : Access (Consumer × Option Loan)) (c : Consumer) (g : Geometry) (op : Op) :
    Access (Consumer × Answer) :=
  match c.loan, op with
  | none, .pop dest => do
    match ← takeBy locate g dest.length with
    | (c, none) => pure (c, .popped none dest)
    | (c, some bytes) => pure (c, .popped (some bytes.length) (bytes ++ dest.drop bytes.length))
  | none, .borrow => do
    match ← locate with
    | (c, none) => pure (c, .empty)
    | (c, some l) =>
      let bytes ← g.loadSlot l.index
      pure ({ c with loan := some l }, .lent l.index bytes)
  | _, op => c.perform g op

theorem performBy_locate (c : Consumer) (g : Geometry) (op : Op) :
    c.performBy c.locate g op = c.perform g op := by
  cases hl : c.loan with
  | none => cases op <;> simp only [performBy, perform, hl] <;> rfl
  | some l => simp only [performBy, hl]

def locatePlain (c : Consumer) : Access (Consumer × Option Loan) := do
  let index ← load .consumer
  let write ← load .producer
  pure ({ c with cachedWrite := write }, if index = write then none else some ⟨index⟩)

def performPlain (c : Consumer) (g : Geometry) (op : Op) : Access (Consumer × Answer) :=
  c.performBy c.locatePlain g op

end Consumer

/-! ## Programs that look the same -/

namespace Access

variable {α α' β β' γ δ : Type} {build : Build} {r : Ring g}

def Outcome.seen (view : α → γ) (o : Outcome g α) : Outcome g γ :=
  ⟨o.ring, o.events, o.result.map view⟩

def Alike (build : Build) (r : Ring g) (view : α → γ) (view' : α' → γ) (p : Access α)
    (p' : Access α') : Prop :=
  (p.run build r).seen view = (p'.run build r).seen view'

theorem alike_pure {view : α → γ} {view' : α' → γ} {a : α} {a' : α'} (h : view a = view' a') :
    Alike build r view view' (pure a) (pure a') := by
  simp [Alike, Outcome.seen, pure, run, Except.map, h]

theorem alike_bind {view : α → γ} {view' : α' → γ} {look : β → δ} {look' : β' → δ}
    {p : Access α} {p' : Access α'} {f : α → Access β} {f' : α' → Access β'}
    (h : Alike build r view view' p p')
    (hf : ∀ a a' r', view a = view' a' → Alike (g := g) build r' look look' (f a) (f' a')) :
    Alike build r look look' (p >>= f) (p' >>= f') := by
  simp only [Alike, run_bind]
  simp only [Alike, Outcome.seen, Outcome.mk.injEq] at h
  generalize p.run build r = o at h ⊢
  generalize p'.run build r = o' at h ⊢
  obtain ⟨ring, events, result⟩ := o
  obtain ⟨ring', events', result'⟩ := o'
  obtain ⟨rfl, rfl, hr⟩ := h
  cases result with
  | error fault =>
    cases result' with
    | error fault' =>
      simp only [Except.map, Except.error.injEq] at hr
      simp [Outcome.seen, Except.map, hr]
    | ok a' => simp [Except.map] at hr
  | ok a =>
    cases result' with
    | error fault' => simp [Except.map] at hr
    | ok a' =>
      simp only [Except.map, Except.ok.injEq] at hr
      have hrest := hf a a' ring hr
      simp only [Alike, Outcome.seen, Outcome.mk.injEq] at hrest ⊢
      simp [hrest]

theorem alike_demand {look : β → δ} {look' : β' → δ} {holds : Bool} {fault : Fault}
    {f : Unit → Access β} {f' : Unit → Access β'} (hf : Alike build r look look' (f ()) (f' ())) :
    Alike build r look look' (demand holds fault >>= f) (demand holds fault >>= f') := by
  by_cases hp : passes build holds <;>
    simp_all [Alike, demand, Bind.bind, Access.bind, run, Outcome.seen, Except.map]

theorem alike_after {look : β → δ} {look' : β' → δ} {p : Access α} {f : α → Access β}
    {f' : α → Access β'}
    (hf : ∀ a r', Alike (g := g) build r' look look' (f a) (f' a)) :
    Alike build r look look' (p >>= f) (p >>= f') := by
  have hp : Alike build r id id p p := rfl
  apply alike_bind hp
  intro a a' r' h
  obtain rfl : a = a' := h
  exact hf a r'

end Access

/-! ## Operations of alike halves -/

namespace Producer

variable {build : Build} {r : Ring g} {p p' : Producer}
variable {claim claim' : Access (Producer × Option Draft)}

/-- What is seen of a producer and an answer: not its copy. -/
def shown {A : Type} (x : Producer × A) : Option Draft × A := (x.1.draft, x.2)

theorem shown_eq_iff {A : Type} {a a' : A} :
    shown (p, a) = shown (p', a') ↔ p.draft = p'.draft ∧ a = a' := by
  simp [shown]

theorem alike_finish (how : Draft.Ending) (hd : p.draft = p'.draft) :
    Alike build r draft draft (p.finish how) (p'.finish how) := by
  cases h : p.draft with
  | none =>
    simp only [finish, ← hd, h]
    exact alike_pure hd
  | some d =>
    simp only [finish, ← hd, h]
    exact alike_after fun _ _ => alike_pure rfl

theorem alike_settle (d : Draft) (stored : Bool) (hd : p.draft = p'.draft) :
    Alike build r shown shown (p.settle g d stored) (p'.settle g d stored) := by
  cases stored with
  | true => exact alike_after fun _ _ => alike_pure (shown_eq_iff.mpr ⟨hd, rfl⟩)
  | false =>
    apply alike_bind (alike_finish .unwind hd)
    intro _ _ _ h
    exact alike_pure (shown_eq_iff.mpr ⟨h, rfl⟩)

theorem alike_performHolding (d : Draft) (op : Op) (hd : p.draft = p'.draft) :
    Alike build r shown shown (p.performHolding g d op) (p'.performHolding g d op) := by
  cases op with
  | push _ | draft => exact alike_pure (shown_eq_iff.mpr ⟨hd, rfl⟩)
  | contents => exact alike_after fun _ _ => alike_pure (shown_eq_iff.mpr ⟨hd, rfl⟩)
  | store _ _ => exact alike_after fun stored _ => alike_settle d stored hd
  | fill _ => exact alike_after fun _ _ => alike_settle d true hd
  | overwrite bytes =>
    by_cases hl : bytes.length = g.slotSize
    · simp only [performHolding, if_pos hl]
      exact alike_after fun _ _ => alike_settle d true hd
    · simp only [performHolding, if_neg hl]
      exact alike_settle d false hd
  | finish how =>
    apply alike_bind (alike_finish how hd)
    intro _ _ _ h
    exact alike_pure (shown_eq_iff.mpr ⟨h, rfl⟩)

theorem alike_perform (op : Op) (hd : p.draft = p'.draft)
    (hop : p.draft = none → op ≠ .draft ∧ ∀ item, op ≠ .push item) :
    Alike build r shown shown (p.perform g op) (p'.perform g op) := by
  cases h : p.draft with
  | none =>
    obtain ⟨hdraft, hpush⟩ := hop h
    simp only [perform, ← hd, h]
    cases op with
    | push item => exact absurd rfl (hpush item)
    | draft => exact absurd rfl hdraft
    | contents | store _ _ | fill _ | overwrite _ | finish _ =>
      exact alike_pure (shown_eq_iff.mpr ⟨hd, rfl⟩)
  | some d =>
    simp only [perform, ← hd, h]
    exact alike_performHolding d op hd

theorem alike_pushBy (item : List UInt8) (hd : p.draft = p'.draft)
    (h : Alike build r shown shown claim claim') :
    Alike build r shown shown (p.pushBy claim g item) (p'.pushBy claim' g item) := by
  apply alike_demand
  by_cases hl : g.slotSize < item.length
  · simp only [if_pos hl]
    exact alike_after fun _ _ => alike_pure (shown_eq_iff.mpr ⟨hd, rfl⟩)
  · simp only [if_neg hl]
    apply alike_bind h
    rintro ⟨q, d⟩ ⟨q', d'⟩ r' hshown
    obtain ⟨hq, rfl⟩ := shown_eq_iff.mp hshown
    cases d with
    | none => exact alike_pure (shown_eq_iff.mpr ⟨hq, rfl⟩)
    | some d =>
      apply alike_after
      intro _ _
      exact alike_after fun _ _ => alike_pure (shown_eq_iff.mpr ⟨hq, rfl⟩)

theorem alike_performBy (op : Op) (hd : p.draft = p'.draft)
    (h : p.draft = none → Alike build r shown shown claim claim') :
    Alike build r shown shown (p.performBy claim g op) (p'.performBy claim' g op) := by
  cases hp : p.draft with
  | some d =>
    simp only [performBy, ← hd, hp]
    exact alike_perform op hd (by simp [hp])
  | none =>
    cases op with
    | push item =>
      simp only [performBy, ← hd, hp]
      apply alike_bind (alike_pushBy item hd (h hp))
      rintro ⟨q, answer⟩ ⟨q', answer'⟩ r' hshown
      obtain ⟨hq, rfl⟩ := shown_eq_iff.mp hshown
      cases answer <;> exact alike_pure (shown_eq_iff.mpr ⟨hq, rfl⟩)
    | draft =>
      simp only [performBy, ← hd, hp]
      apply alike_bind (h hp)
      rintro ⟨q, d⟩ ⟨q', d'⟩ r' hshown
      obtain ⟨hq, rfl⟩ := shown_eq_iff.mp hshown
      cases d with
      | none => exact alike_pure (shown_eq_iff.mpr ⟨hq, rfl⟩)
      | some d => exact alike_after fun _ _ => alike_pure (shown_eq_iff.mpr ⟨rfl, rfl⟩)
    | contents | store _ _ | fill _ | overwrite _ | finish _ =>
      simp only [performBy, ← hd, hp]
      exact alike_perform _ hd (by simp)

end Producer

namespace Consumer

variable {build : Build} {r : Ring g} {c c' : Consumer}
variable {locate locate' : Access (Consumer × Option Loan)}

def shown {A : Type} (x : Consumer × A) : Option Loan × A := (x.1.loan, x.2)

theorem shown_eq_iff {A : Type} {a a' : A} :
    shown (c, a) = shown (c', a') ↔ c.loan = c'.loan ∧ a = a' := by
  simp [shown]

theorem alike_finish (how : Loan.Ending) (hl : c.loan = c'.loan) :
    Alike build r loan loan (c.finish g how) (c'.finish g how) := by
  cases h : c.loan with
  | none =>
    simp only [finish, ← hl, h]
    exact alike_pure hl
  | some l =>
    simp only [finish, ← hl, h]
    exact alike_after fun _ _ => alike_pure rfl

theorem alike_performHolding (l : Loan) (op : Op) (hl : c.loan = c'.loan) :
    Alike build r shown shown (c.performHolding g l op) (c'.performHolding g l op) := by
  cases op with
  | pop _ | borrow => exact alike_pure (shown_eq_iff.mpr ⟨hl, rfl⟩)
  | contents => exact alike_after fun _ _ => alike_pure (shown_eq_iff.mpr ⟨hl, rfl⟩)
  | byteAt position =>
    by_cases hp : position < g.slotSize
    · simp only [performHolding, if_pos hp]
      apply alike_after
      intro _ _
      exact alike_after fun _ _ => alike_pure (shown_eq_iff.mpr ⟨hl, rfl⟩)
    · simp only [performHolding, if_neg hp]
      apply alike_bind (alike_finish .unwind hl)
      intro _ _ _ h
      exact alike_pure (shown_eq_iff.mpr ⟨h, rfl⟩)
  | finish how =>
    apply alike_bind (alike_finish how hl)
    intro _ _ _ h
    exact alike_pure (shown_eq_iff.mpr ⟨h, rfl⟩)

theorem alike_perform (op : Op) (hl : c.loan = c'.loan)
    (hop : c.loan = none → op ≠ .borrow ∧ ∀ dest, op ≠ .pop dest) :
    Alike build r shown shown (c.perform g op) (c'.perform g op) := by
  cases h : c.loan with
  | none =>
    obtain ⟨hborrow, hpop⟩ := hop h
    simp only [perform, ← hl, h]
    cases op with
    | pop dest => exact absurd rfl (hpop dest)
    | borrow => exact absurd rfl hborrow
    | contents | byteAt _ | finish _ => exact alike_pure (shown_eq_iff.mpr ⟨hl, rfl⟩)
  | some l =>
    simp only [perform, ← hl, h]
    exact alike_performHolding l op hl

theorem alike_takeBy (room : Nat) (h : Alike build r shown shown locate locate') :
    Alike build r shown shown (takeBy locate g room) (takeBy locate' g room) := by
  apply alike_bind h
  rintro ⟨d, l⟩ ⟨d', l'⟩ r' hshown
  obtain ⟨hd, rfl⟩ := shown_eq_iff.mp hshown
  cases l with
  | none => exact alike_pure (shown_eq_iff.mpr ⟨hd, rfl⟩)
  | some l =>
    apply alike_after
    intro _ _
    apply alike_after
    intro _ _
    exact alike_after fun _ _ => alike_pure (shown_eq_iff.mpr ⟨hd, rfl⟩)

theorem alike_performBy (op : Op) (hl : c.loan = c'.loan)
    (h : c.loan = none → Alike build r shown shown locate locate') :
    Alike build r shown shown (c.performBy locate g op) (c'.performBy locate' g op) := by
  cases hc : c.loan with
  | some l =>
    simp only [performBy, ← hl, hc]
    exact alike_perform op hl (by simp [hc])
  | none =>
    cases op with
    | pop dest =>
      simp only [performBy, ← hl, hc]
      apply alike_bind (alike_takeBy dest.length (h hc))
      rintro ⟨d, bytes⟩ ⟨d', bytes'⟩ r' hshown
      obtain ⟨hd, rfl⟩ := shown_eq_iff.mp hshown
      cases bytes <;> exact alike_pure (shown_eq_iff.mpr ⟨hd, rfl⟩)
    | borrow =>
      simp only [performBy, ← hl, hc]
      apply alike_bind (h hc)
      rintro ⟨d, l⟩ ⟨d', l'⟩ r' hshown
      obtain ⟨hd, rfl⟩ := shown_eq_iff.mp hshown
      cases l with
      | none => exact alike_pure (shown_eq_iff.mpr ⟨hd, rfl⟩)
      | some l => exact alike_after fun _ _ => alike_pure (shown_eq_iff.mpr ⟨rfl, rfl⟩)
    | contents | byteAt _ | finish _ =>
      simp only [performBy, ← hl, hc]
      exact alike_perform _ hl (by simp)

end Consumer

/-! ## Finding the same slot -/

theorem Producer.run_claimPlain (build : Build) (p : Producer) {b : Ledger g} (hv : b.Valid) :
    (p.claimPlain g).run build b.ring =
      ⟨b.ring, [], .ok ({ p with cachedRead := g.place b.freed }, b.vacant)⟩ := by
  have hfull := Ledger.place_full_iff hv
  rw [claimPlain, run_bind_silent rfl, Ledger.index_ring, Ledger.counter,
    run_bind_silent (run_advance build _ _), run_bind_silent rfl, Ledger.index_ring]
  by_cases hf : b.Full <;> simp [Ledger.counter, Ledger.vacant, hfull, hf, pure, run]

theorem Consumer.run_locatePlain (build : Build) (c : Consumer) {b : Ledger g} (hv : b.Valid) :
    c.locatePlain.run build b.ring =
      ⟨b.ring, [], .ok ({ c with cachedWrite := g.place b.published }, b.waiting)⟩ := by
  have hempty := Ledger.place_empty_iff hv
  rw [locatePlain, run_bind_silent rfl, Ledger.index_ring, Ledger.counter, run_bind_silent rfl,
    Ledger.index_ring]
  by_cases he : b.Empty <;> simp [Ledger.counter, Ledger.waiting, hempty, he, pure, run]

theorem Producer.alike_claimPlain (build : Build) {p p' : Producer} {b : Ledger g} (hv : b.Valid)
    (hp : p.Tracks b) (hd : p.draft = p'.draft) :
    Alike build b.ring shown shown (p.claim g) (p'.claimPlain g) := by
  have hclaim := p.run_claim build hv hp
  simp [Alike, hclaim, p'.run_claimPlain build hv, Outcome.seen, Except.map, shown, hd]

theorem Consumer.alike_locatePlain (build : Build) {c c' : Consumer} {b : Ledger g} (hv : b.Valid)
    (hc : c.Tracks b) (hl : c.loan = c'.loan) :
    Alike build b.ring shown shown c.locate c'.locatePlain := by
  have hlocate := c.run_locate build hv hc
  simp [Alike, hlocate, c'.run_locatePlain build hv, Outcome.seen, Except.map, shown, hl]

/-! ## Sessions -/

namespace Session

def withProducer (s : Session g) (o : Outcome g (Producer × Producer.Answer)) : Effect g :=
  ⟨⟨o.ring, s.producer.after o.result, s.consumer⟩, o.events,
    Account.produced (o.result.map Prod.snd)⟩

def withConsumer (s : Session g) (o : Outcome g (Consumer × Consumer.Answer)) : Effect g :=
  ⟨⟨o.ring, s.producer, s.consumer.after o.result⟩, o.events,
    Account.consumed (o.result.map Prod.snd)⟩

variable {s s' : Session g}

theorem step_produce (build : Build) (s : Session g) (op : Producer.Op) :
    s.step build (.produce op) = s.withProducer ((s.producer.perform g op).run build s.ring) := by
  simp only [step, withProducer]
  generalize (s.producer.perform g op).run build s.ring = o
  obtain ⟨ring, events, _ | ⟨p, answer⟩⟩ := o <;> rfl

theorem step_consume (build : Build) (s : Session g) (op : Consumer.Op) :
    s.step build (.consume op) = s.withConsumer ((s.consumer.perform g op).run build s.ring) := by
  simp only [step, withConsumer]
  generalize (s.consumer.perform g op).run build s.ring = o
  obtain ⟨ring, events, _ | ⟨c, answer⟩⟩ := o <;> rfl

def stepPlain (build : Build) (s : Session g) : Op → Effect g
  | .produce op => s.withProducer ((s.producer.performPlain g op).run build s.ring)
  | .consume op => s.withConsumer ((s.consumer.performPlain g op).run build s.ring)
  | .resplit => s.step build .resplit

def runPlain (build : Build) : List Op → Session g → Session g × List (Answer × List Event)
  | [], s => (s, [])
  | op :: ops, s =>
    let done := s.stepPlain build op
    let rest := runPlain build ops done.session
    (rest.1, (done.answer, done.events) :: rest.2)

/-- Two sessions differ in the copies of their halves at most. -/
structure Resembles (s s' : Session g) : Prop where
  ring : s.ring = s'.ring
  draft : s.producer.draft = s'.producer.draft
  loan : s.consumer.loan = s'.consumer.loan

structure Effect.Resembles (e e' : Effect g) : Prop where
  session : e.session.Resembles e'.session
  events : e.events = e'.events
  answer : e.answer = e'.answer

theorem resembles_withProducer {o o' : Outcome g (Producer × Producer.Answer)}
    (hs : s.Resembles s') (h : o.seen Producer.shown = o'.seen Producer.shown) :
    (s.withProducer o).Resembles (s'.withProducer o') := by
  simp only [Outcome.seen, Outcome.mk.injEq] at h
  obtain ⟨ring, events, result⟩ := o
  obtain ⟨ring', events', result'⟩ := o'
  obtain ⟨rfl, rfl, hr⟩ := h
  cases result <;> cases result' <;> simp [Except.map] at hr
  · exact ⟨⟨rfl, hs.draft, hs.loan⟩, rfl, by simp [withProducer, Except.map, hr]⟩
  · obtain ⟨hd, ha⟩ := Producer.shown_eq_iff.mp hr
    exact ⟨⟨rfl, hd, hs.loan⟩, rfl, by simp [withProducer, Except.map, ha]⟩

theorem resembles_withConsumer {o o' : Outcome g (Consumer × Consumer.Answer)}
    (hs : s.Resembles s') (h : o.seen Consumer.shown = o'.seen Consumer.shown) :
    (s.withConsumer o).Resembles (s'.withConsumer o') := by
  simp only [Outcome.seen, Outcome.mk.injEq] at h
  obtain ⟨ring, events, result⟩ := o
  obtain ⟨ring', events', result'⟩ := o'
  obtain ⟨rfl, rfl, hr⟩ := h
  cases result <;> cases result' <;> simp [Except.map] at hr
  · exact ⟨⟨rfl, hs.draft, hs.loan⟩, rfl, by simp [withConsumer, Except.map, hr]⟩
  · obtain ⟨hl, ha⟩ := Consumer.shown_eq_iff.mp hr
    exact ⟨⟨rfl, hs.draft, hl⟩, rfl, by simp [withConsumer, Except.map, ha]⟩

theorem closing_congr {p p' : Producer} {c c' : Consumer} (hd : p.draft = p'.draft)
    (hl : c.loan = c'.loan) : closing p c g = closing p' c' g := by
  have hfinish : ∀ f : Access Unit,
      (p.finish .drop >>= fun _ => f) = p'.finish .drop >>= fun _ => f := by
    intro f
    cases h : p.draft <;> simp [Producer.finish, ← hd, h]
  have hfinish' :
      (c.finish g .drop >>= fun _ => pure ()) = c'.finish g .drop >>= fun _ => pure () := by
    cases h : c.loan <;> simp [Consumer.finish, ← hl, h]
  simp only [closing, hfinish, hfinish']

theorem resembles_resplit (build : Build) (hs : s.Resembles s') :
    (s.step build .resplit).Resembles (s'.step build .resplit) := by
  obtain ⟨ring, p, c⟩ := s
  obtain ⟨ring', p', c'⟩ := s'
  obtain ⟨rfl, hd, hl⟩ := hs
  simp only [step, close, closing_congr hd hl]
  exact ⟨⟨rfl, rfl, rfl⟩, rfl, rfl⟩

theorem resembles_step (build : Build) (op : Op) {a : Account g} (ht : s.Tracks a)
    (hs : s.Resembles s') : (s.step build op).Resembles (s'.stepPlain build op) := by
  have hring := ht.ring
  cases op with
  | produce op =>
    rw [step_produce, ← s.producer.performBy_claim, stepPlain, ← hs.ring, hring]
    apply resembles_withProducer hs
    exact Producer.alike_performBy op hs.draft fun _ =>
      Producer.alike_claimPlain build ht.valid ht.producer hs.draft
  | consume op =>
    rw [step_consume, ← s.consumer.performBy_locate, stepPlain, ← hs.ring, hring]
    apply resembles_withConsumer hs
    exact Consumer.alike_performBy op hs.loan fun _ =>
      Consumer.alike_locatePlain build ht.valid ht.consumer hs.loan
  | resplit => exact resembles_resplit build hs

theorem resembles_run (build : Build) (ops : List Op) {a : Account g} (ht : s.Tracks a)
    (hs : s.Resembles s') : (run build ops s).1.Resembles (runPlain build ops s').1 ∧
      (run build ops s).2 = (runPlain build ops s').2 := by
  induction ops generalizing s s' a with
  | nil => exact ⟨hs, rfl⟩
  | cons op ops ih =>
    have hstep := resembles_step build op ht hs
    obtain ⟨hrest, htrace⟩ := ih (tracks_step build op ht).1 hstep.session
    refine ⟨hrest, ?_⟩
    simp only [run, runPlain, hstep.answer, hstep.events, htrace]

/-! ## Splitting again -/

/-- What is held follows from the account, and only the copies do not. -/
theorem resembles_of_tracks {a : Account g} (h : s.Tracks a) (h' : s'.Tracks a) :
    s.Resembles s' where
  ring := h.ring.trans h'.ring.symm
  draft := by
    have hheld : s.producer.held = s'.producer.held := h.drafting.symm.trans h'.drafting
    cases hd : s.producer.draft <;> cases hd' : s'.producer.draft <;>
      simp [Producer.held, hd, hd'] at hheld ⊢
    rw [(Producer.holds_of_draft h.producer hd).1, (Producer.holds_of_draft h'.producer hd').1]
  loan := by
    have hheld : s.consumer.held = s'.consumer.held := h.lending.symm.trans h'.lending
    cases hl : s.consumer.loan <;> cases hl' : s'.consumer.loan <;>
      simp [Consumer.held, hl, hl'] at hheld ⊢
    rw [(Consumer.holds_of_loan h.consumer hl).1, (Consumer.holds_of_loan h'.consumer hl').1]

/-- With nothing held, splitting again leaves the account as it is. -/
theorem tracks_resplit_unheld (build : Build) {a : Account g} (h : s.Tracks a)
    (hd : s.producer.draft = none) (hl : s.consumer.loan = none) :
    (s.step build .resplit).session.Tracks a ∧ (s.step build .resplit).events = [] ∧
      (s.step build .resplit).answer = .resplit := by
  have hdrafting : a.drafting = false := h.drafting.trans (Producer.held_of_none hd)
  have hlending : a.lending = false := h.lending.trans (Consumer.held_of_none hl)
  have hclose : a.step build .resplit = ⟨a, [], .resplit⟩ := by
    obtain ⟨b, drafting, lending⟩ := a
    simp_all [Account.step, Account.close]
  have := tracks_resplit build h
  rwa [hclose] at this

/-- A session goes on as a plain one does, step by step, and as if it were
split again at any point where nothing is held. -/
theorem run_plain {line : Padding.Line} {storage : Storage} {itemSize : UInt64} {r : Ring g}
    {e : Event} (h : Ring.construct line storage itemSize = (.ok ⟨g, r⟩, e)) (build : Build)
    (ops rest : List Op) :
    let done := run build ops (split r)
    (done.2 = (runPlain build ops (split r)).2 ∧
      done.1.Resembles (runPlain build ops (split r)).1) ∧
      (done.1.producer.draft = none → done.1.consumer.loan = none →
        let on := run build (ops ++ rest) (split r)
        let anew := run build (ops ++ .resplit :: rest) (split r)
        ∃ later, on.2 = done.2 ++ later ∧ anew.2 = done.2 ++ (.resplit, []) :: later ∧
          on.1.Resembles anew.1) := by
  have hstart : (split r).Tracks ⟨r.ledger, false, false⟩ := by
    rw [(Ring.construct_ok h).2]
    exact split_tracks r.valid_ledger
  obtain ⟨hplain, htrace⟩ := resembles_run build ops hstart ⟨rfl, rfl, rfl⟩
  have htracks := (tracks_run build ops hstart).1
  refine ⟨⟨htrace, hplain⟩, fun hd hl => ?_⟩
  obtain ⟨hsplit, hevents, hanswer⟩ := tracks_resplit_unheld build htracks hd hl
  obtain ⟨hon, honTrace⟩ := tracks_run build rest htracks
  obtain ⟨hanew, hanewTrace⟩ := tracks_run build rest hsplit
  refine ⟨(run build rest (run build ops (split r)).1).2, ?_, ?_, ?_⟩
  · rw [run_append]
  · rw [run_append]
    simp only [run, hevents, hanswer, hanewTrace, honTrace]
  · rw [run_append, run_append]
    exact resembles_of_tracks hon hanew

/-- Three slots of two bytes: the producer's copy is old when the halves are
split again, and the next drafts and pushes answer as before. -/
theorem run_plain_three_slots :
    ∃ (g : Geometry) (r : Ring g) (e : Event),
      Ring.construct .line64 ⟨#[1, 2, 3, 4, 5, 6, 7], by decide⟩ 2 = (.ok ⟨g, r⟩, e) ∧
      let ops := [.produce (.push [9]), .produce (.push [8]), .consume (.pop [0])]
      let rest := [.produce .draft, .produce (.finish .drop), .produce (.push [7]),
        .consume .borrow]
      let done := run .release ops (split r)
      let on := run .release (ops ++ rest) (split r)
      let anew := run .release (ops ++ .resplit :: rest) (split r)
      done.1.producer.cachedRead ≠ done.1.ring.readIndex ∧
        done.1.producer.draft = none ∧ done.1.consumer.loan = none ∧
        (done.2 = (runPlain .release ops (split r)).2 ∧
          done.1.Resembles (runPlain .release ops (split r)).1) ∧
        ∃ later, on.2 = done.2 ++ later ∧ anew.2 = done.2 ++ (.resplit, []) :: later ∧
          on.1.Resembles anew.1 := by
  refine ⟨_, _, _, rfl, ?_⟩
  have h := @run_plain _ .line64 ⟨#[1, 2, 3, 4, 5, 6, 7], by decide⟩ 2 _ _ rfl .release
    [.produce (.push [9]), .produce (.push [8]), .consume (.pop [0])]
    [.produce .draft, .produce (.finish .drop), .produce (.push [7]), .consume .borrow]
  exact ⟨by decide +kernel, rfl, rfl, h.1, h.2 rfl rfl⟩

end Session

end SlotRing
