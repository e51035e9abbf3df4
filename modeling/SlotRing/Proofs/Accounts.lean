import SlotRing.Proofs.Producing
import SlotRing.Proofs.Consuming
import SlotRing.Session

/-!
# Sessions as accounts

An account is a session without indices and without copies of them: the
ledger, and whether each half holds a slot. Every operation of a session, in
either build, is the same operation of its account, with the same events and
the same answer (`tracks_step`), and so is every run (`tracks_run`).
-/

set_option autoImplicit false

namespace SlotRing

open Access

structure Account (g : Geometry) where
  ledger : Ledger g
  drafting : Bool
  lending : Bool

namespace Account

variable {g : Geometry}

structure Effect (g : Geometry) where
  account : Account g
  events : List Event
  answer : Session.Answer

def close (a : Account g) : Ledger g × List Event :=
  let draft := if a.drafting then a.ledger.endDraft .drop else (a.ledger, [])
  let loan := if a.lending then draft.1.endLoan .drop else (draft.1, [])
  (loan.1, draft.2 ++ loan.2)

def produced : Except Fault Producer.Answer → Session.Answer
  | .ok answer => .produced answer
  | .error fault => .faulted fault

def consumed : Except Fault Consumer.Answer → Session.Answer
  | .ok answer => .consumed answer
  | .error fault => .faulted fault

def step (build : Build) (a : Account g) : Session.Op → Effect g
  | .produce op =>
    let deed := a.ledger.produce build a.drafting op
    ⟨⟨deed.ledger, deed.held, a.lending⟩, deed.events, produced deed.answer⟩
  | .consume op =>
    let deed := a.ledger.consume a.lending op
    ⟨⟨deed.ledger, a.drafting, deed.held⟩, deed.events, consumed deed.answer⟩
  | .resplit => ⟨⟨a.close.1, false, false⟩, a.close.2, .resplit⟩

def run (build : Build) : List Session.Op → Account g →
    Account g × List (Session.Answer × List Event)
  | [], a => (a, [])
  | op :: ops, a =>
    let rest := run build ops (a.step build op).account
    (rest.1, ((a.step build op).answer, (a.step build op).events) :: rest.2)

theorem run_append (build : Build) (ops rest : List Session.Op) (a : Account g) :
    a.run build (ops ++ rest) =
      (((a.run build ops).1.run build rest).1,
        (a.run build ops).2 ++ ((a.run build ops).1.run build rest).2) := by
  induction ops generalizing a with
  | nil => rfl
  | cons op ops ih => simp only [List.cons_append, run, ih]

end Account

namespace Ring

variable {g : Geometry}

def ledger (r : Ring g) : Ledger g := ⟨r.storage, r.fits, [], 0⟩

theorem valid_ledger (r : Ring g) : r.ledger.Valid where
  freed_le := Nat.le_refl 0
  published_lt := Nat.lt_of_lt_of_le Nat.two_pos (by simpa [ledger] using g.two_le_slots)
  kept _ _ h := absurd h (Nat.not_lt_zero _)

theorem construct_ok {line : Padding.Line} {storage : Storage} {itemSize : UInt64} {r : Ring g}
    {e : Event} (h : construct line storage itemSize = (.ok ⟨g, r⟩, e)) :
    r.storage = storage ∧ r = r.ledger.ring := by
  simp only [construct] at h
  split at h
  · cases h
  · cases h
    refine ⟨rfl, ?_⟩
    simp only [ledger, Ledger.ring, Ledger.published, List.length_nil, Geometry.place_zero]

end Ring

namespace Session

variable {g : Geometry}

structure Tracks (s : Session g) (a : Account g) : Prop where
  ring : s.ring = a.ledger.ring
  valid : a.ledger.Valid
  producer : s.producer.Tracks a.ledger
  consumer : s.consumer.Tracks a.ledger
  drafting : a.drafting = s.producer.held
  lending : a.lending = s.consumer.held

theorem split_tracks {b : Ledger g} (hv : b.Valid) : (split b.ring).Tracks ⟨b, false, false⟩ where
  ring := rfl
  valid := hv
  producer := ⟨b.freed, rfl, Nat.le_refl _, hv.published_lt, nofun⟩
  consumer := ⟨b.published, rfl, hv.freed_le, Nat.le_refl _, nofun⟩
  drafting := rfl
  lending := rfl

theorem tracks_produce (build : Build) (op : Producer.Op) {s : Session g} {a : Account g}
    (h : s.Tracks a) :
    (s.step build (.produce op)).session.Tracks (a.step build (.produce op)).account ∧
      (s.step build (.produce op)).events = (a.step build (.produce op)).events ∧
      (s.step build (.produce op)).answer = (a.step build (.produce op)).answer := by
  obtain ⟨ring, p, c⟩ := s
  obtain ⟨rfl, hv, hp, hc, hd, hl⟩ := h
  obtain ⟨b, hm, hring, ht, hdeed⟩ :=
    safe_run (@Producer.safe_perform g build p a.ledger op hv hp) hv
  have hback : ({ a.ledger with freed := b.freed } : Ledger g) = a.ledger := by rw [hm.2.1]
  rw [hback, ← hd] at hdeed
  simp only [step, Account.step, hdeed]
  generalize (p.perform g op).run build a.ledger.ring = o at *
  obtain ⟨ring, events, _ | ⟨p', answer⟩⟩ := o
  · exact ⟨⟨hring, hm.1, ht, Consumer.tracks_other hc hm, rfl, hl⟩, rfl, rfl⟩
  · exact ⟨⟨hring, hm.1, ht, Consumer.tracks_other hc hm, rfl, hl⟩, rfl, rfl⟩

theorem tracks_consume (build : Build) (op : Consumer.Op) {s : Session g} {a : Account g}
    (h : s.Tracks a) :
    (s.step build (.consume op)).session.Tracks (a.step build (.consume op)).account ∧
      (s.step build (.consume op)).events = (a.step build (.consume op)).events ∧
      (s.step build (.consume op)).answer = (a.step build (.consume op)).answer := by
  obtain ⟨ring, p, c⟩ := s
  obtain ⟨rfl, hv, hp, hc, hd, hl⟩ := h
  obtain ⟨b, hm, hring, ht, hdeed⟩ :=
    safe_run (@Consumer.safe_perform g build c a.ledger op hv hc) hv
  have hback : ({ b with freed := a.ledger.freed } : Ledger g) = a.ledger :=
    Ledger.ext hm.2.1 hm.2.2.1 rfl
  rw [hback, ← hl] at hdeed
  simp only [step, Account.step, hdeed]
  generalize (c.perform g op).run build a.ledger.ring = o at *
  obtain ⟨ring, events, _ | ⟨c', answer⟩⟩ := o
  · exact ⟨⟨hring, hm.1, Producer.tracks_other hp hm, ht, hd, rfl⟩, rfl, rfl⟩
  · exact ⟨⟨hring, hm.1, Producer.tracks_other hp hm, ht, hd, rfl⟩, rfl, rfl⟩

/-! ## Splitting again -/

theorem run_dropDraft (build : Build) {p : Producer} {b : Ledger g} (hv : b.Valid)
    (hp : p.Tracks b) :
    let ended := if p.held then b.endDraft .drop else (b, [])
    ∃ p', (p.finish .drop).run build b.ring = ⟨ended.1.ring, ended.2, .ok p'⟩ ∧
      Ledger.Moves .producer b ended.1 := by
  cases hd : p.draft with
  | none =>
    simp only [Producer.finish, Producer.held, hd]
    exact ⟨p, rfl, Ledger.moves_refl _ hv⟩
  | some d =>
    have h := (Producer.holds_of_draft hp hd).2
    have hsafe := @Producer.safe_finish g build p b .drop
      (fun es r b' => (∃ p', r = .ok p') ∧ (b', es) = ({ b with freed := b'.freed }).endDraft .drop)
      hv h (fun c hc _ => ⟨⟨_, rfl⟩, by
        show _ = ({ b with freed := c.freed } : Ledger g).endDraft .drop
        rw [Ledger.eq_of_consumer hc]⟩)
    obtain ⟨b', hm, hring, ⟨p', hr⟩, hb⟩ := safe_run hsafe hv
    have hback : ({ b with freed := b'.freed } : Ledger g) = b := by rw [hm.2.1]
    rw [hback, Prod.ext_iff] at hb
    obtain ⟨rfl, hes⟩ := hb
    simp only [Producer.held, hd]
    exact ⟨p', Outcome.ext hring hes hr, hm⟩

theorem run_dropLoan (build : Build) {c : Consumer} {b : Ledger g} (hv : b.Valid)
    (hc : c.Tracks b) :
    let ended := if c.held then b.endLoan .drop else (b, [])
    ∃ c', (c.finish g .drop).run build b.ring = ⟨ended.1.ring, ended.2, .ok c'⟩ ∧
      Ledger.Moves .consumer b ended.1 := by
  cases hl : c.loan with
  | none =>
    simp only [Consumer.finish, Consumer.held, hl]
    exact ⟨c, rfl, Ledger.moves_refl _ hv⟩
  | some l =>
    have h := (Consumer.holds_of_loan hc hl).2
    have hsafe := @Consumer.safe_finish g build c b .drop
      (fun es r b' => (∃ c', r = .ok c') ∧
        (b', es) = ({ b' with freed := b.freed } : Ledger g).endLoan .drop)
      hv h (fun d hd _ => ⟨⟨_, rfl⟩, by
        show _ = ({ d with freed := b.freed } : Ledger g).endLoan .drop
        rw [Ledger.eq_of_producer hd]⟩)
    obtain ⟨b', hm, hring, ⟨c', hr⟩, hb⟩ := safe_run hsafe hv
    have hback : ({ b' with freed := b.freed } : Ledger g) = b :=
      Ledger.ext hm.2.1 hm.2.2.1 rfl
    rw [hback, Prod.ext_iff] at hb
    obtain ⟨rfl, hes⟩ := hb
    simp only [Consumer.held, hl]
    exact ⟨c', Outcome.ext hring hes hr, hm⟩

theorem close_tracks (build : Build) {s : Session g} {a : Account g} (h : s.Tracks a) :
    s.close build = (a.close.1.ring, a.close.2) ∧ a.close.1.Valid := by
  obtain ⟨ring, p, c⟩ := s
  obtain ⟨rfl, hv, hp, hc, hd, hl⟩ := h
  obtain ⟨p', hrun, hm⟩ := run_dropDraft build hv hp
  rw [← hd] at hrun hm
  obtain ⟨c', hrun', hm'⟩ := run_dropLoan build hm.1 (Consumer.tracks_other hc hm)
  rw [← hl] at hrun' hm'
  simp only [close, closing, run_bind, hrun, hrun', Account.close]
  simp [pure, Access.run, hm'.1]

theorem tracks_resplit (build : Build) {s : Session g} {a : Account g} (h : s.Tracks a) :
    (s.step build .resplit).session.Tracks (a.step build .resplit).account ∧
      (s.step build .resplit).events = (a.step build .resplit).events ∧
      (s.step build .resplit).answer = (a.step build .resplit).answer := by
  obtain ⟨hclose, hv⟩ := close_tracks build h
  simp only [step, hclose, Account.step, and_true]
  exact split_tracks hv

/-! ## Whole runs -/

theorem tracks_step (build : Build) (op : Op) {s : Session g} {a : Account g} (h : s.Tracks a) :
    (s.step build op).session.Tracks (a.step build op).account ∧
      (s.step build op).events = (a.step build op).events ∧
      (s.step build op).answer = (a.step build op).answer := by
  cases op with
  | produce op => exact tracks_produce build op h
  | consume op => exact tracks_consume build op h
  | resplit => exact tracks_resplit build h

theorem tracks_run (build : Build) (ops : List Op) {s : Session g} {a : Account g}
    (h : s.Tracks a) :
    (run build ops s).1.Tracks (a.run build ops).1 ∧
      (run build ops s).2 = (a.run build ops).2 := by
  induction ops generalizing s a with
  | nil => exact ⟨h, rfl⟩
  | cons op ops ih =>
    obtain ⟨hstep, hevents, hanswer⟩ := tracks_step build op h
    obtain ⟨hrest, htrace⟩ := ih hstep
    refine ⟨hrest, ?_⟩
    simp only [run, Account.run, hevents, hanswer, htrace]

/-- A run from a fresh ring is the run of its empty account. -/
theorem tracks_construct (build : Build) (ops : List Op) {line : Padding.Line} {storage : Storage}
    {itemSize : UInt64} {r : Ring g} {e : Event}
    (h : Ring.construct line storage itemSize = (.ok ⟨g, r⟩, e)) :
    (run build ops (split r)).1.Tracks (Account.run build ops ⟨r.ledger, false, false⟩).1 ∧
      (run build ops (split r)).2 = (Account.run build ops ⟨r.ledger, false, false⟩).2 := by
  apply tracks_run
  rw [(Ring.construct_ok h).2]
  exact split_tracks r.valid_ledger

end Session

end SlotRing
