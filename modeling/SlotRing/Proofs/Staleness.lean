import SlotRing.Proofs.Plain
import SlotRing.Proofs.Queue

/-!
# Stale loads

Suppose that a load of the other half's index need not see the present value:
it may see any that the index has had since the half last loaded it. An
operation then acts on the ledger as it was when the index had that value,
which differs from the present one only in what the other half did since. So
it does what it would do now, or finds no room or no item, and the operations
that succeed are a run of the queue (`run_stale`).
-/

set_option autoImplicit false

namespace SlotRing

open Access

variable {g : Geometry} {build : Build}

/-! ## Loads of earlier values -/

/-- For the index of each side, the values it has had since the other half
last loaded it, oldest first and without the present one. -/
abbrev Trail := Side → List UInt64

def Trail.set (t : Trail) (side : Side) (values : List UInt64) : Trail :=
  fun s => if s = side then values else t s

/-- Performs an operation of `side` whose loads of the other index see the
value that comes after `skip` others on the trail. A value once skipped is not
seen again. -/
def Access.runStale {α : Type} (build : Build) (side : Side) (skip : Nat) :
    Access α → Ring g → Trail → Outcome g α × Trail
  | .done a, r, t => (⟨r, [], .ok a⟩, t)
  | .loadIndex o k, r, t =>
    if o = side then (k (r.index o)).runStale build side skip r t
    else
      let values := (t o).drop skip
      (k (values.headD (r.index o))).runStale build side skip r (t.set o values)
  | .storeIndex o i k, r, t =>
    (k ()).runStale build side skip (r.setIndex o i) (t.set o (t o ++ [r.index o]))
  | .loadByte a k, r, t => (k (r.byte a)).runStale build side skip r t
  | .storeByte a b k, r, t => (k ()).runStale build side skip (r.setByte a b) t
  | .log e k, r, t =>
    match (k ()).runStale build side skip r t with
    | (⟨ring, events, result⟩, t) => (⟨ring, e :: events, result⟩, t)
  | .require holds fault k, r, t =>
    if passes build holds then (k ()).runStale build side skip r t else (⟨r, [], .error fault⟩, t)

structure Stale (g : Geometry) where
  session : Session g
  trail : Trail

namespace Trail

theorem set_self (t : Trail) (side : Side) (values : List UInt64) :
    t.set side values side = values := if_pos rfl

theorem set_of_ne (t : Trail) {side other : Side} (values : List UInt64) (h : other ≠ side) :
    t.set side values other = t other := if_neg h

end Trail

namespace Stale

structure Effect (g : Geometry) where
  stale : Stale g
  events : List Event
  answer : Session.Answer

def split (r : Ring g) : Stale g := ⟨Session.split r, fun _ => []⟩

def withProducer (s : Stale g) (o : Outcome g (Producer × Producer.Answer) × Trail) : Effect g :=
  let e := s.session.withProducer o.1
  ⟨⟨e.session, o.2⟩, e.events, e.answer⟩

def withConsumer (s : Stale g) (o : Outcome g (Consumer × Consumer.Answer) × Trail) : Effect g :=
  let e := s.session.withConsumer o.1
  ⟨⟨e.session, o.2⟩, e.events, e.answer⟩

def step (build : Build) (s : Stale g) : Session.Op × Nat → Effect g
  | (.produce op, skip) => s.withProducer
    ((s.session.producer.perform g op).runStale build .producer skip s.session.ring s.trail)
  | (.consume op, skip) => s.withConsumer
    ((s.session.consumer.perform g op).runStale build .consumer skip s.session.ring s.trail)
  | (.resplit, _) =>
    let e := s.session.step build .resplit
    ⟨split e.session.ring, e.events, e.answer⟩

def run (build : Build) : List (Session.Op × Nat) → Stale g →
    Stale g × List (Session.Op × Session.Answer)
  | [], s => (s, [])
  | choice :: choices, s =>
    let rest := run build choices (s.step build choice).stale
    (rest.1, (choice.1, (s.step build choice).answer) :: rest.2)

end Stale

/-! ## Values on a trail -/

namespace Geometry

def span (g : Geometry) (start stop : Nat) : List UInt64 :=
  (List.range' start (stop - start)).map g.place

theorem span_self (n : Nat) : g.span n n = [] := by
  rw [span, Nat.sub_self]
  rfl

theorem span_succ {start stop : Nat} (h : start ≤ stop) :
    g.span start (stop + 1) = g.span start stop ++ [g.place stop] := by
  rw [span, Nat.succ_sub h, List.range'_1_concat, List.map_append, Nat.add_sub_cancel' h]
  rfl

theorem drop_span (start stop skip : Nat) :
    (g.span start stop).drop skip = g.span (min (start + skip) (max start stop)) stop := by
  rw [span, span, ← List.map_drop, List.drop_range']
  by_cases h : start + skip ≤ stop
  · rw [show min (start + skip) (max start stop) = start + skip by omega]
    congr 2
    · omega
    · omega
  · rw [show stop - start - skip = 0 by omega,
      show stop - min (start + skip) (max start stop) = 0 by omega]
    rfl

theorem headD_span {start stop : Nat} (h : start ≤ stop) :
    (g.span start stop).headD (g.place stop) = g.place start := by
  rcases Nat.eq_or_lt_of_le h with rfl | hlt
  · rw [span_self]
    rfl
  · rw [span, show stop - start = stop - start - 1 + 1 by omega, List.range'_succ]
    rfl

end Geometry

/-! ## The ledger as it was -/

namespace Ledger

/-- The ledger with the other side's counter at `c`, where the half of `side`
may take it to be. -/
def behind (b : Ledger g) : Side → Nat → Ledger g
  | .producer, c => { b with freed := c }
  | .consumer, c => { b with items := b.items.take c }

structure Lags (b : Ledger g) (t : Trail) (side : Side) (c : Nat) : Prop where
  valid : b.Valid
  behind : (b.behind side c).Valid
  le : c ≤ b.counter side.other
  trail : t side.other = g.span c (b.counter side.other)

variable {b b' : Ledger g} {t t' : Trail} {side : Side} {c : Nat}

theorem storage_behind (b : Ledger g) (side : Side) (c : Nat) :
    (b.behind side c).storage = b.storage := by
  cases side <;> rfl

theorem counter_behind (b : Ledger g) (side : Side) (c : Nat) (h : c ≤ b.counter side.other) :
    (b.behind side c).counter side = b.counter side ∧
      (b.behind side c).counter side.other = c := by
  cases side with
  | producer => exact ⟨rfl, rfl⟩
  | consumer => exact ⟨rfl, List.length_take_of_le h⟩

theorem behind_self (b : Ledger g) (side : Side) : b.behind side (b.counter side.other) = b := by
  cases side with
  | producer => rfl
  | consumer => exact Ledger.ext rfl (List.take_length) rfl

theorem behind_advance (b : Ledger g) (side : Side) (c : Nat) :
    (b.behind side c).advance side = (b.advance side).behind side c := by
  cases side <;> rfl

theorem freed_le_of_behind (h : (b.behind .consumer c).Valid) : b.freed ≤ c :=
  Nat.le_trans h.freed_le (List.length_take_le _ _)

theorem valid_behind_consumer (hv : b.Valid) (hl : b.freed ≤ c) (hu : c ≤ b.published) :
    (b.behind .consumer c).Valid := by
  have hlen : (b.behind .consumer c).published = c := List.length_take_of_le hu
  refine ⟨by rw [hlen]; exact hl, ?_, ?_⟩
  · rw [hlen]
    exact Nat.lt_of_le_of_lt hu hv.published_lt
  · intro k hk hlt
    rw [hlen] at hlt
    show (b.items.take c)[k]? = _
    rw [List.getElem?_take_of_lt hlt]
    exact hv.kept k hk (Nat.lt_of_lt_of_le hlt hu)

/-- The other side's later moves lead from the ledger as it was to the ledger
as it was somewhat later. -/
theorem moves_behind {c' : Nat} (h : b.Lags t side c) (hle : c ≤ c')
    (hu : c' ≤ b.counter side.other) :
    Moves side.other (b.behind side c) (b.behind side c') := by
  cases side with
  | producer =>
    refine (moves_consumer_iff h.behind).mpr ⟨c', hle, ?_, rfl⟩
    exact Nat.le_trans hu h.valid.freed_le
  | consumer =>
    have hf := freed_le_of_behind h.behind
    exact ⟨valid_behind_consumer h.valid (Nat.le_trans hf hle) hu, rfl,
      List.take_prefix_take_left hle⟩

theorem moves_from_behind (h : b.Lags t side c) : Moves side.other (b.behind side c) b := by
  have := moves_behind h h.le (Nat.le_refl _)
  rwa [behind_self] at this

/-- A move that is not seen on the ledger as it was is none. -/
theorem eq_of_behind (hm : Moves side b b') (h : b'.behind side c = b.behind side c) :
    b' = b := by
  have hstorage := congrArg storage h
  rw [storage_behind, storage_behind] at hstorage
  cases side with
  | producer =>
    have hitems := congrArg items h
    exact Ledger.ext hstorage hitems hm.2.1
  | consumer =>
    have hfreed := congrArg freed h
    exact Ledger.ext hstorage hm.2.2.1 hfreed

theorem lags_later {c' : Nat} (h : b.Lags t side c) (hle : c ≤ c') (hu : c' ≤ b.counter side.other)
    (ht : t' side.other = g.span c' (b.counter side.other)) : b.Lags t' side c' :=
  ⟨h.valid, moves_valid (moves_behind h hle hu), hu, ht⟩

theorem lags_advance (h : b.Lags t side c) (hr : (b.behind side c).Ready side)
    (ht : t' side.other = t side.other) : (b.advance side).Lags t' side c := by
  have hready := ready_other (moves_from_behind h) hr
  have hm := moves_advance h.behind hr
  rw [behind_advance] at hm
  have hcounter := (counter_advance b side).2
  exact ⟨moves_valid (moves_advance h.valid hready), moves_valid hm, by rw [hcounter]; exact h.le,
    by rw [hcounter, ht]; exact h.trail⟩

theorem lags_setByte {a : Nat} (v : UInt8) (h : b.Lags t .producer c)
    (hr : (b.behind .producer c).Reaches .producer a) : (b.setByte a v).Lags t .producer c :=
  ⟨moves_valid (moves_setByte h.valid v (reaches_other (moves_from_behind h) hr)),
    moves_valid (moves_setByte h.behind v hr), h.le, h.trail⟩

end Ledger

namespace Access

variable {α : Type} {q : Bool} {side : Side}

/-- An operation that is safe on the ledger as it was when its half last loaded
the other index comes to what it would come to then, or somewhat later. -/
theorem safe_runStale (skip : Nat) {p : Access α} {post : Post g α} {b : Ledger g} {t : Trail}
    {c start : Nat} (h : Safe build side q p post (b.behind side c)) (hb : b.Lags t side c)
    (hs : start ≤ b.counter side) (ht : t side = g.span start (b.counter side)) :
    ∃ b' c', Ledger.Moves side b b' ∧ c ≤ c' ∧
      b'.Lags (p.runStale build side skip b.ring t).2 side c' ∧
      (p.runStale build side skip b.ring t).2 side = g.span start (b'.counter side) ∧
      (p.runStale build side skip b.ring t).1.ring = b'.ring ∧
      post (p.runStale build side skip b.ring t).1.events
        (p.runStale build side skip b.ring t).1.result (b'.behind side c') := by
  induction p generalizing post b t c with
  | done a => exact ⟨b, c, Ledger.moves_refl _ hb.valid, Nat.le_refl c, hb, ht, rfl, h⟩
  | loadIndex o k ih =>
    by_cases ho : o = side
    · subst ho
      have h := h _ (Ledger.moves_refl _ hb.behind)
      rw [(b.counter_behind o c hb.le).1] at h
      simp only [runStale, if_pos, b.index_ring]
      exact ih _ h hb hs ht
    · obtain rfl : o = side.other := by
        cases o <;> cases side <;> first | rfl | exact absurd rfl ho
      -- The value seen is that of a counter between the one last seen and the present one.
      have hle := hb.le
      have hdrop := g.drop_span c (b.counter side.other) skip
      rw [Nat.max_eq_right hle] at hdrop
      have hu := Nat.min_le_right (c + skip) (b.counter side.other)
      have hl : c ≤ min (c + skip) (b.counter side.other) := by omega
      have h := h _ (Ledger.moves_behind hb hl hu)
      rw [(b.counter_behind side _ hu).2] at h
      simp only [runStale, if_neg ho, hb.trail, hdrop, b.index_ring, g.headD_span hu]
      obtain ⟨b', c', hm, hc', hrest⟩ := ih _ h (Ledger.lags_later hb hl hu (t.set_self _ _)) hs
        ((t.set_of_ne _ (Ne.symm ho)).trans ht)
      exact ⟨b', c', hm, Nat.le_trans hl hc', hrest⟩
  | storeIndex o i k ih =>
    obtain ⟨-, rfl, a, hk, h⟩ := h
    obtain ⟨hr, hi, hpost⟩ := h _ (Ledger.moves_refl _ hb.behind)
    rw [(b.counter_behind o c hb.le).1] at hi
    have hother : o.other ≠ o := by cases o <;> nofun
    simp only [runStale, hk, b.index_ring, ht, ← g.span_succ hs]
    refine ⟨b.advance o, c, ?_, Nat.le_refl c, Ledger.lags_advance hb hr (t.set_of_ne _ hother), ?_,
      ?_, ?_⟩
    · exact Ledger.moves_advance hb.valid (Ledger.ready_other (Ledger.moves_from_behind hb) hr)
    · rw [(b.counter_advance o).1]
      exact t.set_self _ _
    · rw [b.ring_advance, hi]
    · rw [← Ledger.behind_advance]
      exact hpost
  | loadByte a k ih =>
    have h := (h _ (Ledger.moves_refl _ hb.behind)).2
    rw [b.storage_behind] at h
    exact ih _ h hb hs ht
  | storeByte a v k ih =>
    obtain ⟨rfl, h⟩ := h
    obtain ⟨hr, h⟩ := h _ (Ledger.moves_refl _ hb.behind)
    obtain ⟨b', c', hm, hrest⟩ := ih _ h (Ledger.lags_setByte v hb hr) hs ht
    have hset := Ledger.moves_setByte hb.valid v
      (Ledger.reaches_other (Ledger.moves_from_behind hb) hr)
    exact ⟨b', c', Ledger.moves_trans hset hm, hrest⟩
  | log e k ih => exact ih _ (h _ (Ledger.moves_refl _ hb.behind)) hb hs ht
  | require holds fault k ih =>
    have h := h _ (Ledger.moves_refl _ hb.behind)
    by_cases hp : passes build holds
    · rw [if_pos hp] at h
      simp only [runStale, if_pos hp]
      exact ih _ h hb hs ht
    · rw [if_neg hp] at h
      simp only [runStale, if_neg hp]
      exact ⟨b, c, Ledger.moves_refl _ hb.valid, Nat.le_refl c, hb, ht, rfl, h⟩

end Access

/-! ## Deeds on the ledger as it was -/

def Session.Answer.isWant : Session.Answer → Bool
  | .produced (.refused .full) | .produced .full => true
  | .consumed (.popped none _) | .consumed .empty => true
  | _ => false

namespace Ledger

variable {b : Ledger g} {c : Nat} {held : Bool}

theorem not_full_of_behind (hv : (b.behind .producer c).Valid) (hle : c ≤ b.freed)
    (hf : ¬ (b.behind .producer c).Full) : ¬ b.Full := by
  have hlt : b.published < c + g.slots := hv.published_lt
  have hne : b.published + 1 ≠ c + g.slots := hf
  intro hfull
  simp only [Full] at hfull
  omega

/-- With an old read index the producer finds no room, or it does what it
would do now. -/
theorem produce_behind (op : Producer.Op) (hv : (b.behind .producer c).Valid)
    (hle : c ≤ b.freed) :
    (∃ a, (b.behind .producer c).produce build held op =
        ⟨b.behind .producer c, held, [], .ok a⟩ ∧ (Session.Answer.produced a).isWant = true) ∨
      b.produce build held op =
          { (b.behind .producer c).produce build held op with
            ledger := { ((b.behind .producer c).produce build held op).ledger with
              freed := b.freed } } ∧
        (Account.produced ((b.behind .producer c).produce build held op).answer).isWant =
          false := by
  cases held with
  | true =>
    right
    simp only [produce, if_true]
    cases op with
    | push _ | draft | contents | fill _ => exact ⟨rfl, rfl⟩
    | store position bytes =>
      simp only [produceHolding, settle]
      split <;> exact ⟨rfl, rfl⟩
    | overwrite bytes =>
      simp only [produceHolding]
      split <;> exact ⟨rfl, rfl⟩
    | finish how => cases how <;> exact ⟨rfl, rfl⟩
  | false =>
    simp only [produce, Bool.false_eq_true, if_false]
    cases op with
    | push item =>
      by_cases hl : g.slotSize < item.length
      · right
        simp only [produceFree, if_pos hl]
        cases build <;> exact ⟨rfl, rfl⟩
      · by_cases hf : (b.behind .producer c).Full
        · left
          simp only [produceFree, if_neg hl, if_pos hf]
          exact ⟨_, rfl, rfl⟩
        · right
          simp only [produceFree, if_neg hl, if_neg hf, if_neg (not_full_of_behind hv hle hf)]
          exact ⟨rfl, rfl⟩
    | draft =>
      by_cases hf : (b.behind .producer c).Full
      · left
        simp only [produceFree, if_pos hf]
        exact ⟨_, rfl, rfl⟩
      · right
        simp only [produceFree, if_neg hf, if_neg (not_full_of_behind hv hle hf)]
        exact ⟨rfl, rfl⟩
    | contents | store _ _ | fill _ | overwrite _ | finish _ => exact .inr ⟨rfl, rfl⟩

theorem oldest_behind (hr : (b.behind .consumer c).Ready .consumer) :
    (b.behind .consumer c).oldest = b.oldest := by
  have hlt : b.freed < c := Nat.lt_of_lt_of_le hr (List.length_take_le _ _)
  simp only [oldest, behind, List.getD_eq_getElem?_getD, List.getElem?_take_of_lt hlt]

theorem consume_behind (op : Consumer.Op) (hv : (b.behind .consumer c).Valid)
    (hle : c ≤ b.published) (hr : held = true → (b.behind .consumer c).Ready .consumer) :
    (∃ a, (b.behind .consumer c).consume held op =
        ⟨b.behind .consumer c, held, [], .ok a⟩ ∧ (Session.Answer.consumed a).isWant = true) ∨
      b.consume held op =
          { (b.behind .consumer c).consume held op with
            ledger := { ((b.behind .consumer c).consume held op).ledger with
              items := b.items } } ∧
        (Account.consumed ((b.behind .consumer c).consume held op).answer).isWant = false := by
  cases held with
  | true =>
    right
    have hold := oldest_behind (hr rfl)
    simp only [consume, if_true]
    cases op with
    | pop _ | borrow => exact ⟨rfl, rfl⟩
    | contents =>
      simp only [consumeHolding, hold]
      exact ⟨rfl, rfl⟩
    | byteAt position =>
      cases hget : b.oldest[position]? with
      | none | some _ =>
        simp only [consumeHolding, hold, hget]
        exact ⟨rfl, rfl⟩
    | finish how => cases how <;> exact ⟨rfl, rfl⟩
  | false =>
    have hitem : ¬ (b.behind .consumer c).Empty → (b.behind .consumer c).Ready .consumer :=
      ready_of_not_empty hv
    have hempty : ¬ (b.behind .consumer c).Empty → ¬ b.Empty := fun he =>
      Nat.ne_of_lt (Nat.lt_of_lt_of_le (hitem he) (Nat.le_trans (List.length_take_le _ _) hle))
    simp only [consume, Bool.false_eq_true, if_false]
    cases op with
    | pop dest =>
      by_cases he : (b.behind .consumer c).Empty
      · left
        simp only [consumeFree, if_pos he]
        exact ⟨_, rfl, rfl⟩
      · right
        simp only [consumeFree, if_neg he, if_neg (hempty he), oldest_behind (hitem he)]
        exact ⟨rfl, rfl⟩
    | borrow =>
      by_cases he : (b.behind .consumer c).Empty
      · left
        simp only [consumeFree, if_pos he]
        exact ⟨_, rfl, rfl⟩
      · right
        simp only [consumeFree, if_neg he, if_neg (hempty he), oldest_behind (hitem he)]
        exact ⟨rfl, rfl⟩
    | contents | byteAt _ | finish _ => exact .inr ⟨rfl, rfl⟩

end Ledger

/-! ## Sessions -/

namespace Stale

structure Tracks (s : Stale g) (a : Account g) : Prop extends s.session.Tracks a where
  producing : ∃ c, a.ledger.Lags s.trail .producer c ∧
    s.session.producer.Tracks (a.ledger.behind .producer c)
  consuming : ∃ c, a.ledger.Lags s.trail .consumer c ∧
    s.session.consumer.Tracks (a.ledger.behind .consumer c)

/-- An operation was done as on the account, or it was refused for want of
room or of an item and changed nothing. -/
def Follows (e : Effect g) (a : Account g) (exact : Account.Effect g) : Prop :=
  (e.answer.isWant = false ∧ e.stale.Tracks exact.account ∧ e.events = exact.events ∧
      e.answer = exact.answer) ∨
    (e.answer.isWant = true ∧ e.events = [] ∧ e.stale.Tracks a)

variable {s : Stale g} {a : Account g} {b : Ledger g}

theorem lags_now (hv : b.Valid) (side : Side) {t : Trail} (ht : t side.other = []) :
    b.Lags t side (b.counter side.other) where
  valid := hv
  behind := by rwa [Ledger.behind_self]
  le := Nat.le_refl _
  trail := by rw [ht, g.span_self]

theorem tracks_split (hv : b.Valid) : (split b.ring).Tracks ⟨b, false, false⟩ := by
  have h := Session.split_tracks hv
  refine ⟨h, ⟨_, lags_now hv .producer rfl, ?_⟩, ⟨_, lags_now hv .consumer rfl, ?_⟩⟩
  · rw [Ledger.behind_self]
    exact h.producer
  · rw [Ledger.behind_self]
    exact h.consumer

theorem behind_other_consumer {c : Nat} {t t' : Trail} (hl : b.Lags t .consumer c) {b' : Ledger g}
    (hm : Ledger.Moves .producer b b') (ht : t' .producer = g.span c b'.published)
    {k : Consumer} (hk : k.Tracks (b.behind .consumer c)) :
    b'.Lags t' .consumer c ∧ k.Tracks (b'.behind .consumer c) := by
  have hle : c ≤ b.published := hl.le
  have hle' : c ≤ b'.published := Nat.le_trans hle hm.2.2.length_le
  have hf := Ledger.freed_le_of_behind hl.behind
  rw [← hm.2.1] at hf
  refine ⟨⟨hm.1, Ledger.valid_behind_consumer hm.1 hf hle', hle', ht⟩, ?_⟩
  apply Consumer.tracks_congr hk
  · exact (List.length_take_of_le hle').trans (List.length_take_of_le hle).symm
  · exact hm.2.1

theorem behind_other_producer {c : Nat} {t t' : Trail} (hl : b.Lags t .producer c) {b' : Ledger g}
    (hm : Ledger.Moves .consumer b b') (ht : t' .consumer = g.span c b'.freed) {p : Producer}
    (hp : p.Tracks (b.behind .producer c)) :
    b'.Lags t' .producer c ∧ p.Tracks (b'.behind .producer c) := by
  have hb : b'.behind .producer c = b.behind .producer c := Ledger.ext hm.2.1 hm.2.2.1 rfl
  rw [hb]
  exact ⟨⟨hm.1, by rw [hb]; exact hl.behind, Nat.le_trans hl.le hm.2.2.2, ht⟩, hp⟩

/-- An operation of the producer does what it would do with the read index
that it last loaded, and only its own side of the ledger moves. -/
theorem exists_deed_produce (op : Producer.Op) (skip : Nat) (h : s.Tracks a) :
    ∃ b c, Ledger.Moves .producer a.ledger b ∧ (a.ledger.behind .producer c).Valid ∧
      c ≤ a.ledger.freed ∧
      let deed := (a.ledger.behind .producer c).produce build a.drafting op
      let e := s.step build (.produce op, skip)
      deed.ledger = b.behind .producer c ∧ e.events = deed.events ∧
        e.answer = Account.produced deed.answer ∧ e.stale.Tracks ⟨b, deed.held, a.lending⟩ := by
  obtain ⟨⟨hring, hv, hp, hc, hd, hl⟩, ⟨c, hlag, hpt⟩, ⟨start, hlag', hct⟩⟩ := h
  obtain ⟨b, c', hm, hle, hlags, htrail, hring', ht, hdeed⟩ :=
    safe_runStale skip (@Producer.safe_perform g build _ _ op hlag.behind hpt) hlag hlag'.le
      hlag'.trail
  rw [← hring] at hlags htrail hring' ht hdeed
  have hle' : c' ≤ a.ledger.freed := hm.2.1 ▸ hlags.le
  have hproducer := Producer.tracks_other ht (Ledger.moves_from_behind hlags)
  have hother := behind_other_consumer hlag' hm htrail hct
  change (a.ledger.behind .producer c').produce build _ op = _ at hdeed
  rw [← hd] at hdeed
  refine ⟨b, c', hm, Ledger.moves_valid (Ledger.moves_behind hlag hle hle'), hle', ?_⟩
  rw [hdeed]
  exact ⟨rfl, rfl, rfl, ⟨hring', hm.1, hproducer, Consumer.tracks_other hc hm, rfl, hl⟩,
    ⟨c', hlags, ht⟩, ⟨start, hother⟩⟩

theorem follows_produce (op : Producer.Op) (skip : Nat) (h : s.Tracks a) :
    Follows (s.step build (.produce op, skip)) a (a.step build (.produce op)) := by
  obtain ⟨b, c, hm, hv, hle, hledger, hevents, hanswer, htracks⟩ :=
    @exists_deed_produce g build s a op skip h
  rcases @Ledger.produce_behind g build a.ledger c a.drafting op hv hle with
    ⟨answer, hwant, hw⟩ | ⟨hnow, hw⟩
  · right
    rw [hwant] at hledger hevents hanswer htracks
    rw [Ledger.eq_of_behind hm hledger.symm] at htracks
    exact ⟨by rw [hanswer]; exact hw, hevents, htracks⟩
  · left
    have hb : ({ b.behind .producer c with freed := a.ledger.freed } : Ledger g) = b :=
      Ledger.ext rfl rfl hm.2.1.symm
    rw [hledger, hb] at hnow
    simp only [Account.step, hnow]
    exact ⟨by rw [hanswer]; exact hw, htracks, hevents, hanswer⟩

theorem exists_deed_consume (op : Consumer.Op) (skip : Nat) (h : s.Tracks a) :
    ∃ b c, Ledger.Moves .consumer a.ledger b ∧ (a.ledger.behind .consumer c).Valid ∧
      c ≤ a.ledger.published ∧
      (a.lending = true → (a.ledger.behind .consumer c).Ready .consumer) ∧
      let deed := (a.ledger.behind .consumer c).consume a.lending op
      let e := s.step build (.consume op, skip)
      deed.ledger = b.behind .consumer c ∧ e.events = deed.events ∧
        e.answer = Account.consumed deed.answer ∧ e.stale.Tracks ⟨b, a.drafting, deed.held⟩ := by
  obtain ⟨⟨hring, hv, hp, hc, hd, hl⟩, ⟨start, hlag', hpt⟩, ⟨c, hlag, hct⟩⟩ := h
  obtain ⟨b, c', hm, hle, hlags, htrail, hring', ht, hdeed⟩ :=
    safe_runStale skip (@Consumer.safe_perform g build _ _ op hlag.behind hct) hlag hlag'.le
      hlag'.trail
  rw [← hring] at hlags htrail hring' ht hdeed
  have hitems : b.items = a.ledger.items := hm.2.2.1
  have hle' : c' ≤ a.ledger.published := by
    rw [Ledger.published, ← hitems]
    exact hlags.le
  have hlater := Ledger.moves_behind hlag hle hle'
  have hconsumer := Consumer.tracks_other ht (Ledger.moves_from_behind hlags)
  have hother := behind_other_producer hlag' hm htrail hpt
  have hback : ({ b.behind .consumer c' with freed := a.ledger.freed } : Ledger g) =
      a.ledger.behind .consumer c' := by
    refine Ledger.ext hm.2.1 ?_ rfl
    show b.items.take c' = a.ledger.items.take c'
    rw [hitems]
  change ({ b.behind .consumer c' with freed := a.ledger.freed } : Ledger g).consume _ op = _
    at hdeed
  rw [hback, ← hl] at hdeed
  refine ⟨b, c', hm, Ledger.moves_valid hlater, hle', ?_, ?_⟩
  · exact fun hlending =>
      Ledger.ready_other hlater (Consumer.ready_of_held hct (hl.symm.trans hlending))
  · rw [hdeed]
    exact ⟨rfl, rfl, rfl, ⟨hring', hm.1, Producer.tracks_other hp hm, hconsumer, hd, rfl⟩,
      ⟨start, hother⟩, ⟨c', hlags, ht⟩⟩

theorem follows_consume (op : Consumer.Op) (skip : Nat) (h : s.Tracks a) :
    Follows (s.step build (.consume op, skip)) a (a.step build (.consume op)) := by
  obtain ⟨b, c, hm, hv, hle, hready, hledger, hevents, hanswer, htracks⟩ :=
    @exists_deed_consume g build s a op skip h
  rcases @Ledger.consume_behind g a.ledger c a.lending op hv hle hready with
    ⟨answer, hwant, hw⟩ | ⟨hnow, hw⟩
  · right
    rw [hwant] at hledger hevents hanswer htracks
    rw [Ledger.eq_of_behind hm hledger.symm] at htracks
    exact ⟨by rw [hanswer]; exact hw, hevents, htracks⟩
  · left
    have hb : ({ b.behind .consumer c with items := a.ledger.items } : Ledger g) = b :=
      Ledger.ext rfl hm.2.2.1.symm rfl
    rw [hledger, hb] at hnow
    simp only [Account.step, hnow]
    exact ⟨by rw [hanswer]; exact hw, htracks, hevents, hanswer⟩

theorem follows_resplit (skip : Nat) (h : s.Tracks a) :
    Follows (s.step build (.resplit, skip)) a (a.step build .resplit) := by
  obtain ⟨hclose, hv⟩ := Session.close_tracks build h.toTracks
  left
  simp only [step, Session.step, hclose, Account.step, and_true]
  exact ⟨rfl, tracks_split hv⟩

theorem follows_step (op : Session.Op) (skip : Nat) (h : s.Tracks a) :
    Follows (s.step build (op, skip)) a (a.step build op) := by
  cases op with
  | produce op => exact follows_produce op skip h
  | consume op => exact follows_consume op skip h
  | resplit => exact follows_resplit skip h

def kept (trace : List (Session.Op × Session.Answer)) : List (Session.Op × Session.Answer) :=
  trace.filter fun entry => !entry.2.isWant

theorem kept_cons (op : Session.Op) (answer : Session.Answer)
    (trace : List (Session.Op × Session.Answer)) :
    kept ((op, answer) :: trace) =
      if answer.isWant = true then kept trace else (op, answer) :: kept trace := by
  cases h : answer.isWant <;> simp [kept, h]

/-- The operations that were not refused are a run of the account, and those
that were refused leave it as it is. -/
theorem tracks_run (choices : List (Session.Op × Nat)) (h : s.Tracks a) :
    let ops := (kept (run build choices s).2).map Prod.fst
    (run build choices s).1.Tracks (a.run build ops).1 ∧
      (kept (run build choices s).2).map Prod.snd = (a.run build ops).2.map Prod.fst := by
  induction choices generalizing s a with
  | nil => exact ⟨h, rfl⟩
  | cons choice choices ih =>
    obtain ⟨op, skip⟩ := choice
    rcases @follows_step g build s a op skip h with
      ⟨hw, htracks, -, hanswer⟩ | ⟨hw, -, htracks⟩
    · obtain ⟨hrest, htrace⟩ := ih htracks
      simp only [run, kept_cons, hw, Bool.false_eq_true, if_false, List.map_cons, Account.run]
      exact ⟨hrest, by rw [htrace, hanswer]⟩
    · simp only [run, kept_cons, hw, if_true]
      exact ih htracks

end Stale

namespace SlotQueue

def Justifies (g : Geometry) (q : SlotQueue) : Session.Answer → Prop
  | .produced .pushed | .produced (.drafted _ _) => q.items.length < g.capacity.toNat
  | .consumed (.popped (some count) dest) =>
    ∃ first rest, q.items = first :: rest ∧ dest.take count = first.take count
  | .consumed (.lent index bytes) => index = .ofNat q.front ∧ ∃ rest, q.items = bytes :: rest
  | _ => True

theorem justifies_produce (op : Producer.Op) {q : SlotQueue}
    (hq : q.items.length ≤ g.capacity.toNat) :
    q.Justifies g (Account.produced (q.produce g build op).2) := by
  have hroom : q.items.length ≠ g.capacity.toNat → q.items.length < g.capacity.toNat :=
    Nat.lt_of_le_of_ne hq
  cases hd : q.drafting with
  | true =>
    simp only [produce, hd, if_true]
    cases op with
    | push _ | draft | contents | fill _ | finish _ => trivial
    | store position bytes =>
      simp only [produceHolding, settle]
      split <;> trivial
    | overwrite bytes =>
      simp only [produceHolding]
      split <;> trivial
  | false =>
    simp only [produce, hd, Bool.false_eq_true, if_false]
    cases op with
    | push item =>
      simp only [produceFree]
      split
      · cases build <;> trivial
      · split
        · trivial
        · exact hroom ‹_›
    | draft =>
      simp only [produceFree]
      split
      · trivial
      · exact hroom ‹_›
    | contents | store _ _ | fill _ | overwrite _ | finish _ => trivial

theorem justifies_consume (op : Consumer.Op) (q : SlotQueue) :
    q.Justifies g (Account.consumed (q.consume g op).2) := by
  cases hl : q.lending with
  | true =>
    simp only [consume, hl, if_true]
    cases op with
    | pop _ | borrow | contents | finish _ => trivial
    | byteAt position =>
      simp only [consumeHolding]
      split <;> trivial
  | false =>
    simp only [consume, hl, Bool.false_eq_true, if_false]
    cases op with
    | pop dest =>
      simp only [consumeFree]
      split
      · trivial
      · obtain ⟨first, rest, hrest⟩ := List.exists_cons_of_ne_nil ‹_›
        refine ⟨first, rest, hrest, ?_⟩
        simp [oldest, hrest]
    | borrow =>
      simp only [consumeFree]
      split
      · trivial
      · obtain ⟨first, rest, hrest⟩ := List.exists_cons_of_ne_nil ‹_›
        refine ⟨rfl, rest, ?_⟩
        simp [oldest, hrest]
    | contents | byteAt _ | finish _ => trivial

theorem justifies_step (op : Session.Op) {q : SlotQueue}
    (hq : q.items.length ≤ g.capacity.toNat) : q.Justifies g (q.step g build op).2 := by
  cases op with
  | produce op => exact justifies_produce op hq
  | consume op => exact justifies_consume op q
  | resplit => trivial

end SlotQueue

namespace Stale

/-- Whatever the loads see, the operations that are not refused are a run of
the queue, and the next operation is refused or does what the queue does. -/
theorem run_stale {line : Padding.Line} {storage : Storage} {itemSize : UInt64} {r : Ring g}
    {e : Event} (h : Ring.construct line storage itemSize = (.ok ⟨g, r⟩, e)) (build : Build)
    (choices : List (Session.Op × Nat)) (op : Session.Op) (skip : Nat) :
    let final := run build choices (split r)
    let next := final.1.step build (op, skip)
    let queue := final.1.session.queue
    (SlotQueue.fresh g storage).run g build ((kept final.2).map Prod.fst) =
        (queue, (kept final.2).map Prod.snd) ∧
      queue.items.length ≤ g.capacity.toNat ∧
      (next.answer.isWant = true ∧ next.stale.session.ring = final.1.session.ring ∧
          next.stale.session.queue = queue ∨
        next.answer.isWant = false ∧
          (next.stale.session.queue, next.answer) = queue.step g build op ∧
          queue.Justifies g next.answer) := by
  obtain ⟨hstorage, hr⟩ := Ring.construct_ok h
  have hstart : (split r).Tracks ⟨r.ledger, false, false⟩ := by
    rw [hr]
    exact tracks_split r.valid_ledger
  have hsound : (⟨r.ledger, false, false⟩ : Account g).Sound := ⟨r.valid_ledger, nofun, nofun⟩
  have hfresh : SlotQueue.fresh g storage = (⟨r.ledger, false, false⟩ : Account g).queue := by
    rw [← hstorage]
    exact Ring.fresh_queue r
  obtain ⟨htracks, htrace⟩ := @tracks_run g build _ _ choices hstart
  intro final next queue
  have hqueue : queue = _ := Session.queue_tracks htracks.toTracks
  have hcapacity : queue.items.length ≤ g.capacity.toNat := by
    rw [hqueue]
    exact Ledger.length_queue_le _ _ htracks.valid
  refine ⟨?_, hcapacity, ?_⟩
  · rw [hfresh, Account.queue_run build _ hsound, hqueue, htrace]
  · have hstep := Account.queue_step build op (Account.sound_tracks htracks.toTracks)
    have hjustifies := @SlotQueue.justifies_step g build op queue hcapacity
    rw [← hqueue] at hstep
    rcases @follows_step g build _ _ op skip htracks with
      ⟨hw, hnext, -, hanswer⟩ | ⟨hw, -, hnext⟩
    · right
      rw [hstep] at hjustifies ⊢
      refine ⟨hw, ?_, ?_⟩
      · rw [Session.queue_tracks hnext.toTracks]
        exact Prod.ext rfl hanswer
      · have hanswer : next.answer = _ := hanswer
        rw [hanswer]
        exact hjustifies
    · left
      exact ⟨hw, hnext.ring.trans htracks.ring.symm,
        (Session.queue_tracks hnext.toTracks).trans hqueue.symm⟩

/-- Three slots of two bytes: a push is refused by an old read index although a
slot is free, and accepted when the load skips that value; then a loan is
refused by an old write index although an item is there. -/
theorem run_stale_three_slots :
    ∃ (g : Geometry) (r : Ring g) (e : Event),
      Ring.construct .line64 ⟨#[1, 2, 3, 4, 5, 6, 7], by decide⟩ 2 = (.ok ⟨g, r⟩, e) ∧
      let choices := [(.produce (.push [9]), 0), (.produce (.push [8]), 0),
        (.consume (.pop [0]), 2), (.produce (.push [7]), 0), (.produce (.push [7]), 1),
        (.consume (.pop [0]), 0)]
      let final := run .release choices (split r)
      let next := final.1.step .release (.consume .borrow, 0)
      let queue := final.1.session.queue
      final.2.map Prod.snd = [.produced .pushed, .produced .pushed,
          .consumed (.popped (some 1) [9]), .produced (.refused .full), .produced .pushed,
          .consumed (.popped (some 1) [8])] ∧
        queue.items = [[7, 6]] ∧ next.answer = .consumed .empty ∧
        (SlotQueue.fresh g ⟨#[1, 2, 3, 4, 5, 6, 7], by decide⟩).run g .release
            ((kept final.2).map Prod.fst) = (queue, (kept final.2).map Prod.snd) ∧
        queue.items.length ≤ g.capacity.toNat ∧
        (next.answer.isWant = true ∧ next.stale.session.ring = final.1.session.ring ∧
            next.stale.session.queue = queue ∨
          next.answer.isWant = false ∧
            (next.stale.session.queue, next.answer) = queue.step g .release (.consume .borrow) ∧
            queue.Justifies g next.answer) := by
  refine ⟨_, _, _, rfl, ?_⟩
  refine ⟨by decide +kernel, by decide +kernel, by decide +kernel, ?_⟩
  exact @run_stale _ .line64 ⟨#[1, 2, 3, 4, 5, 6, 7], by decide⟩ 2 _ _ rfl .release
    [(.produce (.push [9]), 0), (.produce (.push [8]), 0), (.consume (.pop [0]), 2),
      (.produce (.push [7]), 0), (.produce (.push [7]), 1), (.consume (.pop [0]), 0)]
    (.consume .borrow) 0

end Stale

end SlotRing
