import SlotRing.Proofs.Ledger

/-!
# Discipline of an operation

`Safe` is the proof obligation of an operation that one side performs access
by access while the other side may move before each of them: every byte it
loads or stores lies in the slot of its own side, and it stores the index of
its own side at most once, as its last access. The postcondition is asked at
the ledger right after the last access, which is where the operation takes
effect. One obligation serves both ways of running an operation: `safe_run`
performs it without interruption, `safe_step` performs its next access only.
-/

set_option autoImplicit false

namespace SlotRing.Access

variable {α β : Type} {g : Geometry} {build : Build} {side : Side} {q : Bool}

inductive Kind where
  | loadIndex (owner : Side)
  | storeIndex (owner : Side)
  | loadByte
  | storeByte
  | log
  | require
  deriving DecidableEq, Repr

def kind? : Access α → Option Kind
  | .done _ => none
  | .loadIndex o _ => some (.loadIndex o)
  | .storeIndex o _ _ => some (.storeIndex o)
  | .loadByte _ _ => some .loadByte
  | .storeByte _ _ _ => some .storeByte
  | .log _ _ => some .log
  | .require _ _ _ => some .require

abbrev Post (g : Geometry) (α : Type) := List Event → Except Fault α → Ledger g → Prop

/-- The flag `q` tells whether the index may be stored. -/
def Safe (build : Build) (side : Side) (q : Bool) : Access α → Post g α → Ledger g → Prop
  | .done a, post, b => post [] (.ok a) b
  | .loadIndex o k, post, b => ∀ b', Ledger.Moves side.other b b' →
      Safe build side q (k (g.place (b'.counter o))) post b'
  -- Nothing is left to do after the store of the index.
  | .storeIndex o i k, post, b => q = true ∧ o = side ∧ ∃ a, k () = .done a ∧
      ∀ b', Ledger.Moves side.other b b' → b'.Ready side ∧
        i = g.place (b'.counter side + 1) ∧ post [] (.ok a) (b'.advance side)
  | .loadByte a k, post, b => ∀ b', Ledger.Moves side.other b b' → b'.Reaches side a ∧
      Safe build side q (k (b'.storage.get a)) post b'
  | .storeByte a v k, post, b => side = .producer ∧ ∀ b', Ledger.Moves side.other b b' →
      b'.Reaches side a ∧ Safe build side q (k ()) post (b'.setByte a v)
  | .log e k, post, b => ∀ b', Ledger.Moves side.other b b' →
      Safe build side q (k ()) (fun es => post (e :: es)) b'
  | .require holds fault k, post, b => ∀ b', Ledger.Moves side.other b b' →
      if passes build holds then Safe build side q (k ()) post b' else post [] (.error fault) b'

/-! ## The two ways of running -/

/-- Performed without interruption, an operation moves its side to a ledger
that satisfies the postcondition. -/
theorem safe_run {p : Access α} {post : Post g α} {b : Ledger g}
    (h : Safe build side q p post b) (hv : b.Valid) :
    ∃ b', Ledger.Moves side b b' ∧ (p.run build b.ring).ring = b'.ring ∧
      post (p.run build b.ring).events (p.run build b.ring).result b' := by
  induction p generalizing post b with
  | done a => exact ⟨b, Ledger.moves_refl side hv, rfl, h⟩
  | loadIndex o k ih =>
    rw [run, Ledger.index_ring]
    exact ih _ (h b (Ledger.moves_refl _ hv)) hv
  | storeIndex o i k ih =>
    obtain ⟨-, rfl, a, hk, h⟩ := h
    obtain ⟨hr, rfl, hpost⟩ := h b (Ledger.moves_refl _ hv)
    rw [run, hk, ← Ledger.ring_advance]
    exact ⟨b.advance o, Ledger.moves_advance hv hr, rfl, hpost⟩
  | loadByte a k ih => exact ih _ (h b (Ledger.moves_refl _ hv)).2 hv
  | storeByte a v k ih =>
    obtain ⟨rfl, h⟩ := h
    obtain ⟨hr, h⟩ := h b (Ledger.moves_refl _ hv)
    have hm := Ledger.moves_setByte hv v hr
    obtain ⟨b', hb, hring, hpost⟩ := ih _ h hm.1
    exact ⟨b', Ledger.moves_trans hm hb, hring, hpost⟩
  | log e k ih => exact ih _ (h b (Ledger.moves_refl _ hv)) hv
  | require holds fault k ih =>
    have h := h b (Ledger.moves_refl _ hv)
    by_cases hp : passes build holds
    · rw [if_pos hp] at h
      rw [run, if_pos hp]
      exact ih _ h hv
    · rw [if_neg hp] at h
      rw [run, if_neg hp]
      exact ⟨b, Ledger.moves_refl _ hv, rfl, h⟩

theorem run_bind (build : Build) (p : Access α) (f : α → Access β) (r : Ring g) :
    (p >>= f).run build r =
      match p.run build r with
      | ⟨r', es, .ok a⟩ =>
        ⟨((f a).run build r').ring, es ++ ((f a).run build r').events,
          ((f a).run build r').result⟩
      | ⟨r', es, .error fault⟩ => ⟨r', es, .error fault⟩ := by
  induction p generalizing r with
  | done a => rfl
  | loadIndex o k ih => exact ih _ _
  | storeIndex o i k ih => exact ih _ _
  | loadByte a k ih => exact ih _ _
  | storeByte a v k ih => exact ih _ _
  | log e k ih =>
    have := ih () r
    simp only [Bind.bind] at this
    simp only [Bind.bind, bind, run, this]
    generalize (k ()).run build r = o
    obtain ⟨r', es, _ | a⟩ := o <;> rfl
  | require holds fault k ih =>
    have := ih () r
    simp only [Bind.bind] at this
    simp only [Bind.bind, bind, run, this]
    split <;> rfl

/-- The next access of an operation under way is one of its side's moves and
leaves the rest of the operation safe. It counts an item only if it stores the
index, and then it is the last one. -/
theorem safe_step {p : Access α} {post : Except Fault α → Ledger g → Prop} {b : Ledger g}
    (h : Safe .release side q p (fun _ => post) b) (hv : b.Valid) :
    ∃ b', Ledger.Moves side b b' ∧ (p.step b.ring).2 = b'.ring ∧
      Safe .release side q (p.step b.ring).1 (fun _ => post) b' ∧
      if p.kind? = some (.storeIndex side) then
        b.Ready side ∧ b' = b.advance side ∧ (p.step b.ring).1.kind? = none
      else b'.items = b.items ∧ b'.freed = b.freed := by
  cases p with
  | done a => exact ⟨b, Ledger.moves_refl side hv, rfl, h, rfl, rfl⟩
  | loadIndex o k =>
    refine ⟨b, Ledger.moves_refl _ hv, rfl, ?_, rfl, rfl⟩
    rw [step, Ledger.index_ring]
    exact h b (Ledger.moves_refl _ hv)
  | storeIndex o i k =>
    obtain ⟨-, rfl, a, hk, h⟩ := h
    obtain ⟨hr, rfl, hpost⟩ := h b (Ledger.moves_refl _ hv)
    refine ⟨b.advance o, Ledger.moves_advance hv hr, (Ledger.ring_advance b o).symm, ?_, ?_⟩
    · rw [step, hk]
      exact hpost
    · simp [step, hk, kind?, hr]
  | loadByte a k =>
    exact ⟨b, Ledger.moves_refl _ hv, rfl, (h b (Ledger.moves_refl _ hv)).2, rfl, rfl⟩
  | storeByte a v k =>
    obtain ⟨rfl, h⟩ := h
    obtain ⟨hr, h⟩ := h b (Ledger.moves_refl _ hv)
    exact ⟨b.setByte a v, Ledger.moves_setByte hv v hr, rfl, h, rfl, rfl⟩
  | log e k => exact ⟨b, Ledger.moves_refl _ hv, rfl, h b (Ledger.moves_refl _ hv), rfl, rfl⟩
  | require holds fault k =>
    exact ⟨b, Ledger.moves_refl _ hv, rfl, h b (Ledger.moves_refl _ hv), rfl, rfl⟩

/-- An operation under way stays safe while the other side moves. -/
theorem safe_other {p : Access α} {post : Post g α} {b b' : Ledger g}
    (h : Safe build side q p post b) (hm : Ledger.Moves side.other b b')
    (hp : ∀ a, p = .done a → post [] (.ok a) b') : Safe build side q p post b' := by
  cases p with
  | done a => exact hp a rfl
  | loadIndex o k => exact fun c hc => h c (Ledger.moves_trans hm hc)
  | storeIndex o i k =>
    obtain ⟨hq, ho, a, hk, h⟩ := h
    exact ⟨hq, ho, a, hk, fun c hc => h c (Ledger.moves_trans hm hc)⟩
  | loadByte a k => exact fun c hc => h c (Ledger.moves_trans hm hc)
  | storeByte a v k => exact ⟨h.1, fun c hc => h.2 c (Ledger.moves_trans hm hc)⟩
  | log e k => exact fun c hc => h c (Ledger.moves_trans hm hc)
  | require holds fault k => exact fun c hc => h c (Ledger.moves_trans hm hc)

/-! ## Rules -/

theorem safe_mono {p : Access α} {post post' : Post g α} {b : Ledger g}
    (h : Safe build side q p post b) (hp : ∀ es r b', post es r b' → post' es r b') :
    Safe build side q p post' b := by
  induction p generalizing post post' b with
  | done a => exact hp _ _ _ h
  | loadIndex o k ih => exact fun c hc => ih _ (h c hc) hp
  | storeIndex o i k ih =>
    obtain ⟨hq, ho, a, hk, h⟩ := h
    exact ⟨hq, ho, a, hk, fun c hc => ⟨(h c hc).1, (h c hc).2.1, hp _ _ _ (h c hc).2.2⟩⟩
  | loadByte a k ih => exact fun c hc => ⟨(h c hc).1, ih _ (h c hc).2 hp⟩
  | storeByte a v k ih => exact ⟨h.1, fun c hc => ⟨(h.2 c hc).1, ih _ (h.2 c hc).2 hp⟩⟩
  | log e k ih => exact fun c hc => ih _ (h c hc) fun es => hp (e :: es)
  | require holds fault k ih =>
    intro c hc
    have h := h c hc
    by_cases hh : passes build holds
    · rw [if_pos hh] at h ⊢
      exact ih _ h hp
    · rw [if_neg hh] at h ⊢
      exact hp _ _ _ h

theorem safe_release {p : Access α} {post : Post g α} {b : Ledger g}
    (h : Safe .release side q p post b) :
    Safe .release side q p (fun es r b' => ∃ a, r = .ok a ∧ post es (.ok a) b') b := by
  induction p generalizing post b with
  | done a => exact ⟨a, rfl, h⟩
  | loadIndex o k ih => exact fun c hc => ih _ (h c hc)
  | storeIndex o i k ih =>
    obtain ⟨hq, ho, a, hk, h⟩ := h
    exact ⟨hq, ho, a, hk, fun c hc => ⟨(h c hc).1, (h c hc).2.1, a, rfl, (h c hc).2.2⟩⟩
  | loadByte a k ih => exact fun c hc => ⟨(h c hc).1, ih _ (h c hc).2⟩
  | storeByte a v k ih => exact ⟨h.1, fun c hc => ⟨(h.2 c hc).1, ih _ (h.2 c hc).2⟩⟩
  | log e k ih => exact fun c hc => ih _ (h c hc)
  | require holds fault k ih => exact fun c hc => ih _ (h c hc)

def thenDone (f : α → Access β) (post : Post g β) : Post g α
  | es, .ok a, b => ∀ c, f a = .done c → post es (.ok c) b
  | es, .error fault, b => post es (.error fault) b

/-- A program may end in any part if nothing is left to do after it. -/
theorem safe_end {p : Access α} {f : α → Access β} {post : Post g β} {b : Ledger g}
    (hf : ∀ a, ∃ c, f a = .done c) (h : Safe build side q p (thenDone f post) b) :
    Safe build side q (p >>= f) post b := by
  induction p generalizing post b with
  | done a =>
    obtain ⟨c, hc⟩ := hf a
    show Safe build side q (f a) post b
    rw [hc]
    exact h c hc
  | loadIndex o k ih => exact fun c hc => ih _ (h c hc)
  | storeIndex o i k ih =>
    obtain ⟨hq, ho, a, hk, h⟩ := h
    obtain ⟨c, hc⟩ := hf a
    refine ⟨hq, ho, c, ?_, fun d hd => ⟨(h d hd).1, (h d hd).2.1, (h d hd).2.2 c hc⟩⟩
    show (k ()).bind f = _
    rw [hk]
    exact hc
  | loadByte a k ih => exact fun c hc => ⟨(h c hc).1, ih _ (h c hc).2⟩
  | storeByte a v k ih => exact ⟨h.1, fun c hc => ⟨(h.2 c hc).1, ih _ (h.2 c hc).2⟩⟩
  | log e k ih =>
    intro c hc
    apply ih
    apply safe_mono (h c hc)
    intro es r b' h'
    cases r <;> exact h'
  | require holds fault k ih =>
    intro c hc
    have h := h c hc
    by_cases hh : passes build holds
    · rw [if_pos hh] at h ⊢
      exact ih _ h
    · rw [if_neg hh] at h ⊢
      exact h

end SlotRing.Access
