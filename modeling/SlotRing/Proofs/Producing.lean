import SlotRing.Proofs.Deeds

/-!
# The producer keeps its discipline

Every operation of the producer is safe and comes to its deed: the deed is
done on the ledger as the consumer has left it at the last access. A copy of
the read index, however old, never changes what is done.
-/

set_option autoImplicit false

namespace SlotRing

open Access

namespace Producer

variable {g : Geometry} {build : Build} {q : Bool} {p : Producer} {b : Ledger g}

def after {A : Type} (p : Producer) : Except Fault (Producer × A) → Producer
  | .ok (p', _) => p'
  | .error _ => p

/-- The operation was done at once, after the consumer's last move. -/
def Fulfils (build : Build) (p : Producer) (op : Op) (b : Ledger g) : Post g (Producer × Answer) :=
  fun es r b' => (p.after r).Tracks b' ∧
    Ledger.produce build p.held op { b with freed := b'.freed } =
      ⟨b', (p.after r).held, es, r.map Prod.snd⟩

/-- A claim finds the ring full only when it is, and otherwise the place of
the next item. -/
theorem safe_claim {α : Type} {f : Producer × Option Draft → Access α} {post : Post g α}
    (hp : p.Tracks b) (hd : p.draft = none)
    (hfull : ∀ b' p', Ledger.Moves .consumer b b' → b'.Full → p'.Tracks b' → p'.draft = none →
      Safe build .producer q (f (p', none)) post b')
    (hroom : ∀ b' p' seen, Ledger.Moves .consumer b b' → p'.Sees b' seen →
      b'.published + 1 < seen + g.slots → p'.draft = none →
      Safe build .producer q
        (f (p', some ⟨g.place b'.published, g.place (b'.published + 1)⟩)) post b') :
    Safe build .producer q (p.claim g >>= f) post b := by
  obtain ⟨seen, hs⟩ := hp
  simp only [claim, LawfulMonad.bind_assoc]
  apply safe_load
  intro c hc
  apply safe_advance
  intro d hd'
  have hm : Ledger.Moves .consumer b d := Ledger.moves_trans hc hd'
  have hcd : c.published = d.published := (Ledger.published_consumer hd').symm
  simp only [Ledger.counter, hcd]
  have hseen := sees_other hs hm
  have hle := hseen.le_freed
  have hlt := hseen.published_lt
  have hfp := hm.1.freed_le
  rw [hs.cachedRead]
  -- An old copy may show no room where there is some, so only the reload counts.
  by_cases hn : g.place (d.published + 1) = g.place seen
  · rw [if_pos hn, LawfulMonad.bind_assoc]
    have hround := (g.place_succ_eq_iff (by omega) hlt).mp hn
    apply safe_load
    intro e he
    have hmove := Ledger.moves_trans hm he
    have hpub := Ledger.published_consumer he
    have hev := he.1.published_lt
    have hfe := he.1.freed_le
    have hsees : ({ p with cachedRead := g.place e.freed } : Producer).Sees e e.freed :=
      ⟨rfl, Nat.le_refl _, hev, fun x hx => absurd hx (by simp [hd])⟩
    rw [LawfulMonad.pure_bind, ← hpub]
    by_cases hf : g.place (e.published + 1) = g.place e.freed
    · have hfull' : e.Full := (g.place_succ_eq_iff hfe hev).mp hf
      rw [Ledger.counter, if_pos hf]
      exact hfull e _ hmove hfull' ⟨_, hsees⟩ hd
    · have hne : ¬ e.published + 1 = e.freed + g.slots := fun h =>
        hf ((g.place_succ_eq_iff hfe hev).mpr h)
      rw [Ledger.counter, if_neg hf]
      exact hroom e _ _ hmove hsees (by omega) hd
  · rw [if_neg hn]
    have hne : ¬ d.published + 1 = seen + g.slots := fun h =>
      hn ((g.place_succ_eq_iff (by omega) hlt).mpr h)
    exact hroom d p seen hm hseen (by omega) hd

theorem tracks_publish {seen : Nat} {bytes : List UInt8} (hs : p.Sees b seen)
    (hlt : b.published + 1 < seen + g.slots) (hd : p.draft = none) :
    p.Tracks (b.write 0 bytes).publish := by
  refine ⟨seen, hs.cachedRead, hs.le_freed, ?_, fun d h => absurd h (by simp [hd])⟩
  rw [Ledger.published_publish]
  exact hlt

theorem safe_push {item : List UInt8} {post : Post g (Producer × Except PushRefusal Unit)}
    (hp : p.Tracks b) (hd : p.draft = none)
    (hlong : g.slotSize < item.length → ∀ b', Ledger.Moves .consumer b b' →
      match build with
      | .release => post [.pushOversized item.length g.slotSize]
          (.ok (p, .error (.oversized item.length g.slotSize))) b'
      | .checked => post [] (.error (.oversizedItem item.length g.slotSize)) b')
    (hfull : item.length ≤ g.slotSize → ∀ b' p', Ledger.Moves .consumer b b' → b'.Full →
      p'.Tracks b' → p'.draft = none → post [] (.ok (p', .error .full)) b')
    (hroom : item.length ≤ g.slotSize → ∀ b' p', Ledger.Moves .consumer b b' →
      b'.Ready .producer → p'.Tracks (b'.write 0 item).publish → p'.draft = none →
      post [] (.ok (p', .ok ())) (b'.write 0 item).publish) :
    Safe build .producer true (p.push g item) post b := by
  by_cases hl : item.length ≤ g.slotSize
  · apply safe_demand (decide_eq_true hl)
    intro c hc
    rw [if_neg (by omega)]
    apply safe_claim (tracks_other hp hc) hd
    · exact fun e p' he hf ht hn => hfull hl e p' (Ledger.moves_trans hc he) hf ht hn
    · intro e p' seen he hs hlt hn
      have hle := hs.le_freed
      have hr : e.Ready .producer := by simp only [Ledger.Ready]; omega
      apply safe_storeFront hr hl
      intro d hed
      apply safe_end (fun _ => ⟨_, rfl⟩)
      apply safe_store
      intro x hx
      obtain ⟨d', hd', rfl⟩ := Ledger.moves_past_write hed.1 hx
      have hm := Ledger.moves_trans hed hd'
      have hr' := Ledger.ready_consumer hm hr
      have hpub : d'.published = e.published := Ledger.published_consumer hm
      refine ⟨hr', by rw [Ledger.counter, Ledger.published_write, hpub], ?_⟩
      rintro _ ⟨⟩
      apply hroom hl d' p' (Ledger.moves_trans hc (Ledger.moves_trans he hm)) hr' _ hn
      exact tracks_publish (sees_other hs hm) (by omega) hn
  · have hlt : g.slotSize < item.length := by omega
    intro c hc
    have h := hlong hlt c hc
    cases build with
    | release =>
      have hpass : passes .release (item.length ≤ g.slotSize) = true := rfl
      rw [if_pos hpass]
      show Safe _ _ _ (ite _ _ _) _ _
      rw [if_pos hlt]
      intro d hd
      exact hlong hlt d (Ledger.moves_trans hc hd)
    | checked =>
      rw [if_neg (by simpa [passes] using hl)]
      exact h

/-! ## The draft -/

structure Holds (p : Producer) (b : Ledger g) : Prop where
  draft : p.draft = some ⟨g.place b.published, g.place (b.published + 1)⟩
  room : ∃ seen, p.Sees b seen ∧ b.published + 1 < seen + g.slots

theorem holds_of_draft {d : Draft} (hp : p.Tracks b) (hd : p.draft = some d) :
    d = ⟨g.place b.published, g.place (b.published + 1)⟩ ∧ p.Holds b := by
  obtain ⟨seen, hs⟩ := hp
  obtain ⟨rfl, hlt⟩ := hs.draft d hd
  exact ⟨rfl, hd, seen, hs, hlt⟩

theorem holds_ready (h : p.Holds b) : b.Ready .producer := by
  obtain ⟨seen, hs, hlt⟩ := h.room
  exact Nat.lt_of_lt_of_le hlt (Nat.add_le_add_right hs.le_freed _)

theorem ready_of_held (hp : p.Tracks b) (h : p.held = true) : b.Ready .producer := by
  obtain ⟨d, hd⟩ := Option.isSome_iff_exists.mp h
  exact holds_ready (holds_of_draft hp hd).2

theorem holds_tracks (h : p.Holds b) : p.Tracks b := by
  obtain ⟨seen, hs, _⟩ := h.room
  exact ⟨seen, hs⟩

theorem holds_other {b' : Ledger g} (h : p.Holds b) (hm : Ledger.Moves .consumer b b') :
    p.Holds b' := by
  obtain ⟨seen, hs, hlt⟩ := h.room
  rw [← Ledger.published_consumer hm] at hlt
  refine ⟨?_, seen, sees_other hs hm, hlt⟩
  rw [Ledger.published_consumer hm]
  exact h.draft

theorem holds_write (h : p.Holds b) (position : Nat) (bytes : List UInt8) :
    p.Holds (b.write position bytes) := by
  obtain ⟨seen, hs, hlt⟩ := h.room
  exact ⟨h.draft, seen, ⟨hs.cachedRead, hs.le_freed, hs.published_lt, hs.draft⟩, hlt⟩

theorem tracks_endDraft (h : p.Holds b) (how : Draft.Ending) :
    ({ p with draft := none } : Producer).Tracks (b.endDraft how).1 := by
  obtain ⟨seen, hs, hlt⟩ := h.room
  refine ⟨seen, hs.cachedRead, ?_, ?_, nofun⟩
  · cases how <;> exact hs.le_freed
  · cases how with
    | release | drop => simpa [Ledger.endDraft] using hlt
    | discard | forget | unwind => exact hs.published_lt

theorem safe_endDraft {how : Draft.Ending} {post : Post g Unit} (hv : b.Valid)
    (hr : b.Ready .producer) (h : ∀ b', Ledger.Moves .consumer b b' →
      post (b'.endDraft how).2 (.ok ()) (b'.endDraft how).1) :
    Safe build .producer true
      (Draft.finish ⟨g.place b.published, g.place (b.published + 1)⟩ how) post b := by
  have hpublish : (∀ b', Ledger.Moves .consumer b b' →
      post [.draftPublished (g.place b'.published)] (.ok ()) b'.publish) →
      Safe build .producer true
        (Draft.publish ⟨g.place b.published, g.place (b.published + 1)⟩) post b := by
    intro hp
    apply safe_report
    intro c hc
    apply safe_store
    intro d hd
    have hm := Ledger.moves_trans hc hd
    have hpub := Ledger.published_consumer hm
    have := hp d hm
    rw [hpub] at this
    exact ⟨Ledger.ready_consumer hm hr, by rw [Ledger.counter, hpub], this⟩
  cases how with
  | release => exact hpublish h
  | drop => exact hpublish h
  | discard | unwind =>
    intro c hc
    have := h c hc
    simp only [Ledger.endDraft, Ledger.published_consumer hc] at this
    exact this
  | forget => exact h b (Ledger.moves_refl _ hv)

theorem safe_finish {how : Draft.Ending} {post : Post g Producer} (hv : b.Valid) (h : p.Holds b)
    (hend : ∀ b', Ledger.Moves .consumer b b' →
      ({ p with draft := none } : Producer).Tracks (b'.endDraft how).1 →
      post (b'.endDraft how).2 (.ok { p with draft := none }) (b'.endDraft how).1) :
    Safe build .producer true (p.finish how) post b := by
  rw [finish, h.draft]
  apply safe_end (fun _ => ⟨_, rfl⟩)
  apply safe_endDraft hv (holds_ready h)
  rintro c hc _ ⟨⟩
  exact hend c hc (tracks_endDraft (holds_other h hc) how)

/-! ## Operations with no draft held -/

theorem held_of_none (hd : p.draft = none) : p.held = false := by
  rw [held, hd]
  rfl

theorem fulfils_free {op : Op} {es : List Event} {r : Except Fault (Producer × Answer)}
    {b' c : Ledger g} (hd : p.draft = none) (hm : Ledger.Moves .consumer b b')
    (hf : c.freed = b'.freed) (ht : (p.after r).Tracks c)
    (hdeed : b'.produceFree build op = ⟨c, (p.after r).held, es, r.map Prod.snd⟩) :
    p.Fulfils build op b es r c := by
  refine ⟨ht, ?_⟩
  rw [hf, Ledger.eq_of_consumer hm, held_of_none hd]
  exact hdeed

theorem safe_performPush (item : List UInt8) (hp : p.Tracks b) (hd : p.draft = none) :
    Safe build .producer true (p.performFree g (.push item)) (p.Fulfils build (.push item) b)
      b := by
  apply safe_end (by rintro ⟨p, _ | _⟩ <;> exact ⟨_, rfl⟩)
  apply safe_push hp hd
  · intro hl c hc
    have ht : p.Tracks c := tracks_other hp hc
    cases build with
    | release =>
      rintro _ ⟨⟩
      refine fulfils_free hd hc rfl ht ?_
      simp only [after, held_of_none hd, Ledger.produceFree, if_pos hl]
      rfl
    | checked =>
      refine fulfils_free hd hc rfl ht ?_
      simp only [after, held_of_none hd, Ledger.produceFree, if_pos hl]
      rfl
  · rintro hl c p' hc hf ht hn _ ⟨⟩
    refine fulfils_free hd hc rfl ht ?_
    simp only [after, held_of_none hn, Ledger.produceFree, if_neg (Nat.not_lt.mpr hl), if_pos hf]
    rfl
  · rintro hl c p' hc hr ht hn _ ⟨⟩
    have hf : ¬ c.Full := Nat.ne_of_lt hr
    refine fulfils_free hd hc rfl ht ?_
    simp only [after, held_of_none hn, Ledger.produceFree, if_neg (Nat.not_lt.mpr hl), if_neg hf]
    rfl

theorem safe_performDraft (hp : p.Tracks b) (hd : p.draft = none) :
    Safe build .producer true (p.performFree g .draft) (p.Fulfils build .draft b) b := by
  apply safe_claim hp hd
  · intro c p' hc hf ht hn
    refine fulfils_free hd hc rfl ht ?_
    simp only [after, held_of_none hn, Ledger.produceFree, if_pos hf]
    rfl
  · intro c p' seen hc hs hlt hn
    have hle := hs.le_freed
    have hr : c.Ready .producer := by simp only [Ledger.Ready]; omega
    apply safe_loadSlot hc.1 hr
    intro d hcd
    have hpub := Ledger.published_consumer hcd
    have hf : ¬ d.Full := Nat.ne_of_lt (Ledger.ready_consumer hcd hr)
    have hs' := sees_other hs hcd
    apply fulfils_free hd (Ledger.moves_trans hc hcd) rfl
    · refine ⟨seen, hs'.cachedRead, hs'.le_freed, hs'.published_lt, ?_⟩
      rintro _ ⟨⟩
      rw [hpub]
      exact ⟨rfl, hlt⟩
    · simp only [Ledger.produceFree, if_neg hf, hpub, Ledger.slot_of_storage hcd.2.1]
      rfl

theorem safe_performFree (op : Op) (hv : b.Valid) (hp : p.Tracks b) (hd : p.draft = none) :
    Safe build .producer true (p.performFree g op) (p.Fulfils build op b) b := by
  cases op with
  | push item => exact safe_performPush item hp hd
  | draft => exact safe_performDraft hp hd
  | contents | store _ _ | fill _ | overwrite _ | finish _ =>
    refine fulfils_free hd (Ledger.moves_refl _ hv) rfl hp ?_
    simp only [after, held_of_none hd]
    rfl

/-! ## Operations on the draft held -/

theorem held_of_holds (h : p.Holds b) : p.held = true := by
  rw [held, h.draft]
  rfl

theorem fulfils_holding {op : Op} {es : List Event} {r : Except Fault (Producer × Answer)}
    {b' c : Ledger g} (h : p.Holds b) (hm : Ledger.Moves .consumer b b')
    (hf : c.freed = b'.freed) (ht : (p.after r).Tracks c)
    (hdeed : b'.produceHolding op = ⟨c, (p.after r).held, es, r.map Prod.snd⟩) :
    p.Fulfils build op b es r c := by
  refine ⟨ht, ?_⟩
  rw [hf, Ledger.eq_of_consumer hm, held_of_holds h]
  exact hdeed

theorem safe_settle {stored : Bool} {post : Post g (Producer × Answer)} (hv : b.Valid)
    (h : p.Holds b) (hend : ∀ es r b', Ledger.Moves .consumer b b' → (p.after r).Tracks b' →
      b'.settle stored = ⟨b', (p.after r).held, es, r.map Prod.snd⟩ → post es r b') :
    Safe build .producer true
      (p.settle g ⟨g.place b.published, g.place (b.published + 1)⟩ stored) post b := by
  cases stored with
  | true =>
    apply safe_loadSlot hv (holds_ready h)
    intro c hc
    apply hend [] (.ok (p, .contents (b.slot b.published))) c hc (holds_tracks (holds_other h hc))
    have hpub := Ledger.published_consumer hc
    simp only [Ledger.settle, after, held_of_holds h, hpub, Ledger.slot_of_storage hc.2.1]
    rfl
  | false =>
    apply safe_end (fun _ => ⟨_, rfl⟩)
    apply safe_finish hv h
    rintro c hc ht _ ⟨⟩
    exact hend _ _ c hc ht rfl

/-- Stores into the draft amount to a write before the consumer's last moves. -/
theorem safe_settleWrite {op : Op} {c : Ledger g} {position : Nat} {bytes : List UInt8}
    {stored : Bool} (h : p.Holds b) (hc : Ledger.Moves .consumer b c)
    (hl : g.Fits position bytes)
    (hop : ∀ b' : Ledger g, b'.produceHolding op = (b'.write position bytes).settle stored) :
    Safe build .producer true
      (p.settle g ⟨g.place b.published, g.place (b.published + 1)⟩ stored)
      (p.Fulfils build op b) (c.write position bytes) := by
  rw [← Ledger.published_consumer hc]
  apply safe_settle (Ledger.valid_write hc.1 hl) (holds_write (holds_other h hc) position bytes)
  intro es r b' hm ht hb
  obtain ⟨e, he, rfl⟩ := Ledger.moves_past_write hc.1 hm
  refine fulfils_holding h (Ledger.moves_trans hc he) rfl ht ?_
  rw [hop e, hb]

theorem safe_performHolding (op : Op) (hv : b.Valid) (h : p.Holds b) :
    Safe build .producer true
      (p.performHolding g ⟨g.place b.published, g.place (b.published + 1)⟩ op)
      (p.Fulfils build op b) b := by
  have hr := holds_ready h
  cases op with
  | push item | draft =>
    refine fulfils_holding h (Ledger.moves_refl _ hv) rfl (holds_tracks h) ?_
    simp only [after, held_of_holds h]
    rfl
  | contents =>
    apply safe_loadSlot hv hr
    intro c hc
    refine fulfils_holding h hc rfl (holds_tracks (holds_other h hc)) ?_
    simp only [after, held_of_holds h, Ledger.produceHolding, Ledger.published_consumer hc,
      Ledger.slot_of_storage hc.2.1]
    rfl
  | store position bytes =>
    apply safe_storeWithin hr
    exact fun c hc => safe_settleWrite h hc (g.fits_take position bytes) fun _ => rfl
  | fill byte =>
    have hl : (List.replicate g.slotSize byte).length ≤ g.slotSize :=
      Nat.le_of_eq (List.length_replicate)
    apply safe_storeFront hr hl
    exact fun c hc => safe_settleWrite h hc (g.fits_zero hl) fun _ => rfl
  | overwrite bytes =>
    by_cases hl : bytes.length = g.slotSize
    · rw [performHolding, if_pos hl]
      apply safe_storeFront hr (Nat.le_of_eq hl)
      intro c hc
      apply safe_settleWrite h hc (g.fits_zero (Nat.le_of_eq hl))
      intro b'
      rw [Ledger.produceHolding, if_pos hl]
    · rw [performHolding, if_neg hl]
      apply safe_settle hv h
      intro es r b' hm ht hb
      refine fulfils_holding h hm rfl ht ?_
      rw [Ledger.produceHolding, if_neg hl, hb]
  | finish how =>
    apply safe_end (fun _ => ⟨_, rfl⟩)
    apply safe_finish hv h
    rintro c hc ht _ ⟨⟩
    have hf : (c.endDraft how).1.freed = c.freed := by cases how <;> rfl
    exact fulfils_holding h hc hf ht rfl

/-! ## All operations -/

/-- Every operation of the producer keeps the discipline and comes to its deed. -/
theorem safe_perform (op : Op) (hv : b.Valid) (hp : p.Tracks b) :
    Safe build .producer true (p.perform g op) (p.Fulfils build op b) b := by
  rw [perform]
  cases hd : p.draft with
  | none => exact safe_performFree op hv hp hd
  | some d =>
    obtain ⟨rfl, h⟩ := holds_of_draft hp hd
    exact safe_performHolding op hv h

end Producer

end SlotRing
