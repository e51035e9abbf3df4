import SlotRing.Proofs.Deeds

/-!
# The consumer keeps its discipline

Every operation of the consumer is safe and comes to its deed: the deed is
done on the ledger as the producer has left it at the last access. A copy of
the write index, however old, never changes what is done, and what is read is
the item on record.
-/

set_option autoImplicit false

namespace SlotRing

open Access

namespace Consumer

variable {g : Geometry} {build : Build} {q : Bool} {c : Consumer} {b : Ledger g}

def after {A : Type} (c : Consumer) : Except Fault (Consumer × A) → Consumer
  | .ok (c', _) => c'
  | .error _ => c

def Fulfils (c : Consumer) (op : Op) (b : Ledger g) : Post g (Consumer × Answer) :=
  fun es r b' => (c.after r).Tracks b' ∧
    Ledger.consume c.held op { b' with freed := b.freed } =
      ⟨b', (c.after r).held, es, r.map Prod.snd⟩

/-- The consumer finds the ring empty only when it is, and otherwise the
place of the oldest item. -/
theorem safe_locate {α : Type} {f : Consumer × Option Loan → Access α} {post : Post g α}
    (hc : c.Tracks b) (hl : c.loan = none)
    (hempty : ∀ b' c', Ledger.Moves .producer b b' → b'.Empty → c'.Tracks b' → c'.loan = none →
      Safe build .consumer q (f (c', none)) post b')
    (hitem : ∀ b' c' seen, Ledger.Moves .producer b b' → c'.Sees b' seen → b'.freed < seen →
      c'.loan = none → Safe build .consumer q (f (c', some ⟨g.place b'.freed⟩)) post b') :
    Safe build .consumer q (c.locate >>= f) post b := by
  obtain ⟨seen, hs⟩ := hc
  simp only [locate, LawfulMonad.bind_assoc]
  apply safe_load
  intro d hd
  have hseen := sees_other hs hd
  have hlt := hd.1.published_lt
  have hle := hseen.le_published
  rw [Ledger.counter, hs.cachedWrite]
  -- An old copy may show no item where there is one, so only the reload counts.
  by_cases hn : g.place d.freed = g.place seen
  · rw [if_pos hn, LawfulMonad.bind_assoc]
    apply safe_load
    intro e he
    have hm := Ledger.moves_trans hd he
    have hf : e.freed = d.freed := he.2.1
    have hpe := he.1.published_lt
    have hfe := he.1.freed_le
    have hsees : ({ c with cachedWrite := g.place e.published } : Consumer).Sees e e.published :=
      ⟨rfl, hfe, Nat.le_refl _, fun x hx => absurd hx (by simp [hl])⟩
    rw [LawfulMonad.pure_bind, ← hf]
    by_cases h : g.place e.freed = g.place e.published
    · rw [Ledger.counter, if_pos h]
      exact hempty e _ hm ((g.place_inj hfe hpe).mp h) ⟨_, hsees⟩ hl
    · have hne : e.freed ≠ e.published := fun he => h (congrArg g.place he)
      rw [Ledger.counter, if_neg h]
      exact hitem e _ _ hm hsees (Nat.lt_of_le_of_ne hfe hne) hl
  · rw [if_neg hn]
    have hne : d.freed ≠ seen := fun he => hn (congrArg g.place he)
    exact hitem d c seen hd hseen (Nat.lt_of_le_of_ne hseen.freed_le hne) hl

theorem sees_ready {seen : Nat} (h : c.Sees b seen) (hlt : b.freed < seen) : b.Ready .consumer :=
  Nat.lt_of_lt_of_le hlt h.le_published

theorem tracks_free {seen : Nat} (h : c.Sees b seen) (hlt : b.freed < seen) (hl : c.loan = none) :
    c.Tracks b.free :=
  ⟨seen, h.cachedWrite, hlt, h.le_published, fun x hx => absurd hx (by simp [hl])⟩

theorem oldest_other {b' : Ledger g} (hv : b.Valid) (hr : b.Ready .consumer)
    (hm : Ledger.Moves .producer b b') : b'.oldest = b.slot b.freed := by
  rw [Ledger.oldest_eq hm.1 (@Ledger.ready_other g .consumer b b' hm hr)]
  exact @Ledger.front_other g .consumer b b' hv hm hr

theorem safe_take {room : Nat} {post : Post g (Consumer × Option (List UInt8))}
    (hc : c.Tracks b) (hl : c.loan = none)
    (hempty : ∀ b' c', Ledger.Moves .producer b b' → b'.Empty → c'.Tracks b' → c'.loan = none →
      post [] (.ok (c', none)) b')
    (hitem : ∀ b' c', Ledger.Moves .producer b b' → b'.Ready .consumer → c'.Tracks b'.free →
      c'.loan = none → post [] (.ok (c', some (b'.oldest.take room))) b'.free) :
    Safe build .consumer true (c.take g room) post b := by
  apply safe_locate hc hl
  · exact hempty
  intro d c' seen hd hs hlt hl'
  have hr := sees_ready hs hlt
  apply safe_loadFront hd.1 hr (Nat.min_le_right _ _)
  intro e he
  apply safe_advance
  intro x hx
  apply safe_end (fun _ => ⟨_, rfl⟩)
  apply safe_store
  intro y hy
  have hm : Ledger.Moves .producer d y := Ledger.moves_trans he (Ledger.moves_trans hx hy)
  have hr' : y.Ready .consumer := @Ledger.ready_other g .consumer d y hm hr
  have hf : y.freed = d.freed := hm.2.1
  have ht : c'.Tracks y.free := tracks_free (sees_other hs hm) (hf ▸ hlt) hl'
  have htake : (d.slot d.freed).take (min room g.slotSize) = y.oldest.take room := by
    rw [oldest_other hd.1 hr hm, List.take_eq_take_iff, d.length_slot]
    omega
  refine ⟨hr', by rw [Ledger.counter, hf], ?_⟩
  rintro _ ⟨⟩
  show post [] (.ok (c', some ((d.slot d.freed).take (min room g.slotSize)))) y.free
  rw [htake]
  exact hitem y c' (Ledger.moves_trans hd hm) hr' ht hl'

/-! ## The loan -/

structure Holds (c : Consumer) (b : Ledger g) : Prop where
  loan : c.loan = some ⟨g.place b.freed⟩
  room : ∃ seen, c.Sees b seen ∧ b.freed < seen

theorem holds_of_loan {l : Loan} (hc : c.Tracks b) (hl : c.loan = some l) :
    l = ⟨g.place b.freed⟩ ∧ c.Holds b := by
  obtain ⟨seen, hs⟩ := hc
  obtain ⟨rfl, hlt⟩ := hs.loan l hl
  exact ⟨rfl, hl, seen, hs, hlt⟩

theorem holds_ready (h : c.Holds b) : b.Ready .consumer := by
  obtain ⟨seen, hs, hlt⟩ := h.room
  exact sees_ready hs hlt

theorem ready_of_held (hc : c.Tracks b) (h : c.held = true) : b.Ready .consumer := by
  obtain ⟨l, hl⟩ := Option.isSome_iff_exists.mp h
  exact holds_ready (holds_of_loan hc hl).2

theorem holds_tracks (h : c.Holds b) : c.Tracks b := by
  obtain ⟨seen, hs, _⟩ := h.room
  exact ⟨seen, hs⟩

theorem holds_other {b' : Ledger g} (h : c.Holds b) (hm : Ledger.Moves .producer b b') :
    c.Holds b' := by
  obtain ⟨seen, hs, hlt⟩ := h.room
  have hf : b'.freed = b.freed := hm.2.1
  rw [← hf] at hlt
  refine ⟨?_, seen, sees_other hs hm, hlt⟩
  rw [hf]
  exact h.loan

theorem tracks_endLoan (h : c.Holds b) (how : Loan.Ending) :
    ({ c with loan := none } : Consumer).Tracks (b.endLoan how).1 := by
  obtain ⟨seen, hs, hlt⟩ := h.room
  refine ⟨seen, hs.cachedWrite, ?_, ?_, nofun⟩
  · cases how with
    | release | drop | unwind => exact hlt
    | retain | forget => exact hs.freed_le
  · cases how <;> exact hs.le_published

theorem safe_endLoan {how : Loan.Ending} {post : Post g Unit} (hv : b.Valid)
    (hr : b.Ready .consumer) (h : ∀ b', Ledger.Moves .producer b b' →
      post (b'.endLoan how).2 (.ok ()) (b'.endLoan how).1) :
    Safe build .consumer true (Loan.finish ⟨g.place b.freed⟩ g how) post b := by
  have hfree : (∀ b', Ledger.Moves .producer b b' →
      post [.loanReleased (g.place b'.freed)] (.ok ()) b'.free) →
      Safe build .consumer true (Loan.free ⟨g.place b.freed⟩ g) post b := by
    intro hp
    apply safe_report
    intro d hd
    apply safe_advance
    intro e he
    apply safe_store
    intro x hx
    have hm : Ledger.Moves .producer b x := Ledger.moves_trans hd (Ledger.moves_trans he hx)
    have hf : x.freed = b.freed := hm.2.1
    have := hp x hm
    rw [hf] at this
    exact ⟨@Ledger.ready_other g .consumer b x hm hr, by rw [Ledger.counter, hf], this⟩
  cases how with
  | release => exact hfree h
  | drop => exact hfree h
  | unwind => exact hfree h
  | retain =>
    intro d hd
    have hf : d.freed = b.freed := hd.2.1
    have := h d hd
    rw [Ledger.endLoan, hf] at this
    exact this
  | forget => exact h b (Ledger.moves_refl _ hv)

theorem safe_finish {how : Loan.Ending} {post : Post g Consumer} (hv : b.Valid) (h : c.Holds b)
    (hend : ∀ b', Ledger.Moves .producer b b' →
      ({ c with loan := none } : Consumer).Tracks (b'.endLoan how).1 →
      post (b'.endLoan how).2 (.ok { c with loan := none }) (b'.endLoan how).1) :
    Safe build .consumer true (c.finish g how) post b := by
  rw [finish, h.loan]
  apply safe_end (fun _ => ⟨_, rfl⟩)
  apply safe_endLoan hv (holds_ready h)
  rintro d hd _ ⟨⟩
  exact hend d hd (tracks_endLoan (holds_other h hd) how)

/-! ## Operations with no loan held -/

theorem held_of_none (hl : c.loan = none) : c.held = false := by
  rw [held, hl]
  rfl

theorem fulfils_free {op : Op} {es : List Event} {r : Except Fault (Consumer × Answer)}
    {b' d : Ledger g} (hl : c.loan = none) (hm : Ledger.Moves .producer b b')
    (hd : ({ d with freed := b'.freed } : Ledger g) = b') (ht : (c.after r).Tracks d)
    (hdeed : b'.consumeFree op = ⟨d, (c.after r).held, es, r.map Prod.snd⟩) :
    c.Fulfils op b es r d := by
  have hf : b'.freed = b.freed := hm.2.1
  refine ⟨ht, ?_⟩
  rw [← hf, hd, held_of_none hl]
  exact hdeed

theorem safe_performPop (dest : List UInt8) (hc : c.Tracks b) (hl : c.loan = none) :
    Safe build .consumer true (c.performFree g (.pop dest)) (c.Fulfils (.pop dest) b) b := by
  apply safe_end (by rintro ⟨c, _ | _⟩ <;> exact ⟨_, rfl⟩)
  apply safe_take hc hl
  · rintro d c' hd he ht hn _ ⟨⟩
    refine fulfils_free hl hd rfl ht ?_
    simp only [after, held_of_none hn, Ledger.consumeFree, if_pos he]
    rfl
  · rintro d c' hd hr ht hn _ ⟨⟩
    have he : ¬ d.Empty := Nat.ne_of_lt hr
    refine fulfils_free hl hd rfl ht ?_
    simp only [after, held_of_none hn, Ledger.consumeFree, if_neg he]
    rfl

theorem safe_performBorrow (hc : c.Tracks b) (hl : c.loan = none) :
    Safe build .consumer true (c.performFree g .borrow) (c.Fulfils .borrow b) b := by
  apply safe_locate hc hl
  · intro d c' hd he ht hn
    refine fulfils_free hl hd rfl ht ?_
    simp only [after, held_of_none hn, Ledger.consumeFree, if_pos he]
    rfl
  · intro d c' seen hd hs hlt hn
    have hr := sees_ready hs hlt
    apply safe_loadSlot hd.1 hr
    intro e he
    have hf : e.freed = d.freed := he.2.1
    have hne : ¬ e.Empty := Nat.ne_of_lt (@Ledger.ready_other g .consumer d e he hr)
    have hs' := sees_other hs he
    apply fulfils_free hl (Ledger.moves_trans hd he) rfl
    · refine ⟨seen, hs'.cachedWrite, hs'.freed_le, hs'.le_published, ?_⟩
      rintro _ ⟨⟩
      rw [hf]
      exact ⟨rfl, hlt⟩
    · simp only [Ledger.consumeFree, if_neg hne, hf, oldest_other hd.1 hr he]
      rfl

theorem safe_performFree (op : Op) (hv : b.Valid) (hc : c.Tracks b) (hl : c.loan = none) :
    Safe build .consumer true (c.performFree g op) (c.Fulfils op b) b := by
  cases op with
  | pop dest => exact safe_performPop dest hc hl
  | borrow => exact safe_performBorrow hc hl
  | contents | byteAt _ | finish _ =>
    refine fulfils_free hl (Ledger.moves_refl _ hv) rfl hc ?_
    simp only [after, held_of_none hl]
    rfl

/-! ## Operations on the loan held -/

theorem held_of_holds (h : c.Holds b) : c.held = true := by
  rw [held, h.loan]
  rfl

theorem fulfils_holding {op : Op} {es : List Event} {r : Except Fault (Consumer × Answer)}
    {b' d : Ledger g} (h : c.Holds b) (hm : Ledger.Moves .producer b b')
    (hd : ({ d with freed := b'.freed } : Ledger g) = b') (ht : (c.after r).Tracks d)
    (hdeed : b'.consumeHolding op = ⟨d, (c.after r).held, es, r.map Prod.snd⟩) :
    c.Fulfils op b es r d := by
  have hf : b'.freed = b.freed := hm.2.1
  refine ⟨ht, ?_⟩
  rw [← hf, hd, held_of_holds h]
  exact hdeed

theorem safe_performByteAt (position : Nat) (hv : b.Valid) (h : c.Holds b) :
    Safe build .consumer true (c.performHolding g ⟨g.place b.freed⟩ (.byteAt position))
      (c.Fulfils (.byteAt position) b) b := by
  have hr := holds_ready h
  by_cases hp : position < g.slotSize
  · rw [performHolding, if_pos hp]
    apply safe_address
    intro d hd
    have hr' : d.Ready .consumer := @Ledger.ready_other g .consumer b d hd hr
    have hf : d.freed = b.freed := hd.2.1
    rw [← hf]
    apply safe_loadByteAt hd.1 hr' hp
    intro e v he hv'
    have hm := Ledger.moves_trans hd he
    have hget : e.oldest[position]? = some v := by
      rw [oldest_other hd.1 hr' he]
      exact hv'
    refine fulfils_holding h hm rfl (holds_tracks (holds_other h hm)) ?_
    rw [Ledger.consumeHolding, hget]
    simp only [after, held_of_holds h]
    rfl
  · rw [performHolding, if_neg hp]
    apply safe_end (fun _ => ⟨_, rfl⟩)
    apply safe_finish hv h
    rintro d hd ht _ ⟨⟩
    have hget : d.oldest[position]? = none := by
      rw [oldest_other hv hr hd, List.getElem?_eq_none_iff, b.length_slot]
      omega
    refine fulfils_holding h hd rfl ht ?_
    rw [Ledger.consumeHolding, hget]
    rfl

theorem safe_performHolding (op : Op) (hv : b.Valid) (h : c.Holds b) :
    Safe build .consumer true (c.performHolding g ⟨g.place b.freed⟩ op) (c.Fulfils op b) b := by
  have hr := holds_ready h
  cases op with
  | pop dest | borrow =>
    refine fulfils_holding h (Ledger.moves_refl _ hv) rfl (holds_tracks h) ?_
    simp only [after, held_of_holds h]
    rfl
  | contents =>
    apply safe_loadSlot hv hr
    intro d hd
    refine fulfils_holding h hd rfl (holds_tracks (holds_other h hd)) ?_
    rw [Ledger.consumeHolding, oldest_other hv hr hd]
    simp only [after, held_of_holds h]
    rfl
  | byteAt position => exact safe_performByteAt position hv h
  | finish how =>
    apply safe_end (fun _ => ⟨_, rfl⟩)
    apply safe_finish hv h
    rintro d hd ht _ ⟨⟩
    have hback : ({ (d.endLoan how).1 with freed := d.freed } : Ledger g) = d := by
      cases how <;> rfl
    exact fulfils_holding h hd hback ht rfl

/-! ## All operations -/

/-- Every operation of the consumer keeps the discipline and comes to its deed. -/
theorem safe_perform (op : Op) (hv : b.Valid) (hc : c.Tracks b) :
    Safe build .consumer true (c.perform g op) (c.Fulfils op b) b := by
  rw [perform]
  cases hl : c.loan with
  | none => exact safe_performFree op hv hc hl
  | some l =>
    obtain ⟨rfl, h⟩ := holds_of_loan hc hl
    exact safe_performHolding op hv h

end Consumer

end SlotRing
