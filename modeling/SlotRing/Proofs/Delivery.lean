import SlotRing.Proofs.Accounts
import SlotRing.Proofs.Turns
import SlotRing.Transfer

/-!
# Transfers do not depend on the schedule

`Plan.deliver` sends the items of a transfer one after another into the slots
in their order, with no ring and no other thread. Whatever the schedule, the
sender has stored and published what it says for the items sent so far, and
the receiver has received it in order, so two transfers that come to an end
agree in everything but the number of attempts.
-/

set_option autoImplicit false

namespace SlotRing.Transfer

open Access

/-- The storage after some items, and what each of those that were accepted
left in its slot. -/
structure Delivery where
  storage : Storage
  slots : List (List UInt8)

namespace Delivery

def spoilt (g : Geometry) (d : Delivery) (waste : List UInt8) : Storage :=
  d.storage.write (g.base d.slots.length) waste

def accept (g : Geometry) (d : Delivery) (mode : SendMode) (waste item : List UInt8) : Delivery :=
  let before := if mode = .redo then d.spoilt g waste else d.storage
  let storage := before.write (g.base d.slots.length) (item.take g.slotSize)
  ⟨storage, d.slots ++ [storage.slice (g.base d.slots.length) g.slotSize]⟩

end Delivery

namespace Plan

def rejects (t : Plan) (g : Geometry) (i : Nat) : Bool :=
  match t.item? i with
  | some (.push, length) => g.slotSize < length
  | _ => false

def rejected (t : Plan) (g : Geometry) : Nat := (List.range t.count).countP (t.rejects g)

def deliver (t : Plan) (g : Geometry) (storage : Storage) : Nat → Delivery
  | 0 => ⟨storage, []⟩
  | i + 1 =>
    let d := t.deliver g storage i
    match t.item? i with
    | none => d
    | some (mode, length) =>
      if t.rejects g i then d else d.accept g mode (t.waste g i) (t.content i length)

def value (t : Plan) (g : Geometry) (k : Nat) (slot : List UInt8) : List UInt8 :=
  match around t.receiveModes k with
  | none => []
  | some (.pop room) => slot.take (min room g.slotSize)
  | some .read => slot
  | some .peek => slot ++ slot

theorem accepts_of_item (t : Plan) (g : Geometry) {i length : Nat} {mode : SendMode}
    (h : t.item? i = some (mode, length)) : t.accepts g i = !t.rejects g i := by
  simp only [accepts, rejects, h]
  cases mode with
  | push =>
    by_cases hl : g.slotSize < length
    · simp [hl, Nat.not_le.mpr hl]
    · simp [hl, Nat.not_lt.mp hl]
  | write | drop | redo => rfl

/-- Every item has a length and a way to be sent, and each one that goes
through the ring a way to be received. -/
structure Definite (t : Plan) (g : Geometry) : Prop where
  sent : ∀ i < t.count, (t.item? i).isSome = true
  received : ∀ k < t.accepted g, (around t.receiveModes k).isSome = true

theorem definite_of_ne_nil {t : Plan} (hl : t.lengths ≠ []) (hs : t.sendModes ≠ [])
    (hr : t.receiveModes ≠ []) (g : Geometry) : t.Definite g where
  sent i _ := by
    obtain ⟨mode, hmode⟩ := Option.ne_none_iff_exists'.mp (mt (around_eq_none_iff _ i).mp hs)
    obtain ⟨length, hlength⟩ := Option.ne_none_iff_exists'.mp (mt (around_eq_none_iff _ i).mp hl)
    simp [item?, hmode, hlength]
  received k _ := Option.isSome_iff_ne_none.mpr (mt (around_eq_none_iff _ k).mp hr)

theorem rejected_add_accepted {t : Plan} {g : Geometry} (hd : t.Definite g) :
    t.rejected g + t.accepted g = t.count := by
  have haccepts : (List.range t.count).countP (t.accepts g) =
      (List.range t.count).countP fun i => decide (¬ t.rejects g i = true) := by
    apply List.countP_congr
    intro i hi
    obtain ⟨item, hitem⟩ := Option.isSome_iff_exists.mp (hd.sent i (List.mem_range.mp hi))
    simp [t.accepts_of_item g hitem]
  rw [rejected, accepted, haccepts, ← List.length_eq_countP_add_countP, List.length_range]

theorem length_deliver (t : Plan) (g : Geometry) (storage : Storage) (n : Nat) :
    (t.deliver g storage n).slots.length = (List.range n).countP (t.accepts g) := by
  induction n with
  | zero => rfl
  | succ i ih =>
    rw [List.range_succ, List.countP_append, deliver]
    cases h : t.item? i with
    | none => simp [ih, accepts, h]
    | some x =>
      obtain ⟨mode, length⟩ := x
      have ha := t.accepts_of_item g h
      cases hr : t.rejects g i <;> simp [ih, ha, hr, Delivery.accept]

end Plan

/-! ## The sender -/

variable {t : Plan} {g : Geometry} {storage : Storage} {b : Ledger g}

/-- The ring holds what the items sent so far left in it. -/
structure Sending (t : Plan) (storage : Storage) (s : Sender) (b : Ledger g) : Prop where
  tracks : s.producer.Tracks b
  draft : s.producer.draft = none
  sent_le : s.sent ≤ t.count
  items : b.items = (t.deliver g storage s.sent).slots
  stored : b.storage = if s.redone then (t.deliver g storage s.sent).spoilt g (t.waste g s.sent)
    else (t.deliver g storage s.sent).storage
  rejected : s.rejected = (List.range s.sent).countP (t.rejects g)
  redone : s.redone = true → s.sent < t.count ∧ ∃ length, t.item? s.sent = some (.redo, length)

section

variable {s : Sender} {p : Producer} {b' : Ledger g} {mode : SendMode} {length : Nat}

theorem sending_other (h : Sending t storage s b) (hm : Ledger.Moves .consumer b b') :
    Sending t storage s b' :=
  ⟨Producer.tracks_other h.tracks hm, h.draft, h.sent_le, hm.2.2.1.trans h.items,
    hm.2.1.trans h.stored, h.rejected, h.redone⟩

theorem sending_retry (h : Sending t storage s b) (hp : p.Tracks b) (hd : p.draft = none) :
    Sending t storage { s with producer := p } b :=
  ⟨hp, hd, h.sent_le, h.items, h.stored, h.rejected, h.redone⟩

theorem sending_reject (h : Sending t storage s b) (hlt : s.sent < t.count)
    (hr : t.rejects g s.sent = true) : Sending t storage s.reject b := by
  have hd : t.deliver g storage (s.sent + 1) = t.deliver g storage s.sent := by
    rw [Plan.deliver]
    cases t.item? s.sent with
    | none => rfl
    | some x => simp [hr]
  have hredone : s.redone = false := by
    cases hs : s.redone with
    | false => rfl
    | true =>
      obtain ⟨-, length, hitem⟩ := h.redone hs
      simp [Plan.rejects, hitem] at hr
  have hstored := h.stored
  rw [hredone] at hstored
  refine ⟨h.tracks, h.draft, hlt, ?_, ?_, ?_, nofun⟩
  · exact h.items.trans (congrArg Delivery.slots hd).symm
  · exact hstored.trans (congrArg Delivery.storage hd).symm
  · show s.rejected + 1 = (List.range (s.sent + 1)).countP _
    rw [List.range_succ, List.countP_append, ← h.rejected]
    simp [hr]

theorem sending_spoilt (h : Sending t storage s b) (hlt : s.sent < t.count)
    (hitem : t.item? s.sent = some (.redo, length)) (hs : s.redone = false)
    (hp : p.Tracks (b.write 0 (t.waste g s.sent))) (hd : p.draft = none) :
    Sending t storage { s with producer := p, redone := true }
      (b.write 0 (t.waste g s.sent)) := by
  have hstored := h.stored
  rw [hs] at hstored
  refine ⟨hp, hd, h.sent_le, h.items, ?_, h.rejected, fun _ => ⟨hlt, length, hitem⟩⟩
  show b.storage.write (g.base b.items.length + 0) _ = _
  rw [hstored, h.items]
  rfl

theorem sending_accept (h : Sending t storage s b) (hlt : s.sent < t.count)
    (hitem : t.item? s.sent = some (mode, length)) (hr : t.rejects g s.sent = false)
    (hs : s.redone = true ↔ mode = .redo)
    (hp : p.Tracks (b.write 0 ((t.content s.sent length).take g.slotSize)).publish)
    (hd : p.draft = none) :
    Sending t storage { s with producer := p }.advance
      (b.write 0 ((t.content s.sent length).take g.slotSize)).publish := by
  have hdeliver : t.deliver g storage (s.sent + 1) =
      (t.deliver g storage s.sent).accept g mode (t.waste g s.sent) (t.content s.sent length) := by
    rw [Plan.deliver, hitem]
    simp only [hr, Bool.false_eq_true, if_false]
  have hbefore : b.storage =
      if mode = .redo then (t.deliver g storage s.sent).spoilt g (t.waste g s.sent)
      else (t.deliver g storage s.sent).storage := by
    rw [h.stored]
    simp only [hs]
  have hstorage : (b.write 0 ((t.content s.sent length).take g.slotSize)).storage =
      (t.deliver g storage (s.sent + 1)).storage := by
    rw [hdeliver, Delivery.accept, ← hbefore, ← h.items]
    rfl
  refine ⟨hp, hd, hlt, ?_, hstorage, ?_, nofun⟩
  · show b.items ++ [Storage.slice _ (g.base b.items.length) g.slotSize] =
      (t.deliver g storage (s.sent + 1)).slots
    rw [hstorage, hdeliver, h.items]
    rfl
  · show s.rejected = (List.range (s.sent + 1)).countP _
    rw [List.range_succ, List.countP_append, ← h.rejected]
    simp [hr]

theorem safe_inPlace {bytes : List UInt8} {how : Draft.Ending} {after : Sender → Sender}
    {post : Except Fault Sender → Ledger g → Prop} (ht : s.producer.Tracks b)
    (hd : s.producer.draft = none) (hl : bytes.length ≤ g.slotSize)
    (hfull : ∀ b' p', Ledger.Moves .consumer b b' → p'.Tracks b' → p'.draft = none →
      post (.ok { s with producer := p' }) b')
    (hroom : ∀ b' p', Ledger.Moves .consumer b b' → p'.draft = none →
      p'.Tracks ((b'.write 0 bytes).endDraft how).1 →
      post (.ok (after { s with producer := p' })) ((b'.write 0 bytes).endDraft how).1) :
    Safe .release .producer true (s.inPlace g bytes how after) (fun _ => post) b := by
  apply Producer.safe_claim ht hd
  · exact fun c p' hc _ ht hn => hfull c p' hc ht hn
  · intro c p' seen hc hs hlt hn
    have hr : c.Ready .producer := Nat.lt_of_lt_of_le hlt (Nat.add_le_add_right hs.le_freed _)
    apply safe_storeFront hr hl
    intro d hd
    have hr' := Ledger.ready_consumer hd hr
    apply safe_end (fun _ => ⟨_, rfl⟩)
    have hpub := Ledger.published_consumer hd
    rw [← hpub, ← Ledger.published_write d 0 bytes]
    apply Producer.safe_endDraft (Ledger.valid_write hd.1 (g.fits_zero hl)) hr'
    rintro x hx _ ⟨⟩
    -- What the consumer freed since the slot was filled might as well have been freed before.
    obtain ⟨e, he, rfl⟩ := Ledger.moves_past_write hd.1 hx
    have hm := Ledger.moves_trans hd he
    have hse := Producer.sees_other hs hm
    have hlt' : e.published + 1 < seen + g.slots := by
      rw [Ledger.published_consumer hm]
      exact hlt
    apply hroom e p' (Ledger.moves_trans hc hm) hn
    cases how with
    | release | drop => exact Producer.tracks_publish hse hlt' hn
    | discard | forget | unwind =>
      exact ⟨seen, hse.cachedRead, hse.le_freed, hse.published_lt, fun d h => by simp [hn] at h⟩

theorem safe_fill (h : Sending t storage s b) (hlt : s.sent < t.count)
    (hitem : t.item? s.sent = some (mode, length)) (hpush : mode ≠ .push)
    (hs : s.redone = true ↔ mode = .redo) {how : Draft.Ending}
    (hhow : how = .release ∨ how = .drop) :
    Safe .release .producer true
      (s.inPlace g ((t.content s.sent length).take g.slotSize) how Sender.advance)
      (fun _ r c => ∃ s', r = .ok s' ∧ Sending t storage s' c) b := by
  have hr : t.rejects g s.sent = false := by
    simp only [Plan.rejects, hitem]
    cases mode with
    | push => exact absurd rfl hpush
    | write | drop | redo => rfl
  apply safe_inPlace h.tracks h.draft (List.length_take_le _ _)
  · exact fun c p' hc ht hn => ⟨_, rfl, sending_retry (sending_other h hc) ht hn⟩
  · intro c p' hc hn ht
    rcases hhow with rfl | rfl
    · exact ⟨_, rfl, sending_accept (sending_other h hc) hlt hitem hr hs ht hn⟩
    · exact ⟨_, rfl, sending_accept (sending_other h hc) hlt hitem hr hs ht hn⟩

theorem safe_spoil (h : Sending t storage s b) (hlt : s.sent < t.count)
    (hitem : t.item? s.sent = some (.redo, length)) (hs : s.redone = false) :
    Safe .release .producer true
      (s.inPlace g (t.waste g s.sent) .discard fun s => { s with redone := true })
      (fun _ r c => ∃ s', r = .ok s' ∧ Sending t storage s' c) b := by
  apply safe_inPlace h.tracks h.draft (Nat.le_of_eq (t.length_waste g s.sent))
  · exact fun c p' hc ht hn => ⟨_, rfl, sending_retry (sending_other h hc) ht hn⟩
  · intro c p' hc hn ht
    refine ⟨{ s with producer := p', redone := true }, rfl, ?_⟩
    exact sending_spoilt (sending_other h hc) hlt hitem hs ht hn

/-- An attempt to send leaves the ring as the items sent by then do. -/
theorem safe_send (h : Sending t storage s b) {a : Access Sender} (ha : s.attempt t g = some a) :
    Safe .release .producer true a (fun _ r c => ∃ s', r = .ok s' ∧ Sending t storage s' c) b := by
  rw [Sender.attempt] at ha
  by_cases hle : t.count ≤ s.sent
  · rw [if_pos hle] at ha
    cases ha
  rw [if_neg hle] at ha
  obtain ⟨⟨mode, length⟩, hitem, rfl⟩ := Option.map_eq_some_iff.mp ha
  have hlt : s.sent < t.count := Nat.lt_of_not_le hle
  have hredone : s.redone = true → mode = .redo := by
    intro hs
    obtain ⟨-, length', hitem'⟩ := h.redone hs
    rw [hitem] at hitem'
    cases hitem'
    rfl
  cases mode with
  | push =>
    have hs : s.redone = true ↔ SendMode.push = .redo := ⟨fun hs => hredone hs, nofun⟩
    apply safe_end (by rintro ⟨p, (_ | _) | _⟩ <;> exact ⟨_, rfl⟩)
    apply Producer.safe_push h.tracks h.draft
    · rintro hl c hc _ ⟨⟩
      have hr : t.rejects g s.sent = true := by simpa [Plan.rejects, hitem] using hl
      exact ⟨_, rfl, sending_reject (sending_other h hc) hlt hr⟩
    · rintro hl c p' hc hf ht hn _ ⟨⟩
      exact ⟨_, rfl, sending_retry (sending_other h hc) ht hn⟩
    · rintro hl c p' hc hready ht hn _ ⟨⟩
      have hr : t.rejects g s.sent = false := by simpa [Plan.rejects, hitem] using hl
      have hsent := @sending_accept t g storage c s p' .push length (sending_other h hc) hlt hitem
        hr hs
      rw [List.take_of_length_le hl] at hsent
      exact ⟨_, rfl, hsent ht hn⟩
  | write => exact safe_fill h hlt hitem nofun ⟨fun hs => hredone hs, nofun⟩ (.inl rfl)
  | drop => exact safe_fill h hlt hitem nofun ⟨fun hs => hredone hs, nofun⟩ (.inr rfl)
  | redo =>
    show Safe _ _ _ (ite _ _ _) _ _
    by_cases hs : s.redone = true
    · rw [if_pos hs]
      exact safe_fill h hlt hitem nofun ⟨fun _ => rfl, fun _ => hs⟩ (.inl rfl)
    · rw [if_neg hs]
      exact safe_spoil h hlt hitem (Bool.eq_false_iff.mpr hs)

end

/-! ## The receiver -/

/-- The values received are those of the slots freed, in their order. -/
structure Receiving (t : Plan) (s : Receiver) (b : Ledger g) : Prop where
  tracks : s.consumer.Tracks b
  loan : s.consumer.loan = none
  due : s.due = t.accepted g
  size : s.values.size = b.freed
  values : s.values.toList = (b.items.take b.freed).mapIdx (t.value g)
  seen : ∀ first, s.seen = some first → b.Ready .consumer ∧ first = b.oldest

section

variable {s : Receiver} {c : Consumer} {b' : Ledger g}

theorem receiving_other (hv : b.Valid) (h : Receiving t s b) (hm : Ledger.Moves .producer b b') :
    Receiving t s b' := by
  have hf : b'.freed = b.freed := hm.2.1
  have hle := hv.freed_le
  obtain ⟨rest, hrest⟩ := hm.2.2
  refine ⟨Consumer.tracks_other h.tracks hm, h.loan, h.due, h.size.trans hf.symm, ?_, ?_⟩
  · rw [hf, ← hrest, List.take_append_of_le_length hle]
    exact h.values
  · intro first hfirst
    obtain ⟨hr, heq⟩ := h.seen first hfirst
    refine ⟨@Ledger.ready_other g .consumer b b' hm hr, ?_⟩
    rw [heq, Ledger.oldest_eq hv hr, Consumer.oldest_other hv hr hm]

theorem receiving_retry (h : Receiving t s b) (hc : c.Tracks b) (hl : c.loan = none) :
    Receiving t { s with consumer := c } b :=
  ⟨hc, hl, h.due, h.size, h.values, h.seen⟩

theorem receiving_value (hv : b.Valid) (h : Receiving t s b) (hr : b.Ready .consumer)
    (hc : c.Tracks b.free) (hl : c.loan = none) :
    Receiving t ({ s with consumer := c }.receive (t.value g b.freed b.oldest)) b.free := by
  have hitem : b.items[b.freed]? = some b.oldest := by
    rw [Ledger.oldest_eq hv hr]
    exact hv.kept _ (Nat.le_refl _) hr
  refine ⟨hc, hl, h.due, ?_, ?_, nofun⟩
  · show (s.values.push _).size = b.freed + 1
    rw [Array.size_push, h.size]
  · show (s.values.push _).toList = (b.items.take (b.freed + 1)).mapIdx _
    have hle : b.freed ≤ b.items.length := hv.freed_le
    rw [Array.toList_push, h.values, List.take_add_one, hitem, Option.toList_some,
      List.mapIdx_concat, List.length_take, Nat.min_eq_left hle]

theorem safe_inPlaceRead {how : Loan.Ending} {after : Receiver → List UInt8 → Receiver}
    {post : Except Fault Receiver → Ledger g → Prop} (hc : s.consumer.Tracks b)
    (hl : s.consumer.loan = none)
    (hempty : ∀ b' c', Ledger.Moves .producer b b' → c'.Tracks b' → c'.loan = none →
      post (.ok { s with consumer := c' }) b')
    (hitem : ∀ b' c' seen, Ledger.Moves .producer b b' → c'.loan = none → c'.Sees b' seen →
      b'.freed < seen → post (.ok (after { s with consumer := c' } b'.oldest)) (b'.endLoan how).1) :
    Safe .release .consumer true (s.inPlace g how after) (fun _ => post) b := by
  apply Consumer.safe_locate hc hl
  · exact fun d c' hd _ ht hn => hempty d c' hd ht hn
  · intro d c' seen hd hs hlt hn
    have hr := Consumer.sees_ready hs hlt
    apply safe_loadSlot hd.1 hr
    intro e he
    have hf : e.freed = d.freed := he.2.1
    have hr' : e.Ready .consumer := @Ledger.ready_other g .consumer d e he hr
    apply safe_end (fun _ => ⟨_, rfl⟩)
    rw [← hf]
    apply Consumer.safe_endLoan he.1 hr'
    rintro x hx _ ⟨⟩
    have hm : Ledger.Moves .producer d x := Ledger.moves_trans he hx
    have hfx : x.freed = d.freed := hm.2.1
    show post (.ok (after _ (d.slot d.freed))) _
    rw [← Consumer.oldest_other hd.1 hr hm]
    exact hitem x c' seen (Ledger.moves_trans hd hm) hn (Consumer.sees_other hs hm) (hfx ▸ hlt)

theorem value_of_pop {room : Nat} (hv : b.Valid) (hr : b.Ready .consumer)
    (hmode : around t.receiveModes b.freed = some (.pop room)) :
    t.value g b.freed b.oldest = b.oldest.take room := by
  rw [Plan.value, hmode, Ledger.oldest_eq hv hr]
  show List.take _ _ = _
  rw [List.take_eq_take_iff, b.length_slot]
  omega

theorem safe_receiveRelease (hv : b.Valid) (h : Receiving t s b)
    {after : Receiver → List UInt8 → Receiver}
    (hafter : ∀ b' c', Ledger.Moves .producer b b' → b'.Ready .consumer →
      after { s with consumer := c' } b'.oldest =
        { s with consumer := c' }.receive (t.value g b'.freed b'.oldest)) :
    Safe .release .consumer true (s.inPlace g .release after)
      (fun _ r c => ∃ s', r = .ok s' ∧ Receiving t s' c) b := by
  apply safe_inPlaceRead h.tracks h.loan
  · exact fun d c' hd ht hn => ⟨_, rfl, receiving_retry (receiving_other hv h hd) ht hn⟩
  · intro d c' seen hd hn hs hlt
    have hr := Consumer.sees_ready hs hlt
    have hreceived := receiving_value hd.1 (receiving_other hv h hd) hr
      (Consumer.tracks_free hs hlt hn) hn
    rw [← hafter d c' hd hr] at hreceived
    exact ⟨_, rfl, hreceived⟩

theorem safe_receiveRetain (hv : b.Valid) (h : Receiving t s b) :
    Safe .release .consumer true
      (s.inPlace g .retain fun s bytes => { s with seen := some bytes })
      (fun _ r c => ∃ s', r = .ok s' ∧ Receiving t s' c) b := by
  apply safe_inPlaceRead h.tracks h.loan
  · exact fun d c' hd ht hn => ⟨_, rfl, receiving_retry (receiving_other hv h hd) ht hn⟩
  · intro d c' seen hd hn hs hlt
    have hd' := receiving_other hv h hd
    refine ⟨_, rfl, ⟨seen, hs⟩, hn, hd'.due, hd'.size, hd'.values, ?_⟩
    rintro _ ⟨⟩
    exact ⟨Consumer.sees_ready hs hlt, rfl⟩

theorem safe_receive (hv : b.Valid) (h : Receiving t s b) {a : Access Receiver}
    (ha : s.attempt t g = some a) :
    Safe .release .consumer true a (fun _ r c => ∃ s', r = .ok s' ∧ Receiving t s' c) b := by
  rw [Receiver.attempt] at ha
  by_cases hle : s.due ≤ s.values.size
  · rw [if_pos hle] at ha
    cases ha
  rw [if_neg hle] at ha
  obtain ⟨mode, hmode, rfl⟩ := Option.map_eq_some_iff.mp ha
  rw [h.size] at hmode
  cases mode with
  | pop room =>
    apply safe_end (by rintro ⟨c, _ | _⟩ <;> exact ⟨_, rfl⟩)
    apply Consumer.safe_take h.tracks h.loan
    · rintro d c' hd he ht hn _ ⟨⟩
      exact ⟨_, rfl, receiving_retry (receiving_other hv h hd) ht hn⟩
    · rintro d c' hd hr ht hn _ ⟨⟩
      have hf : d.freed = b.freed := hd.2.1
      have hreceived := receiving_value hd.1 (receiving_other hv h hd) hr ht hn
      rw [value_of_pop hd.1 hr (hf ▸ hmode)] at hreceived
      exact ⟨_, rfl, hreceived⟩
  | read =>
    apply safe_receiveRelease hv h
    intro d c' hd hr
    have hf : d.freed = b.freed := hd.2.1
    rw [Plan.value, hf, hmode]
  | peek =>
    cases hseen : s.seen with
    | none => exact safe_receiveRetain hv h
    | some first =>
      apply safe_receiveRelease hv h
      intro d c' hd hr
      have hf : d.freed = b.freed := hd.2.1
      -- The first look was at the same item, whatever was published since.
      obtain ⟨-, hfirst⟩ := (receiving_other hv h hd).seen first hseen
      rw [Plan.value, hf, hmode, hfirst]

end

/-! ## Both -/

theorem disciplined (t : Plan) (g : Geometry) (storage : Storage) :
    (threads t g).Disciplined (@Sending g t storage) (Receiving t) where
  producer _ _ _ _ ha h := safe_send h ha
  consumer _ _ _ hv ha h := safe_receive hv h ha
  producerStable _ _ _ hm h := sending_other h hm
  consumerStable _ _ _ hv hm h := receiving_other hv h hm

theorem keeps_start (t : Plan) {r : Ring g} (hr : r = r.ledger.ring) :
    (start t r).Keeps (Sending t r.storage) (Receiving t) r.ledger := by
  have ht := Session.split_tracks r.valid_ledger
  rw [← hr] at ht
  exact ⟨hr, r.valid_ledger,
    .idle ⟨ht.producer, rfl, Nat.zero_le _, rfl, rfl, rfl, nofun⟩,
    .idle ⟨ht.consumer, rfl, rfl, rfl, rfl, nofun⟩⟩

structure Delivered (t : Plan) (storage : Storage) (m : Interleaving g Sender Receiver) : Prop where
  rejected : m.producer.state.rejected = t.rejected g
  received : m.consumer.state.values.size = t.count - t.rejected g
  values : m.consumer.state.values.toList =
    (t.deliver g storage t.count).slots.mapIdx (t.value g)
  stored : m.ring.storage = (t.deliver g storage t.count).storage
  writeIndex : m.ring.writeIndex.toNat = (t.count - t.rejected g) % g.slotCount.toNat
  readIndex : m.ring.readIndex.toNat = (t.count - t.rejected g) % g.slotCount.toNat

theorem sent_of_attempt {s : Sender} (hd : t.Definite g) (h : Sending t storage s b)
    (ha : s.attempt t g = none) : s.sent = t.count := by
  by_cases hle : t.count ≤ s.sent
  · exact Nat.le_antisymm h.sent_le hle
  · obtain ⟨item, hitem⟩ := Option.isSome_iff_exists.mp (hd.sent _ (Nat.lt_of_not_le hle))
    simp [Sender.attempt, hle, hitem] at ha

theorem size_of_attempt {s : Receiver} (hd : t.Definite g) (h : Receiving t s b)
    (ha : s.attempt t g = none) : s.due ≤ s.values.size := by
  by_cases hle : s.due ≤ s.values.size
  · exact hle
  · obtain ⟨mode, hmode⟩ :=
      Option.isSome_iff_exists.mp (hd.received _ (h.due ▸ Nat.lt_of_not_le hle))
    simp [Receiver.attempt, hle, hmode] at ha

theorem published_of_sent {s : Sender} (h : Sending t storage s b) (hs : s.sent = t.count) :
    b.published = t.accepted g := by
  rw [Ledger.published, h.items, hs, Plan.length_deliver]
  rfl

theorem stored_of_sent {s : Sender} (h : Sending t storage s b) (hs : s.sent = t.count) :
    b.storage = (t.deliver g storage t.count).storage := by
  have hredone : s.redone = false := by
    cases hr : s.redone with
    | false => rfl
    | true => exact absurd (h.redone hr).1 (by omega)
  have hstored := h.stored
  rw [hredone, hs] at hstored
  exact hstored

/-- In the end no item is left to be sent or to be received. -/
theorem settled_of_finished {m : Interleaving g Sender Receiver} (hd : t.Definite g)
    (h : m.Keeps (Sending t storage) (Receiving t) b) (hf : m.isFinished (threads t g) = true) :
    Sending t storage m.producer.state b ∧ m.producer.state.sent = t.count ∧
      Receiving t m.consumer.state b ∧
      m.consumer.state.due ≤ m.consumer.state.values.size := by
  simp only [Interleaving.isFinished, Bool.and_eq_true] at hf
  obtain ⟨hsend, hsender⟩ := Thread.keeps_finished h.producer hf.1
  obtain ⟨hreceive, hreceiver⟩ := Thread.keeps_finished h.consumer hf.2
  exact ⟨hsend, sent_of_attempt hd hsend hsender, hreceive,
    size_of_attempt hd hreceive hreceiver⟩

theorem delivered_of_keeps {m : Interleaving g Sender Receiver} (hd : t.Definite g)
    (h : m.Keeps (Sending t storage) (Receiving t) b)
    (hf : m.isFinished (threads t g) = true) : Delivered t storage m := by
  obtain ⟨hsend, hsent, hreceive, hfreed⟩ := settled_of_finished hd h hf
  rw [hreceive.due, hreceive.size] at hfreed
  have hpublished : b.published = t.accepted g := published_of_sent hsend hsent
  have hcount : t.rejected g + t.accepted g = t.count := Plan.rejected_add_accepted hd
  have hle : b.freed ≤ b.published := h.valid.freed_le
  have hempty : b.freed = b.published := by omega
  have hall : b.freed = t.count - t.rejected g := by omega
  have htake : b.items.take b.freed = b.items := List.take_of_length_le (Nat.le_of_eq hempty.symm)
  constructor
  · rw [hsend.rejected, hsent]
    rfl
  · rw [hreceive.size, hall]
  · rw [hreceive.values, htake, hsend.items, hsent]
  · rw [h.ring]
    exact stored_of_sent hsend hsent
  · rw [h.ring, ← hall, hempty]
    exact g.place_toNat _
  · rw [h.ring, ← hall]
    exact g.place_toNat _

theorem delivered_run {line : Padding.Line} {itemSize : UInt64} {r : Ring g} {e : Event}
    (h : Ring.construct line storage itemSize = (.ok ⟨g, r⟩, e)) (hd : t.Definite g)
    {schedule : List Side}
    (hf : (Interleaving.run (threads t g) schedule (start t r)).isFinished (threads t g) = true) :
    Delivered t storage (Interleaving.run (threads t g) schedule (start t r)) := by
  obtain ⟨rfl, hring⟩ := Ring.construct_ok h
  obtain ⟨b, hkeeps⟩ := Interleaving.keeps_run (disciplined t g r.storage) schedule
    (keeps_start t hring)
  exact delivered_of_keeps hd hkeeps hf

theorem delivered_unique {m m' : Interleaving g Sender Receiver} (h : Delivered t storage m)
    (h' : Delivered t storage m') :
    m'.producer.state.rejected = m.producer.state.rejected ∧
      m'.consumer.state.values = m.consumer.state.values ∧ m'.ring = m.ring := by
  refine ⟨h'.rejected.trans h.rejected.symm, ?_, ?_⟩
  · exact Array.toList_inj.mp (h'.values.trans h.values.symm)
  · apply Ring.ext
    · exact h'.stored.trans h.stored.symm
    · exact UInt64.toNat_inj.mp (h'.writeIndex.trans h.writeIndex.symm)
    · exact UInt64.toNat_inj.mp (h'.readIndex.trans h.readIndex.symm)

/-- Any two transfers that come to an end have delivered the same, which is
what the plan alone says. -/
theorem run_delivered {line : Padding.Line} {itemSize : UInt64} {r : Ring g}
    {e : Event} (h : Ring.construct line storage itemSize = (.ok ⟨g, r⟩, e)) (t : Plan)
    (hl : t.lengths ≠ []) (hs : t.sendModes ≠ []) (hr : t.receiveModes ≠ [])
    (schedule schedule' : List Side)
    (hf : (Interleaving.run (threads t g) schedule (start t r)).isFinished (threads t g) = true)
    (hf' : (Interleaving.run (threads t g) schedule' (start t r)).isFinished (threads t g) = true) :
    let m := Interleaving.run (threads t g) schedule (start t r)
    let m' := Interleaving.run (threads t g) schedule' (start t r)
    Delivered t storage m ∧ m'.producer.state.rejected = m.producer.state.rejected ∧
      m'.consumer.state.values = m.consumer.state.values ∧ m'.ring = m.ring := by
  have hd : t.Definite g := Plan.definite_of_ne_nil hl hs hr g
  have hm := delivered_run h hd hf
  exact ⟨hm, delivered_unique hm (delivered_run h hd hf')⟩

/-- Two slots of two bytes, an item too long to be pushed, one sent again, and
two copied out with more and with less room than a slot takes. -/
theorem run_delivered_two_slots :
    ∃ (g : Geometry) (r : Ring g) (e : Event),
      Ring.construct .line64 ⟨#[1, 2, 3, 4, 5], by decide⟩ 2 = (.ok ⟨g, r⟩, e) ∧
      let t : Plan := ⟨4, [3, 1], [.push, .redo, .write], [.peek, .pop 5, .pop 1],
        fun i j => UInt8.ofNat (16 * i + j), fun i _ => UInt8.ofNat (255 - i)⟩
      let m := Interleaving.run (threads t g)
        (List.replicate 80 [Side.producer, .consumer]).flatten (start t r)
      let m' := Interleaving.run (threads t g)
        (List.replicate 60 [Side.consumer, .consumer, .producer]).flatten (start t r)
      m.isFinished (threads t g) = true ∧ m'.isFinished (threads t g) = true ∧
        Delivered t ⟨#[1, 2, 3, 4, 5], by decide⟩ m ∧
        m'.producer.state.rejected = m.producer.state.rejected ∧
        m'.consumer.state.values = m.consumer.state.values ∧ m'.ring = m.ring := by
  refine ⟨_, _, _, rfl, ?_⟩
  dsimp only
  refine ⟨by decide +kernel, by decide +kernel, ?_⟩
  exact @run_delivered _ ⟨#[1, 2, 3, 4, 5], by decide⟩ .line64 2 _ _ rfl
    ⟨4, [3, 1], [.push, .redo, .write], [.peek, .pop 5, .pop 1],
      fun i j => UInt8.ofNat (16 * i + j), fun i _ => UInt8.ofNat (255 - i)⟩
    nofun nofun nofun _ _ (by decide +kernel) (by decide +kernel)

end SlotRing.Transfer
