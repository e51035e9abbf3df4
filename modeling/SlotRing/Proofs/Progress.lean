import SlotRing.Proofs.Delivery
import SlotRing.Proofs.Lookup

/-!
# Transfers do not get stuck

Between its attempts each thread decides from its own copy of the other index,
but a copy that shows no room or no item is loaded again, so a refusal is true
of the ring. A ring of two slots or more is never full and empty at once, and
whoever finds it full leaves an item to the other: as long as anything remains
one of the two gets further, and every item done with is one less
(`run_unstuck`). So the threads come to an end if they operate by turns, as they
do in `Transfer.run`, whose answer is that of every transfer that comes to one
(`run_eq_report`).
-/

set_option autoImplicit false

namespace SlotRing.Transfer

open Access

variable {t : Plan} {g : Geometry} {storage : Storage} {b : Ledger g}

/-! ## Attempts that get further -/

/-- The item is sent or rejected, or its slot is spoilt and discarded once. -/
def Sender.Gains (s s' : Sender) : Prop :=
  s'.sent = s.sent + 1 ∨ s'.sent = s.sent ∧ s.redone = false ∧ s'.redone = true

def Receiver.Gains (s s' : Receiver) : Prop :=
  s'.due = s.due ∧ (s'.values.size = s.values.size + 1 ∨
    s'.values.size = s.values.size ∧ s.seen = none ∧ s'.seen.isSome = true)

theorem complete_claim {p : Producer} (hv : b.Valid) (hp : p.Tracks b) :
    ∃ p', (p.claim g).complete b.ring = ((p', b.vacant), b.ring) := by
  have hrun := p.run_claim .release hv hp
  obtain ⟨hring, hresult⟩ := run_release (p.claim g) b.ring
  rw [hrun] at hring hresult
  exact ⟨_, Prod.ext (Except.ok.inj hresult).symm hring.symm⟩

theorem complete_locate {c : Consumer} (hv : b.Valid) (hc : c.Tracks b) :
    ∃ c', c.locate.complete b.ring = ((c', b.waiting), b.ring) := by
  have hrun := c.run_locate .release hv hc
  obtain ⟨hring, hresult⟩ := run_release c.locate b.ring
  rw [hrun] at hring hresult
  exact ⟨_, Prod.ext (Except.ok.inj hresult).symm hring.symm⟩

section

variable {s : Sender} {p : Producer}

theorem complete_push {item : List UInt8} (hv : b.Valid) (hp : p.Tracks b) (hroom : ¬ b.Full)
    (hl : ¬ g.slotSize < item.length) :
    ∃ p', ((p.push g item).complete b.ring).1 = (p', .ok ()) := by
  obtain ⟨p', hclaim⟩ := complete_claim hv hp
  refine ⟨p', ?_⟩
  rw [Producer.push, complete_bind]
  show Prod.fst (complete (ite _ _ _) b.ring) = _
  rw [if_neg hl, complete_bind, hclaim, Ledger.vacant, if_neg hroom]
  show Prod.fst (complete (_ >>= _) _) = _
  rw [complete_bind, complete_bind]
  rfl

theorem complete_inPlace {bytes : List UInt8} {how : Draft.Ending} {after : Sender → Sender}
    (hv : b.Valid) (hp : s.producer.Tracks b) (hroom : ¬ b.Full) :
    ∃ p', ((s.inPlace g bytes how after).complete b.ring).1 = after { s with producer := p' } := by
  obtain ⟨p', hclaim⟩ := complete_claim hv hp
  refine ⟨p', ?_⟩
  rw [Sender.inPlace, complete_bind, hclaim, Ledger.vacant, if_neg hroom]
  show Prod.fst (complete (_ >>= _) _) = _
  rw [complete_bind, complete_bind]
  rfl

theorem gains_send {a : Access Sender} (hv : b.Valid) (hp : s.producer.Tracks b)
    (hroom : ¬ b.Full) (ha : s.attempt t g = some a) : s.Gains (a.complete b.ring).1 := by
  rw [Sender.attempt] at ha
  by_cases hle : t.count ≤ s.sent
  · rw [if_pos hle] at ha
    cases ha
  rw [if_neg hle] at ha
  obtain ⟨⟨mode, length⟩, -, rfl⟩ := Option.map_eq_some_iff.mp ha
  have hsent : ∀ bytes how, s.Gains ((s.inPlace g bytes how Sender.advance).complete b.ring).1 := by
    intro bytes how
    obtain ⟨p', hp'⟩ := @complete_inPlace _ _ s bytes how Sender.advance hv hp hroom
    rw [hp']
    exact .inl rfl
  cases mode with
  | push =>
    show s.Gains (complete (_ >>= _) b.ring).1
    rw [complete_bind]
    by_cases hl : g.slotSize < (t.content s.sent length).length
    · have hpush : ((s.producer.push g (t.content s.sent length)).complete b.ring).1 =
          (s.producer, .error (.oversized (t.content s.sent length).length g.slotSize)) := by
        rw [Producer.push, complete_bind]
        show Prod.fst (complete (ite _ _ _) b.ring) = _
        rw [if_pos hl]
        rfl
      rw [hpush]
      exact .inl rfl
    · obtain ⟨p', hp'⟩ := complete_push hv hp hroom hl
      rw [hp']
      exact .inl rfl
  | write | drop => exact hsent _ _
  | redo =>
    show s.Gains (complete (ite _ _ _) b.ring).1
    by_cases hs : s.redone = true
    · rw [if_pos hs]
      exact hsent _ _
    · rw [if_neg hs]
      obtain ⟨p', hp'⟩ := @complete_inPlace _ _ s (t.waste g s.sent) .discard
        (fun s => { s with redone := true }) hv hp hroom
      rw [hp']
      exact .inr ⟨rfl, Bool.eq_false_iff.mpr hs, rfl⟩

end

section

variable {s : Receiver}

theorem complete_take {c : Consumer} {room : Nat} (hv : b.Valid) (hc : c.Tracks b)
    (hitem : ¬ b.Empty) :
    ∃ c' bytes, ((c.take g room).complete b.ring).1 = (c', some bytes) := by
  obtain ⟨c', hlocate⟩ := complete_locate hv hc
  rw [Consumer.take, complete_bind, hlocate, Ledger.waiting, if_neg hitem]
  show ∃ c' bytes, Prod.fst (complete (_ >>= _) _) = _
  rw [complete_bind, complete_bind, complete_bind]
  exact ⟨_, _, rfl⟩

theorem complete_inPlaceRead {how : Loan.Ending} {after : Receiver → List UInt8 → Receiver}
    (hv : b.Valid) (hc : s.consumer.Tracks b) (hitem : ¬ b.Empty) :
    ∃ c' bytes, ((s.inPlace g how after).complete b.ring).1 =
      after { s with consumer := c' } bytes := by
  obtain ⟨c', hlocate⟩ := complete_locate hv hc
  rw [Receiver.inPlace, complete_bind, hlocate, Ledger.waiting, if_neg hitem]
  show ∃ c' bytes, Prod.fst (complete (_ >>= _) _) = _
  rw [complete_bind, complete_bind]
  exact ⟨_, _, rfl⟩

theorem gains_receive {a : Access Receiver} (hv : b.Valid) (hc : s.consumer.Tracks b)
    (hitem : ¬ b.Empty) (ha : s.attempt t g = some a) : s.Gains (a.complete b.ring).1 := by
  rw [Receiver.attempt] at ha
  by_cases hle : s.due ≤ s.values.size
  · rw [if_pos hle] at ha
    cases ha
  rw [if_neg hle] at ha
  obtain ⟨mode, -, rfl⟩ := Option.map_eq_some_iff.mp ha
  have hreceived : ∀ after : Receiver → List UInt8 → Receiver,
      (∀ c' bytes, ∃ value, after { s with consumer := c' } bytes =
        { s with consumer := c' }.receive value) →
      s.Gains ((s.inPlace g .release after).complete b.ring).1 := by
    intro after hafter
    obtain ⟨c', bytes, hc'⟩ := @complete_inPlaceRead _ _ s .release after hv hc hitem
    obtain ⟨value, hvalue⟩ := hafter c' bytes
    rw [hc', hvalue]
    exact ⟨rfl, .inl (Array.size_push _)⟩
  cases mode with
  | pop room =>
    show s.Gains (complete (_ >>= _) b.ring).1
    obtain ⟨c', bytes, hc'⟩ := @complete_take g b s.consumer room hv hc hitem
    rw [complete_bind, hc']
    exact ⟨rfl, .inl (Array.size_push _)⟩
  | read => exact hreceived _ fun c' bytes => ⟨bytes, rfl⟩
  | peek =>
    cases hseen : s.seen with
    | none =>
      obtain ⟨c', bytes, hc'⟩ := @complete_inPlaceRead _ _ s .retain
        (fun s bytes => { s with seen := some bytes }) hv hc hitem
      show s.Gains (complete (Receiver.inPlace _ _ _ _) b.ring).1
      rw [hc']
      exact ⟨rfl, .inr ⟨rfl, hseen, rfl⟩⟩
    | some first => exact hreceived _ fun c' bytes => ⟨first ++ bytes, rfl⟩

end

/-! ## Items done with -/

def remaining (t : Plan) (m : Interleaving g Sender Receiver) : Nat :=
  (t.count - m.producer.state.sent) + (m.consumer.state.due - m.consumer.state.values.size)

/-- At most the current item is done with; if it is not, its first draft stays
counted. -/
def Sender.Leads (t : Plan) (s s' : Sender) : Prop :=
  s'.sent = s.sent ∧ s.redone.toNat ≤ s'.redone.toNat ∨ s'.sent = s.sent + 1 ∧ s.sent < t.count

def Receiver.Leads (s s' : Receiver) : Prop :=
  s'.due = s.due ∧
    (s'.values.size = s.values.size ∧ s.seen.isSome.toNat ≤ s'.seen.isSome.toNat ∨
      s'.values.size = s.values.size + 1 ∧ s.values.size < s.due)

theorem Sender.leads_refl (s : Sender) : s.Leads t s := .inl ⟨rfl, Nat.le_refl _⟩

theorem Receiver.leads_refl (s : Receiver) : s.Leads s := ⟨rfl, .inl ⟨rfl, Nat.le_refl _⟩⟩

theorem endsBy_inPlace {P : Option Kind → Sender → Prop} {s : Sender} {bytes : List UInt8}
    {how : Draft.Ending} {after : Sender → Sender} {last : Option Kind}
    (hfull : ∀ last p', P last { s with producer := p' })
    (hroom : ∀ last p', P last (after { s with producer := p' })) :
    (s.inPlace g bytes how after).EndsBy P last := by
  apply Producer.endsBy_claim
  · exact fun p' => hfull _ p'
  · intro last p' d
    apply endsBy_after
    intro last _
    apply endsBy_after
    exact fun last _ => hroom last p'

theorem leads_send {s : Sender} {a : Access Sender} {last : Option Kind}
    (ha : s.attempt t g = some a) : a.EndsBy (fun _ s' => s.Leads t s') last := by
  rw [Sender.attempt] at ha
  by_cases hle : t.count ≤ s.sent
  · rw [if_pos hle] at ha
    cases ha
  rw [if_neg hle] at ha
  obtain ⟨⟨mode, length⟩, -, rfl⟩ := Option.map_eq_some_iff.mp ha
  have hlt : s.sent < t.count := Nat.lt_of_not_le hle
  have hsent : ∀ bytes how,
      (s.inPlace g bytes how Sender.advance).EndsBy (fun _ s' => s.Leads t s') last :=
    fun _ _ => endsBy_inPlace (fun _ _ => s.leads_refl) fun _ _ => .inr ⟨rfl, hlt⟩
  cases mode with
  | push =>
    apply Producer.endsBy_push
    · exact fun _ _ _ _ => .inr ⟨rfl, hlt⟩
    · exact fun _ => s.leads_refl
    · exact fun _ => .inr ⟨rfl, hlt⟩
  | write | drop => exact hsent _ _
  | redo =>
    show EndsBy _ _ (ite _ _ _)
    by_cases hs : s.redone = true
    · rw [if_pos hs]
      exact hsent _ _
    · rw [if_neg hs]
      exact endsBy_inPlace (fun _ _ => s.leads_refl) fun _ _ => .inl ⟨rfl, Bool.toNat_le _⟩

theorem endsBy_inPlaceRead {P : Option Kind → Receiver → Prop} {s : Receiver}
    {how : Loan.Ending} {after : Receiver → List UInt8 → Receiver} {last : Option Kind}
    (hempty : ∀ last c', P last { s with consumer := c' })
    (hitem : ∀ last c' bytes, P last (after { s with consumer := c' } bytes)) :
    (s.inPlace g how after).EndsBy P last := by
  apply Consumer.endsBy_locate
  · exact fun c' => hempty _ c'
  · intro last c' l
    apply endsBy_after
    intro last bytes
    apply endsBy_after
    exact fun last _ => hitem last c' bytes

theorem leads_receive {s : Receiver} {a : Access Receiver} {last : Option Kind}
    (ha : s.attempt t g = some a) : a.EndsBy (fun _ s' => s.Leads s') last := by
  rw [Receiver.attempt] at ha
  by_cases hle : s.due ≤ s.values.size
  · rw [if_pos hle] at ha
    cases ha
  rw [if_neg hle] at ha
  obtain ⟨mode, -, rfl⟩ := Option.map_eq_some_iff.mp ha
  have hlt : s.values.size < s.due := Nat.lt_of_not_le hle
  have hreceived : ∀ c' value, s.Leads ({ s with consumer := c' }.receive value) :=
    fun _ _ => ⟨rfl, .inr ⟨Array.size_push _, hlt⟩⟩
  cases mode with
  | pop _ =>
    simp only [Consumer.take, LawfulMonad.bind_assoc]
    apply Consumer.endsBy_locate
    · exact fun _ => s.leads_refl
    · intro last c' l
      rw [LawfulMonad.bind_assoc]
      apply endsBy_after
      intro last bytes
      rw [LawfulMonad.bind_assoc]
      apply endsBy_after
      intro last next
      rw [LawfulMonad.bind_assoc]
      apply endsBy_after
      exact fun last _ => hreceived c' bytes
  | read =>
    exact endsBy_inPlaceRead (fun _ _ => s.leads_refl) fun _ c' bytes => hreceived c' bytes
  | peek =>
    cases s.seen with
    | none =>
      apply endsBy_inPlaceRead
      · exact fun _ _ => s.leads_refl
      · exact fun _ _ _ => ⟨rfl, .inl ⟨rfl, Bool.toNat_le _⟩⟩
    | some first =>
      exact endsBy_inPlaceRead (fun _ _ => s.leads_refl) fun _ c' bytes => hreceived c' _

/-! ## Turns -/

/-- Wherever the operation under way ends, it leads there from the state. -/
def Led {σ : Type} (leads : σ → σ → Prop) (th : Thread σ) : Prop :=
  ∀ p, th.pending = some p → p.EndsBy (fun _ s' => leads th.state s') none

theorem led_turn {σ : Type} {leads : σ → σ → Prop} {next : σ → Option (Access σ)} {th : Thread σ}
    {r : Ring g} (hrefl : ∀ s, leads s s)
    (hnext : ∀ s p, next s = some p → p.EndsBy (fun _ s' => leads s s') none) (h : Led leads th) :
    Led leads (th.turn next r).1 ∧ leads th.state (th.turn next r).1.state := by
  obtain ⟨s, _ | p⟩ := th
  · exact ⟨fun p hp => hnext s p hp, hrefl s⟩
  · have hp := h p rfl
    by_cases hk : p.kind? = none
    · obtain ⟨s', rfl⟩ := Thread.eq_done_of_kind? hk
      exact ⟨nofun, hp⟩
    · rw [Thread.turn_of_kind? hk]
      refine ⟨?_, hrefl s⟩
      rintro _ ⟨⟩
      by_cases hk' : (p.step r).1.kind? = none
      · have hstep := @endsBy_step _ _ _ _ _ r hp hk
        obtain ⟨s', hs'⟩ := Thread.eq_done_of_kind? hk'
        rw [hs'] at hstep ⊢
        exact hstep
      · exact endsBy_of_kind? (endsBy_step hp hk) hk'

structure Guided (t : Plan) (m : Interleaving g Sender Receiver) : Prop where
  producer : Led (Sender.Leads t) m.producer
  consumer : Led Receiver.Leads m.consumer

variable {m : Interleaving g Sender Receiver}

theorem guided_turn (h : Guided t m) (side : Side) :
    Guided t (m.turn (threads t g) side) ∧
      m.producer.state.Leads t (m.turn (threads t g) side).producer.state ∧
      m.consumer.state.Leads (m.turn (threads t g) side).consumer.state := by
  cases side with
  | producer =>
    obtain ⟨hled, hleads⟩ := @led_turn g _ _ (Sender.attempt t g) _ m.ring Sender.leads_refl
      (fun _ _ => leads_send) h.producer
    exact ⟨⟨hled, h.consumer⟩, hleads, m.consumer.state.leads_refl⟩
  | consumer =>
    obtain ⟨hled, hleads⟩ := @led_turn g _ _ (Receiver.attempt t g) _ m.ring
      Receiver.leads_refl (fun _ _ => leads_receive) h.consumer
    exact ⟨⟨h.producer, hled⟩, m.producer.state.leads_refl, hleads⟩

theorem guided_run (schedule : List Side) (h : Guided t m) :
    Guided t (Interleaving.run (threads t g) schedule m) := by
  induction schedule generalizing m with
  | nil => exact h
  | cons side schedule ih => exact ih (guided_turn h side).1

/-- A turn in which an item is done with leaves one less. -/
theorem remaining_turn (h : Guided t m) (side : Side) :
    let m' := m.turn (threads t g) side
    remaining t m' ≤ remaining t m ∧
      (m'.producer.state.sent ≠ m.producer.state.sent ∨
        m'.consumer.state.values.size ≠ m.consumer.state.values.size →
        remaining t m' < remaining t m) := by
  obtain ⟨-, hsend, hdue, hreceive⟩ := guided_turn h side
  simp only [Sender.Leads] at hsend
  simp only [remaining, hdue]
  omega

/-! ## Between attempts -/

def Idle (m : Interleaving g Sender Receiver) : Prop :=
  m.producer.pending = none ∧ m.consumer.pending = none

theorem settled_of_idle {σ : Type} {I : σ → Ledger g → Prop} {side : Side} {th : Thread σ}
    (h : th.Keeps side I b) (hi : th.pending = none) : I th.state b := by
  cases h with
  | idle h => exact h
  | under _ _ _ => cases hi
  | past _ => cases hi

theorem operate_producer {a : Access Sender} (hi : m.producer.pending = none)
    (ha : m.producer.state.attempt t g = some a) :
    m.operate (threads t g) .producer =
      ⟨(a.complete m.ring).2, ⟨(a.complete m.ring).1, none⟩, m.consumer⟩ := by
  obtain ⟨ring, ⟨s, _ | p⟩, c⟩ := m
  · simp only [Interleaving.operate, Thread.operate, threads, ha]
  · cases hi

theorem operate_consumer {a : Access Receiver} (hi : m.consumer.pending = none)
    (ha : m.consumer.state.attempt t g = some a) :
    m.operate (threads t g) .consumer =
      ⟨(a.complete m.ring).2, m.producer, ⟨(a.complete m.ring).1, none⟩⟩ := by
  obtain ⟨ring, p, ⟨s, _ | c⟩⟩ := m
  · simp only [Interleaving.operate, Thread.operate, threads, ha]
  · cases hi

theorem pending_operate {σ : Type} (next : σ → Option (Access σ)) (th : Thread σ) (r : Ring g) :
    (th.operate next r).1.pending = none := by
  obtain ⟨s, _ | p⟩ := th
  · cases h : next s <;> simp [Thread.operate, h]
  · rfl

theorem idle_operate (m : Interleaving g Sender Receiver) :
    Idle ((m.operate (threads t g) .producer).operate (threads t g) .consumer) :=
  ⟨pending_operate _ m.producer m.ring, pending_operate _ m.consumer _⟩

theorem published_le_accepted {s : Sender} (h : Sending t storage s b) :
    b.published ≤ t.accepted g := by
  rw [Ledger.published, h.items, Plan.length_deliver]
  exact (List.range_sublist.mpr h.sent_le).countP_le

theorem gains_producer (hd : t.Definite g) (h : m.Keeps (Sending t storage) (Receiving t) b)
    (hi : Idle m) (hlt : m.producer.state.sent < t.count) (hroom : ¬ b.Full) :
    m.producer.state.Gains (m.operate (threads t g) .producer).producer.state := by
  have hs := settled_of_idle h.producer hi.1
  obtain ⟨item, hitem⟩ := Option.isSome_iff_exists.mp (hd.sent _ hlt)
  obtain ⟨a, ha⟩ : ∃ a, m.producer.state.attempt t g = some a :=
    ⟨_, by rw [Sender.attempt, if_neg (Nat.not_le.mpr hlt), hitem]; rfl⟩
  rw [operate_producer hi.1 ha, h.ring]
  exact gains_send h.valid hs.tracks hroom ha

theorem gains_consumer (hd : t.Definite g) (h : m.Keeps (Sending t storage) (Receiving t) b)
    (hi : Idle m) (hlt : m.consumer.state.values.size < m.consumer.state.due)
    (hitem : ¬ b.Empty) :
    m.consumer.state.Gains (m.operate (threads t g) .consumer).consumer.state := by
  have hs := settled_of_idle h.consumer hi.2
  obtain ⟨mode, hmode⟩ := Option.isSome_iff_exists.mp (hd.received _ (hs.due ▸ hlt))
  obtain ⟨a, ha⟩ : ∃ a, m.consumer.state.attempt t g = some a :=
    ⟨_, by rw [Receiver.attempt, if_neg (Nat.not_le.mpr hlt), hmode]; rfl⟩
  rw [operate_consumer hi.2 ha, h.ring]
  exact gains_receive h.valid hs.tracks hitem ha

theorem not_empty_of_full (hf : b.Full) : ¬ b.Empty := by
  have hn := g.two_le_slots
  intro he
  simp only [Ledger.Full, Ledger.Empty] at hf he
  omega

/-- A full ring leaves the next step to the consumer, which is not done yet. -/
theorem gains_of_full (hd : t.Definite g) (h : m.Keeps (Sending t storage) (Receiving t) b)
    (hi : Idle m) (hf : b.Full) :
    m.consumer.state.values.size < m.consumer.state.due ∧
      m.consumer.state.Gains (m.operate (threads t g) .consumer).consumer.state := by
  have hs := settled_of_idle h.consumer hi.2
  have hitem := not_empty_of_full hf
  have hlt : b.freed < b.published := Nat.lt_of_le_of_ne h.valid.freed_le hitem
  have hle := published_le_accepted (settled_of_idle h.producer hi.1)
  have hdue : m.consumer.state.values.size < m.consumer.state.due := by
    rw [hs.size, hs.due]
    omega
  exact ⟨hdue, gains_consumer hd h hi hdue hitem⟩

/-- Once all is sent, the items not received yet lie in the ring. -/
theorem gains_of_sent (hd : t.Definite g) (h : m.Keeps (Sending t storage) (Receiving t) b)
    (hi : Idle m) (hsent : m.producer.state.sent = t.count)
    (hlt : m.consumer.state.values.size < m.consumer.state.due) :
    m.consumer.state.Gains (m.operate (threads t g) .consumer).consumer.state := by
  have hs := settled_of_idle h.consumer hi.2
  have hpublished := published_of_sent (settled_of_idle h.producer hi.1) hsent
  apply gains_consumer hd h hi hlt
  rw [hs.size, hs.due, ← hpublished] at hlt
  exact Nat.ne_of_lt hlt

theorem gains_of_remaining (hd : t.Definite g) (h : m.Keeps (Sending t storage) (Receiving t) b)
    (hi : Idle m) (hr : remaining t m ≠ 0) :
    m.producer.state.Gains (m.operate (threads t g) .producer).producer.state ∨
      m.consumer.state.Gains (m.operate (threads t g) .consumer).consumer.state := by
  have hle := (settled_of_idle h.producer hi.1).sent_le
  by_cases hlt : m.producer.state.sent < t.count
  · by_cases hf : b.Full
    · exact .inr (gains_of_full hd h hi hf).2
    · exact .inl (gains_producer hd h hi hlt hf)
  · have hdue : m.consumer.state.values.size < m.consumer.state.due := by
      simp only [remaining] at hr
      omega
    exact .inr (gains_of_sent hd h hi (by omega) hdue)

/-- Both halves look at once: one of them finds a slot. -/
theorem not_both_refused {p : Producer} {c : Consumer} (hv : b.Valid) (hp : p.Tracks b)
    (hc : c.Tracks b) :
    ¬ (((p.claim g).complete b.ring).1.2 = none ∧ (c.locate.complete b.ring).1.2 = none) := by
  obtain ⟨p', hclaim⟩ := complete_claim hv hp
  obtain ⟨c', hlocate⟩ := complete_locate hv hc
  rw [hclaim, hlocate]
  rintro ⟨hvacant, hwaiting⟩
  have hfull : b.Full := by simpa [Ledger.vacant] using hvacant
  have hempty : b.Empty := by simpa [Ledger.waiting] using hwaiting
  exact not_empty_of_full hfull hempty

/-! ## Rounds -/

/-- The attempts at sending that have to succeed yet: two for each item, of
which a first draft counts for one. -/
def Sender.owed (t : Plan) (s : Sender) : Nat := 2 * (t.count - s.sent) - s.redone.toNat

def Receiver.owed (s : Receiver) : Nat := 2 * (s.due - s.values.size) - s.seen.isSome.toNat

def todo (t : Plan) (m : Interleaving g Sender Receiver) : Nat :=
  m.producer.state.owed t + m.consumer.state.owed

theorem Sender.owed_le_of_leads {s s' : Sender} (h : s.Leads t s') : s'.owed t ≤ s.owed t := by
  have hle := Bool.toNat_le s.redone
  simp only [Leads] at h
  simp only [owed]
  omega

theorem Sender.owed_lt_of_sent {s s' : Sender} (hs : s'.sent = s.sent + 1)
    (hlt : s.sent < t.count) : s'.owed t < s.owed t := by
  have hle := Bool.toNat_le s.redone
  simp only [owed]
  omega

theorem Sender.owed_lt_of_gains {s s' : Sender} (hlt : s.sent < t.count) (h : s.Gains s') :
    s'.owed t < s.owed t := by
  rcases h with hs | ⟨hs, hr, hr'⟩
  · exact owed_lt_of_sent hs hlt
  · simp only [owed, hs, hr, hr', Bool.toNat_true, Bool.toNat_false]
    omega

theorem Receiver.owed_le_of_leads {s s' : Receiver} (h : s.Leads s') : s'.owed ≤ s.owed := by
  have hle := Bool.toNat_le s.seen.isSome
  simp only [Leads] at h
  simp only [owed]
  omega

theorem Receiver.owed_lt_of_gains {s s' : Receiver} (hlt : s.values.size < s.due)
    (h : s.Gains s') : s'.owed < s.owed := by
  have hle := Bool.toNat_le s.seen.isSome
  obtain ⟨hdue, h⟩ := h
  rcases h with hs | ⟨hs, hr, hr'⟩
  · simp only [owed]
    omega
  · simp only [owed, hdue, hs, hr, hr', Option.isSome_none, Bool.toNat_true, Bool.toNat_false]
    omega

theorem leads_operate {σ : Type} {leads : σ → σ → Prop} {next : σ → Option (Access σ)}
    {th : Thread σ} {r : Ring g} (hrefl : ∀ s, leads s s)
    (hnext : ∀ s p, next s = some p → p.EndsBy (fun _ s' => leads s s') none)
    (hi : th.pending = none) : leads th.state (th.operate next r).1.state := by
  obtain ⟨s, _ | p⟩ := th
  · cases h : next s with
    | none => simpa only [Thread.operate, h] using hrefl s
    | some p =>
      obtain ⟨-, hp⟩ := @endsBy_complete _ _ _ g p r (hnext s p h)
      simpa only [Thread.operate, h] using hp
  · cases hi

/-- The counters of the ledger are those of the two threads. -/
theorem full_of_sent {s s' : Sender} {c : Receiver} {b' : Ledger g} (hsend : Sending t storage s b)
    (hsend' : Sending t storage s' b') (hreceive : Receiving t c b)
    (hreceive' : Receiving t c b') (hs : s'.sent = s.sent) (hf : b.Full) : b'.Full := by
  have hitems : b'.items = b.items := by rw [hsend'.items, hsend.items, hs]
  have hfreed : b'.freed = b.freed := hreceive'.size.symm.trans hreceive.size
  rwa [Ledger.Full, Ledger.published, hitems, hfreed]

/-- A producer that got no further leaves the next step to the consumer. -/
theorem gains_of_stalled (hd : t.Definite g) (h : m.Keeps (Sending t storage) (Receiving t) b)
    (hi : Idle m) (hr : remaining t m ≠ 0) :
    let m' := m.operate (threads t g) .producer
    m.producer.state.Leads t m'.producer.state →
      ¬ m'.producer.state.owed t < m.producer.state.owed t →
      m'.consumer.state.values.size < m'.consumer.state.due ∧
        m'.consumer.state.Gains (m'.operate (threads t g) .consumer).consumer.state := by
  intro m' hleads hstalled
  obtain ⟨b', h'⟩ := Interleaving.keeps_operate (disciplined t g storage) h .producer
  have hi' : Idle m' := ⟨pending_operate _ m.producer m.ring, hi.2⟩
  have hsend := settled_of_idle h.producer hi.1
  have hsent : m'.producer.state.sent = m.producer.state.sent := by
    rcases hleads with ⟨hs, -⟩ | ⟨hs, hlt⟩
    · exact hs
    · exact absurd (Sender.owed_lt_of_sent hs hlt) hstalled
  by_cases hlt : m.producer.state.sent < t.count
  · have hf : b.Full := by
      apply Decidable.byContradiction
      intro hroom
      exact hstalled (Sender.owed_lt_of_gains hlt (gains_producer hd h hi hlt hroom))
    -- What the producer found is still so: it published nothing, and the consumer did not move.
    have hf' : b'.Full := full_of_sent hsend (settled_of_idle h'.producer hi'.1)
      (settled_of_idle h.consumer hi.2) (settled_of_idle h'.consumer hi'.2) hsent hf
    exact gains_of_full hd h' hi' hf'
  · have hall : m.producer.state.sent = t.count :=
      Nat.le_antisymm hsend.sent_le (Nat.le_of_not_lt hlt)
    have hdue : m.consumer.state.values.size < m.consumer.state.due := by
      simp only [remaining] at hr
      omega
    exact ⟨hdue, gains_of_sent hd h' hi' (hsent.trans hall) hdue⟩

theorem todo_round (hd : t.Definite g) (h : m.Keeps (Sending t storage) (Receiving t) b)
    (hi : Idle m) (hr : remaining t m ≠ 0) :
    todo t ((m.operate (threads t g) .producer).operate (threads t g) .consumer) < todo t m := by
  have hsend : m.producer.state.Leads t (m.operate (threads t g) .producer).producer.state :=
    leads_operate Sender.leads_refl (fun _ _ => leads_send) hi.1
  have hreceive : m.consumer.state.Leads
      ((m.operate (threads t g) .producer).operate (threads t g) .consumer).consumer.state :=
    leads_operate Receiver.leads_refl (fun _ _ => leads_receive) hi.2
  by_cases hlt : (m.operate (threads t g) .producer).producer.state.owed t <
      m.producer.state.owed t
  · exact Nat.add_lt_add_of_lt_of_le hlt (Receiver.owed_le_of_leads hreceive)
  · obtain ⟨hdue, hgains⟩ := gains_of_stalled hd h hi hr hsend hlt
    exact Nat.add_lt_add_of_le_of_lt (Sender.owed_le_of_leads hsend)
      (Receiver.owed_lt_of_gains hdue hgains)

/-! ## To the end -/

theorem finished_of_remaining (hi : Idle m) (hr : remaining t m = 0) :
    m.isFinished (threads t g) = true := by
  simp only [remaining] at hr
  have hsent : t.count ≤ m.producer.state.sent := by omega
  have hreceived : m.consumer.state.due ≤ m.consumer.state.values.size := by omega
  simp [Interleaving.isFinished, Thread.isFinished, threads, hi.1, hi.2, Sender.attempt, hsent,
    Receiver.attempt, hreceived]

theorem remaining_of_finished (hd : t.Definite g)
    (h : m.Keeps (Sending t storage) (Receiving t) b)
    (hf : m.isFinished (threads t g) = true) : remaining t m = 0 := by
  obtain ⟨-, hsent, -, hreceived⟩ := settled_of_finished hd h hf
  simp only [remaining]
  omega

/-- As many rounds as there are attempts to succeed lead to the end. -/
theorem finished_alternate (hd : t.Definite g) (rounds : Nat)
    (h : m.Keeps (Sending t storage) (Receiving t) b) (hi : Idle m) (hn : todo t m ≤ rounds) :
    (Interleaving.alternate (threads t g) rounds m).isFinished (threads t g) = true := by
  induction rounds generalizing m b with
  | zero =>
    apply finished_of_remaining hi
    apply Decidable.byContradiction
    intro hr
    have htodo := todo_round hd h hi hr
    omega
  | succ rounds ih =>
    rw [Interleaving.alternate]
    by_cases hf : m.isFinished (threads t g) = true
    · rwa [if_pos hf]
    · rw [if_neg hf]
      have htodo := todo_round hd h hi fun hr => hf (finished_of_remaining hi hr)
      obtain ⟨b', h'⟩ := Interleaving.keeps_operate (disciplined t g storage) h .producer
      obtain ⟨b'', h''⟩ := Interleaving.keeps_operate (disciplined t g storage) h' .consumer
      exact ih h'' (idle_operate m) (by omega)

theorem exists_finished (hd : t.Definite g) (rounds : Nat)
    (h : m.Keeps (Sending t storage) (Receiving t) b) (hi : Idle m) (hn : todo t m ≤ rounds) :
    ∃ schedule, Interleaving.run (threads t g) schedule m =
        Interleaving.alternate (threads t g) rounds m ∧
      (Interleaving.run (threads t g) schedule m).isFinished (threads t g) = true := by
  obtain ⟨schedule, hschedule⟩ := Interleaving.exists_run_eq_alternate (threads t g) rounds m
  exact ⟨schedule, hschedule, hschedule ▸ finished_alternate hd rounds h hi hn⟩

theorem exists_end (hd : t.Definite g) (h : m.Keeps (Sending t storage) (Receiving t) b)
    (hi : Idle m) :
    ∃ schedule, remaining t (Interleaving.run (threads t g) schedule m) = 0 ∧
      (Interleaving.run (threads t g) schedule m).isFinished (threads t g) = true := by
  obtain ⟨schedule, -, hf⟩ := exists_finished hd _ h hi (Nat.le_refl _)
  obtain ⟨b', h'⟩ := Interleaving.keeps_run (disciplined t g storage) schedule h
  exact ⟨schedule, remaining_of_finished hd h' hf, hf⟩

structure Unstuck (t : Plan) (m : Interleaving g Sender Receiver) : Prop where
  /-- The ring is never full to one half and empty to the other at once. -/
  found : Idle m → ¬ (((m.producer.state.producer.claim g).complete m.ring).1.2 = none ∧
    (m.consumer.state.consumer.locate.complete m.ring).1.2 = none)
  gains : Idle m → remaining t m ≠ 0 →
    m.producer.state.Gains (m.operate (threads t g) .producer).producer.state ∨
      m.consumer.state.Gains (m.operate (threads t g) .consumer).consumer.state
  drains : Idle m → remaining t m ≠ 0 → m.producer.state.sent = t.count →
    m.consumer.state.Gains (m.operate (threads t g) .consumer).consumer.state
  decreases : ∀ side, let m' := m.turn (threads t g) side
    remaining t m' ≤ remaining t m ∧
      (m'.producer.state.sent ≠ m.producer.state.sent ∨
        m'.consumer.state.values.size ≠ m.consumer.state.values.size →
        remaining t m' < remaining t m)
  ends : ∃ schedule, remaining t (Interleaving.run (threads t g) schedule m) = 0 ∧
    (Interleaving.run (threads t g) schedule m).isFinished (threads t g) = true

theorem unstuck_of_keeps (hd : t.Definite g) (h : m.Keeps (Sending t storage) (Receiving t) b)
    (hg : Guided t m) : Unstuck t m where
  found hi := by
    rw [h.ring]
    exact not_both_refused h.valid (settled_of_idle h.producer hi.1).tracks
      (settled_of_idle h.consumer hi.2).tracks
  gains := gains_of_remaining hd h
  drains hi hr hsent := by
    apply gains_of_sent hd h hi hsent
    simp only [remaining] at hr
    omega
  decreases := remaining_turn hg
  ends := by
    obtain ⟨producing, hp⟩ := Interleaving.exists_run_eq_operate (threads t g) .producer m
    obtain ⟨consuming, hc⟩ := Interleaving.exists_run_eq_operate (threads t g) .consumer
      (m.operate (threads t g) .producer)
    obtain ⟨b', h'⟩ := Interleaving.keeps_run (disciplined t g storage) (producing ++ consuming) h
    rw [Interleaving.run_append, hp, hc] at h'
    obtain ⟨rest, hrest⟩ := exists_end hd h' (idle_operate m)
    refine ⟨producing ++ consuming ++ rest, ?_⟩
    rwa [Interleaving.run_append, Interleaving.run_append, hp, hc]

/-- The transfer that is carried out is one of those that come to an end. -/
theorem exists_run_eq {line : Padding.Line} {itemSize : UInt64} {r : Ring g} {e : Event}
    (h : Ring.construct line storage itemSize = (.ok ⟨g, r⟩, e)) (hd : t.Definite g) :
    ∃ schedule, let m := Interleaving.run (threads t g) schedule (start t r)
      m.isFinished (threads t g) = true ∧
        run t r = (m.ring, report m.producer.state m.consumer.state) := by
  obtain ⟨rfl, hring⟩ := Ring.construct_ok h
  have hle : t.accepted g ≤ t.count :=
    Nat.le_trans List.countP_le_length (Nat.le_of_eq List.length_range)
  have htodo : todo t (start t r) ≤ rounds t := by
    show 2 * (t.count - 0) - 0 + (2 * (t.accepted g - 0) - 0) ≤ 4 * t.count + 1
    omega
  obtain ⟨schedule, hschedule, hf⟩ :=
    exists_finished hd _ (keeps_start t hring) ⟨rfl, rfl⟩ htodo
  refine ⟨schedule, hf, ?_⟩
  rw [hschedule]
  rfl

/-- Every transfer that comes to an end has the answer of the one that is
carried out. -/
theorem run_eq_report {line : Padding.Line} {itemSize : UInt64} {r : Ring g} {e : Event}
    (h : Ring.construct line storage itemSize = (.ok ⟨g, r⟩, e)) (hd : t.Definite g)
    (schedule : List Side)
    (hf : (Interleaving.run (threads t g) schedule (start t r)).isFinished (threads t g) = true) :
    let m := Interleaving.run (threads t g) schedule (start t r)
    run t r = (m.ring, report m.producer.state m.consumer.state) := by
  obtain ⟨schedule', hf', hrun⟩ := exists_run_eq h hd
  obtain ⟨hrejected, hvalues, hring⟩ :=
    delivered_unique (delivered_run h hd hf) (delivered_run h hd hf')
  simp only [hrun, report, hring, hrejected, hvalues]

/-- Whatever the schedule was so far. -/
theorem run_unstuck {line : Padding.Line} {itemSize : UInt64} {r : Ring g} {e : Event}
    (h : Ring.construct line storage itemSize = (.ok ⟨g, r⟩, e)) (t : Plan) (hd : t.Definite g)
    (schedule : List Side) :
    Unstuck t (Interleaving.run (threads t g) schedule (start t r)) := by
  obtain ⟨rfl, hring⟩ := Ring.construct_ok h
  obtain ⟨b, hkeeps⟩ := Interleaving.keeps_run (disciplined t g r.storage) schedule
    (keeps_start t hring)
  exact unstuck_of_keeps hd hkeeps (guided_run schedule ⟨nofun, nofun⟩)

/-- Two slots of two bytes: the producer ran alone, sent one item, rejected the
next and found the ring full with three more to send. -/
theorem run_unstuck_two_slots :
    ∃ (g : Geometry) (r : Ring g) (e : Event),
      Ring.construct .line64 ⟨#[1, 2, 3, 4, 5], by decide⟩ 2 = (.ok ⟨g, r⟩, e) ∧
      let t : Plan := ⟨5, [1, 3], [.write, .push, .redo], [.peek, .pop 1],
        fun i j => UInt8.ofNat (16 * i + j), fun i _ => UInt8.ofNat (255 - i)⟩
      let m := Interleaving.run (threads t g) (List.replicate 24 Side.producer) (start t r)
      t.Definite g ∧ Idle m ∧ m.producer.state.sent = 2 ∧ m.producer.state.rejected = 1 ∧
        ((m.producer.state.producer.claim g).complete m.ring).1.2 = none ∧
        remaining t m = 7 ∧ Unstuck t m := by
  refine ⟨_, _, _, rfl, ?_⟩
  refine ⟨⟨by decide, by decide⟩, ⟨rfl, rfl⟩, by decide +kernel, by decide +kernel,
    by decide +kernel, by decide +kernel, ?_⟩
  exact @run_unstuck _ ⟨#[1, 2, 3, 4, 5], by decide⟩ .line64 2 _ _ rfl _
    ⟨by decide, by decide⟩ _

end SlotRing.Transfer
