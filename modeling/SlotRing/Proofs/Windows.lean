import SlotRing.Proofs.Accounts

/-!
# The window of the indices

An index says where a counter stands in its round and no more. The counters
are read off the trace of a run: every push and every published draft adds an
item, every pop and every released loan frees one. The window says how far
they and their copies can be apart, which is what makes four indices enough.
-/

set_option autoImplicit false

namespace SlotRing

namespace Event

def publishes : Event → Bool
  | .draftPublished _ => true
  | _ => false

def frees : Event → Bool
  | .loanReleased _ => true
  | _ => false

end Event

namespace Session

/-- How many items one operation published. A push leaves no event. -/
def publishedBy : Answer × List Event → Nat
  | (.produced .pushed, events) => events.countP Event.publishes + 1
  | (_, events) => events.countP Event.publishes

def freedBy : Answer × List Event → Nat
  | (.consumed (.popped (some _) _), events) => events.countP Event.frees + 1
  | (_, events) => events.countP Event.frees

def published : List (Answer × List Event) → Nat
  | [] => 0
  | done :: rest => publishedBy done + published rest

def freed : List (Answer × List Event) → Nat
  | [] => 0
  | done :: rest => freedBy done + freed rest

end Session

namespace Account

open Session (publishedBy freedBy)

variable {g : Geometry}

theorem produce_counts (build : Build) (held : Bool) (op : Producer.Op) (b : Ledger g) :
    let deed := b.produce build held op
    deed.ledger.published = b.published + publishedBy (produced deed.answer, deed.events) ∧
      deed.ledger.freed = b.freed + freedBy (produced deed.answer, deed.events) := by
  cases held with
  | false =>
    simp only [Ledger.produce, if_neg Bool.false_ne_true]
    cases op with
    | push item =>
      by_cases hl : g.slotSize < item.length
      · cases build <;>
          simp [Ledger.produceFree, hl, publishedBy, freedBy, produced, Event.publishes,
            Event.frees]
      · by_cases hf : b.Full <;>
          simp [Ledger.produceFree, hl, hf, publishedBy, freedBy, produced]
    | draft =>
      rw [Ledger.produceFree]
      split <;> simp [publishedBy, freedBy, produced]
    | contents | store _ _ | fill _ | overwrite _ | finish _ =>
      simp [Ledger.produceFree, publishedBy, freedBy, produced]
  | true =>
    have hsettle : ∀ (c : Ledger g) (stored : Bool),
        (c.settle stored).ledger = c ∧
          publishedBy (produced (c.settle stored).answer, (c.settle stored).events) = 0 ∧
          freedBy (produced (c.settle stored).answer, (c.settle stored).events) = 0 := by
      intro c stored
      cases stored <;>
        simp [Ledger.settle, publishedBy, freedBy, produced, Event.publishes, Event.frees]
    simp only [Ledger.produce, if_pos]
    cases op with
    | push _ | draft | contents =>
      simp [Ledger.produceHolding, publishedBy, freedBy, produced]
    | store position bytes => simp [Ledger.produceHolding, hsettle]
    | fill byte => simp [Ledger.produceHolding, hsettle]
    | overwrite bytes =>
      rw [Ledger.produceHolding]
      split <;> simp [hsettle]
    | finish how =>
      cases how <;> simp [Ledger.produceHolding, Ledger.endDraft, publishedBy, freedBy, produced,
        Event.publishes, Event.frees]

theorem consume_counts (held : Bool) (op : Consumer.Op) (b : Ledger g) :
    let deed := b.consume held op
    deed.ledger.published = b.published + publishedBy (consumed deed.answer, deed.events) ∧
      deed.ledger.freed = b.freed + freedBy (consumed deed.answer, deed.events) := by
  cases held with
  | false =>
    simp only [Ledger.consume, if_neg Bool.false_ne_true]
    cases op with
    | pop dest =>
      rw [Ledger.consumeFree]
      split <;> simp [publishedBy, freedBy, consumed]
    | borrow =>
      rw [Ledger.consumeFree]
      split <;> simp [publishedBy, freedBy, consumed]
    | contents | byteAt _ | finish _ =>
      simp [Ledger.consumeFree, publishedBy, freedBy, consumed]
  | true =>
    simp only [Ledger.consume, if_pos]
    cases op with
    | pop _ | borrow | contents =>
      simp [Ledger.consumeHolding, publishedBy, freedBy, consumed]
    | byteAt position =>
      rw [Ledger.consumeHolding]
      split <;> simp [publishedBy, freedBy, consumed, Event.publishes, Event.frees]
    | finish how =>
      cases how <;> simp [Ledger.consumeHolding, Ledger.endLoan, publishedBy, freedBy, consumed,
        Event.publishes, Event.frees]

theorem close_counts (a : Account g) :
    a.close.1.published = a.ledger.published + publishedBy (.resplit, a.close.2) ∧
      a.close.1.freed = a.ledger.freed + freedBy (.resplit, a.close.2) := by
  obtain ⟨b, drafting, lending⟩ := a
  cases drafting <;> cases lending <;>
    simp [close, Ledger.endDraft, Ledger.endLoan, publishedBy, freedBy, List.countP_cons,
      Event.publishes, Event.frees]

theorem step_counts (build : Build) (op : Session.Op) (a : Account g) :
    let done := a.step build op
    done.account.ledger.published = a.ledger.published + publishedBy (done.answer, done.events) ∧
      done.account.ledger.freed = a.ledger.freed + freedBy (done.answer, done.events) := by
  cases op with
  | produce op => exact produce_counts build a.drafting op a.ledger
  | consume op => exact consume_counts a.lending op a.ledger
  | resplit => exact close_counts a

theorem run_counts (build : Build) (ops : List Session.Op) (a : Account g) :
    (a.run build ops).1.ledger.published =
        a.ledger.published + Session.published (a.run build ops).2 ∧
      (a.run build ops).1.ledger.freed = a.ledger.freed + Session.freed (a.run build ops).2 := by
  induction ops generalizing a with
  | nil => exact ⟨rfl, rfl⟩
  | cons op ops ih =>
    have hstep := step_counts build op a
    have hrest := ih (a.step build op).account
    simp only [run, Session.published, Session.freed] at hstep hrest ⊢
    omega

end Account

namespace Session

variable {g : Geometry}

structure Window (s : Session g) (published freed seenFreed seenPublished : Nat) : Prop where
  writeIndex : s.ring.writeIndex.toNat = published % g.slotCount.toNat
  readIndex : s.ring.readIndex.toNat = freed % g.slotCount.toNat
  cachedRead : s.producer.cachedRead.toNat = seenFreed % g.slotCount.toNat
  cachedWrite : s.consumer.cachedWrite.toNat = seenPublished % g.slotCount.toNat
  ordered : seenFreed ≤ freed ∧ freed ≤ seenPublished ∧ seenPublished ≤ published
  apart : published ≤ seenFreed + (g.slotCount.toNat - 1)
  draft : ∀ d, s.producer.draft = some d → d.index.toNat = published % g.slotCount.toNat ∧
    d.next.toNat = (published + 1) % g.slotCount.toNat ∧
    published < seenFreed + (g.slotCount.toNat - 1)
  loan : ∀ l, s.consumer.loan = some l → l.index.toNat = freed % g.slotCount.toNat ∧
    freed < seenPublished

theorem window_tracks {s : Session g} {a : Account g} (h : s.Tracks a) :
    ∃ seenFreed seenPublished,
      s.Window a.ledger.published a.ledger.freed seenFreed seenPublished := by
  obtain ⟨seenFreed, hp⟩ := h.producer
  obtain ⟨seenPublished, hc⟩ := h.consumer
  have hn := g.two_le_slots
  have hlt := hp.published_lt
  have hslots : g.slotCount.toNat = g.slots := rfl
  refine ⟨seenFreed, seenPublished, ?_, ?_, ?_, ?_, ?_, ?_, ?_, ?_⟩
  · rw [h.ring]
    exact g.place_toNat _
  · rw [h.ring]
    exact g.place_toNat _
  · rw [hp.cachedRead]
    exact g.place_toNat _
  · rw [hc.cachedWrite]
    exact g.place_toNat _
  · exact ⟨hp.le_freed, hc.freed_le, hc.le_published⟩
  · omega
  · intro d hd
    obtain ⟨rfl, hroom⟩ := hp.draft d hd
    exact ⟨g.place_toNat _, g.place_toNat _, by omega⟩
  · intro l hl
    obtain ⟨rfl, hlt⟩ := hc.loan l hl
    exact ⟨g.place_toNat _, hlt⟩

theorem window_below {s : Session g} {published freed seenFreed seenPublished : Nat}
    (h : s.Window published freed seenFreed seenPublished) :
    s.ring.writeIndex < g.slotCount ∧ s.ring.readIndex < g.slotCount ∧
      s.producer.cachedRead < g.slotCount ∧ s.consumer.cachedWrite < g.slotCount := by
  simp only [UInt64.lt_iff_toNat_lt, h.writeIndex, h.readIndex, h.cachedRead, h.cachedWrite]
  exact ⟨g.mod_slots_lt _, g.mod_slots_lt _, g.mod_slots_lt _, g.mod_slots_lt _⟩

/-- After any operations on a fresh ring, the indices stand in the window of
the items that the trace has published and freed. -/
theorem run_window {line : Padding.Line} {storage : Storage} {itemSize : UInt64} {r : Ring g}
    {e : Event} (h : Ring.construct line storage itemSize = (.ok ⟨g, r⟩, e)) (build : Build)
    (ops : List Op) :
    let final := run build ops (split r)
    (∃ seenFreed seenPublished,
      final.1.Window (published final.2) (freed final.2) seenFreed seenPublished) ∧
      final.1.ring.writeIndex < g.slotCount ∧ final.1.ring.readIndex < g.slotCount ∧
      final.1.producer.cachedRead < g.slotCount ∧
      final.1.consumer.cachedWrite < g.slotCount := by
  obtain ⟨htracks, htrace⟩ := tracks_construct build ops h
  obtain ⟨hpublished, hfreed⟩ := Account.run_counts build ops ⟨r.ledger, false, false⟩
  obtain ⟨seenFreed, seenPublished, hwindow⟩ := window_tracks htracks
  have hzero : r.ledger.published = 0 := rfl
  have hnone : r.ledger.freed = 0 := rfl
  rw [hpublished, hfreed, hzero, hnone, Nat.zero_add, Nat.zero_add, ← htrace] at hwindow
  exact ⟨⟨seenFreed, seenPublished, hwindow⟩, window_below hwindow⟩

/-- Three slots of two bytes: two items go in, one comes out with a stale copy,
and the halves are split again over a draft. -/
theorem run_window_three_slots :
    ∃ (g : Geometry) (r : Ring g) (e : Event),
      Ring.construct .line64 ⟨#[1, 2, 3, 4, 5, 6, 7], by decide⟩ 2 = (.ok ⟨g, r⟩, e) ∧
      let final := run .release [.produce (.push [9]), .produce .draft, .produce (.finish .release),
        .consume (.pop [0, 0]), .produce .draft, .resplit] (split r)
      published final.2 = 3 ∧ freed final.2 = 1 ∧
        ∃ seenFreed seenPublished, final.1.Window 3 1 seenFreed seenPublished := by
  refine ⟨_, _, _, rfl, rfl, rfl, ?_⟩
  exact (@run_window _ .line64 ⟨#[1, 2, 3, 4, 5, 6, 7], by decide⟩ 2 _ _ rfl .release _).1

end Session

end SlotRing
