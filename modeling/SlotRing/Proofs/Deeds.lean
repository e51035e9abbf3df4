import SlotRing.Proofs.Slots

/-!
# What operations come to

The operations of both halves on a ledger: no index goes round, no index of
the other side is remembered, and an item is read from the record. `Sees` is
what a half's own state has to do with the ledger: its copy of the other
side's index is the place of a counter that is not too old, and a slot it
holds is the next one of its side.
-/

set_option autoImplicit false

namespace SlotRing

/-- What an operation leaves: the ledger, whether the half holds a slot, the
events and the answer. -/
structure Deed (g : Geometry) (A : Type) where
  ledger : Ledger g
  held : Bool
  events : List Event
  answer : Except Fault A

namespace Producer

variable {g : Geometry}

def held (p : Producer) : Bool := p.draft.isSome

/-- The copy of the read index is the place of the counter `seen`. -/
structure Sees (p : Producer) (b : Ledger g) (seen : Nat) : Prop where
  cachedRead : p.cachedRead = g.place seen
  le_freed : seen ≤ b.freed
  published_lt : b.published < seen + g.slots
  draft : ∀ d, p.draft = some d → d = ⟨g.place b.published, g.place (b.published + 1)⟩ ∧
    b.published + 1 < seen + g.slots

def Tracks (p : Producer) (b : Ledger g) : Prop := ∃ seen, p.Sees b seen

theorem sees_other {p : Producer} {b b' : Ledger g} {seen : Nat} (h : p.Sees b seen)
    (hm : Ledger.Moves .consumer b b') : p.Sees b' seen := by
  have hp := Ledger.published_consumer hm
  constructor
  · exact h.cachedRead
  · exact Nat.le_trans h.le_freed hm.2.2.2
  · rw [hp]
    exact h.published_lt
  · rw [hp]
    exact h.draft

theorem tracks_other {p : Producer} {b b' : Ledger g} (h : p.Tracks b)
    (hm : Ledger.Moves .consumer b b') : p.Tracks b' := by
  obtain ⟨seen, hs⟩ := h
  exact ⟨seen, sees_other hs hm⟩

theorem tracks_congr {p : Producer} {b b' : Ledger g} (h : p.Tracks b)
    (hp : b'.published = b.published) (hf : b'.freed = b.freed) : p.Tracks b' := by
  obtain ⟨seen, hs⟩ := h
  refine ⟨seen, hs.cachedRead, hf ▸ hs.le_freed, ?_, ?_⟩
  · rw [hp]
    exact hs.published_lt
  · rw [hp]
    exact hs.draft

end Producer

namespace Consumer

variable {g : Geometry}

def held (c : Consumer) : Bool := c.loan.isSome

structure Sees (c : Consumer) (b : Ledger g) (seen : Nat) : Prop where
  cachedWrite : c.cachedWrite = g.place seen
  freed_le : b.freed ≤ seen
  le_published : seen ≤ b.published
  loan : ∀ l, c.loan = some l → l = ⟨g.place b.freed⟩ ∧ b.freed < seen

def Tracks (c : Consumer) (b : Ledger g) : Prop := ∃ seen, c.Sees b seen

theorem sees_other {c : Consumer} {b b' : Ledger g} {seen : Nat} (h : c.Sees b seen)
    (hm : Ledger.Moves .producer b b') : c.Sees b' seen := by
  have hf : b'.freed = b.freed := hm.2.1
  constructor
  · exact h.cachedWrite
  · rw [hf]
    exact h.freed_le
  · exact Nat.le_trans h.le_published hm.2.2.length_le
  · rw [hf]
    exact h.loan

theorem tracks_other {c : Consumer} {b b' : Ledger g} (h : c.Tracks b)
    (hm : Ledger.Moves .producer b b') : c.Tracks b' := by
  obtain ⟨seen, hs⟩ := h
  exact ⟨seen, sees_other hs hm⟩

theorem tracks_congr {c : Consumer} {b b' : Ledger g} (h : c.Tracks b)
    (hp : b'.published = b.published) (hf : b'.freed = b.freed) : c.Tracks b' := by
  obtain ⟨seen, hs⟩ := h
  refine ⟨seen, hs.cachedWrite, hf ▸ hs.freed_le, hp ▸ hs.le_published, ?_⟩
  rw [hf]
  exact hs.loan

end Consumer

namespace Ledger

variable {g : Geometry}

/-! ## The producer's operations -/

def produceFree (build : Build) (b : Ledger g) : Producer.Op → Deed g Producer.Answer
  | .push item =>
    if g.slotSize < item.length then
      match build with
      | .release => ⟨b, false, [.pushOversized item.length g.slotSize],
          .ok (.refused (.oversized item.length g.slotSize))⟩
      | .checked => ⟨b, false, [], .error (.oversizedItem item.length g.slotSize)⟩
    else if b.Full then ⟨b, false, [], .ok (.refused .full)⟩
    else ⟨(b.write 0 item).publish, false, [], .ok .pushed⟩
  | .draft =>
    if b.Full then ⟨b, false, [], .ok .full⟩
    else ⟨b, true, [], .ok (.drafted (g.place b.published) (b.slot b.published))⟩
  | .contents | .store .. | .fill _ | .overwrite _ | .finish _ => ⟨b, false, [], .ok .noSlot⟩

def endDraft (b : Ledger g) : Draft.Ending → Ledger g × List Event
  | .release | .drop => (b.publish, [.draftPublished (g.place b.published)])
  | .discard => (b, [.draftDiscarded (g.place b.published)])
  | .forget => (b, [])
  | .unwind => (b, [.draftUnwound (g.place b.published)])

def settle (b : Ledger g) (stored : Bool) : Deed g Producer.Answer :=
  if stored then ⟨b, true, [], .ok (.contents (b.slot b.published))⟩
  else ⟨b, false, [.draftUnwound (g.place b.published)], .ok .panicked⟩

def produceHolding (b : Ledger g) : Producer.Op → Deed g Producer.Answer
  | .push _ | .draft => ⟨b, true, [], .ok .slotHeld⟩
  | .contents => ⟨b, true, [], .ok (.contents (b.slot b.published))⟩
  | .store position bytes =>
    (b.write position (bytes.take (g.slotSize - position))).settle
      (bytes.length ≤ g.slotSize - position)
  | .fill byte => (b.write 0 (List.replicate g.slotSize byte)).settle true
  | .overwrite bytes =>
    if bytes.length = g.slotSize then (b.write 0 bytes).settle true else b.settle false
  | .finish how => ⟨(b.endDraft how).1, false, (b.endDraft how).2, .ok .finished⟩

def produce (build : Build) (held : Bool) (op : Producer.Op) (b : Ledger g) :
    Deed g Producer.Answer :=
  if held then b.produceHolding op else b.produceFree build op

/-! ## The consumer's operations -/

def consumeFree (b : Ledger g) : Consumer.Op → Deed g Consumer.Answer
  | .pop dest =>
    if b.Empty then ⟨b, false, [], .ok (.popped none dest)⟩
    else
      let bytes := b.oldest.take dest.length
      ⟨b.free, false, [], .ok (.popped (some bytes.length) (bytes ++ dest.drop bytes.length))⟩
  | .borrow =>
    if b.Empty then ⟨b, false, [], .ok .empty⟩
    else ⟨b, true, [], .ok (.lent (g.place b.freed) b.oldest)⟩
  | .contents | .byteAt _ | .finish _ => ⟨b, false, [], .ok .noSlot⟩

def endLoan (b : Ledger g) : Loan.Ending → Ledger g × List Event
  | .release | .drop | .unwind => (b.free, [.loanReleased (g.place b.freed)])
  | .retain => (b, [.loanRetained (g.place b.freed)])
  | .forget => (b, [])

def consumeHolding (b : Ledger g) : Consumer.Op → Deed g Consumer.Answer
  | .pop _ | .borrow => ⟨b, true, [], .ok .slotHeld⟩
  | .contents => ⟨b, true, [], .ok (.contents b.oldest)⟩
  | .byteAt position =>
    match b.oldest[position]? with
    | some value => ⟨b, true, [], .ok (.byte value)⟩
    | none => ⟨b.free, false, [.loanReleased (g.place b.freed)], .ok .panicked⟩
  | .finish how => ⟨(b.endLoan how).1, false, (b.endLoan how).2, .ok .finished⟩

def consume (held : Bool) (op : Consumer.Op) (b : Ledger g) : Deed g Consumer.Answer :=
  if held then b.consumeHolding op else b.consumeFree op

end Ledger

end SlotRing
