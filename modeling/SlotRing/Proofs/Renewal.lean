import SlotRing.Proofs.Frames
import SlotRing.Proofs.Linearization

/-!
# Two runs with different abandoned bytes

What goes through a draft that is abandoned stays in the slot and comes to light
if the slot is published before all of it has been stored anew. The marks of a
run tell when that is so (`AllRenewed`). If it is not, then two runs that differ
only in such bytes keep accounts that differ only in such bytes (`Account.Alike`):
an operation never tells of a slot that is not published, and a slot that is
published has been renewed.
-/

set_option autoImplicit false

namespace SlotRing

variable {g : Geometry}

namespace Draft

def Ending.publishes : Ending → Bool
  | .release | .drop => true
  | .discard | .forget | .unwind => false

end Draft

/-! ## Marks -/

namespace Session

/-- Whether the operation published the draft that it ended, if it ended one.
Splitting again publishes what is held. -/
def ending : Op → Answer → Option Bool
  | .produce (.finish how), .produced .finished => some how.publishes
  | .produce _, .produced .panicked => some false
  | .resplit, _ => some true
  | _, _ => none

def fate : List (Op × Answer × List Event) → Option Bool
  | [] => none
  | (op, done) :: rest => (ending op done.1).or (fate rest)

def Op.sameShape : Op → Op → Bool
  | .produce (.store position bytes), .produce (.store position' bytes') =>
    position' = position ∧ bytes'.length = bytes.length
  | .produce (.fill _), .produce (.fill _) => true
  | .produce (.overwrite bytes), .produce (.overwrite bytes') => bytes'.length = bytes.length
  | _, _ => false

/-- The operations are those of the log, except that other bytes may go through
a draft that is abandoned. -/
def Varied : List (Op × Answer × List Event) → List Op → Prop
  | [], [] => True
  | (op, done) :: rest, op' :: ops' =>
    (op' = op ∨ op.sameShape op' = true ∧ done.1 ≠ .produced .noSlot ∧
      fate ((op, done) :: rest) = some false) ∧ Varied rest ops'
  | _, _ => False

instance decidableVaried : (log : List (Op × Answer × List Event)) → (ops : List Op) →
    Decidable (Varied log ops)
  | [], [] => .isTrue trivial
  | [], _ :: _ | _ :: _, [] => .isFalse id
  | (_, _) :: rest, _ :: ops =>
    have := decidableVaried rest ops
    inferInstanceAs (Decidable (_ ∧ Varied rest ops))

structure Mark where
  slot : Nat
  /-- Where it stored bytes by a push or through a draft that is published. -/
  position : Nat
  count : Nat
  abandons : Bool
  publishes : Bool
  deriving DecidableEq, Repr

def Mark.Covers (m : Mark) (slot offset : Nat) : Prop :=
  m.slot = slot ∧ m.position ≤ offset ∧ offset < m.position + m.count

instance (m : Mark) (slot offset : Nat) : Decidable (m.Covers slot offset) :=
  inferInstanceAs (Decidable (_ ∧ _))

def mark (g : Geometry) (k : Nat) (op : Op) (done : Answer × List Event)
    (rest : List (Op × Answer × List Event)) : Mark where
  slot := k % g.slotCount.toNat
  position := (stored g op done.1).1
  count :=
    if done.1 = .produced .pushed ∨ fate ((op, done) :: rest) = some true then
      (stored g op done.1).2.length
    else 0
  abandons := ending op done.1 = some false
  publishes := publishedBy done ≠ 0

def marks (g : Geometry) : Nat → List (Op × Answer × List Event) → List Mark
  | _, [] => []
  | k, (op, done) :: rest => mark g k op done rest :: marks g (k + publishedBy done) rest

def sinceAbandoned (slot : Nat) : List Mark → Option (List Mark)
  | [] => none
  | m :: rest =>
    (sinceAbandoned slot rest).or (if m.abandons = true ∧ m.slot = slot then some rest else none)

/-- If a draft of the slot was abandoned, then the byte was stored since. -/
def Renewed (past : List Mark) (slot offset : Nat) : Prop :=
  ∀ since ∈ sinceAbandoned slot past, ∃ m ∈ since, m.Covers slot offset

instance (past : List Mark) (slot offset : Nat) : Decidable (Renewed past slot offset) :=
  inferInstanceAs (Decidable (∀ since ∈ sinceAbandoned slot past, _))

def AllRenewed (g : Geometry) (marks : List Mark) : Prop :=
  ∀ i, (h : i < marks.length) → marks[i].publishes = true →
    ∀ offset, offset < g.slotSize → Renewed (marks.take (i + 1)) marks[i].slot offset

instance (g : Geometry) (marks : List Mark) : Decidable (AllRenewed g marks) :=
  inferInstanceAs (Decidable (∀ i, (h : i < marks.length) → _))

theorem renewed_head {past rest : List Mark} {m : Mark} (h : AllRenewed g (past ++ m :: rest))
    (hm : m.publishes = true) : ∀ offset < g.slotSize, Renewed (past ++ [m]) m.slot offset := by
  have hlast := h past.length (by simp)
  simp only [List.getElem_append_right (Nat.le_refl _), Nat.sub_self, List.getElem_cons_zero,
    List.take_length_add_append, List.take_succ_cons, List.take_zero] at hlast
  exact hlast hm

def Answer.masked : Answer → Answer
  | .produced (.drafted index _) => .produced (.drafted index [])
  | .produced (.contents _) => .produced (.contents [])
  | answer => answer

theorem stored_masked (op : Op) (answer : Answer) :
    stored g op answer.masked = stored g op answer := by
  unfold Answer.masked
  split
  · rcases op with (_ | _ | _ | _ | _ | _ | _) | _ | _ <;> rfl
  · rcases op with (_ | _ | _ | _ | _ | _ | _) | _ | _ <;> rfl
  · rfl

theorem publishedBy_masked (answer : Answer) (events : List Event) :
    publishedBy (answer.masked, events) = publishedBy (answer, events) := by
  unfold Answer.masked
  split <;> rfl

theorem covers_mark {k slot offset : Nat} {op : Op} {answer : Answer} {events : List Event}
    {rest : List (Op × Answer × List Event)}
    (h : (mark g k op (answer, events) rest).Covers slot offset) :
    slot = k % g.slots ∧ (stored g op answer).1 ≤ offset ∧
      offset < (stored g op answer).1 + (stored g op answer).2.length := by
  obtain ⟨hslot, hl, hu⟩ := h
  have hcount : (mark g k op (answer, events) rest).count ≤ (stored g op answer).2.length := by
    rw [mark]
    split
    · exact Nat.le_refl _
    · exact Nat.zero_le _
  exact ⟨hslot.symm, hl, Nat.lt_of_lt_of_le hu (Nat.add_le_add_left hcount _)⟩

theorem sinceAbandoned_append (slot : Nat) (past : List Mark) (m : Mark) :
    sinceAbandoned slot (past ++ [m]) =
      if m.abandons = true ∧ m.slot = slot then some []
      else (sinceAbandoned slot past).map (· ++ [m]) := by
  induction past with
  | nil => rfl
  | cons x past ih =>
    rw [List.cons_append, sinceAbandoned, ih, sinceAbandoned]
    split
    · rfl
    · cases sinceAbandoned slot past with
      | some since => rfl
      | none => split <;> rfl

theorem not_abandons_of_renewed {past : List Mark} {m : Mark} {slot offset : Nat}
    (h : Renewed (past ++ [m]) slot offset) : ¬ (m.abandons = true ∧ m.slot = slot) := by
  intro hm
  rw [Renewed, sinceAbandoned_append, if_pos hm] at h
  obtain ⟨_, hmem, -⟩ := h [] rfl
  cases hmem

theorem renewed_of_append {past : List Mark} {m : Mark} {slot offset : Nat}
    (h : Renewed (past ++ [m]) slot offset) : Renewed past slot offset ∨ m.Covers slot offset := by
  have hm := not_abandons_of_renewed h
  rw [Renewed, sinceAbandoned_append, if_neg hm] at h
  cases hs : sinceAbandoned slot past with
  | none =>
    left
    rw [Renewed, hs]
    exact nofun
  | some since =>
    rw [hs] at h
    obtain ⟨x, hx, hcovers⟩ := h (since ++ [m]) rfl
    rcases List.mem_append.mp hx with hx | hx
    · left
      rw [Renewed, hs]
      rintro _ ⟨⟩
      exact ⟨x, hx, hcovers⟩
    · right
      rwa [← List.mem_singleton.mp hx]

end Session

theorem Geometry.apart_of_ne (g : Geometry) {slot k offset : Nat} (h : slot ≠ k % g.slots)
    (hoffset : offset < g.slotSize) : slot * g.slotSize + offset < g.base k ∨
      g.base k + g.slotSize ≤ slot * g.slotSize + offset := by
  rcases Nat.lt_or_gt_of_ne h with hlt | hgt
  · left
    have hle := Nat.mul_le_mul_right g.slotSize (Nat.succ_le_of_lt hlt)
    rw [Nat.succ_mul] at hle
    exact Nat.lt_of_lt_of_le (Nat.add_lt_add_left hoffset _) hle
  · right
    have hle := Nat.mul_le_mul_right g.slotSize (Nat.succ_le_of_lt hgt)
    rw [Nat.succ_mul] at hle
    exact Nat.le_trans hle (Nat.le_add_right _ _)

theorem Ledger.get_fills_alike {b b' c c' : Ledger g} {written written' : Nat × List UInt8}
    (h : Fills b c written) (h' : Fills b' c' written') (hp : b'.published = b.published)
    (hposition : written'.1 = written.1) (hlength : written'.2.length = written.2.length)
    {address : Nat}
    (hin : g.base b.published + written.1 ≤ address →
      address < g.base b.published + written.1 + written.2.length → written' = written)
    (hout : address < g.base b.published + written.1 ∨
      g.base b.published + written.1 + written.2.length ≤ address →
        b'.storage.get address = b.storage.get address) :
    c'.storage.get address = c.storage.get address := by
  by_cases hinside : g.base b.published + written.1 ≤ address ∧
      address < g.base b.published + written.1 + written.2.length
  · obtain ⟨hl, hu⟩ := hinside
    obtain rfl := hin hl hu
    have hj : address - (g.base b.published + written'.1) < written'.2.length := by omega
    have hfits := g.base_fits b.published
    have hwritten := h.fits.resolve_left fun hnil => by simp [hnil] at hj
    have hget := fun s (hs : Storage.size s = g.storageLen.toNat) =>
      s.get_write_inside (g.base b.published + written'.1) written'.2 _ hj (by omega)
    rw [show g.base b.published + written'.1 + (address - (g.base b.published + written'.1)) =
      address by omega] at hget
    rw [h.storage, h'.storage]
    show (b'.storage.write (g.base b'.published + _) _).get address =
      (b.storage.write (g.base b.published + _) _).get address
    rw [hp, hget _ b'.fits, hget _ b.fits]
  · have houtside : address < g.base b.published + written.1 ∨
        g.base b.published + written.1 + written.2.length ≤ address := by omega
    rw [get_fills_outside h houtside,
      get_fills_outside h' (by rwa [hp, hposition, hlength]), hout houtside]

/-! ## What operations do alike -/

namespace Account

open Session

variable {build : Build} {a a' : Account g} {op op' : Session.Op}

structure Agrees (a a' : Account g) : Prop where
  items : a'.ledger.items = a.ledger.items
  freed : a'.ledger.freed = a.ledger.freed
  drafting : a'.drafting = a.drafting
  lending : a'.lending = a.lending

structure Effect.Agrees (e e' : Effect g) : Prop where
  freed : e'.account.ledger.freed = e.account.ledger.freed
  drafting : e'.account.drafting = e.account.drafting
  lending : e'.account.lending = e.account.lending
  events : e'.events = e.events
  answer : e'.answer.masked = e.answer.masked

theorem Effect.agrees_trans {e e' e'' : Effect g} (h : e.Agrees e') (h' : e'.Agrees e'') :
    e.Agrees e'' where
  freed := h'.freed.trans h.freed
  drafting := h'.drafting.trans h.drafting
  lending := h'.lending.trans h.lending
  events := h'.events.trans h.events
  answer := h'.answer.trans h.answer

theorem agrees_settle {b b' : Ledger g} (hp : b'.published = b.published)
    (hf : b'.freed = b.freed) (stored lending : Bool) :
    let effect (b : Ledger g) : Effect g :=
      ⟨⟨(b.settle stored).ledger, (b.settle stored).held, lending⟩, (b.settle stored).events,
        produced (b.settle stored).answer⟩
    (effect b).Agrees (effect b') := by
  cases stored with
  | true => exact ⟨hf, rfl, rfl, rfl, rfl⟩
  | false =>
    refine ⟨hf, rfl, rfl, ?_, rfl⟩
    simp only [Ledger.settle, if_neg Bool.false_ne_true, hp]

theorem step_agrees_produce (build : Build) (op : Producer.Op) (h : a.Agrees a') :
    (a.step build (.produce op)).Agrees (a'.step build (.produce op)) := by
  obtain ⟨b, drafting, lending⟩ := a
  obtain ⟨b', drafting', lending'⟩ := a'
  obtain ⟨hi, hf, hd, hl⟩ := h
  cases hd
  cases hl
  have hp : b'.published = b.published := congrArg List.length hi
  have hf : b'.freed = b.freed := hf
  have hfull : b'.Full ↔ b.Full := by simp only [Ledger.Full, hp, hf]
  cases drafting with
  | false =>
    simp only [step, Ledger.produce, if_neg Bool.false_ne_true]
    cases op with
    | push item =>
      simp only [Ledger.produceFree, hfull]
      split
      · cases build <;> exact ⟨hf, rfl, rfl, rfl, rfl⟩
      · split <;> exact ⟨hf, rfl, rfl, rfl, rfl⟩
    | draft =>
      simp only [Ledger.produceFree, hfull]
      split
      · exact ⟨hf, rfl, rfl, rfl, rfl⟩
      · refine ⟨hf, rfl, rfl, rfl, ?_⟩
        simp only [produced, Answer.masked, hp]
    | contents | store _ _ | fill _ | overwrite _ | finish _ => exact ⟨hf, rfl, rfl, rfl, rfl⟩
  | true =>
    simp only [step, Ledger.produce, if_pos]
    cases op with
    | push _ | draft | contents => exact ⟨hf, rfl, rfl, rfl, rfl⟩
    | store _ _ | fill _ => exact @agrees_settle _ (b.write _ _) (b'.write _ _) hp hf _ _
    | overwrite bytes =>
      simp only [Ledger.produceHolding]
      split
      · exact @agrees_settle _ (b.write _ _) (b'.write _ _) hp hf _ _
      · exact agrees_settle hp hf _ _
    | finish how =>
      refine ⟨?_, rfl, rfl, ?_, rfl⟩
      · cases how <;> exact hf
      · cases how <;> simp only [Ledger.produceHolding, Ledger.endDraft, hp]

theorem step_agrees (build : Build) (op : Session.Op) (h : a.Agrees a') :
    (a.step build op).Agrees (a'.step build op) := by
  cases op with
  | produce op => exact step_agrees_produce build op h
  | consume op =>
    have hrecord := Workers.consume_record a.lending op h.items h.freed
    simp only [step, h.lending, hrecord]
    exact ⟨rfl, h.drafting, rfl, rfl, rfl⟩
  | resplit =>
    obtain ⟨b, drafting, lending⟩ := a
    obtain ⟨b', drafting', lending'⟩ := a'
    obtain ⟨hi, hf, hd, hl⟩ := h
    cases hd
    cases hl
    have hp : b'.published = b.published := congrArg List.length hi
    have hfreed : b'.freed = b.freed := hf
    refine ⟨?_, rfl, rfl, ?_, rfl⟩
    · cases drafting <;> cases lending <;>
        simp [step, close, Ledger.endDraft, Ledger.endLoan, hfreed]
    · cases drafting <;> cases lending <;>
        simp [step, close, Ledger.endDraft, Ledger.endLoan, hp, hfreed]

theorem step_same_shape (build : Build) (a : Account g) (hop : op.sameShape op' = true) :
    (a.step build op).Agrees (a.step build op') := by
  obtain ⟨b, drafting, lending⟩ := a
  cases drafting with
  | false =>
    match op, op', hop with
    | .produce (.store ..), .produce (.store ..), _
    | .produce (.fill _), .produce (.fill _), _
    | .produce (.overwrite _), .produce (.overwrite _), _ => exact ⟨rfl, rfl, rfl, rfl, rfl⟩
  | true =>
    match op, op', hop with
    | .produce (.store position bytes), .produce (.store position' bytes'), hop =>
      obtain ⟨rfl, hlength⟩ := of_decide_eq_true hop
      simp only [step, Ledger.produce, if_pos, Ledger.produceHolding, hlength]
      exact @agrees_settle _ (b.write position' (bytes.take _))
        (b.write position' (bytes'.take _)) rfl rfl _ _
    | .produce (.fill byte), .produce (.fill byte'), _ =>
      exact @agrees_settle _ (b.write 0 (List.replicate _ byte))
        (b.write 0 (List.replicate _ byte')) rfl rfl true lending
    | .produce (.overwrite bytes), .produce (.overwrite bytes'), hop =>
      simp only [step, Ledger.produce, if_pos, Ledger.produceHolding, of_decide_eq_true hop]
      split
      · exact @agrees_settle _ (b.write 0 bytes) (b.write 0 bytes') rfl rfl _ _
      · exact ⟨rfl, rfl, rfl, rfl, rfl⟩

theorem stored_same_shape (hop : op.sameShape op' = true) (answer : Answer) :
    (stored g op' answer).1 = (stored g op answer).1 ∧
      (stored g op' answer).2.length = (stored g op answer).2.length := by
  match op, op', hop with
  | .produce (.store position bytes), .produce (.store position' bytes'), hop =>
    obtain ⟨rfl, hlength⟩ := of_decide_eq_true hop
    rcases answer with (_ | _ | _ | _ | _ | _ | _ | _ | _) | _ | _ | _ <;>
      simp [stored, hlength]
  | .produce (.fill _), .produce (.fill _), _ =>
    rcases answer with (_ | _ | _ | _ | _ | _ | _ | _ | _) | _ | _ | _ <;> simp [stored]
  | .produce (.overwrite bytes), .produce (.overwrite bytes'), hop =>
    have hlength : bytes'.length = bytes.length := of_decide_eq_true hop
    rcases answer with (_ | _ | _ | _ | _ | _ | _ | _ | _) | _ | _ | _ <;>
      simp [stored, hlength]

theorem drafting_of_same_shape (hop : op.sameShape op' = true)
    (ha : (a.step build op).answer ≠ .produced .noSlot) : a.drafting = true := by
  cases hd : a.drafting with
  | true => rfl
  | false =>
    exfalso
    apply ha
    match op, op', hop with
    | .produce (.store ..), .produce (.store ..), _
    | .produce (.fill _), .produce (.fill _), _
    | .produce (.overwrite _), .produce (.overwrite _), _ =>
      simp only [step, Ledger.produce, hd, if_neg Bool.false_ne_true, Ledger.produceFree, produced]

theorem drafting_of_ending (op : Session.Op) (hd : a.drafting = true)
    (he : ending op (a.step build op).answer = none) :
    (a.step build op).account.drafting = true ∧
      (a.step build op).account.ledger.items = a.ledger.items := by
  obtain ⟨b, drafting, lending⟩ := a
  cases hd
  have hsettle : ∀ (c : Ledger g) (stored : Bool) (op : Producer.Op),
      ending (.produce op) (produced (c.settle stored).answer) = none →
        (c.settle stored).held = true ∧ (c.settle stored).ledger.items = c.items := by
    intro c stored op he
    cases stored with
    | true => exact ⟨rfl, rfl⟩
    | false => cases op <;> cases he
  cases op with
  | resplit => cases he
  | consume op =>
    have hrecord := Workers.consume_record lending op (Eq.refl b.items) (Eq.refl b.freed)
    exact ⟨rfl, congrArg (fun deed : Deed g _ => deed.ledger.items) hrecord⟩
  | produce op =>
    cases op with
    | push _ | draft | contents => exact ⟨rfl, rfl⟩
    | store position bytes => exact hsettle (b.write _ _) _ _ he
    | fill byte => exact hsettle (b.write 0 (List.replicate _ byte)) true (.fill byte) he
    | overwrite bytes =>
      simp only [step, Ledger.produce, if_pos, Ledger.produceHolding] at he ⊢
      split at he
      · rw [if_pos ‹_›]
        exact hsettle (b.write _ _) _ _ he
      · rw [if_neg ‹_›]
        exact hsettle b _ _ he
    | finish how => cases he

/-! ## Runs -/

/-- Two runs before what is left of the first one: their accounts agree but for
bytes that are not renewed, or that are in a draft yet to be abandoned. -/
structure Alike (past : List Mark) (log : List (Session.Op × Answer × List Event))
    (a a' : Account g) : Prop extends a.Agrees a' where
  byte : ∀ slot < g.slots, ∀ offset < g.slotSize, Renewed past slot offset →
    ¬ (a.drafting = true ∧ fate log = some false ∧ slot = a.ledger.published % g.slots) →
      a'.ledger.storage.get (slot * g.slotSize + offset) =
        a.ledger.storage.get (slot * g.slotSize + offset)

section

variable {past : List Mark} {rest : List (Session.Op × Answer × List Event)}

def Follows (build : Build) (a : Account g) (op op' : Session.Op)
    (rest : List (Session.Op × Answer × List Event)) : Prop :=
  op' = op ∨ op.sameShape op' = true ∧ (a.step build op).answer ≠ .produced .noSlot ∧
    fate ((op, (a.step build op).answer, (a.step build op).events) :: rest) = some false

theorem agrees_follows (h : a.Agrees a') (hop : a.Follows build op op' rest) :
    (a.step build op).Agrees (a'.step build op') := by
  rcases hop with rfl | ⟨hshape, -, -⟩
  · exact step_agrees build op' h
  · exact Effect.agrees_trans (step_same_shape build a hshape) (step_agrees build op' h)

theorem stored_follows (h : a.Agrees a') (hop : a.Follows build op op' rest) :
    stored g op' (a'.step build op').answer = stored g op' (a.step build op).answer ∧
      (stored g op' (a.step build op).answer).1 = (stored g op (a.step build op).answer).1 ∧
      (stored g op' (a.step build op).answer).2.length =
        (stored g op (a.step build op).answer).2.length := by
  constructor
  · rw [← stored_masked, (agrees_follows h hop).answer, stored_masked]
  · rcases hop with rfl | ⟨hshape, -, -⟩
    · exact ⟨rfl, rfl⟩
    · exact stored_same_shape hshape _

/-- A draft that is yet to be abandoned is still open after the operation, or
it is abandoned by it. -/
theorem not_doomed {slot : Nat} (hs : slot = a.ledger.published % g.slots)
    (hmark : ¬ (ending op (a.step build op).answer = some false))
    (hopen : ¬ ((a.step build op).account.drafting = true ∧ fate rest = some false ∧
      slot = (a.step build op).account.ledger.published % g.slots)) :
    ¬ (a.drafting = true ∧
      fate ((op, (a.step build op).answer, (a.step build op).events) :: rest) = some false) := by
  rintro ⟨hd, hfate⟩
  cases he : ending op (a.step build op).answer with
  | some published =>
    rw [fate, he] at hfate
    exact hmark (he.trans hfate)
  | none =>
    rw [fate, he, Option.none_or] at hfate
    obtain ⟨hd', hi⟩ := drafting_of_ending op hd he
    exact hopen ⟨hd', hfate, by rw [hs, Ledger.published, Ledger.published, hi]⟩

theorem byte_follows (h : Alike past ((op, (a.step build op).answer, (a.step build op).events) ::
      rest) a a') (hop : a.Follows build op op' rest) {slot offset : Nat} (hslot : slot < g.slots)
    (hoffset : offset < g.slotSize)
    (hrenewed : Renewed (past ++ [mark g a.ledger.published op
      ((a.step build op).answer, (a.step build op).events) rest]) slot offset)
    (hopen : ¬ ((a.step build op).account.drafting = true ∧ fate rest = some false ∧
      slot = (a.step build op).account.ledger.published % g.slots)) :
    (a'.step build op').account.ledger.storage.get (slot * g.slotSize + offset) =
      (a.step build op).account.ledger.storage.get (slot * g.slotSize + offset) := by
  have hp : a'.ledger.published = a.ledger.published := congrArg List.length h.items
  obtain ⟨hstored, hposition, hlength⟩ := stored_follows h.toAgrees hop
  have hfills := fills_step build op a
  have hfills' := hstored ▸ fills_step build op' a'
  have hpast := renewed_of_append hrenewed
  by_cases hs : slot = a.ledger.published % g.slots
  · have hdoomed := not_doomed hs
      (fun he => not_abandons_of_renewed hrenewed ⟨decide_eq_true he, hs.symm⟩) hopen
    apply Ledger.get_fills_alike hfills hfills' hp hposition hlength
    · intro _ _
      rcases hop with rfl | ⟨hshape, hanswer, hfate⟩
      · rfl
      · exact absurd ⟨drafting_of_same_shape hshape hanswer, hfate⟩ hdoomed
    · intro houtside
      apply h.byte slot hslot offset hoffset
      · apply hpast.resolve_right
        intro hcovers
        obtain ⟨-, hl, hu⟩ := covers_mark hcovers
        rw [hs] at houtside
        change _ < a.ledger.published % g.slots * g.slotSize + _ ∨
          a.ledger.published % g.slots * g.slotSize + _ + _ ≤ _ at houtside
        omega
      · exact fun hopen' => hdoomed ⟨hopen'.1, hopen'.2.1⟩
  · have hbefore : a'.ledger.storage.get (slot * g.slotSize + offset) =
        a.ledger.storage.get (slot * g.slotSize + offset) := by
      apply h.byte slot hslot offset hoffset
      · exact hpast.resolve_right fun hcovers => hs (covers_mark hcovers).1
      · exact fun hopen' => hs hopen'.2.2
    have hapart := g.apart_of_ne hs hoffset
    apply Ledger.get_fills_alike hfills hfills' hp hposition hlength
    · intro hl hu
      rcases hfills.fits with hnil | hfits
      · rw [hnil, List.length_nil] at hu
        omega
      · omega
    · exact fun _ => hbefore

theorem items_follows (h : Alike past ((op, (a.step build op).answer, (a.step build op).events) ::
      rest) a a') (hop : a.Follows build op op' rest)
    (hrenewed : (a.step build op).account.ledger.published ≠ a.ledger.published →
      ∀ offset < g.slotSize, Renewed (past ++ [mark g a.ledger.published op
        ((a.step build op).answer, (a.step build op).events) rest])
        (a.ledger.published % g.slots) offset) :
    (a'.step build op').account.ledger.items = (a.step build op).account.ledger.items := by
  have heffect := agrees_follows h.toAgrees hop
  have hp : a'.ledger.published = a.ledger.published := congrArg List.length h.items
  have hcount := (step_counts build op a).1
  have hcount' : (a'.step build op').account.ledger.published =
      (a.step build op).account.ledger.published := by
    rw [hcount, (step_counts build op' a').1, hp, heffect.events, ← publishedBy_masked,
      heffect.answer, publishedBy_masked]
  have hlength := congrArg List.length h.items
  rcases (fills_step build op a).items with hsame | hmore
  · rcases (fills_step build op' a').items with hsame' | hmore'
    · rw [hsame, hsame', h.items]
    · rw [Ledger.published, Ledger.published, hsame, hmore', List.length_append, hlength,
        List.length_singleton] at hcount'
      omega
  · have hnext : (a.step build op).account.ledger.published = a.ledger.published + 1 := by
      rw [Ledger.published, hmore, List.length_append, List.length_singleton]
      rfl
    have hslot : (a'.step build op').account.ledger.slot a.ledger.published =
        (a.step build op).account.ledger.slot a.ledger.published := by
      apply Storage.slice_congr
      intro offset hoffset
      apply byte_follows h hop (g.mod_slots_lt _) hoffset (hrenewed (by omega) offset hoffset)
      rintro ⟨-, -, hround⟩
      have hn := g.two_le_slots
      rw [hnext] at hround
      have := Geometry.mod_inj_window (Nat.le_succ a.ledger.published) (by omega) hround
      omega
    rcases (fills_step build op' a').items with hsame' | hmore'
    · rw [hnext, Ledger.published, hsame', hlength, Ledger.published] at hcount'
      omega
    · rw [hmore, hmore', h.items, hp, hslot]

theorem alike_step (h : Alike past ((op, (a.step build op).answer, (a.step build op).events) ::
      rest) a a') (hop : a.Follows build op op' rest)
    (hrenewed : (a.step build op).account.ledger.published ≠ a.ledger.published →
      ∀ offset < g.slotSize, Renewed (past ++ [mark g a.ledger.published op
        ((a.step build op).answer, (a.step build op).events) rest])
        (a.ledger.published % g.slots) offset) :
    Alike (past ++ [mark g a.ledger.published op ((a.step build op).answer,
      (a.step build op).events) rest]) rest (a.step build op).account
      (a'.step build op').account where
  items := items_follows h hop hrenewed
  freed := (agrees_follows h.toAgrees hop).freed
  drafting := (agrees_follows h.toAgrees hop).drafting
  lending := (agrees_follows h.toAgrees hop).lending
  byte _ hslot _ hoffset := byte_follows h hop hslot hoffset

end

def log (build : Build) (ops : List Session.Op) (a : Account g) :
    List (Session.Op × Answer × List Event) :=
  ops.zip (a.run build ops).2

theorem run_alike (build : Build) (ops ops' : List Session.Op) {past : List Mark}
    {a a' : Account g} (h : Alike past (a.log build ops) a a')
    (hvaried : Varied (a.log build ops) ops')
    (hrenewed : AllRenewed g (past ++ marks g a.ledger.published (a.log build ops))) :
    (a'.run build ops').2.map (Prod.map Answer.masked id) =
        (a.run build ops).2.map (Prod.map Answer.masked id) ∧
      ∀ n, (a.run build (ops.take n)).1.Agrees (a'.run build (ops'.take n)).1 := by
  induction ops generalizing ops' past a a' with
  | nil =>
    cases ops' with
    | nil => exact ⟨rfl, fun n => by rw [List.take_nil]; exact h.toAgrees⟩
    | cons _ _ => exact hvaried.elim
  | cons op ops ih =>
    cases ops' with
    | nil => exact hvaried.elim
    | cons op' ops' =>
      obtain ⟨hop, hrest⟩ := hvaried
      have hcount := (step_counts build op a).1
      have hstep := alike_step h hop fun hne => renewed_head hrenewed (by
        apply decide_eq_true
        rw [hcount] at hne
        omega)
      have heffect := agrees_follows h.toAgrees hop
      obtain ⟨htrace, hstates⟩ := ih ops' hstep hrest (by
        rw [hcount, List.append_assoc]
        exact hrenewed)
      constructor
      · simp only [run, List.map_cons, htrace, Prod.map, heffect.answer, heffect.events]
      · intro n
        cases n with
        | zero => exact h.toAgrees
        | succ n => exact hstates n

end Account

end SlotRing
