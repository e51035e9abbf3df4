import SlotRing.Proofs.Discipline
import SlotRing.Producer
import SlotRing.Consumer

/-!
# Decisive accesses

Which access decides an operation. `EndsBy` speaks of the accesses of a
program alone, whatever memory it meets: of the last one before each of its
results. An operation that moves an index ends by storing it, and one that
finds no slot by loading the index of the other side.
-/

set_option autoImplicit false

namespace SlotRing

namespace Access

variable {α β : Type}

/-- Every result follows on an access that satisfies `P` with it; `last` is
the access before the program. -/
def EndsBy (P : Option Kind → α → Prop) : Option Kind → Access α → Prop
  | last, .done a => P last a
  | _, .loadIndex o k => ∀ i, EndsBy P (some (.loadIndex o)) (k i)
  | _, .storeIndex o _ k => EndsBy P (some (.storeIndex o)) (k ())
  | _, .loadByte _ k => ∀ v, EndsBy P (some .loadByte) (k v)
  | _, .storeByte _ _ k => EndsBy P (some .storeByte) (k ())
  | _, .log _ k => EndsBy P (some .log) (k ())
  | _, .require _ _ k => EndsBy P (some .require) (k ())

variable {P : Option Kind → α → Prop} {Q : Option Kind → β → Prop} {last : Option Kind}

theorem endsBy_of_forall {p : Access α} (h : ∀ last a, P last a) : EndsBy P last p := by
  induction p generalizing last with
  | done a => exact h last a
  | loadIndex _ _ ih => exact fun i => ih i
  | loadByte _ _ ih => exact fun v => ih v
  | storeIndex _ _ _ ih | storeByte _ _ _ ih | log _ _ ih | require _ _ _ ih => exact ih ()

theorem endsBy_mono {p : Access α} {P' : Option Kind → α → Prop} (h : EndsBy P last p)
    (hp : ∀ last a, P last a → P' last a) : EndsBy P' last p := by
  induction p generalizing last with
  | done a => exact hp last a h
  | loadIndex _ _ ih => exact fun i => ih i (h i)
  | loadByte _ _ ih => exact fun v => ih v (h v)
  | storeIndex _ _ _ ih | storeByte _ _ _ ih | log _ _ ih | require _ _ _ ih => exact ih () h

theorem endsBy_bind {p : Access α} {f : α → Access β}
    (h : EndsBy (fun last a => EndsBy Q last (f a)) last p) : EndsBy Q last (p >>= f) := by
  induction p generalizing last with
  | done a => exact h
  | loadIndex _ _ ih => exact fun i => ih i (h i)
  | loadByte _ _ ih => exact fun v => ih v (h v)
  | storeIndex _ _ _ ih | storeByte _ _ _ ih | log _ _ ih | require _ _ _ ih => exact ih () h

theorem endsBy_after {p : Access α} {f : α → Access β} (h : ∀ last a, EndsBy Q last (f a)) :
    EndsBy Q last (p >>= f) :=
  endsBy_bind (endsBy_of_forall h)

theorem endsBy_step {g : Geometry} {p : Access α} {r : Ring g} (h : EndsBy P last p)
    (hp : p.kind? ≠ none) : EndsBy P p.kind? (p.step r).1 := by
  cases p with
  | done a => exact absurd rfl hp
  | loadIndex _ _ => exact h _
  | loadByte _ _ => exact h _
  | storeIndex _ _ _ | storeByte _ _ _ | log _ _ | require _ _ _ => exact h

theorem endsBy_of_kind? {p : Access α} {last' : Option Kind} (h : EndsBy P last p)
    (hp : p.kind? ≠ none) : EndsBy P last' p := by
  cases p with
  | done a => exact absurd rfl hp
  | loadIndex _ _ | loadByte _ _ | storeIndex _ _ _ | storeByte _ _ _ | log _ _
  | require _ _ _ => exact h

theorem endsBy_complete {g : Geometry} {p : Access α} {r : Ring g} (h : EndsBy P last p) :
    ∃ last, P last (p.complete r).1 := by
  induction p generalizing last r with
  | done a => exact ⟨last, h⟩
  | loadIndex _ _ ih | loadByte _ _ ih => exact ih _ (h _)
  | storeIndex _ _ _ ih | storeByte _ _ _ ih | log _ _ ih | require _ _ _ ih => exact ih () h

end Access

open Access

namespace Producer

variable {g : Geometry} {last : Option Kind}

def decisive (op : Op) : Answer → Option Kind
  | .pushed => some (.storeIndex .producer)
  | .finished =>
    match op with
    | .finish .release | .finish .drop => some (.storeIndex .producer)
    | _ => none
  | .refused .full | .full => some (.loadIndex .consumer)
  | _ => none

def Decided (op : Op) (last : Option Kind) (result : Producer × Answer) : Prop :=
  ∀ kind, decisive op result.2 = some kind → last = some kind

theorem endsBy_claim {α : Type} {P : Option Kind → α → Prop} {p : Producer}
    {f : Producer × Option Draft → Access α}
    (hnone : ∀ p', EndsBy P (some (.loadIndex .consumer)) (f (p', none)))
    (hsome : ∀ last p' d, EndsBy P last (f (p', some d))) :
    EndsBy P last (p.claim g >>= f) := by
  simp only [claim, LawfulMonad.bind_assoc]
  intro index
  show EndsBy P (some .require) (ite _ _ _ >>= f)
  by_cases h : g.next index = p.cachedRead
  · rw [if_pos h]
    intro read
    show EndsBy P _ (f (_, ite _ _ _))
    by_cases hr : g.next index = read
    · rw [if_pos hr]
      exact hnone _
    · rw [if_neg hr]
      exact hsome _ _ _
  · rw [if_neg h]
    exact hsome _ _ _

theorem endsBy_push {α : Type} {item : List UInt8} {p : Producer}
    {f : Producer × Except PushRefusal Unit → Access α} {P : Option Kind → α → Prop}
    (hlong : ∀ last p' length size, EndsBy P last (f (p', .error (.oversized length size))))
    (hfull : ∀ p', EndsBy P (some (.loadIndex .consumer)) (f (p', .error .full)))
    (hroom : ∀ p', EndsBy P (some (.storeIndex .producer)) (f (p', .ok ()))) :
    EndsBy P last (p.push g item >>= f) := by
  simp only [push, LawfulMonad.bind_assoc]
  show EndsBy P (some .require) (ite _ _ _ >>= f)
  by_cases h : g.slotSize < item.length
  · rw [if_pos h]
    exact hlong _ _ _ _
  · rw [if_neg h, LawfulMonad.bind_assoc]
    apply endsBy_claim
    · exact hfull
    · intro last p' d
      rw [LawfulMonad.bind_assoc]
      apply endsBy_after
      intro last _
      exact hroom p'

theorem endsBy_settle {p : Producer} {d : Draft} {stored : Bool}
    {P : Option Kind → Producer × Answer → Prop}
    (h : ∀ last p' bytes, P last (p', .contents bytes)) (h' : ∀ last p', P last (p', .panicked)) :
    EndsBy P last (p.settle g d stored) := by
  cases stored with
  | true =>
    apply endsBy_after
    exact fun last bytes => h last p bytes
  | false =>
    apply endsBy_after
    exact fun last p' => h' last p'

theorem endsBy_performFree (p : Producer) (op : Op) :
    EndsBy (Decided op) last (p.performFree g op) := by
  cases op with
  | push item =>
    apply endsBy_push
    · rintro last p' length size _ ⟨⟩
    · rintro p' _ ⟨⟩
      rfl
    · rintro p' _ ⟨⟩
      rfl
  | draft =>
    apply endsBy_claim
    · rintro p' _ ⟨⟩
      rfl
    · intro last p' d
      apply endsBy_after
      rintro last bytes _ ⟨⟩
  | contents | store _ _ | fill _ | overwrite _ | finish _ => rintro _ ⟨⟩

theorem endsBy_performHolding {p : Producer} {d : Draft} (op : Op) (hd : p.draft = some d) :
    EndsBy (Decided op) last (p.performHolding g d op) := by
  have hsettle : ∀ last stored, EndsBy (Decided op) last (p.settle g d stored) := by
    intro last stored
    apply endsBy_settle
    · rintro last p' bytes _ ⟨⟩
    · rintro last p' _ ⟨⟩
  cases op with
  | push _ | draft => rintro _ ⟨⟩
  | contents =>
    apply endsBy_after
    rintro last bytes _ ⟨⟩
  | store _ _ =>
    apply endsBy_after
    exact hsettle
  | fill _ =>
    apply endsBy_after
    exact fun last _ => hsettle last true
  | overwrite bytes =>
    by_cases hl : bytes.length = g.slotSize
    · simp only [performHolding, if_pos hl]
      apply endsBy_after
      exact fun last _ => hsettle last true
    · simp only [performHolding, if_neg hl]
      exact hsettle last false
  | finish how =>
    simp only [performHolding, finish, hd]
    cases how with
    | release | drop =>
      rintro _ ⟨⟩
      rfl
    | discard | forget | unwind => rintro _ ⟨⟩

/-- Every operation of the producer ends by the access that decides it. -/
theorem endsBy_perform (p : Producer) (op : Op) :
    EndsBy (Decided op) last (p.perform g op) := by
  rw [perform]
  cases hd : p.draft with
  | none => exact endsBy_performFree p op
  | some d => exact endsBy_performHolding op hd

end Producer

namespace Consumer

variable {g : Geometry} {last : Option Kind}

def decisive (op : Op) : Answer → Option Kind
  | .popped (some _) _ | .panicked => some (.storeIndex .consumer)
  | .finished =>
    match op with
    | .finish .release | .finish .drop | .finish .unwind => some (.storeIndex .consumer)
    | _ => none
  | .popped none _ | .empty => some (.loadIndex .producer)
  | _ => none

def Decided (op : Op) (last : Option Kind) (result : Consumer × Answer) : Prop :=
  ∀ kind, decisive op result.2 = some kind → last = some kind

theorem endsBy_locate {α : Type} {P : Option Kind → α → Prop} {c : Consumer}
    {f : Consumer × Option Loan → Access α}
    (hnone : ∀ c', EndsBy P (some (.loadIndex .producer)) (f (c', none)))
    (hsome : ∀ last c' l, EndsBy P last (f (c', some l))) :
    EndsBy P last (c.locate >>= f) := by
  simp only [locate, LawfulMonad.bind_assoc]
  intro index
  show EndsBy P _ (ite _ _ _ >>= f)
  by_cases h : index = c.cachedWrite
  · rw [if_pos h]
    intro write
    show EndsBy P _ (f (_, ite _ _ _))
    by_cases hw : index = write
    · rw [if_pos hw]
      exact hnone _
    · rw [if_neg hw]
      exact hsome _ _ _
  · rw [if_neg h]
    exact hsome _ _ _

theorem endsBy_performFree (c : Consumer) (op : Op) :
    EndsBy (Decided op) last (c.performFree g op) := by
  cases op with
  | pop dest =>
    simp only [performFree, take, LawfulMonad.bind_assoc]
    apply endsBy_locate
    · rintro c' _ ⟨⟩
      rfl
    · intro last c' l
      rw [LawfulMonad.bind_assoc]
      apply endsBy_after
      intro last bytes
      rintro _ ⟨⟩
      rfl
  | borrow =>
    apply endsBy_locate
    · rintro c' _ ⟨⟩
      rfl
    · intro last c' l
      apply endsBy_after
      rintro last bytes _ ⟨⟩
  | contents | byteAt _ | finish _ => rintro _ ⟨⟩

theorem endsBy_performHolding {c : Consumer} {l : Loan} (op : Op) (hl : c.loan = some l) :
    EndsBy (Decided op) last (c.performHolding g l op) := by
  cases op with
  | pop _ | borrow => rintro _ ⟨⟩
  | contents =>
    apply endsBy_after
    rintro last bytes _ ⟨⟩
  | byteAt position =>
    by_cases hp : position < g.slotSize
    · simp only [performHolding, if_pos hp]
      apply endsBy_after
      rintro last start value _ ⟨⟩
    · simp only [performHolding, if_neg hp, finish, hl]
      rintro _ ⟨⟩
      rfl
  | finish how =>
    simp only [performHolding, finish, hl]
    cases how with
    | release | drop | unwind =>
      rintro _ ⟨⟩
      rfl
    | retain | forget => rintro _ ⟨⟩

theorem endsBy_perform (c : Consumer) (op : Op) :
    EndsBy (Decided op) last (c.perform g op) := by
  rw [perform]
  cases hl : c.loan with
  | none => exact endsBy_performFree c op
  | some l => exact endsBy_performHolding op hl

end Consumer

end SlotRing
