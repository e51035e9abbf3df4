import SlotRing.Describe
import SlotRing.Proofs.Accepting
import SlotRing.Proofs.Reading

/-!
# Errors and their texts

Every text of an error is made of words and numerals in turn, so the words and the
numbers can be read back out of it, and these tell the error. No two errors have the
same text, then, and the reason that is logged when a storage is refused stands for
one error only (`errors_told_apart`).
-/

set_option autoImplicit false

namespace SlotRing

open Text

/-- The texts of one kind of error in parts. The parts tell the error. -/
structure Wording {α : Type} (message : α → String) (tree : α → Tree) where
  phrase : α → List Piece
  variant : α → String
  fields : α → List (String × Nat)
  message_eq : ∀ a, message a = render (phrase a)
  legible_phrase : ∀ a, Legible (phrase a)
  phrase_inj : ∀ a b, phrase a = phrase b → a = b
  tree_eq : ∀ a, tree a = Tree.numbers (variant a) (fields a)
  spelled_variant : ∀ a, Spelled (variant a)
  spelled_fields : ∀ a, ∀ f ∈ fields a, Spelled f.1
  pieces_inj : ∀ (p : Punctuation) (a b : α),
    p.pieces (variant a) (fields a) = p.pieces (variant b) (fields b) → a = b

structure ToldApart {α : Type} (message : α → String) (tree : α → Tree) : Prop where
  message : ∀ a b, message a = message b ↔ a = b
  compact : ∀ a b, (tree a).compact = (tree b).compact ↔ a = b
  pretty : ∀ a b, (tree a).pretty = (tree b).pretty ↔ a = b

namespace Wording

variable {α : Type} {message : α → String} {tree : α → Tree}

theorem read_message (w : Wording message tree) (a : α) : read (message a) = w.phrase a := by
  rw [w.message_eq, read_render (w.legible_phrase a)]

theorem legible_pieces (w : Wording message tree) (p : Punctuation) (a : α) :
    Legible (p.pieces (w.variant a) (w.fields a)) :=
  p.legible_pieces (w.spelled_variant a) (w.spelled_fields a)

theorem read_compact (w : Wording message tree) (a : α) :
    read (tree a).compact = Punctuation.line.pieces (w.variant a) (w.fields a) := by
  rw [w.tree_eq, Tree.compact_numbers, read_render (w.legible_pieces _ a)]

theorem read_pretty (w : Wording message tree) (a : α) :
    read (tree a).pretty = Punctuation.lines.pieces (w.variant a) (w.fields a) := by
  rw [w.tree_eq, Tree.pretty_numbers, read_render (w.legible_pieces _ a)]

theorem toldApart (w : Wording message tree) : ToldApart message tree where
  message a b := by
    refine ⟨fun h => w.phrase_inj a b ?_, congrArg message⟩
    rw [← w.read_message, h, w.read_message]
  compact a b := by
    refine ⟨fun h => w.pieces_inj .line a b ?_, congrArg fun e => (tree e).compact⟩
    rw [← w.read_compact, h, w.read_compact]
  pretty a b := by
    refine ⟨fun h => w.pieces_inj .lines a b ?_, congrArg fun e => (tree e).pretty⟩
    rw [← w.read_pretty, h, w.read_pretty]

end Wording

namespace GeometryError

def phrase : GeometryError → List Piece
  | .emptyStorage => [.word "backing storage is empty"]
  | .zeroItemSize => [.word "item size must be greater than zero"]
  | .itemTooLarge itemSize storageLen =>
    [.word "item size ", .number itemSize, .word " must be smaller than the storage length ",
      .number storageLen]
  | .tooFewSlots storageLen itemSize slotCount =>
    [.number storageLen, .word " bytes hold ", .number slotCount, .word " slot(s) of ",
      .number itemSize, .word " bytes, at least ", .number 2, .word " are required"]

def variant : GeometryError → String
  | .emptyStorage => "EmptyStorage"
  | .zeroItemSize => "ZeroItemSize"
  | .itemTooLarge _ _ => "ItemTooLarge"
  | .tooFewSlots _ _ _ => "TooFewSlots"

def fields : GeometryError → List (String × Nat)
  | .emptyStorage | .zeroItemSize => []
  | .itemTooLarge itemSize storageLen => [("item_size", itemSize), ("storage_len", storageLen)]
  | .tooFewSlots storageLen itemSize slotCount =>
    [("storage_len", storageLen), ("item_size", itemSize), ("slot_count", slotCount)]

theorem message_eq (e : GeometryError) : e.message = render e.phrase := by
  cases e with
  | emptyStorage => rfl
  | zeroItemSize => rfl
  | itemTooLarge itemSize storageLen =>
    simp only [message, phrase, render_cons, render_nil, Piece.text, String.append_assoc,
      String.append_empty]
  | tooFewSlots storageLen itemSize slotCount =>
    have hword : " bytes, at least 2 are required" =
        " bytes, at least " ++ (toString 2 ++ " are required") := by decide
    simp only [message, phrase, render_cons, render_nil, Piece.text, String.append_assoc,
      String.append_empty, hword]

theorem legible_phrase (e : GeometryError) : Legible e.phrase := by
  cases e with
  | emptyStorage => exact legible_singleton (by decide)
  | zeroItemSize => exact legible_singleton (by decide)
  | itemTooLarge itemSize storageLen =>
    apply legible_word (by decide)
    apply legible_number
    apply legible_word (by decide)
    exact legible_singleton trivial
  | tooFewSlots storageLen itemSize slotCount =>
    apply legible_number
    apply legible_word (by decide)
    apply legible_number
    apply legible_word (by decide)
    apply legible_number
    apply legible_word (by decide)
    apply legible_number
    exact legible_singleton (by decide)

theorem spelled_fields (e : GeometryError) : ∀ f ∈ e.fields, Spelled f.1 := by
  cases e with
  | emptyStorage | zeroItemSize => exact List.forall_mem_nil _
  | itemTooLarge itemSize storageLen =>
    simp only [fields, List.forall_mem_cons]
    exact ⟨by decide, by decide, List.forall_mem_nil _⟩
  | tooFewSlots storageLen itemSize slotCount =>
    simp only [fields, List.forall_mem_cons]
    exact ⟨by decide, by decide, by decide, List.forall_mem_nil _⟩

/-- The number of parts differs but for the two variants without fields, which differ
in their words. -/
def wording : Wording message tree where
  phrase := phrase
  variant := variant
  fields := fields
  message_eq := message_eq
  legible_phrase := legible_phrase
  phrase_inj e e' := by cases e <;> cases e' <;> simp [phrase, and_comm]
  tree_eq e := by cases e <;> rfl
  spelled_variant e := by cases e <;> dsimp only [variant] <;> decide
  spelled_fields := spelled_fields
  pieces_inj p e e' := by
    cases e <;> cases e' <;> simp [variant, fields, Punctuation.pieces, Punctuation.values]

end GeometryError

namespace PushRefusal

def phrase : PushRefusal → List Piece
  | .full => [.word "ring buffer is full"]
  | .oversized length itemSize =>
    [.word "item of ", .number length, .word " bytes exceeds the slot size of ",
      .number itemSize, .word " bytes"]

def variant : PushRefusal → String
  | .full => "Full"
  | .oversized _ _ => "Oversized"

def fields : PushRefusal → List (String × Nat)
  | .full => []
  | .oversized length itemSize => [("len", length), ("item_size", itemSize)]

def wording : Wording message tree where
  phrase := phrase
  variant := variant
  fields := fields
  message_eq why := by
    cases why with
    | full => rfl
    | oversized length itemSize =>
      simp only [message, phrase, render_cons, render_nil, Piece.text, String.append_assoc,
        String.append_empty]
  legible_phrase why := by
    cases why with
    | full => exact legible_singleton (by decide)
    | oversized length itemSize =>
      apply legible_word (by decide)
      apply legible_number
      apply legible_word (by decide)
      apply legible_number
      exact legible_singleton (by decide)
  phrase_inj why why' := by cases why <;> cases why' <;> simp [phrase]
  tree_eq why := by cases why <;> rfl
  spelled_variant why := by cases why <;> dsimp only [variant] <;> decide
  spelled_fields why := by
    cases why with
    | full => exact List.forall_mem_nil _
    | oversized length itemSize =>
      simp only [fields, List.forall_mem_cons]
      exact ⟨by decide, by decide, List.forall_mem_nil _⟩
  pieces_inj p why why' := by
    cases why <;> cases why' <;> simp [variant, fields, Punctuation.pieces, Punctuation.values]

end PushRefusal

theorem message_ne_message (reason : GeometryError) (why : PushRefusal) :
    reason.message ≠ why.message := by
  intro h
  have hphrase : reason.phrase = why.phrase :=
    calc
      reason.phrase = read reason.message := (GeometryError.wording.read_message reason).symm
      _ = read why.message := congrArg read h
      _ = why.phrase := PushRefusal.wording.read_message why
  cases reason <;> cases why <;> simp [GeometryError.phrase, PushRefusal.phrase] at hphrase

/-- Errors of one kind are equal if any of their texts are, and no storage is refused
in the words of a push. So the logged reason is the message of one error only. -/
theorem errors_told_apart :
    ToldApart GeometryError.message GeometryError.tree ∧
      ToldApart PushRefusal.message PushRefusal.tree ∧
      (∀ (reason : GeometryError) (why : PushRefusal), reason.message ≠ why.message) ∧
      ∀ (line : Padding.Line) (storage : Storage) (itemSize : UInt64) (reason : GeometryError)
        (e : Event), Ring.construct line storage itemSize = (.error reason, e) →
          ∃ text, e.fields = [("reason", .text text)] ∧
            (∀ reason' : GeometryError, reason'.message = text ↔ reason' = reason) ∧
            ∀ why : PushRefusal, why.message ≠ text := by
  have hreasons := GeometryError.wording.toldApart
  refine ⟨hreasons, PushRefusal.wording.toldApart, message_ne_message, ?_⟩
  intro line storage itemSize reason e h
  obtain ⟨-, rfl⟩ := Ring.ofSizes_of_rejected h
  exact ⟨reason.message, rfl, fun reason' => hreasons.message reason' reason,
    fun why => (message_ne_message reason why).symm⟩

/-- Seven bytes that are to be slots of four, and what the log tells of it. -/
theorem errors_told_apart_seven_bytes :
    ∃ (e : Event) (text : String),
      Ring.construct .line64 ⟨#[1, 2, 3, 4, 5, 6, 7], by decide⟩ 4 =
        (.error (.tooFewSlots 7 4 1), e) ∧
      text = "7 bytes hold 1 slot(s) of 4 bytes, at least 2 are required" ∧
      e.fields = [("reason", .text text)] ∧
      (∀ reason : GeometryError, reason.message = text ↔ reason = .tooFewSlots 7 4 1) ∧
      ∀ why : PushRefusal, why.message ≠ text := by
  obtain ⟨text, hfields, hreason, hwhy⟩ := errors_told_apart.2.2.2 .line64
    ⟨#[1, 2, 3, 4, 5, 6, 7], by decide⟩ 4 (.tooFewSlots 7 4 1) _ rfl
  have htext : (GeometryError.tooFewSlots 7 4 1).message = text := (hreason _).mpr rfl
  exact ⟨_, text, rfl, htext.symm.trans (by decide), hfields, hreason, hwhy⟩

end SlotRing
