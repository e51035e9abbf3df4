import Mathlib.Data.List.SplitBy
import SlotRing.Text.Tree

/-!
# Reading numbers back out of a text

A text is cut where digits begin or end. Of a text put together from words and
numerals in turn this gives back the parts (`read_render`), so such a text tells all
the numbers in it, however many digits they have. The printed forms of a record of
numbers are texts of this kind, and they differ in punctuation only.
-/

set_option autoImplicit false

namespace SlotRing.Text

/-- Whether a text can stand between two numerals: it is not empty and has no digit. -/
def Spelled (text : String) : Prop := text ≠ "" ∧ text.toList.any Char.isDigit = false

instance (text : String) : Decidable (Spelled text) := inferInstanceAs (Decidable (_ ∧ _))

theorem spelled_append {a b : String} (ha : Spelled a) (hb : Spelled b) : Spelled (a ++ b) := by
  constructor
  · exact fun h => ha.1 (String.append_eq_empty_iff.mp h).1
  · rw [String.toList_append, List.any_append, ha.2, hb.2]
    rfl

inductive Piece where
  | word (text : String)
  | number (n : Nat)
  deriving DecidableEq, Repr

namespace Piece

def text : Piece → String
  | .word text => text
  | .number n => toString n

def isNumber : Piece → Bool
  | .word _ => false
  | .number _ => true

def ofRun (run : List Char) : Piece :=
  if run.all Char.isDigit then .number (Nat.ofDigitChars 10 run 0) else .word (String.ofList run)

def Clear : Piece → Prop
  | .word text => Spelled text
  | .number _ => True

instance : (p : Piece) → Decidable p.Clear
  | .word text => inferInstanceAs (Decidable (Spelled text))
  | .number _ => .isTrue trivial

variable {p : Piece}

theorem toList_number (n : Nat) : (number n).text.toList = Nat.toDigits 10 n := Nat.toList_repr

theorem toList_ne_nil (h : p.Clear) : p.text.toList ≠ [] := by
  cases p with
  | word text => exact fun hnil => h.1 (String.toList_eq_nil_iff.mp hnil)
  | number n =>
    rw [toList_number]
    exact Nat.toDigits_ne_nil

theorem isDigit_of_mem (h : p.Clear) {c : Char} (hc : c ∈ p.text.toList) :
    c.isDigit = p.isNumber := by
  cases p with
  | word text => exact Bool.eq_false_iff.mpr (List.any_eq_false.mp h.2 c hc)
  | number n =>
    rw [toList_number] at hc
    exact Nat.isDigit_of_mem_toDigits (by decide) (by decide) hc

theorem ofRun_toList (h : p.Clear) : ofRun p.text.toList = p := by
  cases p with
  | word text =>
    have hdigit : ¬ text.toList.all Char.isDigit = true := by
      intro hall
      obtain ⟨c, hc⟩ := List.exists_mem_of_ne_nil _ (toList_ne_nil h)
      exact List.any_eq_false.mp h.2 c hc (List.all_eq_true.mp hall c hc)
    exact (if_neg hdigit).trans (congrArg word String.ofList_toList)
  | number n =>
    have hdigit : (number n).text.toList.all Char.isDigit = true :=
      List.all_eq_true.mpr fun c hc => isDigit_of_mem h hc
    rw [ofRun, if_pos hdigit, toList_number, Nat.ofDigitChars_ten_toDigits]

end Piece

def render (pieces : List Piece) : String := String.join (pieces.map Piece.text)

def read (text : String) : List Piece :=
  (text.toList.splitBy fun a b => a.isDigit == b.isDigit).map Piece.ofRun

structure Legible (pieces : List Piece) : Prop where
  clear : ∀ p ∈ pieces, p.Clear
  inTurn : pieces.IsChain fun p q => p.isNumber ≠ q.isNumber

theorem legible_word {text : String} {n : Nat} {pieces : List Piece} (htext : Spelled text)
    (h : Legible (.number n :: pieces)) : Legible (.word text :: .number n :: pieces) where
  clear := List.forall_mem_cons.mpr ⟨htext, h.clear⟩
  inTurn := List.isChain_cons_cons.mpr ⟨Bool.false_ne_true, h.inTurn⟩

theorem legible_number {text : String} (n : Nat) {pieces : List Piece}
    (h : Legible (.word text :: pieces)) : Legible (.number n :: .word text :: pieces) where
  clear := List.forall_mem_cons.mpr ⟨trivial, h.clear⟩
  inTurn := List.isChain_cons_cons.mpr ⟨Bool.false_ne_true.symm, h.inTurn⟩

theorem legible_singleton {p : Piece} (hp : p.Clear) : Legible [p] where
  clear := List.forall_mem_singleton.mpr hp
  inTurn := List.isChain_singleton p

theorem render_nil : render [] = "" := rfl

theorem render_cons (p : Piece) (pieces : List Piece) :
    render (p :: pieces) = p.text ++ render pieces := by
  rw [render, List.map_cons, String.join_cons]
  rfl

theorem read_render {pieces : List Piece} (h : Legible pieces) : read (render pieces) = pieces := by
  have hruns : (render pieces).toList = (pieces.map fun p => p.text.toList).flatten := by
    rw [render, String.toList_join, List.flatMap_map, List.flatMap_def]
  rw [read, hruns, List.splitBy_flatten]
  · rw [List.map_map]
    exact (List.map_congr_left fun p hp => Piece.ofRun_toList (h.clear p hp)).trans
      (List.map_id' pieces)
  · intro hnil
    obtain ⟨p, hp, hempty⟩ := List.mem_map.mp hnil
    exact Piece.toList_ne_nil (h.clear p hp) hempty
  · intro run hrun
    obtain ⟨p, hp, rfl⟩ := List.mem_map.mp hrun
    apply List.Pairwise.isChain
    apply List.pairwise_of_forall_mem_list
    intro a ha b hb
    rw [Piece.isDigit_of_mem (h.clear p hp) ha, Piece.isDigit_of_mem (h.clear p hp) hb]
    exact beq_self_eq_true _
  · apply (List.isChain_map _).mpr
    apply h.inTurn.imp_of_mem_imp
    intro p q hp hq hne
    refine ⟨Piece.toList_ne_nil (h.clear p hp), Piece.toList_ne_nil (h.clear q hq), ?_⟩
    rw [Piece.isDigit_of_mem (h.clear p hp) (List.getLast_mem _),
      Piece.isDigit_of_mem (h.clear q hq) (List.head_mem _)]
    exact beq_eq_false_iff_ne.mpr hne

example : read "item of 12 bytes" = [.word "item of ", .number 12, .word " bytes"] := by decide

/-! ## Records of numbers -/

def Tree.numbers (name : String) (fields : List (String × Nat)) : Tree :=
  .record name (fields.map fun f => (f.1, .number f.2))

/-- What a printed form puts before, between and after the fields of a record. -/
structure Punctuation where
  opening : String
  separator : String
  closing : String
  spelled_opening : Spelled opening
  spelled_separator : Spelled separator
  spelled_closing : Spelled closing

namespace Punctuation

def line : Punctuation where
  opening := " \x7b "
  separator := ", "
  closing := " \x7d"
  spelled_opening := by decide
  spelled_separator := by decide
  spelled_closing := by decide

def lines : Punctuation where
  opening := " \x7b\n    "
  separator := ",\n    "
  closing := ",\n\x7d"
  spelled_opening := by decide
  spelled_separator := by decide
  spelled_closing := by decide

variable {name : String} {fields : List (String × Nat)}

def values (p : Punctuation) (n : Nat) : List (String × Nat) → List Piece
  | [] => [.number n, .word p.closing]
  | f :: fields => .number n :: .word (p.separator ++ (f.1 ++ ": ")) :: values p f.2 fields

def pieces (p : Punctuation) (name : String) : List (String × Nat) → List Piece
  | [] => [.word name]
  | f :: fields => .word (name ++ p.opening ++ (f.1 ++ ": ")) :: p.values f.2 fields

theorem spelled_label {label : String} (h : Spelled label) : Spelled (label ++ ": ") :=
  spelled_append h (by decide)

theorem legible_word_values (p : Punctuation) {text : String} (htext : Spelled text) (n : Nat)
    (h : ∀ f ∈ fields, Spelled f.1) : Legible (.word text :: p.values n fields) := by
  induction fields generalizing text n with
  | nil => exact legible_word htext (legible_number n (legible_singleton p.spelled_closing))
  | cons f fields ih =>
    obtain ⟨hf, hfields⟩ := List.forall_mem_cons.mp h
    have hlabel := spelled_append p.spelled_separator (spelled_label hf)
    exact legible_word htext (legible_number n (ih hlabel f.2 hfields))

theorem legible_pieces (p : Punctuation) (hname : Spelled name)
    (h : ∀ f ∈ fields, Spelled f.1) : Legible (p.pieces name fields) := by
  cases fields with
  | nil => exact legible_singleton hname
  | cons f fields =>
    obtain ⟨hf, hfields⟩ := List.forall_mem_cons.mp h
    have hlabel := spelled_append (spelled_append hname p.spelled_opening) (spelled_label hf)
    exact p.legible_word_values hlabel f.2 hfields

def entry (f : String × Nat) : String := f.1 ++ ": " ++ toString f.2

/-- The label of a field belongs to the word before its number. -/
theorem render_values (p : Punctuation) (f : String × Nat) (fields : List (String × Nat)) :
    f.1 ++ ": " ++ render (p.values f.2 fields) =
      p.separator.intercalate ((f :: fields).map entry) ++ p.closing := by
  induction fields generalizing f with
  | nil =>
    simp only [values, render_cons, render_nil, Piece.text, List.map_cons, List.map_nil,
      String.intercalate_singleton, entry, String.append_assoc, String.append_empty]
  | cons g fields ih =>
    rw [List.map_cons, List.map_cons, String.intercalate_cons_cons, ← List.map_cons,
      @String.append_assoc (entry f ++ p.separator), ← ih g]
    simp only [values, render_cons, Piece.text, entry, String.append_assoc]

theorem render_pieces (p : Punctuation) (name : String) (f : String × Nat)
    (fields : List (String × Nat)) :
    render (p.pieces name (f :: fields)) =
      name ++ p.opening ++ p.separator.intercalate ((f :: fields).map entry) ++ p.closing := by
  rw [String.append_assoc, ← render_values, pieces, render_cons]
  simp only [Piece.text, String.append_assoc]

end Punctuation

namespace Tree

theorem compactFields_numbers (fields : List (String × Nat)) :
    compactFields (fields.map fun f => (f.1, .number f.2)) = fields.map Punctuation.entry := by
  induction fields with
  | nil => rfl
  | cons f fields ih =>
    rw [List.map_cons, List.map_cons, compactFields, ih]
    rfl

theorem prettyFields_numbers (level : Nat) (fields : List (String × Nat)) :
    prettyFields level (fields.map fun f => (f.1, .number f.2)) =
      fields.map Punctuation.entry := by
  induction fields with
  | nil => rfl
  | cons f fields ih =>
    rw [List.map_cons, List.map_cons, prettyFields, ih]
    rfl

theorem compact_numbers (name : String) (fields : List (String × Nat)) :
    (numbers name fields).compact = render (Punctuation.line.pieces name fields) := by
  cases fields with
  | nil => rfl
  | cons f fields =>
    rw [Punctuation.render_pieces, ← compactFields_numbers]
    rfl

/-- Lines between separators are lines that each end in a comma. -/
theorem join_lines (line : String) (rest : List String) :
    String.join ((line :: rest).map fun e => indent 1 ++ e ++ ",\n") =
      indent 1 ++ ",\n    ".intercalate (line :: rest) ++ ",\n" := by
  induction rest generalizing line with
  | nil => rw [List.map_singleton, String.join_cons, String.join_nil, String.append_empty,
      String.intercalate_singleton]
  | cons next rest ih =>
    have hbreak : ",\n    " = ",\n" ++ indent 1 := by decide
    rw [List.map_cons, String.join_cons, ih next, String.intercalate_cons_cons, hbreak]
    simp only [String.append_assoc]

theorem pretty_numbers (name : String) (fields : List (String × Nat)) :
    (numbers name fields).pretty = render (Punctuation.lines.pieces name fields) := by
  cases fields with
  | nil => rfl
  | cons f fields =>
    have hblock : (numbers name (f :: fields)).pretty =
        block 0 (name ++ " \x7b") "\x7d" ((f :: fields).map Punctuation.entry) := by
      rw [← prettyFields_numbers 1]
      rfl
    have hopening : Punctuation.lines.opening = " \x7b" ++ "\n" ++ indent 1 := by decide
    have hclosing : Punctuation.lines.closing = ",\n" ++ indent 0 ++ "\x7d" := by decide
    rw [hblock, block, List.map_cons, join_lines, Punctuation.render_pieces, hopening, hclosing]
    simp only [String.append_assoc]
    rfl

end Tree

end SlotRing.Text
