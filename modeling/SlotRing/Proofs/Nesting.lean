import Mathlib.Order.Bounds.Defs
import SlotRing.Padding.Layout

/-!
# What padding does to a layout

Alignments are powers of two, so of two of them one divides the other, and rounding
up to the one and then to the other is rounding up to the larger (`roundUp_roundUp`).
A padded value therefore fills whole lines, which no other element of an array
shares, and of lines around lines only the largest counts (`padded_lawful`).
-/

set_option autoImplicit false

namespace SlotRing.Padding

theorem dvd_of_isPowerOfTwo {a b : Nat} (ha : a.isPowerOfTwo) (hb : b.isPowerOfTwo)
    (hle : a ≤ b) : a ∣ b := by
  obtain ⟨e, rfl⟩ := ha
  obtain ⟨f, rfl⟩ := hb
  exact Nat.pow_dvd_pow 2 ((Nat.pow_le_pow_iff_right (by decide)).mp hle)

namespace Layout

variable {value : Layout}

structure Proper (l : Layout) : Prop where
  align_pow : l.align.isPowerOfTwo
  align_dvd : l.align ∣ l.size

theorem padded_eq (line : Line) (value : Layout) :
    padded line value =
      ⟨roundUp value.size (max line.size value.align), max line.size value.align⟩ := by
  have hline : max 1 line.size = line.size := Nat.max_eq_right line.size_pos
  simp only [padded, record, List.foldl, append, roundUp_zero, hline, Nat.zero_add]

theorem line_le_align_padded (line : Line) (value : Layout) :
    line.size ≤ (padded line value).align := by
  rw [padded_eq]
  exact Nat.le_max_left _ _

theorem align_padded_pos (line : Line) (value : Layout) : 0 < (padded line value).align :=
  Nat.lt_of_lt_of_le line.size_pos (line_le_align_padded line value)

theorem proper_padded (h : value.Proper) (line : Line) : (padded line value).Proper := by
  rw [padded_eq]
  refine ⟨?_, align_dvd_roundUp _ _⟩
  show (max line.size value.align).isPowerOfTwo
  rcases Nat.le_total line.size value.align with hle | hle
  · rw [Nat.max_eq_right hle]
    exact h.align_pow
  · rw [Nat.max_eq_left hle]
    exact line.isPowerOfTwo_size

/-! ## Arrays -/

def Occupies (l : Layout) (base i x : Nat) : Prop :=
  base + i * l.size ≤ x ∧ x < base + (i + 1) * l.size

def Touches (l : Layout) (line : Line) (base i k : Nat) : Prop :=
  ∃ x, l.Occupies base i x ∧ x / line.size = k

/-- Where elements are whole numbers of lines, one ends on a line before the next
begins. -/
theorem lt_of_touches {l : Layout} {line : Line} {base i j k m : Nat} (hsize : line.size ∣ l.size)
    (hbase : line.size ∣ base) (hij : i < j) (hi : l.Touches line base i k)
    (hj : l.Touches line base j m) : k < m := by
  obtain ⟨x, ⟨-, hx⟩, rfl⟩ := hi
  obtain ⟨y, ⟨hy, -⟩, rfl⟩ := hj
  have hend : line.size ∣ base + (i + 1) * l.size :=
    Nat.dvd_add hbase (Nat.dvd_mul_left_of_dvd hsize _)
  calc
    x / line.size < (base + (i + 1) * l.size) / line.size := Nat.div_lt_div_of_lt_of_dvd hend hx
    _ ≤ (base + j * l.size) / line.size :=
      Nat.div_le_div_right (Nat.add_le_add_left (Nat.mul_le_mul_right _ hij) _)
    _ ≤ y / line.size := Nat.div_le_div_right hy

structure FillsLines (line : Line) (value : Layout) : Prop where
  align : (padded line value).align = max line.size value.align
  size : IsLeast {n | max line.size value.align ∣ n ∧ value.size ≤ n} (padded line value).size
  apart : ∀ base, (padded line value).align ∣ base → ∀ i j, i ≠ j → ∀ k,
    ¬ ((padded line value).Touches line base i k ∧ (padded line value).Touches line base j k)

theorem fillsLines_of_proper (h : value.Proper) (line : Line) : FillsLines line value where
  align := by rw [padded_eq]
  size := by
    have hpos := align_padded_pos line value
    rw [padded_eq] at hpos ⊢
    refine ⟨⟨align_dvd_roundUp _ _, le_roundUp _ hpos⟩, ?_⟩
    rintro n ⟨hdvd, hle⟩
    exact roundUp_le hpos hle hdvd
  apart := by
    rintro base hbase i j hij k ⟨hi, hj⟩
    have hproper := proper_padded h line
    have hline := dvd_of_isPowerOfTwo line.isPowerOfTwo_size hproper.align_pow
      (line_le_align_padded line value)
    have hsize := Nat.dvd_trans hline hproper.align_dvd
    have hstart := Nat.dvd_trans hline hbase
    rcases Nat.lt_or_gt_of_ne hij with hlt | hlt
    · exact Nat.lt_irrefl k (lt_of_touches hsize hstart hlt hi hj)
    · exact Nat.lt_irrefl k (lt_of_touches hsize hstart hlt hj hi)

/-! ## Lines around lines -/

/-- The value padded to one line after the other, the first of them innermost. -/
def nested (value : Layout) (lines : List Line) : Layout :=
  lines.foldl (fun inner line => padded line inner) value

/-- Of two lines the larger one decides. -/
theorem padded_padded (h : value.Proper) {inner outer largest : Line}
    (hlargest : largest.size = max inner.size outer.size) :
    padded outer (padded inner value) = padded largest value := by
  have halign : max outer.size (max inner.size value.align) = max largest.size value.align := by
    omega
  have hinner := proper_padded h inner
  have houter := proper_padded hinner outer
  have hdvd : (padded inner value).align ∣ (padded outer (padded inner value)).align := by
    apply dvd_of_isPowerOfTwo hinner.align_pow houter.align_pow
    rw [padded_eq outer]
    exact Nat.le_max_right _ _
  have hround := @roundUp_roundUp value.size _ _ (align_padded_pos inner value)
    (align_padded_pos outer (padded inner value)) hdvd
  simp only [padded_eq, halign] at hround ⊢
  rw [hround]

theorem nested_eq_padded (h : value.Proper) (line : Line) (lines : List Line) :
    ∃ largest ∈ line :: lines, (∀ l ∈ line :: lines, l.size ≤ largest.size) ∧
      nested value (line :: lines) = padded largest value := by
  -- From the inside out: with the first line on, the value is one that the others pad.
  induction lines generalizing value line with
  | nil =>
    refine ⟨line, List.mem_singleton_self line, ?_, rfl⟩
    exact List.forall_mem_singleton.mpr (Nat.le_refl _)
  | cons next lines ih =>
    obtain ⟨largest, hmem, hmax, heq⟩ := ih (proper_padded h line) next
    have hnested : nested value (line :: next :: lines) = padded largest (padded line value) := heq
    rcases Nat.le_total line.size largest.size with hle | hle
    · refine ⟨largest, List.mem_cons_of_mem line hmem, ?_, ?_⟩
      · exact List.forall_mem_cons.mpr ⟨hle, hmax⟩
      · rw [hnested, padded_padded h (Nat.max_eq_right hle).symm]
    · refine ⟨line, List.mem_cons_self, ?_, ?_⟩
      · have hall : ∀ l ∈ next :: lines, l.size ≤ line.size :=
          fun l hl => Nat.le_trans (hmax l hl) hle
        exact List.forall_mem_cons.mpr ⟨Nat.le_refl _, hall⟩
      · rw [hnested, padded_padded h (Nat.max_eq_left hle).symm]

/-- A padded value has the alignment and the size that its line asks for, shares no
line with its neighbours, and is as if padded once to the largest line where it is
padded several times. -/
theorem padded_lawful (h : value.Proper) :
    (∀ line, FillsLines line value) ∧
      ∀ lines ≠ [], ∃ largest ∈ lines, (∀ l ∈ lines, l.size ≤ largest.size) ∧
        nested value lines = padded largest value := by
  refine ⟨fillsLines_of_proper h, fun lines hlines => ?_⟩
  cases lines with
  | nil => exact absurd rfl hlines
  | cons line lines => exact nested_eq_padded h line lines

/-- Sixty-five bytes take two lines of 64 or three of 32, and one of 128 if such a line
is among those around them. -/
theorem padded_lawful_sixty_five :
    let value := bytes 65
    value.Proper ∧ FillsLines .line64 value ∧ padded .line64 value = ⟨128, 64⟩ ∧
      padded .line32 value = ⟨96, 32⟩ ∧
      ∃ largest ∈ [Line.line32, .line128, .line64],
        (∀ l ∈ [Line.line32, .line128, .line64], l.size ≤ largest.size) ∧
          nested value [.line32, .line128, .line64] = padded largest value ∧
          padded largest value = ⟨128, 128⟩ := by
  intro value
  have hproper : value.Proper := ⟨⟨0, rfl⟩, Nat.one_dvd 65⟩
  obtain ⟨hfills, hnested⟩ := padded_lawful hproper
  obtain ⟨largest, hmem, hmax, heq⟩ := hnested [.line32, .line128, .line64] (by decide)
  exact ⟨hproper, hfills .line64, by decide, by decide, largest, hmem, hmax, heq,
    heq.symm.trans (by decide)⟩

end Layout

end SlotRing.Padding
