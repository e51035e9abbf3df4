import SlotRing.Proofs.Observing

/-!
# Which storages carry a ring

A storage is cut into as many whole slots as fit, and one of them always stays
free: so it carries a ring exactly if two slots fit. The four causes of a refusal
exclude each other and cover all other sizes, and the number of slots that is too
small is always one (`construct_iff`). The quotient of machine words is the exact
one, whatever the sizes.
-/

set_option autoImplicit false

namespace SlotRing

namespace GeometryError

def Applies (storageLen itemSize : Nat) : GeometryError → Prop
  | .emptyStorage => storageLen = 0
  | .zeroItemSize => 0 < storageLen ∧ itemSize = 0
  | .itemTooLarge item storage =>
    (item = itemSize ∧ storage = storageLen) ∧ 0 < storageLen ∧ storageLen ≤ itemSize
  | .tooFewSlots storage item count =>
    (storage = storageLen ∧ item = itemSize ∧ count = 1) ∧
      itemSize < storageLen ∧ storageLen < 2 * itemSize

variable {n s : Nat} {reason reason' : GeometryError}

theorem applies_unique (h : reason.Applies n s) (h' : reason'.Applies n s) : reason = reason' := by
  cases reason <;> cases reason' <;> simp only [Applies] at h h' <;> grind

theorem not_applies (hs : 1 ≤ s) (hn : 2 * s ≤ n) : ¬ reason.Applies n s := by
  cases reason <;> simp only [Applies] <;> omega

end GeometryError

namespace Geometry

variable {n s : UInt64} {g : Geometry}

theorem slotCount_unique (g : Geometry) (q : Nat) :
    q * g.slotSize ≤ g.storageLen.toNat ∧ g.storageLen.toNat < (q + 1) * g.slotSize ↔
      q = g.slotCount.toNat := by
  rw [toNat_slotCount, ← slotSize, ← Nat.le_div_iff_mul_le g.slotSize_pos,
    ← Nat.div_lt_iff_lt_mul g.slotSize_pos]
  omega

theorem two_mul_le_of_ofSizes (h : ofSizes n s = .ok g) :
    1 ≤ s.toNat ∧ 2 * s.toNat ≤ n.toNat := by
  have hpos := g.slotSize_pos
  have hle := Nat.le_trans (Nat.mul_le_mul_right g.slotSize g.two_le_slotCount) g.slots_fit
  rw [slotSize, itemSize_of_ofSizes h] at hpos hle
  rw [storageLen_of_ofSizes h] at hle
  exact ⟨hpos, hle⟩

theorem applies_of_ofSizes {reason : GeometryError} (h : ofSizes n s = .error reason) :
    reason.Applies n.toNat s.toNat := by
  by_cases hn : n = 0
  · rw [ofSizes, if_pos hn] at h
    cases h
    exact congrArg UInt64.toNat hn
  have hpos : 0 < n.toNat := Nat.pos_of_ne_zero fun h0 => hn (UInt64.toNat_inj.mp h0)
  by_cases hs : s = 0
  · rw [ofSizes, if_neg hn, if_pos hs] at h
    cases h
    exact ⟨hpos, congrArg UInt64.toNat hs⟩
  have hspos : 0 < s.toNat := Nat.pos_of_ne_zero fun h0 => hs (UInt64.toNat_inj.mp h0)
  by_cases hle : n ≤ s
  · rw [ofSizes, if_neg hn, if_neg hs, if_pos hle] at h
    cases h
    exact ⟨⟨rfl, rfl⟩, hpos, UInt64.le_iff_toNat_le.mp hle⟩
  have hlt : s.toNat < n.toNat := Nat.lt_of_not_le fun h0 => hle (UInt64.le_iff_toNat_le.mpr h0)
  by_cases hq : (n / s).toNat < 2
  · rw [ofSizes, if_neg hn, if_neg hs, if_neg hle, dif_pos hq] at h
    cases h
    rw [UInt64.toNat_div] at hq
    have hone : n.toNat / s.toNat = 1 :=
      Nat.le_antisymm (Nat.le_of_lt_succ hq) (Nat.div_pos (Nat.le_of_lt hlt) hspos)
    refine ⟨⟨rfl, rfl, by rw [UInt64.toNat_div, hone]⟩, hlt, ?_⟩
    exact (Nat.div_lt_iff_lt_mul hspos).mp hq
  · rw [ofSizes, if_neg hn, if_neg hs, if_neg hle, dif_neg hq] at h
    cases h

end Geometry

namespace Ring

variable {line : Padding.Line} {storage : Storage} {itemSize : UInt64}

theorem ofSizes_of_rejected {reason : GeometryError} {e : Event}
    (h : construct line storage itemSize = (.error reason, e)) :
    Geometry.ofSizes storage.length itemSize = .error reason ∧ e = .storageRejected reason := by
  simp only [construct] at h
  split at h
  · cases h
    exact ⟨‹_›, rfl⟩
  · cases h

structure Fresh (build : Build) {g : Geometry} (r : Ring g) (storage : Storage)
    (itemSize : UInt64) : Prop where
  slotCount_iff : ∀ q, q * itemSize.toNat ≤ storage.size ∧
    storage.size < (q + 1) * itemSize.toNat ↔ q = g.slotCount.toNat
  capacity : g.capacity.toNat + 1 = g.slotCount.toNat
  capacity_pos : 1 ≤ g.capacity.toNat
  seen : Observer.see build r = .ok ⟨0, true, false⟩

theorem fresh_of_construct (build : Build) {g : Geometry} {r : Ring g} {e : Event}
    (h : construct line storage itemSize = (.ok ⟨g, r⟩, e)) : r.Fresh build storage itemSize := by
  obtain ⟨hstorage, hring⟩ := construct_ok h
  have hn := g.two_le_slots
  have hcapacity := g.toNat_capacity
  have hzero : 0 < 0 + g.slots := by omega
  constructor
  · intro q
    rw [← hstorage, r.fits, ← itemSize_of_construct h]
    exact g.slotCount_unique q
  · exact g.exact.capacity
  · omega
  · have hlength : Cyclic.distance g.slotCount (g.place 0) (g.place 0) = 0 :=
      UInt64.toNat_inj.mp (Question.exact_answer .length (Nat.le_refl 0) hzero)
    have hempty : (g.place 0 == g.place 0) = true := beq_self_eq_true _
    have hfull : (g.next (g.place 0) == g.place 0) = false := by
      apply Bool.eq_false_iff.mpr
      intro hfull
      have := (Question.exact_answer .isFull (Nat.le_refl 0) hzero).mp hfull
      omega
    rw [Observer.see_below build (below_of_construct h), hring]
    show Except.ok (Observation.mk (Cyclic.distance g.slotCount (g.place 0) (g.place 0))
      (g.place 0 == g.place 0) (g.next (g.place 0) == g.place 0)) = _
    rw [hlength, hempty, hfull]

/-- A storage carries a ring exactly if an item has a byte and two slots fit, and
then the ring has as many slots as fit and is empty. Any other storage is refused
for the one cause that applies. -/
theorem construct_iff (line : Padding.Line) (storage : Storage) (itemSize : UInt64) :
    ((∃ (g : Geometry) (r : Ring g) (e : Event),
      construct line storage itemSize = (.ok ⟨g, r⟩, e)) ↔
        1 ≤ itemSize.toNat ∧ 2 * itemSize.toNat ≤ storage.size) ∧
      (∀ (build : Build) (g : Geometry) (r : Ring g) (e : Event),
        construct line storage itemSize = (.ok ⟨g, r⟩, e) → r.Fresh build storage itemSize) ∧
      ∀ reason, construct line storage itemSize = (.error reason, .storageRejected reason) ↔
        reason.Applies storage.size itemSize.toNat := by
  rcases hc : construct line storage itemSize with ⟨reason | ⟨g, r⟩, e⟩
  · obtain ⟨hsizes, rfl⟩ := ofSizes_of_rejected hc
    have happlies := Geometry.applies_of_ofSizes hsizes
    rw [Storage.toNat_length] at happlies
    refine ⟨⟨?_, fun haccepts => ?_⟩, ?_, fun reason' => ⟨?_, fun happlies' => ?_⟩⟩
    · rintro ⟨_, _, _, ⟨⟩⟩
    · exact absurd happlies (GeometryError.not_applies haccepts.1 haccepts.2)
    · rintro _ _ _ _ ⟨⟩
    · rintro ⟨⟩
      exact happlies
    · rw [GeometryError.applies_unique happlies happlies']
  · have haccepts := Geometry.two_mul_le_of_ofSizes (ofSizes_of_construct hc)
    rw [Storage.toNat_length] at haccepts
    refine ⟨⟨fun _ => haccepts, fun _ => ⟨g, r, e, rfl⟩⟩, ?_, fun reason => ⟨?_, ?_⟩⟩
    · rintro build _ _ _ ⟨⟩
      exact fresh_of_construct build hc
    · rintro ⟨⟩
    · exact fun happlies => absurd happlies (GeometryError.not_applies haccepts.1 haccepts.2)

/-- Seven bytes make three slots of two, but only one of four and none of seven. -/
theorem construct_iff_seven_bytes :
    let storage : Storage := ⟨#[1, 2, 3, 4, 5, 6, 7], by decide⟩
    (∃ (g : Geometry) (r : Ring g) (e : Event),
      construct .line64 storage 2 = (.ok ⟨g, r⟩, e) ∧ g.slotCount = 3 ∧
        ∀ build, r.Fresh build storage 2) ∧
      construct .line64 storage 4 =
        (.error (.tooFewSlots 7 4 1), .storageRejected (.tooFewSlots 7 4 1)) ∧
      construct .line64 storage 7 =
        (.error (.itemTooLarge 7 7), .storageRejected (.itemTooLarge 7 7)) ∧
      construct .line64 storage 0 = (.error .zeroItemSize, .storageRejected .zeroItemSize) ∧
      construct .line64 ⟨#[], by decide⟩ 0 =
        (.error .emptyStorage, .storageRejected .emptyStorage) := by
  refine ⟨?_, ?_, ?_, ?_, ?_⟩
  · refine ⟨_, _, _, rfl, by decide, fun build => ?_⟩
    exact (construct_iff .line64 ⟨#[1, 2, 3, 4, 5, 6, 7], by decide⟩ 2).2.1 build _ _ _ rfl
  · exact ((construct_iff .line64 _ 4).2.2 _).mpr ⟨⟨rfl, rfl, rfl⟩, by decide, by decide⟩
  · exact ((construct_iff .line64 _ 7).2.2 _).mpr ⟨⟨rfl, rfl⟩, by decide, by decide⟩
  · exact ((construct_iff .line64 _ 0).2.2 _).mpr ⟨by decide, rfl⟩
  · exact ((construct_iff .line64 _ 0).2.2 _).mpr rfl

end Ring

end SlotRing
