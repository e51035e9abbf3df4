import SlotRing.Proofs.Discipline
import SlotRing.Producer
import SlotRing.Consumer

/-!
# Rules for the parts of an operation

One rule for each part that operations are made of. A rule names the ledgers
that can be met when the part is over and the value it has then, so that no
proof about an operation opens a part again.
-/

set_option autoImplicit false

namespace SlotRing.Access

variable {α : Type} {g : Geometry} {build : Build} {side : Side} {q : Bool}
variable {post : Post g α} {b : Ledger g}

theorem safe_load {o : Side} {f : UInt64 → Access α}
    (h : ∀ b', Ledger.Moves side.other b b' →
      Safe build side q (f (g.place (b'.counter o))) post b') :
    Safe build side q (load o >>= f) post b := h

theorem safe_report {e : Event} {f : Unit → Access α}
    (h : ∀ b', Ledger.Moves side.other b b' →
      Safe build side q (f ()) (fun es => post (e :: es)) b') :
    Safe build side q (report e >>= f) post b := h

theorem safe_store {i : UInt64} {post : Post g Unit}
    (h : ∀ b', Ledger.Moves side.other b b' → b'.Ready side ∧
      i = g.place (b'.counter side + 1) ∧ post [] (.ok ()) (b'.advance side)) :
    Safe build side true (store side i) post b :=
  ⟨rfl, rfl, (), rfl, h⟩

theorem safe_demand {holds : Bool} {fault : Fault} {f : Unit → Access α} (hh : holds = true)
    (h : ∀ b', Ledger.Moves side.other b b' → Safe build side q (f ()) post b') :
    Safe build side q (demand holds fault >>= f) post b := by
  intro c hc
  rw [if_pos (by rw [hh]; cases build <;> rfl)]
  exact h c hc

/-! ## Addressing -/

theorem safe_advance {k : Nat} {f : UInt64 → Access α}
    (h : ∀ b', Ledger.Moves side.other b b' → Safe build side q (f (g.place (k + 1))) post b') :
    Safe build side q (g.advance (g.place k) >>= f) post b := by
  rw [← g.next_place] at h
  apply safe_demand _ h
  rw [g.place_toNat]
  exact decide_eq_true (Nat.lt_of_le_of_lt (g.mod_slots_lt k) g.slots_lt)

theorem safe_address {k : Nat} {f : Nat → Access α}
    (h : ∀ b', Ledger.Moves side.other b b' → Safe build side q (f (g.base k)) post b') :
    Safe build side q (g.address (g.place k) >>= f) post b := by
  rw [← g.start_place] at h
  apply safe_demand (decide_eq_true (g.place_lt k))
  intro c hc
  apply safe_demand
  · apply decide_eq_true
    rw [g.place_toNat]
    exact g.base_lt k
  · exact fun d hd => h d (Ledger.moves_trans hc hd)

/-- Loads of a part of one's own slot see the slot as it is at the start. -/
theorem safe_loadBytesOnto {offset count : Nat} {seen : List UInt8}
    {f : List UInt8 → Access α} (hv : b.Valid) (hr : b.Ready side)
    (ho : offset + count ≤ g.slotSize)
    (h : ∀ b', Ledger.Moves side.other b b' → Safe build side q
      (f (seen.reverse ++ b.storage.slice (g.base (b.counter side) + offset) count)) post b') :
    Safe build side q
      (loadBytesOnto (g.base (b.counter side) + offset) count seen >>= f) post b := by
  induction count generalizing b offset seen with
  | zero =>
    have := h b (Ledger.moves_refl _ hv)
    rwa [Storage.slice, List.range_zero, List.map_nil, List.append_nil] at this
  | succ count ih =>
    -- The other side may move before every load, but never inside this slot.
    intro c hc
    have ha : b.Reaches side (g.base (b.counter side) + offset) := ⟨hr, by omega, by omega⟩
    refine ⟨Ledger.reaches_other hc ha, ?_⟩
    rw [Ledger.get_other hv hc ha]
    have hcount := Ledger.counter_other hc
    have hs : c.storage.slice (g.base (b.counter side) + (offset + 1)) count =
        b.storage.slice (g.base (b.counter side) + (offset + 1)) count := by
      apply Storage.slice_congr
      intro j hj
      exact Ledger.get_other hv hc ⟨hr, by omega, by omega⟩
    have hrest := @ih c (offset + 1)
      (b.storage.get (g.base (b.counter side) + offset) :: seen)
      (Ledger.moves_valid hc) (Ledger.ready_other hc hr) (by omega)
    rw [hcount] at hrest
    apply hrest
    intro d hd
    have := h d (Ledger.moves_trans hc hd)
    rwa [hs, List.reverse_cons, List.append_assoc, List.singleton_append, ← Nat.add_assoc,
      ← Storage.slice_succ]

theorem safe_loadFront {count : Nat} {f : List UInt8 → Access α} (hv : b.Valid)
    (hr : b.Ready side) (hc : count ≤ g.slotSize)
    (h : ∀ b', Ledger.Moves side.other b b' → Safe build side q
      (f ((b.slot (b.counter side)).take count)) post b') :
    Safe build side q (g.loadFront (g.place (b.counter side)) count >>= f) post b := by
  rw [Geometry.loadFront, LawfulMonad.bind_assoc]
  apply safe_address
  intro c hb
  have hs := Ledger.front_other hv hb hr
  rw [← Ledger.counter_other hb]
  apply @safe_loadBytesOnto α g build side q post c 0 count [] f (Ledger.moves_valid hb)
    (Ledger.ready_other hb hr) (by omega)
  intro d hd
  have := h d (Ledger.moves_trans hb hd)
  rwa [← hs, Ledger.slot, Storage.take_slice, Nat.min_eq_left hc] at this

theorem safe_loadSlot {f : List UInt8 → Access α} (hv : b.Valid) (hr : b.Ready side)
    (h : ∀ b', Ledger.Moves side.other b b' → Safe build side q
      (f (b.slot (b.counter side))) post b') :
    Safe build side q (g.loadSlot (g.place (b.counter side)) >>= f) post b := by
  apply safe_loadFront hv hr (Nat.le_refl _)
  rwa [List.take_of_length_le (Nat.le_of_eq (b.length_slot _))]

theorem safe_loadByteAt {position : Nat} {f : UInt8 → Access α} (hv : b.Valid)
    (hr : b.Ready side) (hp : position < g.slotSize)
    (h : ∀ b' v, Ledger.Moves side.other b b' →
      (b.slot (b.counter side))[position]? = some v → Safe build side q (f v) post b') :
    Safe build side q
      (loadByteAt (g.base (b.counter side) + position) >>= f) post b := by
  intro c hc
  have ha : b.Reaches side (g.base (b.counter side) + position) := ⟨hr, by omega, by omega⟩
  refine ⟨Ledger.reaches_other hc ha, ?_⟩
  rw [Ledger.get_other hv hc ha]
  exact h c _ hc (Storage.getElem?_slice _ _ hp)

/-! ## Stores of the producer -/

/-- Stores of a part of the next slot amount to one write, whatever the
consumer frees in between. -/
theorem safe_storeBytes {position : Nat} {bytes : List UInt8} {f : Unit → Access α}
    (hv : b.Valid) (hr : b.Ready .producer) (hp : position + bytes.length ≤ g.slotSize)
    (h : ∀ b', Ledger.Moves .consumer b b' →
      Safe build .producer q (f ()) post (b'.write position bytes)) :
    Safe build .producer q
      (storeBytes (g.base b.published + position) bytes >>= f) post b := by
  induction bytes generalizing b position with
  | nil => exact h b (Ledger.moves_refl _ hv)
  | cons v rest ih =>
    rw [List.length_cons] at hp
    refine ⟨rfl, fun c hc => ?_⟩
    have hcount := Ledger.published_consumer hc
    have hr' : c.Ready .producer := Ledger.ready_consumer hc hr
    have ha : c.Reaches .producer (g.base b.published + position) := by
      refine ⟨hr', ?_, ?_⟩ <;> simp only [Ledger.counter, hcount] <;> omega
    refine ⟨ha, ?_⟩
    rw [← hcount, ← Ledger.write_singleton v (Nat.le_add_right _ _), Nat.add_sub_cancel_left]
    have hrest := @ih (c.write position [v]) (position + 1)
      (Ledger.valid_write hc.1 (.inr (by rw [List.length_singleton]; omega))) hr' (by omega)
    rw [Ledger.published_write, ← Nat.add_assoc] at hrest
    apply hrest
    intro d hd
    obtain ⟨e, he, rfl⟩ := Ledger.moves_past_write hc.1 hd
    rw [Ledger.write_cons]
    exact h e (Ledger.moves_trans hc he)

theorem safe_storeFront {item : List UInt8} {f : Unit → Access α}
    (hr : b.Ready .producer) (hl : item.length ≤ g.slotSize)
    (h : ∀ b', Ledger.Moves .consumer b b' →
      Safe build .producer q (f ()) post (b'.write 0 item)) :
    Safe build .producer q (g.storeFront (g.place b.published) item >>= f) post b := by
  rw [Geometry.storeFront, LawfulMonad.bind_assoc]
  apply safe_demand (decide_eq_true hl)
  intro c hc
  rw [LawfulMonad.bind_assoc]
  apply safe_address
  intro d hd
  have hm := Ledger.moves_trans hc hd
  have hcount := Ledger.published_consumer hm
  rw [← hcount]
  apply @safe_storeBytes α g build q post d 0 item f hm.1 (Ledger.ready_consumer hm hr) (by omega)
  exact fun e he => h e (Ledger.moves_trans hm he)

theorem safe_storeWithin {position : Nat} {bytes : List UInt8} {f : Bool → Access α}
    (hr : b.Ready .producer)
    (h : ∀ b', Ledger.Moves .consumer b b' → Safe build .producer q
      (f (bytes.length ≤ g.slotSize - position)) post
      (b'.write position (bytes.take (g.slotSize - position)))) :
    Safe build .producer q
      (g.storeWithin (g.place b.published) position bytes >>= f) post b := by
  rw [Geometry.storeWithin, LawfulMonad.bind_assoc]
  apply safe_address
  intro c hc
  have hcount := Ledger.published_consumer hc
  rw [← hcount, LawfulMonad.bind_assoc]
  rcases g.fits_take position bytes with ht | ht
  · rw [ht] at h ⊢
    exact h c hc
  · apply safe_storeBytes hc.1 (Ledger.ready_consumer hc hr) ht
    exact fun d hd => h d (Ledger.moves_trans hc hd)

end SlotRing.Access
