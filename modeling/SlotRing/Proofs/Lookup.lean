import SlotRing.Proofs.Deeds

/-!
# Looking for a slot

What a half comes to know when nothing comes between its loads: a claim makes
a draft exactly if there is room, and a location makes a loan exactly if there
is an item. The copy that saves the second load decides nothing but whether
that load is made.
-/

set_option autoImplicit false

namespace SlotRing

open Access

variable {g : Geometry}

namespace Ledger

def vacant (b : Ledger g) : Option Draft :=
  if b.Full then none else some ⟨g.place b.published, g.place (b.published + 1)⟩

def waiting (b : Ledger g) : Option Loan := if b.Empty then none else some ⟨g.place b.freed⟩

variable {b : Ledger g}

theorem place_full_iff (hv : b.Valid) :
    g.place (b.published + 1) = g.place b.freed ↔ b.Full :=
  g.place_succ_eq_iff hv.freed_le hv.published_lt

theorem place_empty_iff (hv : b.Valid) : g.place b.freed = g.place b.published ↔ b.Empty :=
  g.place_inj hv.freed_le hv.published_lt

end Ledger

namespace Access

variable {α β : Type} {build : Build}

/-- A first part that logs nothing and breaks nothing leads to the second one. -/
theorem run_bind_silent {p : Access α} {f : α → Access β} {r r' : Ring g} {a : α}
    (h : p.run build r = ⟨r', [], .ok a⟩) : (p >>= f).run build r = (f a).run build r' := by
  simp [run_bind, h]

theorem run_advance (build : Build) (k : Nat) (r : Ring g) :
    (g.advance (g.place k)).run build r = ⟨r, [], .ok (g.place (k + 1))⟩ := by
  have hk : passes build ((g.place k).toNat + 1 < UInt64.size) = true := by
    have hlt : (g.place k).toNat + 1 < UInt64.size := by
      rw [g.place_toNat]
      exact Nat.lt_of_le_of_lt (g.mod_slots_lt k) g.slots_lt
    cases build <;> simp [passes, hlt]
  rw [← g.next_place]
  exact if_pos hk

end Access

def Producer.renewed (p : Producer) (r : Ring g) : UInt64 :=
  if g.next r.writeIndex = p.cachedRead then r.readIndex else p.cachedRead

def Consumer.renewed (c : Consumer) (r : Ring g) : UInt64 :=
  if r.readIndex = c.cachedWrite then r.writeIndex else c.cachedWrite

theorem Producer.run_claim (build : Build) {p : Producer} {b : Ledger g} (hv : b.Valid)
    (hp : p.Tracks b) : (p.claim g).run build b.ring =
      ⟨b.ring, [], .ok ({ p with cachedRead := p.renewed b.ring }, b.vacant)⟩ := by
  obtain ⟨seen, hs⟩ := hp
  have hle := hs.le_freed
  have hlt := hs.published_lt
  have hfp := hv.freed_le
  have hfull := Ledger.place_full_iff hv
  have hnext : g.next b.ring.writeIndex = g.place (b.published + 1) := g.next_place _
  rw [claim, run_bind_silent rfl, Ledger.index_ring, Ledger.counter,
    run_bind_silent (run_advance build _ _), renewed, hnext]
  by_cases hn : g.place (b.published + 1) = p.cachedRead
  · rw [if_pos hn, if_pos hn, run_bind_silent rfl, Ledger.index_ring, Ledger.counter]
    by_cases hf : b.Full
    · rw [if_pos (hfull.mpr hf), Ledger.vacant, if_pos hf]
      rfl
    · rw [if_neg (mt hfull.mp hf), Ledger.vacant, if_neg hf]
      rfl
  · -- A copy that leaves room is of a counter that is not beyond the real one.
    have hroom : ¬ b.Full := by
      intro h
      rw [hs.cachedRead, g.place_succ_eq_iff (by omega) hlt] at hn
      simp only [Ledger.Full] at h
      omega
    rw [if_neg hn, if_neg hn, Ledger.vacant, if_neg hroom]
    rfl

theorem Consumer.run_locate (build : Build) {c : Consumer} {b : Ledger g} (hv : b.Valid)
    (hc : c.Tracks b) : c.locate.run build b.ring =
      ⟨b.ring, [], .ok ({ c with cachedWrite := c.renewed b.ring }, b.waiting)⟩ := by
  obtain ⟨seen, hs⟩ := hc
  have hle := hs.le_published
  have hfs := hs.freed_le
  have hlt := hv.published_lt
  have hempty := Ledger.place_empty_iff hv
  have hindex : b.ring.readIndex = g.place b.freed := rfl
  rw [locate, run_bind_silent rfl, Ledger.index_ring, Ledger.counter, renewed, hindex]
  by_cases hn : g.place b.freed = c.cachedWrite
  · rw [if_pos hn, if_pos hn, run_bind_silent rfl, Ledger.index_ring, Ledger.counter]
    by_cases he : b.Empty
    · rw [if_pos (hempty.mpr he), Ledger.waiting, if_pos he]
      rfl
    · rw [if_neg (mt hempty.mp he), Ledger.waiting, if_neg he]
      rfl
  · have hitem : ¬ b.Empty := by
      intro h
      rw [hs.cachedWrite, g.place_inj hfs (by omega)] at hn
      simp only [Ledger.Empty] at h
      omega
    rw [if_neg hn, if_neg hn, Ledger.waiting, if_neg hitem]
    rfl

end SlotRing
