import SlotRing.Proofs.Exclusion
import SlotRing.Proofs.Observing
import SlotRing.Proofs.Renewal

/-!
# Drafts that are abandoned

A draft that is discarded, forgotten or unwound leaves its bytes in a slot that
is not published, and nothing else; the next draft gets the same slot. Its bytes
come to light only if the slot is published without every one of them having
been stored anew. Otherwise two runs that differ in nothing but what was stored
through such drafts are answered alike (`run_abandoned`).
-/

set_option autoImplicit false

namespace SlotRing

variable {g : Geometry}

/-! ## One draft -/

namespace Ledger

variable {b b' b'' : Ledger g}

/-- Nothing has changed but bytes of the next slot. -/
structure Spoiled (b b' : Ledger g) : Prop where
  items : b'.items = b.items
  freed : b'.freed = b.freed
  outside : ∀ address, address < g.base b.published ∨
    g.base b.published + g.slotSize ≤ address → b'.storage.get address = b.storage.get address

theorem spoiled_trans (h : Spoiled b b') (h' : Spoiled b' b'') : Spoiled b b'' where
  items := h'.items.trans h.items
  freed := h'.freed.trans h.freed
  outside address ha := by
    have hsame : b'.published = b.published := congrArg List.length h.items
    rw [h'.outside address (by rwa [hsame]), h.outside address ha]

theorem spoiled_write (b : Ledger g) {position : Nat} {bytes : List UInt8}
    (h : g.Fits position bytes) : Spoiled b (b.write position bytes) where
  items := rfl
  freed := rfl
  outside address ha := by
    rcases h with rfl | h
    · rfl
    · apply Storage.get_write_outside
      omega

theorem spoiled_self (b : Ledger g) : Spoiled b b := ⟨rfl, rfl, fun _ _ => rfl⟩

theorem spoiled_settle (h : Spoiled b b') (stored : Bool) :
    Spoiled b (b'.settle stored).ledger := by
  cases stored <;> exact h

end Ledger

def Producer.Op.abandoning : Producer.Op → Bool
  | .contents | .store .. | .fill _ | .overwrite _ => true
  | .finish how => !how.publishes
  | .push _ | .draft => false

def Session.draftOps (stores : List Producer.Op) (how : Draft.Ending) : List Session.Op :=
  (Producer.Op.draft :: stores ++ [Producer.Op.finish how]).map .produce

namespace Account

theorem spoiled_step (build : Build) (op : Producer.Op) (hop : op.abandoning = true)
    (a : Account g) :
    a.ledger.Spoiled (a.step build (.produce op)).account.ledger ∧
      (a.step build (.produce op)).account.lending = a.lending := by
  obtain ⟨b, drafting, lending⟩ := a
  refine ⟨?_, rfl⟩
  cases drafting with
  | false =>
    cases op with
    | push _ | draft => cases hop
    | contents | store _ _ | fill _ | overwrite _ | finish _ => exact Ledger.spoiled_self b
  | true =>
    cases op with
    | push _ | draft => cases hop
    | contents => exact Ledger.spoiled_self b
    | store position bytes =>
      exact Ledger.spoiled_settle (Ledger.spoiled_write b (g.fits_take position bytes)) _
    | fill byte =>
      exact Ledger.spoiled_write b (g.fits_zero (Nat.le_of_eq List.length_replicate))
    | overwrite bytes =>
      simp only [step, Ledger.produce, if_true, Ledger.produceHolding]
      split
      · exact Ledger.spoiled_write b (g.fits_zero (Nat.le_of_eq ‹_›))
      · exact Ledger.spoiled_self b
    | finish how =>
      cases how with
      | release | drop => cases hop
      | discard | forget | unwind => exact Ledger.spoiled_self b

theorem spoiled_run (build : Build) (ops : List Producer.Op)
    (hops : ∀ op ∈ ops, op.abandoning = true) (a : Account g) :
    a.ledger.Spoiled (a.run build (ops.map .produce)).1.ledger ∧
      (a.run build (ops.map .produce)).1.lending = a.lending := by
  induction ops generalizing a with
  | nil => exact ⟨Ledger.spoiled_self _, rfl⟩
  | cons op ops ih =>
    obtain ⟨hstep, hlending⟩ := spoiled_step build op (hops op List.mem_cons_self) a
    obtain ⟨hrest, hrest'⟩ := ih (fun op h => hops op (List.mem_cons_of_mem _ h))
      (a.step build (.produce op)).account
    exact ⟨Ledger.spoiled_trans hstep hrest, hrest'.trans hlending⟩

theorem drafting_finish (build : Build) (how : Draft.Ending) (a : Account g) :
    (a.step build (.produce (.finish how))).account.drafting = false := by
  obtain ⟨b, drafting, lending⟩ := a
  cases drafting <;> rfl

theorem drafted_iff (build : Build) (a : Account g) (index : UInt64) :
    (∃ contents, (a.step build (.produce .draft)).answer =
        .produced (.drafted index contents)) ↔
      a.drafting = false ∧ ¬ a.ledger.Full ∧ index = g.place a.ledger.published := by
  obtain ⟨b, drafting, lending⟩ := a
  cases drafting with
  | true => simp [step, Ledger.produce, Ledger.produceHolding, produced]
  | false =>
    by_cases hf : b.Full
    · simp [step, Ledger.produce, Ledger.produceFree, produced, hf]
    · simp [step, Ledger.produce, Ledger.produceFree, produced, hf, eq_comm]

theorem spoiled_abandoned (build : Build) {stores : List Producer.Op}
    (hstores : ∀ op ∈ stores, op.abandoning = true) {how : Draft.Ending}
    (hhow : how.publishes = false) {a : Account g} {index : UInt64} {contents : List UInt8}
    (ha : (a.step build (.produce .draft)).answer = .produced (.drafted index contents)) :
    let after := (a.run build (Session.draftOps stores how)).1
    a.ledger.Spoiled after.ledger ∧ after.drafting = false := by
  obtain ⟨hfree, hroom, -⟩ := (drafted_iff build a index).mp ⟨contents, ha⟩
  have hdraft : (a.step build (.produce .draft)).account = ⟨a.ledger, true, a.lending⟩ := by
    simp [step, Ledger.produce, Ledger.produceFree, hfree, hroom]
  have hrun := (spoiled_run build stores hstores ⟨a.ledger, true, a.lending⟩).1
  have hsplit : (a.run build (Session.draftOps stores how)).1 =
      ((Account.run build (stores.map .produce) ⟨a.ledger, true, a.lending⟩).1.step build
        (.produce (.finish how))).account := by
    rw [← hdraft, Session.draftOps, List.cons_append, List.map_cons, List.map_append, run,
      run_append]
    rfl
  have hend : (Producer.Op.finish how).abandoning = true := by
    rw [Producer.Op.abandoning, hhow]
    rfl
  intro after
  rw [show after = _ from hsplit]
  exact ⟨Ledger.spoiled_trans hrun (spoiled_step build _ hend _).1, drafting_finish build how _⟩

end Account

namespace Session

variable {build : Build} {s s' : Session g} {a a' : Account g}

/-- All but bytes of the slot at the write index is as before. -/
structure Unharmed (s s' : Session g) : Prop where
  writeIndex : s'.ring.writeIndex = s.ring.writeIndex
  readIndex : s'.ring.readIndex = s.ring.readIndex
  slot : ∀ index, s.ring.Occupied index → s'.ring.slot index = s.ring.slot index
  byte : ∀ address, address < s.ring.writeIndex.toNat * g.slotSize ∨
    s.ring.writeIndex.toNat * g.slotSize + g.slotSize ≤ address →
      s'.ring.byte address = s.ring.byte address

theorem unharmed_of_spoiled (h : s.Tracks a) (h' : s'.Tracks a')
    (hs : a.ledger.Spoiled a'.ledger) : s.Unharmed s' := by
  have hpublished : a'.ledger.published = a.ledger.published := congrArg List.length hs.items
  have hbase : (g.place a.ledger.published).toNat * g.slotSize = g.base a.ledger.published :=
    congrArg (· * g.slotSize) (g.place_toNat _)
  constructor
  · rw [h.ring, h'.ring]
    exact congrArg g.place hpublished
  · rw [h.ring, h'.ring]
    exact congrArg g.place hs.freed
  · intro index hoccupied
    rw [h.ring] at hoccupied
    obtain ⟨k, hl, hu, rfl⟩ := Ring.exists_counter a.ledger hoccupied.1
    have hlt := (Ring.occupied_ledger h.valid hl hu).mp hoccupied
    have hkept := h.valid.kept k hl hlt
    rw [← hs.items, h'.valid.kept k (hs.freed ▸ hl) (hpublished ▸ hlt), Option.some.injEq] at hkept
    rw [h.ring, h'.ring, Ring.slot_place, Ring.slot_place, hkept]
  · intro address ha
    rw [h.ring] at ha
    rw [h.ring, h'.ring]
    exact hs.outside address (by rwa [← hbase])

/-- The next draft gets the same slot until something is published. -/
theorem draft_again (h : s.Tracks a) {index : UInt64} {contents : List UInt8}
    (ha : (s.step build (.produce .draft)).answer = .produced (.drafted index contents))
    (h' : s'.Tracks a') (hs : a.ledger.Spoiled a'.ledger) (later : List Op)
    (hpublished : published (run build later s').2 = 0)
    (hfree : (run build later s').1.producer.draft = none) :
    ∃ contents', ((run build later s').1.step build (.produce .draft)).answer =
      .produced (.drafted index contents') := by
  obtain ⟨hlast, htrace⟩ := tracks_run build later h'
  obtain ⟨hcount, hcount'⟩ := Account.run_counts build later a'
  rw [← htrace, hpublished] at hcount
  rw [(tracks_step build _ h).2.2] at ha
  obtain ⟨-, hroom, hindex⟩ := (Account.drafted_iff build a index).mp ⟨contents, ha⟩
  have hsame : (a'.run build later).1.ledger.published = a.ledger.published :=
    hcount.trans (congrArg List.length hs.items)
  have hlt := h.valid.published_lt
  have hfreed := hs.freed
  rw [(tracks_step build _ hlast).2.2]
  apply (Account.drafted_iff build _ index).mpr
  refine ⟨?_, ?_, ?_⟩
  · rw [hlast.drafting, Producer.held, hfree]
    rfl
  · simp only [Ledger.Full] at hroom ⊢
    omega
  · rw [hsame, hindex]

end Session

namespace Session

/-- A draft that is abandoned after any stores leaves all but its slot as it was,
and its slot to the next draft. And two runs that differ only in bytes stored
through such drafts tell the same, but for what drafts contain, if each byte of
each item was stored again after the last of them on its slot. -/
theorem run_abandoned {line : Padding.Line} {storage : Storage} {itemSize : UInt64} {r : Ring g}
    {e : Event} (h : Ring.construct line storage itemSize = (.ok ⟨g, r⟩, e)) (build : Build) :
    (∀ ops stores how index contents,
      let s := (run build ops (split r)).1
      let after := (run build (draftOps stores how) s).1
      (s.step build (.produce .draft)).answer = .produced (.drafted index contents) →
        (∀ op ∈ stores, op.abandoning = true) → how.publishes = false →
          s.Unharmed after ∧ after.producer.draft = none ∧ index = s.ring.writeIndex ∧
            ∀ later,
              let last := run build later after
              published last.2 = 0 → last.1.producer.draft = none →
                ∃ contents', (last.1.step build (.produce .draft)).answer =
                  .produced (.drafted index contents')) ∧
      ∀ ops ops',
        let log := log build ops (split r)
        Varied log ops' → AllRenewed g (marks g 0 log) →
          (run build ops' (split r)).2.map (Prod.map Answer.masked id) =
              (run build ops (split r)).2.map (Prod.map Answer.masked id) ∧
            ∀ n, Observer.see build (run build (ops'.take n) (split r)).1.ring =
              Observer.see build (run build (ops.take n) (split r)).1.ring := by
  constructor
  · intro ops stores how index contents s after hdraft hstores hhow
    have ht : s.Tracks _ := (tracks_construct build ops h).1
    have hafter : after.Tracks _ := (tracks_run build (draftOps stores how) ht).1
    have hanswer := hdraft
    rw [(tracks_step build _ ht).2.2] at hanswer
    obtain ⟨hspoiled, hfree⟩ := Account.spoiled_abandoned build hstores hhow hanswer
    obtain ⟨-, -, hindex⟩ := (Account.drafted_iff build _ index).mp ⟨contents, hanswer⟩
    refine ⟨unharmed_of_spoiled ht hafter hspoiled, ?_, ?_, ?_⟩
    · exact Option.not_isSome_iff_eq_none.mp
        (Bool.eq_false_iff.mp (hafter.drafting.symm.trans hfree))
    · rw [ht.ring]
      exact hindex
    · exact fun later => draft_again ht hdraft hafter hspoiled later
  · intro ops ops' log hvaried hrenewed
    have hlog : log = Account.log build ops ⟨r.ledger, false, false⟩ :=
      congrArg (ops.zip ·) (tracks_construct build ops h).2
    obtain ⟨htrace, hstates⟩ := @Account.run_alike _ build ops ops' [] _ _
      ⟨⟨rfl, rfl, rfl, rfl⟩, fun _ _ _ _ _ _ => rfl⟩ (hlog ▸ hvaried) (hlog ▸ hrenewed)
    constructor
    · rw [(tracks_construct build ops h).2, (tracks_construct build ops' h).2]
      exact htrace
    · intro n
      obtain ⟨hitems, hfreed, -, -⟩ := hstates n
      have ht := (tracks_construct build (ops.take n) h).1
      have ht' := (tracks_construct build (ops'.take n) h).1
      have hpublished := congrArg List.length hitems
      rw [Observer.see_below build (below_of_tracks ht).ring,
        Observer.see_below build (below_of_tracks ht').ring, ht.ring, ht'.ring]
      simp only [Ledger.ring, Ledger.published, hfreed, hpublished]

/-- Three slots of two bytes: one draft of slot 0 is discarded, another one is cut
short by a panic, and a push stores both bytes anew; the same slot is spoiled
again in the next round and then filled through a draft that is published. -/
theorem run_abandoned_three_slots :
    ∃ (g : Geometry) (r : Ring g) (e : Event),
      Ring.construct .line64 ⟨#[1, 2, 3, 4, 5, 6, 7], by decide⟩ 2 = (.ok ⟨g, r⟩, e) ∧
      let script (x y z : UInt8) : List Op := [.produce .draft, .produce (.store 0 [x]),
        .produce (.finish .discard), .produce .draft, .produce (.store 1 [y, y]),
        .produce (.push [5, 6]), .produce (.push [7]), .produce (.push [8]), .consume (.pop [0, 0]),
        .consume (.pop [0, 0]), .produce (.push [9]), .produce .draft, .produce (.fill z),
        .produce (.finish .forget), .produce .draft, .produce (.store 0 [4, 3]), .resplit,
        .consume (.pop [0, 0]), .consume (.pop [0, 0]), .consume .borrow]
      let spoil := draftOps [.fill 9, .store 1 [8, 8]] .unwind
      let s := split r
      s.Unharmed (run .release spoil s).1 ∧
        Varied (log .release (script 1 2 3) s) (script 4 5 6) ∧
        AllRenewed g (marks g 0 (log .release (script 1 2 3) s)) ∧
        (run .release (script 4 5 6) s).2.map Prod.fst ≠
          (run .release (script 1 2 3) s).2.map Prod.fst ∧
        (run .release (script 4 5 6) s).2.map (Prod.map Answer.masked id) =
          (run .release (script 1 2 3) s).2.map (Prod.map Answer.masked id) := by
  refine ⟨_, _, _, rfl, ?_⟩
  intro script spoil s
  obtain ⟨hone, htwo⟩ :=
    @run_abandoned _ .line64 ⟨#[1, 2, 3, 4, 5, 6, 7], by decide⟩ 2 _ _ rfl .release
  have hvaried : Varied (log .release (script 1 2 3) s) (script 4 5 6) := by decide +kernel
  have hrun := htwo (script 1 2 3) (script 4 5 6) hvaried (by decide +kernel)
  have hanswer : (s.step .release (.produce .draft)).answer = .produced (.drafted 0 [1, 2]) := by
    decide +kernel
  have hspoil := (hone [] [.fill 9, .store 1 [8, 8]] .unwind 0 [1, 2] hanswer (by decide) rfl).1
  exact ⟨hspoil, hvaried, by decide +kernel, by decide +kernel, hrun.1⟩

end Session

end SlotRing
