import Mathlib.Data.List.Forall2
import SlotRing.Proofs.Abandoned
import SlotRing.Proofs.Reloads

/-!
# Copying and working in place

A push does what a draft does whose slot the item is stored at the start of and
which is released then, and a pop does what a loan does whose first bytes are
copied out. The two ways compute indices on their own, but leave the same
session, copies of the indices included. So each operation of a run may go either
way, and the run tells the same but for the indices of the slots that are worked
on in place (`run_inPlace`).
-/

set_option autoImplicit false

namespace SlotRing

variable {g : Geometry}

namespace Loan

def Ending.frees : Ending → Bool
  | .release | .drop | .unwind => true
  | .retain | .forget => false

end Loan

namespace Session

def loanOps (how : Loan.Ending) : List Op :=
  [.consume .borrow, .consume .contents, .consume (.finish how)]

/-- The ways to do an operation: as it is, or in place if it copies. -/
inductive Rewords (s : Session g) : Op → List Op → Prop
  | same (op : Op) : Rewords s op [op]
  | push {item : List UInt8} {how : Draft.Ending} (h : s.Seeks .producer (.produce (.push item)))
      (hhow : how.publishes = true) :
      Rewords s (.produce (.push item)) (draftOps [.store 0 item] how)
  | pop {dest : List UInt8} {how : Loan.Ending} (h : s.Seeks .consumer (.consume (.pop dest)))
      (hhow : how.frees = true) : Rewords s (.consume (.pop dest)) (loanOps how)

inductive Reworded (build : Build) : Session g → List Op → List (List Op) → Prop
  | nil (s : Session g) : Reworded build s [] []
  | cons {s : Session g} {op : Op} {ops segment : List Op} {segments : List (List Op)}
      (head : s.Rewords op segment) (tail : Reworded build (s.step build op).session ops segments) :
      Reworded build s (op :: ops) (segment :: segments)

inductive Retold (g : Geometry) :
    Op × Answer × List Event → List (Op × Answer × List Event) → Prop
  | same (entry : Op × Answer × List Event) : Retold g entry [entry]
  | pushed (item contents : List UInt8) (how : Draft.Ending) (index : UInt64) :
      Retold g (.produce (.push item), .produced .pushed, [])
        [(.produce .draft, .produced (.drafted index contents), []),
          (.produce (.store 0 item), .produced (.contents (overlay 0 item contents)), []),
          (.produce (.finish how), .produced .finished, [.draftPublished index])]
  | full (item : List UInt8) (how : Draft.Ending) :
      Retold g (.produce (.push item), .produced (.refused .full), [])
        [(.produce .draft, .produced .full, []), (.produce (.store 0 item), .produced .noSlot, []),
          (.produce (.finish how), .produced .noSlot, [])]
  | popped (dest contents : List UInt8) (how : Loan.Ending) (index : UInt64) {count : Nat}
      (hcount : count = min dest.length g.slotSize) :
      Retold g (.consume (.pop dest),
          .consumed (.popped (some count) (contents.take count ++ dest.drop count)), [])
        [(.consume .borrow, .consumed (.lent index contents), []),
          (.consume .contents, .consumed (.contents contents), []),
          (.consume (.finish how), .consumed .finished, [.loanReleased index])]
  | empty (dest : List UInt8) (how : Loan.Ending) :
      Retold g (.consume (.pop dest), .consumed (.popped none dest), [])
        [(.consume .borrow, .consumed .empty, []), (.consume .contents, .consumed .noSlot, []),
          (.consume (.finish how), .consumed .noSlot, [])]

end Session

/-! ## Accounts -/

namespace Account

open Session (draftOps loanOps Retold)

variable {a : Account g}

theorem push_inPlace (build : Build) (hd : a.drafting = false) {item : List UInt8}
    (hl : item.length ≤ g.slotSize) {how : Draft.Ending} (hhow : how.publishes = true) :
    let done := a.step build (.produce (.push item))
    (a.run build (draftOps [.store 0 item] how)).1 = done.account ∧
      Retold g (.produce (.push item), done.answer, done.events)
        (a.log build (draftOps [.store 0 item] how)) := by
  obtain ⟨b, drafting, lending⟩ := a
  cases hd
  have hlong := Nat.not_lt.mpr hl
  by_cases hf : b.Full
  · have hpush : (⟨b, false, lending⟩ : Account g).step build (.produce (.push item)) =
        ⟨⟨b, false, lending⟩, [], .produced (.refused .full)⟩ := by
      simp [step, Ledger.produce, Ledger.produceFree, hf, hlong, produced]
    have hrun : (⟨b, false, lending⟩ : Account g).run build (draftOps [.store 0 item] how) =
        (⟨b, false, lending⟩, [(.produced .full, []), (.produced .noSlot, []),
          (.produced .noSlot, [])]) := by
      simp [draftOps, run, step, Ledger.produce, Ledger.produceFree, hf, produced]
    simp only [log, hpush, hrun]
    exact ⟨trivial, .full item how⟩
  · have hslot := b.slot_write 0 item (g.fits_zero hl)
    have htake : item.take g.slotSize = item := List.take_of_length_le hl
    have hpush : (⟨b, false, lending⟩ : Account g).step build (.produce (.push item)) =
        ⟨⟨(b.write 0 item).publish, false, lending⟩, [], .produced .pushed⟩ := by
      simp [step, Ledger.produce, Ledger.produceFree, hf, hlong, produced]
    have hrun : (⟨b, false, lending⟩ : Account g).run build (draftOps [.store 0 item] how) =
        (⟨(b.write 0 item).publish, false, lending⟩,
          [(.produced (.drafted (g.place b.published) (b.slot b.published)), []),
            (.produced (.contents (overlay 0 item (b.slot b.published))), []),
            (.produced .finished, [.draftPublished (g.place b.published)])]) := by
      cases how <;> cases hhow <;>
        simp [draftOps, run, step, Ledger.produce, Ledger.produceFree, Ledger.produceHolding,
          Ledger.settle, Ledger.endDraft, hf, hl, hslot, htake, produced]
    simp only [log, hpush, hrun]
    exact ⟨trivial, .pushed item _ how _⟩

theorem pop_inPlace (build : Build) (hv : a.ledger.Valid) (hl : a.lending = false)
    (dest : List UInt8) {how : Loan.Ending} (hhow : how.frees = true) :
    let done := a.step build (.consume (.pop dest))
    (a.run build (loanOps how)).1 = done.account ∧
      Retold g (.consume (.pop dest), done.answer, done.events) (a.log build (loanOps how)) := by
  obtain ⟨b, drafting, lending⟩ := a
  cases hl
  by_cases he : b.Empty
  · have hpop : (⟨b, drafting, false⟩ : Account g).step build (.consume (.pop dest)) =
        ⟨⟨b, drafting, false⟩, [], .consumed (.popped none dest)⟩ := by
      simp [step, Ledger.consume, Ledger.consumeFree, he, consumed]
    have hrun : (⟨b, drafting, false⟩ : Account g).run build (loanOps how) =
        (⟨b, drafting, false⟩, [(.consumed .empty, []), (.consumed .noSlot, []),
          (.consumed .noSlot, [])]) := by
      simp [loanOps, run, step, Ledger.consume, Ledger.consumeFree, he, consumed]
    simp only [log, hpop, hrun]
    exact ⟨trivial, .empty dest how⟩
  · have holdest : b.oldest.length = g.slotSize := by
      rw [Ledger.oldest_eq hv (Ledger.ready_of_not_empty hv he), Ledger.length_slot]
    have htake : b.oldest.take dest.length = b.oldest.take (min dest.length g.slotSize) := by
      rw [List.take_eq_take_iff]
      omega
    have hlength : (b.oldest.take (min dest.length g.slotSize)).length =
        min dest.length g.slotSize := by
      rw [List.length_take]
      omega
    have hpop : (⟨b, drafting, false⟩ : Account g).step build (.consume (.pop dest)) =
        ⟨⟨b.free, drafting, false⟩, [], .consumed (.popped (some (min dest.length g.slotSize))
          (b.oldest.take (min dest.length g.slotSize) ++
            dest.drop (min dest.length g.slotSize)))⟩ := by
      simp only [step, Ledger.consume, Ledger.consumeFree, if_neg he, htake, hlength]
      rfl
    have hrun : (⟨b, drafting, false⟩ : Account g).run build (loanOps how) =
        (⟨b.free, drafting, false⟩, [(.consumed (.lent (g.place b.freed) b.oldest), []),
          (.consumed (.contents b.oldest), []),
          (.consumed .finished, [.loanReleased (g.place b.freed)])]) := by
      cases how <;> cases hhow <;>
        simp [loanOps, run, step, Ledger.consume, Ledger.consumeFree, Ledger.consumeHolding,
          Ledger.endLoan, he, consumed]
    simp only [log, hpop, hrun]
    exact ⟨trivial, .popped dest _ how _ rfl⟩

end Account

/-! ## Sessions -/

namespace Session

variable {build : Build} {s : Session g} {a : Account g} {side : Side} {op op' : Op}

theorem length_run (build : Build) (ops : List Op) (s : Session g) :
    (run build ops s).2.length = ops.length := by
  induction ops generalizing s with
  | nil => rfl
  | cons op ops ih => exact congrArg (· + 1) (ih _)

theorem map_fst_log (build : Build) (ops : List Op) (s : Session g) :
    (log build ops s).map Prod.fst = ops :=
  List.map_fst_zip (Nat.le_of_eq (length_run build ops s).symm)

theorem log_append (build : Build) (ops rest : List Op) (s : Session g) :
    log build (ops ++ rest) s = log build ops s ++ log build rest (run build ops s).1 := by
  induction ops generalizing s with
  | nil => rfl
  | cons op ops ih => exact congrArg ((op, _) :: ·) (ih _)

theorem log_tracks (build : Build) (ops : List Op) (h : s.Tracks a) :
    log build ops s = a.log build ops :=
  congrArg (ops.zip ·) (tracks_run build ops h).2

def Op.Settled (g : Geometry) (op : Op) : Prop :=
  op ≠ .resplit ∧ ∀ (s : Session g) (side : Side), ¬ s.Seeks side op

theorem settled_produce {op : Producer.Op} (h : ∀ p : Producer, ¬ p.Seeks g op) :
    (Op.produce op).Settled g := by
  refine ⟨nofun, fun s side => ?_⟩
  cases side with
  | producer => exact h s.producer
  | consumer => exact id

theorem settled_consume {op : Consumer.Op} (h : ∀ c : Consumer, ¬ c.Seeks op) :
    (Op.consume op).Settled g := by
  refine ⟨nofun, fun s side => ?_⟩
  cases side with
  | producer => exact id
  | consumer => exact h s.consumer

theorem copy_run_settled (build : Build) {rest : List Op} (h : ∀ op ∈ rest, op.Settled g)
    (s : Session g) (side : Side) : (run build rest s).1.copy side = s.copy side := by
  induction rest generalizing s with
  | nil => rfl
  | cons op rest ih =>
    obtain ⟨⟨hop, hseeks⟩, hrest⟩ := List.forall_mem_cons.mp h
    calc (run build rest (s.step build op).session).1.copy side
        = (s.step build op).session.copy side := ih hrest _
      _ = s.copy side := (copy_of_not_seeks build hop (hseeks s side)).2

theorem copy_of_side (h : s.Tracks a) (hop : s.Seeks side op) (hop' : s.Seeks side op')
    (copied : Side) :
    (s.step build op').session.copy copied = (s.step build op).session.copy copied := by
  by_cases hside : copied = side
  · subst hside
    rw [(copy_of_seeks build h hop).2, (copy_of_seeks build h hop').2]
  · have hidle : ∀ {op : Op}, s.Seeks side op →
        (s.step build op).session.copy copied = s.copy copied := by
      intro op hseeks
      have hown := side_of_seeks hseeks
      have hresplit : op ≠ .resplit := by
        rintro rfl
        cases hown
      apply (copy_of_not_seeks build hresplit _).2
      exact fun h' => hside (Option.some.inj ((side_of_seeks h').symm.trans hown))
    rw [hidle hop, hidle hop']

/-- Two ways that start by looking for the same slot leave the same copies, so the
sessions are the same if their accounts are. -/
theorem run_eq_step (h : s.Tracks a) (hop : s.Seeks side op) (hop' : s.Seeks side op')
    {rest : List Op} (hrest : ∀ op ∈ rest, op.Settled g)
    (haccount : (a.run build (op' :: rest)).1 = (a.step build op).account) :
    (run build (op' :: rest) s).1 = (s.step build op).session := by
  have ht := (tracks_run build (op' :: rest) h).1
  rw [haccount] at ht
  have hcopies : ∀ copied, (run build (op' :: rest) s).1.copy copied =
      (s.step build op).session.copy copied := by
    intro copied
    calc (run build rest (s.step build op').session).1.copy copied
        = (s.step build op').session.copy copied := copy_run_settled build hrest _ copied
      _ = (s.step build op).session.copy copied := copy_of_side h hop hop' copied
  exact eq_of_copies (resembles_of_tracks ht (tracks_step build op h).1) (hcopies _) (hcopies _)

theorem run_rewords (h : s.Tracks a) {segment : List Op} (hw : s.Rewords op segment) :
    (run build segment s).1 = (s.step build op).session ∧
      Retold g (op, (s.step build op).answer, (s.step build op).events) (log build segment s) := by
  cases hw with
  | same => exact ⟨rfl, .same _⟩
  | @push item how hseeks hhow =>
    have hdraft : s.Seeks .producer (.produce .draft) := hseeks.1
    have hdrafting : a.drafting = false := h.drafting.trans (Producer.held_of_none hseeks.1)
    obtain ⟨haccount, hretold⟩ := Account.push_inPlace build hdrafting hseeks.2 hhow
    obtain ⟨-, hevents, hanswer⟩ := tracks_step build (.produce (.push item)) h
    rw [hevents, hanswer, log_tracks build _ h]
    refine ⟨run_eq_step h hseeks hdraft ?_ haccount, hretold⟩
    exact List.forall_mem_cons.mpr ⟨settled_produce fun _ => id,
      List.forall_mem_singleton.mpr (settled_produce fun _ => id)⟩
  | @pop dest how hseeks hhow =>
    have hborrow : s.Seeks .consumer (.consume .borrow) := hseeks
    have hlending : a.lending = false := h.lending.trans (Consumer.held_of_none hseeks)
    obtain ⟨haccount, hretold⟩ := Account.pop_inPlace build h.valid hlending dest hhow
    obtain ⟨-, hevents, hanswer⟩ := tracks_step build (.consume (.pop dest)) h
    rw [hevents, hanswer, log_tracks build _ h]
    refine ⟨run_eq_step h hseeks hborrow ?_ haccount, hretold⟩
    exact List.forall_mem_cons.mpr ⟨settled_consume fun _ => id,
      List.forall_mem_singleton.mpr (settled_consume fun _ => id)⟩

theorem run_reworded {ops : List Op} {segments : List (List Op)} (h : s.Tracks a)
    (hw : Reworded build s ops segments) :
    (run build segments.flatten s).1 = (run build ops s).1 ∧
      ∃ told, log build segments.flatten s = told.flatten ∧
        told.map (List.map Prod.fst) = segments ∧
        List.Forall₂ (Retold g) (log build ops s) told := by
  induction hw generalizing a with
  | nil s => exact ⟨rfl, [], rfl, rfl, .nil⟩
  | @cons s op ops segment segments head tail ih =>
    obtain ⟨hsession, hretold⟩ := @run_rewords g build s a op h segment head
    -- After the segment both runs are at one session, so the rest is the rest of both.
    obtain ⟨hrest, told, hlog, hops, htold⟩ := ih (tracks_step build op h).1
    rw [← hsession] at hrest hlog
    refine ⟨?_, log build segment s :: told, ?_, ?_, .cons hretold htold⟩
    · rw [List.flatten_cons, run_append, hrest, hsession]
      rfl
    · rw [List.flatten_cons, log_append, hlog, List.flatten_cons]
    · rw [List.map_cons, hops, map_fst_log]

/-- Wherever a push or a pop may go, its form in place is answered accordingly and
leaves the same session. So a run may take either form of each of them and tells
the same but for the slots it works on. -/
theorem run_inPlace {line : Padding.Line} {storage : Storage} {itemSize : UInt64} {r : Ring g}
    {e : Event} (h : Ring.construct line storage itemSize = (.ok ⟨g, r⟩, e)) (build : Build)
    (ops : List Op) :
    (∀ op segment,
      let s := (run build ops (split r)).1
      let done := s.step build op
      s.Rewords op segment →
        (run build segment s).1 = done.session ∧
          Retold g (op, done.answer, done.events) (log build segment s)) ∧
      ∀ segments, Reworded build (split r) ops segments →
        (run build segments.flatten (split r)).1 = (run build ops (split r)).1 ∧
          ∃ told, log build segments.flatten (split r) = told.flatten ∧
            told.map (List.map Prod.fst) = segments ∧
            List.Forall₂ (Retold g) (log build ops (split r)) told := by
  constructor
  · intro op segment s done hw
    exact run_rewords (tracks_construct build ops h).1 hw
  · exact fun segments hw => run_reworded (tracks_construct build [] h).1 hw

/-- Three slots of two bytes. Two pushes and a pop go in place, one of the pushes
finds the ring full, and a short item leaves the second byte of its slot. -/
theorem run_inPlace_three_slots :
    ∃ (g : Geometry) (r : Ring g) (e : Event),
      Ring.construct .line64 ⟨#[1, 2, 3, 4, 5, 6, 7], by decide⟩ 2 = (.ok ⟨g, r⟩, e) ∧
      let ops := [.produce (.push [9]), .produce (.push [8, 7]), .produce (.push [6]),
        .consume (.pop [0, 0, 0])]
      let segments := [draftOps [.store 0 [9]] .release, [.produce (.push [8, 7])],
        draftOps [.store 0 [6]] .drop, loanOps .unwind]
      let done := run .release ops (split r)
      done.2.map Prod.fst = [.produced .pushed, .produced .pushed, .produced (.refused .full),
          .consumed (.popped (some 2) [9, 2, 0])] ∧
        (run .release segments.flatten (split r)).1 = done.1 ∧
        done.1.Rewords (.produce (.push [6])) (draftOps [.store 0 [6]] .drop) ∧
        (run .release (draftOps [.store 0 [6]] .drop) done.1).1 =
          (done.1.step .release (.produce (.push [6]))).session := by
  refine ⟨_, _, _, rfl, ?_⟩
  intro ops segments done
  obtain ⟨hone, hall⟩ :=
    @run_inPlace _ .line64 ⟨#[1, 2, 3, 4, 5, 6, 7], by decide⟩ 2 _ _ rfl .release ops
  have hrun := hall segments (.cons (.push (by decide +kernel) rfl) (.cons (.same _)
    (.cons (.push (by decide +kernel) rfl) (.cons (.pop (by decide +kernel) rfl) (.nil _)))))
  have hword : done.1.Rewords (.produce (.push [6])) (draftOps [.store 0 [6]] .drop) :=
    .push (by decide +kernel) rfl
  exact ⟨by decide +kernel, hrun.1, hword, (hone _ _ hword).1⟩

end Session

end SlotRing
