import SlotRing.Proofs.Checks

/-!
# Checked and release builds

A bounded program runs alike in both builds, since none of its checks fails. So
the builds differ at one operation only, the push of an item that no slot can
hold, and even there they leave the same session (`run_builds`).
-/

set_option autoImplicit false

namespace SlotRing

open Access

variable {g : Geometry}

theorem Access.run_checked {α : Type} {p : Access α} {post : α → Prop} {r : Ring g}
    (h : p.Bounded g post) (hr : r.Below) : p.run .checked r = p.run .release r := by
  induction p generalizing r with
  | done a => rfl
  | loadIndex o k ih => exact ih _ (h _ (Ring.index_below hr o)) hr
  | storeIndex o i k ih => exact ih () h.2 (Ring.below_setIndex hr o h.1)
  | loadByte a k ih => exact ih _ (h.2 _) hr
  | storeByte a b k ih => exact ih () h.2 (Ring.below_setByte hr a b)
  | log e k ih => rw [run, run, ih () h hr]
  | require holds fault k ih =>
    obtain rfl := Touch.holds_of_sound h.1
    exact ih () h.2 hr

theorem Observer.see_checked {r : Ring g} (hr : r.Below) : see .checked r = see .release r :=
  congrArg Outcome.result (run_checked bounded_observe hr)

namespace Session

variable {s : Session g} {op : Op}

theorem close_checked (h : s.Below) : s.close .checked = s.close .release := by
  simp only [close, run_checked (bounded_closing h.producer h.consumer) h.ring]

theorem step_checked (h : s.Below) (he : s.excess op = none) :
    s.step .checked op = s.step .release op := by
  cases op with
  | produce op => simp only [step, run_checked (Producer.bounded_perform he h.producer) h.ring]
  | consume op => simp only [step, run_checked (Consumer.bounded_perform h.consumer) h.ring]
  | resplit => simp only [step, close_checked h]

def inChecked : Answer × List Event → Answer × List Event
  | (.produced (.refused (.oversized length itemSize)), _) =>
    (.faulted (.oversizedItem length itemSize), [])
  | entry => entry

theorem inChecked_of_within {answer : Answer} {events : List Event} (h : answer.Within g) :
    inChecked (answer, events) = (answer, events) := by
  cases answer with
  | produced answer =>
    cases answer with
    | refused why =>
      cases why with
      | full => rfl
      | oversized _ _ => exact h.elim
    | _ => rfl
  | consumed _ | resplit | faulted _ => rfl

theorem step_inChecked (h : s.Below) :
    (s.step .checked op).session = (s.step .release op).session ∧
      ((s.step .checked op).answer, (s.step .checked op).events) =
        inChecked ((s.step .release op).answer, (s.step .release op).events) := by
  cases he : s.excess op with
  | none =>
    rw [step_checked h he, inChecked_of_within (sound_step h he).2.2]
    exact ⟨rfl, rfl⟩
  | some length =>
    obtain ⟨hrelease, hchecked⟩ := step_excess he
    rw [hrelease, hchecked]
    exact ⟨rfl, rfl⟩

theorem run_inChecked (ops : List Op) (h : s.Below) :
    (run .checked ops s).1 = (run .release ops s).1 ∧
      (run .checked ops s).2 = (run .release ops s).2.map inChecked := by
  induction ops generalizing s with
  | nil => exact ⟨rfl, rfl⟩
  | cons op ops ih =>
    obtain ⟨hsession, hentry⟩ := @step_inChecked g s op h
    obtain ⟨hrest, htrace⟩ := ih (@below_step g .release s op h)
    simp only [run, hsession, hentry, List.map_cons]
    exact ⟨hrest, congrArg _ htrace⟩

structure Agrees (s : Session g) : Prop where
  close : s.close .checked = s.close .release
  observed : Observer.see .checked s.ring = Observer.see .release s.ring
  step : ∀ op, s.excess op = none → s.step .checked op = s.step .release op
  excess : ∀ op length, s.excess op = some length →
    let why := PushRefusal.oversized length g.slotSize
    let warning := Event.pushOversized length g.slotSize
    let fault := Fault.oversizedItem length g.slotSize
    s.step .release op = ⟨s, [warning], .produced (.refused why)⟩ ∧
      s.step .checked op = ⟨s, [], .faulted fault⟩ ∧
      fault.message = why.message ∧ warning.level = .warn

theorem agrees_of_below (h : s.Below) : s.Agrees where
  close := close_checked h
  observed := Observer.see_checked h.ring
  step _ he := step_checked h he
  excess _ _ he := ⟨(step_excess he).1, (step_excess he).2, rfl, rfl⟩

/-- From an accepted ring, both builds pass through the same sessions and give
the same answers and events, but for the pushes that no slot can hold. -/
theorem run_builds {line : Padding.Line} {storage : Storage} {itemSize : UInt64} {r : Ring g}
    {e : Event} (h : Ring.construct line storage itemSize = (.ok ⟨g, r⟩, e)) (ops : List Op) :
    let released := run .release ops (split r)
    let checked := run .checked ops (split r)
    checked.1 = released.1 ∧ checked.2 = released.2.map inChecked ∧ released.1.Agrees := by
  have hbelow := Ring.below_of_construct h
  obtain ⟨hsession, htrace⟩ := run_inChecked ops (below_split hbelow)
  exact ⟨hsession, htrace, agrees_of_below (below_run ops (below_split hbelow))⟩

/-- Three slots of two bytes. An item of three bytes is pushed over a draft,
which both builds refuse alike, and again after a store into the draft panicked;
then the halves are split over a loan. -/
theorem run_builds_three_slots :
    ∃ (g : Geometry) (r : Ring g) (e : Event),
      Ring.construct .line64 ⟨#[1, 2, 3, 4, 5, 6, 7], by decide⟩ 2 = (.ok ⟨g, r⟩, e) ∧
      let ops := [.produce (.push [9]), .produce .draft, .produce (.push [3, 3, 3]),
        .produce (.store 1 [8, 8]), .produce (.push [3, 3, 3]), .consume .borrow, .resplit]
      let released := run .release ops (split r)
      let checked := run .checked ops (split r)
      checked.2[2]? = some (.produced .slotHeld, []) ∧
        released.2[4]? = some (.produced (.refused (.oversized 3 2)), [.pushOversized 3 2]) ∧
        checked.2[4]? = some (.faulted (.oversizedItem 3 2), []) ∧
        released.1.excess (.produce (.push [3, 3, 3])) = some 3 ∧
        checked.1 = released.1 ∧ checked.2 = released.2.map inChecked ∧ released.1.Agrees := by
  refine ⟨_, _, _, rfl, ?_⟩
  intro ops released checked
  exact ⟨by decide +kernel, by decide +kernel, by decide +kernel, by decide +kernel,
    @run_builds _ .line64 ⟨#[1, 2, 3, 4, 5, 6, 7], by decide⟩ 2 _ _ rfl ops⟩

end Session

end SlotRing
