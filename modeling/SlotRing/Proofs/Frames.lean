import SlotRing.Proofs.Provenance
import SlotRing.Proofs.Refusals

/-!
# What is never written

`MayChange` names the bytes that an operation may change: those that a push
copies, or those of the slot that a store goes to. All other bytes keep their
values (`Session.step_frame`), so the bytes behind the last slot last as long
as the ring does. A storage may carry one ring after another, cut in other
ways each time, and what is a slot of one ring may lie behind those of the
next (`runPlans_framed`).
-/

set_option autoImplicit false

namespace SlotRing

open Access

variable {g : Geometry}

/-! ## Accounts -/

namespace Ledger

variable {b b' : Ledger g} {written : Nat × List UInt8} {address : Nat}

theorem get_fills_outside (h : Fills b b' written)
    (ha : address < g.base b.published + written.1 ∨
      g.base b.published + written.1 + written.2.length ≤ address) :
    b'.storage.get address = b.storage.get address := by
  rw [h.storage]
  exact Storage.get_write_outside _ _ _ _ ha

theorem base_le_extent (g : Geometry) (k : Nat) : g.base k + g.slotSize ≤ g.extent := by
  have h := Geometry.slot_le_extent (g.place_lt k)
  rwa [g.place_toNat] at h

theorem get_fills_behind (h : Fills b b' written) (ha : g.extent ≤ address) :
    b'.storage.get address = b.storage.get address := by
  have hslot := base_le_extent g b.published
  rcases h.fits with hnil | hfits
  · rw [h.storage, write, hnil]
    rfl
  · apply get_fills_outside h
    omega

end Ledger

namespace Account

theorem stored_of_free (build : Build) (op : Producer.Op) {a : Account g}
    (hd : a.drafting = false) (hop : ∀ item, op ≠ .push item) :
    Session.stored g (.produce op) (a.step build (.produce op)).answer = (0, []) := by
  simp only [step, Ledger.produce, hd, Bool.false_eq_true, if_false]
  cases op with
  | push item => exact absurd rfl (hop item)
  | draft =>
    simp only [Ledger.produceFree]
    split <;> rfl
  | contents | store _ _ | fill _ | overwrite _ | finish _ => rfl

theorem storage_close (a : Account g) : a.close.1.storage = a.ledger.storage := by
  obtain ⟨b, drafting, lending⟩ := a
  cases drafting <;> cases lending <;> rfl

end Account

/-! ## Sessions -/

namespace Access

variable {α β : Type}

theorem ring_bind (build : Build) {p : Access α} {f : α → Access β} (r : Ring g)
    (hp : (p.run build r).ring = r) (hf : ∀ a, ((f a).run build r).ring = r) :
    ((p >>= f).run build r).ring = r := by
  rw [run_bind]
  generalize p.run build r = o at hp ⊢
  obtain ⟨ring, events, fault | a⟩ := o
  · exact hp
  · cases hp
    exact hf a

theorem ring_demand (build : Build) (holds : Bool) (fault : Fault) (r : Ring g) :
    ((demand holds fault).run build r).ring = r := by
  rw [demand, run]
  split <;> rfl

end Access

namespace Observer

theorem ring_observe (build : Build) (r : Ring g) : ((observe g).run build r).ring = r := by
  apply ring_bind
  · apply ring_bind _ _ rfl
    intro write
    apply ring_bind _ _ rfl
    intro read
    exact ring_bind _ _ (ring_demand _ _ _ _) fun _ => rfl
  · intro length
    apply ring_bind _ _ rfl
    intro empty
    apply ring_bind
    · apply ring_bind _ _ rfl
      intro write
      apply ring_bind
      · exact ring_bind _ _ (ring_demand _ _ _ _) fun _ => rfl
      · exact fun _ => rfl
    · exact fun _ => rfl

end Observer

namespace Session

variable {build : Build} {s : Session g} {a : Account g} {address : Nat}

def MayChange (s : Session g) (op : Op) (answer : Answer) (address : Nat) : Prop :=
  match op, answer with
  | .produce (.push item), .produced .pushed =>
    s.ring.writeIndex.toNat * g.slotSize ≤ address ∧
      address < s.ring.writeIndex.toNat * g.slotSize + item.length
  | .produce (.store ..), _ | .produce (.fill _), _ | .produce (.overwrite _), _ =>
    ∃ d, s.producer.draft = some d ∧ d.index.toNat * g.slotSize ≤ address ∧
      address < d.index.toNat * g.slotSize + g.slotSize
  | _, _ => False

structure Framed (build : Build) (s : Session g) : Prop where
  step : ∀ op address, ¬ s.MayChange op (s.step build op).answer address →
    (s.step build op).session.ring.byte address = s.ring.byte address
  observed : ((Observer.observe g).run build s.ring).ring = s.ring
  closed : (s.close build).1.storage = s.ring.storage

theorem exists_draft (h : s.Tracks a) (hd : a.drafting = true) :
    ∃ d, s.producer.draft = some d ∧
      d.index.toNat * g.slotSize = g.base a.ledger.published := by
  rw [h.drafting] at hd
  obtain ⟨d, hdraft⟩ := Option.isSome_iff_exists.mp hd
  obtain ⟨rfl, -⟩ := Producer.holds_of_draft h.producer hdraft
  refine ⟨_, hdraft, ?_⟩
  rw [g.place_toNat]
  rfl

theorem mayChange_of_stored (h : s.Tracks a) (op : Op)
    (hl : g.base a.ledger.published + (stored g op (a.step build op).answer).1 ≤ address)
    (hu : address < g.base a.ledger.published + (stored g op (a.step build op).answer).1 +
      (stored g op (a.step build op).answer).2.length) :
    s.MayChange op (a.step build op).answer address := by
  have hnonempty : (stored g op (a.step build op).answer).2 ≠ [] := by
    intro hnil
    rw [hnil, List.length_nil] at hu
    omega
  have hfits := (Account.fills_step build op a).fits.resolve_left hnonempty
  cases op with
  | consume op | resplit => exact absurd rfl hnonempty
  | produce op =>
    -- Anything but a push needs a draft in order to store.
    have hstore (hop : ∀ item, op ≠ .push item) :
        ∃ d, s.producer.draft = some d ∧ d.index.toNat * g.slotSize ≤ address ∧
          address < d.index.toNat * g.slotSize + g.slotSize := by
      cases hd : a.drafting with
      | false => exact absurd (congrArg Prod.snd (Account.stored_of_free build op hd hop)) hnonempty
      | true =>
        obtain ⟨d, hdraft, hbase⟩ := exists_draft h hd
        refine ⟨d, hdraft, ?_, ?_⟩
        · omega
        · omega
    cases op with
    | draft | contents | finish _ => exact absurd rfl hnonempty
    | store _ _ | fill _ | overwrite _ => exact hstore nofun
    | push item =>
      generalize (a.step build (.produce (.push item))).answer = answer at hl hu hnonempty ⊢
      match answer, hnonempty with
      | .produced .pushed, _ =>
        have hindex : s.ring.writeIndex.toNat * g.slotSize = g.base a.ledger.published := by
          rw [h.ring]
          exact congrArg (· * g.slotSize) (g.place_toNat _)
        exact ⟨hindex ▸ hl, hindex ▸ hu⟩

theorem step_frame (h : s.Tracks a) (op : Op)
    (hkeep : ¬ s.MayChange op (s.step build op).answer address) :
    (s.step build op).session.ring.byte address = s.ring.byte address := by
  obtain ⟨ht, -, hanswer⟩ := tracks_step build op h
  rw [hanswer] at hkeep
  rw [ht.ring, h.ring]
  apply Ledger.get_fills_outside (Account.fills_step build op a)
  apply Decidable.or_iff_not_imp_left.mpr
  intro hl
  apply Nat.le_of_not_lt
  exact fun hu => hkeep (mayChange_of_stored h op (Nat.le_of_not_lt hl) hu)

theorem step_behind (build : Build) (op : Op) (h : s.Tracks a) (ha : g.extent ≤ address) :
    (s.step build op).session.ring.byte address = s.ring.byte address := by
  rw [(tracks_step build op h).1.ring, h.ring]
  exact Ledger.get_fills_behind (Account.fills_step build op a) ha

theorem framed_of_tracks (build : Build) (h : s.Tracks a) : s.Framed build where
  step op _ := step_frame h op
  observed := Observer.ring_observe build s.ring
  closed := by
    rw [(close_tracks build h).1, h.ring]
    exact Account.storage_close a

end Session

/-! ## Rings one after another -/

theorem Geometry.extent_of_ofSizes {n s : UInt64} (h : ofSizes n s = .ok g) :
    g.extent = n.toNat / s.toNat * s.toNat := by
  rw [extent, toNat_slotCount, slotSize, storageLen_of_ofSizes h, itemSize_of_ofSizes h]

theorem Storage.length_congr {s t : Storage} (h : s.size = t.size) : s.length = t.length :=
  congrArg UInt64.ofNat h

namespace Transcript

open Session

variable {build : Build} {line : Padding.Line} {s : Session g} {a : Account g} {address : Nat}

theorem serve_behind (build : Build) (line : Padding.Line) (request : Request) (h : s.Tracks a)
    (ha : g.extent ≤ address) :
    (serve build line s request).1.ring.byte address = s.ring.byte address := by
  cases request with
  | act op =>
    rw [session_serve_act]
    exact step_behind build op h ha
  | sizes | describe _ _ => rfl

theorem tracks_follow (build : Build) (line : Padding.Line) (requests : List Request)
    (h : s.Tracks a) : ∃ b, (follow build line requests s).1.Tracks b := by
  induction requests generalizing s a with
  | nil => exact ⟨a, h⟩
  | cons request rest ih =>
    obtain ⟨b, hb⟩ := tracks_serve build line request h
    exact ih hb

theorem follow_behind (build : Build) (line : Padding.Line) (requests : List Request)
    (h : s.Tracks a) (ha : g.extent ≤ address) :
    (follow build line requests s).1.ring.byte address = s.ring.byte address := by
  induction requests generalizing s a with
  | nil => rfl
  | cons request rest ih =>
    obtain ⟨b, hb⟩ := tracks_serve build line request h
    calc (follow build line rest (serve build line s request).1).1.ring.byte address
        = (serve build line s request).1.ring.byte address := ih hb
      _ = s.ring.byte address := serve_behind build line request h ha

structure Kept (build : Build) (line : Padding.Line) (before : Storage) (r : Ring g) : Prop where
  constructed : r.storage = before
  parted : (split r).ring = r
  framed : ∀ requests, (follow build line requests (split r)).1.Framed build
  behind : ∀ requests address, g.extent ≤ address →
    (follow build line requests (split r)).1.ring.byte address = before.get address

theorem kept_of_construct {storage : Storage} {itemSize : UInt64} {r : Ring g} {e : Event}
    (build : Build) (h : Ring.construct line storage itemSize = (.ok ⟨g, r⟩, e)) :
    Kept build line storage r where
  constructed := (Ring.construct_ok h).1
  parted := rfl
  framed requests := by
    obtain ⟨b, hb⟩ := tracks_follow build line requests (tracks_construct build [] h).1
    exact framed_of_tracks build hb
  behind requests address ha := by
    rw [← (Ring.construct_ok h).1]
    exact follow_behind build line requests (tracks_construct build [] h).1 ha

structure Confined (build : Build) (plan : Plan) (before after : Storage) : Prop where
  rejected : ∀ reason e, Ring.construct plan.line before plan.itemSize = (.error reason, e) →
    after = before
  accepted : ∀ (g : Geometry) (r : Ring g) (e : Event),
    Ring.construct plan.line before plan.itemSize = (.ok ⟨g, r⟩, e) →
    Kept build plan.line before r ∧
      ∀ address, g.extent ≤ address → after.get address = before.get address

theorem runPlan_confined (build : Build) (plan : Plan) (before : Storage) :
    Confined build plan before (runPlan build plan before).1 where
  rejected reason e h := by
    rw [runPlan, h]
  accepted g r e h := by
    have hkept := kept_of_construct build h
    refine ⟨hkept, fun address ha => ?_⟩
    have hclosed := (hkept.framed plan.requests).closed
    rw [runPlan, h]
    calc ((follow build plan.line plan.requests (split r)).1.close build).1.storage.get address
        = (follow build plan.line plan.requests (split r)).1.ring.byte address := by
          rw [hclosed]
          rfl
      _ = before.get address := hkept.behind plan.requests address ha

theorem size_runPlan (build : Build) (plan : Plan) (before : Storage) :
    (runPlan build plan before).1.size = before.size := by
  have h := runPlan_confined build plan before
  rcases hc : Ring.construct plan.line before plan.itemSize with ⟨reason | ⟨g, r⟩, e⟩
  · rw [h.rejected reason e hc]
  · rw [runPlan, hc]
    exact (Ring.fits _).trans (r.fits.symm.trans (congrArg _ (h.accepted g r e hc).1.constructed))

def Spared (plans : List Plan) (storage : Storage) (address : Nat) : Prop :=
  ∀ plan ∈ plans, ∀ g, Geometry.ofSizes storage.length plan.itemSize = .ok g →
    g.extent ≤ address

theorem get_runPlans (build : Build) (plans : List Plan) {storage : Storage} {address : Nat}
    (h : Spared plans storage address) :
    (runPlans build plans storage).1.get address = storage.get address := by
  induction plans generalizing storage with
  | nil => rfl
  | cons plan plans ih =>
    have hplan : (runPlan build plan storage).1.get address = storage.get address := by
      have hconfined := runPlan_confined build plan storage
      rcases hc : Ring.construct plan.line storage plan.itemSize with ⟨reason | ⟨g, r⟩, e⟩
      · rw [hconfined.rejected reason e hc]
      · apply (hconfined.accepted g r e hc).2
        exact h plan List.mem_cons_self g (Ring.ofSizes_of_construct hc)
    have hrest : Spared plans (runPlan build plan storage).1 address := by
      intro later hlater g hg
      apply h later (List.mem_cons_of_mem _ hlater)
      rwa [← Storage.length_congr (size_runPlan build plan storage)]
    exact (ih hrest).trans hplan

theorem runPlans_append (build : Build) (plans later : List Plan) (storage : Storage) :
    (runPlans build (plans ++ later) storage).1 =
      (runPlans build later (runPlans build plans storage).1).1 := by
  induction plans generalizing storage with
  | nil => rfl
  | cons plan plans ih => exact ih _

/-- Each ring of a chain, cut and used in whatever way, leaves the bytes that it
may not change; so those behind its slots outlive it, and those behind the slots
of every ring outlive the chain. -/
theorem runPlans_framed (build : Build) (storage : Storage) :
    (∀ earlier plan, Confined build plan (runPlans build earlier storage).1
      (runPlans build (earlier ++ [plan]) storage).1) ∧
      ∀ plans address, Spared plans storage address →
        (runPlans build plans storage).1.get address = storage.get address := by
  constructor
  · intro earlier plan
    rw [runPlans_append]
    exact runPlan_confined build plan _
  · exact fun plans address => get_runPlans build plans

/-- Seven bytes cut into slots of two bytes, then refused as one slot of seven,
then cut into slots of three; a draft is published when its ring is dropped, and
a store of the last ring panics. -/
theorem runPlans_framed_three_plans :
    let first : Plan := ⟨2, .line64, [.act (.produce (.push [9])), .act (.produce .draft),
      .act (.produce (.fill 8)), .describe .draft false]⟩
    let second : Plan := ⟨7, .line64, [.act (.produce (.push [9]))]⟩
    let third : Plan := ⟨3, .line64, [.act (.produce .draft), .act (.produce (.store 2 [6, 6]))]⟩
    let storage : Storage := ⟨#[1, 2, 3, 4, 5, 6, 7], by decide⟩
    let before := (runPlans .release [first, second] storage).1
    let after := (runPlans .release [first, second, third] storage).1
    (∃ (g : Geometry) (r : Ring g) (e : Event),
      Ring.construct .line64 before 3 = (.ok ⟨g, r⟩, e) ∧ Kept .release .line64 before r) ∧
      before = (runPlans .release [first] storage).1 ∧ before.toList = [9, 2, 8, 8, 5, 6, 7] ∧
      after.toList = [9, 2, 6, 8, 5, 6, 7] ∧ after.get 6 = storage.get 6 := by
  intro first second third storage before after
  obtain ⟨hconfined, hspared⟩ := runPlans_framed .release storage
  refine ⟨?_, ?_, by decide +kernel, by decide +kernel, hspared _ 6 ?_⟩
  · have hok : (Ring.construct .line64 before 3).1.toOption.isSome = true := by decide +kernel
    rcases hc : Ring.construct .line64 before 3 with ⟨reason | ⟨g, r⟩, e⟩
    · rw [hc] at hok
      cases hok
    · exact ⟨g, r, e, rfl, ((hconfined [first, second] third).accepted g r e hc).1⟩
  · have hnone : (Ring.construct .line64 (runPlans .release [first] storage).1
        7).1.toOption.isSome = false := by decide +kernel
    rcases hc : Ring.construct .line64 (runPlans .release [first] storage).1 7
      with ⟨reason | ring, e⟩
    · exact (hconfined [first] second).rejected reason e hc
    · rw [hc] at hnone
      cases hnone
  · intro plan hplan g hg
    simp only [List.mem_cons, List.not_mem_nil, or_false] at hplan
    obtain rfl | rfl | rfl := hplan
    · rw [Geometry.extent_of_ofSizes hg]
      decide
    · cases hg
    · rw [Geometry.extent_of_ofSizes hg]
      decide

end Transcript

end SlotRing
