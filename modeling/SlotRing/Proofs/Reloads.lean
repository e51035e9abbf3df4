import SlotRing.Proofs.Attending
import SlotRing.Proofs.Refusals

/-!
# When a copy is renewed

A half loads the index of the other side only if its copy lets it go no further.
How far the copy lets it go follows from the copy and the half's own index
(`Session.credit`): for so many slots it goes on without that load, whatever the
other half does meanwhile. What it tries next renews the copy, and finds nothing
only if there is nothing to be found at that time (`run_reloads`).
-/

set_option autoImplicit false

namespace SlotRing

open Access

variable {g : Geometry}

/-! ## Loads of a program -/

namespace Access

variable {α β : Type} {build : Build} {p : Access α} {post : α → Prop}

def loads (build : Build) : Access α → Ring g → List Side
  | .done _, _ => []
  | .loadIndex o k, r => o :: (k (r.index o)).loads build r
  | .storeIndex o i k, r => (k ()).loads build (r.setIndex o i)
  | .loadByte a k, r => (k (r.byte a)).loads build r
  | .storeByte a b k, r => (k ()).loads build (r.setByte a b)
  | .log _ k, r => (k ()).loads build r
  | .require holds _ k, r => if passes build holds then (k ()).loads build r else []

theorem loads_bind {f : α → Access β} {r : Ring g} {a : α}
    (h : (p.run build r).result = .ok a) :
    (p >>= f).loads build r = p.loads build r ++ (f a).loads build (p.run build r).ring := by
  induction p generalizing r with
  | done _ =>
    cases h
    rfl
  | loadIndex o k ih => exact congrArg (o :: ·) (ih _ h)
  | storeIndex _ _ _ ih | loadByte _ _ ih | storeByte _ _ _ ih | log _ _ ih => exact ih _ h
  | require holds fault k ih =>
    by_cases hp : passes build holds
    · rw [run, if_pos hp] at h ⊢
      simpa only [Bind.bind, Access.bind, loads, if_pos hp] using ih () h
    · rw [run, if_neg hp] at h
      cases h

theorem loads_bind_silent {f : α → Access β} {r r' : Ring g} {a : α}
    (h : p.run build r = ⟨r', [], .ok a⟩) :
    (p >>= f).loads build r = p.loads build r ++ (f a).loads build r' := by
  rw [loads_bind (congrArg Outcome.result h), h]

def Blind (post : α → Prop) : Access α → Prop
  | .done a => post a
  | .loadIndex _ _ => False
  | .loadByte _ k => ∀ b, Blind post (k b)
  | .storeIndex _ _ k | .storeByte _ _ k | .log _ k | .require _ _ k => Blind post (k ())

theorem blind_bind {f : α → Access β} {post' : β → Prop} (h : p.Blind post)
    (hf : ∀ a, post a → (f a).Blind post') : (p >>= f).Blind post' := by
  induction p with
  | done a => exact hf a h
  | loadIndex _ _ _ => exact h.elim
  | loadByte _ _ ih => exact fun b => ih b (h b)
  | storeIndex _ _ _ ih | storeByte _ _ _ ih | log _ _ ih | require _ _ _ ih => exact ih () h

theorem blind_run (h : p.Blind post) (r : Ring g) :
    p.loads build r = [] ∧ ∀ a, (p.run build r).result = .ok a → post a := by
  induction p generalizing r with
  | done a => exact ⟨rfl, fun _ ha => Except.ok.inj ha ▸ h⟩
  | loadIndex _ _ _ => exact h.elim
  | loadByte _ _ ih => exact ih _ (h _) r
  | storeIndex _ _ _ ih | storeByte _ _ _ ih | log _ _ ih => exact ih () h _
  | require holds fault k ih =>
    by_cases hp : passes build holds
    · rw [loads, run, if_pos hp, if_pos hp]
      exact ih () h r
    · rw [loads, run, if_neg hp, if_neg hp]
      refine ⟨rfl, fun a ha => ?_⟩
      cases ha

theorem loads_bind_blind {f : α → Access β} {r r' : Ring g} {a : α} (hb : p.Blind post)
    (h : p.run build r = ⟨r', [], .ok a⟩) : (p >>= f).loads build r = (f a).loads build r' := by
  rw [loads_bind_silent h, (blind_run hb r).1, List.nil_append]

theorem blind_demand (holds : Bool) (fault : Fault) :
    (demand holds fault).Blind fun _ => True := trivial

theorem blind_advance (index : UInt64) : (g.advance index).Blind fun _ => True := trivial

theorem blind_loadBytesOnto (start count : Nat) (seen : List UInt8) :
    (loadBytesOnto start count seen).Blind fun _ => True := by
  induction count generalizing start seen with
  | zero => trivial
  | succ count ih => exact fun b => ih _ _

theorem blind_storeBytes (start : Nat) (bytes : List UInt8) :
    (storeBytes start bytes).Blind fun _ => True := by
  induction bytes generalizing start with
  | nil => trivial
  | cons b rest ih => exact ih _

theorem blind_loadFront (index : UInt64) (count : Nat) :
    (g.loadFront index count).Blind fun _ => True :=
  blind_loadBytesOnto _ _ _

theorem blind_loadSlot (index : UInt64) : (g.loadSlot index).Blind fun _ => True :=
  blind_loadFront _ _

theorem blind_storeFront (index : UInt64) (item : List UInt8) :
    (g.storeFront index item).Blind fun _ => True :=
  blind_storeBytes _ _

theorem blind_storeWithin (index : UInt64) (position : Nat) (bytes : List UInt8) :
    (g.storeWithin index position bytes).Blind fun _ => True := by
  show Blind _ (storeBytes _ _ >>= fun _ => pure _)
  exact blind_bind (blind_storeBytes _ _) fun _ _ => trivial

end Access

/-! ## The producer -/

namespace Producer

variable {build : Build} {p : Producer} {b : Ledger g} {op : Op}

def Seeks (g : Geometry) (p : Producer) : Op → Prop
  | .push item => p.draft = none ∧ item.length ≤ g.slotSize
  | .draft => p.draft = none
  | .contents | .store .. | .fill _ | .overwrite _ | .finish _ => False

instance (g : Geometry) (p : Producer) : (op : Op) → Decidable (p.Seeks g op)
  | .push item => inferInstanceAs (Decidable (p.draft = none ∧ item.length ≤ g.slotSize))
  | .draft => inferInstanceAs (Decidable (p.draft = none))
  | .contents | .store .. | .fill _ | .overwrite _ | .finish _ => inferInstanceAs (Decidable False)

def Same {A : Type} (p : Producer) (found : Producer × A) : Prop :=
  found.1.cachedRead = p.cachedRead

theorem blind_finish (how : Draft.Ending) :
    (p.finish how).Blind fun q => q.cachedRead = p.cachedRead := by
  rw [finish]
  cases p.draft with
  | none => rfl
  | some d => cases how <;> rfl

theorem blind_settle (d : Draft) (stored : Bool) : (p.settle g d stored).Blind p.Same := by
  cases stored with
  | true => exact blind_bind (blind_loadSlot _) fun _ _ => rfl
  | false => exact blind_bind (blind_finish .unwind) fun _ h => h

theorem blind_performHolding (d : Draft) (op : Op) : (p.performHolding g d op).Blind p.Same := by
  cases op with
  | push _ | draft => rfl
  | contents => exact blind_bind (blind_loadSlot _) fun _ _ => rfl
  | store _ _ => exact blind_bind (blind_storeWithin _ _ _) fun stored _ => blind_settle d stored
  | fill _ => exact blind_bind (blind_storeFront _ _) fun _ _ => blind_settle d true
  | overwrite bytes =>
    rw [performHolding]
    split
    · exact blind_bind (blind_storeFront _ _) fun _ _ => blind_settle d true
    · exact blind_settle d false
  | finish how => exact blind_bind (blind_finish how) fun _ h => h

theorem blind_of_not_seeks (h : ¬ p.Seeks g op) : (p.perform g op).Blind p.Same := by
  rw [perform]
  cases hd : p.draft with
  | some d => exact blind_performHolding d op
  | none =>
    cases op with
    | push item =>
      have hl : g.slotSize < item.length := Nat.lt_of_not_le fun hl => h ⟨hd, hl⟩
      simp only [performFree, push, if_pos hl]
      rfl
    | draft => exact absurd hd h
    | contents | store _ _ | fill _ | overwrite _ | finish _ => rfl

theorem cachedRead_after {result : Except Fault (Producer × Answer)}
    (h : ∀ found, result = .ok found → p.Same found) :
    (p.after result).cachedRead = p.cachedRead := by
  cases result with
  | error _ => rfl
  | ok found => exact h found rfl

theorem excess_of_seeks (h : p.Seeks g op) : p.excess g op = none := by
  cases op with
  | push item => exact if_neg fun hl => Nat.not_lt.mpr h.2 hl.2
  | draft | contents | store _ _ | fill _ | overwrite _ | finish _ => rfl

def looks (g : Geometry) (p : Producer) (r : Ring g) : List Side :=
  if g.next r.writeIndex = p.cachedRead then [.producer, .consumer] else [.producer]

theorem mem_looks_iff {r : Ring g} :
    .consumer ∈ p.looks g r ↔ g.next r.writeIndex = p.cachedRead := by
  rw [looks]
  split <;> simp [*]

theorem loads_claim (build : Build) (p : Producer) (b : Ledger g) :
    (p.claim g).loads build b.ring = p.looks g b.ring := by
  have hnext : g.next b.ring.writeIndex = g.place (b.published + 1) := g.next_place _
  rw [claim, loads_bind_silent rfl, Ledger.index_ring, Ledger.counter,
    loads_bind_blind (blind_advance _) (run_advance build _ _), looks, hnext]
  split
  · rfl
  · rfl

theorem renews_claim {A : Type} {f : Producer × Option Draft → Access (Producer × A)}
    (hv : b.Valid) (hp : p.Tracks b) (hf : ∀ q d, (f (q, d)).Blind q.Same) :
    (p.claim g >>= f).loads build b.ring = p.looks g b.ring ∧
      ∀ found, ((p.claim g >>= f).run build b.ring).result = .ok found →
        found.1.cachedRead = p.renewed b.ring := by
  have hclaim := p.run_claim build hv hp
  obtain ⟨hnone, hsame⟩ := @blind_run g _ build _ _ (hf _ _) b.ring
  rw [loads_bind_silent hclaim, loads_claim, run_bind_silent hclaim, hnone, List.append_nil]
  exact ⟨rfl, hsame⟩

theorem renews_of_seeks (hv : b.Valid) (hp : p.Tracks b) (h : p.Seeks g op) :
    (p.perform g op).loads build b.ring = p.looks g b.ring ∧
      ∀ found, ((p.perform g op).run build b.ring).result = .ok found →
        found.1.cachedRead = p.renewed b.ring := by
  cases op with
  | push item =>
    obtain ⟨hd, hl⟩ := h
    have hdemand : (demand (item.length ≤ g.slotSize)
        (.oversizedItem item.length g.slotSize)).run build b.ring = ⟨b.ring, [], .ok ()⟩ := by
      cases build <;> simp [demand, run, passes, hl]
    simp only [perform, hd, performFree, push, LawfulMonad.bind_assoc,
      if_neg (Nat.not_lt.mpr hl)]
    rw [loads_bind_blind (blind_demand _ _) hdemand, run_bind_silent hdemand]
    apply renews_claim hv hp
    rintro q (_ | d)
    · rfl
    · show Blind _ ((g.storeFront _ _ >>= _) >>= _)
      rw [LawfulMonad.bind_assoc]
      exact blind_bind (blind_storeFront _ _) fun _ _ => rfl
  | draft =>
    have hd : p.draft = none := h
    simp only [perform, hd, performFree]
    apply renews_claim hv hp
    rintro q (_ | d)
    · rfl
    · exact blind_bind (blind_loadSlot _) fun _ _ => rfl
  | contents | store _ _ | fill _ | overwrite _ | finish _ => exact h.elim

end Producer

/-! ## The consumer -/

namespace Consumer

variable {build : Build} {c : Consumer} {b : Ledger g} {op : Op}

def Seeks (c : Consumer) : Op → Prop
  | .pop _ | .borrow => c.loan = none
  | .contents | .byteAt _ | .finish _ => False

instance (c : Consumer) : (op : Op) → Decidable (c.Seeks op)
  | .pop _ | .borrow => inferInstanceAs (Decidable (c.loan = none))
  | .contents | .byteAt _ | .finish _ => inferInstanceAs (Decidable False)

def Same {A : Type} (c : Consumer) (found : Consumer × A) : Prop :=
  found.1.cachedWrite = c.cachedWrite

theorem blind_finish (how : Loan.Ending) :
    (c.finish g how).Blind fun d => d.cachedWrite = c.cachedWrite := by
  rw [finish]
  cases c.loan with
  | none => rfl
  | some l => cases how <;> rfl

theorem blind_performHolding (l : Loan) (op : Op) : (c.performHolding g l op).Blind c.Same := by
  cases op with
  | pop _ | borrow => rfl
  | contents => exact blind_bind (blind_loadSlot _) fun _ _ => rfl
  | byteAt position =>
    rw [performHolding]
    split
    · exact fun _ => rfl
    · exact blind_bind (blind_finish .unwind) fun _ h => h
  | finish how => exact blind_bind (blind_finish how) fun _ h => h

theorem blind_of_not_seeks (h : ¬ c.Seeks op) : (c.perform g op).Blind c.Same := by
  rw [perform]
  cases hl : c.loan with
  | some l => exact blind_performHolding l op
  | none =>
    cases op with
    | pop _ | borrow => exact absurd hl h
    | contents | byteAt _ | finish _ => rfl

theorem cachedWrite_after {result : Except Fault (Consumer × Answer)}
    (h : ∀ found, result = .ok found → c.Same found) :
    (c.after result).cachedWrite = c.cachedWrite := by
  cases result with
  | error _ => rfl
  | ok found => exact h found rfl

def looks (c : Consumer) (r : Ring g) : List Side :=
  if r.readIndex = c.cachedWrite then [.consumer, .producer] else [.consumer]

theorem mem_looks_iff {r : Ring g} : .producer ∈ c.looks r ↔ r.readIndex = c.cachedWrite := by
  rw [looks]
  split <;> simp [*]

theorem loads_locate (build : Build) (c : Consumer) (r : Ring g) :
    c.locate.loads build r = c.looks r := by
  show loads build (load .consumer >>= _) r = _
  rw [loads_bind_silent rfl, looks]
  show _ ++ loads build (ite (r.readIndex = c.cachedWrite) _ _) r = _
  split
  · rfl
  · rfl

theorem renews_locate {A : Type} {f : Consumer × Option Loan → Access (Consumer × A)}
    (hv : b.Valid) (hc : c.Tracks b) (hf : ∀ d l, (f (d, l)).Blind d.Same) :
    (c.locate >>= f).loads build b.ring = c.looks b.ring ∧
      ∀ found, ((c.locate >>= f).run build b.ring).result = .ok found →
        found.1.cachedWrite = c.renewed b.ring := by
  have hlocate := c.run_locate build hv hc
  obtain ⟨hnone, hsame⟩ := @blind_run g _ build _ _ (hf _ _) b.ring
  rw [loads_bind_silent hlocate, loads_locate, run_bind_silent hlocate, hnone, List.append_nil]
  exact ⟨rfl, hsame⟩

theorem renews_of_seeks (hv : b.Valid) (hc : c.Tracks b) (h : c.Seeks op) :
    (c.perform g op).loads build b.ring = c.looks b.ring ∧
      ∀ found, ((c.perform g op).run build b.ring).result = .ok found →
        found.1.cachedWrite = c.renewed b.ring := by
  cases op with
  | pop dest =>
    have hl : c.loan = none := h
    simp only [perform, hl, performFree, take, LawfulMonad.bind_assoc]
    apply renews_locate hv hc
    rintro d (_ | l)
    · rfl
    · show Blind _ ((g.loadFront _ _ >>= _) >>= _)
      rw [LawfulMonad.bind_assoc]
      exact blind_bind (blind_loadFront _ _) fun _ _ => rfl
  | borrow =>
    have hl : c.loan = none := h
    simp only [perform, hl, performFree]
    apply renews_locate hv hc
    rintro d (_ | l)
    · rfl
    · exact blind_bind (blind_loadSlot _) fun _ _ => rfl
  | contents | byteAt _ | finish _ => exact h.elim

end Consumer

/-! ## How far a copy lets its half go -/

def Geometry.reach (g : Geometry) : Side → Nat → Nat
  | .producer, c => c + (g.slots - 1)
  | .consumer, c => c

theorem Ledger.limit_eq (b : Ledger g) (side : Side) :
    b.limit side = g.reach side (b.counter side.other) := by
  cases side <;> rfl

/-- The half has nothing to go on with: the ring is full for the producer, and
empty for the consumer. -/
def Ring.Exhausted (r : Ring g) : Side → Prop
  | .producer => r.length = g.capacity.toNat
  | .consumer => r.length = 0

namespace Session

variable {build : Build} {s : Session g} {a : Account g} {side : Side} {op : Op}

/-- How many slots are left to a half until its copy shows no more. -/
def credit (s : Session g) : Side → Nat
  | .producer => (s.producer.cachedRead.toNat + g.slotCount.toNat -
      (s.ring.writeIndex.toNat + 1)) % g.slotCount.toNat
  | .consumer => (s.consumer.cachedWrite.toNat + g.slotCount.toNat -
      s.ring.readIndex.toNat) % g.slotCount.toNat

/-- The copy of a half is the place of the counter `seen`, and its credit is what that
counter leaves it. -/
structure Gauges (s : Session g) (b : Ledger g) (side : Side) (seen : Nat) : Prop where
  copy : s.copy side = g.place seen
  le : seen ≤ b.counter side.other
  reach : b.counter side + s.credit side = g.reach side seen

theorem exists_gauges (h : s.Tracks a) (side : Side) : ∃ seen, s.Gauges a.ledger side seen := by
  have hn := g.two_le_slots
  have hslots : g.slotCount.toNat = g.slots := rfl
  cases side with
  | producer =>
    obtain ⟨seen, hs⟩ := h.producer
    have hle := hs.le_freed
    have hlt := hs.published_lt
    have hv := h.valid.freed_le
    refine ⟨seen, hs.cachedRead, hle, ?_⟩
    have hcredit : s.credit .producer = seen + g.slots - (a.ledger.published + 1) := by
      rw [credit, h.ring, hs.cachedRead, g.place_toNat, hslots]
      show (_ + _ - ((g.place a.ledger.published).toNat + 1)) % _ = _
      rw [g.place_toNat]
      exact Geometry.mod_sub_succ_window (by omega) hlt
    rw [hcredit]
    show a.ledger.published + _ = seen + (g.slots - 1)
    omega
  | consumer =>
    obtain ⟨seen, hs⟩ := h.consumer
    have hle := hs.freed_le
    have hlt := h.valid.published_lt
    have hp := hs.le_published
    refine ⟨seen, hs.cachedWrite, hp, ?_⟩
    have hcredit : s.credit .consumer = seen - a.ledger.freed := by
      rw [credit, h.ring, hs.cachedWrite, g.place_toNat, hslots]
      show (_ + _ - (g.place a.ledger.freed).toNat) % _ = _
      rw [g.place_toNat]
      exact Geometry.mod_sub_window hle (by omega)
    rw [hcredit]
    show a.ledger.freed + _ = seen
    omega

theorem ready_of_credit (h : s.Tracks a) (hpos : 0 < s.credit side) : a.ledger.Ready side := by
  obtain ⟨seen, hs⟩ := exists_gauges h side
  have hle := hs.le
  have hreach := hs.reach
  rw [Ledger.ready_iff, Ledger.limit_eq]
  cases side <;> simp only [Geometry.reach] at hreach ⊢ <;> omega

/-! ## One operation -/

def Seeks (s : Session g) : Side → Op → Prop
  | .producer, .produce op => s.producer.Seeks g op
  | .consumer, .consume op => s.consumer.Seeks op
  | _, _ => False

instance (s : Session g) : (side : Side) → (op : Op) → Decidable (s.Seeks side op)
  | .producer, .produce op => inferInstanceAs (Decidable (s.producer.Seeks g op))
  | .consumer, .consume op => inferInstanceAs (Decidable (s.consumer.Seeks op))
  | .producer, .consume _ | .producer, .resplit | .consumer, .produce _ | .consumer, .resplit =>
    inferInstanceAs (Decidable False)

def Reloads (build : Build) (s : Session g) : Side → Op → Prop
  | .producer, .produce op => .consumer ∈ (s.producer.perform g op).loads build s.ring
  | .consumer, .consume op => .producer ∈ (s.consumer.perform g op).loads build s.ring
  | _, _ => False

theorem side_of_seeks (h : s.Seeks side op) : op.side? = some side := by
  cases side <;> cases op <;> first | rfl | exact h.elim

theorem moves_step (build : Build) (h : s.Tracks a) (hop : op.side? = some side) :
    Ledger.Moves side a.ledger (a.step build op).account.ledger := by
  obtain ⟨ring, p, c⟩ := s
  obtain ⟨-, hv, hp, hc, hd, hl⟩ := h
  cases op with
  | produce op =>
    cases hop
    obtain ⟨b, hm, -, -, hdeed⟩ :=
      safe_run (@Producer.safe_perform g build p a.ledger op hv hp) hv
    have hback : ({ a.ledger with freed := b.freed } : Ledger g) = a.ledger := by rw [hm.2.1]
    rw [hback, ← hd] at hdeed
    rwa [Account.step, hdeed]
  | consume op =>
    cases hop
    obtain ⟨b, hm, -, -, hdeed⟩ :=
      safe_run (@Consumer.safe_perform g build c a.ledger op hv hc) hv
    have hback : ({ b with freed := a.ledger.freed } : Ledger g) = a.ledger :=
      Ledger.ext hm.2.1 hm.2.2.1 rfl
    rw [hback, ← hl] at hdeed
    rwa [Account.step, hdeed]
  | resplit => cases hop

/-- A half that does not seek loads no index of the other one, and keeps its copy. -/
theorem copy_of_not_seeks (build : Build) (hop : op ≠ .resplit) (h : ¬ s.Seeks side op) :
    ¬ s.Reloads build side op ∧ (s.step build op).session.copy side = s.copy side := by
  cases op with
  | produce op =>
    cases side with
    | producer =>
      obtain ⟨hnone, hsame⟩ := @blind_run g _ build _ _ (Producer.blind_of_not_seeks h) s.ring
      rw [Reloads, hnone, step_produce]
      exact ⟨nofun, Producer.cachedRead_after hsame⟩
    | consumer => exact ⟨id, congrArg Consumer.cachedWrite (consumer_step_produce op)⟩
  | consume op =>
    cases side with
    | producer => exact ⟨id, congrArg Producer.cachedRead (producer_step_consume op)⟩
    | consumer =>
      obtain ⟨hnone, hsame⟩ :=
        @blind_run g _ build _ _ (@Consumer.blind_of_not_seeks g _ _ h) s.ring
      rw [Reloads, hnone, step_consume]
      exact ⟨nofun, Consumer.cachedWrite_after hsame⟩
  | resplit => exact absurd rfl hop

def renewed (s : Session g) (side : Side) : UInt64 :=
  if s.credit side = 0 then s.ring.index side.other else s.copy side

theorem next_eq_cachedRead_iff (h : s.Tracks a) :
    g.next s.ring.writeIndex = s.producer.cachedRead ↔ s.credit .producer = 0 := by
  obtain ⟨seen, hcopy, hle, hreach⟩ := exists_gauges h .producer
  have hn := g.two_le_slots
  have hf := h.valid.freed_le
  change s.producer.cachedRead = _ at hcopy
  change seen ≤ a.ledger.freed at hle
  change a.ledger.published + _ = seen + (g.slots - 1) at hreach
  rw [hcopy, h.ring]
  show g.next (g.place a.ledger.published) = _ ↔ _
  rw [g.next_place, g.place_succ_eq_iff (by omega) (by omega)]
  omega

theorem readIndex_eq_cachedWrite_iff (h : s.Tracks a) :
    s.ring.readIndex = s.consumer.cachedWrite ↔ s.credit .consumer = 0 := by
  obtain ⟨seen, hcopy, hle, hreach⟩ := exists_gauges h .consumer
  have hlt := h.valid.published_lt
  change s.consumer.cachedWrite = _ at hcopy
  change seen ≤ a.ledger.published at hle
  change a.ledger.freed + _ = seen at hreach
  rw [hcopy, h.ring]
  show g.place a.ledger.freed = _ ↔ _
  rw [g.place_inj (by omega) (by omega)]
  omega

/-- A half that seeks renews its copy if that shows no more. -/
theorem copy_of_seeks (build : Build) (h : s.Tracks a) (hseeks : s.Seeks side op) :
    (s.Reloads build side op ↔ s.credit side = 0) ∧
      (s.step build op).session.copy side = s.renewed side := by
  have hbelow := below_of_tracks h
  cases side with
  | producer =>
    cases op with
    | produce op =>
      have hspent := next_eq_cachedRead_iff h
      obtain ⟨hloads, hrenewed⟩ := @Producer.renews_of_seeks g build _ _ _ h.valid h.producer hseeks
      -- No check fails, so there is a half with a renewed copy.
      obtain ⟨-, -, found, hresult, -⟩ := @bounded_run _ g build _ _ _
        (Producer.bounded_perform (Producer.excess_of_seeks hseeks) hbelow.producer) hbelow.ring
      rw [← h.ring] at hloads hrenewed
      rw [Reloads, hloads, step_produce]
      constructor
      · exact Producer.mem_looks_iff.trans hspent
      · show (s.producer.after _).cachedRead = _
        rw [hresult]
        show found.1.cachedRead = _
        rw [hrenewed found hresult, Producer.renewed, renewed]
        simp only [hspent]
        rfl
    | consume op | resplit => exact hseeks.elim
  | consumer =>
    cases op with
    | consume op =>
      have hspent := readIndex_eq_cachedWrite_iff h
      obtain ⟨hloads, hrenewed⟩ := @Consumer.renews_of_seeks g build _ _ _ h.valid h.consumer hseeks
      obtain ⟨-, -, found, hresult, -⟩ := @bounded_run _ g build _ _ _
        (@Consumer.bounded_perform g _ op hbelow.consumer) hbelow.ring
      rw [← h.ring] at hloads hrenewed
      rw [Reloads, hloads, step_consume]
      constructor
      · exact Consumer.mem_looks_iff.trans hspent
      · show (s.consumer.after _).cachedWrite = _
        rw [hresult]
        show found.1.cachedWrite = _
        rw [hrenewed found hresult, Consumer.renewed, renewed]
        simp only [hspent]
        rfl
    | produce op | resplit => exact hseeks.elim

def Answer.finds : Answer → Bool
  | .produced .pushed | .produced (.drafted ..) => true
  | .consumed (.popped (some _) _) | .consumed (.lent ..) => true
  | _ => false

theorem exhausted_iff (h : s.Tracks a) (side : Side) :
    s.ring.Exhausted side ↔ ¬ a.ledger.Ready side := by
  have hle := h.valid.freed_le
  have hlt := h.valid.published_lt
  have hn := g.two_le_slots
  rw [h.ring]
  cases side with
  | producer =>
    rw [Ring.Exhausted, Ring.length_ledger h.valid, g.toNat_capacity, Ledger.Ready]
    omega
  | consumer =>
    rw [Ring.Exhausted, Ring.length_ledger h.valid, Ledger.Ready]
    omega

theorem answer_of_seeks (build : Build) (h : s.Tracks a) (hseeks : s.Seeks side op) :
    ((s.step build op).answer.isWant = true ↔ ¬ a.ledger.Ready side) ∧
      ((s.step build op).answer.finds = true ↔ a.ledger.Ready side) := by
  rw [(tracks_step build op h).2.2]
  have hdrafting := h.drafting
  have hlending := h.lending
  have hle := h.valid.freed_le
  have hlt := h.valid.published_lt
  obtain ⟨b, drafting, lending⟩ := a
  cases side with
  | producer =>
    cases op with
    | produce op =>
      have hready : b.Ready .producer ↔ ¬ b.Full := by
        simp only [Ledger.Ready, Ledger.Full] at hlt ⊢
        omega
      rw [hready]
      cases op with
      | push item =>
        obtain rfl : drafting = false := hdrafting.trans (Producer.held_of_none hseeks.1)
        have hl := Nat.not_lt.mpr hseeks.2
        by_cases hf : b.Full <;>
          simp [Account.step, Ledger.produce, Ledger.produceFree, hl, hf, Account.produced,
            Answer.isWant, Answer.finds]
      | draft =>
        obtain rfl : drafting = false := hdrafting.trans (Producer.held_of_none hseeks)
        by_cases hf : b.Full <;>
          simp [Account.step, Ledger.produce, Ledger.produceFree, hf, Account.produced,
            Answer.isWant, Answer.finds]
      | contents | store _ _ | fill _ | overwrite _ | finish _ => exact hseeks.elim
    | consume op | resplit => exact hseeks.elim
  | consumer =>
    cases op with
    | consume op =>
      have hready : b.Ready .consumer ↔ ¬ b.Empty := by
        simp only [Ledger.Ready, Ledger.Empty] at hle ⊢
        omega
      rw [hready]
      cases op with
      | pop _ | borrow =>
        obtain rfl : lending = false := hlending.trans (Consumer.held_of_none hseeks)
        by_cases he : b.Empty <;>
          simp [Account.step, Ledger.consume, Ledger.consumeFree, he, Account.consumed,
            Answer.isWant, Answer.finds]
      | contents | byteAt _ | finish _ => exact hseeks.elim
    | produce op | resplit => exact hseeks.elim

/-! ## Many operations -/

def moved : Side → List (Answer × List Event) → Nat
  | .producer => published
  | .consumer => freed

def movedBy : Side → Answer × List Event → Nat
  | .producer => publishedBy
  | .consumer => freedBy

theorem moved_cons (side : Side) (done : Answer × List Event)
    (rest : List (Answer × List Event)) :
    moved side (done :: rest) = movedBy side done + moved side rest := by
  cases side <;> rfl

theorem counter_step (build : Build) (op : Op) (h : s.Tracks a) (side : Side) :
    (a.step build op).account.ledger.counter side = a.ledger.counter side +
      movedBy side ((s.step build op).answer, (s.step build op).events) := by
  obtain ⟨-, hevents, hanswer⟩ := tracks_step build op h
  obtain ⟨hpublished, hfreed⟩ := Account.step_counts build op a
  rw [hevents, hanswer]
  cases side with
  | producer => exact hpublished
  | consumer => exact hfreed

/-- While its copy stays, a half uses its credit up slot by slot. -/
theorem credit_step (build : Build) (h : s.Tracks a) (hop : op ≠ .resplit)
    (hcopy : (s.step build op).session.copy side = s.copy side) :
    movedBy side ((s.step build op).answer, (s.step build op).events) +
      (s.step build op).session.credit side = s.credit side := by
  obtain ⟨turn, hturn⟩ : ∃ turn, op.side? = some turn := by
    cases op with
    | produce _ | consume _ => exact ⟨_, rfl⟩
    | resplit => exact absurd rfl hop
  have ht := (tracks_step build op h).1
  have hcount := counter_step build op h side
  have hfixed := Ledger.counter_fixed (moves_step build h hturn)
  obtain ⟨seen, hseen, hle, hreach⟩ := exists_gauges h side
  obtain ⟨seen', hseen', hle', hreach'⟩ := exists_gauges ht side
  have hplace : g.place seen = g.place seen' := hseen.symm.trans (hcopy.symm.trans hseen')
  -- Both counters belong to one round, since only one side moved.
  have hsame : seen = seen' := by
    have hn := g.two_le_slots
    have hf := h.valid.freed_le
    have hp := h.valid.published_lt
    have hf' := ht.valid.freed_le
    have hp' := ht.valid.published_lt
    have hround : seen < seen' + g.slots ∧ seen' < seen + g.slots := by
      cases side <;> cases turn <;>
        simp only [Ledger.counter, Side.other, Geometry.reach] at hfixed hle hle' hreach hreach' <;>
        omega
    rcases Nat.le_total seen seen' with hl | hl
    · exact (g.place_inj hl hround.2).mp hplace
    · exact ((g.place_inj hl hround.1).mp hplace.symm).symm
  rw [← hsame] at hreach'
  omega

structure Paced (build : Build) (s : Session g) (side : Side) (left : Nat) (op : Op) : Prop where
  idle : ¬ s.Seeks side op → ¬ s.Reloads build side op ∧
    (s.step build op).session.copy side = s.copy side
  going : s.Seeks side op → 0 < left → ¬ s.Reloads build side op ∧
    (s.step build op).session.copy side = s.copy side ∧ (s.step build op).answer.finds = true
  spent : s.Seeks side op → left = 0 → s.Reloads build side op ∧
    (s.step build op).session.copy side = s.ring.index side.other ∧
    ((s.step build op).answer.isWant = true ↔ s.ring.Exhausted side) ∧
    ((s.step build op).answer.finds = true ↔ ¬ s.ring.Exhausted side)

theorem paced_of_tracks (build : Build) (h : s.Tracks a) (side : Side) (hop : op ≠ .resplit) :
    s.Paced build side (s.credit side) op where
  idle := copy_of_not_seeks build hop
  going hseeks hpos := by
    obtain ⟨hreloads, hcopy⟩ := copy_of_seeks build h hseeks
    have hne := Nat.ne_of_gt hpos
    rw [renewed, if_neg hne] at hcopy
    refine ⟨mt hreloads.mp hne, hcopy, ?_⟩
    exact (answer_of_seeks build h hseeks).2.mpr (ready_of_credit h hpos)
  spent hseeks hzero := by
    obtain ⟨hreloads, hcopy⟩ := copy_of_seeks build h hseeks
    obtain ⟨hwant, hfinds⟩ := answer_of_seeks build h hseeks
    have hexhausted := exhausted_iff h side
    rw [renewed, if_pos hzero] at hcopy
    refine ⟨hreloads.mpr hzero, hcopy, hwant.trans hexhausted.symm, ?_⟩
    rw [hfinds, hexhausted, Classical.not_not]

/-- A half that never seeks beyond its credit keeps its copy and uses the credit up. -/
theorem credit_run (build : Build) (side : Side) (rest : List Op) (h : s.Tracks a)
    (hrest : .resplit ∉ rest)
    (hseeks : ∀ i, (hi : i < rest.length) → (run build (rest.take i) s).1.Seeks side rest[i] →
      moved side (run build (rest.take i) s).2 < s.credit side) :
    moved side (run build rest s).2 + (run build rest s).1.credit side = s.credit side ∧
      (run build rest s).1.copy side = s.copy side := by
  induction rest generalizing s a with
  | nil => cases side <;> exact ⟨Nat.zero_add _, rfl⟩
  | cons op rest ih =>
    obtain ⟨hop, hrest⟩ := not_or.mp (mt List.mem_cons.mpr hrest)
    have hpaced := paced_of_tracks build h side (Ne.symm hop)
    have hcopy : (s.step build op).session.copy side = s.copy side := by
      by_cases hs : s.Seeks side op
      · exact (hpaced.going hs (Nat.lt_of_le_of_lt (Nat.zero_le _) (hseeks 0 (by simp) hs))).2.1
      · exact (hpaced.idle hs).2
    have hcredit := credit_step build h (Ne.symm hop) hcopy
    have hstep : ∀ ops, moved side (run build (op :: ops) s).2 =
        movedBy side ((s.step build op).answer, (s.step build op).events) +
          moved side (run build ops (s.step build op).session).2 := fun ops => moved_cons side _ _
    obtain ⟨hmoved, hsame⟩ := ih (tracks_step build op h).1 hrest fun i hi hs => by
      have hlt := hseeks (i + 1) (by simpa using hi) hs
      rw [List.take_succ_cons, hstep] at hlt
      omega
    rw [hstep]
    refine ⟨?_, hsame.trans hcopy⟩
    show _ + (run build rest (s.step build op).session).1.credit side = _
    omega

/-- The copy of a half tells for how many slots it goes on without loading the
other index, whatever the other half does. Only then, and with the first
operation that looks for a slot, it loads the index, and that operation is
refused exactly if there is no slot at that time. -/
theorem run_reloads {line : Padding.Line} {storage : Storage} {itemSize : UInt64} {r : Ring g}
    {e : Event} (h : Ring.construct line storage itemSize = (.ok ⟨g, r⟩, e)) (build : Build)
    (ops rest : List Op) (side : Side) :
    let s := (run build ops (split r)).1
    let done := run build rest s
    .resplit ∉ rest →
      (∀ i, (hi : i < rest.length) → (run build (rest.take i) s).1.Seeks side rest[i] →
        moved side (run build (rest.take i) s).2 < s.credit side) →
      moved side done.2 ≤ s.credit side ∧ done.1.copy side = s.copy side ∧
        ∀ op, op ≠ .resplit → done.1.Paced build side (s.credit side - moved side done.2) op := by
  intro s done hrest hseeks
  have ht := (tracks_construct build ops h).1
  obtain ⟨hmoved, hcopy⟩ := credit_run build side rest ht hrest hseeks
  have hleft : s.credit side - moved side done.2 = done.1.credit side := Nat.sub_eq_of_eq_add
    (hmoved.symm.trans (Nat.add_comm _ _))
  refine ⟨Nat.le.intro hmoved, hcopy, fun op hop => ?_⟩
  rw [hleft]
  exact paced_of_tracks build (tracks_run build rest ht).1 side hop

/-- Three slots of two bytes. The copy of the producer leaves it one slot, for
which it does not notice what is popped; the next draft loads the read index. -/
theorem run_reloads_three_slots :
    ∃ (g : Geometry) (r : Ring g) (e : Event),
      Ring.construct .line64 ⟨#[1, 2, 3, 4, 5, 6, 7], by decide⟩ 2 = (.ok ⟨g, r⟩, e) ∧
      let rest := [.produce .draft, .consume (.pop [0]), .produce (.finish .discard),
        .produce (.push [8, 8, 8]), .produce (.push [8])]
      let s := (run .release [.produce (.push [9])] (split r)).1
      let done := run .release rest s
      s.credit .producer = 1 ∧ moved .producer done.2 = 1 ∧ done.1.copy .producer = 0 ∧
        done.1.ring.readIndex = 1 ∧ done.1.Paced .release .producer 0 (.produce .draft) := by
  refine ⟨_, _, _, rfl, ?_⟩
  intro rest s done
  obtain ⟨-, hcopy, hpaced⟩ :=
    @run_reloads _ .line64 ⟨#[1, 2, 3, 4, 5, 6, 7], by decide⟩ 2 _ _ rfl .release
      [.produce (.push [9])] rest .producer (by decide) (by decide +kernel)
  exact ⟨by decide +kernel, by decide +kernel, hcopy.trans (by decide +kernel),
    by decide +kernel, hpaced (.produce .draft) nofun⟩

end Session

end SlotRing
