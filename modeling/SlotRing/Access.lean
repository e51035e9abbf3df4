import SlotRing.Ring

/-!
# Operations as memory accesses

An operation of a half is written once, as the accesses it makes to the
shared memory in program order. `Access.run` performs them without
interruption, which is what a caller on one thread sees; `Access.step`
performs the next one only, so that another thread's accesses can fall
between any two of them. `complete` performs the accesses of a release build
and forgets the events, by `run_release`.

Debug assertions are part of the program: `require` stops a checked build
when its condition fails and does nothing in a release build.
-/

set_option autoImplicit false

namespace SlotRing

/-- A broken debug assertion, or an overflow. An item that is pushed is
measured once by the producer and once more where it is copied. -/
inductive Fault where
  | oversizedItem (length itemSize : Nat)
  | oversizedCopy (length itemSize : Nat)
  | slotOutOfRange (index slotCount : UInt64)
  | addOverflow
  | subOverflow
  | mulOverflow
  deriving DecidableEq, Repr

def Fault.message : Fault → String
  | .oversizedItem length itemSize =>
    "item of " ++ toString length ++ " bytes exceeds the slot size of " ++ toString itemSize ++
      " bytes"
  | .oversizedCopy .. => "assertion failed: item.len() <= self.item_size"
  | .slotOutOfRange .. => "assertion failed: index < self.slot_count"
  | .addOverflow => "attempt to add with overflow"
  | .subOverflow => "attempt to subtract with overflow"
  | .mulOverflow => "attempt to multiply with overflow"

inductive Build where
  | release
  | checked
  deriving DecidableEq, Repr

inductive Access (α : Type) where
  | done (value : α)
  | loadIndex (owner : Side) (next : UInt64 → Access α)
  | storeIndex (owner : Side) (index : UInt64) (next : Unit → Access α)
  | loadByte (address : Nat) (next : UInt8 → Access α)
  | storeByte (address : Nat) (byte : UInt8) (next : Unit → Access α)
  | log (event : Event) (next : Unit → Access α)
  | require (holds : Bool) (fault : Fault) (next : Unit → Access α)

namespace Access

variable {α β γ : Type} {g : Geometry}

def bind : Access α → (α → Access β) → Access β
  | .done a, f => f a
  | .loadIndex o k, f => .loadIndex o fun i => (k i).bind f
  | .storeIndex o i k, f => .storeIndex o i fun u => (k u).bind f
  | .loadByte a k, f => .loadByte a fun b => (k b).bind f
  | .storeByte a b k, f => .storeByte a b fun u => (k u).bind f
  | .log e k, f => .log e fun u => (k u).bind f
  | .require c e k, f => .require c e fun u => (k u).bind f

instance : Monad Access where
  pure := .done
  bind := bind

theorem bind_pure (p : Access α) : p.bind .done = p := by
  induction p with
  | done => rfl
  | loadIndex _ _ ih | storeIndex _ _ _ ih | loadByte _ _ ih | storeByte _ _ _ ih
  | log _ _ ih | require _ _ _ ih => simp only [bind, ih]

theorem bind_assoc (p : Access α) (f : α → Access β) (h : β → Access γ) :
    (p.bind f).bind h = p.bind fun a => (f a).bind h := by
  induction p with
  | done => rfl
  | loadIndex _ _ ih | storeIndex _ _ _ ih | loadByte _ _ ih | storeByte _ _ _ ih
  | log _ _ ih | require _ _ _ ih => simp only [bind, ih]

instance : LawfulMonad Access := LawfulMonad.mk' _
  (fun p => bind_pure p) (fun _ _ => rfl) (fun p f h => bind_assoc p f h)

/-! ## Single accesses -/

def load (owner : Side) : Access UInt64 := .loadIndex owner .done

def store (owner : Side) (index : UInt64) : Access Unit := .storeIndex owner index .done

def report (event : Event) : Access Unit := .log event .done

def demand (holds : Bool) (fault : Fault) : Access Unit := .require holds fault .done

def loadByteAt (address : Nat) : Access UInt8 := .loadByte address .done

def storeBytes (address : Nat) : List UInt8 → Access Unit
  | [] => .done ()
  | b :: rest => .storeByte address b fun _ => storeBytes (address + 1) rest

/-- Loads `count` bytes one after another and appends them to those seen,
which are kept newest first. -/
def loadBytesOnto (address : Nat) : Nat → List UInt8 → Access (List UInt8)
  | 0, seen => .done seen.reverse
  | count + 1, seen => .loadByte address fun b => loadBytesOnto (address + 1) count (b :: seen)

def loadBytes (address count : Nat) : Access (List UInt8) := loadBytesOnto address count []

/-! ## Without interruption -/

@[ext]
structure Outcome (g : Geometry) (α : Type) where
  ring : Ring g
  events : List Event
  result : Except Fault α

def passes : Build → Bool → Bool
  | .release, _ => true
  | .checked, holds => holds

def run (build : Build) : Access α → Ring g → Outcome g α
  | .done a, r => ⟨r, [], .ok a⟩
  | .loadIndex o k, r => (k (r.index o)).run build r
  | .storeIndex o i k, r => (k ()).run build (r.setIndex o i)
  | .loadByte a k, r => (k (r.byte a)).run build r
  | .storeByte a b k, r => (k ()).run build (r.setByte a b)
  | .log e k, r =>
    match (k ()).run build r with
    | ⟨ring, events, result⟩ => ⟨ring, e :: events, result⟩
  | .require holds fault k, r =>
    if passes build holds then (k ()).run build r else ⟨r, [], .error fault⟩

/-! ## One access at a time -/

def step : Access α → Ring g → Access α × Ring g
  | .done a, r => (.done a, r)
  | .loadIndex o k, r => (k (r.index o), r)
  | .storeIndex o i k, r => (k (), r.setIndex o i)
  | .loadByte a k, r => (k (r.byte a), r)
  | .storeByte a b k, r => (k (), r.setByte a b)
  | .log _ k, r => (k (), r)
  | .require _ _ k, r => (k (), r)

def complete : Access α → Ring g → α × Ring g
  | .done a, r => (a, r)
  | .loadIndex o k, r => (k (r.index o)).complete r
  | .storeIndex o i k, r => (k ()).complete (r.setIndex o i)
  | .loadByte a k, r => (k (r.byte a)).complete r
  | .storeByte a b k, r => (k ()).complete (r.setByte a b)
  | .log _ k, r => (k ()).complete r
  | .require _ _ k, r => (k ()).complete r

theorem run_release (p : Access α) (r : Ring g) :
    (p.run .release r).ring = (p.complete r).2 ∧
      (p.run .release r).result = .ok (p.complete r).1 := by
  induction p generalizing r with
  | done => exact ⟨rfl, rfl⟩
  | loadIndex _ _ ih | storeIndex _ _ _ ih | loadByte _ _ ih | storeByte _ _ _ ih
  | log _ _ ih | require _ _ _ ih => exact ih _ _

theorem complete_bind (p : Access α) (f : α → Access β) (r : Ring g) :
    (p >>= f).complete r = (f (p.complete r).1).complete (p.complete r).2 := by
  induction p generalizing r with
  | done => rfl
  | loadIndex _ _ ih | storeIndex _ _ _ ih | loadByte _ _ ih | storeByte _ _ _ ih
  | log _ _ ih | require _ _ _ ih => exact ih _ _

end Access

end SlotRing
