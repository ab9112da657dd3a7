/-
  BLUEPRINTS: descriptions of the queues that a script can be run on.
-/
import Fifo.Strategy.Build

namespace Fifo

/-- Why a queue could not be made: the request was stopped, or it was refused. -/
inductive Failure where
  | stopped (fault : Fault)
  | refused (error : Error)
  deriving DecidableEq, Repr

namespace Failure

/-- The text a failure is reported with. -/
def message : Failure → String
  | .stopped fault => fault.message
  | .refused error => error.message

/-- A result that may have been stopped. -/
def ofFault {α : Type} : Except Fault α → Except Failure α
  | .ok a => .ok a
  | .error fault => .error (.stopped fault)

/-- A result that may have been refused. -/
def ofError {α : Type} : Except Error α → Except Failure α
  | .ok a => .ok a
  | .error error => .error (.refused error)

theorem ofFault_eq_ok {α : Type} {x : Except Fault α} {a : α} (h : ofFault x = .ok a) :
    x = .ok a := by
  cases x with
  | ok b => exact congrArg Except.ok (Except.ok.inj h)
  | error fault => nomatch h

theorem ofError_eq_ok {α : Type} {x : Except Error α} {a : α} (h : ofError x = .ok a) :
    x = .ok a := by
  cases x with
  | ok b => exact congrArg Except.ok (Except.ok.inj h)
  | error e => nomatch h

end Failure

/-- How the store of a circular queue is asked for. -/
inductive Origin where
  /-- With the capacity given. -/
  | sized (capacity : Nat)
  /-- With the capacity given, from a machine that may refuse it, as may a limit in bytes. -/
  | reserved (capacity : Nat) (limit : Option Nat)
  /-- With the capacity for which none has to be given. -/
  | usual
  deriving DecidableEq, Repr

/-- The capacity that is asked for. -/
def Origin.requested : Origin → Nat
  | .sized capacity => capacity
  | .reserved capacity _ => capacity
  | .usual => Capacity.default

/-- What to make. -/
inductive Blueprint where
  | fixed (w : IndexRule) (origin : Origin)
  | growable (w : IndexRule) (s : ShrinkPolicy) (origin : Origin)
  /-- A linked queue, with or without a hint. -/
  | linked (hint : Option Nat)
  /-- A segmented queue, with the capacity of its segments unless it is the usual one. -/
  | segmented (capacity : Option Nat)
  /-- The queue of the strategy that a text names. -/
  | named (text : String) (capacity : Nat)

/-- The machine that a script runs on, with a limit in bytes if there is one. -/
def Allocator.ofLimit (p : Placement) : Option Nat → Allocator
  | none => machine p
  | some limit => (machine p).capped limit

namespace Blueprint

/-- Makes a circular queue. -/
def circular {α : Type} (p : Placement) (new : Nat → Except Fault α)
    (new? : Allocator → Nat → Except Error α) : Origin → Except Failure α
  | .sized capacity => Failure.ofFault (new capacity)
  | .reserved capacity limit => Failure.ofError (new? (Allocator.ofLimit p limit) capacity)
  | .usual => Failure.ofFault (new Capacity.default)

/-- In whatever way its store is asked for, a queue is the one that is new for the same request. -/
theorem new_of_circular {α : Type} {p : Placement} {new : Nat → Except Fault α}
    {new? : Allocator → Nat → Except Error α} {origin : Origin} {x : α}
    (h : circular p new new? origin = .ok x)
    (hnew : ∀ a requested, new? a requested = .ok x → new requested = .ok x) :
    new origin.requested = .ok x := by
  cases origin with
  | sized capacity => exact Failure.ofFault_eq_ok h
  | reserved capacity limit => exact hnew _ _ (Failure.ofError_eq_ok h)
  | usual => exact Failure.ofFault_eq_ok h

/-- Makes the queue. -/
def build (p : Placement) : Blueprint → Except Failure (AnyQueue p)
  | .fixed w origin =>
    (circular p (FixedQueue.new p w) (FixedQueue.new? · p w) origin).map (.fixed w)
  | .growable w s origin =>
    (circular p (GrowableQueue.new p w s) (GrowableQueue.new? · p w s) origin).map (.growable w s)
  | .linked hint =>
    .ok <| .linked <|
      match hint with
      | none => LinkedQueue.new p
      | some capacity => LinkedQueue.withCapacity p capacity
  | .segmented capacity => .ok (.segmented (SegmentedQueue.new p (capacity.getD Capacity.default)))
  | .named text capacity => do
    let t ← Failure.ofError (Strategy.parse text)
    Failure.ofFault (t.build p capacity)

/-- A queue that a text names is the one of some strategy. -/
theorem exists_of_build_named {p : Placement} {text : String} {capacity : Nat} {q : AnyQueue p}
    (h : build p (.named text capacity) = .ok q) :
    ∃ t, Strategy.parse text = .ok t ∧ t.build p capacity = .ok q := by
  cases hparse : Strategy.parse text with
  | error e =>
    simp only [build, hparse] at h
    nomatch h
  | ok t =>
    simp only [build, hparse] at h
    exact ⟨t, rfl, Failure.ofFault_eq_ok h⟩

end Blueprint
end Fifo
