/-
  FAULTS, the ways in which a call is stopped.

  A fault is not an answer: it ends the call where it stands, and whatever the call did before
  that point stays done (`Fifo.Call` keeps the state and the log that a stopped call leaves
  behind).  Four faults are arithmetic on machine words, one is an access outside a store, and
  two are the conditions that a ring checks before it moves into another store.
-/

namespace Fifo

/-- What stops a call. -/
inductive Fault where
  /-- A store was asked for that no machine could count or address. -/
  | capacityOverflow
  /-- A sum does not fit a machine word. -/
  | addOverflow
  /-- A difference would be below zero. -/
  | subOverflow
  /-- A remainder was taken by zero. -/
  | zeroDivisor
  /-- Place `index` was asked of a store with `size` slots. -/
  | outOfBounds (index size : Nat)
  /-- A ring was to move into a store whose size is no power of two. -/
  | unroundedStore
  /-- A ring was to move into a store with fewer slots than it holds elements. -/
  | crampedStore
  deriving DecidableEq, Repr

/-- The text a fault is reported with. -/
def Fault.message : Fault → String
  | .capacityOverflow => "capacity overflow"
  | .addOverflow => "attempt to add with overflow"
  | .subOverflow => "attempt to subtract with overflow"
  | .zeroDivisor => "attempt to calculate the remainder with a divisor of zero"
  | .outOfBounds index size => s!"index out of bounds: the len is {size} but the index is {index}"
  | .unroundedStore => "assertion failed: store.len().is_power_of_two()"
  | .crampedStore => "assertion failed: store.len() >= self.size"

/-- Whether two calls that may be stopped came to the same. -/
instance decidableEqExcept {ε α : Type} [DecidableEq ε] [DecidableEq α] : DecidableEq (Except ε α)
  | .ok a, .ok b => decidable_of_iff (a = b) ⟨congrArg Except.ok, Except.ok.inj⟩
  | .error e, .error f => decidable_of_iff (e = f) ⟨congrArg Except.error, Except.error.inj⟩
  | .ok _, .error _ => .isFalse (nomatch ·)
  | .error _, .ok _ => .isFalse (nomatch ·)

/-- A changed answer is the change of an answer. -/
theorem exists_of_map_eq_ok {ε α β : Type} {f : α → β} {x : Except ε α} {b : β}
    (h : x.map f = .ok b) : ∃ a, x = .ok a ∧ f a = b := by
  cases x with
  | error fault => nomatch h
  | ok a => exact ⟨a, rfl, Except.ok.inj h⟩

/-- A change of the answer is stopped by nothing else. -/
theorem eq_error_of_map {ε α β : Type} {f : α → β} {x : Except ε α} {e : ε}
    (h : x.map f = .error e) : x = .error e := by
  cases x with
  | error e' => exact congrArg Except.error (Except.error.inj h)
  | ok a => nomatch h

section Checks

variable {ε α : Type} {P : Prop} [Decidable P] {a b : α} {e e' : ε}

/-- What is answered after one check is answered where it holds. -/
theorem ite_eq_ok_iff : (if P then .ok a else .error e : Except ε α) = .ok b ↔ P ∧ a = b := by
  by_cases h : P
  · rw [if_pos h, Except.ok.injEq, and_iff_right h]
  · rw [if_neg h]
    exact iff_of_false (nomatch ·) fun hb => h hb.1

/-- It is refused with the one error that there is, where the check fails. -/
theorem ite_eq_error_iff :
    (if P then .ok a else .error e : Except ε α) = .error e' ↔ e' = e ∧ ¬ P := by
  by_cases h : P
  · rw [if_pos h]
    exact iff_of_false (nomatch ·) fun he => he.2 h
  · rw [if_neg h, Except.error.injEq, and_iff_left h, eq_comm]

end Checks

end Fifo
