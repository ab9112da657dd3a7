/-
  INDEX RULES: three ways of stepping around a circular store.

  After the last place comes place zero.  A step can COMPARE the next index with the capacity,
  MASK it with the capacity less one, or take the remainder MODULO the capacity.  They agree where
  queues use them (an index below a capacity that is a power of two).  Below any other capacity
  masking skips places, and beyond a store each rule has an answer, or a fault, of its own; the step
  to the next word is tried before anything else.
-/
import Fifo.Circular.Capacity

namespace Fifo

/-- How the index after an index is found. -/
inductive IndexRule where
  /-- Zero if the next index is the capacity. -/
  | compare
  /-- The bits of the next index that the capacity less one has too. -/
  | mask
  /-- The remainder of the next index by the capacity. -/
  | modulo
  deriving DecidableEq, Repr

namespace IndexRule

/-- The three rules, in the order in which they are listed to users. -/
def all : List IndexRule := [.compare, .mask, .modulo]

/-- The name a rule is reported under. -/
def name : IndexRule → String
  | .compare => "compare"
  | .mask => "mask"
  | .modulo => "modulo"

/-- What is shown of a rule itself. -/
def label : IndexRule → String
  | .compare => "Compare"
  | .mask => "Mask"
  | .modulo => "Modulo"

/-- The index after `index` in a store of `capacity` slots. -/
def next : IndexRule → (index capacity : Nat) → Except Fault Nat
  | .compare, index, capacity => do
    let n ← Word.succ index
    return if n = capacity then 0 else n
  | .mask, index, capacity => do
    let n ← Word.succ index
    let ones ← Word.pred capacity
    return n &&& ones
  | .modulo, index, capacity => do
    let n ← Word.succ index
    Word.rem n capacity

/-- The indices met in the next `count` steps, up to the first step that is stopped. -/
def walk (w : IndexRule) (capacity : Nat) : (count index : Nat) → Except Fault (List Nat)
  | 0, _ => .ok []
  | count + 1, index => do
    let n ← w.next index capacity
    let rest ← walk w capacity count n
    return n :: rest

section Steps

variable {index capacity : Nat}

/-- From a place of a store, of any size that is a word, comparing goes around it. -/
theorem compare_next (hw : capacity < Word.limit) (hi : index < capacity) :
    compare.next index capacity = .ok ((index + 1) % capacity) := by
  show (do let n ← Word.succ index; return if n = capacity then 0 else n) = _
  rw [Word.succ_eq_ok (Nat.lt_of_le_of_lt hi hw)]
  show Except.ok _ = Except.ok _
  congr 1
  by_cases h : index + 1 = capacity
  · rw [if_pos h, h, Nat.mod_self]
  · rw [if_neg h, Nat.mod_eq_of_lt (by omega)]

/-- So does taking remainders. -/
theorem modulo_next (hw : capacity < Word.limit) (hi : index < capacity) :
    modulo.next index capacity = .ok ((index + 1) % capacity) := by
  show (do let n ← Word.succ index; Word.rem n capacity) = _
  rw [Word.succ_eq_ok (Nat.lt_of_le_of_lt hi hw)]
  exact Word.rem_eq_ok (Nat.zero_lt_of_lt hi)

/-- Masking is not stopped there either. -/
theorem mask_next (hw : capacity < Word.limit) (hi : index < capacity) :
    mask.next index capacity = .ok ((index + 1) &&& (capacity - 1)) := by
  show (do let n ← Word.succ index; let ones ← Word.pred capacity; return n &&& ones) = _
  rw [Word.succ_eq_ok (Nat.lt_of_le_of_lt hi hw), Word.pred_eq_ok (Nat.zero_lt_of_lt hi)]
  rfl

/-- Where queues step, from a place of a store whose size is a power of two, all rules agree. -/
theorem next_eq_mod (w : IndexRule) (hp : Capacity.isPower capacity = true)
    (hw : capacity < Word.limit) (hi : index < capacity) :
    w.next index capacity = .ok ((index + 1) % capacity) := by
  cases w with
  | compare => exact compare_next hw hi
  | mask => rw [mask_next hw hi, Capacity.and_pred_of_isPower hp]
  | modulo => exact modulo_next hw hi

end Steps

example : [compare, mask, modulo].map (·.next 3 4) = [.ok 0, .ok 0, .ok 0] := rfl

/-- A mask that is not all ones skips places. -/
example : [compare, mask, modulo].map (·.next 2 6) = [.ok 3, .ok 1, .ok 3] := rfl

/-- The last word has no successor, and only two rules need a capacity. -/
example : mask.next (Word.limit - 1) 0 = .error .addOverflow ∧ mask.next 0 0 = .error .subOverflow ∧
    modulo.next 0 0 = .error .zeroDivisor ∧ compare.next 0 0 = .ok 1 :=
  ⟨rfl, rfl, rfl, rfl⟩

end IndexRule
end Fifo
