/-
  MACHINE WORDS: natural numbers below `2 ^ 64`, with the checks that keep them there.

  Sizes and indices are `Nat`s all over the library.  Where the size of a word shows (an index
  stepped past the last word, a count taken below zero) the operation is one of this file, which
  puts the failing case in front as a `Fault`.
-/
import Fifo.Fault

namespace Fifo.Word

/-- The first number that is no machine word, `2 ^ 64`: sixteen hexadecimal zeros behind a one. -/
def limit : Nat := 0x10000000000000000

/-- One more, as long as that is a word. -/
def succ (n : Nat) : Except Fault Nat :=
  if n + 1 < limit then .ok (n + 1) else .error .addOverflow

/-- One less, as long as there is one. -/
def pred (n : Nat) : Except Fault Nat :=
  if n = 0 then .error .subOverflow else .ok (n - 1)

/-- The remainder, as long as the divisor is not zero. -/
def rem (n divisor : Nat) : Except Fault Nat :=
  if divisor = 0 then .error .zeroDivisor else .ok (n % divisor)

/-- Twice the number, if that is a word. -/
def double? (n : Nat) : Option Nat :=
  if 2 * n < limit then some (2 * n) else none

theorem succ_eq_ok {n : Nat} (h : n + 1 < limit) : succ n = .ok (n + 1) := if_pos h

theorem succ_eq_error {n : Nat} (h : ¬ n + 1 < limit) : succ n = .error .addOverflow := if_neg h

theorem pred_eq_ok {n : Nat} (h : 0 < n) : pred n = .ok (n - 1) :=
  if_neg (Nat.ne_of_gt h)

theorem rem_eq_ok {n divisor : Nat} (h : 0 < divisor) : rem n divisor = .ok (n % divisor) :=
  if_neg (Nat.ne_of_gt h)

end Fifo.Word
