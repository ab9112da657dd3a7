/-
  CAPACITIES: the powers of two that circular stores have as sizes.

  A requested capacity is rounded UP, to the least power of two that is at least as large; zero
  slots are rounded up to one.  The powers of two end within a machine word at `2 ^ 63`, so a
  request above it has no capacity: `Capacity.round?` refuses it, `Capacity.round` is stopped.
-/
import Fifo.Error
import Fifo.Word

namespace Fifo.Capacity

/-- The capacity of queues for which none is requested. -/
def default : Nat := 16

/-- The least power of two at or above a number: one more than the number that has as many binary
    digits as the number before it, all of them ones. -/
def leastPower (n : Nat) : Nat :=
  if n ≤ 1 then 1 else Nat.pow 2 ((n - 1).log2 + 1)

/-- Whether a number is a power of two: the one that has as many binary digits. -/
def isPower (n : Nat) : Bool := Nat.pow 2 n.log2 == n

/-- The capacity for a request, or the refusal of one that is too large. -/
def round? (requested : Nat) : Except Error Nat :=
  if leastPower requested < Word.limit then .ok (leastPower requested) else .error .capacityOverflow

/-- The capacity for a request; one that is too large is a fault. -/
def round (requested : Nat) : Except Fault Nat :=
  match round? requested with
  | .ok capacity => .ok capacity
  | .error _ => .error .capacityOverflow

/-- A request that is not stopped is rounded. -/
theorem round_eq_ok {requested capacity : Nat} (h : round requested = .ok capacity) :
    leastPower requested = capacity := by
  unfold round round? at h
  by_cases hw : leastPower requested < Word.limit
  · rw [if_pos hw] at h
    exact Except.ok.inj h
  · rw [if_neg hw] at h
    nomatch h

/-- The test finds the powers of two. -/
theorem isPower_iff {n : Nat} : isPower n = true ↔ ∃ k, n = Nat.pow 2 k := by
  constructor
  · intro h
    exact ⟨n.log2, (beq_iff_eq.mp h).symm⟩
  · rintro ⟨k, rfl⟩
    simp [isPower, Nat.log2_two_pow]

theorem pos_of_isPower {n : Nat} (h : isPower n = true) : 0 < n := by
  obtain ⟨k, rfl⟩ := isPower_iff.mp h
  exact Nat.two_pow_pos k

theorem isPower_double {n : Nat} (h : isPower n = true) : isPower (2 * n) = true := by
  obtain ⟨k, rfl⟩ := isPower_iff.mp h
  refine isPower_iff.mpr ⟨k + 1, ?_⟩
  have hdouble : Nat.pow 2 (k + 1) = Nat.pow 2 k * 2 := rfl
  omega

theorem isPower_of_double {n : Nat} (h : isPower (2 * n) = true) : isPower n = true := by
  obtain ⟨k, hk⟩ := isPower_iff.mp h
  cases k with
  | zero =>
    have hone : 2 * n = 1 := hk
    omega
  | succ k =>
    have hdouble : 2 * n = Nat.pow 2 k * 2 := hk
    exact isPower_iff.mpr ⟨k, by omega⟩

/-- From four on, the powers of two have quarters. -/
theorem eq_four_mul {n : Nat} (h : isPower n = true) (hlt : 2 < n) : n = 4 * (n / 4) := by
  obtain ⟨k, rfl⟩ := isPower_iff.mp h
  match k with
  | 0 => exact absurd hlt (by decide)
  | 1 => exact absurd hlt (by decide)
  | k + 2 =>
    have hfour : Nat.pow 2 (k + 2) = Nat.pow 2 k * 2 * 2 := rfl
    omega

/-- The last word is no power of two: one more than a power of two is a word as well. -/
theorem succ_lt_limit {n : Nat} (h : isPower n = true) (hw : n < Word.limit) :
    n + 1 < Word.limit := by
  obtain ⟨k, rfl⟩ := isPower_iff.mp h
  cases k with
  | zero => decide
  | succ k =>
    -- an even number, while the last word is odd
    have heven : Nat.pow 2 (k + 1) = Nat.pow 2 k * 2 := rfl
    rw [heven] at hw ⊢
    generalize Nat.pow 2 k = half at *
    unfold Word.limit at *
    omega

/-- Below a power of two all binary digits are ones, and masking with ones is taking a
    remainder. -/
theorem and_pred_of_isPower {n : Nat} (h : isPower n = true) (m : Nat) :
    m &&& (n - 1) = m % n := by
  obtain ⟨k, rfl⟩ := isPower_iff.mp h
  exact Nat.and_two_pow_sub_one_eq_mod m k

theorem isPower_leastPower (n : Nat) : isPower (leastPower n) = true := by
  unfold leastPower
  split
  · rfl
  · exact isPower_iff.mpr ⟨_, rfl⟩

/-- Rounding goes up. -/
theorem le_leastPower (n : Nat) : n ≤ leastPower n := by
  unfold leastPower
  split
  · assumption
  · have h : n - 1 < Nat.pow 2 ((n - 1).log2 + 1) := Nat.lt_log2_self
    omega

/-- Rounding goes no further than it has to. -/
theorem leastPower_le {n c : Nat} (hc : isPower c = true) (h : n ≤ c) : leastPower n ≤ c := by
  unfold leastPower
  split
  · exact pos_of_isPower hc
  · obtain ⟨k, rfl⟩ := isPower_iff.mp hc
    have hn : n - 1 ≠ 0 := by omega
    have hlt : n - 1 < Nat.pow 2 k := by omega
    have hlog : (n - 1).log2 < k := (Nat.log2_lt hn).mpr hlt
    exact Nat.pow_le_pow_right (by decide) (by omega)

theorem leastPower_mono {m n : Nat} (h : m ≤ n) : leastPower m ≤ leastPower n :=
  leastPower_le (isPower_leastPower n) (Nat.le_trans h (le_leastPower n))

/-- The power of two after a power of two is twice as large. -/
theorem double_le_of_lt {c d : Nat} (hc : isPower c = true) (hd : isPower d = true) (h : c < d) :
    2 * c ≤ d := by
  obtain ⟨k, rfl⟩ := isPower_iff.mp hc
  obtain ⟨l, rfl⟩ := isPower_iff.mp hd
  have hlt : k < l := (Nat.pow_lt_pow_iff_right (by decide)).mp h
  have hdouble : Nat.pow 2 (k + 1) = Nat.pow 2 k * 2 := rfl
  have hle : Nat.pow 2 (k + 1) ≤ Nat.pow 2 l := Nat.pow_le_pow_right (by decide) hlt
  omega

/-- A power of two and one more do not fit into less than twice the power. -/
theorem leastPower_succ {c : Nat} (hc : isPower c = true) : leastPower (c + 1) = 2 * c := by
  have hpos := pos_of_isPower hc
  apply Nat.le_antisymm
  · exact leastPower_le (isPower_double hc) (by omega)
  · exact double_le_of_lt hc (isPower_leastPower _) (le_leastPower (c + 1))

example : [0, 1, 2, 3, 16, 17, 1000].map leastPower = [1, 1, 2, 4, 16, 32, 1024] := by decide

end Fifo.Capacity
