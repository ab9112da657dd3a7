/-
  ROUNDING of requests, and the two ways of making a circular queue.

  1. **Requests** — `Capacity.Rounds n`: up to `2 ^ 63` a request has a capacity, the LEAST power of
     two that is at least as large, and beyond it none.  Whether that is refused or a fault depends on
     who asks, and nothing else does.

  2. **In a word** — `onesBelow`: a machine counts the leading zeros of the word before the request,
     shifts as many ones out of the last word, and adds one, which fails just where the capacity is no
     word (`round_toNat`).

  3. **New queues** — `Constructed`: a request that is refused is refused for its size first, and for
     the memory second; what is not refused is the queue that plain asking makes.
-/
import Mathlib.Algebra.GroupWithZero.Nat
import Mathlib.Order.Bounds.Basic
import Fifo.Proofs.Fixed.Order
import Fifo.Proofs.Growable.Order

namespace Fifo

/-! ## Rounding -/

namespace Capacity

/-- A power of two is its own rounding. -/
theorem leastPower_of_isPower {c : Nat} (h : isPower c = true) : leastPower c = c :=
  Nat.le_antisymm (leastPower_le h (Nat.le_refl c)) (le_leastPower c)

theorem isLeast_leastPower (n : Nat) :
    IsLeast {c | (∃ k, c = 2 ^ k) ∧ max n 1 ≤ c} (leastPower n) := by
  constructor
  · refine ⟨isPower_iff.mp (isPower_leastPower n), ?_⟩
    exact Nat.max_le.mpr ⟨le_leastPower n, pos_of_isPower (isPower_leastPower n)⟩
  · rintro c ⟨hc, hle⟩
    exact leastPower_le (isPower_iff.mpr hc) (Nat.le_trans (Nat.le_max_left n 1) hle)

/-- Half of the capacity would have been too small. -/
theorem leastPower_lt_double (n : Nat) : leastPower n < 2 * max n 1 := by
  unfold leastPower
  split
  case isTrue => omega
  case isFalse h =>
    have hlog : Nat.pow 2 (n - 1).log2 ≤ n - 1 := Nat.log2_self_le (by omega)
    have hdouble : Nat.pow 2 ((n - 1).log2 + 1) = Nat.pow 2 (n - 1).log2 * 2 := rfl
    omega

/-- The powers of two end within a word at `2 ^ 63`. -/
theorem leastPower_lt_limit_iff {n : Nat} : leastPower n < Word.limit ↔ n ≤ 2 ^ 63 := by
  have hlimit : Word.limit = 2 * 2 ^ 63 := rfl
  constructor
  · intro h
    have hle := le_leastPower n
    have hpower : isPower Word.limit = true := isPower_iff.mpr ⟨64, rfl⟩
    have hdouble : 2 * leastPower n ≤ Word.limit := double_le_of_lt (isPower_leastPower n) hpower h
    omega
  · intro h
    have hpower : isPower (2 ^ 63) = true := isPower_iff.mpr ⟨63, rfl⟩
    have hle : leastPower n ≤ 2 ^ 63 := leastPower_le hpower h
    omega

/-- A request up to that edge has a capacity. -/
theorem round?_eq (n : Nat) :
    round? n = if n ≤ 2 ^ 63 then .ok (leastPower n) else .error .capacityOverflow :=
  if_congr leastPower_lt_limit_iff rfl rfl

theorem round?_eq_ok_iff {n c : Nat} : round? n = .ok c ↔ n ≤ 2 ^ 63 ∧ leastPower n = c := by
  rw [round?_eq, ite_eq_ok_iff]

theorem round?_eq_error_iff {n : Nat} {e : Error} :
    round? n = .error e ↔ e = .capacityOverflow ∧ 2 ^ 63 < n := by
  rw [round?_eq, ite_eq_error_iff, Nat.not_le]

/-- What is refused to one who tries is a fault for one who asks. -/
theorem round_eq (n : Nat) :
    round n = if n ≤ 2 ^ 63 then .ok (leastPower n) else .error .capacityOverflow := by
  unfold round
  rw [round?_eq]
  by_cases h : n ≤ 2 ^ 63
  · rw [if_pos h, if_pos h]
  · rw [if_neg h, if_neg h]

theorem round_eq_ok_iff {n c : Nat} : round n = .ok c ↔ round? n = .ok c := by
  rw [round?_eq_ok_iff, round_eq, ite_eq_ok_iff]

theorem round_eq_error_iff {n : Nat} {fault : Fault} :
    round n = .error fault ↔ fault = .capacityOverflow ∧ 2 ^ 63 < n := by
  rw [round_eq, ite_eq_error_iff, Nat.not_le]

/-! ### In a word -/

/-- The ones below the capacity for a request: those of the last word, less as many as the word
    before the request has leading zeros. -/
def onesBelow (n : BitVec 64) : BitVec 64 :=
  if n.toNat ≤ 1 then 0 else BitVec.allOnes 64 >>> (n - 1).clz

/-- A word with `64 - z` digits left of its leading zeros is below `2 ^ (64 - z)`, and not below half
    of that. -/
theorem log2_toNat_succ {m : BitVec 64} (h : m ≠ 0) : m.toNat.log2 + 1 = 64 - m.clz.toNat := by
  have hzeros : m.clz.toNat < 64 := BitVec.lt_def.mp (BitVec.clz_lt_iff_ne_zero.mpr h)
  have hpos : m.toNat ≠ 0 := fun hzero => h (BitVec.eq_of_toNat_eq hzero)
  have hlog : m.toNat.log2 = 63 - m.clz.toNat := by
    rw [Nat.log2_eq_iff hpos]
    refine ⟨BitVec.two_pow_sub_clz_le_toNat_of_ne_zero (by decide) h, ?_⟩
    rw [show 63 - m.clz.toNat + 1 = 64 - m.clz.toNat from by omega]
    exact BitVec.toNat_lt_two_pow_sub_clz
  omega

/-- Ones shifted out of the last word leave the ones below a power of two. -/
theorem toNat_allOnes_shift {z : Nat} (h : z ≤ 64) :
    (BitVec.allOnes 64 >>> z).toNat + 1 = 2 ^ (64 - z) := by
  have hsplit : 2 ^ z * 2 ^ (64 - z) = 2 ^ 64 := by
    rw [← Nat.pow_add, Nat.add_sub_cancel' h]
  have hpos : 0 < 2 ^ (64 - z) := Nat.two_pow_pos _
  rw [BitVec.toNat_ushiftRight, BitVec.toNat_allOnes, Nat.shiftRight_eq_div_pow, ← hsplit,
    Nat.mul_sub_div 0 (2 ^ z) (2 ^ (64 - z)) (by rw [hsplit]; decide), Nat.zero_div]
  omega

/-- The ones below the least power of two, and one more, are that power. -/
theorem toNat_onesBelow (n : BitVec 64) : (onesBelow n).toNat + 1 = leastPower n.toNat := by
  unfold onesBelow leastPower
  by_cases h : n.toNat ≤ 1
  · rw [if_pos h, if_pos h]
    rfl
  have hone : 1 ≤ n.toNat := Nat.le_of_lt (Nat.lt_of_not_le h)
  have hpred : (n - 1).toNat = n.toNat - 1 := BitVec.toNat_sub_of_le (BitVec.le_def.mpr hone)
  have hne : n - 1 ≠ 0 := by
    intro hzero
    have hnone : n.toNat - 1 = 0 := hpred ▸ congrArg BitVec.toNat hzero
    omega
  have hzeros : (n - 1).clz.toNat ≤ 64 := BitVec.le_def.mp BitVec.clz_le
  rw [if_neg h, if_neg h, BitVec.ushiftRight_eq', toNat_allOnes_shift hzeros, ← log2_toNat_succ hne,
    hpred]
  rfl

/-- **The rounding of words**: one more than the ones, if that is a word. -/
theorem round_toNat (n : BitVec 64) :
    round n.toNat = (Word.succ (onesBelow n).toNat).mapError fun _ => .capacityOverflow := by
  have hedge := leastPower_lt_limit_iff (n := n.toNat)
  unfold Word.succ
  rw [toNat_onesBelow, round_eq]
  by_cases h : n.toNat ≤ 2 ^ 63
  · rw [if_pos h, if_pos (hedge.mpr h)]
    rfl
  · rw [if_neg h, if_neg (mt hedge.mp h)]
    rfl

/-! ### What rounding comes to -/

/-- `Rounds n` — what comes of rounding the request `n`. -/
structure Rounds (n : Nat) : Prop where
  /-- A request up to `2 ^ 63` is rounded, to the least power of two that is as large as it and as
      one. -/
  ok_iff : ∀ c, round? n = .ok c ↔ n ≤ 2 ^ 63 ∧ IsLeast {c | (∃ k, c = 2 ^ k) ∧ max n 1 ≤ c} c
  /-- Any other has no capacity, and there is no other error. -/
  error_iff : ∀ e, round? n = .error e ↔ e = .capacityOverflow ∧ 2 ^ 63 < n
  /-- Who asks gets the same capacity. -/
  asked_ok_iff : ∀ c, round n = .ok c ↔ round? n = .ok c
  /-- Who asks is stopped where who tries is refused. -/
  asked_error_iff : ∀ fault, round n = .error fault ↔ fault = .capacityOverflow ∧ 2 ^ 63 < n
  /-- Less than half of the capacity is too much. -/
  lt_double : ∀ c, round? n = .ok c → c < 2 * max n 1
  /-- What was rounded stays. -/
  again : ∀ c, round? n = .ok c → round? c = .ok c
  /-- A smaller request is rounded as well, to a capacity that is not larger. -/
  mono : ∀ c, round? n = .ok c → ∀ m ≤ n, ∃ b ≤ c, round? m = .ok b
  /-- A machine word is rounded by shifting. -/
  shifted : ∀ bits : BitVec 64, bits.toNat = n →
    round n = (Word.succ (onesBelow bits).toNat).mapError fun _ => .capacityOverflow

theorem rounds (n : Nat) : Rounds n where
  ok_iff c := by
    rw [round?_eq_ok_iff]
    refine and_congr_right fun _ => ?_
    constructor
    · rintro rfl
      exact isLeast_leastPower n
    · exact (isLeast_leastPower n).unique
  error_iff _ := round?_eq_error_iff
  asked_ok_iff _ := round_eq_ok_iff
  asked_error_iff _ := round_eq_error_iff
  lt_double := by
    intro c hc
    obtain ⟨_, rfl⟩ := round?_eq_ok_iff.mp hc
    exact leastPower_lt_double n
  again := by
    intro c hc
    obtain ⟨hn, rfl⟩ := round?_eq_ok_iff.mp hc
    have hword : leastPower n < Word.limit := leastPower_lt_limit_iff.mpr hn
    have hself := leastPower_of_isPower (isPower_leastPower n)
    refine round?_eq_ok_iff.mpr ⟨leastPower_lt_limit_iff.mp ?_, hself⟩
    rwa [hself]
  mono := by
    intro c hc m hm
    obtain ⟨hn, rfl⟩ := round?_eq_ok_iff.mp hc
    exact ⟨leastPower m, leastPower_mono hm, round?_eq_ok_iff.mpr ⟨Nat.le_trans hm hn, rfl⟩⟩
  shifted := by
    rintro bits rfl
    exact round_toNat bits

example : [0, 5, 2 ^ 63].map round? = [.ok 1, .ok 8, .ok (2 ^ 63)] ∧
    round? (2 ^ 63 + 1) = .error .capacityOverflow := by decide

end Capacity

/-! ## New queues -/

/-- Whether memory for so many slots is refused: because no memory could hold them, or because the
    allocator says so. -/
def Store.Refused (p : Placement) (a : Allocator) (slots : Nat) : Prop :=
  (addressable p slots && a (bytes p slots)) = false

theorem Store.reserve_eq_error {p : Placement} {a : Allocator} {slots : Nat}
    (h : Refused p a slots) : reserve p a slots = .error .allocationFailed :=
  if_neg (Bool.eq_false_iff.mp h)

theorem Store.reserve_eq_ok_of_not_refused {p : Placement} {a : Allocator} {slots : Nat}
    (h : ¬ Refused p a slots) : reserve p a slots = .ok () :=
  if_pos (Bool.not_eq_false _ ▸ h)

/-- `Constructed n refused fresh tried asked` — how the two ways of making a queue for the request `n`
    hang together, where `fresh` are the queues with so many vacant slots. -/
structure Constructed {σ : Type} (n : Nat) (refused : Nat → Prop) (fresh : Nat → σ)
    (tried : Except Error σ) (asked : Except Fault σ) : Prop where
  /-- Too large a request is refused for that, whatever memory there is. -/
  capacityOverflow_iff : tried = .error .capacityOverflow ↔ 2 ^ 63 < n
  /-- Otherwise it is refused for the memory of its capacity. -/
  allocationFailed_iff :
    tried = .error .allocationFailed ↔ ∃ c, Capacity.round? n = .ok c ∧ refused c
  /-- Otherwise both ways make the same queue. -/
  made : ∀ c, Capacity.round? n = .ok c → ¬ refused c → tried = .ok (fresh c) ∧ asked = .ok (fresh c)

/-- What contains a ring is made as the ring is. -/
theorem Constructed.map {σ τ : Type} {n : Nat} {refused : Nat → Prop} {fresh : Nat → σ}
    {tried : Except Error σ} {asked : Except Fault σ} (h : Constructed n refused fresh tried asked)
    (f : σ → τ) : Constructed n refused (fun c => f (fresh c)) (tried.map f) (asked.map f) where
  capacityOverflow_iff := by
    rw [← h.capacityOverflow_iff]
    exact ⟨eq_error_of_map, congrArg (Except.map f)⟩
  allocationFailed_iff := by
    rw [← h.allocationFailed_iff]
    exact ⟨eq_error_of_map, congrArg (Except.map f)⟩
  made := by
    intro c hc hgranted
    obtain ⟨htried, hasked⟩ := h.made c hc hgranted
    rw [htried, hasked]
    exact ⟨rfl, rfl⟩

namespace Ring

variable {p : Placement} {a : Allocator} {n c : Nat}

theorem new?_of_error {e : Error} (h : Capacity.round? n = .error e) : new? a p n = .error e := by
  unfold new?
  rw [h]
  rfl

theorem new?_of_ok (h : Capacity.round? n = .ok c) :
    new? a p n = (Store.reserve p a c).map fun () => vacant p c := by
  unfold new?
  rw [h]
  rfl

theorem constructed (p : Placement) (a : Allocator) (n : Nat) :
    Constructed n (Store.Refused p a) (vacant p) (new? a p n) (new p n) := by
  cases hround : Capacity.round? n with
  | error e =>
    obtain ⟨rfl, hn⟩ := Capacity.round?_eq_error_iff.mp hround
    have htried : new? a p n = .error .capacityOverflow := new?_of_error hround
    rw [htried]
    exact
      { capacityOverflow_iff := iff_of_true rfl hn
        allocationFailed_iff := iff_of_false (nomatch ·) fun ⟨_, hc, _⟩ => nomatch hround.symm.trans hc
        made := fun _ hc => nomatch hround.symm.trans hc }
  | ok c =>
    have hn : ¬ 2 ^ 63 < n := Nat.not_lt.mpr (Capacity.round?_eq_ok_iff.mp hround).1
    have hsame {c' : Nat} (h : Capacity.round? n = .ok c') : c = c' :=
      Except.ok.inj (hround.symm.trans h)
    by_cases hrefused : Store.Refused p a c
    · have htried : new? a p n = .error .allocationFailed := by
        rw [new?_of_ok hround, Store.reserve_eq_error hrefused]
        rfl
      rw [htried]
      exact
        { capacityOverflow_iff := iff_of_false (nomatch ·) hn
          allocationFailed_iff := iff_of_true rfl ⟨c, hround, hrefused⟩
          made := fun c' hc hgranted => absurd (hsame hc ▸ hrefused) hgranted }
    · have htried : new? a p n = .ok (vacant p c) := by
        rw [new?_of_ok hround, Store.reserve_eq_ok_of_not_refused hrefused]
        rfl
      have hasked : new p n = .ok (vacant p c) := new_of_new? htried
      rw [htried, hasked]
      exact
        { capacityOverflow_iff := iff_of_false (nomatch ·) hn
          allocationFailed_iff :=
            iff_of_false (nomatch ·) fun ⟨_, hc, hrefused'⟩ => hrefused (hsame hc ▸ hrefused')
          made := fun c' hc _ => hsame hc ▸ ⟨rfl, rfl⟩ }

end Ring

/-- **Every request is rounded to the least capacity there is for it, and whoever makes a circular
    queue for it, by trying or by just asking, gets the same new queue.**  For all words,
    placements, index rules, policies and allocators. -/
theorem capacities_of_requests (n : Nat) (p : Placement) (w : IndexRule) (a : Allocator) :
    Capacity.Rounds n ∧
      Constructed n (Store.Refused p a)
        (fun c => (⟨⟨Array.replicate c p.vacant, 0, 0, 0⟩⟩ : FixedQueue p w))
        (FixedQueue.new? a p w n) (FixedQueue.new p w n) ∧
      ∀ s : ShrinkPolicy,
        Constructed n (Store.Refused p a)
          (fun c => (⟨⟨Array.replicate c p.vacant, 0, 0, 0⟩, 0, 0⟩ : GrowableQueue p w s))
          (GrowableQueue.new? a p w s n) (GrowableQueue.new p w s n) := by
  have hring := Ring.constructed p a n
  refine ⟨Capacity.rounds n, hring.map FixedQueue.mk, fun s => ?_⟩
  exact hring.map fun ring => (⟨ring, 0, 0⟩ : GrowableQueue p w s)

end Fifo
