/-
  TURNS of an index, step by step around the places of a store.

      0 → 1 → 2 → 3 → 4 → 5 → 0           six places, by comparing or by remainders
      0 ⇄ 1 ← 2       3 → 4 ⇄ 5           six places, masked with five

  1. **A step** — `Steps w c`: from every one of `c` places the rule `w` steps to the remainder of the
     next index.  Comparing and taking remainders do so however many places there are, up to as many as
     a word can count: the index after the last place is the number of places, and that is a word.

  2. **A turn** — `Turns w c`: such a rule is never stopped, `count` steps from `i` lead to the
     remainder of `i + count`, and as many steps as there are places meet every place, and none
     twice.  The places met are the numbers below `c`, ROTATED (`Steps.walk_eq_rotate`).

  3. **Masking** — from the last place it steps to the binary digits that `c` and `c - 1` share.  There
     are none, which would be place zero, only for a power of two (`steps_mask_iff`).
-/
import Mathlib.Algebra.GroupWithZero.Nat
import Mathlib.Data.List.Rotate
import Fifo.Circular.IndexRule

namespace Fifo.IndexRule

variable {w : IndexRule} {c i : Nat}

/-! ## Many steps -/

/-- The index that so many steps lead to, unless one of them is stopped. -/
def advance (w : IndexRule) (capacity : Nat) : (count index : Nat) → Except Fault Nat
  | 0, index => .ok index
  | count + 1, index => do
    let n ← w.next index capacity
    advance w capacity count n

section Next

variable {n : Nat} {fault : Fault}

theorem advance_of_ok (hn : w.next i c = .ok n) (count : Nat) :
    w.advance c (count + 1) i = w.advance c count n := by
  show (do let n ← w.next i c; w.advance c count n) = _
  rw [hn]
  rfl

theorem advance_of_error (hn : w.next i c = .error fault) (count : Nat) :
    w.advance c (count + 1) i = .error fault := by
  show (do let n ← w.next i c; w.advance c count n) = _
  rw [hn]
  rfl

theorem walk_of_ok (hn : w.next i c = .ok n) (count : Nat) :
    w.walk c (count + 1) i = (do let rest ← w.walk c count n; return n :: rest) := by
  show (do let n ← w.next i c; let rest ← w.walk c count n; return n :: rest) = _
  rw [hn]
  rfl

theorem walk_of_error (hn : w.next i c = .error fault) (count : Nat) :
    w.walk c (count + 1) i = .error fault := by
  show (do let n ← w.next i c; let rest ← w.walk c count n; return n :: rest) = _
  rw [hn]
  rfl

end Next

/-- A walk meets what one step, two steps and so on lead to, and is stopped where they are. -/
theorem walk_eq_mapM (w : IndexRule) (c count i : Nat) :
    w.walk c count i = (List.range count).mapM fun k => w.advance c (k + 1) i := by
  induction count generalizing i with
  | zero => rfl
  | succ count ih =>
    rw [List.range_succ_eq_map, List.mapM_cons, List.mapM_map]
    cases hn : w.next i c with
    | error fault =>
      rw [walk_of_error hn, advance_of_error hn]
      rfl
    | ok n =>
      have hrest : (fun k => w.advance c (k + 1) i) ∘ Nat.succ = fun k => w.advance c (k + 1) n := by
        funext k
        exact advance_of_ok hn (k + 1)
      rw [walk_of_ok hn, advance_of_ok hn, hrest, ih]
      rfl

/-! ## Rules that go around -/

/-- `Steps w c` — from each of `c` places the rule `w` steps to the remainder of the next index. -/
def Steps (w : IndexRule) (c : Nat) : Prop := ∀ i < c, w.next i c = .ok ((i + 1) % c)

/-- `Turns w c` — the rule `w` goes around `c` places, all of them, for ever. -/
structure Turns (w : IndexRule) (c : Nat) : Prop where
  /-- However many steps are made, none is stopped, and they come to a remainder. -/
  advance_eq : ∀ i < c, ∀ count, w.advance c count i = .ok ((i + count) % c)
  /-- The steps of one turn meet each place once. -/
  walk_perm : ∀ i < c, ∃ met, w.walk c c i = .ok met ∧ met.Perm (List.range c)
  /-- Each place is reached after one number of steps less than a turn, and after no other. -/
  reached_once : ∀ i < c, ∀ j < c, ∃! count, count < c ∧ w.advance c count i = .ok j

/-- The remainders of a turn of numbers are those of the first turn, rotated. -/
theorem map_range_mod (c i : Nat) :
    (List.range c).map (fun k => (i + k) % c) = (List.range c).rotate i := by
  refine List.ext_getElem ?_ fun k hk _ => ?_
  · rw [List.length_map, List.length_rotate]
  · rw [List.getElem_map, List.getElem_range, List.getElem_rotate, List.getElem_range,
      List.length_range, Nat.add_comm]

/-- In a turn of numbers each remainder occurs once, because a rotation leaves out and repeats
    nothing. -/
theorem existsUnique_mod_eq (i : Nat) {j : Nat} (hj : j < c) : ∃! k, k < c ∧ (i + k) % c = j := by
  have hmap := map_range_mod c i
  have hnodup : ((List.range c).map fun k => (i + k) % c).Nodup := by
    rw [hmap]
    exact List.nodup_rotate.mpr List.nodup_range
  have hmem : j ∈ (List.range c).map fun k => (i + k) % c := by
    rw [hmap]
    exact List.mem_rotate.mpr (List.mem_range.mpr hj)
  obtain ⟨k, hk, hkj⟩ := List.mem_map.mp hmem
  refine ⟨k, ⟨List.mem_range.mp hk, hkj⟩, ?_⟩
  rintro k' ⟨hk', hkj'⟩
  exact List.inj_on_of_nodup_map hnodup (List.mem_range.mpr hk') hk (hkj'.trans hkj.symm)

namespace Steps

theorem advance_eq (h : w.Steps c) (count : Nat) (hi : i < c) :
    w.advance c count i = .ok ((i + count) % c) := by
  induction count generalizing i with
  | zero => exact congrArg Except.ok (Nat.mod_eq_of_lt hi).symm
  | succ count ih =>
    have hn : (i + 1) % c < c := Nat.mod_lt _ (Nat.zero_lt_of_lt hi)
    rw [advance_of_ok (h i hi), ih hn, Nat.mod_add_mod, Nat.add_assoc, Nat.add_comm 1]

/-- **One turn** meets all places, in order from the next one. -/
theorem walk_eq_rotate (h : w.Steps c) (hi : i < c) :
    w.walk c c i = .ok ((List.range c).rotate (i + 1)) := by
  have hadvance : (fun k => w.advance c (k + 1) i) = fun k => pure ((i + 1 + k) % c) := by
    funext k
    rw [h.advance_eq (k + 1) hi, Nat.add_comm k 1, ← Nat.add_assoc]
    rfl
  rw [walk_eq_mapM, hadvance, List.mapM_pure, map_range_mod]
  rfl

theorem turns (h : w.Steps c) : w.Turns c where
  advance_eq _ hi count := h.advance_eq count hi
  walk_perm i hi := ⟨_, h.walk_eq_rotate hi, List.rotate_perm _ _⟩
  reached_once := by
    intro i hi j hj
    obtain ⟨k, ⟨hk, hkj⟩, hunique⟩ := existsUnique_mod_eq i hj
    refine ⟨k, ⟨hk, ?_⟩, ?_⟩
    · rw [h.advance_eq k hi, hkj]
    · rintro k' ⟨hk', hreached⟩
      rw [h.advance_eq k' hi] at hreached
      exact hunique k' ⟨hk', Except.ok.inj hreached⟩

end Steps

/-! ## Which rules go around -/

theorem steps_of_ne_mask (hw : c < Word.limit) (h : w ≠ mask) : w.Steps c := by
  intro i hi
  cases w with
  | compare => exact compare_next hw hi
  | mask => exact absurd rfl h
  | modulo => exact modulo_next hw hi

/-- From the last place, masking steps to the digits that the size shares with the number before. -/
theorem mask_next_last (hpos : 0 < c) (hw : c < Word.limit) :
    mask.next (c - 1) c = .ok (c &&& (c - 1)) := by
  rw [mask_next hw (Nat.sub_one_lt_of_lt hpos), Nat.sub_add_cancel hpos]

theorem and_pred_eq_zero_iff (hpos : 0 < c) : c &&& (c - 1) = 0 ↔ ∃ k, c = 2 ^ k :=
  Nat.and_sub_one_eq_zero_iff_isPowerOfTwo (Nat.ne_of_gt hpos)

theorem steps_mask_iff (hpos : 0 < c) (hw : c < Word.limit) : mask.Steps c ↔ ∃ k, c = 2 ^ k := by
  constructor
  · intro h
    have hlast := h (c - 1) (Nat.sub_one_lt_of_lt hpos)
    rw [mask_next_last hpos hw, Nat.sub_add_cancel hpos, Nat.mod_self] at hlast
    exact (and_pred_eq_zero_iff hpos).mp (Except.ok.inj hlast)
  · intro h i hi
    exact mask.next_eq_mod (Capacity.isPower_iff.mpr h) hw hi

/-- **Comparing and taking remainders go around a store of any size, and masking agrees with them just
    where the size is a power of two.**  Where it is none, masking steps from the last place to another
    than place zero. -/
theorem turns_of_rules (hpos : 0 < c) (hw : c < Word.limit) :
    (∀ w, w ≠ mask → w.Turns c) ∧
      ((∀ i < c, ∀ w : IndexRule, mask.next i c = w.next i c) ↔ ∃ k, c = 2 ^ k) ∧
      ((¬ ∃ k, c = 2 ^ k) →
        (∃ n, n ≠ 0 ∧ mask.next (c - 1) c = .ok n) ∧ ∀ w, w ≠ mask → w.next (c - 1) c = .ok 0) := by
  refine ⟨fun w h => (steps_of_ne_mask hw h).turns, ?_, fun hno => ⟨?_, fun w h => ?_⟩⟩
  · rw [← steps_mask_iff hpos hw]
    constructor
    · intro h i hi
      rw [h i hi compare, compare_next hw hi]
    · intro h i hi w
      by_cases hmask : w = mask
      · rw [hmask]
      · rw [h i hi, steps_of_ne_mask hw hmask i hi]
  · exact ⟨c &&& (c - 1), mt (and_pred_eq_zero_iff hpos).mp hno, mask_next_last hpos hw⟩
  · rw [steps_of_ne_mask hw h (c - 1) (Nat.sub_one_lt_of_lt hpos), Nat.sub_add_cancel hpos,
      Nat.mod_self]

/-- The largest store that a word counts, stepped more often than a word counts; and the largest whose
    size is a power of two. -/
theorem turns_of_rules_of_last_word :
    let c := Word.limit - 1
    0 < c ∧ c < Word.limit ∧ compare.advance c (2 ^ 70) (c - 1) = .ok 63 ∧
      modulo.advance c (2 ^ 70) (c - 1) = .ok 63 ∧
      (∃ n, n ≠ 0 ∧ mask.next (c - 1) c = .ok n) ∧ compare.next (c - 1) c = .ok 0 ∧
      ∀ i < 2 ^ 63, mask.next i (2 ^ 63) = modulo.next i (2 ^ 63) := by
  intro c
  have hpos : 0 < c := by decide
  have hw : c < Word.limit := by decide
  have hlast : c - 1 < c := by decide
  have hremainder : (c - 1 + 2 ^ 70) % c = 63 := by decide
  -- an odd number above one shares digits with the number before it
  have hno : ¬ ∃ k, c = 2 ^ k := by
    rw [← and_pred_eq_zero_iff hpos]
    decide
  obtain ⟨hturns, _, hmissed⟩ := turns_of_rules hpos hw
  obtain ⟨_, hagree, _⟩ := turns_of_rules (c := 2 ^ 63) (by decide) (by decide)
  obtain ⟨hmask, hothers⟩ := hmissed hno
  have hcompare := (hturns compare (by decide)).advance_eq (c - 1) hlast (2 ^ 70)
  have hmodulo := (hturns modulo (by decide)).advance_eq (c - 1) hlast (2 ^ 70)
  rw [hremainder] at hcompare hmodulo
  exact ⟨hpos, hw, hcompare, hmodulo, hmask, hothers compare (by decide),
    fun i hi => hagree.mpr ⟨63, rfl⟩ i hi modulo⟩

end Fifo.IndexRule
