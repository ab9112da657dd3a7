/-
  A QUARTER: how large the store of a queue is for what it holds, under the quarter policy.

  A queue that is seldom full to a quarter of its first store RESTS in it.  Once it has held more, it
  WORKS: the store has fewer than four slots for each element, or 64 and no more.

        capacity < 4 * size     an element less makes  capacity = 4 * size  at worst,
                                and that is where the policy asks for half

  So the size can not pass the quarter unseen: elements go one at a time, and the capacity is divisible
  by four.  Moving up leaves the store half full, as does moving down, which is well above a quarter.
-/
import Mathlib.Algebra.Group.Nat.Defs
import Fifo.Proofs.Growable.Gauge

namespace Fifo

open ShrinkPolicy (quarter halves_quarter)

namespace Gauge

/-- `Balanced c g` — every move doubled or halved the capacity, which was `c`. -/
def Balanced (c : Nat) (g : Gauge) : Prop := g.capacity * 2 ^ g.shrinks = c * 2 ^ g.grows

/-- `Resting c g` — the queue never moved out of a store of `c` slots. -/
def Resting (c : Nat) (g : Gauge) : Prop := g.capacity = c ∧ g.grows = 0 ∧ g.shrinks = 0

/-- `Working g` — there are fewer than four slots for each element, or few slots altogether. -/
def Working (g : Gauge) : Prop := g.capacity ≤ 64 ∨ g.capacity < 4 * g.size

variable {s : ShrinkPolicy} {g g' : Gauge} {log : List Record} {c : Nat}

theorem Balanced.step (h : Balanced c g) (hn : Countable s g) (hstep : Step s g log g') :
    Balanced c g' := by
  unfold Balanced at *
  cases hstep with
  | idle | put | take => exact h
  | growUncounted hlast => exact absurd hn.grows_lt hlast
  | shrinkUncounted hlast _ hasked => exact absurd (hn.shrinks_lt hasked) hlast
  | @grow c' grows shrinks =>
    have hbefore : c' * 2 ^ shrinks = c * 2 ^ grows := h
    calc 2 * c' * 2 ^ shrinks = 2 * (c' * 2 ^ shrinks) := Nat.mul_assoc _ _ _
      _ = c * 2 ^ grows * 2 := by rw [hbefore, Nat.mul_comm]
      _ = c * 2 ^ (grows + 1) := Nat.mul_assoc _ _ _
  | @shrink n grows shrinks =>
    have hbefore : 4 * n * 2 ^ shrinks = c * 2 ^ grows := h
    calc 2 * n * 2 ^ (shrinks + 1) = 2 * n * (2 * 2 ^ shrinks) := by rw [Nat.pow_succ']
      _ = 2 * n * 2 * 2 ^ shrinks := (Nat.mul_assoc _ _ _).symm
      _ = 4 * n * 2 ^ shrinks := by rw [show 2 * n * 2 = 4 * n from by omega]
      _ = c * 2 ^ grows := hbefore

/-- Moving down leaves 64 slots at least. -/
theorem Step.least (hstep : Step s g log g') (h : g'.capacity < g.capacity) : 64 ≤ g'.capacity := by
  cases hstep with
  | idle | put | take => exact absurd h (Nat.lt_irrefl _)
  | grow | growUncounted =>
    dsimp only at h
    omega
  | shrink hleast | shrinkUncounted _ hleast =>
    rw [ShrinkPolicy.double_floor] at hleast
    dsimp only
    omega

/-- The store does not get smaller than it was, or than 64 slots. -/
theorem Step.min_le (hstep : Step s g log g') (h : min c 64 ≤ g.capacity) :
    min c 64 ≤ g'.capacity := by
  cases hstep with
  | idle | put | take => exact h
  | grow | growUncounted => exact Nat.le_trans h (Nat.le_mul_of_pos_left _ Nat.two_pos)
  | shrink hleast | shrinkUncounted _ hleast =>
    rw [ShrinkPolicy.double_floor] at hleast
    have hleft : min c 64 ≤ 64 := Nat.min_le_right _ _
    dsimp only
    omega

/-- A quarter at most is no reason to move. -/
theorem Resting.step (h : Resting c g) (hpos : 0 < c) (hle : g.size ≤ c / 4)
    (hstep : Step s g log g') : Resting c g' := by
  obtain ⟨hcapacity, hgrows, hshrinks⟩ := h
  cases hstep with
  | idle | put | take => exact ⟨hcapacity, hgrows, hshrinks⟩
  | grow | growUncounted =>
    dsimp only at hcapacity hle
    omega
  | shrink hleast | shrinkUncounted _ hleast =>
    dsimp only at hcapacity hle
    omega

/-- More than a quarter is work. -/
theorem Resting.working (h : Resting c g) (hlt : c / 4 < g.size) : Working g := by
  have hcapacity : g.capacity = c := h.1
  right
  omega

/-- **Work goes on**: the size does not get to a quarter without half of the store being given up. -/
theorem Working.step (h : Working g) (hp : Capacity.isPower g.capacity = true)
    (hstep : Step quarter g log g') : Working g' := by
  unfold Working at *
  cases hstep with
  | idle => exact h
  | put =>
    dsimp only at *
    omega
  | grow | growUncounted =>
    dsimp only
    omega
  | shrink hleast | shrinkUncounted _ hleast =>
    rw [ShrinkPolicy.double_floor] at hleast
    dsimp only
    omega
  | @take c' n grows shrinks hkept =>
    dsimp only at *
    -- a quarter above the floor would not have been kept
    have hnot : ¬ (ShrinkPolicy.floor < n ∧ n = c' / 4) := by
      rintro ⟨hfloor, hquarter⟩
      have hasked := ShrinkPolicy.quarter_eq_some_iff.mpr ⟨hfloor, hquarter, rfl⟩
      rw [hkept] at hasked
      nomatch hasked
    have hfloor : ShrinkPolicy.floor = 16 := rfl
    rcases Nat.lt_or_ge 64 c' with hlarge | hsmall
    · have hfour := Capacity.eq_four_mul hp (by omega)
      omega
    · exact .inl hsmall

end Gauge

namespace GrowableQueue

variable {p : Placement} {w : IndexRule}

open Call (final)
open Gauge (Balanced Resting Working)

/-! ## Runs -/

/-- Where every move is counted, the counts tell the capacity. -/
theorem balanced_final {s : ShrinkPolicy} (hs : s.Halves) {c : Nat} (ops : List Op)
    {q : GrowableQueue p w s} (hq : Housed q) (hn : q.Spare ops.length) (h : Balanced c q.gauge) :
    Balanced c (final perform ops q).gauge := by
  have hbudgeted : Call.Budgeted (perform (p := p) (w := w) (s := s))
      fun n q => Housed q ∧ q.Spare n ∧ Balanced c q.gauge := by
    rintro op n q ⟨hq, hn, h⟩
    obtain ⟨hstep, hhoused⟩ := step_perform hs hq op
    obtain ⟨_, hn'⟩ := budgeted_spare op ⟨hq.fitting, hn⟩
    exact ⟨hhoused, hn', h.step (hn.countable hq.fitting) hstep⟩
  have hmade : q.Spare (0 + ops.length) := (Nat.zero_add ops.length).symm ▸ hn
  exact (hbudgeted.final ops ⟨hq, hmade, h⟩).2.2

/-- Until there is more than a quarter, the queue rests. -/
theorem resting_of_le {s : ShrinkPolicy} (hs : s.Halves) {c : Nat} (hpos : 0 < c) (ops : List Op)
    {q : GrowableQueue p w s} (hq : Housed q) (hrest : Resting c q.gauge)
    (hle : ∀ before, before <+: ops → (final perform before q).size ≤ c / 4) :
    Resting c (final perform ops q).gauge := by
  induction ops generalizing q with
  | nil => exact hrest
  | cons op rest ih =>
    obtain ⟨hstep, hhoused⟩ := step_perform hs hq op
    have hnow : q.size ≤ c / 4 := hle [] List.nil_prefix
    refine ih hhoused (hrest.step hpos hnow hstep) fun before hbefore => ?_
    exact hle (op :: before) ((List.prefix_cons_inj op).mpr hbefore)

/-- Once there was more than a quarter, the queue works. -/
theorem working_of_lt {c : Nat} (hpos : 0 < c) (ops : List Op) {q : GrowableQueue p w quarter}
    (hq : Housed q) (hrest : Resting c q.gauge)
    (hlt : ∃ before, before <+: ops ∧ c / 4 < (final perform before q).size) :
    Working (final perform ops q).gauge := by
  obtain ⟨before, ⟨after, rfl⟩, hlt⟩ := hlt
  -- it works from where it was first seen not to rest
  have hsplit {g : Gauge} (h : Resting c g) : Working g ∨ Resting c g ∧ g.size ≤ c / 4 := by
    rcases Nat.lt_or_ge (c / 4) g.size with hmore | hle
    · exact .inl (h.working hmore)
    · exact .inr ⟨h, hle⟩
  have hbefore : Working (final perform before q).gauge ∨
      Resting c (final perform before q).gauge ∧ (final perform before q).gauge.size ≤ c / 4 := by
    refine gauge_final halves_quarter (fun g => Working g ∨ Resting c g ∧ g.size ≤ c / 4)
      (fun hp hstep hinv => ?_) before hq (hsplit hrest)
    rcases hinv with hwork | ⟨hrest, hle⟩
    · exact .inl (hwork.step hp hstep)
    · exact hsplit (hrest.step hpos hle hstep)
  rw [Call.final_append]
  rcases hbefore with hwork | ⟨_, hle⟩
  · have hhoused := (kept_housed halves_quarter).final before hq
    exact gauge_final halves_quarter Working (fun hp hstep hwork => hwork.step hp hstep) after
      hhoused hwork
  · exact absurd hlt (Nat.not_lt.mpr hle)

/-- **The quarter policy keeps the store in proportion.**  Every move doubles or halves the
    capacity, and the counts tell how often, in a run of fewer than `2 ^ 64` calls; no move down
    leaves fewer than 64 slots, and the store never gets smaller than that unless it was.  As soon
    as there were more elements than a quarter of the first store, there are fewer than four slots
    for each, or no more than 64; until then, nothing moves. -/
theorem proportion_in_runs {q : GrowableQueue p w quarter} (hq : q.Made) (ops : List Op) :
    let c := q.capacity
    let q' := final perform ops q
    (ops.length < Word.limit → q'.capacity * 2 ^ q'.shrinks = c * 2 ^ q'.grows) ∧
    min c 64 ≤ q'.capacity ∧
    (∀ op, ((perform op).run q').state.capacity < q'.capacity →
      64 ≤ ((perform op).run q').state.capacity) ∧
    ((∃ before, before <+: ops ∧ c / 4 < (final perform before q).size) →
      q'.capacity ≤ 64 ∨ q'.capacity < 4 * q'.size) ∧
    ((∀ before, before <+: ops → (final perform before q).size ≤ c / 4) →
      q'.capacity = c ∧ q'.grows = 0 ∧ q'.shrinks = 0) := by
  intro c q'
  have hhoused : Housed q := hq.housed
  have hpos : 0 < c := hhoused.fitting.capacity_pos
  have hrest : Resting c q.gauge := by
    rw [hq.gauge_eq]
    exact ⟨rfl, rfl, rfl⟩
  have hbalanced : Balanced c q.gauge := by
    rw [hq.gauge_eq]
    exact rfl
  refine ⟨?_, ?_, ?_, ?_, ?_⟩
  · intro hn
    exact balanced_final halves_quarter ops hhoused (hq.spare (.inr hn)) hbalanced
  · exact gauge_final halves_quarter (fun g => min c 64 ≤ g.capacity)
      (fun _ hstep h => hstep.min_le h) ops hhoused (Nat.min_le_left _ _)
  · intro op hless
    obtain ⟨hstep, _⟩ :=
      step_perform halves_quarter ((kept_housed halves_quarter).final ops hhoused) op
    exact hstep.least hless
  · exact working_of_lt hpos ops hhoused hrest
  · exact resting_of_le halves_quarter hpos ops hhoused hrest

/-- A store of 128 slots that rests with a quarter of them used, works with an element more, and is
    halved when that is gone. -/
theorem proportion_in_runs_of_quarter :
    let q : GrowableQueue .inline .mask quarter := ⟨Ring.vacant .inline 128, 0, 0⟩
    let before : List Op := List.replicate 33 (.enqueue 7)
    let ops : List Op := before ++ [.dequeue]
    let q' := final perform ops q
    q.Made ∧ ops.length < Word.limit ∧
    (∃ before, before <+: ops ∧ q.capacity / 4 < (final perform before q).size) ∧
    (q'.capacity ≤ 64 ∨ q'.capacity < 4 * q'.size) ∧
    q'.capacity * 2 ^ q'.shrinks = q.capacity * 2 ^ q'.grows ∧
    q'.capacity = 64 ∧ q'.size = 32 ∧ q'.shrinks = 1 ∧ (final perform before q).capacity = 128 := by
  intro q before ops q'
  have hq : q.Made := ⟨128, .inl rfl⟩
  have hlt : q.capacity / 4 < (final perform before q).size := by decide +kernel
  have hpast : ∃ before, before <+: ops ∧ q.capacity / 4 < (final perform before q).size :=
    ⟨before, List.prefix_append before [.dequeue], hlt⟩
  obtain ⟨hbalanced, _, _, hworks, _⟩ := proportion_in_runs hq ops
  have hn : ops.length < Word.limit := by decide +kernel
  exact ⟨hq, hn, hpast, hworks hpast, hbalanced hn, by decide +kernel, by decide +kernel,
    by decide +kernel, by decide +kernel⟩

end GrowableQueue
end Fifo
