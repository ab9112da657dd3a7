/-
  AMORTIZED: a call pays for two elements, and it takes many calls from one move to the next.

  1. **Cost** — a queue saves up for its next move (`Gauge.savings`): two for each element that is
     above half of the store, against the move up; or one for each that is below half, against the
     move down, but no more than there are elements.  A move spends what was saved.  So a call pays two
     at most, for moving and saving together, and a new queue has saved nothing.

  2. **Time** — after a move the store is half full, or has one element more than that.  Sizes
     change by one a call, so it takes half the capacity to get to a move up, and a quarter of it to
     get to a move down; to the next move, and so to every later one (`Spaced`).

  A move that can not be counted is a move here: it changes the capacity, though it leaves no record.
-/
import Mathlib.Algebra.GroupWithZero.Nat
import Fifo.Proofs.Growable.Gauge

namespace Fifo

open ShrinkPolicy (never quarter halves_of_standard)

/-- How many elements were moved between stores, by a record. -/
def Record.moved : Record → Nat
  | .grew _ size => size
  | .shrank _ size => size
  | .segmentAllocated _ => 0
  | .segmentReleased => 0

namespace Gauge

variable {s : ShrinkPolicy} {g g' : Gauge} {log : List Record}

/-- How many moves were counted, up and down. -/
def moves (g : Gauge) : Nat := g.grows + g.shrinks

/-- What is saved for the next move. -/
def savings (g : Gauge) : Nat :=
  max (2 * g.size - g.capacity) (min g.size (g.capacity / 2 - g.size))

/-! ## A call -/

/-- **A call pays for two elements**, which are moved or saved for. -/
theorem Step.moved_add_savings_le (h : Step s g log g') :
    (log.map Record.moved).sum + g'.savings ≤ g.savings + 2 := by
  unfold savings
  cases h with
  | idle | put | take | growUncounted =>
    simp only [List.map_nil, List.sum_nil, Nat.zero_add]
    omega
  | shrinkUncounted _ hleast =>
    rw [ShrinkPolicy.double_floor] at hleast
    simp only [List.map_nil, List.sum_nil, Nat.zero_add]
    omega
  | grow =>
    simp only [List.map_cons, List.map_nil, List.sum_singleton, Record.moved]
    omega
  | shrink hleast =>
    rw [ShrinkPolicy.double_floor] at hleast
    simp only [List.map_cons, List.map_nil, List.sum_singleton, Record.moved]
    omega

/-- Every move that is counted is logged once. -/
theorem Step.moves_eq (h : Step s g log g') : g'.moves = g.moves + log.length := by
  unfold moves
  cases h with
  | idle | put | take | growUncounted | shrinkUncounted => rfl
  | grow => exact Nat.succ_add _ _
  | shrink => rfl

/-- A move that is counted as one up makes the store larger. -/
theorem Step.capacity_lt_of_grows (h : Step s g log g') (hpos : 0 < g.capacity)
    (hgrown : g.grows < g'.grows) : g.capacity < g'.capacity := by
  cases h with
  | grow =>
    dsimp only at *
    omega
  | idle | put | take | shrink | growUncounted | shrinkUncounted =>
    exact absurd hgrown (Nat.lt_irrefl _)

/-- A move that is counted as one down makes it smaller. -/
theorem Step.capacity_lt_of_shrinks (h : Step s g log g') (hshrunk : g.shrinks < g'.shrinks) :
    g'.capacity < g.capacity := by
  cases h with
  | shrink hleast =>
    rw [ShrinkPolicy.double_floor] at hleast
    dsimp only
    omega
  | idle | put | take | grow | growUncounted | shrinkUncounted =>
    exact absurd hshrunk (Nat.lt_irrefl _)

/-- `Spaced c k g` — so it can be `k` calls after a move that left `c` slots, half of them full. -/
structure Spaced (c k : Nat) (g : Gauge) : Prop where
  /-- Each call takes one element at most. -/
  held : c ≤ 2 * g.size + 2 * k
  /-- The store is not full before `c / 2` calls. -/
  below : c + 2 * g.size ≤ 2 * g.capacity + 2 * k + 2
  /-- It is not down to a quarter before `c / 4` calls. -/
  above : c + g.capacity ≤ 4 * g.size + 4 * k

/-- A move leaves the store half full, or with an element more than that. -/
theorem Step.spaced (h : Step s g log g') (hmoved : g.capacity ≠ g'.capacity) :
    Spaced g'.capacity 0 g' := by
  cases h with
  | idle | put | take => exact absurd rfl hmoved
  | grow | shrink | growUncounted | shrinkUncounted => constructor <;> dsimp only <;> omega

/-- **Each call takes one from the time**, and a further move takes no more than that. -/
theorem Spaced.step {c k : Nat} (h : Spaced c k g) (hstep : Step s g log g') :
    Spaced c (k + 1) g' := by
  obtain ⟨hheld, hbelow, habove⟩ := h
  cases hstep with
  | idle => constructor <;> omega
  | put | take | grow | shrink | growUncounted | shrinkUncounted =>
    dsimp only at hheld hbelow habove
    constructor <;> dsimp only <;> omega

/-- A move up is due when the store is full. -/
theorem Spaced.le_of_larger {c k : Nat} (h : Spaced c k g) (hstep : Step s g log g')
    (hlarger : g.capacity < g'.capacity) : c ≤ 2 * (k + 1) := by
  have hbelow := h.below
  cases hstep with
  | idle | put | take => exact absurd hlarger (Nat.lt_irrefl _)
  | grow | growUncounted =>
    dsimp only at hbelow
    omega
  | shrink | shrinkUncounted =>
    dsimp only at hlarger
    omega

/-- A move down is due when an element more than a quarter is left. -/
theorem Spaced.le_of_smaller {c k : Nat} (h : Spaced c k g) (hstep : Step s g log g')
    (hsmaller : g'.capacity < g.capacity) : c ≤ 4 * (k + 1) := by
  have habove := h.above
  cases hstep with
  | idle | put | take => exact absurd hsmaller (Nat.lt_irrefl _)
  | grow | growUncounted =>
    dsimp only at hsmaller
    omega
  | shrink | shrinkUncounted =>
    dsimp only at habove
    omega

end Gauge

namespace GrowableQueue

variable {p : Placement} {w : IndexRule} {s : ShrinkPolicy}

open Call (final logged)

/-! ## A run -/

/-- **A run pays for two elements a call.** -/
theorem moved_add_savings_le (hs : s.Halves) (ops : List Op) {q : GrowableQueue p w s}
    (hq : Housed q) :
    ((logged perform ops q).map Record.moved).sum + (final perform ops q).gauge.savings ≤
      q.gauge.savings + 2 * ops.length := by
  induction ops generalizing q with
  | nil => exact Nat.le_of_eq (Nat.zero_add _)
  | cons op rest ih =>
    obtain ⟨hstep, hhoused⟩ := step_perform hs hq op
    have hcall := hstep.moved_add_savings_le
    have hrest := ih hhoused
    rw [Call.logged_cons, Call.final_cons, List.map_append, List.sum_append, List.length_cons]
    omega

/-- As many moves were counted as were logged. -/
theorem moves_final (hs : s.Halves) (ops : List Op) {q : GrowableQueue p w s} (hq : Housed q) :
    (final perform ops q).gauge.moves = q.gauge.moves + (logged perform ops q).length := by
  induction ops generalizing q with
  | nil => rfl
  | cons op rest ih =>
    obtain ⟨hstep, hhoused⟩ := step_perform hs hq op
    rw [Call.final_cons, ih hhoused, hstep.moves_eq, Call.logged_cons, List.length_append,
      Nat.add_assoc]

/-- **Time goes on**: so it can be that many calls later. -/
theorem spaced_final (hs : s.Halves) {c k : Nat} (ops : List Op) {q : GrowableQueue p w s}
    (hq : Housed q) (h : Gauge.Spaced c k q.gauge) :
    Gauge.Spaced c (k + ops.length) (final perform ops q).gauge := by
  induction ops generalizing q k with
  | nil => exact h
  | cons op rest ih =>
    obtain ⟨hstep, hhoused⟩ := step_perform hs hq op
    have hrest := ih hhoused (h.step hstep)
    rwa [Nat.add_assoc, Nat.add_comm 1 rest.length] at hrest

/-- **Moves are few, and far between**, under both policies.  In a run of so many calls, no more than
    twice as many elements are moved, by what is logged; and all moves that are counted are logged.  A
    call that moves changes the capacity.  If it leaves `c` slots, it is at least `c / 2` calls before
    any that moves up, and `c / 4` before any that moves down. -/
theorem moves_in_runs (hs : s = never ∨ s = quarter) {q : GrowableQueue p w s} (hq : q.Made)
    (ops : List Op) :
    ((logged perform ops q).map Record.moved).sum ≤ 2 * ops.length ∧
    (final perform ops q).gauge.moves = (logged perform ops q).length ∧
    ∀ (op : Op) (between : List Op) (op' : Op),
      let before := final perform ops q
      let after := ((perform op).run before).state
      let before' := final perform between after
      let after' := ((perform op').run before').state
      (before.grows < after.grows → before.capacity < after.capacity) ∧
      (before.shrinks < after.shrinks → after.capacity < before.capacity) ∧
      (before.capacity ≠ after.capacity →
        (before'.capacity < after'.capacity → after.capacity ≤ 2 * (between.length + 1)) ∧
        (after'.capacity < before'.capacity → after.capacity ≤ 4 * (between.length + 1))) := by
  have hhalves : s.Halves := halves_of_standard hs
  have hhoused : Housed q := hq.housed
  refine ⟨?_, ?_, ?_⟩
  · have hnone : q.gauge.savings = 0 := by
      rw [hq.gauge_eq]
      simp [Gauge.savings]
    have hpaid := moved_add_savings_le hhalves ops hhoused
    omega
  · have hnone : q.gauge.moves = 0 := by
      rw [hq.gauge_eq]
      rfl
    rw [moves_final hhalves ops hhoused, hnone, Nat.zero_add]
  · intro op between op' before after before' after'
    have hbefore : Housed before := (kept_housed hhalves).final ops hhoused
    obtain ⟨hstep, hafter⟩ := step_perform hhalves hbefore op
    refine ⟨hstep.capacity_lt_of_grows hbefore.fitting.capacity_pos, hstep.capacity_lt_of_shrinks,
      fun hmoved => ?_⟩
    have hbefore' : Housed before' := (kept_housed hhalves).final between hafter
    obtain ⟨hstep', _⟩ := step_perform hhalves hbefore' op'
    have hspaced : Gauge.Spaced after.capacity between.length before'.gauge := by
      have hfinal := spaced_final hhalves between hafter (hstep.spaced hmoved)
      rwa [Nat.zero_add] at hfinal
    exact ⟨hspaced.le_of_larger hstep', hspaced.le_of_smaller hstep'⟩

/-- A store of 128 slots is halved when 32 elements are left, and doubled 33 calls later. -/
theorem moves_in_runs_of_quarter :
    let q : GrowableQueue .inline .compare quarter := ⟨Ring.vacant .inline 128, 0, 0⟩
    let ops : List Op := List.replicate 33 (.enqueue 7)
    let between : List Op := List.replicate 32 (.enqueue 8)
    let before := final perform ops q
    let after := ((perform .dequeue).run before).state
    let before' := final perform between after
    let after' := ((perform (.enqueue 8)).run before').state
    q.Made ∧ ((logged perform ops q).map Record.moved).sum ≤ 2 * ops.length ∧
    (before.shrinks < after.shrinks ∧ after.capacity < before.capacity) ∧
    before'.capacity < after'.capacity ∧
    after.capacity ≤ 2 * (between.length + 1) ∧ after.capacity = 64 := by
  intro q ops between before after before' after'
  have hq : q.Made := ⟨128, .inl rfl⟩
  obtain ⟨hshrunk, hlarger, hcapacity⟩ : before.shrinks < after.shrinks ∧
    before'.capacity < after'.capacity ∧ after.capacity = 64 := by decide +kernel
  obtain ⟨hcost, _, hnext⟩ := moves_in_runs (.inr rfl) hq ops
  obtain ⟨_, hdown, htime⟩ := hnext .dequeue between (.enqueue 8)
  have hsmaller : after.capacity < before.capacity := hdown (by decide +kernel)
  have hmoved : before.capacity ≠ after.capacity := Nat.ne_of_gt hsmaller
  obtain ⟨hup, _⟩ := htime hmoved
  exact ⟨hq, hcost, ⟨hshrunk, hsmaller⟩, hlarger, hup hlarger, hcapacity⟩

end GrowableQueue
end Fifo
