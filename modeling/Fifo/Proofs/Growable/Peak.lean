/-
  THE PEAK of a run, which tells the store of a queue that never shrinks.

  1. **Program** — a move up comes when an element finds the store full, before that element is
     written, and doubles the store once.  Under the policy `never` there is no other move.

  2. **Specification** — the PEAK is the largest size that the run has reached so far
     (`isGreatest_peak`).  The store is the least power of two that the peak fits into, unless the
     first store was larger than that.

  3. **Step** — `Peaked.step`: an element that fits leaves the store, and the least power of two above
     the peak is no larger than the store then.  An element that does not fit makes the peak one more
     than a power of two, and the least one above it is twice as large.  What the queue did since the
     peak, where its head is and how often it was refused an element, does not show.
-/
import Mathlib.Algebra.GroupWithZero.Nat
import Mathlib.Order.Bounds.Defs
import Fifo.Proofs.Growable.Gauge

namespace Fifo

open Capacity (leastPower)
open ShrinkPolicy (never halves_never)

/-! ## The gauge and a peak -/

namespace Gauge

variable {g g' : Gauge} {log : List Record} {c peak : Nat}

/-- `Peaked c peak g` — from a vacant store of `c` slots on, the size was never above `peak`, and only
    that tells the storage. -/
structure Peaked (c peak : Nat) (g : Gauge) : Prop where
  size_le : g.size ≤ peak
  capacity_eq : g.capacity = max c (leastPower peak)
  doubled : c * 2 ^ g.grows = g.capacity
  shrinks_eq : g.shrinks = 0

/-- There were fewer moves than there are slots. -/
theorem Peaked.grows_lt (h : Peaked c peak g) (hpos : 0 < g.capacity) : g.grows < g.capacity := by
  have hc : 0 < c := by
    refine Nat.pos_of_ne_zero fun hzero => ?_
    have hdoubled := h.doubled
    rw [hzero, Nat.zero_mul] at hdoubled
    omega
  calc g.grows < 2 ^ g.grows := Nat.lt_two_pow_self
    _ ≤ c * 2 ^ g.grows := Nat.le_mul_of_pos_left _ hc
    _ = g.capacity := h.doubled

/-- A higher peak does not show, as long as it fits into the store. -/
theorem Peaked.of_fits (h : Peaked c peak g) (hp : Capacity.isPower g.capacity = true) {higher : Nat}
    (hle : peak ≤ higher) (hfits : higher ≤ g.capacity) : g.capacity = max c (leastPower higher) := by
  have hleast : leastPower peak ≤ leastPower higher := Capacity.leastPower_mono hle
  have hmost : leastPower higher ≤ g.capacity := Capacity.leastPower_le hp hfits
  have hcapacity := h.capacity_eq
  omega

/-- What was held fits into the store. -/
theorem Peaked.le_capacity (h : Peaked c peak g) : peak ≤ g.capacity := by
  have hle := Capacity.le_leastPower peak
  have hcapacity := h.capacity_eq
  omega

/-- **The store follows the peak**, step by step. -/
theorem Peaked.step (h : Peaked c peak g) (hp : Capacity.isPower g.capacity = true)
    (hstep : Step never g log g') : Peaked c (max peak g'.size) g' := by
  have hfirst : c ≤ g.capacity := by
    have hcapacity := h.capacity_eq
    omega
  have hpeak := h.le_capacity
  have hsize := h.size_le
  cases hstep with
  | idle =>
    rw [Nat.max_eq_left hsize]
    exact h
  | @put c' n grows shrinks hlt =>
    refine ⟨Nat.le_max_right _ _, ?_, h.doubled, h.shrinks_eq⟩
    exact h.of_fits hp (Nat.le_max_left _ _) (Nat.max_le.mpr ⟨hpeak, hlt⟩)
  | @grow c' grows shrinks =>
    -- a full store was the peak so far, and is a power of two
    have hhigher : max peak (c' + 1) = c' + 1 := by
      dsimp only at hpeak
      omega
    refine ⟨Nat.le_max_right _ _, ?_, ?_, h.shrinks_eq⟩
    · rw [hhigher, Capacity.leastPower_succ hp]
      dsimp only at hfirst ⊢
      omega
    · calc c * 2 ^ (grows + 1) = c * 2 ^ grows * 2 := (Nat.mul_assoc _ _ _).symm
        _ = 2 * c' := by rw [h.doubled, Nat.mul_comm]
  | @take c' n grows shrinks =>
    refine ⟨Nat.le_max_right _ _, ?_, h.doubled, h.shrinks_eq⟩
    refine h.of_fits hp (Nat.le_max_left _ _) (Nat.max_le.mpr ⟨hpeak, ?_⟩)
    exact Nat.le_trans (Nat.le_succ n) (Nat.le_trans hsize hpeak)
  | growUncounted hlast hword =>
    -- more moves would have been counted than there are slots
    have hgrows := h.grows_lt (Capacity.pos_of_isPower hp)
    dsimp only at hgrows
    omega
  | shrink _ hasked | shrinkUncounted _ _ hasked => nomatch hasked

/-- Without a move down the store does not get smaller. -/
theorem Step.capacity_le (hstep : Step never g log g') : g.capacity ≤ g'.capacity := by
  cases hstep with
  | idle | put | take => exact Nat.le_refl _
  | grow | growUncounted => exact Nat.le_mul_of_pos_left _ Nat.two_pos
  | shrink _ hasked | shrinkUncounted _ _ hasked => nomatch hasked

end Gauge

namespace GrowableQueue

variable {p : Placement} {w : IndexRule} {s : ShrinkPolicy}

open Call (final)
open Gauge (Peaked)

/-! ## The peak of a run -/

/-- The largest size of a queue in a run: before it, between its operations, and after it. -/
def peak : List Op → GrowableQueue p w s → Nat
  | [], q => q.size
  | op :: rest, q => max q.size (peak rest ((perform op).run q).state)

theorem size_le_peak (ops : List Op) (q : GrowableQueue p w s) : q.size ≤ peak ops q := by
  cases ops with
  | nil => exact Nat.le_refl _
  | cons op rest => exact Nat.le_max_left _ _

/-- The sizes that a run has reached are those after its beginnings. -/
theorem isGreatest_peak (ops : List Op) (q : GrowableQueue p w s) :
    IsGreatest {n | ∃ before, before <+: ops ∧ (final perform before q).size = n} (peak ops q) := by
  induction ops generalizing q with
  | nil =>
    refine ⟨⟨[], List.nil_prefix, rfl⟩, ?_⟩
    rintro n ⟨before, hbefore, rfl⟩
    rw [List.prefix_nil.mp hbefore]
    exact Nat.le_refl _
  | cons op rest ih =>
    obtain ⟨⟨reached, hreached, hsize⟩, hmost⟩ := ih ((perform op).run q).state
    constructor
    · -- the peak is the size before the run, or one that the rest of the run has reached
      rcases Nat.le_total (peak rest ((perform op).run q).state) q.size with hnow | hlater
      · exact ⟨[], List.nil_prefix, (Nat.max_eq_left hnow).symm⟩
      · refine ⟨op :: reached, (List.prefix_cons_inj op).mpr hreached, ?_⟩
        exact hsize.trans (Nat.max_eq_right hlater).symm
    · rintro n ⟨before, hbefore, rfl⟩
      cases before with
      | nil => exact Nat.le_max_left _ _
      | cons first before =>
        obtain ⟨rfl, hrest⟩ := List.cons_prefix_cons.mp hbefore
        exact Nat.le_trans (hmost ⟨before, hrest, rfl⟩) (Nat.le_max_right _ _)

/-! ## Runs -/

theorem Made.peaked {q : GrowableQueue p w s} (h : q.Made) : Peaked q.capacity 0 q.gauge := by
  have hpos : 0 < q.capacity := h.fitting.capacity_pos
  rw [h.gauge_eq]
  refine ⟨Nat.le_refl 0, ?_, Nat.mul_one _, rfl⟩
  exact (Nat.max_eq_left hpos).symm

/-- **The store follows the peak**, through a run. -/
theorem peaked_final {c n : Nat} (ops : List Op) {q : GrowableQueue p w never} (hq : Housed q)
    (h : Peaked c n q.gauge) : Peaked c (max n (peak ops q)) (final perform ops q).gauge := by
  induction ops generalizing n q with
  | nil =>
    have hsize : q.size ≤ n := h.size_le
    show Peaked c (max n q.size) q.gauge
    rw [Nat.max_eq_left hsize]
    exact h
  | cons op rest ih =>
    obtain ⟨hstep, hhoused⟩ := step_perform halves_never hq op
    have hrest := ih hhoused (h.step hq.fitting.power hstep)
    -- the size before the operation is below the old peak, the size after it below that of the rest
    have hbefore : q.size ≤ n := h.size_le
    have hafter := size_le_peak rest ((perform op).run q).state
    have hpeak : max (max n ((perform op).run q).state.size) (peak rest ((perform op).run q).state) =
        max n (peak (op :: rest) q) := by
      show _ = max n (max q.size (peak rest ((perform op).run q).state))
      omega
    rw [← hpeak]
    exact hrest

/-- A queue that never shrinks has an element less after a dequeue, and is otherwise as it was. -/
theorem gauge_dequeued_of_never (q : GrowableQueue p w never) :
    q.dequeued.state.gauge = { q.gauge with size := q.size - 1 } := by
  unfold dequeued
  by_cases hzero : q.size = 0
  · rw [if_pos hzero, hzero]
    show q.gauge = ⟨q.capacity, 0, q.grows, q.shrinks⟩
    rw [← hzero]
    rfl
  · rw [if_neg hzero]
    show (⟨q.taken.capacity, q.size - 1, q.grows, q.shrinks⟩ : Gauge) = _
    rw [capacity_taken]
    rfl

/-- **A drain changes the size, and nothing else.** -/
theorem gauge_drained (n : Nat) {q : GrowableQueue p w never} (hq : Housed q) :
    (final perform (List.replicate n .dequeue) q).gauge = { q.gauge with size := q.size - n } := by
  induction n generalizing q with
  | zero => rfl
  | succ n ih =>
    have hrun : ((perform .dequeue).run q).state.gauge = { q.gauge with size := q.size - 1 } := by
      rw [run_perform hq.fitting]
      exact gauge_dequeued_of_never q
    have hsize : ((perform .dequeue).run q).state.size = q.size - 1 := congrArg Gauge.size hrun
    have hone : q.size - 1 - n = q.size - (n + 1) := by omega
    rw [List.replicate_succ, Call.final_cons, ih (step_perform halves_never hq .dequeue).2, hrun,
      hsize, hone]

/-- **A queue that never shrinks has the store that its peak needs**, or its first one, whatever the
    placement, the index rule and the request, and whichever elements were refused: every move up has
    doubled it, and there was no other move.  So it does not get smaller, and draining the queue leaves
    it as it is. -/
theorem store_of_peak {requested : Nat} {q : GrowableQueue p w never}
    (hq : new p w never requested = .ok q ∨ ∃ a, new? a p w never requested = .ok q)
    (ops : List Op) :
    let c := leastPower requested
    let q' := final perform ops q
    IsGreatest {n | ∃ before, before <+: ops ∧ (final perform before q).size = n} (peak ops q) ∧
    q'.capacity = max c (leastPower (peak ops q)) ∧
    c * 2 ^ q'.grows = q'.capacity ∧ q'.shrinks = 0 ∧
    (∀ more, q'.capacity ≤ (final perform more q').capacity) ∧
    ∀ n, (final perform (List.replicate n .dequeue) q').gauge =
      ⟨q'.capacity, q'.size - n, q'.grows, 0⟩ := by
  intro c q'
  have hmade : q.Made := ⟨requested, hq⟩
  have hnew : new p w never requested = .ok q := by
    rcases hq with hnew | ⟨a, hreserved⟩
    · exact hnew
    · exact new_of_new? hreserved
  have hcapacity : q.capacity = c := by
    rw [(new_eq_ok hnew).1]
    exact Store.size_vacant p _
  have hhoused : Housed q' := (kept_housed halves_never).final ops hmade.housed
  have hpeaked : Peaked c (peak ops q) q'.gauge := by
    have hfinal := peaked_final ops hmade.housed hmade.peaked
    rwa [hcapacity, Nat.zero_max] at hfinal
  have hshrinks : q'.shrinks = 0 := hpeaked.shrinks_eq
  refine ⟨isGreatest_peak ops q, hpeaked.capacity_eq, hpeaked.doubled, hshrinks, ?_, ?_⟩
  · intro more
    exact gauge_final halves_never (fun g => q'.capacity ≤ g.capacity)
      (fun _ hstep h => Nat.le_trans h hstep.capacity_le) more hhoused (Nat.le_refl _)
  · intro n
    rw [gauge_drained n hhoused, gauge, hshrinks]

/-- Five elements at most in a store for three, one of them refused when it is full: moved once, and
    not by what comes after. -/
theorem store_of_peak_of_five :
    let q : GrowableQueue .boxed .modulo never := ⟨Ring.vacant .boxed 4, 0, 0⟩
    let ops : List Op :=
      [.enqueue 1, .enqueue 2, .enqueue 3, .enqueue 4, .tryEnqueue (fun _ => false) 5, .enqueue 6,
        .dequeue, .dequeue, .enqueue 7]
    let q' := final perform ops q
    (new .boxed .modulo never 3 = .ok q ∨ ∃ a, new? a .boxed .modulo never 3 = .ok q) ∧
    q'.capacity = max (leastPower 3) (leastPower (peak ops q)) ∧ peak ops q = 5 ∧
    q'.capacity = 8 ∧ q'.grows = 1 ∧ q'.size = 4 := by
  intro q ops q'
  have hq : new .boxed .modulo never 3 = .ok q := rfl
  obtain ⟨_, hcapacity, _⟩ := store_of_peak (.inl hq) ops
  exact ⟨.inl hq, hcapacity, by decide +kernel, by decide +kernel, by decide +kernel,
    by decide +kernel⟩

end GrowableQueue
end Fifo
