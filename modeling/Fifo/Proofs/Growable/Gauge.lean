/-
  THE GAUGE of a growable queue: its capacity, its size, and how often it moved up and down.

  Under a policy that halves (`ShrinkPolicy.Halves`) there are SEVEN ways in which an operation moves
  the gauge (`Gauge.Step`):

        idle      nothing changed: no element to take, no memory for another, or a refusal
        put       an element more
        grow      twice the slots, and an element more
        take      an element less
        shrink    half the slots, and an element less

        growUncounted, shrinkUncounted
                  the store of a move whose count is the last word already; the call is stopped
                  there, before the log, and before the element of a move up is written

  The two last ones are excluded where there are counts to spare (`Spare.countable`); the others log
  a record exactly when they move between stores.

  What the elements are, and where in the ring they lie, is not seen.  Whatever is said of capacities
  is proved of gauges, one case for each of the ways, and carried over by `step_perform`.
-/
import Fifo.Proofs.Growable.Order

namespace Fifo

/-- What is read off a growable queue about its storage. -/
structure Gauge where
  /-- The number of slots. -/
  capacity : Nat
  /-- The number of elements. -/
  size : Nat
  /-- How often the queue moved up. -/
  grows : Nat
  /-- How often it moved down. -/
  shrinks : Nat

/-- `Step s g log g'` — an operation under the policy `s` logs `log`, and moves the gauge from `g` to
    `g'`. -/
inductive Gauge.Step (s : ShrinkPolicy) : Gauge → List Record → Gauge → Prop
  | idle {g : Gauge} : Step s g [] g
  | put {c n grows shrinks : Nat} (hlt : n < c) :
    Step s ⟨c, n, grows, shrinks⟩ [] ⟨c, n + 1, grows, shrinks⟩
  | grow {c grows shrinks : Nat} :
    Step s ⟨c, c, grows, shrinks⟩ [.grew (2 * c) c] ⟨2 * c, c + 1, grows + 1, shrinks⟩
  | take {c n grows shrinks : Nat} (hkept : s.shrinkTo n c = none) :
    Step s ⟨c, n + 1, grows, shrinks⟩ [] ⟨c, n, grows, shrinks⟩
  | shrink {n grows shrinks : Nat} (hleast : 2 * ShrinkPolicy.floor ≤ n)
    (hasked : s.shrinkTo n (4 * n) = some (2 * n)) :
    Step s ⟨4 * n, n + 1, grows, shrinks⟩ [.shrank (2 * n) n] ⟨2 * n, n, grows, shrinks + 1⟩
  | growUncounted {c grows shrinks : Nat} (hlast : ¬ grows + 1 < Word.limit)
    (hword : 2 * c < Word.limit) :
    Step s ⟨c, c, grows, shrinks⟩ [] ⟨2 * c, c, grows, shrinks⟩
  | shrinkUncounted {n grows shrinks : Nat} (hlast : ¬ shrinks + 1 < Word.limit)
    (hleast : 2 * ShrinkPolicy.floor ≤ n) (hasked : s.shrinkTo n (4 * n) = some (2 * n)) :
    Step s ⟨4 * n, n + 1, grows, shrinks⟩ [] ⟨2 * n, n, grows, shrinks⟩

/-- `Countable s g` — the move of the next call can be counted, up and, if there is any, down. -/
structure Gauge.Countable (s : ShrinkPolicy) (g : Gauge) : Prop where
  grows_lt : g.grows + 1 < Word.limit
  shrinks_lt : ∀ {size capacity target : Nat}, s.shrinkTo size capacity = some target →
    g.shrinks + 1 < Word.limit

namespace GrowableQueue

variable {p : Placement} {w : IndexRule} {s : ShrinkPolicy}

open Fifo.Ring (Fitting)

/-- The gauge of a queue. -/
def gauge (q : GrowableQueue p w s) : Gauge := ⟨q.capacity, q.size, q.grows, q.shrinks⟩

/-- `Housed q` — the ring is fitting, and memory holds its store. -/
structure Housed (q : GrowableQueue p w s) : Prop where
  fitting : Fitting q.ring
  addressable : Store.addressable p q.capacity = true

theorem Made.housed {q : GrowableQueue p w s} (h : q.Made) : Housed q := by
  refine ⟨h.fitting, ?_⟩
  obtain ⟨requested, hnew⟩ := h.exists_new
  obtain ⟨rfl, _, hm⟩ := new_eq_ok hnew
  show Store.addressable p (Store.vacant p _).size = true
  rwa [Store.size_vacant]

/-- Nothing has moved in a new queue. -/
theorem Made.gauge_eq {q : GrowableQueue p w s} (h : q.Made) : q.gauge = ⟨q.capacity, 0, 0, 0⟩ := by
  obtain ⟨requested, hnew⟩ := h.exists_new
  obtain ⟨rfl, _⟩ := new_eq_ok hnew
  rfl

/-! ## The steps of a queue -/

/-- An enqueue puts, or grows, or is stopped for want of memory or of a count. -/
theorem step_enqueued {q : GrowableQueue p w s} (h : Housed q) (v : Int32) :
    Gauge.Step s q.gauge (q.enqueued v).log (q.enqueued v).state.gauge ∧
      Housed (q.enqueued v).state := by
  have hfitting := enqueued_of_lasting Ring.lasting_fitting h.fitting v
  have hdouble := h.fitting.size_le_double
  rcases enqueued_cases h.fitting v with
    ⟨hlt, he⟩ | ⟨hfull, hm, _, he⟩ | ⟨hfull, hm, hlast, he⟩ | ⟨_, _, he⟩ <;> rw [he] at hfitting ⊢
  · refine ⟨?_, hfitting, ?_⟩
    · show Gauge.Step s _ [] ⟨(q.written v).capacity, q.size + 1, q.grows, q.shrinks⟩
      rw [capacity_written]
      exact .put hlt
    · show Store.addressable p (q.written v).capacity = true
      rw [capacity_written]
      exact h.addressable
  · have hcapacity : (q.movedUp.written v).capacity = 2 * q.capacity :=
      (capacity_written _ v).trans (capacity_movedUp h.fitting)
    refine ⟨?_, hfitting, ?_⟩
    · show Gauge.Step s ⟨q.capacity, q.size, q.grows, q.shrinks⟩ [.grew (2 * q.capacity) q.size]
        ⟨(q.movedUp.written v).capacity, q.size + 1, q.grows + 1, q.shrinks⟩
      rw [hcapacity, hfull]
      exact .grow
    · show Store.addressable p (q.movedUp.written v).capacity = true
      rwa [hcapacity]
  · have hcapacity : (q.inStore (2 * q.capacity)).capacity = 2 * q.capacity :=
      capacity_inStore hdouble
    refine ⟨?_, hfitting, ?_⟩
    · show Gauge.Step s ⟨q.capacity, q.size, q.grows, q.shrinks⟩ []
        ⟨(q.inStore (2 * q.capacity)).capacity, q.size, q.grows, q.shrinks⟩
      rw [hcapacity, hfull]
      exact .growUncounted hlast (Store.lt_limit_of_addressable hm)
    · show Store.addressable p (q.inStore (2 * q.capacity)).capacity = true
      rwa [hcapacity]
  · exact ⟨.idle, h⟩

/-- What comes of asking a policy that halves: half of a store is easier to hold than all of it. -/
theorem consulted_of_halves (hs : s.Halves) {q : GrowableQueue p w s} (h : Housed q) :
    s.shrinkTo q.size q.capacity = none ∧ q.consulted = ⟨q, [], .ok ()⟩ ∨
      2 * ShrinkPolicy.floor ≤ q.size ∧ q.capacity = 4 * q.size ∧
        s.shrinkTo q.size q.capacity = some (2 * q.size) ∧
        (q.consulted = ⟨q.movedDown (2 * q.size), [.shrank (2 * q.size) q.size], .ok ()⟩ ∨
          ¬ q.shrinks + 1 < Word.limit ∧
            q.consulted = ⟨q.inStore (2 * q.size), [], .error .addOverflow⟩) := by
  cases hasked : s.shrinkTo q.size q.capacity with
  | none => exact .inl ⟨rfl, consulted_of_none hasked⟩
  | some target =>
    have hp := h.fitting.power
    obtain ⟨hleast, hcapacity, rfl⟩ := hs q.size q.capacity target hp hasked
    obtain ⟨hpower, hle⟩ := hs.usable q.size q.capacity _ hp hasked
    have hm : Store.addressable p (2 * q.size) = true :=
      Store.addressable_of_le (by omega) h.addressable
    have hmoves : q.ring.moved (2 * q.size) = .ok (q.ring.relocated (2 * q.size)) :=
      Ring.moved_eq_ok.mpr ⟨⟨hm, hpower, hle⟩, rfl⟩
    refine .inr ⟨hleast, hcapacity, rfl, ?_⟩
    rcases consulted_of_some hasked with
      ⟨ring, hmoved, _, hc⟩ | ⟨ring, hmoved, hlast, hc⟩ | ⟨fault, hmoved, _⟩ <;>
      rw [hmoves] at hmoved <;> cases hmoved
    · exact .inl hc
    · exact .inr ⟨hlast, hc⟩

/-- A dequeue takes, or shrinks, or finds nothing. -/
theorem step_dequeued (hs : s.Halves) {q : GrowableQueue p w s} (h : Housed q) :
    Gauge.Step s q.gauge q.dequeued.log q.dequeued.state.gauge ∧ Housed q.dequeued.state := by
  have hfitting := dequeued_of_lasting Ring.lasting_fitting h.fitting
  unfold dequeued at hfitting ⊢
  by_cases hzero : q.size = 0
  · rw [if_pos hzero]
    exact ⟨.idle, h⟩
  rw [if_neg hzero] at hfitting ⊢
  have hsize : q.size = q.taken.size + 1 := (Nat.succ_pred hzero).symm
  have htaken : Housed q.taken := by
    refine ⟨h.fitting.taken (Nat.pos_of_ne_zero hzero), ?_⟩
    rw [capacity_taken]
    exact h.addressable
  have hbefore : q.gauge = ⟨q.taken.capacity, q.taken.size + 1, q.grows, q.shrinks⟩ := by
    rw [capacity_taken, ← hsize]
    rfl
  rw [hbefore]
  rcases consulted_of_halves hs htaken with ⟨hkept, hrun⟩ | ⟨hleast, hcapacity, hasked, hmoved⟩
  · rw [hrun]
    exact ⟨.take hkept, htaken⟩
  -- the store is the same, whether or not the move is counted
  have hafter : (q.taken.inStore (2 * q.taken.size)).capacity = 2 * q.taken.size :=
    capacity_inStore (by omega)
  have hheld : Store.addressable p (q.taken.inStore (2 * q.taken.size)).capacity = true := by
    rw [hafter]
    exact Store.addressable_of_le (by omega) htaken.addressable
  rw [hcapacity] at hasked ⊢
  rcases hmoved with hrun | ⟨hlast, hrun⟩ <;> rw [hrun] at hfitting ⊢
  · refine ⟨?_, hfitting, hheld⟩
    show Gauge.Step s _ [.shrank (2 * q.taken.size) q.taken.size]
      ⟨(q.taken.inStore (2 * q.taken.size)).capacity, q.taken.size, q.grows, q.shrinks + 1⟩
    rw [hafter]
    exact .shrink hleast hasked
  · refine ⟨?_, hfitting, hheld⟩
    show Gauge.Step s _ []
      ⟨(q.taken.inStore (2 * q.taken.size)).capacity, q.taken.size, q.grows, q.shrinks⟩
    rw [hafter]
    exact .shrinkUncounted hlast hleast hasked

/-- **An operation is a step**, of a queue under a policy that halves. -/
theorem step_perform (hs : s.Halves) {q : GrowableQueue p w s} (h : Housed q) (op : Op) :
    let o := (perform op).run q
    Gauge.Step s q.gauge o.log o.state.gauge ∧ Housed o.state := by
  rw [run_perform h.fitting]
  cases op with
  | enqueue v => exact step_enqueued h v
  | tryEnqueue a v =>
    rw [performed]
    cases q.refusal a with
    | some e => exact ⟨.idle, h⟩
    | none => exact step_enqueued h v
  | dequeue => exact step_dequeued hs h

/-- Where there are counts to spare, a move can be counted. -/
theorem Spare.countable {n : Nat} {q : GrowableQueue p w s} (h : q.Spare (n + 1))
    (hf : Fitting q.ring) : q.gauge.Countable s :=
  { grows_lt := h.grows_lt hf
    shrinks_lt := fun hasked => h.shrinks_lt hasked }

/-! ## Runs -/

theorem kept_housed (hs : s.Halves) : Call.Kept (perform (p := p) (w := w) (s := s)) Housed := by
  intro op q hq
  exact (step_perform hs hq op).2

/-- **What is true of a gauge after every step**, from a capacity that is a power of two, is true after
    every run. -/
theorem gauge_final (hs : s.Halves) (Inv : Gauge → Prop)
    (hstep : ∀ {g log g'}, Capacity.isPower g.capacity = true → Gauge.Step s g log g' → Inv g →
      Inv g')
    (ops : List Op) {q : GrowableQueue p w s} (hq : Housed q) (hinv : Inv q.gauge) :
    Inv (Call.final perform ops q).gauge := by
  have hkept : Call.Kept (perform (p := p) (w := w) (s := s))
      fun q => Housed q ∧ Inv q.gauge := by
    rintro op q ⟨hq, hinv⟩
    obtain ⟨hmoved, hhoused⟩ := step_perform hs hq op
    exact ⟨hhoused, hstep hq.fitting.power hmoved hinv⟩
  exact (hkept.final ops ⟨hq, hinv⟩).2

end GrowableQueue
end Fifo
