/-
  RUNS: what every call keeps, a run keeps.

  A fault does not end a run: the calls after it find the value as the fault left it.  So an
  invariant of runs is one that EVERY call keeps, the stopped ones too (`Kept`), and then it holds of
  every value that a run passes through.  What does not hold for ever may last for a number of calls,
  of which each call uses up one (`Budgeted`).  The inductions over a run are here, once each:

  * `Budgeted.final` and `Budgeted.outcomes` — from a call to the value after a run, and to its
    outcomes; so too for `Kept`, which uses up nothing;
  * `Kept.trace_eq` — from a call to two runs of which the second follows the first;
  * `logged_final` — from a call to the value after a run and everything that was logged on the way.
-/
import Fifo.Call

namespace Fifo.Call

variable {σ τ α ι : Type} {perform : ι → Call σ α}

/-- `Budgeted perform Inv` — what is true with so many calls to come, is true after one of them with
    one less to come. -/
def Budgeted (perform : ι → Call σ α) (Inv : Nat → σ → Prop) : Prop :=
  ∀ (i : ι) {n : Nat} {s : σ}, Inv (n + 1) s → Inv n ((perform i).run s).state

namespace Budgeted

variable {Inv : Nat → σ → Prop}

/-- The calls that a run does not make are left. -/
theorem final (h : Budgeted perform Inv) (is : List ι) {n : Nat} {s : σ}
    (hs : Inv (n + is.length) s) : Inv n (final perform is s) := by
  induction is generalizing s with
  | nil => exact hs
  | cons i rest ih => exact ih (h i hs)

/-- What is true of every call that finds a call to come is true of every outcome of a run. -/
theorem outcomes (h : Budgeted perform Inv) {P : Outcome σ α → Prop}
    (hP : ∀ (i : ι) {n : Nat} {s : σ}, Inv (n + 1) s → P ((perform i).run s)) (is : List ι) {s : σ}
    (hs : Inv is.length s) : ∀ o ∈ trace perform is s, P o := by
  induction is generalizing s with
  | nil =>
    intro o ho
    exact absurd ho List.not_mem_nil
  | cons i rest ih =>
    intro o ho
    rcases List.mem_cons.mp ho with rfl | hrest
    · exact hP i hs
    · exact ih (h i hs) o hrest

end Budgeted

/-- `Kept perform Inv` — whatever a call does to a value, `Inv` is true of it again. -/
def Kept (perform : ι → Call σ α) (Inv : σ → Prop) : Prop :=
  ∀ (i : ι) {s : σ}, Inv s → Inv ((perform i).run s).state

namespace Kept

variable {Inv : σ → Prop}

theorem budgeted (h : Kept perform Inv) : Budgeted perform fun _ => Inv := fun i _ _ hs => h i hs

theorem final (h : Kept perform Inv) (is : List ι) {s : σ} (hs : Inv s) :
    Inv (final perform is s) := h.budgeted.final is (n := 0) hs

/-- What is true of every call that finds the invariant is true of every outcome of a run. -/
theorem outcomes (h : Kept perform Inv) {P : Outcome σ α → Prop}
    (hP : ∀ (i : ι) {s : σ}, Inv s → P ((perform i).run s)) (is : List ι) {s : σ} (hs : Inv s) :
    ∀ o ∈ trace perform is s, P o := h.budgeted.outcomes (fun i _ _ hs => hP i hs) is hs

/-- A run on a value that is read otherwise, if every call on it is the same call, read otherwise. -/
theorem trace_eq (h : Kept perform Inv) {f : σ → τ} {perform' : ι → Call τ α}
    (hstep : ∀ (i : ι) {s : σ}, Inv s →
      (perform' i).run (f s) = ((perform i).run s).mapState f) (is : List ι) {s : σ} (hs : Inv s) :
    trace perform' is (f s) = (trace perform is s).map (Outcome.mapState f) := by
  induction is generalizing s with
  | nil => rfl
  | cons i rest ih =>
    have hrest := ih (h i hs)
    show (perform' i).run (f s) :: trace perform' rest ((perform' i).run (f s)).state =
      ((perform i).run s).mapState f ::
        (trace perform rest ((perform i).run s).state).map (Outcome.mapState f)
    rw [hstep i hs, ← hrest]
    rfl

end Kept

/-- What every call keeps true of a value and of everything logged before, is true after a run. -/
theorem logged_final (perform : ι → Call σ α) (Inv : List Record → σ → Prop)
    (hstep : ∀ (i : ι) {log : List Record} {s : σ}, Inv log s →
      Inv (log ++ ((perform i).run s).log) ((perform i).run s).state)
    (is : List ι) {log : List Record} {s : σ} (hs : Inv log s) :
    Inv (log ++ logged perform is s) (Call.final perform is s) := by
  induction is generalizing log s with
  | nil =>
    show Inv (log ++ []) s
    rwa [List.append_nil]
  | cons i rest ih =>
    rw [logged_cons, ← List.append_assoc]
    exact ih (hstep i hs)

/-! ## Stopped calls -/

/-- How many outcomes are those of calls that were stopped. -/
def stops (outcomes : List (Outcome σ α)) : Nat := outcomes.countP fun o => !o.result.isOk

/-- What the answer is does not matter. -/
@[simp] theorem stops_mapAnswer {β : Type} (f : α → β) (o : Outcome σ α) :
    stops [o.mapAnswer f] = stops [o] := by
  obtain ⟨s, log, _ | a⟩ := o <;> rfl

theorem stops_cons (o : Outcome σ α) (rest : List (Outcome σ α)) :
    stops (o :: rest) = stops [o] + stops rest := by
  show stops ([o] ++ rest) = _
  exact List.countP_append

theorem stops_eq_zero {outcomes : List (Outcome σ α)}
    (h : ∀ o ∈ outcomes, ∃ a, o.result = .ok a) : stops outcomes = 0 := by
  refine List.countP_eq_zero.mpr fun o ho => ?_
  obtain ⟨a, ha⟩ := h o ho
  rw [ha]
  exact Bool.false_ne_true

end Fifo.Call
