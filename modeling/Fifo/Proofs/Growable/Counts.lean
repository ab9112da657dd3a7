/-
  COUNTS of the moves of a growable queue, and for how long they can be raised.

  1. **Two reasons** — a call counts one move at most, so that counts which are `n` below the last word
     are good for `n` calls.  The count of a queue that NEVER shrinks is good for ever: every move has
     doubled the store, which has more slots than there were moves, and fewer than there are words.

  2. **A call** — `Spare n q` is either of the two.  With a call to come, the move that it makes can be
     counted (`Spare.grows_lt`, `Spare.shrinks_lt`), and what is left is for the calls after it.

  3. **What stops a call** — is a store that could not be had, unless there is no count to spare.

  4. **A run** — so in a run of fewer than `2 ^ 64` calls on a new queue, and in any run on one that
     never shrinks, no call is stopped by a count (`throughout_spare`).
-/
import Fifo.Proofs.Growable.Outcomes
import Fifo.Proofs.Refinement

namespace Fifo.GrowableQueue

variable {p : Placement} {w : IndexRule} {s : ShrinkPolicy}

open Fifo.Ring (Fitting)
open Queue (Throughout)

/-- `Spare n q` — the moves of `n` more calls can be counted: the queue never shrinks and has more
    slots than it has made moves, or both counts are far enough below the last word. -/
def Spare (n : Nat) (q : GrowableQueue p w s) : Prop :=
  (s = .never ∧ q.grows < q.capacity) ∨
    (q.grows + n < Word.limit ∧ q.shrinks + n < Word.limit)

namespace Spare

variable {q q' : GrowableQueue p w s} {m n : Nat}

/-! ## A call -/

theorem mono (h : q.Spare n) (hle : m ≤ n) : q.Spare m := by
  refine h.imp_right ?_
  rintro ⟨hgrows, hshrinks⟩
  constructor <;> omega

/-- A move up can be counted. -/
theorem grows_lt (h : q.Spare (n + 1)) (hf : Fitting q.ring) : q.grows + 1 < Word.limit := by
  rcases h with ⟨_, hlt⟩ | ⟨hlt, _⟩
  · exact Nat.lt_of_le_of_lt hlt hf.word
  · omega

/-- So can a move that the policy asks for. -/
theorem shrinks_lt (h : q.Spare (n + 1)) {size capacity target : Nat}
    (hasked : s.shrinkTo size capacity = some target) : q.shrinks + 1 < Word.limit := by
  rcases h with ⟨rfl, _⟩ | ⟨_, hlt⟩
  · nomatch hasked
  · omega

/-- A call raises each count by one at most. -/
theorem next (h : q.Spare (n + 1)) (hgrows : q'.grows ≤ q.grows + 1)
    (hshrinks : q'.shrinks ≤ q.shrinks + 1)
    (hslots : s = .never → q.grows < q.capacity → q'.grows < q'.capacity) : q'.Spare n := by
  rcases h with ⟨hs, hlt⟩ | ⟨hup, hdown⟩
  · exact .inl ⟨hs, hslots hs hlt⟩
  · right
    constructor <;> omega

theorem enqueued (h : q.Spare (n + 1)) (hf : Fitting q.ring) (v : Int32) :
    (q.enqueued v).state.Spare n := by
  rcases enqueued_cases hf v with ⟨_, he⟩ | ⟨_, _, _, he⟩ | ⟨_, _, hn, _⟩ | ⟨_, _, he⟩
  · rw [he]
    refine h.next (Nat.le_succ _) (Nat.le_succ _) fun _ hlt => ?_
    rwa [capacity_written]
  · rw [he]
    refine h.next (Nat.le_refl _) (Nat.le_succ _) fun _ hlt => ?_
    rw [capacity_written, capacity_movedUp hf]
    show q.grows + 1 < 2 * q.capacity
    omega
  · exact absurd (h.grows_lt hf) hn
  · rw [he]
    exact h.mono (Nat.le_succ n)

theorem consulted (h : q.Spare (n + 1)) : q.consulted.state.Spare n := by
  cases hasked : s.shrinkTo q.size q.capacity with
  | none =>
    rw [consulted_of_none hasked]
    exact h.mono (Nat.le_succ n)
  | some target =>
    have hnever : s ≠ .never := by
      rintro rfl
      nomatch hasked
    rcases consulted_of_some hasked with
      ⟨_, _, _, hc⟩ | ⟨_, _, hn, _⟩ | ⟨_, _, hc⟩
    · rw [hc]
      exact h.next (Nat.le_succ _) (Nat.le_refl _) fun hs => absurd hs hnever
    · exact absurd (h.shrinks_lt hasked) hn
    · rw [hc]
      exact h.mono (Nat.le_succ n)

theorem taken (h : q.Spare n) : q.taken.Spare n := by
  unfold Spare
  rw [capacity_taken]
  exact h

theorem dequeued (h : q.Spare (n + 1)) : q.dequeued.state.Spare n := by
  unfold GrowableQueue.dequeued
  by_cases hzero : q.size = 0
  · rw [if_pos hzero]
    exact h.mono (Nat.le_succ n)
  · rw [if_neg hzero]
    exact h.taken.consulted

end Spare

/-! ## What stops a call -/

theorem fault_of_enqueued {q : GrowableQueue p w s} (hf : Fitting q.ring) {v : Int32} {fault : Fault}
    (hfault : (q.enqueued v).result = .error fault) :
    fault.OfStore ∨ ¬ q.Spare 1 ∧ (q.enqueued v).state.countGrow = .error fault := by
  rcases enqueued_cases hf v with ⟨_, he⟩ | ⟨_, _, _, he⟩ | ⟨_, _, hn, he⟩ | ⟨_, _, he⟩ <;>
    rw [he] at hfault ⊢ <;> cases hfault
  · exact .inr ⟨fun h => hn (h.grows_lt hf), countGrow_eq_error hn⟩
  · exact .inl .capacityOverflow

theorem fault_of_consulted {q : GrowableQueue p w s} {fault : Fault}
    (hfault : q.consulted.result = .error fault) :
    fault.OfStore ∨ ¬ q.Spare 1 ∧ q.consulted.state.countShrink = .error fault := by
  cases hasked : s.shrinkTo q.size q.capacity with
  | none =>
    rw [consulted_of_none hasked] at hfault
    nomatch hfault
  | some target =>
    rcases consulted_of_some hasked with
      ⟨_, _, _, hc⟩ | ⟨_, _, hn, hc⟩ | ⟨_, hmoved, hc⟩ <;> rw [hc] at hfault ⊢ <;> cases hfault
    · exact .inr ⟨fun h => hn (h.shrinks_lt hasked), countShrink_eq_error hn⟩
    · exact .inl (Ring.ofStore_of_moved hmoved)

theorem fault_of_dequeued {q : GrowableQueue p w s} {fault : Fault}
    (hfault : q.dequeued.result = .error fault) :
    fault.OfStore ∨ ¬ q.Spare 1 ∧ q.dequeued.state.countShrink = .error fault := by
  unfold dequeued at hfault ⊢
  by_cases hzero : q.size = 0
  · rw [if_pos hzero] at hfault
    nomatch hfault
  · rw [if_neg hzero] at hfault ⊢
    refine (fault_of_consulted (eq_error_of_map hfault)).imp_right ?_
    exact And.imp_left fun hn h => hn h.taken

/-- **What stops an operation is a store that was asked for**, or a count, if there was none to
    spare. -/
theorem fault_of_performed {q : GrowableQueue p w s} (hf : Fitting q.ring) {op : Op} {fault : Fault}
    (hfault : (q.performed op).result = .error fault) :
    fault.OfStore ∨ ¬ q.Spare 1 ∧ ((q.performed op).state.countGrow = .error fault ∨
      (q.performed op).state.countShrink = .error fault) := by
  cases op with
  | enqueue v =>
    exact (fault_of_enqueued hf (eq_error_of_map hfault)).imp_right (And.imp_right .inl)
  | tryEnqueue a v =>
    rw [performed] at hfault ⊢
    cases hrefusal : q.refusal a with
    | some e =>
      rw [hrefusal] at hfault
      cases hfault
    | none =>
      rw [hrefusal] at hfault
      exact (fault_of_enqueued hf (eq_error_of_map hfault)).imp_right (And.imp_right .inl)
  | dequeue => exact (fault_of_dequeued (eq_error_of_map hfault)).imp_right (And.imp_right .inr)

/-! ## A run -/

/-- **A call uses up one of the calls that the counts are good for.** -/
theorem budgeted_spare : Call.Budgeted (perform (p := p) (w := w) (s := s))
    fun n q => Fitting q.ring ∧ q.Spare n := by
  rintro op n q ⟨hf, h⟩
  refine ⟨kept_fitting op hf, ?_⟩
  rw [run_perform hf]
  cases op with
  | enqueue v => exact h.enqueued hf v
  | tryEnqueue a v =>
    rw [performed]
    cases q.refusal a with
    | some e => exact h.mono (Nat.le_succ n)
    | none => exact h.enqueued hf v
  | dequeue => exact h.dequeued

theorem budgeted_spare_queue : Call.Budgeted (Queue.perform (σ := GrowableQueue p w s))
    fun n q => Fitting q.ring ∧ q.Spare n := by
  rintro op n q ⟨hf, h⟩
  cases op with
  | enqueue v =>
    rw [Queue.run_perform_enqueue_eq, Outcome.state_mapAnswer]
    show Fitting ((enqueue v).run q).state.ring ∧ ((enqueue v).run q).state.Spare n
    rw [run_enqueue hf]
    exact ⟨enqueued_of_lasting Ring.lasting_fitting hf v, h.enqueued hf v⟩
  | dequeue =>
    rw [Queue.run_perform_dequeue_eq, Outcome.state_mapAnswer]
    show Fitting (dequeue.run q).state.ring ∧ (dequeue.run q).state.Spare n
    rw [run_dequeue hf]
    exact ⟨dequeued_of_lasting Ring.lasting_fitting hf, h.dequeued⟩

/-- **No call of a run finds a count that can not be raised**, if there is enough to spare for it. -/
theorem throughout_spare {P : GrowableQueue p w s → Queue.Op → Prop} {ops : List Queue.Op}
    {q : GrowableQueue p w s} (hops : Throughout P ops q) (hf : Fitting q.ring)
    (hn : q.Spare ops.length) : Throughout (fun q op => P q op ∧ q.Spare 1) ops q := by
  refine hops.and_of_budgeted budgeted_spare_queue ?_ ⟨hf, hn⟩
  rintro n q ⟨_, h⟩
  exact h.mono (Nat.le_add_left 1 n)

end Fifo.GrowableQueue
