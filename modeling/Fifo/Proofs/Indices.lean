/-
  INDICES of circular queues, in every state that a run can lead to.

  1. **Fixed queues** — a write beyond the capacity overwrites a slot, and nothing else goes wrong:
     the tail is still as many steps after the head as there are elements COUNTED, now more than a
     turn.

  2. **Growable queues** — a run may be refused memory, or be stopped in a move by the policy it has;
     the ring is fitting all the same, and what stopped it was the store that was asked for, or, after
     `2 ^ 64` calls, the count of moves.

  So no run meets a place outside a store, an index that can not be stepped, or a size below zero:
  those faults are in the definitions, and in no outcome.
-/
import Fifo.Proofs.Fixed.Overflow
import Fifo.Proofs.Growable.Order

namespace Fifo

variable {p : Placement}

/-- What is new begins with an empty history. -/
theorem FixedQueue.Made.follows {w : IndexRule} {q : FixedQueue p w} (h : q.Made) :
    Follows q.capacity .empty q.ring := by
  obtain ⟨requested, hnew⟩ := h.exists_new
  have hf := follows_new hnew
  rw [← hf.capacity_eq] at hf
  exact hf

/-- **The indices of a circular queue are in order in every state**, whatever the placement, the index
    rule, the request and the policy: in a fixed queue as long as the enqueues can be counted in a
    word, however many find it full; in a growable queue always, whichever calls were refused or
    stopped.  What stops those is the store they ask for; only a queue that shrinks can, and not within
    `2 ^ 64` calls, be stopped in counting a move. -/
theorem indices_of_runs (w : IndexRule) :
    (∀ q : FixedQueue p w, q.Made →
      ∀ ops : List Queue.Op, ops.countP (· ≠ .dequeue) < Word.limit →
        (∀ o ∈ Queue.trace ops q, ∃ a, o.result = .ok a) ∧
        Ring.Sound (Queue.after ops q).ring ∧
        (Queue.after ops q).ring.tail < (Queue.after ops q).capacity ∧
        (Queue.after ops q).capacity = q.capacity) ∧
    (∀ (s : ShrinkPolicy) (q : GrowableQueue p w s), q.Made →
      ∀ ops : List GrowableQueue.Op,
        (∀ o ∈ Call.trace GrowableQueue.perform ops q, ∀ fault, o.result = .error fault →
          fault.OfStore ∨ (s ≠ .never ∧ Word.limit ≤ ops.length ∧
            (o.state.countGrow = .error fault ∨ o.state.countShrink = .error fault))) ∧
        Ring.Fitting (Call.final GrowableQueue.perform ops q).ring ∧
        (Call.final GrowableQueue.perform ops q).ring.tail <
          (Call.final GrowableQueue.perform ops q).capacity) := by
  constructor
  · intro q hq ops hn
    have hcount : (History.empty.after ops).writes.length < Word.limit := by
      rw [History.length_writes_after]
      exact Nat.lt_of_le_of_lt (Nat.le_of_eq (Nat.zero_add _)) hn
    obtain ⟨hanswered, hf⟩ := FixedQueue.Follows.run ops hq.follows hcount
    exact ⟨hanswered, hf.toSound, hf.toSound.tail_lt, hf.capacity_eq⟩
  · intro s q hq ops
    have hfinal := GrowableQueue.kept_fitting.final ops hq.fitting
    refine ⟨?_, hfinal, hfinal.tail_lt⟩
    by_cases hn : s = .never ∨ ops.length < Word.limit
    · refine GrowableQueue.budgeted_spare.outcomes ?_ ops ⟨hq.fitting, hq.spare hn⟩
      rintro op n q ⟨hf, hspare⟩ fault hfault
      rw [GrowableQueue.run_perform hf] at hfault
      refine (GrowableQueue.fault_of_performed hf hfault).imp_right ?_
      rintro ⟨hnone, _⟩
      exact absurd (hspare.mono (Nat.le_add_left 1 n)) hnone
    · obtain ⟨hnever, hlong⟩ := not_or.mp hn
      refine GrowableQueue.kept_fitting.outcomes ?_ ops hq.fitting
      intro op q hf fault hfault
      rw [GrowableQueue.run_perform hf] at hfault ⊢
      refine (GrowableQueue.fault_of_performed hf hfault).imp_right ?_
      rintro ⟨_, hcount⟩
      exact ⟨hnever, Nat.not_lt.mp hlong, hcount⟩

/-- Three elements in two slots; and a queue that was reserved, refuses an element, and loses one to a
    policy that asks for three slots. -/
theorem indices_of_runs_of_mask :
    let fixed : FixedQueue .boxed .mask := ⟨Ring.vacant .boxed 2⟩
    let crowded : List Queue.Op := [.enqueue 1, .enqueue 2, .enqueue 3, .dequeue]
    let s := ShrinkPolicy.table [⟨1, 2, 3⟩]
    let growable : GrowableQueue .boxed .mask s := ⟨Ring.vacant .boxed 2, 0, 0⟩
    let stopped : List GrowableQueue.Op :=
      [.enqueue 1, .enqueue 2, .tryEnqueue (fun _ => false) 3, .dequeue, .enqueue 4]
    fixed.Made ∧ crowded.countP (· ≠ .dequeue) < Word.limit ∧
      Ring.Sound (Queue.after crowded fixed).ring ∧ (Queue.after crowded fixed).size = 2 ∧
    growable.Made ∧ Ring.Fitting (Call.final GrowableQueue.perform stopped growable).ring ∧
      (Call.trace GrowableQueue.perform stopped growable).map Outcome.result =
        [.ok .done, .ok .done, .ok (.refused .allocationFailed), .error .unroundedStore, .ok .done] := by
  intro fixed crowded s growable stopped
  have hfixed : fixed.Made := ⟨2, .inl rfl⟩
  have hn : crowded.countP (· ≠ .dequeue) < Word.limit := by decide
  have hgrowable : growable.Made := ⟨2, .inr ⟨fun _ => true, rfl⟩⟩
  obtain ⟨_, hsound, _⟩ := (indices_of_runs .mask).1 fixed hfixed crowded hn
  obtain ⟨_, hfitting, _⟩ := (indices_of_runs .mask).2 s growable hgrowable stopped
  exact ⟨hfixed, hn, hsound, rfl, hgrowable, hfitting, by decide +kernel⟩

end Fifo
