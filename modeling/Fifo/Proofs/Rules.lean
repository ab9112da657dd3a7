/-
  INDEX RULES do not show in runs.

  1. **Reading** — `withRule w`: the same queue, stepped by another rule from now on.  Store, head,
     tail, size and counts are what they were.

  2. **A call** — on a ring whose indices are in order (`Ring.Indexed`) every write, every read and
     every move comes to the same under all rules, the stopped ones too.

  3. **A run** — those rings keep their indices in order through EVERY call, also a write that is
     stopped because the size is the last word; so whole runs follow each other, outcome by outcome
     (`Call.Kept.trace_eq`).
-/
import Fifo.Proofs.Fixed.Order
import Fifo.Proofs.Growable.Order

namespace Fifo

variable {p : Placement} {w : IndexRule} {s : ShrinkPolicy}

/-! ## Rings -/

namespace Ring.Indexed

variable {r : Ring p}

open Call (change)

/-- Counting, or failing to, is no business of the indices. -/
theorem countUp (h : Indexed r) : Indexed ((change Ring.countUp).run r).state := by
  cases hcount : Ring.countUp r with
  | error fault =>
    rw [Call.run_change_of_error hcount]
    exact h
  | ok r' =>
    obtain ⟨size, _, rfl⟩ : ∃ size, Word.succ r.size = .ok size ∧ { r with size } = r' :=
      exists_of_map_eq_ok hcount
    rw [Call.run_change_of_ok hcount]
    exact ⟨h.power, h.word, h.head_lt, h.tail_lt⟩

theorem write (h : Indexed r) (w : IndexRule) (v : Int32) :
    Indexed ((Ring.write w v).run r).state := by
  rw [h.run_write]
  exact (h.placed v).countUp

theorem read (h : Indexed r) (w : IndexRule) : Indexed ((Ring.read w).run r).state := by
  rcases Nat.eq_zero_or_pos r.size with hs | hs
  · rw [run_read_of_size_eq_zero hs]
    exact h
  · rw [h.run_read hs]
    exact h.taken

theorem write_eq (h : Indexed r) (w w' : IndexRule) (v : Int32) :
    (Ring.write w' v).run r = (Ring.write w v).run r := by
  rw [h.run_write, h.run_write]

theorem read_eq (h : Indexed r) (w w' : IndexRule) :
    (Ring.read w').run r = (Ring.read w).run r := by
  rcases Nat.eq_zero_or_pos r.size with hs | hs
  · rw [run_read_of_size_eq_zero hs, run_read_of_size_eq_zero hs]
  · rw [h.run_read hs, h.run_read hs]

end Ring.Indexed

/-! ## Fixed queues -/

namespace FixedQueue

/-- The same queue, under another rule. -/
def withRule (w' : IndexRule) (q : FixedQueue p w) : FixedQueue p w' := ⟨q.ring⟩

theorem new_withRule (w w' : IndexRule) (requested : Nat) :
    new p w' requested = (new p w requested).map (withRule w') := by
  unfold new
  cases Ring.new p requested <;> rfl

theorem new?_withRule (a : Allocator) (w w' : IndexRule) (requested : Nat) :
    new? a p w' requested = (new? a p w requested).map (withRule w') := by
  unfold new?
  cases Ring.new? a p requested <;> rfl

theorem kept_indexed :
    Call.Kept (Queue.perform (σ := FixedQueue p w)) fun q => Ring.Indexed q.ring := by
  intro op q h
  cases op with
  | enqueue v =>
    rw [Queue.run_perform_enqueue_eq]
    exact h.write w v
  | dequeue =>
    rw [Queue.run_perform_dequeue_eq]
    exact h.read w

/-- An operation comes to the same under another rule. -/
theorem run_perform_withRule (w' : IndexRule) {q : FixedQueue p w} (h : Ring.Indexed q.ring)
    (op : Queue.Op) :
    (Queue.perform op).run (q.withRule w') =
      ((Queue.perform op).run q).mapState (withRule w') := by
  cases op with
  | enqueue v =>
    have hwrite : (enqueue v).run (q.withRule w') = ((enqueue v).run q).mapState (withRule w') := by
      rw [enqueue, enqueue, run_onRing, run_onRing, withRule, h.write_eq w w']
      rfl
    rw [Queue.run_perform_enqueue_eq, Queue.run_perform_enqueue_eq]
    exact congrArg (Outcome.mapAnswer fun () => none) hwrite
  | dequeue =>
    have hread : dequeue.run (q.withRule w') = (dequeue.run q).mapState (withRule w') := by
      rw [dequeue, dequeue, run_onRing, run_onRing, withRule, h.read_eq w w']
      rfl
    rw [Queue.run_perform_dequeue_eq, Queue.run_perform_dequeue_eq]
    exact congrArg (Outcome.mapAnswer some) hread

end FixedQueue

/-! ## Growable queues -/

namespace GrowableQueue

/-- The same queue, under another rule. -/
def withRule (w' : IndexRule) (q : GrowableQueue p w s) : GrowableQueue p w' s :=
  ⟨q.ring, q.grows, q.shrinks⟩

theorem new_withRule (w w' : IndexRule) (s : ShrinkPolicy) (requested : Nat) :
    new p w' s requested = (new p w s requested).map (withRule w') := by
  unfold new
  cases Ring.new p requested <;> rfl

theorem new?_withRule (a : Allocator) (w w' : IndexRule) (s : ShrinkPolicy) (requested : Nat) :
    new? a p w' s requested = (new? a p w s requested).map (withRule w') := by
  unfold new?
  cases Ring.new? a p requested <;> rfl

theorem enqueued_withRule (w' : IndexRule) (q : GrowableQueue p w s) (v : Int32) :
    (q.withRule w').enqueued v = (q.enqueued v).mapState (withRule w') := by
  unfold enqueued
  simp only [apply_ite (Outcome.mapState (withRule w'))]
  rfl

theorem shrunk_withRule (w' : IndexRule) (q : GrowableQueue p w s) (target : Nat) :
    (q.withRule w').shrunk target = (q.shrunk target).mapState (withRule w') := by
  have hring : (q.withRule w').ring = q.ring := rfl
  unfold shrunk
  rw [hring]
  cases q.ring.moved target with
  | error fault => rfl
  | ok ring =>
    dsimp only
    rw [apply_ite (Outcome.mapState (withRule w'))]
    rfl

theorem consulted_withRule (w' : IndexRule) (q : GrowableQueue p w s) :
    (q.withRule w').consulted = q.consulted.mapState (withRule w') := by
  have hasked : s.shrinkTo (q.withRule w').size (q.withRule w').capacity =
      s.shrinkTo q.size q.capacity := rfl
  unfold consulted
  rw [hasked]
  cases s.shrinkTo q.size q.capacity with
  | none => rfl
  | some target => exact q.shrunk_withRule w' target

theorem dequeued_withRule (w' : IndexRule) (q : GrowableQueue p w s) :
    (q.withRule w').dequeued = q.dequeued.mapState (withRule w') := by
  have htaken : (q.withRule w').taken = q.taken.withRule w' := rfl
  unfold dequeued
  rw [htaken, consulted_withRule, apply_ite (Outcome.mapState (withRule w'))]
  rfl

/-- An operation comes to the same under another rule: what it comes to is told without one. -/
theorem run_perform_withRule (w' : IndexRule) {q : GrowableQueue p w s}
    (hf : Ring.Fitting q.ring) (op : Op) :
    (perform op).run (q.withRule w') = ((perform op).run q).mapState (withRule w') := by
  have hf' : Ring.Fitting (q.withRule w').ring := hf
  rw [run_perform hf, run_perform hf']
  cases op with
  | enqueue v =>
    rw [performed, performed, enqueued_withRule]
    rfl
  | tryEnqueue a v =>
    have hrefusal : refusal a (q.withRule w') = refusal a q := rfl
    rw [performed, performed, enqueued_withRule, hrefusal]
    cases refusal a q <;> rfl
  | dequeue =>
    rw [performed, performed, dequeued_withRule]
    rfl

end GrowableQueue

/-! ## Runs -/

/-- **Index rules do not show.**  Under any two of them, circular queues are made of the same requests
    and are the same when they are new, and their runs agree in the store and its indices, in what is
    counted, logged and answered, and in what is refused or stopped: after every operation of a fixed
    queue, however far it goes beyond the capacity, and of a growable queue under any policy and any
    allocators. -/
theorem runs_under_rules (w w' : IndexRule) :
    ((∀ requested, FixedQueue.new p w' requested =
        (FixedQueue.new p w requested).map (FixedQueue.withRule w')) ∧
      (∀ a requested, FixedQueue.new? a p w' requested =
        (FixedQueue.new? a p w requested).map (FixedQueue.withRule w')) ∧
      ∀ q : FixedQueue p w, q.Made → ∀ ops : List Queue.Op,
        Queue.trace ops (q.withRule w') =
          (Queue.trace ops q).map (Outcome.mapState (FixedQueue.withRule w'))) ∧
    (∀ s : ShrinkPolicy,
      (∀ requested, GrowableQueue.new p w' s requested =
        (GrowableQueue.new p w s requested).map (GrowableQueue.withRule w')) ∧
      (∀ a requested, GrowableQueue.new? a p w' s requested =
        (GrowableQueue.new? a p w s requested).map (GrowableQueue.withRule w')) ∧
      ∀ q : GrowableQueue p w s, q.Made → ∀ ops : List GrowableQueue.Op,
        Call.trace GrowableQueue.perform ops (q.withRule w') =
          (Call.trace GrowableQueue.perform ops q).map
            (Outcome.mapState (GrowableQueue.withRule w'))) := by
  refine ⟨⟨FixedQueue.new_withRule w w', fun a => FixedQueue.new?_withRule a w w', ?_⟩, ?_⟩
  · intro q hq ops
    have hstep (op : Queue.Op) {q : FixedQueue p w} (h : Ring.Indexed q.ring) :=
      FixedQueue.run_perform_withRule w' h op
    exact FixedQueue.kept_indexed.trace_eq hstep ops hq.fitting.toSound.indexed
  · intro s
    refine ⟨GrowableQueue.new_withRule w w' s, fun a => GrowableQueue.new?_withRule a w w' s, ?_⟩
    intro q hq ops
    have hstep (op : GrowableQueue.Op) {q : GrowableQueue p w s} (hf : Ring.Fitting q.ring) :=
      GrowableQueue.run_perform_withRule w' hf op
    exact GrowableQueue.kept_fitting.trace_eq hstep ops hq.fitting

/-- Masking and comparing: a fixed queue of two that holds three, and a growable one whose policy asks
    for three slots. -/
theorem runs_under_rules_of_mask :
    let fixed : FixedQueue .inline .mask := ⟨Ring.vacant .inline 2⟩
    let crowded : List Queue.Op := [.enqueue 1, .enqueue 2, .enqueue 3, .dequeue]
    let s := ShrinkPolicy.table [⟨1, 2, 3⟩]
    let growable : GrowableQueue .inline .mask s := ⟨Ring.vacant .inline 2, 0, 0⟩
    let stopped : List GrowableQueue.Op :=
      [.enqueue 1, .enqueue 2, .tryEnqueue (fun _ => false) 3, .dequeue, .enqueue 4, .enqueue 5]
    fixed.Made ∧
      Queue.trace crowded (fixed.withRule .compare) =
        (Queue.trace crowded fixed).map (Outcome.mapState (FixedQueue.withRule .compare)) ∧
    growable.Made ∧
      Call.trace GrowableQueue.perform stopped (growable.withRule .compare) =
        (Call.trace GrowableQueue.perform stopped growable).map
          (Outcome.mapState (GrowableQueue.withRule .compare)) ∧
      (Call.trace GrowableQueue.perform stopped growable).map Outcome.result =
        [.ok .done, .ok .done, .ok (.refused .allocationFailed), .error .unroundedStore, .ok .done,
          .ok .done] := by
  intro fixed crowded s growable stopped
  have hfixed : fixed.Made := ⟨2, .inl rfl⟩
  have hgrowable : growable.Made := ⟨2, .inl rfl⟩
  obtain ⟨_, _, hcrowded⟩ := (runs_under_rules .mask .compare).1
  obtain ⟨_, _, hstopped⟩ := (runs_under_rules .mask .compare).2 s
  exact ⟨hfixed, hcrowded fixed hfixed crowded, hgrowable, hstopped growable hgrowable stopped,
    by decide +kernel⟩

end Fifo
