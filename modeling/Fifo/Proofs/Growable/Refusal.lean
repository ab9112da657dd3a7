/-
  REFUSAL in growable queues: all or nothing.

  1. **A call** — `Tried a v q`: when `enqueue?` is refused and why, that a refusal leaves NOTHING
     behind, neither in the queue nor in the log, and that what is not refused is `enqueue`, also where
     that is stopped because a move can not be counted.

  2. **A run** — `settled ops q`: the operations of a run with the refused ones left out, and those
     that were accepted as if they had not been tried.  `plain` says the same of their outcomes.  A
     refusal is a step in place, so the one run follows the other, call by call
     (`settled_run`), from every queue and whatever the allocators say.
-/
import Fifo.Proofs.Growable.Order

namespace Fifo.GrowableQueue

variable {p : Placement} {w : IndexRule} {s : ShrinkPolicy}

open Call (final logged trace)
open Fifo.Ring (Fitting)

/-! ## When a call is refused -/

/-- A queue refuses an element if it is full, and twice its capacity is no word or the memory for it
    is not granted. -/
theorem refusal_eq (a : Allocator) (q : GrowableQueue p w s) :
    q.refusal a =
      if q.size = q.capacity then
        if Word.limit ≤ 2 * q.capacity then some .capacityOverflow
        else if (Store.addressable p (2 * q.capacity) &&
            a (Store.bytes p (2 * q.capacity))) = false then some .allocationFailed
        else none
      else none := by
  unfold refusal
  by_cases hfull : q.size = q.capacity
  · rw [if_pos ((isFull_iff q).mpr hfull), if_pos hfull]
    unfold doubled Word.double?
    by_cases hword : 2 * q.capacity < Word.limit
    · have hword' : ¬ Word.limit ≤ 2 * q.capacity := Nat.not_le.mpr hword
      simp only [hword, if_true, hword', if_false, Store.reserve]
      cases Store.addressable p (2 * q.capacity) && a (Store.bytes p (2 * q.capacity)) <;> rfl
    · simp only [hword, if_false, Nat.not_lt.mp hword, if_true]
  · rw [if_neg (mt (isFull_iff q).mp hfull), if_neg hfull]

theorem refusal_eq_some_iff {a : Allocator} {q : GrowableQueue p w s} {e : Error} :
    q.refusal a = some e ↔
      q.size = q.capacity ∧
        (e = .capacityOverflow ∧ Word.limit ≤ 2 * q.capacity ∨
          e = .allocationFailed ∧ 2 * q.capacity < Word.limit ∧
            (Store.addressable p (2 * q.capacity) && a (Store.bytes p (2 * q.capacity))) = false) := by
  rw [refusal_eq]
  by_cases hfull : q.size = q.capacity
  · by_cases hword : Word.limit ≤ 2 * q.capacity
    · simp [hfull, hword, Nat.not_lt.mpr hword]
      exact eq_comm
    · simp [hfull, hword, Nat.not_le.mp hword]
      exact ⟨fun ⟨hm, he⟩ => ⟨he.symm, hm⟩, fun ⟨he, hm⟩ => ⟨hm, he.symm⟩⟩
  · simp [hfull]

/-- Where nothing is refused there is a store, and all that may fail is to count the move there. -/
theorem countGrow_of_refusal_eq_none {a : Allocator} {q : GrowableQueue p w s}
    (hf : Fitting q.ring) (h : q.refusal a = none) {v : Int32} {fault : Fault}
    (hfault : (q.enqueued v).result = .error fault) : q.countGrow = .error fault := by
  rcases enqueued_cases hf v with ⟨_, he⟩ | ⟨_, _, _, he⟩ | ⟨_, _, hn, he⟩ | ⟨hfull, hm, he⟩ <;>
    rw [he] at hfault <;> cases hfault
  · exact countGrow_eq_error hn
  · rw [refusal_eq, if_pos hfull, hm] at h
    split at h <;> nomatch h

/-- `Tried a v q` — what comes of trying to enqueue an element. -/
structure Tried (a : Allocator) (v : Int32) (q : GrowableQueue p w s) : Prop where
  /-- The call is stopped only where a move up can not be counted, and then `enqueue` is stopped as
      well, and leaves the same. -/
  stopped : ∀ fault, ((enqueue? a v).run q).result = .error fault → q.countGrow = .error fault ∧
    (enqueue v).run q = ⟨((enqueue? a v).run q).state, ((enqueue? a v).run q).log, .error fault⟩
  /-- The queue is full, and twice its capacity is no word. -/
  capacityOverflow_iff : ((enqueue? a v).run q).result = .ok (.error .capacityOverflow) ↔
    q.size = q.capacity ∧ Word.limit ≤ 2 * q.capacity
  /-- The queue is full, twice its capacity is a word, and the memory for it is not granted. -/
  allocationFailed_iff : ((enqueue? a v).run q).result = .ok (.error .allocationFailed) ↔
    q.size = q.capacity ∧ 2 * q.capacity < Word.limit ∧
      (Store.addressable p (2 * q.capacity) && a (Store.bytes p (2 * q.capacity))) = false
  /-- There is no other error, and none changes or logs anything. -/
  refused : ∀ e, ((enqueue? a v).run q).result = .ok (.error e) →
    (e = .capacityOverflow ∨ e = .allocationFailed) ∧ (enqueue? a v).run q = ⟨q, [], .ok (.error e)⟩
  /-- Otherwise the element was enqueued. -/
  accepted : ((enqueue? a v).run q).result = .ok (.ok ()) →
    (enqueue v).run q = ⟨((enqueue? a v).run q).state, ((enqueue? a v).run q).log, .ok ()⟩

theorem result_enqueue?_eq_error_iff {q : GrowableQueue p w s} {a : Allocator} {v : Int32}
    {e : Error} :
    ((enqueue? a v).run q).result = .ok (.error e) ↔ q.refusal a = some e := by
  cases hrefusal : q.refusal a with
  | some e' => simp [run_enqueue?_of_refusal hrefusal]
  | none =>
    rw [run_enqueue?_of_none hrefusal, Call.run_map, Outcome.result_mapAnswer]
    cases ((enqueue v).run q).result <;> simp [Except.map]

/-- What is not refused is answered as `enqueue` is. -/
theorem run_enqueue_of_result {a : Allocator} {q : GrowableQueue p w s}
    (hrefusal : q.refusal a = none) {v : Int32} (result : Except Fault Unit)
    (h : ((enqueue? a v).run q).result = result.map .ok) : (enqueue v).run q =
      ⟨((enqueue? a v).run q).state, ((enqueue? a v).run q).log, result⟩ := by
  rw [run_enqueue?_of_none hrefusal, Call.run_map] at h ⊢
  generalize (enqueue v).run q = o at h ⊢
  obtain ⟨q', log, result'⟩ := o
  have hresult : result' = result := by
    cases result' <;> cases result <;> cases h <;> rfl
  rw [hresult]
  rfl

/-- **Trying is all or nothing.** -/
theorem tried {q : GrowableQueue p w s} (hf : Fitting q.ring) (a : Allocator) (v : Int32) :
    Tried a v q := by
  constructor
  case stopped =>
    intro fault hfault
    cases hrefusal : q.refusal a with
    | some e =>
      rw [run_enqueue?_of_refusal hrefusal] at hfault
      nomatch hfault
    | none =>
      have hrun := run_enqueue_of_result hrefusal (.error fault) hfault
      have hresult : (q.enqueued v).result = .error fault := by rw [← run_enqueue hf, hrun]
      exact ⟨countGrow_of_refusal_eq_none hf hrefusal hresult, hrun⟩
  case capacityOverflow_iff =>
    rw [result_enqueue?_eq_error_iff, refusal_eq_some_iff]
    simp
  case allocationFailed_iff =>
    rw [result_enqueue?_eq_error_iff, refusal_eq_some_iff]
    simp
  case refused =>
    intro e he
    have hrefusal := result_enqueue?_eq_error_iff.mp he
    obtain ⟨_, hwhy⟩ := refusal_eq_some_iff.mp hrefusal
    exact ⟨hwhy.imp And.left And.left, run_enqueue?_of_refusal hrefusal v⟩
  case accepted =>
    intro hok
    cases hrefusal : q.refusal a with
    | some e =>
      rw [run_enqueue?_of_refusal hrefusal] at hok
      nomatch hok
    | none => exact run_enqueue_of_result hrefusal (.ok ()) hok

/-- With a count to spare, trying is never stopped. -/
theorem Tried.answered {a : Allocator} {v : Int32} {q : GrowableQueue p w s} (h : Tried a v q)
    (hf : Fitting q.ring) (hn : q.Spare 1) :
    ∃ answer, ((enqueue? a v).run q).result = .ok answer := by
  cases hresult : ((enqueue? a v).run q).result with
  | ok answer => exact ⟨answer, rfl⟩
  | error fault =>
    have hcount := (h.stopped fault hresult).1
    rw [countGrow_eq_ok (hn.grows_lt hf)] at hcount
    nomatch hcount

/-! ## Runs -/

/-- An operation as the queue took it: nothing if it was refused, and a plain enqueue if it was tried
    and not refused. -/
def settle : Op × Outcome (GrowableQueue p w s) (Reply p) → Option Op
  | (.tryEnqueue _ v, o) =>
    match o.result with
    | .ok (.refused _) => none
    | _ => some (.enqueue v)
  | (op, _) => some op

/-- A run as the queue took it. -/
def settled (ops : List Op) (q : GrowableQueue p w s) : List Op :=
  (ops.zip (trace perform ops q)).filterMap settle

/-- An outcome as it would be if nothing were tried. -/
def plain (o : Outcome (GrowableQueue p w s) (Reply p)) :
    Option (Outcome (GrowableQueue p w s) (Reply p)) :=
  match o.result with
  | .ok (.refused _) => none
  | .ok .accepted => some ⟨o.state, o.log, .ok .done⟩
  | _ => some o

/-- What was not refused is settled as an operation with the same outcome, but for the name that its
    answer has. -/
theorem settle_step (op : Op) (q : GrowableQueue p w s) :
    (settle (op, (perform op).run q) = none ∧ plain ((perform op).run q) = none ∧
      ((perform op).run q).state = q ∧ ((perform op).run q).log = []) ∨
    ∃ op', settle (op, (perform op).run q) = some op' ∧
      plain ((perform op).run q) = some ((perform op').run q) ∧
      ((perform op').run q).state = ((perform op).run q).state ∧
      ((perform op').run q).log = ((perform op).run q).log := by
  cases op with
  | enqueue v =>
    refine .inr ⟨.enqueue v, rfl, ?_, rfl, rfl⟩
    rw [run_perform_enqueue]
    rcases (enqueue v).run q with ⟨q', log, _ | _⟩ <;> rfl
  | dequeue =>
    refine .inr ⟨.dequeue, rfl, ?_, rfl, rfl⟩
    rw [run_perform_dequeue]
    rcases dequeue.run q with ⟨q', log, _ | _⟩ <;> rfl
  | tryEnqueue a v =>
    cases h : q.refusal a with
    | some e =>
      left
      rw [run_perform_tryEnqueue_of_refusal h]
      exact ⟨rfl, rfl, rfl, rfl⟩
    | none =>
      right
      refine ⟨.enqueue v, ?_⟩
      rw [run_perform_tryEnqueue_of_none h, run_perform_enqueue]
      rcases (enqueue v).run q with ⟨q', log, _ | _⟩ <;> exact ⟨rfl, rfl, rfl, rfl⟩

/-- **A run without its refusals is the same run**, from every queue. -/
theorem settled_run (ops : List Op) (q : GrowableQueue p w s) :
    trace perform (settled ops q) q = (trace perform ops q).filterMap plain ∧
      final perform (settled ops q) q = final perform ops q ∧
      logged perform (settled ops q) q = logged perform ops q := by
  induction ops generalizing q with
  | nil => exact ⟨rfl, rfl, rfl⟩
  | cons op rest ih =>
    obtain ⟨htrace, hfinal, hlogged⟩ := ih ((perform op).run q).state
    rcases settle_step op q with ⟨hgone, hplain, hstate, hlog⟩ | ⟨op', hkept, hplain, hstate, hlog⟩
    · -- refused: the rest goes on from the same queue
      have hsettled : settled (op :: rest) q = settled rest ((perform op).run q).state :=
        List.filterMap_cons_none hgone
      rw [hsettled]
      refine ⟨?_, ?_, ?_⟩
      · rw [trace, List.filterMap_cons_none hplain, ← htrace, hstate]
      · rw [final, ← hfinal, hstate]
      · rw [Call.logged_cons, hlog, List.nil_append, ← hlogged, hstate]
    · have hsettled : settled (op :: rest) q = op' :: settled rest ((perform op).run q).state :=
        List.filterMap_cons_some hkept
      rw [hsettled]
      refine ⟨?_, ?_, ?_⟩
      · rw [trace, trace, List.filterMap_cons_some hplain, ← htrace, hstate]
      · rw [final, final, ← hfinal, hstate]
      · rw [Call.logged_cons, Call.logged_cons, hlog, hstate, hlogged]

/-- **Trying to enqueue is all or nothing**, in every state that a growable queue can be in,
    whatever the placement, the index rule and the policy: it is refused exactly when a full queue
    can not be doubled, and then nothing happens at all; otherwise it is an enqueue.  It is never
    stopped within `2 ^ 64` calls, or if the queue never shrinks.  So, whichever calls of a run the
    allocators refuse, the outcomes of the others are those of the run without the refused ones, in
    which the rest is simply enqueued; and so are the queue that is left and everything logged. -/
theorem trying_in_runs {q : GrowableQueue p w s} (hq : q.Made) (ops : List Op) :
    (∀ a v, Tried a v (final perform ops q)) ∧
      (s = .never ∨ ops.length + 1 < Word.limit → ∀ a v,
        ∃ answer, ((enqueue? a v).run (final perform ops q)).result = .ok answer) ∧
      trace perform (settled ops q) q = (trace perform ops q).filterMap plain ∧
      final perform (settled ops q) q = final perform ops q ∧
      logged perform (settled ops q) q = logged perform ops q := by
  have hf : Fitting (final perform ops q).ring := kept_fitting.final ops hq.fitting
  refine ⟨fun a v => tried hf a v, fun hn a v => ?_, settled_run ops q⟩
  have hmade : q.Spare (1 + ops.length) := hq.spare (Nat.add_comm _ 1 ▸ hn)
  obtain ⟨_, hspare⟩ := budgeted_spare.final ops ⟨hq.fitting, hmade⟩
  exact (tried hf a v).answered hf hspare

/-- Of three elements tried on a full queue of one, the first and the last are refused, and the policy
    does not notice. -/
theorem trying_in_runs_of_three :
    let q : GrowableQueue .inline .compare .quarter := ⟨Ring.vacant .inline 1, 0, 0⟩
    let ops : List Op :=
      [.enqueue 1, .tryEnqueue (fun _ => false) 2, .tryEnqueue (fun _ => true) 3,
        .tryEnqueue (fun bytes => bytes < 16) 4, .dequeue]
    q.Made ∧ (∀ a v, Tried a v (final perform ops q)) ∧
      ops.length + 1 < Word.limit ∧
      (∀ a v, ∃ answer, ((enqueue? a v).run (final perform ops q)).result = .ok answer) ∧
      trace perform (settled ops q) q = (trace perform ops q).filterMap plain ∧
      (trace perform (settled ops q) q).map Outcome.result =
        [.ok .done, .ok .done, .ok (.out (1 : Int32))] ∧
      logged perform (settled ops q) q = logged perform ops q ∧
      logged perform ops q = [.grew 2 1] := by
  intro q ops
  have hq : q.Made := ⟨1, .inl rfl⟩
  have hn : ops.length + 1 < Word.limit := by decide
  obtain ⟨htried, hanswered, htrace, _, hlogged⟩ := trying_in_runs hq ops
  exact ⟨hq, htried, hn, hanswered (.inr hn), htrace, by decide +kernel, hlogged, by decide +kernel⟩

end Fifo.GrowableQueue
