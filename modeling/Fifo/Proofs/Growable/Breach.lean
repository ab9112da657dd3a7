/-
  BREACH: what a policy can do to a queue by breaking its word, and what it can not.

  A policy is a function of two numbers.  Nothing keeps it from asking for a store that the ring will
  not move into, and by then the element has left.

  1. **A call** — `Breach q fault`: the two ways in which the answer to a dequeue can be wrong.  As
     long as moves can be counted they are EXACTLY what stops a dequeue
     (`result_dequeue_eq_error_iff`), and one that was stopped has done what a plain read of the
     ring does, and nothing else (`lost_of_breach`).

  2. **A run** — `Ordered q items ops`: the queue is first in, first out through all the faults of a
     run.  What a breach loses is the answer of the call that it stops, never an element that is still
     to come.
-/
import Fifo.Proofs.Growable.Order

namespace Fifo.GrowableQueue

variable {p : Placement} {w : IndexRule} {s : ShrinkPolicy}

open Queue (Throughout)
open Fifo.Ring (Fitting)

/-! ## A call -/

/-- `Breach q fault` — there is an element to dequeue, and for what is left the policy asks for a
    store that is against the rule that `fault` reports. -/
inductive Breach (q : GrowableQueue p w s) : Fault → Prop
  /-- The size of the store is no power of two. -/
  | unrounded {target : Nat} (hs : 0 < q.size)
    (hasked : s.shrinkTo (q.size - 1) q.capacity = some target)
    (hp : Capacity.isPower target = false) : Breach q .unroundedStore
  /-- It is one, but there is no room for the elements that are left. -/
  | cramped {target : Nat} (hs : 0 < q.size)
    (hasked : s.shrinkTo (q.size - 1) q.capacity = some target)
    (hp : Capacity.isPower target = true) (hlt : target < q.size - 1) : Breach q .crampedStore

theorem Breach.size_pos {q : GrowableQueue p w s} {fault : Fault} (h : q.Breach fault) :
    0 < q.size := by
  cases h <;> assumption

/-- Asking is stopped by what keeps the ring from moving into the store that the policy names. -/
theorem result_consulted_eq_error_iff {q : GrowableQueue p w s} (hn : q.Spare 1) {fault : Fault} :
    q.consulted.result = .error fault ↔
      ∃ target, s.shrinkTo q.size q.capacity = some target ∧
        q.ring.moved target = .error fault := by
  cases hasked : s.shrinkTo q.size q.capacity with
  | none => simp [consulted_of_none hasked]
  | some target =>
    rcases consulted_of_some hasked with ⟨_, hmoved, _, h⟩ | ⟨_, _, hnot, _⟩ | ⟨_, hmoved, h⟩
    · simp [h, hmoved]
    · exact absurd (hn.shrinks_lt hasked) hnot
    · simp [h, hmoved]

/-- A queue is left alone by a policy that it can not obey. -/
theorem consulted_of_error {q : GrowableQueue p w s} (hn : q.Spare 1) {fault : Fault}
    (h : q.consulted.result = .error fault) : q.consulted = ⟨q, [], .error fault⟩ := by
  obtain ⟨target, hasked, hmoved⟩ := (result_consulted_eq_error_iff hn).mp h
  simp [consulted, shrunk, hasked, hmoved]

/-- A policy that memory can obey is stopped by a breach, and by nothing else. -/
theorem result_consulted_taken_iff {q : GrowableQueue p w s} (hs : 0 < q.size) (hn : q.Spare 1)
    (hm : Granted q .dequeue) {fault : Fault} :
    q.taken.consulted.result = .error fault ↔ q.Breach fault := by
  have hstore {target : Nat} (hasked : s.shrinkTo (q.size - 1) q.capacity = some target) :
      Store.addressable p target = true :=
    hm target ((if_neg (Nat.ne_of_gt hs)).trans hasked)
  rw [result_consulted_eq_error_iff hn.taken, shrinkTo_taken]
  constructor
  · rintro ⟨target, hasked, hmoved⟩
    rcases (Ring.moved_eq_error_iff (hstore hasked)).mp hmoved with ⟨rfl, hp⟩ | ⟨rfl, hp, hlt⟩
    · exact .unrounded hs hasked hp
    · exact .cramped hs hasked hp hlt
  · intro h
    cases h with
    | @unrounded target _ hasked hp =>
      exact ⟨target, hasked, (Ring.moved_eq_error_iff (hstore hasked)).mpr (.inl ⟨rfl, hp⟩)⟩
    | @cramped target _ hasked hp hlt =>
      exact ⟨target, hasked, (Ring.moved_eq_error_iff (hstore hasked)).mpr (.inr ⟨rfl, hp, hlt⟩)⟩

/-- **A breach is what stops a dequeue**, if memory could hold the store that the policy asks for and
    the move there can be counted. -/
theorem result_dequeue_eq_error_iff {q : GrowableQueue p w s} (hf : Fitting q.ring)
    (hn : q.Spare 1) (hm : Granted q .dequeue) {fault : Fault} :
    (dequeue.run q).result = .error fault ↔ q.Breach fault := by
  rw [run_dequeue hf]
  unfold dequeued
  by_cases hzero : q.size = 0
  · rw [if_pos hzero]
    constructor
    · intro h
      nomatch h
    · intro h
      exact absurd h.size_pos (Nat.not_lt.mpr (Nat.le_of_eq hzero))
  · rw [if_neg hzero, ← result_consulted_taken_iff (Nat.pos_of_ne_zero hzero) hn hm]
    constructor
    · exact eq_error_of_map
    · intro h
      rw [Outcome.result_mapAnswer, h]
      rfl

/-- `Lost q fault` — a dequeue is stopped by `fault` after it has done what a plain read does: the
    oldest element is gone, and store, counts and log are as they were. -/
def Lost (q : GrowableQueue p w s) (fault : Fault) : Prop :=
  ∃ (ring : Ring p) (slot : p.Slot),
    (Ring.read w).run q.ring = ⟨ring, [], .ok (p.unpack slot)⟩ ∧
      q.ring.window = slot :: ring.window ∧ ring.capacity = q.capacity ∧
      dequeue.run q = ⟨⟨ring, q.grows, q.shrinks⟩, [], .error fault⟩

theorem lost_of_breach {q : GrowableQueue p w s} (hf : Fitting q.ring) (hn : q.Spare 1)
    (hm : Granted q .dequeue) {fault : Fault} (h : q.Breach fault) : q.Lost fault := by
  have hs : 0 < q.size := h.size_pos
  have hstopped := (result_consulted_taken_iff hs hn hm).mpr h
  refine ⟨q.ring.taken, q.ring.front, Ring.run_read hf.toSound hs w, Ring.window_eq_cons hf hs,
    Ring.capacity_taken q.ring, ?_⟩
  rw [run_dequeue hf, dequeued, if_neg (Nat.ne_of_gt hs), consulted_of_error hn.taken hstopped]
  rfl

/-! ## A run -/

/-- `PolicyGranted q op` — memory could hold the store that the policy asks for, if the operation is
    one after which the policy is asked. -/
def PolicyGranted (q : GrowableQueue p w s) (op : Queue.Op) : Prop := op = .dequeue → Granted q op

instance (q : GrowableQueue p w s) (op : Queue.Op) : Decidable (PolicyGranted q op) :=
  inferInstanceAs (Decidable (op = .dequeue → Granted q op))

/-- `Ordered q items ops` — the operations find `items` in the queue, put their elements behind them
    and take them from the front.  A call that is stopped is an enqueue that changes nothing, or a
    dequeue whose policy is in breach. -/
inductive Ordered : GrowableQueue p w s → List Int32 → List Queue.Op → Prop
  | nil {q : GrowableQueue p w s} {items : List Int32} (hq : q.Holds items) : Ordered q items []
  | enqueued {q q' : GrowableQueue p w s} {items : List Int32} {v : Int32} {log : List Record}
    {rest : List Queue.Op} (hq : q.Holds items)
    (hrun : (Queue.perform (.enqueue v)).run q = ⟨q', log, .ok none⟩)
    (hrest : Ordered q' (items ++ [v]) rest) : Ordered q items (.enqueue v :: rest)
  | unserved {q : GrowableQueue p w s} {items : List Int32} {v : Int32} {rest : List Queue.Op}
    (hq : q.Holds items) (hfull : q.size = q.capacity)
    (hm : Store.addressable p (2 * q.capacity) = false)
    (hrun : (Queue.perform (.enqueue v)).run q = ⟨q, [], .error .capacityOverflow⟩)
    (hrest : Ordered q items rest) : Ordered q items (.enqueue v :: rest)
  | empty {q : GrowableQueue p w s} {rest : List Queue.Op} (hq : q.Holds [])
    (hrun : (Queue.perform .dequeue).run q = ⟨q, [], .ok (some p.empty)⟩)
    (hrest : Ordered q [] rest) : Ordered q [] (.dequeue :: rest)
  | dequeued {q q' : GrowableQueue p w s} {v : Int32} {items : List Int32} {log : List Record}
    {rest : List Queue.Op} (hq : q.Holds (v :: items))
    (hrun : (Queue.perform .dequeue).run q = ⟨q', log, .ok (some (p.unpack (p.pack v)))⟩)
    (hrest : Ordered q' items rest) : Ordered q (v :: items) (.dequeue :: rest)
  | lost {q q' : GrowableQueue p w s} {v : Int32} {items : List Int32} {fault : Fault}
    {rest : List Queue.Op} (hq : q.Holds (v :: items)) (hbreach : q.Breach fault)
    (hrun : (Queue.perform .dequeue).run q = ⟨q', [], .error fault⟩)
    (hrest : Ordered q' items rest) : Ordered q (v :: items) (.dequeue :: rest)

/-- An enqueue puts its element behind the others, if there is a slot for it or a larger store. -/
theorem enqueue_cases {q : GrowableQueue p w s} {items : List Int32} (h : q.Holds items)
    (hn : q.Spare 1) (v : Int32) :
    (∃ q' log, (enqueue v).run q = ⟨q', log, .ok ()⟩ ∧ q'.Holds (items ++ [v])) ∨
      (q.size = q.capacity ∧ Store.addressable p (2 * q.capacity) = false ∧
        (enqueue v).run q = ⟨q, [], .error .capacityOverflow⟩) := by
  have hf : Fitting q.ring := Ring.Holds.fitting h
  rw [run_enqueue hf]
  rcases holds_enqueued h v with ⟨hok, hheld⟩ | hstopped | ⟨hnot, _⟩
  · exact .inl ⟨(q.enqueued v).state, (q.enqueued v).log, by rw [← hok], hheld⟩
  · exact .inr hstopped
  · exact absurd (hn.grows_lt hf) hnot

/-- A dequeue takes the first element out, and answers with it unless the policy is in breach. -/
theorem dequeue_cases {q : GrowableQueue p w s} {v : Int32} {items : List Int32}
    (h : q.Holds (v :: items)) (hn : q.Spare 1) (hm : Granted q .dequeue) :
    (∃ q' log, dequeue.run q = ⟨q', log, .ok (p.unpack (p.pack v))⟩ ∧ q'.Holds items) ∨
      ∃ q' fault, q.Breach fault ∧ dequeue.run q = ⟨q', [], .error fault⟩ ∧ q'.Holds items := by
  have hf : Fitting q.ring := Ring.Holds.fitting h
  obtain ⟨hleft, hanswer⟩ := holds_dequeued h
  have hrun : dequeue.run q = q.dequeued := run_dequeue hf
  cases hresult : q.dequeued.result with
  | ok out =>
    left
    rw [hrun, ← hanswer out hresult, ← hresult]
    exact ⟨q.dequeued.state, q.dequeued.log, rfl, hleft⟩
  | error fault =>
    right
    have hbreach := (result_dequeue_eq_error_iff hf hn hm).mp ((congrArg _ hrun).trans hresult)
    obtain ⟨ring, slot, _, _, _, hlost⟩ := lost_of_breach hf hn hm hbreach
    refine ⟨_, fault, hbreach, hlost, ?_⟩
    rwa [← hrun, hlost] at hleft

/-- **Every run is ordered**, from every queue that holds a list. -/
theorem ordered_run (ops : List Queue.Op) {q : GrowableQueue p w s} {items : List Int32}
    (h : q.Holds items) (hm : Throughout (fun q op => PolicyGranted q op ∧ q.Spare 1) ops q) :
    Ordered q items ops := by
  induction ops generalizing q items with
  | nil => exact .nil h
  | cons op rest ih =>
    obtain ⟨⟨hop, hn⟩, hrest⟩ := hm
    cases op with
    | enqueue v =>
      rcases enqueue_cases h hn v with ⟨q', log, hcall, hheld⟩ | ⟨hfull, hm, hcall⟩
      · have hrun := Queue.run_perform_enqueue hcall
        rw [hrun] at hrest
        exact .enqueued h hrun (ih hheld hrest)
      · have hrun := Queue.run_perform_enqueue_of_error hcall
        rw [hrun] at hrest
        exact .unserved h hfull hm hrun (ih h hrest)
    | dequeue =>
      cases items with
      | nil =>
        have hrun := Queue.run_perform_dequeue (run_dequeue_of_size_eq_zero (Ring.Holds.size_eq h))
        rw [hrun] at hrest
        exact .empty h hrun (ih h hrest)
      | cons v items =>
        rcases dequeue_cases h hn (hop rfl) with
          ⟨q', log, hcall, hleft⟩ | ⟨q', fault, hbreach, hcall, hleft⟩
        · have hrun := Queue.run_perform_dequeue hcall
          rw [hrun] at hrest
          exact .dequeued h hrun (ih hleft hrest)
        · have hrun := Queue.run_perform_dequeue_of_error hcall
          rw [hrun] at hrest
          exact .lost h hbreach hrun (ih hleft hrest)

/-- An ordered run leaves a queue that holds a list. -/
theorem Ordered.exists_holds {q : GrowableQueue p w s} {items : List Int32} {ops : List Queue.Op}
    (h : q.Ordered items ops) : ∃ items', (Queue.after ops q).Holds items' := by
  induction h with
  | nil hq => exact ⟨_, hq⟩
  | enqueued _ hrun _ ih => rwa [Queue.after_of_run hrun]
  | unserved _ _ _ hrun _ ih => rwa [Queue.after_of_run hrun]
  | empty _ hrun _ ih => rwa [Queue.after_of_run hrun]
  | dequeued _ hrun _ ih => rwa [Queue.after_of_run hrun]
  | lost _ _ hrun _ ih => rwa [Queue.after_of_run hrun]

/-- **No policy can corrupt a queue.**  Under an arbitrary function for a policy, as long as memory
    could hold the stores that it asks for, every run of fewer than `2 ^ 64` calls is ordered,
    through all of its faults.  After it the ring is fitting still, and a dequeue, if it is within
    so many calls, is stopped exactly by a breach; then the oldest element is gone, as by a plain
    read, and nothing else has changed. -/
theorem order_under_any_policy {q : GrowableQueue p w s} (hq : q.Made) (ops : List Queue.Op)
    (hn : ops.length < Word.limit) (hm : Throughout PolicyGranted ops q) :
    Ordered q [] ops ∧ Fitting (Queue.after ops q).ring ∧
    (ops.length + 1 < Word.limit → Granted (Queue.after ops q) .dequeue → ∀ fault,
      ((dequeue.run (Queue.after ops q)).result = .error fault ↔ Breach (Queue.after ops q) fault) ∧
        (Breach (Queue.after ops q) fault → Lost (Queue.after ops q) fault)) ∧
    Fault.unroundedStore.message = "assertion failed: store.len().is_power_of_two()" ∧
    Fault.crampedStore.message = "assertion failed: store.len() >= self.size" := by
  obtain ⟨requested, hnew⟩ := hq.exists_new
  have hordered := ordered_run ops (holds_new hnew)
    (throughout_spare hm hq.fitting (hq.spare (.inr hn)))
  obtain ⟨items, hafter⟩ := hordered.exists_holds
  have hf : Fitting (Queue.after ops q).ring := Ring.Holds.fitting hafter
  refine ⟨hordered, hf, ?_, rfl, rfl⟩
  intro hone hgranted fault
  -- the counts of a new queue are good for the run, and for the dequeue after it
  have hmade : q.Spare (1 + ops.length) := hq.spare (.inr (by omega))
  obtain ⟨_, hspare⟩ := budgeted_spare_queue.final ops ⟨hq.fitting, hmade⟩
  exact ⟨result_dequeue_eq_error_iff hf hspare hgranted, lost_of_breach hf hspare hgranted⟩

/-- A policy that asks for no slots, for three, for one too few, and for a larger store. -/
theorem order_under_any_policy_of_table :
    let s := ShrinkPolicy.table [⟨4, 8, 0⟩, ⟨3, 8, 3⟩, ⟨2, 8, 1⟩, ⟨1, 8, 16⟩]
    let q : GrowableQueue .boxed .compare s := ⟨Ring.vacant .boxed 8, 0, 0⟩
    let filled : List Queue.Op := [.enqueue 1, .enqueue 2, .enqueue 3, .enqueue 4, .enqueue 5]
    let ops : List Queue.Op := filled ++ [.dequeue, .dequeue, .dequeue, .dequeue, .dequeue]
    q.Made ∧ ops.length < Word.limit ∧ Throughout PolicyGranted ops q ∧ Ordered q [] ops ∧
    (Queue.trace ops q).map Outcome.result =
      [.ok none, .ok none, .ok none, .ok none, .ok none, .error .unroundedStore,
        .error .unroundedStore, .error .crampedStore, .ok (some (some (4 : Int32))),
        .ok (some (some (5 : Int32)))] ∧
    filled.length + 1 < Word.limit ∧ Throughout PolicyGranted filled q ∧
    Granted (Queue.after filled q) .dequeue ∧
    Breach (Queue.after filled q) .unroundedStore ∧ Lost (Queue.after filled q) .unroundedStore := by
  intro s q filled ops
  have hq : q.Made := ⟨8, .inl rfl⟩
  have hn : ops.length < Word.limit := by decide
  have hone : filled.length + 1 < Word.limit := by decide
  have hm : Throughout PolicyGranted ops q := by decide +kernel
  have hm' : Throughout PolicyGranted filled q := by decide +kernel
  have hgranted : Granted (Queue.after filled q) .dequeue := by decide +kernel
  obtain ⟨hordered, _⟩ := order_under_any_policy hq ops hn hm
  obtain ⟨_, _, hcall, _⟩ := order_under_any_policy hq filled (by decide) hm'
  obtain ⟨hiff, hlost⟩ := hcall hone hgranted .unroundedStore
  have hbreach := hiff.mp (by decide +kernel)
  exact ⟨hq, hn, hm, hordered, by decide +kernel, hone, hm', hgranted, hbreach, hlost hbreach⟩

end Fifo.GrowableQueue
