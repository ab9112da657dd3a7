/-
  TWIN RUNS: the same operations on two queues of one kind, side by side.

  1. **Structure** — `outline`: what there is to a queue besides its elements.  Two queues built from
     one blueprint, in any two placements, have the same outlines throughout two runs of the same
     kinds of operations, log the same and are stopped by the same faults, WHATEVER the elements are:
     all that is asked for is that memory never runs out (`Served`).

  2. **Elements** — with the same elements, the inline run answers what the boxed run answers whenever
     that is an element.  The other way round this is not so: an inline slot keeps what was taken
     from it, and an overfull fixed queue hands that out once more, where a boxed one has nothing.

  Both are one induction, for two likenesses of slots (`Placement.Likeness`).
-/
import Mathlib.Data.List.Forall2
import Fifo.Proofs.Holding
import Fifo.Proofs.Twins.Chains
import Fifo.Proofs.Twins.Rings

namespace Fifo

variable {p p' : Placement} {L : p.Likeness p'} {v v' : Int32}

/-! ## Operations that are alike -/

namespace GrowableQueue

/-- `Alike E op op'` — of the same kind, with elements of which `E` holds, whatever the allocators. -/
inductive Op.Alike (E : Int32 → Int32 → Prop) : Op → Op → Prop
  | enqueue {v v' : Int32} (hv : E v v') : Alike E (.enqueue v) (.enqueue v')
  | tryEnqueue (a a' : Allocator) {v v' : Int32} (hv : E v v') :
    Alike E (.tryEnqueue a v) (.tryEnqueue a' v')
  | dequeue : Alike E .dequeue .dequeue

/-- `Alike L r r'` — of the same kind, and what was dequeued is alike. -/
inductive Reply.Alike (L : p.Likeness p') : Reply p → Reply p' → Prop
  | done : Alike L .done .done
  | accepted : Alike L .accepted .accepted
  | refused (e : Error) : Alike L (.refused e) (.refused e)
  | out {o : p.Out} {o' : p'.Out} (ho : L.out o o') : Alike L (.out o) (.out o')

end GrowableQueue

namespace AnyQueue

open Call (final trace)
open GrowableQueue (Op Reply)

/-! ## Outlines -/

/-- What there is to a queue besides its elements. -/
inductive Outline where
  | fixed (capacity head tail size : Nat)
  | growable (capacity head tail size grows shrinks : Nat)
  | linked (size : Nat)
  | segmented (segmentCapacity segments size : Nat)
  deriving DecidableEq, Repr

/-- The outline of a queue. -/
def outline : AnyQueue p → Outline
  | .fixed _ q => .fixed q.capacity q.ring.head q.ring.tail q.size
  | .growable _ _ q =>
    .growable q.capacity q.ring.head q.ring.tail q.size q.grows q.shrinks
  | .linked q => .linked q.size
  | .segmented q => .segmented q.segmentCapacity q.segments q.size

/-- What there is to an outcome besides elements: the outline, the log, and the fault, if one stopped
    the call. -/
def outlined {α : Type} (o : Outcome (AnyQueue p) α) : Outline × List Record × Except Fault Unit :=
  (o.state.outline, o.log, o.result.map fun _ => ())

/-! ## Queues that are alike -/

/-- `Alike L q q'` — of the same kind, and alike as that. -/
inductive Alike (L : p.Likeness p') : AnyQueue p → AnyQueue p' → Prop
  | fixed {w : IndexRule} {q : FixedQueue p w} {q' : FixedQueue p' w} (h : q.Alike L q') :
    Alike L (.fixed w q) (.fixed w q')
  | growable {w : IndexRule} {s : ShrinkPolicy} {q : GrowableQueue p w s}
    {q' : GrowableQueue p' w s} (h : q.Alike L q') : Alike L (.growable w s q) (.growable w s q')
  | linked {q : LinkedQueue p} {q' : LinkedQueue p'} (h : q.Alike L q') :
    Alike L (.linked q) (.linked q')
  | segmented {q : SegmentedQueue p} {q' : SegmentedQueue p'} (h : q.Alike L q') :
    Alike L (.segmented q) (.segmented q')

theorem Alike.outline_eq {q : AnyQueue p} {q' : AnyQueue p'} (h : q.Alike L q') :
    q.outline = q'.outline := by
  cases h with
  | @fixed w q q' h =>
    have hring : q.ring.Alike L q'.ring := h
    show Outline.fixed q.ring.capacity q.ring.head q.ring.tail q.ring.size = _
    rw [hring.capacity_eq, hring.head_eq, hring.tail_eq, hring.size_eq]
    rfl
  | @growable w s q q' h =>
    show Outline.growable q.ring.capacity q.ring.head q.ring.tail q.ring.size q.grows q.shrinks = _
    rw [h.ring.capacity_eq, h.ring.head_eq, h.ring.tail_eq, h.ring.size_eq, h.grows_eq, h.shrinks_eq]
    rfl
  | linked h => exact congrArg Outline.linked h.size_eq
  | @segmented q q' h =>
    show Outline.segmented q.segmentCapacity q.segments q.size = _
    rw [h.segmentCapacity_eq, h.segments_eq, h.size_eq]
    rfl

theorem Alike.size_eq {q : AnyQueue p} {q' : AnyQueue p'} (h : q.Alike L q') :
    Queue.size q = Queue.size q' := by
  cases h with
  | fixed h => exact Ring.Alike.size_eq h
  | growable h => exact h.size_eq
  | linked h => exact h.size_eq
  | segmented h => exact h.size_eq

/-! ## Calls -/

theorem alike_enqueue (hv : L.element v v') :
    Call.Alike (Alike L) Eq (Queue.enqueue v) (Queue.enqueue v') := by
  refine ⟨fun {q q'} h hsupplied hsupplied' => ?_⟩
  cases h with
  | fixed h => exact ((FixedQueue.alike_enqueue hv).run h hsupplied hsupplied').mapState .fixed
  | growable h =>
    exact ((GrowableQueue.alike_enqueue hv).run h hsupplied hsupplied').mapState .growable
  | linked h => exact ((LinkedQueue.alike_enqueue hv).run h hsupplied hsupplied').mapState .linked
  | segmented h =>
    exact ((SegmentedQueue.alike_enqueue hv).run h hsupplied hsupplied').mapState .segmented

theorem alike_dequeue : Call.Alike (Alike L) L.out Queue.dequeue Queue.dequeue := by
  refine ⟨fun {q q'} h hsupplied hsupplied' => ?_⟩
  cases h with
  | fixed h => exact (FixedQueue.alike_dequeue.run h hsupplied hsupplied').mapState .fixed
  | growable h => exact (GrowableQueue.alike_dequeue.run h hsupplied hsupplied').mapState .growable
  | linked h => exact (LinkedQueue.alike_dequeue.run h hsupplied hsupplied').mapState .linked
  | segmented h => exact (SegmentedQueue.alike_dequeue.run h hsupplied hsupplied').mapState .segmented

/-! ## Queues that were built -/

theorem alike_of_strategy {t : Strategy} {capacity : Nat} {q : AnyQueue p} {q' : AnyQueue p'}
    (h : t.build p capacity = .ok q) (h' : t.build p' capacity = .ok q') : q.Alike L q' := by
  cases t with
  | fixed =>
    obtain ⟨r, hnew, rfl⟩ := exists_of_map_eq_ok h
    obtain ⟨r', hnew', rfl⟩ := exists_of_map_eq_ok h'
    exact .fixed (FixedQueue.alike_new hnew hnew')
  | growable =>
    obtain ⟨r, hnew, rfl⟩ := exists_of_map_eq_ok h
    obtain ⟨r', hnew', rfl⟩ := exists_of_map_eq_ok h'
    exact .growable (GrowableQueue.alike_new hnew hnew')
  | linked =>
    cases h
    cases h'
    exact .linked .new
  | segmented =>
    cases h
    cases h'
    exact .segmented (.new capacity)

/-- What is built from one blueprint is alike. -/
theorem alike_of_build {b : Blueprint} {q : AnyQueue p} {q' : AnyQueue p'}
    (h : b.build p = .ok q) (h' : b.build p' = .ok q') : q.Alike L q' := by
  cases b with
  | fixed w origin =>
    obtain ⟨r, hmade, rfl⟩ := exists_of_map_eq_ok h
    obtain ⟨r', hmade', rfl⟩ := exists_of_map_eq_ok h'
    have hnew := Blueprint.new_of_circular hmade fun _ _ => FixedQueue.new_of_new?
    have hnew' := Blueprint.new_of_circular hmade' fun _ _ => FixedQueue.new_of_new?
    exact .fixed (FixedQueue.alike_new hnew hnew')
  | growable w s origin =>
    obtain ⟨r, hmade, rfl⟩ := exists_of_map_eq_ok h
    obtain ⟨r', hmade', rfl⟩ := exists_of_map_eq_ok h'
    have hnew := Blueprint.new_of_circular hmade fun _ _ => GrowableQueue.new_of_new?
    have hnew' := Blueprint.new_of_circular hmade' fun _ _ => GrowableQueue.new_of_new?
    exact .growable (GrowableQueue.alike_new hnew hnew')
  | linked hint =>
    cases h
    cases h'
    cases hint <;> exact .linked .new
  | segmented capacity =>
    cases h
    cases h'
    exact .segmented (.new _)
  | named text capacity =>
    obtain ⟨t, hparse, hbuild⟩ := Blueprint.exists_of_build_named h
    obtain ⟨t', hparse', hbuild'⟩ := Blueprint.exists_of_build_named h'
    obtain rfl : t = t' := Except.ok.inj (hparse.symm.trans hparse')
    exact alike_of_strategy hbuild hbuild'

/-! ## Memory -/

/-- Whether memory was granted to an operation, or none was asked for. -/
def served (o : Outcome (AnyQueue p) (Reply p)) : Bool :=
  match o.result with
  | .error .capacityOverflow => false
  | .ok (.refused .allocationFailed) => false
  | _ => true

/-- `Served ops q` — memory is granted to all operations of a run. -/
def Served (ops : List Op) (q : AnyQueue p) : Prop :=
  ∀ o ∈ trace perform ops q, served o = true

instance (ops : List Op) (q : AnyQueue p) : Decidable (Served ops q) :=
  inferInstanceAs (Decidable (∀ o ∈ trace perform ops q, served o = true))

theorem served_append {ops : List Op} {op : Op} {q : AnyQueue p} (h : Served (ops ++ [op]) q) :
    Served ops q ∧ served ((perform op).run (final perform ops q)) = true := by
  unfold Served at h
  rw [Call.trace_append] at h
  exact ⟨fun o ho => h o (List.mem_append_left _ ho),
    h _ (List.mem_append_right _ List.mem_cons_self)⟩

theorem supplied_of_served {α : Type} {o : Outcome (AnyQueue p) α} {reply : α → Reply p}
    (h : served (o.mapAnswer reply) = true) : o.Supplied := by
  intro hfault
  obtain ⟨q, log, result⟩ := o
  obtain rfl : result = .error .capacityOverflow := hfault
  nomatch h

theorem refusal_ne_of_served {a : Allocator} {q : AnyQueue p}
    (h : served ((perform (.tryEnqueue a v)).run q) = true) :
    q.refusal a ≠ some .allocationFailed := by
  intro hrefusal
  rw [run_perform_tryEnqueue_of_refusal hrefusal] at h
  nomatch h

/-- Where memory is granted to both, an element is refused by both or by neither. -/
theorem Alike.refusal_eq {q : AnyQueue p} {q' : AnyQueue p'} (h : q.Alike L q') {a a' : Allocator}
    (ha : q.refusal a ≠ some .allocationFailed) (ha' : q'.refusal a' ≠ some .allocationFailed) :
    q.refusal a = q'.refusal a' := by
  cases h with
  | fixed h => rfl
  | growable h => exact h.refusal_eq ha ha'
  | linked h => rfl
  | segmented h => rfl

/-! ## Runs -/

/-- An operation to which memory is granted in both queues comes to the same in both. -/
theorem alike_perform {op op' : Op} (hop : op.Alike L.element op') {q : AnyQueue p}
    {q' : AnyQueue p'} (h : q.Alike L q') (hserved : served ((perform op).run q) = true)
    (hserved' : served ((perform op').run q') = true) :
    Outcome.Alike (Alike L) (Reply.Alike L) ((perform op).run q) ((perform op').run q') := by
  cases hop with
  | enqueue hv =>
    rw [run_perform_enqueue] at hserved hserved'
    rw [run_perform_enqueue, run_perform_enqueue]
    exact ((alike_enqueue hv).run h (supplied_of_served hserved)
      (supplied_of_served hserved')).mapAnswer fun _ => .done
  | tryEnqueue a a' hv =>
    -- the allocators may differ; but if neither is what refuses, only the capacity is
    have hrefusal : q.refusal a = q'.refusal a' :=
      h.refusal_eq (refusal_ne_of_served hserved) (refusal_ne_of_served hserved')
    cases hr : q'.refusal a' with
    | some e =>
      rw [run_perform_tryEnqueue_of_refusal (hrefusal.trans hr),
        run_perform_tryEnqueue_of_refusal hr]
      exact ⟨h, rfl, .ok (.refused e)⟩
    | none =>
      rw [run_perform_tryEnqueue_of_none (hrefusal.trans hr)] at hserved ⊢
      rw [run_perform_tryEnqueue_of_none hr] at hserved' ⊢
      exact ((alike_enqueue hv).run h (supplied_of_served hserved)
        (supplied_of_served hserved')).mapAnswer fun _ => .accepted
  | dequeue =>
    rw [run_perform_dequeue] at hserved hserved'
    rw [run_perform_dequeue, run_perform_dequeue]
    exact (alike_dequeue.run h (supplied_of_served hserved)
      (supplied_of_served hserved')).mapAnswer .out

theorem outlined_eq {o : Outcome (AnyQueue p) (Reply p)} {o' : Outcome (AnyQueue p') (Reply p')}
    (h : Outcome.Alike (Alike L) (Reply.Alike L) o o') : outlined o = outlined o' := by
  obtain ⟨q, log, result⟩ := o
  obtain ⟨q', log', result'⟩ := o'
  obtain ⟨hstate, hlog, hresult⟩ := h
  obtain rfl : log = log' := hlog
  unfold outlined
  rw [show q.outline = q'.outline from hstate.outline_eq]
  cases hresult <;> rfl

/-- **Twin runs have one outline**, and end in queues that are alike. -/
theorem alike_run {ops ops' : List Op} (hops : List.Forall₂ (Op.Alike L.element) ops ops') :
    ∀ {q : AnyQueue p} {q' : AnyQueue p'}, q.Alike L q' → Served ops q → Served ops' q' →
      (trace perform ops q).map outlined = (trace perform ops' q').map outlined ∧
        (final perform ops q).Alike L (final perform ops' q') := by
  induction hops with
  | nil =>
    intro q q' h _ _
    exact ⟨rfl, h⟩
  | cons hop _ ih =>
    intro q q' h hserved hserved'
    have ho := alike_perform hop h (hserved _ List.mem_cons_self) (hserved' _ List.mem_cons_self)
    obtain ⟨htrace, hfinal⟩ := ih ho.state (fun o hmem => hserved o (List.mem_cons_of_mem _ hmem))
      (fun o hmem => hserved' o (List.mem_cons_of_mem _ hmem))
    exact ⟨congrArg₂ List.cons (outlined_eq ho) htrace, hfinal⟩

/-! ## What is dequeued -/

/-- `Matched q q'` — what comes of a dequeue in a boxed queue, and in its inline twin. -/
structure Matched (q : AnyQueue .boxed) (q' : AnyQueue .inline) : Prop where
  some : ∀ v : Int32, (Queue.dequeue.run q).result = .ok (some v : Option Int32) →
    (Queue.dequeue.run q').result = .ok v
  empty : Queue.size q = 0 → (Queue.dequeue.run q).result = .ok (none : Option Int32) ∧
    (Queue.dequeue.run q').result = .ok Placement.sentinel

/-- After twin runs on the same elements, an inline dequeue follows the boxed one. -/
theorem matched_after {q : AnyQueue .boxed} {q' : AnyQueue .inline} (hq : q.Holds [])
    (hq' : q'.Holds []) (h : q.Alike .inlined q') {ops ops' : List Op}
    (hops : List.Forall₂ (Op.Alike Eq) ops ops') (hserved : Served (ops ++ [.dequeue]) q)
    (hserved' : Served (ops' ++ [.dequeue]) q') :
    Matched (final perform ops q) (final perform ops' q') := by
  obtain ⟨hbefore, hlast⟩ := served_append hserved
  obtain ⟨hbefore', hlast'⟩ := served_append hserved'
  have hfinal : (final perform ops q).Alike .inlined (final perform ops' q') :=
    (alike_run hops h hbefore hbefore').2
  rw [run_perform_dequeue] at hlast hlast'
  have hresult := (alike_dequeue.run hfinal (supplied_of_served hlast)
    (supplied_of_served hlast')).result
  constructor
  case some =>
    intro v hv
    rw [hv] at hresult
    generalize (Queue.dequeue.run (final perform ops' q')).result = result' at *
    cases hresult with
    | ok hout => exact congrArg Except.ok (hout v rfl)
  case empty =>
    intro hsize
    have hsize' : Queue.size (final perform ops' q') = 0 := hfinal.size_eq.symm.trans hsize
    rw [run_dequeue_of_size_eq_zero hq ops hsize, run_dequeue_of_size_eq_zero hq' ops' hsize']
    exact ⟨rfl, rfl⟩

/-- A boxed queue that counts elements has one to hand out, unless it is or was overfull. -/
theorem overfull_of_dequeue_none {q : AnyQueue .boxed} (hq : q.Holds []) {ops : List Op}
    (hnone : (Queue.dequeue.run (final perform ops q)).result = .ok (none : Option Int32))
    (hsize : 0 < Queue.size (final perform ops q)) :
    ∃ before, before <+: ops ∧ (final perform before q).Overfull := by
  refine (holds_or_overfull ops hq).resolve_right ?_
  rintro ⟨items, hheld⟩
  cases items with
  | nil =>
    rw [hheld.size_eq] at hsize
    exact Nat.lt_irrefl 0 hsize
  | cons v rest =>
    have hfirst : (none : Option Int32) = some v := hheld.dequeue_cons.2 _ hnone
    nomatch hfirst

/-- **Elements and placements do not show in the structure, and an inline queue follows the boxed
    one.**  For every blueprint, of any kind of queue, index rule, policy and capacity, and every two
    runs of the same kinds of operations to which memory is granted: whatever is enqueued, and in
    whichever placements, the outlines and the logs are the same after each operation.  If what is
    enqueued is the same, an inline dequeue answers the element that the boxed one answers, and
    both say that there is none when the size is zero; that a boxed queue has none and a size above
    zero takes a fixed queue that was overfull at some time. -/
theorem twin_runs (b : Blueprint) :
    (∀ {p p' : Placement} {q : AnyQueue p} {q' : AnyQueue p'},
      b.build p = .ok q → b.build p' = .ok q' →
      ∀ {ops ops' : List Op}, List.Forall₂ (Op.Alike fun _ _ => True) ops ops' →
        Served ops q → Served ops' q' →
        q.outline = q'.outline ∧
          (trace perform ops q).map outlined = (trace perform ops' q').map outlined) ∧
    (∀ {q : AnyQueue .boxed} {q' : AnyQueue .inline},
      b.build .boxed = .ok q → b.build .inline = .ok q' →
      ∀ {ops ops' : List Op}, List.Forall₂ (Op.Alike Eq) ops ops' →
        Served (ops ++ [.dequeue]) q → Served (ops' ++ [.dequeue]) q' →
        Matched (final perform ops q) (final perform ops' q')) ∧
    (∀ {q : AnyQueue .boxed}, b.build .boxed = .ok q → ∀ {ops : List Op},
      (Queue.dequeue.run (final perform ops q)).result = .ok (none : Option Int32) →
      0 < Queue.size (final perform ops q) →
      ∃ before, before <+: ops ∧ (final perform before q).Overfull) := by
  refine ⟨?_, ?_, ?_⟩
  · intro p p' q q' hbuild hbuild' ops ops' hops hserved hserved'
    have h : q.Alike (.any p p') q' := alike_of_build hbuild hbuild'
    exact ⟨h.outline_eq, (alike_run hops h hserved hserved').1⟩
  · intro q q' hbuild hbuild' ops ops' hops hserved hserved'
    exact matched_after (holds_of_build hbuild) (holds_of_build hbuild')
      (alike_of_build hbuild hbuild') hops hserved hserved'
  · intro q hbuild ops hnone hsize
    exact overfull_of_dequeue_none (holds_of_build hbuild) hnone hsize

/-- A boxed queue that grows, refuses nothing and shrinks, and an inline one with other elements; and
    three elements in two slots, of which one is dequeued, then the one that took the place of
    another, and then nothing from that place again. -/
theorem twin_runs_of_three :
    let growable := Blueprint.growable .compare .quarter (.sized 1)
    let ops : List Op := [.enqueue 1, .tryEnqueue (fun _ => true) 2, .dequeue]
    let ops' : List Op := [.enqueue (-1), .tryEnqueue (fun bytes => bytes < 9) 0, .dequeue]
    let q : AnyQueue .boxed := .growable .compare .quarter ⟨Ring.vacant .boxed 1, 0, 0⟩
    let q' : AnyQueue .inline := .growable .compare .quarter ⟨Ring.vacant .inline 1, 0, 0⟩
    let fixed := Blueprint.fixed .mask (.reserved 2 none)
    let crowded : List Op := [.enqueue 1, .enqueue 2, .enqueue 3, .dequeue, .dequeue]
    let crammed : AnyQueue .boxed := .fixed .mask ⟨Ring.vacant .boxed 2⟩
    let crammed' : AnyQueue .inline := .fixed .mask ⟨Ring.vacant .inline 2⟩
    (growable.build .boxed = .ok q ∧ growable.build .inline = .ok q' ∧
      List.Forall₂ (Op.Alike fun _ _ => True) ops ops' ∧ Served ops q ∧ Served ops' q' ∧
      (trace perform ops q).map outlined = (trace perform ops' q').map outlined) ∧
    (fixed.build .boxed = .ok crammed ∧ fixed.build .inline = .ok crammed' ∧
      List.Forall₂ (Op.Alike Eq) crowded crowded ∧
      Served (crowded ++ [.dequeue]) crammed ∧ Served (crowded ++ [.dequeue]) crammed' ∧
      Matched (final perform crowded crammed) (final perform crowded crammed')) ∧
    (Queue.dequeue.run (final perform crowded crammed)).result = .ok (none : Option Int32) ∧
    0 < Queue.size (final perform crowded crammed) ∧
    ∃ before, before <+: crowded ∧ (final perform before crammed).Overfull := by
  intro growable ops ops' q q' fixed crowded crammed crammed'
  have hops : List.Forall₂ (Op.Alike fun _ _ => True) ops ops' :=
    .cons (.enqueue trivial) (.cons (.tryEnqueue _ _ trivial) (.cons .dequeue .nil))
  have hcrowded : List.Forall₂ (Op.Alike Eq) crowded crowded :=
    .cons (.enqueue rfl) (.cons (.enqueue rfl) (.cons (.enqueue rfl)
      (.cons .dequeue (.cons .dequeue .nil))))
  have hserved : Served ops q := by decide +kernel
  have hserved' : Served ops' q' := by decide +kernel
  have hcrammed : Served (crowded ++ [.dequeue]) crammed := by decide +kernel
  have hcrammed' : Served (crowded ++ [.dequeue]) crammed' := by decide +kernel
  have hnone :
      (Queue.dequeue.run (final perform crowded crammed)).result = .ok (none : Option Int32) := by
    decide +kernel
  have hsize : 0 < Queue.size (final perform crowded crammed) := by decide +kernel
  exact ⟨⟨rfl, rfl, hops, hserved, hserved',
      ((twin_runs growable).1 rfl rfl hops hserved hserved').2⟩,
    ⟨rfl, rfl, hcrowded, hcrammed, hcrammed',
      (twin_runs fixed).2.1 rfl rfl hcrowded hcrammed hcrammed'⟩,
    hnone, hsize, (twin_runs fixed).2.2 rfl hnone hsize⟩

end AnyQueue
end Fifo
