/-
  LOGS, read as the history of the storage.

  1. **Silence** — no call on a fixed or a linked queue logs anything, in whatever state the queue is.

  2. **Replay** — `Record.resize?` reads a record at a capacity: the elements it tells of must be as
     many as make a queue move there, and the store must be the one that follows.  Reading
     everything that a growable queue logged, from its first capacity on, leads to its capacity,
     under both policies, as long as its moves can be counted: one that can not is not logged.

  3. **Traffic** — a segmented queue logs each segment that it allocates, by the size that all of them
     have, and each that it gives back; the difference is the number of segments.

  A move up is logged between the move and the write, a move down after the element has left, and a
  segment before it is linked.  A log is read where a call has ended, and no call logs more than one
  record (`Gauge.Step`, `SegmentedQueue.Move`), so that each record stands for the call as a whole.
-/
import Fifo.Proofs.Fixed.Order
import Fifo.Proofs.Growable.Gauge
import Fifo.Proofs.Linked.Order
import Fifo.Proofs.Segmented.Count
import Fifo.Proofs.Segmented.Moves

namespace Fifo

open Call (final logged trace)

/-! ## Silence -/

namespace Call

variable {σ τ α β ι : Type}

/-- `Silent c` — whatever comes of the call, nothing is logged. -/
def Silent (c : Call σ α) : Prop := ∀ s, (c.run s).log = []

namespace Silent

theorem pure (a : α) : Silent (Pure.pure a : Call σ α) := fun _ => rfl

theorem self : Silent (Call.self : Call σ σ) := fun _ => rfl

theorem update (f : σ → σ) : Silent (Call.update f) := fun _ => rfl

theorem change (f : σ → Except Fault σ) : Silent (Call.change f) := by
  intro s
  cases h : f s with
  | ok t => rw [run_change_of_ok h]
  | error fault => rw [run_change_of_error h]

theorem bind {c : Call σ α} {next : α → Call σ β} (h : c.Silent) (hnext : ∀ a, (next a).Silent) :
    (c >>= next).Silent := by
  intro s
  have hc := h s
  rw [run_bind]
  generalize c.run s = o at hc ⊢
  obtain ⟨t, log, fault | a⟩ := o
  · exact hc
  · obtain rfl : log = [] := hc
    exact hnext a t

/-- Silent calls make silent runs. -/
theorem logged_eq_nil {perform : ι → Call σ α} (h : ∀ i, (perform i).Silent) (is : List ι) (s : σ) :
    logged perform is s = [] := by
  induction is generalizing s with
  | nil => rfl
  | cons i rest ih => rw [logged_cons, h i s, ih, List.nil_append]

end Silent
end Call

theorem Queue.silent_perform {σ : Type} {p : Placement} [Queue σ p]
    (henqueue : ∀ v, (enqueue v : Call σ Unit).Silent)
    (hdequeue : (dequeue : Call σ p.Out).Silent) (op : Op) : (perform op : Call σ _).Silent := by
  cases op with
  | enqueue v => exact (henqueue v).bind fun _ => .pure _
  | dequeue => exact hdequeue.bind fun _ => .pure _

namespace Ring

variable {p : Placement}

theorem silent_exchange (place : Nat) (f : p.Slot → p.Slot) : (exchange place f).Silent := by
  intro r
  unfold exchange
  dsimp only
  split <;> rfl

theorem silent_write (w : IndexRule) (v : Int32) : (write w v : Call (Ring p) Unit).Silent :=
  .bind .self fun _ => .bind (silent_exchange _ _) fun _ => .bind (.change _) fun _ => .change _

theorem silent_read (w : IndexRule) : (read w : Call (Ring p) p.Out).Silent := by
  refine .bind .self fun r => ?_
  show Call.Silent (if r.size = 0 then pure p.empty else _)
  split
  · exact .pure _
  · exact .bind .self fun _ => .bind (silent_exchange _ _) fun _ =>
      .bind (.change _) fun _ => .bind (.change _) fun _ => .pure _

end Ring

theorem FixedQueue.silent_perform {p : Placement} {w : IndexRule} (op : Queue.Op) :
    (Queue.perform op : Call (FixedQueue p w) _).Silent :=
  Queue.silent_perform (fun v q => Ring.silent_write w v q.ring)
    (fun q => Ring.silent_read w q.ring) op

theorem LinkedQueue.silent_perform {p : Placement} (op : Queue.Op) :
    (Queue.perform op : Call (LinkedQueue p) _).Silent := by
  refine Queue.silent_perform (fun v => .update _) ?_ op
  refine Call.Silent.bind .self fun q => ?_
  dsimp only
  split
  · exact .pure _
  · exact .bind (.update _) fun _ => .bind (.change _) fun _ => .pure _

/-! ## Replay -/

/-- The capacity after a record, read at a capacity.  A move up doubles a store that is full; a move
    down halves one of which a quarter is left, if that is more than the floor. -/
def Record.resize? (capacity : Nat) : Record → Option Nat
  | .grew slots held => if held = capacity ∧ slots = 2 * held then some slots else none
  | .shrank slots held =>
    if slots = capacity / 2 ∧ held = capacity / 4 ∧ ShrinkPolicy.floor < held then some slots else none
  | _ => none

/-- How many moves up were logged. -/
def growths (log : List Record) : Nat :=
  log.countP fun
    | .grew .. => true
    | _ => false

/-- How many moves down were logged. -/
def shrinkages (log : List Record) : Nat :=
  log.countP fun
    | .shrank .. => true
    | _ => false

namespace Gauge

variable {s : ShrinkPolicy} {g g' : Gauge} {c : Nat} {log more : List Record}

/-- `Told log g` — as many moves were logged as the gauge counts. -/
structure Told (log : List Record) (g : Gauge) : Prop where
  grows_eq : growths log = g.grows
  shrinks_eq : shrinkages log = g.shrinks

/-- A step is counted as it is logged. -/
theorem Step.counts (h : Step s g log g') :
    g'.grows = g.grows + growths log ∧ g'.shrinks = g.shrinks + shrinkages log := by
  cases h with
  | idle | put | take | grow | shrink | growUncounted | shrinkUncounted => exact ⟨rfl, rfl⟩

/-- **What is told so far is told on**, step by step. -/
theorem Told.step (h : Told log g) (hstep : Step s g more g') : Told (log ++ more) g' := by
  obtain ⟨hgrows, hshrinks⟩ := hstep.counts
  constructor
  · rw [hgrows, ← h.grows_eq]
    exact List.countP_append
  · rw [hshrinks, ← h.shrinks_eq]
    exact List.countP_append

/-- **A step is read as it was made**, if a move can be counted. -/
theorem Step.resize (h : Step s g log g') (hn : Countable s g) :
    log.foldlM Record.resize? g.capacity = some g'.capacity := by
  cases h with
  | idle | put | take => rfl
  | @grow c =>
    have hread : Record.resize? c (.grew (2 * c) c) = some (2 * c) := if_pos ⟨rfl, rfl⟩
    rw [List.foldlM_cons, hread]
    rfl
  | @shrink n grows shrinks hleast =>
    have hfloor : ShrinkPolicy.floor < n := by
      rw [ShrinkPolicy.double_floor] at hleast
      exact Nat.lt_of_lt_of_le (by decide) hleast
    have hread : Record.resize? (4 * n) (.shrank (2 * n) n) = some (2 * n) :=
      if_pos ⟨by omega, by omega, hfloor⟩
    rw [List.foldlM_cons, hread]
    rfl
  | growUncounted hlast => exact absurd hn.grows_lt hlast
  | shrinkUncounted hlast _ hasked => exact absurd (hn.shrinks_lt hasked) hlast

theorem Step.length_log_le (h : Step s g log g') : log.length ≤ 1 := by
  cases h with
  | idle | put | take | growUncounted | shrinkUncounted => exact Nat.zero_le 1
  | grow | shrink => exact Nat.le_refl 1

end Gauge

namespace GrowableQueue

variable {p : Placement} {w : IndexRule} {s : ShrinkPolicy}

/-- **The log of a run tells the counts of the queue after it**, and no call logs more than one
    record. -/
theorem told_final (hs : s.Halves) {q : GrowableQueue p w s} (hq : q.Made) (ops : List Op) :
    Gauge.Told (logged perform ops q) (final perform ops q).gauge ∧
      ∀ o ∈ trace perform ops q, o.log.length ≤ 1 := by
  have hhoused := hq.housed
  have hnew : Gauge.Told [] q.gauge := by
    rw [hq.gauge_eq]
    exact ⟨rfl, rfl⟩
  constructor
  · refine (Call.logged_final perform
      (fun log q' => Housed q' ∧ Gauge.Told log q'.gauge) ?_ ops ⟨hhoused, hnew⟩).2
    rintro op log q' ⟨hq', htold⟩
    obtain ⟨hstep, hnext⟩ := step_perform hs hq' op
    exact ⟨hnext, htold.step hstep⟩
  · refine (kept_housed hs).outcomes ?_ ops hhoused
    intro op q' hq'
    exact (step_perform hs hq' op).1.length_log_le

/-- **The log of a run leads to the queue after it**, where every move is counted. -/
theorem replayed_final (hs : s.Halves) (ops : List Op) {q : GrowableQueue p w s} (hq : Housed q)
    (hn : q.Spare ops.length) :
    (logged perform ops q).foldlM Record.resize? q.capacity =
      some (final perform ops q).capacity := by
  induction ops generalizing q with
  | nil => rfl
  | cons op rest ih =>
    obtain ⟨hstep, hhoused⟩ := step_perform hs hq op
    obtain ⟨_, hn'⟩ := budgeted_spare op ⟨hq.fitting, hn⟩
    have hread : ((perform op).run q).log.foldlM Record.resize? q.capacity =
        some ((perform op).run q).state.capacity := hstep.resize (hn.countable hq.fitting)
    rw [Call.logged_cons, List.foldlM_append, hread]
    exact ih hhoused hn'

end GrowableQueue

/-! ## Traffic -/

namespace SegmentedQueue

variable {p : Placement} {capacity n : Nat} {segments segments' : List (Segment p)}
  {log more : List Record}

/-- How many segments were given back, by what was logged. -/
def releases (log : List Record) : Nat :=
  log.countP fun
    | .segmentReleased => true
    | _ => false

/-- `Traffic capacity log segments` — the log tells of segments of that capacity, and accounts for
    those that there are. -/
structure Traffic (capacity : Nat) (log : List Record) (segments : List (Segment p)) : Prop where
  named : ∀ record ∈ log, record = .segmentAllocated capacity ∨ record = .segmentReleased
  balance : allocations log = releases log + segments.length

/-- A move is logged by what it does to the number of segments. -/
theorem Move.traffic (h : Move capacity segments n log segments') :
    (∀ record ∈ log, record = .segmentAllocated capacity ∨ record = .segmentReleased) ∧
      segments.length + allocations log = segments'.length + releases log ∧ log.length ≤ 1 := by
  cases h with
  | idle => exact ⟨fun _ hmem => absurd hmem List.not_mem_nil, rfl, Nat.zero_le 1⟩
  | put =>
    refine ⟨fun _ hmem => absurd hmem List.not_mem_nil, ?_, Nat.zero_le 1⟩
    rw [List.length_append, List.length_append]
    rfl
  | link =>
    refine ⟨fun record hmem => .inl (List.mem_singleton.mp hmem), ?_, Nat.le_refl 1⟩
    rw [List.length_append]
    rfl
  | read hread =>
    refine ⟨fun _ hmem => absurd hmem List.not_mem_nil, ?_, Nat.zero_le 1⟩
    rw [hread.length_eq]
    rfl
  | release _ hread =>
    refine ⟨fun record hmem => .inr (List.mem_singleton.mp hmem), ?_, Nat.le_refl 1⟩
    rw [hread.length_eq]
    rfl

/-- **The account is kept**, move by move. -/
theorem Traffic.move (h : Traffic capacity log segments)
    (hmove : Move capacity segments n more segments') : Traffic capacity (log ++ more) segments' := by
  obtain ⟨hnamed, hbalance, _⟩ := hmove.traffic
  constructor
  · intro record hmem
    rcases List.mem_append.mp hmem with hbefore | hnow
    · exact h.named record hbefore
    · exact hnamed record hnow
  · have hallocations : allocations (log ++ more) = allocations log + allocations more :=
      List.countP_append
    have hreleases : releases (log ++ more) = releases log + releases more := List.countP_append
    have hbefore := h.balance
    omega

/-- **The log of a run accounts for the segments after it**, and no call logs more than one record. -/
theorem traffic_after (p : Placement) (requested : Nat) (ops : List Queue.Op) :
    let k := max requested 1
    let q := Queue.after ops (new p requested)
    (∃ items, Holds k q items) ∧
      Traffic k (logged Queue.perform ops (new p requested)) q.chain.toList ∧
      ∀ o ∈ Queue.trace ops (new p requested), o.log.length ≤ 1 := by
  intro k q
  have hpos : 0 < k := requested_pos requested
  have hnew : ∃ items, Holds k (new p requested) items := ⟨[], holds_new requested⟩
  have hnone : Traffic k [] (new p requested).chain.toList :=
    ⟨fun _ hmem => absurd hmem List.not_mem_nil, rfl⟩
  have hstep : ∀ (op : Queue.Op) {log : List Record} {q : SegmentedQueue p},
      (∃ items, Holds k q items) ∧ Traffic k log q.chain.toList →
        (∃ items, Holds k ((Queue.perform op).run q).state items) ∧
          Traffic k (log ++ ((Queue.perform op).run q).log)
            ((Queue.perform op).run q).state.chain.toList := by
    rintro op log q ⟨⟨items, hq⟩, htraffic⟩
    obtain ⟨hmove, hnext⟩ := hq.move_perform hpos op
    exact ⟨hnext, htraffic.move hmove⟩
  obtain ⟨hheld, htraffic⟩ := Call.logged_final Queue.perform
    (fun log q => (∃ items, Holds k q items) ∧ Traffic k log q.chain.toList) hstep ops ⟨hnew, hnone⟩
  refine ⟨hheld, htraffic, (kept_holds hpos).outcomes ?_ ops hnew⟩
  rintro op q ⟨items, hq⟩
  exact (hq.move_perform hpos op).1.traffic.2.2

end SegmentedQueue

/-! ## Runs -/

/-- **A log is the history of the storage**, for every placement, index rule and request.  Fixed and
    linked queues log nothing, in whatever state they are.  What a growable queue logged under one
    of the two policies tells as many moves up and down as it counts, whichever elements it was
    refused, and is read from its first capacity to its capacity: after every run if it never
    shrinks, and otherwise after those of fewer than `2 ^ 64` calls.  What a segmented queue logged
    are segments of its size, allocated and given back, and the difference is the number of those
    there are.  No call logs more than one record, and every beginning of a run is a run. -/
theorem logs_in_runs (p : Placement) (w : IndexRule) :
    (∀ (q : FixedQueue p w) (ops : List Queue.Op), logged Queue.perform ops q = []) ∧
    (∀ (q : LinkedQueue p) (ops : List Queue.Op), logged Queue.perform ops q = []) ∧
    (∀ s : ShrinkPolicy, s = .never ∨ s = .quarter → ∀ q : GrowableQueue p w s, q.Made →
      ∀ ops : List GrowableQueue.Op,
        let q' := final GrowableQueue.perform ops q
        let log := logged GrowableQueue.perform ops q
        (s = .never ∨ ops.length < Word.limit →
          log.foldlM Record.resize? q.capacity = some q'.capacity) ∧
          growths log = q'.grows ∧ shrinkages log = q'.shrinks ∧
          ∀ o ∈ trace GrowableQueue.perform ops q, o.log.length ≤ 1) ∧
    (∀ (requested : Nat) (ops : List Queue.Op),
      let q := Queue.after ops (SegmentedQueue.new p requested)
      let log := logged Queue.perform ops (SegmentedQueue.new p requested)
      (∀ record ∈ log,
          record = .segmentAllocated q.segmentCapacity ∨ record = .segmentReleased) ∧
        SegmentedQueue.allocations log = SegmentedQueue.releases log + q.segments ∧
        ∀ o ∈ Queue.trace ops (SegmentedQueue.new p requested), o.log.length ≤ 1) := by
  refine ⟨?_, ?_, ?_, ?_⟩
  · intro q ops
    exact Call.Silent.logged_eq_nil FixedQueue.silent_perform ops q
  · intro q ops
    exact Call.Silent.logged_eq_nil LinkedQueue.silent_perform ops q
  · intro s hs q hq ops q' log
    have hhalves : s.Halves := ShrinkPolicy.halves_of_standard hs
    obtain ⟨htold, hshort⟩ := GrowableQueue.told_final hhalves hq ops
    refine ⟨fun hn => ?_, htold.grows_eq, htold.shrinks_eq, hshort⟩
    exact GrowableQueue.replayed_final hhalves ops hq.housed (hq.spare hn)
  · intro requested ops q log
    obtain ⟨⟨items, hq⟩, htraffic, hshort⟩ := SegmentedQueue.traffic_after p requested ops
    refine ⟨?_, ?_, hshort⟩
    · rw [show q.segmentCapacity = max requested 1 from hq.capacity_eq]
      exact htraffic.named
    · rw [show q.segments = q.chain.toList.length from hq.segments_eq hq.chain]
      exact htraffic.balance

/-- A queue that grew twice, with a refusal in between, and one that went down from 128 slots to 64;
    and three segments, of which one was given back. -/
theorem logs_in_runs_of_quarter :
    let q : GrowableQueue .boxed .modulo .quarter := ⟨Ring.vacant .boxed 1, 0, 0⟩
    let ops : List GrowableQueue.Op :=
      [.enqueue 1, .tryEnqueue (fun _ => true) 2, .tryEnqueue (fun _ => false) 3, .enqueue 4]
    let wide : GrowableQueue .boxed .modulo .quarter := ⟨Ring.vacant .boxed 128, 0, 0⟩
    let down : List GrowableQueue.Op := List.replicate 33 (.enqueue 7) ++ [.dequeue]
    let segmented : List Queue.Op := [.enqueue 1, .enqueue 2, .enqueue 3, .dequeue, .dequeue]
    let made := SegmentedQueue.new .boxed 1
    q.Made ∧ ops.length < Word.limit ∧
      logged GrowableQueue.perform ops q = [.grew 2 1, .grew 4 2] ∧
      [.grew 2 1, .grew 4 2].foldlM Record.resize? 1 =
        some (final GrowableQueue.perform ops q).capacity ∧
    wide.Made ∧ logged GrowableQueue.perform down wide = [.shrank 64 32] ∧
      shrinkages [.shrank 64 32] = (final GrowableQueue.perform down wide).shrinks ∧
    logged Queue.perform segmented made =
      [.segmentAllocated 1, .segmentAllocated 1, .segmentAllocated 1, .segmentReleased] ∧
      SegmentedQueue.allocations (logged Queue.perform segmented made) =
        SegmentedQueue.releases (logged Queue.perform segmented made) +
          (Queue.after segmented made).segments := by
  intro q ops wide down segmented made
  obtain ⟨_, _, hgrowables, hsegmenteds⟩ := logs_in_runs .boxed .modulo
  have hq : q.Made := ⟨1, .inl rfl⟩
  have hwide : wide.Made := ⟨128, .inl rfl⟩
  have hup : logged GrowableQueue.perform ops q = [.grew 2 1, .grew 4 2] := by decide +kernel
  have hdown : logged GrowableQueue.perform down wide = [.shrank 64 32] := by decide +kernel
  have hn : ops.length < Word.limit := by decide
  obtain ⟨hreads, _⟩ := hgrowables .quarter (.inr rfl) q hq ops
  obtain ⟨_, _, hshrinks, _⟩ := hgrowables .quarter (.inr rfl) wide hwide down
  obtain ⟨_, hbalance, _⟩ := hsegmenteds 1 segmented
  have hread := hreads (.inr hn)
  rw [hup] at hread
  rw [hdown] at hshrinks
  exact ⟨hq, hn, hup, hread, hwide, hdown, hshrinks, by decide +kernel, hbalance⟩

end Fifo
