/-
  OVERFLOW of fixed queues: what every run finds, however far it goes beyond the capacity.

  1. **Invariant** — `Follows capacity h r`, between a ring and the history of its queue: head and
     size are told by the two numbers of the history, and EVERY slot that was ever written, counted or
     not, is told by the latest enqueue that reached it (`History.left`).  The window is of no use
     here: beyond the capacity it names some slots more than once.

  2. **Steps** — `Follows.written`: an enqueue takes over one slot, in which there may have been an
     element not taken yet.  `Follows.taken`: a dequeue leaves one slot a turn behind.

  3. **Runs** — `Told`: what the history tells about the queue after a run, and about the dequeue that
     comes next.
-/
import Fifo.Proofs.Fixed.History
import Fifo.Proofs.Fixed.Order

namespace Fifo

variable {p : Placement} {w : IndexRule}

namespace FixedQueue

open History (Latest left found)

/-! ## The invariant -/

/-- `Follows capacity h r` — the ring is what is left of the history. -/
structure Follows (capacity : Nat) (h : History) (r : Ring p) : Prop extends Ring.Sound r where
  capacity_eq : r.capacity = capacity
  /-- No more elements were dequeued than were enqueued. -/
  reads_le : h.reads ≤ h.writes.length
  /-- The dequeues before an enqueue are among the dequeues so far. -/
  before_le : ∀ entry ∈ h.writes, entry.2 ≤ h.reads
  head_eq : r.head = h.reads % capacity
  size_eq : r.size = h.writes.length - h.reads
  /-- A slot that was written holds what the latest enqueue left, for the dequeue that will look into
      it next. -/
  slot_eq : ∀ i, i < capacity → ∀ u entry, Latest capacity h.writes.length (h.reads + i) u →
    h.writes[u]? = some entry → r.slotAt i = left p capacity (h.reads + i) entry

namespace Follows

variable {capacity : Nat} {h : History} {r : Ring p}

/-- Steps after the head are dequeues to come. -/
theorem place_eq (hr : Follows capacity h r) (i : Nat) : r.place i = (h.reads + i) % capacity := by
  show (r.head + i) % r.capacity = _
  rw [hr.capacity_eq, hr.head_eq, Nat.mod_add_mod]

/-- The tail is where the next enqueue belongs. -/
theorem place_size (hr : Follows capacity h r) : r.place r.size = h.writes.length % capacity := by
  have hle := hr.reads_le
  rw [hr.place_eq, hr.size_eq]
  congr 1
  omega

/-- After an enqueue every slot is told by the latest enqueue that reached it: the one at the tail by
    this one. -/
theorem slotAt_written (hr : Follows capacity h r) (v : Int32) {i : Nat} (hi : i < capacity) {u : Nat}
    {entry : Int32 × Nat} (hlatest : Latest capacity (h.writes.length + 1) (h.reads + i) u)
    (hentry : (h.writes ++ [(v, h.reads)])[u]? = some entry) :
    (r.written v).slotAt i = left p capacity (h.reads + i) entry := by
  by_cases hslot : h.writes.length % capacity = (h.reads + i) % capacity
  · -- the slot of the new element
    have hplace : r.place i = r.place r.size := by
      rw [hr.place_eq, hr.place_size, hslot]
    obtain rfl := hlatest.eq_of_slot hslot
    rw [List.getElem?_concat_length] at hentry
    obtain rfl := Option.some.inj hentry
    have hplace' : (r.written v).place i = (r.written v).place r.size := by
      rw [Ring.place_written, Ring.place_written, hplace]
    rw [Ring.slotAt_congr hplace', Ring.slotAt_written_self hr.toSound]
    exact (if_pos (Nat.add_lt_add_left hi _)).symm
  · -- a slot that is left alone
    have hne : r.place i ≠ r.place r.size := by
      rw [hr.place_eq, hr.place_size]
      exact Ne.symm hslot
    have hold := hlatest.of_other_slot hslot
    rw [List.getElem?_append_left hold.lt] at hentry
    rw [Ring.slotAt_written_of_ne hr.toSound v hne]
    exact hr.slot_eq i hi u entry hold hentry

/-- An enqueue takes over the slot at the tail, whatever is in it. -/
theorem written (hr : Follows capacity h r) (v : Int32) :
    Follows capacity (h.record (.enqueue v)) (r.written v) where
  toSound := hr.toSound.written v
  capacity_eq := (Ring.capacity_written r v).trans hr.capacity_eq
  reads_le := Nat.le_trans hr.reads_le (h.length_le_record (.enqueue v))
  before_le := by
    intro entry hentry
    rcases List.mem_append.mp hentry with hold | hnew
    · exact hr.before_le entry hold
    · rw [List.mem_singleton.mp hnew]
      exact Nat.le_refl _
  head_eq := hr.head_eq
  size_eq := by
    have hle := hr.reads_le
    show r.size + 1 = (h.writes ++ [(v, h.reads)]).length - h.reads
    rw [hr.size_eq, List.length_append, List.length_singleton]
    omega
  slot_eq := by
    intro i hi u entry hlatest hentry
    have hlen : (h.record (.enqueue v)).writes.length = h.writes.length + 1 :=
      List.length_append
    rw [hlen] at hlatest
    exact hr.slotAt_written v hi hlatest hentry

/-- The slot at the head is what the latest enqueue that reached it left there. -/
theorem front_eq (hr : Follows capacity h r) {u : Nat} {entry : Int32 × Nat}
    (hlatest : Latest capacity h.writes.length h.reads u) (hentry : h.writes[u]? = some entry) :
    r.front = left p capacity h.reads entry := by
  have hc : 0 < capacity := by
    rw [← hr.capacity_eq]
    exact hr.capacity_pos
  rw [← Ring.slotAt_zero hr.toSound]
  exact hr.slot_eq 0 hc u entry hlatest hentry

/-- After a dequeue every slot is told by the latest enqueue that reached it, as it was before, or
    taken from if it was at the head. -/
theorem slotAt_taken (hr : Follows capacity h r) {i : Nat} (hi : i < capacity) {u : Nat}
    {entry : Int32 × Nat} (hlatest : Latest capacity h.writes.length (h.reads + (i + 1)) u)
    (hentry : h.writes[u]? = some entry) :
    r.taken.slotAt i = left p capacity (h.reads + (i + 1)) entry := by
  rcases Nat.lt_or_eq_of_le (Nat.succ_le_of_lt hi) with hlt | hturn
  · have hne : r.place (i + 1) ≠ r.head := by
      intro heq
      rw [← hr.toSound.head_eq] at heq
      have hzero : 0 = i + 1 :=
        Ring.place_inj (Nat.zero_le _) (by rw [hr.capacity_eq]; omega) heq.symm
      omega
    rw [Ring.slotAt_taken_of_ne hne]
    exact hr.slot_eq (i + 1) hlt u entry hlatest hentry
  · have hi' : i + 1 = capacity := hturn
    have heq : r.place (i + 1) = r.head := by
      rw [hr.place_eq, hr.head_eq, hi', Nat.add_mod_right]
    rw [hi'] at hlatest ⊢
    rw [Ring.slotAt_taken_of_eq hr.toSound.indexed heq, hr.front_eq hlatest.of_turn hentry,
      History.taken_left]
    -- the dequeue is a turn later than every dequeue before that enqueue
    have hbefore := hr.before_le entry (List.mem_of_getElem? hentry)
    exact (if_neg (by omega)).symm

/-- A dequeue leaves the slot at the head taken from, a turn behind. -/
theorem taken (hr : Follows capacity h r) (hk : h.reads < h.writes.length) :
    Follows capacity (h.record .dequeue) r.taken := by
  have hrecord : h.record .dequeue = { h with reads := h.reads + 1 } := if_pos hk
  have hpos : 0 < r.size := by
    rw [hr.size_eq]
    omega
  rw [hrecord]
  exact
    { toSound := hr.toSound.taken hpos
      capacity_eq := (Ring.capacity_taken r).trans hr.capacity_eq
      reads_le := hk
      before_le := fun entry hentry => Nat.le_succ_of_le (hr.before_le entry hentry)
      head_eq := hr.place_eq 1
      size_eq := by
        show r.size - 1 = h.writes.length - (h.reads + 1)
        rw [hr.size_eq]
        omega
      slot_eq := by
        intro i hi u entry hlatest hentry
        have hnext : h.reads + 1 + i = h.reads + (i + 1) := by omega
        rw [show ({ h with reads := h.reads + 1 } : History).reads + i = h.reads + (i + 1) from hnext]
          at hlatest ⊢
        exact hr.slotAt_taken hi hlatest hentry }

end Follows

theorem follows_new {requested : Nat} {q : FixedQueue p w} (hq : new p w requested = .ok q) :
    Follows (Capacity.leastPower requested) .empty q.ring := by
  obtain ⟨rfl, hw, _⟩ := new_eq_ok hq
  exact
    { toSound := Ring.sound_vacant (Capacity.isPower_leastPower requested) hw
      capacity_eq := Store.size_vacant p _
      reads_le := Nat.le_refl _
      before_le := fun _ hentry => absurd hentry List.not_mem_nil
      head_eq := (Nat.zero_mod _).symm
      size_eq := rfl
      slot_eq := fun _ _ _ _ _ hentry => nomatch hentry }

/-! ## Runs -/

/-- No operation is stopped, and the ring follows the history. -/
theorem Follows.step {capacity : Nat} {h : History} {q : FixedQueue p w}
    (hq : Follows capacity h q.ring) (op : Queue.Op)
    (hn : (h.record op).writes.length < Word.limit) :
    (∃ a, ((Queue.perform op).run q).result = .ok a) ∧
      Follows capacity (h.record op) ((Queue.perform op).run q).state.ring := by
  have hsize : q.size = h.writes.length - h.reads := hq.size_eq
  cases op with
  | enqueue v =>
    have hlen : (h.record (.enqueue v)).writes.length = h.writes.length + 1 := List.length_append
    have hword : q.size + 1 < Word.limit := by omega
    rw [Queue.run_perform_enqueue (run_enqueue hq.toSound hword v)]
    exact ⟨⟨_, rfl⟩, hq.written v⟩
  | dequeue =>
    by_cases hk : h.reads < h.writes.length
    · have hpos : 0 < q.size := by omega
      rw [Queue.run_perform_dequeue (run_dequeue hq.toSound hpos)]
      exact ⟨⟨_, rfl⟩, hq.taken hk⟩
    · have hzero : q.size = 0 := by omega
      have hrecord : h.record .dequeue = h := if_neg hk
      rw [Queue.run_perform_dequeue (run_dequeue_of_size_eq_zero hzero), hrecord]
      exact ⟨⟨_, rfl⟩, hq⟩

/-- **A run follows its history**, as long as its enqueues can be counted in a word. -/
theorem Follows.run {capacity : Nat} (ops : List Queue.Op) :
    ∀ {h : History} {q : FixedQueue p w}, Follows capacity h q.ring →
      (h.after ops).writes.length < Word.limit →
        (∀ o ∈ Queue.trace ops q, ∃ a, o.result = .ok a) ∧
          Follows capacity (h.after ops) (Queue.after ops q).ring := by
  induction ops with
  | nil =>
    intro h q hq _
    exact ⟨fun _ ho => absurd ho List.not_mem_nil, hq⟩
  | cons op rest ih =>
    intro h q hq hn
    have hop : (h.record op).writes.length < Word.limit :=
      Nat.lt_of_le_of_lt ((h.record op).length_le_after rest) hn
    obtain ⟨hanswer, hnext⟩ := hq.step op hop
    obtain ⟨hanswers, hlast⟩ := ih hnext hn
    refine ⟨?_, hlast⟩
    intro o ho
    rcases List.mem_cons.mp ho with rfl | hmem
    · exact hanswer
    · exact hanswers o hmem

/-- A dequeue answers what the latest enqueue left in its slot. -/
theorem Follows.dequeue {capacity : Nat} {h : History} {q : FixedQueue p w}
    (hq : Follows capacity h q.ring) {u : Nat} {entry : Int32 × Nat}
    (hlatest : Latest capacity h.writes.length h.reads u) (hentry : h.writes[u]? = some entry)
    (hk : h.reads < h.writes.length) :
    (dequeue.run q).result = .ok (found p capacity h.reads entry) := by
  have hpos : 0 < q.size := by
    show 0 < q.ring.size
    rw [hq.size_eq]
    omega
  rw [run_dequeue hq.toSound hpos, hq.front_eq hlatest hentry, History.unpack_left]

/-! ## What the history of a run tells -/

/-- `Told capacity ops q` — what the history of a run tells about the queue after it, and about the
    dequeue that comes next. -/
structure Told (capacity : Nat) (ops : List Queue.Op) (q : FixedQueue p w) : Prop where
  /-- No call was stopped. -/
  answered : ∀ o ∈ Queue.trace ops q, ∃ a, o.result = .ok a
  /-- No more elements were dequeued than were enqueued. -/
  reads_le : (History.of ops).reads ≤ (History.of ops).writes.length
  /-- The size is the number of enqueues less the number of dequeues that found something. -/
  size_eq :
    Queue.size (Queue.after ops q) = (History.of ops).writes.length - (History.of ops).reads
  /-- When all elements were dequeued, there is none to be found. -/
  nothing : (History.of ops).reads = (History.of ops).writes.length →
    (dequeue.run (Queue.after ops q)).result = .ok p.empty
  /-- Otherwise the latest enqueue that reached the slot at the head decides. -/
  something : (History.of ops).reads < (History.of ops).writes.length →
    ∃ u entry, Latest capacity (History.of ops).writes.length (History.of ops).reads u ∧
      (History.of ops).writes[u]? = some entry ∧
        (dequeue.run (Queue.after ops q)).result =
          .ok (found p capacity (History.of ops).reads entry)
  /-- Inline, a dequeue that is made while every element has a slot answers the element whose turn
      it is, whatever was overwritten before. -/
  inTime : p = .inline → Queue.size (Queue.after ops q) ≤ capacity →
    ∀ entry, (History.of ops).writes[(History.of ops).reads]? = some entry →
      (dequeue.run (Queue.after ops q)).result = .ok (p.unpack (p.pack entry.1))
  /-- From a queue without elements on, a new one or one drained, runs that find room are those of
      the list, whatever was overwritten before. -/
  renewed : Queue.size (Queue.after ops q) = 0 →
    ∀ more, Queue.Throughout (Queue.Room capacity) more (Queue.after ops q) →
      (Queue.trace more (Queue.after ops q)).map Queue.seen =
        (Queue.trace more (Reference.empty p)).map Queue.seen

/-- **The history of a run tells everything about a fixed queue**, for every placement, index rule
    and request, as long as the enqueues can be counted in a word. -/
theorem fixed_run_told {requested : Nat} {q : FixedQueue p w} (hq : new p w requested = .ok q)
    (ops : List Queue.Op) (hn : (History.of ops).writes.length < Word.limit) :
    Told (Capacity.leastPower requested) ops q := by
  obtain ⟨hanswered, hf⟩ := Follows.run ops (follows_new hq) hn
  have hpos : 0 < Capacity.leastPower requested :=
    Capacity.pos_of_isPower (Capacity.isPower_leastPower requested)
  have hle : (History.of ops).reads ≤ (History.of ops).writes.length := hf.reads_le
  have hsize : Queue.size (Queue.after ops q) =
      (History.of ops).writes.length - (History.of ops).reads := hf.size_eq
  refine ⟨hanswered, hle, hsize, ?_, ?_, ?_, ?_⟩
  -- nothing is left
  · intro hk
    rw [run_dequeue_of_size_eq_zero (hsize.trans (by omega))]
  · intro hk
    obtain ⟨u, hlatest⟩ := History.exists_latest hpos hk
    have hentry := List.getElem?_eq_getElem hlatest.lt
    exact ⟨u, _, hlatest, hentry, hf.dequeue hlatest hentry hk⟩
  -- with no more elements than slots, the latest enqueue is the one whose turn it is
  · rintro rfl hroom entry hentry
    obtain ⟨hk, _⟩ := List.getElem?_eq_some_iff.mp hentry
    obtain ⟨u, hlatest⟩ := History.exists_latest hpos hk
    obtain rfl := hlatest.eq_self hk (by omega)
    exact hf.dequeue hlatest hentry hk
  -- without elements the window is empty, whatever lies in the slots
  · intro hzero more hroom
    have hzero' : (Queue.after ops q).ring.size = 0 := hzero
    have hfitting : Ring.Fitting (Queue.after ops q).ring :=
      { toSound := hf.toSound
        size_le := by
          rw [hzero']
          exact Nat.zero_le _ }
    have hholds : Holds (Capacity.leastPower requested) (Queue.after ops q) [] :=
      ⟨hf.capacity_eq, (Ring.Holds.nil_iff hfitting).mpr hzero'⟩
    exact (refines _).seen_trace more hholds hroom

/-- The fifth element overwrote the first; it was taken by the first dequeue, which was early, and is
    gone when its own turn comes. -/
theorem fixed_run_told_of_five_in_four :
    let q : FixedQueue .boxed .modulo := ⟨Ring.vacant .boxed 4⟩
    let ops : List Queue.Op :=
      [.enqueue 1, .enqueue 2, .enqueue 3, .enqueue 4, .enqueue 5,
        .dequeue, .dequeue, .dequeue, .dequeue]
    new .boxed .modulo 3 = .ok q ∧ (History.of ops).writes.length < Word.limit ∧
      Told (Capacity.leastPower 3) ops q ∧ Queue.size (Queue.after ops q) = 1 ∧
        (dequeue.run (Queue.after ops q)).result = .ok none := by
  intro q ops
  have hq : new .boxed .modulo 3 = .ok q := rfl
  have hn : (History.of ops).writes.length < Word.limit := by decide
  exact ⟨hq, hn, fixed_run_told hq ops hn, rfl, rfl⟩

end FixedQueue
end Fifo
