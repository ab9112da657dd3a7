/-
  TWIN RINGS: calls on circular queues, side by side.

  Two rings are alike if their stores are, and head, tail and size are the SAME.  Everything that a
  ring decides, it decides by these three and by the size of the store: where to write, whether a
  move is up or down, what to log and what it is stopped by.  So each call is alike on both, by a
  proof that has the shape of its program; no invariant is needed, and the index rule and the policy
  are whatever they are.
-/
import Fifo.Circular.FixedQueue
import Fifo.Circular.GrowableQueue
import Fifo.Circular.Ring.Steps
import Fifo.Proofs.Fixed.Order
import Fifo.Proofs.Growable.Order
import Fifo.Proofs.Twins.Likeness

namespace Fifo

variable {p p' : Placement} {L : p.Likeness p'} {w : IndexRule} {s : ShrinkPolicy} {v v' : Int32}

namespace Ring

/-- `Alike L r r'` — the slots are alike, and everything else is the same. -/
structure Alike (L : p.Likeness p') (r : Ring p) (r' : Ring p') : Prop where
  store : AlikeArrays L.slot r.store r'.store
  head_eq : r.head = r'.head
  tail_eq : r.tail = r'.tail
  size_eq : r.size = r'.size

namespace Alike

theorem capacity_eq {r : Ring p} {r' : Ring p'} (h : r.Alike L r') : r.capacity = r'.capacity :=
  h.store.size_eq

theorem isFull_eq {r : Ring p} {r' : Ring p'} (h : r.Alike L r') : r.isFull = r'.isFull := by
  unfold isFull
  rw [h.size_eq, h.capacity_eq]

theorem vacant (capacity : Nat) : (vacant p capacity).Alike L (vacant p' capacity) :=
  ⟨.vacant L capacity, rfl, rfl, rfl⟩

end Alike

/-! ## Writing and reading -/

/-- An exchange asks for no memory. -/
theorem supplied_exchange (place : Nat) (f : p.Slot → p.Slot) (r : Ring p) :
    ((exchange place f).run r).Supplied := by
  unfold exchange Outcome.Supplied
  dsimp only
  split <;> exact (nomatch ·)

theorem alike_exchange (place : Nat) {f : p.Slot → p.Slot} {f' : p'.Slot → p'.Slot}
    (hf : ∀ {b b'}, L.slot b b' → L.slot (f b) (f' b')) :
    Call.Alike (Alike L) L.slot (exchange place f) (exchange place f') := by
  refine ⟨fun {r r'} h _ _ => ?_⟩
  by_cases hplace : place < r.store.size
  · have hplace' : place < r'.store.size := h.store.size_eq ▸ hplace
    rw [run_exchange hplace, run_exchange hplace', ← modify_eq_set hplace, ← modify_eq_set hplace']
    exact ⟨⟨h.store.modify place hf, h.head_eq, h.tail_eq, h.size_eq⟩, rfl,
      .ok (h.store.get place hplace hplace')⟩
  · have hplace' : ¬ place < r'.store.size := h.store.size_eq ▸ hplace
    have hsize : r.store.size = r'.store.size := h.store.size_eq
    unfold exchange
    dsimp only
    rw [dif_neg hplace, dif_neg hplace', hsize]
    exact ⟨h, rfl, .error _⟩

theorem alike_advanceTail :
    Call.Alike (Alike L) Eq (.change (advanceTail w)) (.change (advanceTail w)) := by
  refine .change fun {r r'} h => ?_
  unfold advanceTail
  rw [h.tail_eq, h.capacity_eq]
  exact .bind_same _ fun tail => .ok ⟨h.store, h.head_eq, rfl, h.size_eq⟩

theorem alike_advanceHead :
    Call.Alike (Alike L) Eq (.change (advanceHead w)) (.change (advanceHead w)) := by
  refine .change fun {r r'} h => ?_
  unfold advanceHead
  rw [h.head_eq, h.capacity_eq]
  exact .bind_same _ fun head => .ok ⟨h.store, rfl, h.tail_eq, h.size_eq⟩

theorem alike_countUp : Call.Alike (Alike L) Eq (.change countUp) (.change countUp) := by
  refine .change fun {r r'} h => ?_
  unfold countUp
  rw [h.size_eq]
  exact .bind_same _ fun size => .ok ⟨h.store, h.head_eq, h.tail_eq, rfl⟩

theorem alike_countDown : Call.Alike (Alike L) Eq (.change countDown) (.change countDown) := by
  refine .change fun {r r'} h => ?_
  unfold countDown
  rw [h.size_eq]
  exact .bind_same _ fun size => .ok ⟨h.store, h.head_eq, h.tail_eq, rfl⟩

theorem alike_write (hv : L.element v v') :
    Call.Alike (Alike L) Eq (write w v) (write w v') := by
  refine .bind .self fun {r r'} h => ?_
  rw [h.tail_eq]
  exact .bind (alike_exchange _ fun _ => L.pack hv) fun _ => .bind alike_advanceTail fun _ =>
    alike_countUp

theorem alike_read : Call.Alike (Alike L) L.out (read w) (read w) := by
  refine .bind .self fun {r r'} h => ?_
  refine .ite (by rw [h.size_eq]) (.pure L.empty) (.bind .self fun {r r'} h => ?_)
  rw [h.head_eq]
  exact .bind (alike_exchange _ L.taken) fun hslot => .bind alike_advanceHead fun _ =>
    .bind alike_countDown fun _ => .pure (L.unpack hslot)

/-! ## Moving into another store -/

/-- The loop of a move takes slots that are alike from places that are the same. -/
theorem alike_carryFrom (count : Nat) :
    ∀ {place : Nat} {moved : Array p.Slot} {moved' : Array p'.Slot} {r : Ring p} {r' : Ring p'},
      AlikeArrays L.slot moved moved' → r.Alike L r' →
        Outcome.Alike (Alike L) (AlikeArrays L.slot) (carryFrom w count place moved r)
          (carryFrom w count place moved' r') := by
  induction count with
  | zero =>
    intro place moved moved' r r' hmoved h
    exact ⟨h, rfl, .ok hmoved⟩
  | succ count ih =>
    intro place moved moved' r r' hmoved h
    have ho : Outcome.Alike (Alike L) L.slot ((exchange place fun _ => p.vacant).run r)
        ((exchange place fun _ => p'.vacant).run r') :=
      (alike_exchange place fun _ => L.vacant).run h (supplied_exchange place _ r)
        (supplied_exchange place _ r')
    unfold carryFrom
    generalize (exchange place fun _ => p.vacant).run r = o at *
    generalize (exchange place fun _ => p'.vacant).run r' = o' at *
    obtain ⟨t, log, result⟩ := o
    obtain ⟨t', log', result'⟩ := o'
    obtain ⟨ht, _, hresult⟩ := ho
    cases hresult with
    | error fault => exact ⟨ht, rfl, .error fault⟩
    | ok hslot =>
      -- the rule may fail to step, but it is asked the same by both
      have hcapacity : t.capacity = t'.capacity := ht.capacity_eq
      dsimp only
      rw [hcapacity]
      cases w.next place t'.capacity with
      | error fault => exact ⟨ht, rfl, .error fault⟩
      | ok place => exact ih (hmoved.push hslot) ht

theorem alike_carry (count place : Nat) :
    Call.Alike (Alike L) (AlikeArrays L.slot) (carry w count place)
      (carry w count place) :=
  ⟨fun h _ _ => alike_carryFrom count .empty h⟩

theorem alike_moveInto (capacity : Nat) :
    Call.Alike (Alike L) Eq (moveInto w capacity) (moveInto w capacity) := by
  refine .bind .self fun {r r'} h => ?_
  dsimp only
  refine .ite Iff.rfl (.stop_bind ..) ?_
  refine .ite (by rw [h.size_eq]) (.stop_bind ..) ?_
  rw [h.size_eq, h.head_eq]
  refine .bind (alike_carry ..) fun hmoved => .update fun h => ?_
  rw [hmoved.size_eq, h.size_eq]
  exact ⟨hmoved.append (.vacant L _), rfl, rfl, rfl⟩

theorem alike_relocate (capacity : Nat) :
    Call.Alike (Alike L) Eq (relocate w capacity) (relocate w capacity) :=
  .bind (.allocate capacity) fun _ => alike_moveInto capacity

end Ring

/-! ## Fixed queues -/

namespace FixedQueue

/-- `Alike L q q'` — the rings are alike. -/
def Alike (L : p.Likeness p') (q : FixedQueue p w) (q' : FixedQueue p' w) : Prop :=
  q.ring.Alike L q'.ring

/-- New queues for one request are alike. -/
theorem alike_new {requested : Nat} {q : FixedQueue p w} {q' : FixedQueue p' w}
    (h : new p w requested = .ok q) (h' : new p' w requested = .ok q') : q.Alike L q' := by
  obtain ⟨rfl, _⟩ := new_eq_ok h
  obtain ⟨rfl, _⟩ := new_eq_ok h'
  exact .vacant _

theorem alike_onRing {α β : Type} {A : α → β → Prop} {c : Call (Ring p) α} {c' : Call (Ring p') β}
    (hc : Call.Alike (Ring.Alike L) A c c') :
    Call.Alike (Alike (w := w) L) A (onRing c) (onRing c') :=
  ⟨fun h hsupplied hsupplied' => (hc.run h hsupplied hsupplied').mapState id⟩

theorem alike_enqueue (hv : L.element v v') :
    Call.Alike (Alike (w := w) L) Eq (enqueue v) (enqueue v') :=
  alike_onRing (Ring.alike_write hv)

theorem alike_dequeue : Call.Alike (Alike (w := w) L) L.out dequeue dequeue :=
  alike_onRing Ring.alike_read

end FixedQueue

/-! ## Growable queues -/

namespace GrowableQueue

/-- `Alike L q q'` — the rings are alike, and moved as often. -/
structure Alike (L : p.Likeness p') (q : GrowableQueue p w s) (q' : GrowableQueue p' w s) :
    Prop where
  ring : q.ring.Alike L q'.ring
  grows_eq : q.grows = q'.grows
  shrinks_eq : q.shrinks = q'.shrinks

theorem Alike.size_eq {q : GrowableQueue p w s} {q' : GrowableQueue p' w s} (h : q.Alike L q') :
    q.size = q'.size := h.ring.size_eq

theorem Alike.capacity_eq {q : GrowableQueue p w s} {q' : GrowableQueue p' w s} (h : q.Alike L q') :
    q.capacity = q'.capacity := h.ring.capacity_eq

/-- New queues for one request are alike. -/
theorem alike_new {requested : Nat} {q : GrowableQueue p w s} {q' : GrowableQueue p' w s}
    (h : new p w s requested = .ok q) (h' : new p' w s requested = .ok q') : q.Alike L q' := by
  obtain ⟨rfl, _⟩ := new_eq_ok h
  obtain ⟨rfl, _⟩ := new_eq_ok h'
  exact ⟨.vacant _, rfl, rfl⟩

theorem alike_onRing {α β : Type} {A : α → β → Prop} {c : Call (Ring p) α} {c' : Call (Ring p') β}
    (hc : Call.Alike (Ring.Alike L) A c c') :
    Call.Alike (Alike (w := w) (s := s) L) A (onRing c) (onRing c') := by
  refine ⟨fun {q q'} h hsupplied hsupplied' => ?_⟩
  rw [run_onRing, run_onRing]
  exact (hc.run h.ring hsupplied hsupplied').mapState fun hring => ⟨hring, h.grows_eq, h.shrinks_eq⟩

theorem Alike.doubled_eq {q : GrowableQueue p w s} {q' : GrowableQueue p' w s} (h : q.Alike L q') :
    q.doubled = q'.doubled := by
  unfold doubled
  rw [h.capacity_eq]

theorem alike_countGrow :
    Call.Alike (Alike (w := w) (s := s) L) Eq (.change countGrow) (.change countGrow) := by
  refine .change fun {q q'} h => ?_
  unfold countGrow
  rw [h.grows_eq]
  exact .bind_same _ fun grows => .ok ⟨h.ring, rfl, h.shrinks_eq⟩

theorem alike_countShrink :
    Call.Alike (Alike (w := w) (s := s) L) Eq (.change countShrink) (.change countShrink) := by
  refine .change fun {q q'} h => ?_
  unfold countShrink
  rw [h.shrinks_eq]
  exact .bind_same _ fun shrinks => .ok ⟨h.ring, h.grows_eq, rfl⟩

theorem alike_grow : Call.Alike (Alike (w := w) (s := s) L) Eq grow grow := by
  refine .bind .self fun {q q'} h => ?_
  rw [h.doubled_eq]
  cases q'.doubled with
  | error e => exact .stop _
  | ok capacity =>
    refine .bind (alike_onRing (Ring.alike_relocate capacity)) fun _ => ?_
    refine .bind alike_countGrow fun _ => ?_
    refine .bind .self fun {q q'} h => ?_
    rw [h.size_eq]
    exact .record _

theorem alike_enqueue (hv : L.element v v') :
    Call.Alike (Alike (w := w) (s := s) L) Eq (enqueue v) (enqueue v') := by
  refine .bind .self fun {q q'} h => ?_
  exact .ite (by rw [h.ring.isFull_eq]) (.bind alike_grow fun _ => alike_onRing (Ring.alike_write hv))
    (alike_onRing (Ring.alike_write hv))

/-- Where memory is granted to both, an element is refused by both or by neither, and for one reason:
    their size can not be doubled. -/
theorem Alike.refusal_eq {q : GrowableQueue p w s} {q' : GrowableQueue p' w s} (h : q.Alike L q')
    {a a' : Allocator} (ha : q.refusal a ≠ some .allocationFailed)
    (ha' : q'.refusal a' ≠ some .allocationFailed) : q.refusal a = q'.refusal a' := by
  unfold refusal at ha ha' ⊢
  rw [h.ring.isFull_eq, h.doubled_eq] at ha
  rw [h.ring.isFull_eq, h.doubled_eq]
  cases hfull : q'.ring.isFull with
  | false => rfl
  | true =>
    rw [hfull, if_pos rfl] at ha ha'
    cases hdoubled : q'.doubled with
    | error e => rfl
    | ok capacity =>
      simp only [hdoubled] at ha ha' ⊢
      have hgranted : Store.reserve p a capacity = .ok () := by
        refine Store.reserve_eq_ok fun hrefused => ?_
        rw [hrefused] at ha
        exact ha rfl
      have hgranted' : Store.reserve p' a' capacity = .ok () := by
        refine Store.reserve_eq_ok fun hrefused => ?_
        rw [hrefused] at ha'
        exact ha' rfl
      simp only [hgranted, hgranted']

theorem alike_shrink (capacity : Nat) :
    Call.Alike (Alike (w := w) (s := s) L) Eq (shrink capacity) (shrink capacity) := by
  refine .bind (alike_onRing (Ring.alike_relocate capacity)) fun _ => ?_
  refine .bind alike_countShrink fun _ => ?_
  refine .bind .self fun {q q'} h => ?_
  rw [h.size_eq]
  exact .record _

theorem alike_consult :
    Call.Alike (Alike (w := w) (s := s) L) Eq consult consult := by
  refine .bind .self fun {q q'} h => ?_
  rw [h.size_eq, h.capacity_eq]
  cases s.shrinkTo q'.size q'.capacity with
  | none => exact .pure rfl
  | some capacity => exact alike_shrink capacity

theorem alike_dequeue :
    Call.Alike (Alike (w := w) (s := s) L) L.out dequeue dequeue := by
  refine .bind .self fun {q q'} h => ?_
  refine .ite (by rw [h.size_eq]) (alike_onRing Ring.alike_read) ?_
  exact .bind (alike_onRing Ring.alike_read) fun hout => .bind alike_consult fun _ => .pure hout

end GrowableQueue
end Fifo
