/-
  REFINEMENT: queues that a list of elements tells everything about.

  1. **Condition** — `Throughout P ops q`: what must be granted to the operations of a run (memory,
     room), asked of each of them at the queue that it finds.

  2. **One step** — `Refines Holds Allowed`: a queue of which `Holds q items` is true answers an
     allowed operation as the reference list `items` does, and `Holds` is true again afterwards.
     Each kind of queue has a `Holds` of its own, which is its invariant and its view in one.

  3. **A whole run** — `Refines.seen_trace`: by ONE induction over the operations, a run is seen to
     be that of the list, call by call.  No call of the list is ever stopped, so none of the run is.
-/
import Fifo.Proofs.Runs
import Fifo.Reference

namespace Fifo.Queue

variable {σ : Type} {p : Placement} [Queue σ p]

/-! ## Conditions on the operations of a run -/

/-- `Throughout P ops q` — every operation of the run satisfies `P` together with the queue it is
    performed on. -/
def Throughout (P : σ → Op → Prop) : List Op → σ → Prop
  | [], _ => True
  | op :: rest, q => P q op ∧ Throughout P rest ((perform op).run q).state

/-- A run can be looked through, if its operations can be looked at. -/
instance decidableThroughout (P : σ → Op → Prop) [∀ q op, Decidable (P q op)] :
    ∀ (ops : List Op) (q : σ), Decidable (Throughout P ops q)
  | [], _ => .isTrue trivial
  | op :: rest, q =>
    @instDecidableAnd _ _ _ (decidableThroughout P rest ((perform op).run q).state)

/-- Nothing need be granted where nothing is asked for. -/
theorem throughout_true (ops : List Op) (q : σ) : Throughout (fun _ _ => True) ops q := by
  induction ops generalizing q with
  | nil => trivial
  | cons op rest ih => exact ⟨trivial, ih _⟩

/-- What lasts for the calls of a run is true of the queue that each of its operations finds. -/
theorem Throughout.and_of_budgeted {P : σ → Op → Prop} {Inv : Nat → σ → Prop} {R : σ → Prop}
    (h : Call.Budgeted perform Inv) (hR : ∀ {n q}, Inv (n + 1) q → R q) {ops : List Op} {q : σ}
    (hops : Throughout P ops q) (hq : Inv ops.length q) :
    Throughout (fun q op => P q op ∧ R q) ops q := by
  induction ops generalizing q with
  | nil => trivial
  | cons op rest ih =>
    obtain ⟨hop, hrest⟩ := hops
    exact ⟨⟨hop, hR hq⟩, ih hrest (h op hq)⟩

/-- `Room capacity q op` — an enqueue finds fewer elements than the capacity. -/
def Room (capacity : Nat) (q : σ) (op : Op) : Prop := op ≠ .dequeue → size q < capacity

instance (capacity : Nat) (q : σ) (op : Op) : Decidable (Room capacity q op) :=
  inferInstanceAs (Decidable (op ≠ .dequeue → size q < capacity))

/-! ## Performing an operation -/

/-- An enqueue is answered with nothing. -/
theorem run_perform_enqueue_eq (q : σ) (v : Int32) :
    (perform (.enqueue v)).run q = ((enqueue v).run q).mapAnswer fun () => none :=
  Call.andThen_pure _ _

/-- A dequeue is answered with what left the queue. -/
theorem run_perform_dequeue_eq (q : σ) :
    (perform .dequeue).run q = ((dequeue : Call σ p.Out).run q).mapAnswer some :=
  Call.andThen_pure _ _

theorem run_perform_enqueue {q q' : σ} {v : Int32} {log : List Record}
    (h : (enqueue v).run q = ⟨q', log, .ok ()⟩) :
    (perform (.enqueue v)).run q = ⟨q', log, .ok none⟩ := by
  rw [run_perform_enqueue_eq, h]
  rfl

theorem run_perform_enqueue_of_error {q q' : σ} {v : Int32} {log : List Record} {fault : Fault}
    (h : (enqueue v).run q = ⟨q', log, .error fault⟩) :
    (perform (.enqueue v)).run q = ⟨q', log, .error fault⟩ := by
  rw [run_perform_enqueue_eq, h]
  rfl

theorem run_perform_dequeue {q q' : σ} {out : p.Out} {log : List Record}
    (h : (dequeue : Call σ p.Out).run q = ⟨q', log, .ok out⟩) :
    (perform .dequeue).run q = ⟨q', log, .ok (some out)⟩ := by
  rw [run_perform_dequeue_eq, h]
  rfl

theorem run_perform_dequeue_of_error {q q' : σ} {log : List Record} {fault : Fault}
    (h : (dequeue : Call σ p.Out).run q = ⟨q', log, .error fault⟩) :
    (perform .dequeue).run q = ⟨q', log, .error fault⟩ := by
  rw [run_perform_dequeue_eq, h]
  rfl

/-- The rest of a run begins where its first operation ended. -/
theorem after_of_run {q q' : σ} {op : Op} {rest : List Op} {log : List Record}
    {result : Except Fault (Option p.Out)} (h : (perform op).run q = ⟨q', log, result⟩) :
    after (op :: rest) q = after rest q' := by
  show Call.final perform rest ((perform op).run q).state = _
  rw [h]
  rfl

/-! ## The reference list -/

theorem run_reference_enqueue (items : List Int32) (v : Int32) :
    (perform (.enqueue v)).run (Reference.mk items : Reference p) = ⟨⟨items ++ [v]⟩, [], .ok none⟩ :=
  rfl

theorem run_reference_dequeue_nil :
    (perform .dequeue).run (Reference.mk [] : Reference p) = ⟨⟨[]⟩, [], .ok (some p.empty)⟩ := rfl

theorem run_reference_dequeue_cons (v : Int32) (items : List Int32) :
    (perform .dequeue).run (Reference.mk (v :: items) : Reference p) =
      ⟨⟨items⟩, [], .ok (some (p.unpack (p.pack v)))⟩ := rfl

/-- No call of the list is stopped. -/
theorem answered_reference (ops : List Op) (items : List Int32) :
    ∀ o ∈ trace ops (Reference.mk items : Reference p), ∃ a, o.result = .ok a := by
  induction ops generalizing items with
  | nil =>
    intro o ho
    exact absurd ho List.not_mem_nil
  | cons op rest ih =>
    intro o ho
    rcases List.mem_cons.mp ho with rfl | hrest
    · cases op with
      | enqueue v => exact ⟨none, rfl⟩
      | dequeue =>
        cases items with
        | nil => exact ⟨_, congrArg Outcome.result run_reference_dequeue_nil⟩
        | cons v items => exact ⟨_, congrArg Outcome.result (run_reference_dequeue_cons v items)⟩
    · exact ih _ o hrest

/-- So none is of a run that is seen to be that of a list. -/
theorem answered_of_seen_eq {ops : List Op} {q : σ} {items : List Int32}
    (h : (trace ops q).map seen = (trace ops (Reference.mk items : Reference p)).map seen) :
    ∀ o ∈ trace ops q, ∃ a, o.result = .ok a := by
  intro o ho
  have hmem : seen o ∈ (trace ops q).map seen := List.mem_map_of_mem ho
  rw [h] at hmem
  obtain ⟨o', ho', hseen⟩ := List.mem_map.mp hmem
  obtain ⟨a, ha⟩ := answered_reference ops items o' ho'
  exact ⟨a, (congrArg Prod.fst hseen).symm.trans ha⟩

/-! ## From a step to a run -/

/-- `Refines Holds Allowed` — a queue that holds a list of elements does in an allowed operation what
    the list does, and holds what the list has become. -/
structure Refines (Holds : σ → List Int32 → Prop) (Allowed : σ → Op → Prop) : Prop where
  /-- The number of elements is the length of the list. -/
  size_eq : ∀ {q items}, Holds q items → size q = items.length
  /-- The answers agree, and the elements are held again. -/
  step : ∀ {q items} (op : Op), Holds q items → Allowed q op →
    ((perform op).run q).result = ((perform op).run (Reference.mk items : Reference p)).result ∧
      Holds ((perform op).run q).state
        ((perform op).run (Reference.mk items : Reference p)).state.items

namespace Refines

variable {Holds : σ → List Int32 → Prop} {Allowed : σ → Op → Prop}

/-- It is enough to know the outcomes of the two calls. -/
theorem of_outcomes (size_eq : ∀ {q items}, Holds q items → size q = items.length)
    (enqueue_ok : ∀ {q items} (v : Int32), Holds q items → Allowed q (.enqueue v) →
      ∃ q' log, (enqueue v).run q = ⟨q', log, .ok ()⟩ ∧ Holds q' (items ++ [v]))
    (dequeue_nil : ∀ {q}, Holds q [] →
      ∃ q' log, (dequeue : Call σ p.Out).run q = ⟨q', log, .ok p.empty⟩ ∧ Holds q' [])
    (dequeue_cons : ∀ {q v items}, Holds q (v :: items) → Allowed q .dequeue →
      ∃ q' log, (dequeue : Call σ p.Out).run q = ⟨q', log, .ok (p.unpack (p.pack v))⟩ ∧
        Holds q' items) :
    Refines Holds Allowed := by
  refine ⟨size_eq, ?_⟩
  intro q items op hq ha
  cases op with
  | enqueue v =>
    obtain ⟨q', log, hrun, hq'⟩ := enqueue_ok v hq ha
    rw [run_perform_enqueue hrun, run_reference_enqueue]
    exact ⟨rfl, hq'⟩
  | dequeue =>
    cases items with
    | nil =>
      obtain ⟨q', log, hrun, hq'⟩ := dequeue_nil hq
      rw [run_perform_dequeue hrun, run_reference_dequeue_nil]
      exact ⟨rfl, hq'⟩
    | cons v items =>
      obtain ⟨q', log, hrun, hq'⟩ := dequeue_cons hq ha
      rw [run_perform_dequeue hrun, run_reference_dequeue_cons]
      exact ⟨rfl, hq'⟩

/-- **A run is seen to be that of the list.** -/
theorem seen_trace (h : Refines Holds Allowed) (ops : List Op) :
    ∀ {q items}, Holds q items → Throughout Allowed ops q →
      (trace ops q).map seen = (trace ops (Reference.mk items : Reference p)).map seen := by
  induction ops with
  | nil =>
    intro q items _ _
    rfl
  | cons op rest ih =>
    intro q items hq ha
    obtain ⟨hop, hrest⟩ := ha
    obtain ⟨hresult, hq'⟩ := h.step op hq hop
    have hsize : size ((perform op).run q).state =
        size ((perform op).run (Reference.mk items : Reference p)).state := h.size_eq hq'
    -- what is seen is the answer and the size, and the list tells both
    have hseen : seen ((perform op).run q) =
        seen ((perform op).run (Reference.mk items : Reference p)) := by
      simp only [seen, isEmpty, hresult, hsize]
    show seen _ :: (trace rest _).map seen = seen _ :: (trace rest _).map seen
    rw [hseen, ih hq' hrest]

/-- After a run the queue holds what the list has become. -/
theorem holds_after (h : Refines Holds Allowed) (ops : List Op) :
    ∀ {q items}, Holds q items → Throughout Allowed ops q →
      Holds (after ops q) (after ops (Reference.mk items : Reference p)).items := by
  induction ops with
  | nil =>
    intro q items hq _
    exact hq
  | cons op rest ih =>
    intro q items hq ha
    exact ih (h.step op hq ha.1).2 ha.2

/-- Allowing less keeps a refinement. -/
theorem mono (h : Refines Holds Allowed) {Allowed' : σ → Op → Prop}
    (hallowed : ∀ {q items op}, Holds q items → Allowed' q op → Allowed q op) :
    Refines Holds Allowed' := by
  refine ⟨h.size_eq, ?_⟩
  intro q items op hq ha
  exact h.step op hq (hallowed hq ha)

/-- A run that finds room in one queue finds it in all that hold the same list: the list tells the
    sizes. -/
theorem throughout_room_iff {capacity : Nat} (h : Refines Holds (Room capacity)) (ops : List Op) :
    ∀ {q items}, Holds q items →
      (Throughout (Room capacity) ops q ↔
        Throughout (Room capacity) ops (Reference.mk items : Reference p)) := by
  induction ops with
  | nil =>
    intro q items _
    exact Iff.rfl
  | cons op rest ih =>
    intro q items hq
    have hroom : Room capacity q op ↔ Room capacity (Reference.mk items : Reference p) op := by
      unfold Room
      rw [h.size_eq hq]
      rfl
    constructor
    · rintro ⟨hop, hrest⟩
      exact ⟨hroom.mp hop, (ih (h.step op hq hop).2).mp hrest⟩
    · rintro ⟨hop, hrest⟩
      have hop' := hroom.mpr hop
      exact ⟨hop', (ih (h.step op hq hop').2).mpr hrest⟩

end Refines

/-! ## Queues within queues -/

/-- `Embeds f` — under `f`, a queue does what it does on its own. -/
structure Embeds {τ : Type} [Queue τ p] (f : τ → σ) : Prop where
  size_eq : ∀ q, size (f q) = size q
  run_perform : ∀ op q, (perform op).run (f q) = ((perform op).run q).mapState f

namespace Embeds

variable {τ : Type} [Queue τ p] {f : τ → σ}

/-- It is enough to look at the two calls. -/
theorem of_calls (size_eq : ∀ q, size (f q) = size q)
    (run_enqueue : ∀ v q, (enqueue v).run (f q) = ((enqueue v).run q).mapState f)
    (run_dequeue : ∀ q, (dequeue : Call σ p.Out).run (f q) =
      ((dequeue : Call τ p.Out).run q).mapState f) : Embeds f := by
  refine ⟨size_eq, ?_⟩
  intro op q
  cases op with
  | enqueue v =>
    rw [run_perform_enqueue_eq, run_perform_enqueue_eq, run_enqueue]
    rfl
  | dequeue =>
    rw [run_perform_dequeue_eq, run_perform_dequeue_eq, run_dequeue]
    rfl

theorem seen_trace (h : Embeds f) (ops : List Op) (q : τ) :
    (trace ops (f q)).map seen = (trace ops q).map seen := by
  induction ops generalizing q with
  | nil => rfl
  | cons op rest ih =>
    show seen ((perform op).run (f q)) :: (trace rest ((perform op).run (f q)).state).map seen =
      seen ((perform op).run q) :: (trace rest ((perform op).run q).state).map seen
    have hrest := ih ((perform op).run q).state
    rw [h.run_perform, ← hrest]
    obtain ⟨q', log, result⟩ := (perform op).run q
    simp only [seen, isEmpty, Outcome.mapState_mk, h.size_eq]

/-- A condition can be looked through within or without. -/
theorem throughout_iff (h : Embeds f) {P : σ → Op → Prop} {P' : τ → Op → Prop}
    (hP : ∀ q op, P (f q) op ↔ P' q op) (ops : List Op) (q : τ) :
    Throughout P ops (f q) ↔ Throughout P' ops q := by
  induction ops generalizing q with
  | nil => exact Iff.rfl
  | cons op rest ih =>
    have hrest := ih ((perform op).run q).state
    have hstate : ((perform op).run (f q)).state = f ((perform op).run q).state := by
      rw [h.run_perform]
      rfl
    show P (f q) op ∧ Throughout P rest ((perform op).run (f q)).state ↔
      P' q op ∧ Throughout P' rest ((perform op).run q).state
    rw [hP, hstate, hrest]

end Embeds
end Fifo.Queue
