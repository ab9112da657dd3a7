/-
  CALLS: computations on a value that is changed in place, logged about, and may be stopped.

  `Call σ α` is a call on a value of type `σ` that answers with an `α`.  Its `Outcome` holds THREE
  things: the value as the call leaves it, the records it logged, and either the answer or the
  fault that stopped it.  A fault does not undo anything: the state and the log of an outcome are
  those of the moment at which the call was stopped.  Bulk work such as "enqueue a thousand
  values" is the same calls in sequence, so a fault in the middle leaves exactly what the calls
  before it did.
-/
import Fifo.Fault
import Fifo.Record

namespace Fifo

/-- What a call leaves behind. -/
structure Outcome (σ α : Type) where
  /-- The value the call was made on, as the call left it. -/
  state : σ
  /-- What the call logged, in order. -/
  log : List Record
  /-- The answer, or the fault that stopped the call. -/
  result : Except Fault α

/-- A call on a value of type `σ` that answers with an `α`. -/
structure Call (σ α : Type) where
  /-- Makes the call on a value. -/
  run : σ → Outcome σ α

namespace Outcome

variable {σ τ α β γ : Type}

/-- The same outcome, of a call on something that contains the value. -/
@[inline] def mapState (f : σ → τ) : Outcome σ α → Outcome τ α
  | ⟨state, log, result⟩ => ⟨f state, log, result⟩

/-- The same outcome, with another answer made of the answer. -/
@[inline] def mapAnswer (f : α → β) : Outcome σ α → Outcome σ β
  | ⟨state, log, result⟩ => ⟨state, log, result.map f⟩

/-- The outcome of a call followed by another, which starts where the first one ended and is not
    reached when a fault stopped the first. -/
@[inline] def andThen : Outcome σ α → (α → Call σ β) → Outcome σ β
  | ⟨state, log, .ok a⟩, next =>
    let o := (next a).run state
    ⟨o.state, log ++ o.log, o.result⟩
  | ⟨state, log, .error fault⟩, _ => ⟨state, log, .error fault⟩

@[simp] theorem mapState_mk (f : σ → τ) (s : σ) (log : List Record) (r : Except Fault α) :
    mapState f ⟨s, log, r⟩ = ⟨f s, log, r⟩ := rfl

@[simp] theorem mapAnswer_ok (f : α → β) (s : σ) (log : List Record) (a : α) :
    mapAnswer f ⟨s, log, .ok a⟩ = ⟨s, log, .ok (f a)⟩ := rfl

@[simp] theorem mapAnswer_error (f : α → β) (s : σ) (log : List Record) (fault : Fault) :
    mapAnswer f ⟨s, log, .error fault⟩ = ⟨s, log, .error fault⟩ := rfl

@[simp] theorem mapState_mapAnswer (g : σ → τ) (f : α → β) (o : Outcome σ α) :
    (o.mapAnswer f).mapState g = (o.mapState g).mapAnswer f := rfl

@[simp] theorem mapAnswer_andThen (f : α → β) (o : Outcome σ α) (next : β → Call σ γ) :
    (o.mapAnswer f).andThen next = o.andThen fun a => next (f a) := by
  rcases o with ⟨s, log, _ | a⟩ <;> rfl

@[simp] theorem state_mapAnswer (f : α → β) (o : Outcome σ α) : (o.mapAnswer f).state = o.state :=
  rfl

@[simp] theorem log_mapAnswer (f : α → β) (o : Outcome σ α) : (o.mapAnswer f).log = o.log := rfl

@[simp] theorem result_mapAnswer (f : α → β) (o : Outcome σ α) :
    (o.mapAnswer f).result = o.result.map f := rfl

@[simp] theorem andThen_ok (s : σ) (log : List Record) (a : α) (next : α → Call σ β) :
    andThen ⟨s, log, .ok a⟩ next =
      ⟨((next a).run s).state, log ++ ((next a).run s).log, ((next a).run s).result⟩ := rfl

@[simp] theorem andThen_error (s : σ) (log : List Record) (fault : Fault) (next : α → Call σ β) :
    andThen ⟨s, log, .error fault⟩ next = ⟨s, log, .error fault⟩ := rfl

end Outcome

namespace Call

variable {σ τ α β γ ι : Type}

@[always_inline]
instance : Monad (Call σ) where
  pure a := ⟨fun s => ⟨s, [], .ok a⟩⟩
  bind c next := ⟨fun s => (c.run s).andThen next⟩

/-! ## The elementary calls -/

/-- The value the call is made on. -/
@[inline] def self : Call σ σ := ⟨fun s => ⟨s, [], .ok s⟩⟩

/-- Stops with a fault. -/
@[inline] def stop (fault : Fault) : Call σ α := ⟨fun s => ⟨s, [], .error fault⟩⟩

/-- Logs a record. -/
@[inline] def record (r : Record) : Call σ Unit := ⟨fun s => ⟨s, [r], .ok ()⟩⟩

/-- The answer of a computation that may be stopped. -/
@[inline] def lift (x : Except Fault α) : Call σ α := ⟨fun s => ⟨s, [], x⟩⟩

/-- Replaces the value by a changed one. -/
@[inline] def update (f : σ → σ) : Call σ Unit := ⟨fun s => ⟨f s, [], .ok ()⟩⟩

/-- Replaces the value by a changed one, unless a fault stops the change: then it stays. -/
@[inline] def change (f : σ → Except Fault σ) : Call σ Unit := ⟨fun s =>
  match f s with
  | .ok s' => ⟨s', [], .ok ()⟩
  | .error fault => ⟨s, [], .error fault⟩⟩

/-! ## What the calls do, one equation each -/

@[simp] theorem run_pure (a : α) (s : σ) : (pure a : Call σ α).run s = ⟨s, [], .ok a⟩ := rfl

@[simp] theorem run_bind (c : Call σ α) (next : α → Call σ β) (s : σ) :
    (c >>= next).run s = (c.run s).andThen next := rfl

@[simp] theorem run_self (s : σ) : (self : Call σ σ).run s = ⟨s, [], .ok s⟩ := rfl

@[simp] theorem run_stop (fault : Fault) (s : σ) :
    (stop fault : Call σ α).run s = ⟨s, [], .error fault⟩ := rfl

@[simp] theorem run_record (r : Record) (s : σ) : (record r).run s = ⟨s, [r], .ok ()⟩ := rfl

@[simp] theorem run_lift (x : Except Fault α) (s : σ) : (lift x).run s = ⟨s, [], x⟩ := rfl

@[simp] theorem run_update (f : σ → σ) (s : σ) : (update f).run s = ⟨f s, [], .ok ()⟩ := rfl

theorem run_change_of_ok {f : σ → Except Fault σ} {s t : σ} (h : f s = .ok t) :
    (change f).run s = ⟨t, [], .ok ()⟩ := by
  simp [change, h]

theorem run_change_of_error {f : σ → Except Fault σ} {s : σ} {fault : Fault}
    (h : f s = .error fault) : (change f).run s = ⟨s, [], .error fault⟩ := by
  simp [change, h]

/-- Calls with the same outcomes are the same. -/
theorem eq_of_run_eq {c d : Call σ α} (h : ∀ s, c.run s = d.run s) : c = d :=
  congrArg Call.mk (funext h)

/-- Sequencing calls is lawful: how a sequence is bracketed does not show. -/
instance : LawfulMonad (Call σ) := by
  refine LawfulMonad.mk' (Call σ) ?_ ?_ ?_
  · intro α c
    refine eq_of_run_eq fun s => ?_
    show (c.run s).andThen (fun a => pure a) = c.run s
    rcases c.run s with ⟨t, log, _ | a⟩ <;> simp
  · intro α β a next
    exact eq_of_run_eq fun s => by simp
  · intro α β γ c next last
    refine eq_of_run_eq fun s => ?_
    show ((c.run s).andThen next).andThen last = (c.run s).andThen fun a => next a >>= last
    rcases c.run s with ⟨t, log, _ | a⟩
    · rfl
    · simp only [Outcome.andThen_ok, run_bind]
      rcases (next a).run t with ⟨u, log', _ | b⟩ <;> simp

/-- Nothing but the answer is changed by a call that only makes another answer of it. -/
theorem andThen_pure (o : Outcome σ α) (f : α → β) :
    o.andThen (fun a => pure (f a)) = o.mapAnswer f := by
  rcases o with ⟨s, log, _ | a⟩ <;> simp

@[simp] theorem run_map (f : α → β) (c : Call σ α) (s : σ) :
    (f <$> c).run s = (c.run s).mapAnswer f := by
  rw [map_eq_pure_bind]
  exact andThen_pure (c.run s) f

/-! ## Runs -/

/-- The outcomes of a list of calls made one after the other on the same value, whether or not a
    fault stopped the calls before. -/
def trace (perform : ι → Call σ α) : List ι → σ → List (Outcome σ α)
  | [], _ => []
  | i :: rest, s =>
    let o := (perform i).run s
    o :: trace perform rest o.state

/-- The value after a list of calls. -/
def final (perform : ι → Call σ α) : List ι → σ → σ
  | [], s => s
  | i :: rest, s => final perform rest ((perform i).run s).state

/-- Everything that a list of calls logged, in order. -/
def logged (perform : ι → Call σ α) (is : List ι) (s : σ) : List Record :=
  (trace perform is s).flatMap Outcome.log

theorem trace_append (perform : ι → Call σ α) (is js : List ι) (s : σ) :
    trace perform (is ++ js) s = trace perform is s ++ trace perform js (final perform is s) := by
  induction is generalizing s with
  | nil => rfl
  | cons i rest ih => exact congrArg _ (ih _)

theorem final_cons (perform : ι → Call σ α) (i : ι) (is : List ι) (s : σ) :
    final perform (i :: is) s = final perform is ((perform i).run s).state := rfl

theorem final_append (perform : ι → Call σ α) (is js : List ι) (s : σ) :
    final perform (is ++ js) s = final perform js (final perform is s) := by
  induction is generalizing s with
  | nil => rfl
  | cons i rest ih => exact ih _

theorem logged_cons (perform : ι → Call σ α) (i : ι) (is : List ι) (s : σ) :
    logged perform (i :: is) s =
      ((perform i).run s).log ++ logged perform is ((perform i).run s).state :=
  List.flatMap_cons

/-! ## Bulk work

  The loops carry what was logged and answered along, so that their depth does not grow with the
  amount of work.  A fault in the middle stops the rest; what was done and logged remains. -/

/-- The loop of `each`. -/
def eachFrom (perform : ι → Call σ Unit) (log : Array Record) : List ι → σ → Outcome σ Unit
  | [], s => ⟨s, log.toList, .ok ()⟩
  | i :: rest, s =>
    match (perform i).run s with
    | ⟨s, more, .error fault⟩ => ⟨s, (log ++ more).toList, .error fault⟩
    | ⟨s, more, .ok ()⟩ => eachFrom perform (log ++ more) rest s

/-- One call for each item, as ONE call. -/
def each (perform : ι → Call σ Unit) (items : List ι) : Call σ Unit :=
  ⟨eachFrom perform #[] items⟩

/-- The loop of `iterate`. -/
def iterateFrom (perform : ι → Call σ Unit) (next : ι → ι) (log : Array Record) :
    (times : Nat) → ι → σ → Outcome σ Unit
  | 0, _, s => ⟨s, log.toList, .ok ()⟩
  | times + 1, i, s =>
    match (perform i).run s with
    | ⟨s, more, .error fault⟩ => ⟨s, (log ++ more).toList, .error fault⟩
    | ⟨s, more, .ok ()⟩ => iterateFrom perform next (log ++ more) times (next i) s

/-- A call for an item, for the item after that, and so on, as ONE call.  No item is made before
    its turn comes, so that however many were wanted, a fault ends the work at once. -/
def iterate (perform : ι → Call σ Unit) (next : ι → ι) (times : Nat) (first : ι) : Call σ Unit :=
  ⟨iterateFrom perform next #[] times first⟩

/-- The loop of `collect`. -/
def collectFrom (c : Call σ (Option α)) (log : Array Record) (answers : Array α) :
    (times : Nat) → σ → Outcome σ (List α)
  | 0, s => ⟨s, log.toList, .ok answers.toList⟩
  | times + 1, s =>
    match c.run s with
    | ⟨s, more, .error fault⟩ => ⟨s, (log ++ more).toList, .error fault⟩
    | ⟨s, more, .ok none⟩ => ⟨s, (log ++ more).toList, .ok answers.toList⟩
    | ⟨s, more, .ok (some a)⟩ => collectFrom c (log ++ more) (answers.push a) times s

/-- The same call up to so many times, as ONE call: it ends when there is no answer, and gives the
    answers before that. -/
def collect (c : Call σ (Option α)) (times : Nat) : Call σ (List α) :=
  ⟨collectFrom c #[] #[] times⟩

end Call
end Fifo
