/-
  LIKENESS: two runs side by side, whose slots differ.

  1. **Slots** — `Placement.Likeness p p'`: what is kept of two slots, one of either placement, by all
     that queues do with slots: they are vacant, packed, taken from, unpacked.  Queues never look
     INTO a slot, so this is all that has to be known of one.  Stores are alike if their slots are,
     place by place (`AlikeArrays`).

  2. **Outcomes** — alike if the values left behind are, the logs are the SAME, and the calls were
     answered alike or stopped by the same fault.

  3. **Calls** — alike if they take values that are alike to outcomes that are, unless one of them is
     stopped for want of memory: a store may be addressable for one placement and not for the other.
     There is one lemma for each way in which a call is put together from smaller ones, so that the
     proof for a call follows its program.
-/
import Fifo.Slot.Store
import Fifo.Call

namespace Fifo

/-! ## Slots -/

/-- What two slots have in common, whatever a queue does with both. -/
structure Placement.Likeness (p p' : Placement) where
  /-- What two elements have in common that are enqueued. -/
  element : Int32 → Int32 → Prop
  slot : p.Slot → p'.Slot → Prop
  /-- What two answers have in common. -/
  out : p.Out → p'.Out → Prop
  vacant : slot p.vacant p'.vacant
  pack : ∀ {v v'}, element v v' → slot (p.pack v) (p'.pack v')
  taken : ∀ {b b'}, slot b b' → slot (p.taken b) (p'.taken b')
  unpack : ∀ {b b'}, slot b b' → out (p.unpack b) (p'.unpack b')
  empty : out p.empty p'.empty

namespace Placement.Likeness

/-- Nothing at all need be in common. -/
def any (p p' : Placement) : Likeness p p' where
  element _ _ := True
  slot _ _ := True
  out _ _ := True
  vacant := trivial
  pack _ := trivial
  taken _ := trivial
  unpack _ := trivial
  empty := trivial

/-- What a boxed slot refers to, the inline slot is. -/
def inlined : Likeness .boxed .inline where
  element := Eq
  slot := fun (b : Option Int32) (i : Int32) => ∀ v, b = some v → i = v
  out := fun (b : Option Int32) (i : Int32) => ∀ v, b = some v → i = v
  vacant := fun _ h => nomatch h
  pack := fun he _ h => he.symm.trans (Option.some.inj h)
  taken := fun _ _ h => nomatch h
  unpack := id
  empty := fun _ h => nomatch h

end Placement.Likeness

/-! ## Stores -/

variable {σ τ α β γ δ : Type} {S : σ → τ → Prop} {A : α → β → Prop} {B : γ → δ → Prop}

namespace AlikeOptions

variable {x : Option α} {y : Option β}

theorem map {f : α → γ} {f' : β → δ} (hf : ∀ {a b}, A a b → B (f a) (f' b))
    (h : Option.Rel A x y) : Option.Rel B (x.map f) (y.map f') := by
  cases h with
  | none => exact .none
  | some hab => exact .some (hf hab)

theorem bind {f : α → Option γ} {f' : β → Option δ}
    (hf : ∀ {a b}, A a b → Option.Rel B (f a) (f' b)) (h : Option.Rel A x y) :
    Option.Rel B (x.bind f) (y.bind f') := by
  cases h with
  | none => exact .none
  | some hab => exact hf hab

theorem bind_eq {f : α → Option γ} {f' : β → Option γ} (hf : ∀ {a b}, A a b → f a = f' b)
    (h : Option.Rel A x y) : x.bind f = y.bind f' := by
  cases h with
  | none => rfl
  | some hab => exact hf hab

end AlikeOptions

/-- As many values, alike place by place. -/
structure AlikeArrays (A : α → β → Prop) (xs : Array α) (ys : Array β) : Prop where
  size_eq : xs.size = ys.size
  get : ∀ i (hi : i < xs.size) (hi' : i < ys.size), A xs[i] ys[i]

namespace AlikeArrays

variable {xs : Array α} {ys : Array β}

theorem empty : AlikeArrays A #[] #[] := ⟨rfl, fun _ hi => absurd hi (Nat.not_lt_zero _)⟩

theorem replicate (count : Nat) {a : α} {b : β} (hab : A a b) :
    AlikeArrays A (Array.replicate count a) (Array.replicate count b) := by
  refine ⟨by rw [Array.size_replicate, Array.size_replicate], fun i hi hi' => ?_⟩
  rw [Array.getElem_replicate, Array.getElem_replicate]
  exact hab

theorem vacant {p p' : Placement} (L : p.Likeness p') (slots : Nat) :
    AlikeArrays L.slot (Store.vacant p slots) (Store.vacant p' slots) :=
  replicate slots L.vacant

theorem modify (h : AlikeArrays A xs ys) (place : Nat) {f : α → α} {f' : β → β}
    (hf : ∀ {a b}, A a b → A (f a) (f' b)) :
    AlikeArrays A (xs.modify place f) (ys.modify place f') := by
  refine ⟨by rw [Array.size_modify, Array.size_modify, h.size_eq], fun i hi hi' => ?_⟩
  rw [Array.size_modify] at hi hi'
  rw [Array.getElem_modify, Array.getElem_modify]
  split
  · exact hf (h.get i hi hi')
  · exact h.get i hi hi'

theorem setIfInBounds (h : AlikeArrays A xs ys) (place : Nat) {a : α} {b : β} (hab : A a b) :
    AlikeArrays A (xs.setIfInBounds place a) (ys.setIfInBounds place b) := by
  refine ⟨by rw [Array.size_setIfInBounds, Array.size_setIfInBounds, h.size_eq], fun i hi hi' => ?_⟩
  rw [Array.size_setIfInBounds] at hi hi'
  rw [Array.getElem_setIfInBounds hi, Array.getElem_setIfInBounds hi']
  split
  · exact hab
  · exact h.get i hi hi'

theorem push (h : AlikeArrays A xs ys) {a : α} {b : β} (hab : A a b) :
    AlikeArrays A (xs.push a) (ys.push b) := by
  refine ⟨by rw [Array.size_push, Array.size_push, h.size_eq], fun i hi hi' => ?_⟩
  rw [Array.getElem_push, Array.getElem_push]
  by_cases hold : i < xs.size
  · rw [dif_pos hold, dif_pos (h.size_eq ▸ hold)]
    exact h.get i hold _
  · rw [dif_neg hold, dif_neg (h.size_eq ▸ hold)]
    exact hab

theorem append (h : AlikeArrays A xs ys) {xs' : Array α} {ys' : Array β}
    (h' : AlikeArrays A xs' ys') : AlikeArrays A (xs ++ xs') (ys ++ ys') := by
  refine ⟨by rw [Array.size_append, Array.size_append, h.size_eq, h'.size_eq], fun i hi hi' => ?_⟩
  rw [Array.getElem_append, Array.getElem_append]
  by_cases hold : i < xs.size
  · rw [dif_pos hold, dif_pos (h.size_eq ▸ hold)]
    exact h.get i hold _
  · rw [dif_neg hold, dif_neg (h.size_eq ▸ hold)]
    simp only [h.size_eq]
    exact h'.get _ _ _

/-- What is looked up at the same place is alike, or not there in either. -/
theorem getElem? (h : AlikeArrays A xs ys) (place : Nat) : Option.Rel A xs[place]? ys[place]? := by
  by_cases hi : place < xs.size
  · have hi' : place < ys.size := h.size_eq ▸ hi
    rw [Array.getElem?_eq_getElem hi, Array.getElem?_eq_getElem hi']
    exact .some (h.get place hi hi')
  · have hi' : ¬ place < ys.size := h.size_eq ▸ hi
    rw [Array.getElem?_eq_none (Nat.not_lt.mp hi), Array.getElem?_eq_none (Nat.not_lt.mp hi')]
    exact .none

end AlikeArrays

/-! ## Outcomes -/

/-- Answers that are alike, or the same fault. -/
inductive AlikeResults (A : α → β → Prop) : Except Fault α → Except Fault β → Prop
  | ok {a : α} {b : β} (h : A a b) : AlikeResults A (.ok a) (.ok b)
  | error (fault : Fault) : AlikeResults A (.error fault) (.error fault)

namespace AlikeResults

/-- What begins in the same way, and goes on alike. -/
theorem bind_same (x : Except Fault γ) {f : γ → Except Fault α} {f' : γ → Except Fault β}
    (h : ∀ c, AlikeResults A (f c) (f' c)) : AlikeResults A (x >>= f) (x >>= f') := by
  cases x with
  | error fault => exact .error fault
  | ok c => exact h c

end AlikeResults

namespace Outcome

/-- `Supplied o` — the call was not stopped for want of memory. -/
def Supplied (o : Outcome σ α) : Prop := o.result ≠ .error .capacityOverflow

/-- `Alike S A o o'` — the values left behind and the answers are alike, and the rest is the same. -/
structure Alike (S : σ → τ → Prop) (A : α → β → Prop) (o : Outcome σ α) (o' : Outcome τ β) :
    Prop where
  state : S o.state o'.state
  log : o.log = o'.log
  result : AlikeResults A o.result o'.result

theorem Alike.mapState {σ' τ' : Type} {T : σ' → τ' → Prop} {o : Outcome σ α} {o' : Outcome τ β}
    {f : σ → σ'} {f' : τ → τ'} (h : Alike S A o o') (hf : ∀ {s s'}, S s s' → T (f s) (f' s')) :
    Alike T A (o.mapState f) (o'.mapState f') :=
  ⟨hf h.state, h.log, h.result⟩

theorem Alike.mapAnswer {o : Outcome σ α} {o' : Outcome τ β} {f : α → γ} {f' : β → δ}
    (h : Alike S A o o') (hf : ∀ {a b}, A a b → B (f a) (f' b)) :
    Alike S B (o.mapAnswer f) (o'.mapAnswer f') := by
  obtain ⟨s, log, result⟩ := o
  obtain ⟨s', log', result'⟩ := o'
  obtain ⟨hstate, hlog, hresult⟩ := h
  cases hresult with
  | ok hab => exact ⟨hstate, hlog, .ok (hf hab)⟩
  | error fault => exact ⟨hstate, hlog, .error fault⟩

theorem Supplied.of_andThen {o : Outcome σ α} {next : α → Call σ γ}
    (h : (o.andThen next).Supplied) : o.Supplied := by
  intro hfault
  obtain ⟨s, log, result⟩ := o
  obtain rfl : result = .error .capacityOverflow := hfault
  exact h rfl

end Outcome

/-! ## Calls -/

namespace Call

/-- `Alike S A c c'` — made on values that are alike, the calls have outcomes that are, unless one of
    them wants for memory. -/
structure Alike (S : σ → τ → Prop) (A : α → β → Prop) (c : Call σ α) (c' : Call τ β) : Prop where
  run : ∀ {s s'}, S s s' → (c.run s).Supplied → (c'.run s').Supplied →
    Outcome.Alike S A (c.run s) (c'.run s')

namespace Alike

theorem pure {a : α} {b : β} (h : A a b) : Alike S A (Pure.pure a) (Pure.pure b) :=
  ⟨fun hs _ _ => ⟨hs, rfl, .ok h⟩⟩

theorem self : Alike S S Call.self Call.self := ⟨fun hs _ _ => ⟨hs, rfl, .ok hs⟩⟩

theorem stop (fault : Fault) : Alike S A (Call.stop fault) (Call.stop fault) :=
  ⟨fun hs _ _ => ⟨hs, rfl, .error fault⟩⟩

/-- What comes after a stop is not reached. -/
theorem stop_bind (fault : Fault) (next : α → Call σ γ) (next' : β → Call τ δ) :
    Alike S B (Call.stop fault >>= next) (Call.stop fault >>= next') :=
  ⟨fun hs _ _ => ⟨hs, rfl, .error fault⟩⟩

theorem record (r : Record) : Alike S Eq (Call.record r) (Call.record r) :=
  ⟨fun hs _ _ => ⟨hs, rfl, .ok rfl⟩⟩

theorem update {f : σ → σ} {f' : τ → τ} (h : ∀ {s s'}, S s s' → S (f s) (f' s')) :
    Alike S Eq (Call.update f) (Call.update f') :=
  ⟨fun hs _ _ => ⟨h hs, rfl, .ok rfl⟩⟩

theorem change {f : σ → Except Fault σ} {f' : τ → Except Fault τ}
    (h : ∀ {s s'}, S s s' → AlikeResults S (f s) (f' s')) :
    Alike S Eq (Call.change f) (Call.change f') := by
  refine ⟨fun {s s'} hs _ _ => ?_⟩
  have hresult := h hs
  unfold Call.change
  dsimp only
  generalize f s = x at *
  generalize f' s' = x' at *
  cases hresult with
  | ok ht => exact ⟨ht, rfl, .ok rfl⟩
  | error fault => exact ⟨hs, rfl, .error fault⟩

theorem lift {x : Except Fault α} {x' : Except Fault β} (h : AlikeResults A x x') :
    Alike S A (Call.lift x) (Call.lift x') := ⟨fun hs _ _ => ⟨hs, rfl, h⟩⟩

/-- Where memory is not wanting, stores are had. -/
theorem allocate {p p' : Placement} (slots : Nat) :
    Alike S Eq (Call.lift (Store.allocate p slots)) (Call.lift (Store.allocate p' slots)) := by
  refine ⟨fun {s s'} hs hsupplied hsupplied' => ?_⟩
  have hok {p : Placement} (h : Store.allocate p slots ≠ .error .capacityOverflow) :
      Store.allocate p slots = .ok () := by
    unfold Store.allocate at h ⊢
    split
    · rfl
    · next hm => exact absurd (if_neg hm) h
  refine ⟨hs, rfl, ?_⟩
  show AlikeResults Eq (Store.allocate p slots) (Store.allocate p' slots)
  rw [hok hsupplied, hok hsupplied']
  exact .ok rfl

/-- Calls that are alike, one after the other. -/
theorem bind {c : Call σ α} {c' : Call τ β} {next : α → Call σ γ} {next' : β → Call τ δ}
    (hc : Alike S A c c') (hnext : ∀ {a b}, A a b → Alike S B (next a) (next' b)) :
    Alike S B (c >>= next) (c' >>= next') := by
  refine ⟨fun {s s'} hs hsupplied hsupplied' => ?_⟩
  have ho := hc.run hs hsupplied.of_andThen hsupplied'.of_andThen
  rw [run_bind] at hsupplied hsupplied'
  rw [run_bind, run_bind]
  generalize c.run s = o at *
  generalize c'.run s' = o' at *
  obtain ⟨t, log, result⟩ := o
  obtain ⟨t', log', result'⟩ := o'
  obtain ⟨hstate, hlog, hresult⟩ := ho
  obtain rfl : log = log' := hlog
  cases hresult with
  | error fault => exact ⟨hstate, rfl, .error fault⟩
  | ok ha =>
    -- only now is it known that both go on, each from what its own first call left
    obtain ⟨hstate', hlog', hresult'⟩ := (hnext ha).run hstate hsupplied hsupplied'
    exact ⟨hstate', congrArg (log ++ ·) hlog', hresult'⟩

/-- Calls between which the same condition decides. -/
theorem ite {P P' : Prop} [Decidable P] [Decidable P'] (h : P ↔ P') {c d : Call σ α}
    {c' d' : Call τ β} (hc : Alike S A c c') (hd : Alike S A d d') :
    Alike S A (if P then c else d) (if P' then c' else d') := by
  by_cases hP : P
  · rw [if_pos hP, if_pos (h.mp hP)]
    exact hc
  · rw [if_neg hP, if_neg (mt h.mpr hP)]
    exact hd

end Alike

end Call
end Fifo
