/-
  THE LAYOUT of a ring that was moved, slot by slot.

           0   1   2   3                         0   1   2   3   4   5   6   7
         | c |   | a | b |      relocate 8     | a | b | c |   |   |   |   |   |
               T   H                             H           T

  1. **Specification** — `LaidOut r capacity r'`: what lay `i` steps after the old head lies at place
     `i`, all places behind are vacant, the head is at zero and the tail as many steps after it as
     there are elements, around the end of the new store.  This names every slot, so that no two rings
     are laid out so (`LaidOut.unique`).

  2. **Two moves are one** — layouts compose (`LaidOut.trans`): the second move starts from a head at
     zero, where steps are places.  With the former, the store in between is forgotten.

  3. **Memory** — a plain move into a store that memory could not hold is stopped, a reserving one is
     refused, and either leaves the ring alone.  The store of a power of two that is a word may be such
     a one, so that to be large enough is NOT all that a plain move asks of it.
-/
import Fifo.Proofs.Ring.Moves

namespace Fifo.Ring

variable {p : Placement}

/-! ## Specification -/

/-- `LaidOut r capacity r'` — the ring `r'` has so many slots, of which the first are those of the
    elements of `r`, oldest first, and the others are vacant. -/
structure LaidOut (r : Ring p) (capacity : Nat) (r' : Ring p) : Prop where
  capacity_eq : r'.capacity = capacity
  head_eq : r'.head = 0
  tail_eq : r'.tail = r.size % capacity
  size_eq : r'.size = r.size
  live : ∀ i < r.size, r'.store[i]? = r.store[r.place i]?
  vacant : ∀ i < capacity, r.size ≤ i → r'.store[i]? = some p.vacant

namespace LaidOut

variable {r r₁ r₂ : Ring p} {capacity capacity₁ : Nat}

/-- **There is one such layout.** -/
theorem unique (h₁ : LaidOut r capacity r₁) (h₂ : LaidOut r capacity r₂) : r₁ = r₂ := by
  have hstore : r₁.store = r₂.store := by
    refine Array.ext_getElem? fun i => ?_
    rcases Nat.lt_or_ge i capacity with hin | hout
    · rcases Nat.lt_or_ge i r.size with hlive | hvacant
      · rw [h₁.live i hlive, h₂.live i hlive]
      · rw [h₁.vacant i hin hvacant, h₂.vacant i hin hvacant]
    · have hout₁ : r₁.store.size ≤ i := Nat.le_trans (Nat.le_of_eq h₁.capacity_eq) hout
      have hout₂ : r₂.store.size ≤ i := Nat.le_trans (Nat.le_of_eq h₂.capacity_eq) hout
      rw [Array.getElem?_eq_none hout₁, Array.getElem?_eq_none hout₂]
  have hhead : r₁.head = r₂.head := h₁.head_eq.trans h₂.head_eq.symm
  have htail : r₁.tail = r₂.tail := h₁.tail_eq.trans h₂.tail_eq.symm
  have hsize : r₁.size = r₂.size := h₁.size_eq.trans h₂.size_eq.symm
  obtain ⟨_, _, _, _⟩ := r₁
  obtain ⟨_, _, _, _⟩ := r₂
  rw [mk.injEq]
  exact ⟨hstore, hhead, htail, hsize⟩

/-- From a head at zero, steps are places. -/
theorem place_eq (h : LaidOut r capacity r₁) {i : Nat} (hi : i < capacity) : r₁.place i = i := by
  unfold place
  rw [h.head_eq, h.capacity_eq, Nat.zero_add, Nat.mod_eq_of_lt hi]

/-- A layout of a layout is one of the ring itself. -/
theorem trans (h₁ : LaidOut r capacity₁ r₁) (hs : r.size ≤ capacity₁)
    (h₂ : LaidOut r₁ capacity r₂) : LaidOut r capacity r₂ where
  capacity_eq := h₂.capacity_eq
  head_eq := h₂.head_eq
  tail_eq := by rw [h₂.tail_eq, h₁.size_eq]
  size_eq := h₂.size_eq.trans h₁.size_eq
  live := by
    intro i hi
    have hi₁ : i < r₁.size := by
      rw [h₁.size_eq]
      exact hi
    rw [h₂.live i hi₁, h₁.place_eq (Nat.lt_of_lt_of_le hi hs), h₁.live i hi]
  vacant := by
    intro i hin hi
    refine h₂.vacant i hin ?_
    rw [h₁.size_eq]
    exact hi

end LaidOut

/-! ## What a move makes -/

/-- **A ring that was moved is laid out**, wherever its head was. -/
theorem laidOut_relocated {r : Ring p} (h : Sound r) {capacity : Nat} (hs : r.size ≤ capacity) :
    LaidOut r capacity (r.relocated capacity) where
  capacity_eq := capacity_relocated hs
  head_eq := rfl
  tail_eq := rfl
  size_eq := rfl
  live := by
    intro i hi
    have hin : i < r.window.toArray.size := by
      rw [List.size_toArray, length_window]
      exact hi
    have hlt : r.place i < r.store.size := h.place_lt i
    show (r.window.toArray ++ Store.vacant p (capacity - r.size))[i]? = _
    rw [Array.getElem?_append_left hin, window_eq]
    simp [hi, slotAt, hlt, Array.getD_eq_getD_getElem?]
  vacant := by
    intro i hin hi
    have hbehind : r.window.toArray.size ≤ i := by
      rw [List.size_toArray, length_window]
      exact hi
    show (r.window.toArray ++ Store.vacant p (capacity - r.size))[i]? = _
    rw [Array.getElem?_append_right hbehind, List.size_toArray, length_window, Store.vacant,
      Array.getElem?_replicate, if_pos (by omega)]

/-- The store in between leaves no trace. -/
theorem relocated_relocated {r : Ring p} (h : Sound r) {capacity capacity₁ : Nat}
    (h₁ : Sound (r.relocated capacity₁)) (hs₁ : r.size ≤ capacity₁) (hs : r.size ≤ capacity) :
    (r.relocated capacity₁).relocated capacity = r.relocated capacity := by
  have hfirst := laidOut_relocated h hs₁
  have hsecond : LaidOut (r.relocated capacity₁) capacity _ := laidOut_relocated h₁ hs
  exact (hfirst.trans hs₁ hsecond).unique (laidOut_relocated h hs)

/-! ## Calls -/

/-- A move for which the memory is granted. -/
theorem run_relocate?_eq_relocated {r : Ring p} (h : Fitting r) {capacity : Nat}
    (hp : Capacity.isPower capacity = true) (hs : r.size ≤ capacity) {a : Allocator}
    (ha : Store.reserve p a capacity = .ok ()) (w : IndexRule) :
    (relocate? w a capacity).run r = ⟨r.relocated capacity, [], .ok (.ok ())⟩ := by
  have hm : Store.addressable p capacity = true := Store.addressable_of_reserve ha
  rw [run_relocate?_of_ok ha, map_eq_pure_bind, Call.run_bind, run_relocate h hp hs hm]
  rfl

/-- **Moves lay out what the ring holds**, into every store that is a power of two and large enough,
    whether smaller, equal or larger: a plain move if memory could hold the store, a reserving one
    if the store is granted.  Two such moves do what the second one does.  A reserving move that is
    refused changes nothing, and neither does a plain one into a store beyond memory, which is
    stopped. -/
theorem layout_of_moves {r : Ring p} (h : Fitting r) {capacity : Nat}
    (hp : Capacity.isPower capacity = true) (hs : r.size ≤ capacity) (w : IndexRule) :
    (Store.addressable p capacity = true →
      ∃ r', LaidOut r capacity r' ∧ (relocate w capacity).run r = ⟨r', [], .ok ()⟩) ∧
    (∀ a, Store.reserve p a capacity = .ok () →
      ∃ r', LaidOut r capacity r' ∧ (relocate? w a capacity).run r = ⟨r', [], .ok (.ok ())⟩) ∧
    (∀ capacity₁, Capacity.isPower capacity₁ = true → r.size ≤ capacity₁ →
      (Store.addressable p capacity₁ = true → Store.addressable p capacity = true →
        (relocate w capacity₁ >>= fun _ => relocate w capacity).run r =
          (relocate w capacity).run r) ∧
      ∀ a₁ a, Store.reserve p a₁ capacity₁ = .ok () → Store.reserve p a capacity = .ok () →
        (relocate? w a₁ capacity₁ >>= fun _ => relocate? w a capacity).run r =
          (relocate? w a capacity).run r) ∧
    (∀ a other e, Store.reserve p a other = .error e →
      (relocate? w a other).run r = ⟨r, [], .ok (.error e)⟩) ∧
    (Store.addressable p capacity = false →
      (relocate w capacity).run r = ⟨r, [], .error .capacityOverflow⟩) := by
  have hlaid : LaidOut r capacity (r.relocated capacity) := laidOut_relocated h.toSound hs
  refine ⟨?_, ?_, ?_, ?_, ?_⟩
  · intro hm
    exact ⟨_, hlaid, run_relocate h hp hs hm w⟩
  · intro a ha
    exact ⟨_, hlaid, run_relocate?_eq_relocated h hp hs ha w⟩
  · intro capacity₁ hp₁ hs₁
    -- the second move starts from a ring that fits and holds as much
    have hfit₁ (hm₁ : Store.addressable p capacity₁ = true) : Fitting (r.relocated capacity₁) :=
      fitting_relocated hp₁ (Store.lt_limit_of_addressable hm₁) hs₁
    have htwo (hm₁ : Store.addressable p capacity₁ = true) :
        (r.relocated capacity₁).relocated capacity = r.relocated capacity :=
      relocated_relocated h.toSound (hfit₁ hm₁).toSound hs₁ hs
    constructor
    · intro hm₁ hm
      rw [Call.run_bind, run_relocate h hp₁ hs₁ hm₁, Outcome.andThen_ok,
        run_relocate (hfit₁ hm₁) hp hs hm, htwo hm₁, run_relocate h hp hs hm]
      rfl
    · intro a₁ a ha₁ ha
      have hm₁ := Store.addressable_of_reserve ha₁
      rw [Call.run_bind, run_relocate?_eq_relocated h hp₁ hs₁ ha₁, Outcome.andThen_ok,
        run_relocate?_eq_relocated (hfit₁ hm₁) hp hs ha, htwo hm₁,
        run_relocate?_eq_relocated h hp hs ha]
      rfl
  · intro a other e he
    exact run_relocate?_of_error he w r
  · intro hm
    simp [relocate, Store.allocate_eq_error hm]

/-- Two elements around the end of four slots move into two, which they fill, and into eight, by way
    of the two or at once, but not into so many that they have no address. -/
theorem layout_of_moves_of_full :
    let r : Ring .boxed := ⟨#[some 2, none, none, some 1], 3, 1, 2⟩
    let full : Ring .boxed := ⟨#[some 1, some 2], 0, 0, 2⟩
    let wide : Ring .boxed := ⟨#[some 1, some 2, none, none, none, none, none, none], 0, 2, 2⟩
    let granting : Allocator := fun _ => true
    let refusing : Allocator := fun _ => false
    Fitting r ∧
    LaidOut r 2 full ∧ (relocate .mask 2).run r = ⟨full, [], .ok ()⟩ ∧
    LaidOut r 8 wide ∧ (relocate? .mask granting 8).run r = ⟨wide, [], .ok (.ok ())⟩ ∧
    (relocate .mask 2 >>= fun _ => relocate .mask 8).run r = (relocate .mask 8).run r ∧
    (relocate? .mask granting 2 >>= fun _ => relocate? .mask granting 8).run r =
      (relocate? .mask granting 8).run r ∧
    (relocate? .mask refusing 8).run r = ⟨r, [], .ok (.error .allocationFailed)⟩ ∧
    (relocate .mask 0x8000000000000000).run r = ⟨r, [], .error .capacityOverflow⟩ := by
  intro r full wide granting refusing
  have h : Fitting r :=
    { power := by decide
      word := by decide
      head_lt := by decide
      tail_eq := by decide
      size_le := by decide }
  have hp₂ : Capacity.isPower 2 = true := by decide
  have hp₈ : Capacity.isPower 8 = true := by decide
  have hp : Capacity.isPower 0x8000000000000000 = true := by decide
  have hs₂ : r.size ≤ 2 := by decide
  have hs₈ : r.size ≤ 8 := by decide
  have hs : r.size ≤ 0x8000000000000000 := by decide
  obtain ⟨hplain, _⟩ := layout_of_moves h hp₂ hs₂ .mask
  obtain ⟨_, hreserving, htwo, hrefused, _⟩ := layout_of_moves h hp₈ hs₈ .mask
  obtain ⟨_, _, _, _, hbeyond⟩ := layout_of_moves h hp hs .mask
  obtain ⟨r₂, hlaid₂, hrun₂⟩ := hplain (by decide)
  obtain ⟨r₈, hlaid₈, hrun₈⟩ := hreserving granting rfl
  obtain ⟨hplains, hreservings⟩ := htwo 2 hp₂ hs₂
  have hfull : ((relocate .mask 2).run r).state = full := by decide +kernel
  have hwide : ((relocate? .mask granting 8).run r).state = wide := by decide +kernel
  rw [hrun₂] at hfull
  rw [hrun₈] at hwide
  subst hfull hwide
  exact ⟨h, hlaid₂, hrun₂, hlaid₈, hrun₈, hplains (by decide) (by decide),
    hreservings granting granting rfl rfl, hrefused refusing 8 _ rfl, hbeyond (by decide)⟩

/-- **Not every power of two is a store**, though it is a word and large enough: a ring of one vacant
    slot does not move into `2 ^ 63` slots. -/
theorem unmoved_beyond_memory :
    ¬ ∀ (r : Ring .boxed) (capacity : Nat) (w : IndexRule), Fitting r →
      Capacity.isPower capacity = true → capacity < Word.limit → r.size ≤ capacity →
        ∃ r', LaidOut r capacity r' ∧ (relocate w capacity).run r = ⟨r', [], .ok ()⟩ := by
  intro hall
  have h : Fitting (vacant .boxed 1) := fitting_vacant (by decide) (by decide)
  obtain ⟨r', _, hrun⟩ :=
    hall (vacant .boxed 1) 0x8000000000000000 .mask h (by decide) (by decide) (by decide)
  have hstop : (relocate .mask 0x8000000000000000).run (vacant .boxed 1) =
      ⟨vacant .boxed 1, [], .error .capacityOverflow⟩ := rfl
  rw [hstop] at hrun
  nomatch hrun

end Fifo.Ring
