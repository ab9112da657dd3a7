/-
  PLACEMENTS: how an element lies in the slot that a backing store has for it.

  INLINE, the slot is the element itself.  A slot can not be empty then: a vacant one holds zero,
  taking the element leaves it where it was, and the absence of an element is told by the
  sentinel -1, which is also an element that a caller may have stored.

  BOXED, the slot refers to an element elsewhere or to none.  Taking the element empties the
  slot, and its absence is no element at all.

  The slot of a placement and the value that leaves it are two types, because a queue keeps the
  former and hands out the latter.
-/
import Fifo.Shown

namespace Fifo

/-- How an element lies in its slot. -/
inductive Placement where
  /-- The slot is the element. -/
  | inline
  /-- The slot refers to the element, or to none. -/
  | boxed
  deriving DecidableEq, Repr

namespace Placement

/-- Both placements, in the order in which they are listed to users. -/
def all : List Placement := [.inline, .boxed]

/-- What a store has for each element. -/
def Slot : Placement → Type
  | .inline => Int32
  | .boxed => Option Int32

/-- What leaves a queue. -/
def Out : Placement → Type
  | .inline => Int32
  | .boxed => Option Int32

instance (p : Placement) : DecidableEq p.Slot :=
  match p with
  | .inline => inferInstanceAs (DecidableEq Int32)
  | .boxed => inferInstanceAs (DecidableEq (Option Int32))

instance (p : Placement) : DecidableEq p.Out :=
  match p with
  | .inline => inferInstanceAs (DecidableEq Int32)
  | .boxed => inferInstanceAs (DecidableEq (Option Int32))

/-- The element that tells an inline queue's caller that there is none. -/
def sentinel : Int32 := -1

/-! ## Slots -/

/-- A slot without an element. -/
def vacant : (p : Placement) → p.Slot
  | .inline => (0 : Int32)
  | .boxed => none

/-- The slot of an element. -/
def pack : (p : Placement) → Int32 → p.Slot
  | .inline, v => v
  | .boxed, v => some v

/-- What a slot holds, when the slot is given away with it. -/
def unpack : (p : Placement) → p.Slot → p.Out
  | .inline, slot => slot
  | .boxed, slot => slot

/-- What a slot is once its element has been taken out. -/
def taken : (p : Placement) → p.Slot → p.Slot
  | .inline, slot => slot
  | .boxed, _ => none

/-- Takes the element out of a slot that stays where it is. -/
def take (p : Placement) (slot : p.Slot) : p.Out × p.Slot := (p.unpack slot, p.taken slot)

/-- How many bytes of a store a slot takes: a number, or the address of one. -/
def slotBytes : Placement → Nat
  | .inline => 4
  | .boxed => 8

/-! ## What leaves a queue -/

/-- The answer of a queue that holds nothing. -/
def empty : (p : Placement) → p.Out
  | .inline => sentinel
  | .boxed => none

/-- Whether an answer reads as "nothing there". -/
def isEmptyMarker : (p : Placement) → p.Out → Bool
  | .inline, v => v == sentinel
  | .boxed, v => v.isNone

/-- The element that left a queue, if one did.  An inline answer is always an element, its
    sentinel too. -/
def value? : (p : Placement) → p.Out → Option Int32
  | .inline, v => some v
  | .boxed, v => v

/-- What is shown of an answer. -/
def shown : (p : Placement) → p.Out → Shown
  | .inline, v => .atom (toString v.toInt)
  | .boxed, none => .atom "None"
  | .boxed, some v => .atom ("Some(" ++ toString v.toInt ++ ")")

/-! ## Names -/

/-- The name a placement is reported under. -/
def name : Placement → String
  | .inline => "inline"
  | .boxed => "boxed"

/-- What is shown of a placement itself. -/
def label : Placement → String
  | .inline => "Inline"
  | .boxed => "Boxed"

/-- An element leaves either placement as it came. -/
theorem value?_unpack_pack (p : Placement) (v : Int32) :
    p.value? (p.unpack (p.pack v)) = some v := by
  cases p <;> rfl

/-- No boxed element reads as "nothing there", and inline the sentinel alone does. -/
theorem isEmptyMarker_unpack_pack (p : Placement) (v : Int32) :
    p.isEmptyMarker (p.unpack (p.pack v)) = true ↔ p = .inline ∧ v = sentinel := by
  cases p
  · exact beq_iff_eq.trans ⟨fun h => ⟨rfl, h⟩, fun h => h.2⟩
  · exact ⟨(nomatch ·), fun h => nomatch h.1⟩

theorem isEmptyMarker_empty (p : Placement) : p.isEmptyMarker p.empty = true := by
  cases p <;> rfl

end Placement
end Fifo
