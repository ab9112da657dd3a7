/-
  BACKING STORES: arrays of slots, and the memory they ask for.

  A store is asked for in two ways.  The RESERVING way is answered with an error when the memory
  is refused, the plain way only fails when the store is larger than any address range, and then
  by a fault.  Which requests are refused is not ours to say: an `Allocator` is an argument.
-/
import Fifo.Error
import Fifo.Fault
import Fifo.Slot.Placement

namespace Fifo

/-- Says of a number of bytes whether memory for them is granted. -/
abbrev Allocator := Nat → Bool

namespace Allocator

/-- Grants what the slots of a placement can ask for on a machine that addresses fewer than
    `2 ^ 48` of them. -/
def machine (p : Placement) : Allocator := fun bytes => bytes < 0x1000000000000 * p.slotBytes

/-- The same allocator, which also refuses all requests above a limit. -/
def capped (a : Allocator) (limit : Nat) : Allocator := fun bytes => a bytes && bytes ≤ limit

end Allocator

namespace Store

variable (p : Placement)

/-- The size of the largest object in memory: half of the address range, less one byte. -/
def maxBytes : Nat := 0x7FFFFFFFFFFFFFFF

/-- How many bytes a store takes. -/
def bytes (slots : Nat) : Nat := slots * p.slotBytes

/-- Whether a store is an object that memory could hold at all. -/
def addressable (slots : Nat) : Bool := bytes p slots ≤ maxBytes

/-- A store in which every slot is vacant. -/
def vacant (slots : Nat) : Array p.Slot := Array.replicate slots p.vacant

/-- Asks for the memory of a store, and is stopped if no memory could hold it. -/
def allocate (slots : Nat) : Except Fault Unit :=
  if addressable p slots then .ok () else .error .capacityOverflow

/-- Asks for the memory of a store, and is refused if no memory could hold it or if the allocator
    says so. -/
def reserve (a : Allocator) (slots : Nat) : Except Error Unit :=
  if addressable p slots && a (bytes p slots) then .ok () else .error .allocationFailed

/-- There is one error that memory is refused with. -/
theorem reserve_eq_ok {p : Placement} {a : Allocator} {slots : Nat}
    (h : reserve p a slots ≠ .error .allocationFailed) : reserve p a slots = .ok () := by
  unfold reserve at h ⊢
  split at h
  case isTrue hc => exact if_pos hc
  case isFalse => exact absurd rfl h

/-- What is granted when it is reserved is granted when it is just asked for. -/
theorem allocate_of_reserve {p : Placement} {a : Allocator} {slots : Nat}
    (h : reserve p a slots = .ok ()) : allocate p slots = .ok () := by
  unfold reserve at h
  split at h
  case isTrue hc => exact if_pos (Bool.and_eq_true_iff.mp hc).1
  case isFalse => nomatch h

@[simp] theorem size_vacant (slots : Nat) : (vacant p slots).size = slots := Array.size_replicate

end Store
end Fifo
