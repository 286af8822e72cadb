import Mathlib.Tactic.Common

/-!
# One-slot mailboxes

A producer and a consumer share one slot and a flag which says that the slot is empty.
The producer waits for the flag to be set, fills the slot and clears the flag; the
consumer waits for it to be clear, drains the slot and sets it.  Each of the two reads and
writes the flag in separate steps, in any order with the steps of the other.

`Mailbox.Ok` is what holds at every point: the two are never at the slot together, and the
consumer has taken every item that was put except the one in the slot.
-/

namespace Programs

/-- The flag of a slot, where its two users stand, and how many items went through. -/
structure Mailbox where
  /-- The flag. -/
  empty : Bool
  /-- The producer has seen the slot empty and has not published an item since. -/
  filling : Bool
  /-- The consumer has seen the slot full and has not released it since. -/
  draining : Bool
  /-- The items published. -/
  put : Nat
  /-- The items taken. -/
  got : Nat
deriving DecidableEq, Repr

namespace Mailbox

/-- What a user of the slot may do. -/
inductive Step : Mailbox → Mailbox → Prop where
  | stay {b : Mailbox} : Step b b
  | beginFill {b : Mailbox} : b.empty = true → Step b { b with filling := true }
  | abandonFill {b : Mailbox} : Step b { b with filling := false }
  | publish {b : Mailbox} : b.filling = true →
      Step b { b with empty := false, filling := false, put := b.put + 1 }
  | beginDrain {b : Mailbox} : b.empty = false → Step b { b with draining := true }
  | abandonDrain {b : Mailbox} : Step b { b with draining := false }
  | release {b : Mailbox} : b.draining = true →
      Step b { b with empty := true, draining := false, got := b.got + 1 }

/-- The slot is used by one side at a time, and no item is lost or taken twice. -/
structure Ok (b : Mailbox) : Prop where
  filling : b.filling = true → b.empty = true
  draining : b.draining = true → b.empty = false
  balance : b.put = b.got + if b.empty then 0 else 1

/-- A new slot. -/
theorem ok_new : Ok ⟨true, false, false, 0, 0⟩ := ⟨fun _ => rfl, by simp, rfl⟩

theorem Ok.step {b b' : Mailbox} (h : b.Ok) (hstep : Step b b') : b'.Ok := by
  cases hstep with
  | stay => exact h
  | beginFill hempty => exact ⟨fun _ => hempty, h.draining, h.balance⟩
  | abandonFill => exact ⟨by simp, h.draining, h.balance⟩
  | publish hfilling =>
      have hbalance := h.balance
      rw [h.filling hfilling, if_pos rfl] at hbalance
      exact ⟨by simp, fun _ => rfl, congrArg (· + 1) hbalance⟩
  | beginDrain hfull => exact ⟨h.filling, fun _ => hfull, h.balance⟩
  | abandonDrain => exact ⟨h.filling, by simp, h.balance⟩
  | release hdraining =>
      have hbalance := h.balance
      rw [h.draining hdraining] at hbalance
      exact ⟨fun _ => rfl, by simp, hbalance⟩

theorem Ok.exclusive {b : Mailbox} (h : b.Ok) (hfilling : b.filling = true)
    (hdraining : b.draining = true) : False :=
  absurd ((h.filling hfilling).symm.trans (h.draining hdraining)) (by decide)

/-- The item being put is the one the consumer takes next. -/
theorem Ok.put_of_filling {b : Mailbox} (h : b.Ok) (hfilling : b.filling = true) :
    b.put = b.got := by
  simpa [h.filling hfilling] using h.balance

end Mailbox

end Programs
