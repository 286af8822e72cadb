import Mathlib.Data.List.Basic
import Mathlib.Tactic.Common

/-!
# Mailboxes that lose items

A producer stores items in a cell with a flag, and does not look at the flag first: an item
it finds there is lost.  A consumer waits for the flag, fetches the item and clears the flag,
in separate steps.

`Cell.Ok` accounts for the items: those taken and the one still to be taken are among the
items stored, in their order, and there are as many others as items were stored while the
flag was set.  So an item that comes between the fetch and the clearing is lost as well, but
none is taken twice.
-/

namespace Programs.LossyMailbox

universe u

/-- Where the consumer is. -/
inductive Consumer (α : Type u) where
  | idle
  /-- It has seen the flag set. -/
  | seen
  /-- It has fetched an item. -/
  | holds (a : α)
deriving DecidableEq, Repr

/-- A cell, its consumer, and what has gone through. -/
structure Cell (α : Type u) where
  item : α
  full : Bool
  consumer : Consumer α
  /-- The items stored. -/
  put : List α
  /-- The items taken. -/
  got : List α
  /-- The number of items stored while the flag was set. -/
  lost : Nat
deriving DecidableEq, Repr

namespace Cell

variable {α : Type u}

/-- The item that is taken next, if no other one comes. -/
def pending (b : Cell α) : List α :=
  match b.consumer with
  | .holds a => [a]
  | _ => if b.full then [b.item] else []

/-- The producer stores an item. -/
def store (b : Cell α) (a : α) : Cell α :=
  { b with
    item := a
    full := true
    put := b.put ++ [a]
    lost := b.lost + if b.full then 1 else 0 }

/-- The consumer takes the item it holds. -/
def take (b : Cell α) (a : α) : Cell α :=
  { b with full := false, consumer := .idle, got := b.got ++ [a] }

/-- What the producer and the consumer may do. -/
inductive Step : Cell α → Cell α → Prop where
  | stay {b : Cell α} : Step b b
  | store {b : Cell α} (a : α) : Step b (b.store a)
  | see {b : Cell α} : b.consumer = .idle → b.full = true → Step b { b with consumer := .seen }
  | fetch {b : Cell α} : b.consumer = .seen → Step b { b with consumer := .holds b.item }
  | take {b : Cell α} {a : α} : b.consumer = .holds a → Step b (b.take a)

/-- Every item stored has been taken, is about to be, or has been lost. -/
structure Ok (b : Cell α) : Prop where
  full : b.consumer ≠ .idle → b.full = true
  order : (b.got ++ b.pending).Sublist b.put
  count : b.got.length + b.pending.length + b.lost = b.put.length

/-- A cell before the first item. -/
theorem ok_new (a : α) : Ok ⟨a, false, .idle, [], [], 0⟩ :=
  ⟨fun h => absurd rfl h, List.Sublist.refl _, rfl⟩

variable {b b' : Cell α}

theorem pending_of_holds {a : α} (h : b.consumer = .holds a) : b.pending = [a] := by
  simp [pending, h]

theorem pending_of_not_holds (h : ∀ a, b.consumer ≠ .holds a) :
    b.pending = if b.full then [b.item] else [] := by
  cases hconsumer : b.consumer with
  | idle => simp [pending, hconsumer]
  | seen => simp [pending, hconsumer]
  | holds a => exact absurd hconsumer (h a)

theorem Ok.got_sublist (h : b.Ok) : b.got.Sublist b.put :=
  (List.sublist_append_left _ _).trans h.order

/-- An item that comes while the consumer holds one is never seen. -/
theorem Ok.store_of_holds (h : b.Ok) {c : α} (hholds : b.consumer = .holds c) (a : α) :
    (b.store a).Ok := by
  have hfull : b.full = true := h.full (by simp [hholds])
  have hpending : (b.store a).pending = b.pending :=
    (pending_of_holds (b := b.store a) hholds).trans (pending_of_holds hholds).symm
  refine ⟨fun _ => rfl, ?_, ?_⟩
  · rw [hpending]
    exact h.order.trans (List.sublist_append_left _ _)
  · have hcount := h.count
    rw [hpending]
    simp only [store, hfull, if_true, List.length_append, List.length_singleton]
    omega

/-- An item that comes otherwise is taken in the place of the one in the cell. -/
theorem Ok.store_of_not_holds (h : b.Ok) (hfree : ∀ c, b.consumer ≠ .holds c) (a : α) :
    (b.store a).Ok := by
  have hpending : (b.store a).pending = [a] := pending_of_not_holds (b := b.store a) hfree
  refine ⟨fun _ => rfl, ?_, ?_⟩
  · rw [hpending]
    exact h.got_sublist.append_right [a]
  · have hcount := h.count
    rw [pending_of_not_holds hfree] at hcount
    rw [hpending]
    cases hfull : b.full with
    | true =>
        simp [hfull] at hcount
        simp [store, hfull]
        omega
    | false =>
        simp [hfull] at hcount
        simp [store, hfull]
        omega

theorem Ok.step (h : b.Ok) (hstep : Step b b') : b'.Ok := by
  cases hstep with
  | stay => exact h
  | store a =>
      cases hconsumer : b.consumer with
      | idle => exact h.store_of_not_holds (by simp [hconsumer]) a
      | seen => exact h.store_of_not_holds (by simp [hconsumer]) a
      | holds c => exact h.store_of_holds hconsumer a
  | see hidle hfull =>
      have horder := h.order
      have hcount := h.count
      rw [pending_of_not_holds (by simp [hidle])] at horder hcount
      exact ⟨fun _ => hfull, horder, hcount⟩
  | fetch hseen =>
      have hfull : b.full = true := h.full (by simp [hseen])
      have horder := h.order
      have hcount := h.count
      rw [pending_of_not_holds (by simp [hseen]), if_pos hfull] at horder hcount
      exact ⟨fun _ => hfull, horder, hcount⟩
  | take hholds =>
      have horder := h.order
      have hcount := h.count
      rw [pending_of_holds hholds] at horder hcount
      refine ⟨fun hne => absurd rfl hne, ?_, ?_⟩
      · rw [pending_of_not_holds (by simp [Cell.take])]
        simpa [Cell.take] using horder
      · rw [pending_of_not_holds (by simp [Cell.take])]
        simpa [Cell.take] using hcount

/-- When no item has been lost, those taken are the first ones stored. -/
theorem Ok.eq_of_none_lost (h : b.Ok) (hlost : b.lost = 0) : b.got ++ b.pending = b.put := by
  refine h.order.eq_of_length ?_
  have hcount := h.count
  rw [List.length_append]
  omega

end Cell

end Programs.LossyMailbox
