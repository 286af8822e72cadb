import Mathlib.Logic.Function.Basic
import Mathlib.Tactic.Common

/-!
# Transfers

A transfer engine copies `len` cells from a source to a destination, one at a time, and then
reports how it went.  Both may change under it.  `Carries` says that the destination is, so
far, a copy of the source, and is kept as long as nobody else writes either of them.
-/

namespace Programs

universe u v

/-- Two memories agree on their first `len` cells. -/
def Agree {β : Type v} (len : Nat) (f g : Nat → β) : Prop := ∀ a < len, f a = g a

namespace Agree

variable {β : Type v} {len : Nat} {f g k : Nat → β}

theorem zero : Agree 0 f g := fun a ha => absurd ha (Nat.not_lt_zero a)

theorem trans (hfg : Agree len f g) (hgk : Agree len g k) : Agree len f k := fun a ha =>
  (hfg a ha).trans (hgk a ha)

/-- The next cell. -/
theorem succ (h : Agree len f g) {v : β} (hv : v = g len) :
    Agree (len + 1) (Function.update f len v) g := by
  intro a ha
  rcases Nat.lt_succ_iff_lt_or_eq.mp ha with hlt | rfl
  · rw [Function.update_of_ne (Nat.ne_of_lt hlt)]
    exact h a hlt
  · rw [Function.update_self]
    exact hv

end Agree

/-- The state of a transfer engine, where a job says what it copies. -/
inductive Transfer (α : Type u) where
  | idle
  | busy (job : α) (moved : Nat)
  /-- The transfer has ended, with or without an error, and its user does not know yet. -/
  | done (ok : Bool)
deriving DecidableEq, Repr

namespace Transfer

variable {α : Type u} {β : Type v} {len : Nat} {t : Transfer α} {job : α}

/-- A transfer is in progress. -/
def Busy : Transfer α → Prop
  | busy _ _ => True
  | _ => False

instance : DecidablePred (Busy : Transfer α → Prop)
  | idle => .isFalse id
  | busy _ _ => .isTrue trivial
  | done _ => .isFalse id

/-- The engine copies one more cell, if there is one. -/
def move (len : Nat) (src : α → Nat → β) (t : Transfer α) (dst : Nat → β) :
    Transfer α × (Nat → β) :=
  match t with
  | busy job moved =>
      if moved < len then (busy job (moved + 1), Function.update dst moved (src job moved))
      else (t, dst)
  | _ => (t, dst)

/-- The engine ends a transfer: with success after the last cell, with an error at any
time. -/
def finish (len : Nat) (ok : Bool) (t : Transfer α) : Transfer α :=
  match t with
  | busy _ moved => if ok = false ∨ moved = len then done ok else t
  | _ => t

/-- The destination is a copy of the source as far as the transfer of the job has come. -/
def Carries (len : Nat) (job : α) (src dst : Nat → β) : Transfer α → Prop
  | idle => False
  | busy job' moved => job' = job ∧ moved ≤ len ∧ Agree moved dst src
  | done ok => ok = true → Agree len dst src

theorem carries_start {src dst : Nat → β} : (busy job 0).Carries len job src dst :=
  ⟨rfl, Nat.zero_le len, .zero⟩

theorem Carries.move {src : α → Nat → β} {dst : Nat → β}
    (h : t.Carries len job (src job) dst) :
    (t.move len src dst).1.Carries len job (src job) (t.move len src dst).2 := by
  cases t with
  | idle => exact h
  | done ok => exact h
  | busy job' moved =>
      obtain ⟨rfl, hle, hagree⟩ := h
      rw [Transfer.move]
      split_ifs with hlt
      · exact ⟨rfl, hlt, hagree.succ rfl⟩
      · exact ⟨rfl, hle, hagree⟩

theorem Carries.finish {src dst : Nat → β} (h : t.Carries len job src dst) (ok : Bool) :
    (t.finish len ok).Carries len job src dst := by
  cases t with
  | idle => exact h
  | done ok => exact h
  | busy job' moved =>
      obtain ⟨rfl, hle, hagree⟩ := h
      rw [Transfer.finish]
      split_ifs with hend
      · intro hok
        rcases hend with herror | rfl
        · exact absurd (hok.symm.trans herror) (by decide)
        · exact hagree
      · exact ⟨rfl, hle, hagree⟩

theorem Busy.move {src : α → Nat → β} {dst : Nat → β} (h : t.Busy) :
    (t.move len src dst).1.Busy := by
  cases t with
  | idle => exact h
  | done ok => exact h
  | busy job moved =>
      rw [Transfer.move]
      split_ifs <;> trivial

theorem Busy.ne_idle (h : t.Busy) : t ≠ .idle := by
  rintro rfl
  exact h

theorem Busy.ne_done {ok : Bool} (h : t.Busy) : t ≠ .done ok := by
  rintro rfl
  exact h

/-- An engine without a transfer does nothing. -/
theorem move_of_not_busy {src : α → Nat → β} {dst : Nat → β} (h : ¬t.Busy) :
    t.move len src dst = (t, dst) := by
  cases t with
  | idle => rfl
  | done ok => rfl
  | busy job moved => exact absurd trivial h

theorem finish_of_not_busy {ok : Bool} (h : ¬t.Busy) : t.finish len ok = t := by
  cases t with
  | idle => rfl
  | done ok => rfl
  | busy job moved => exact absurd trivial h

end Transfer

end Programs
