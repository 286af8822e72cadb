import Mathlib.Logic.Function.Basic
import Mathlib.Tactic.Common

/-!
# Shared words with load-linked and store-conditional

Parties share words.  A load-linked reads a word and links the party to it, any store to the
word unlinks all parties from it, and a store-conditional takes effect only for a party that
is still linked.  It may also fail for no reason, which is up to its user.

What a party has read at its load-linked, the word still holds as long as the party is linked
to it: `Holds` says so, and no access of another party breaks it.
-/

namespace Programs

universe u v w

/-- Words, and the word each party is linked to. -/
structure LinkedMemory (κ : Type u) (ω : Type v) (ι : Type w) where
  word : κ → ω
  link : ι → Option κ

namespace LinkedMemory

variable {κ : Type u} {ω : Type v} {ι : Type w} {m m' : LinkedMemory κ ω ι} {i j : ι} {k k' : κ}
  {x y : ω}

/-- Every word is `x`, and no party is linked. -/
def fresh (x : ω) : LinkedMemory κ ω ι := ⟨fun _ => x, fun _ => none⟩

/-- A load-linked. -/
def linkedLoad [DecidableEq ι] (m : LinkedMemory κ ω ι) (i : ι) (k : κ) : LinkedMemory κ ω ι :=
  { m with link := Function.update m.link i (some k) }

/-- A store, and what a store-conditional does if it takes effect. -/
def store [DecidableEq κ] (m : LinkedMemory κ ω ι) (k : κ) (x : ω) : LinkedMemory κ ω ι where
  word := Function.update m.word k x
  link j := if m.link j = some k then none else m.link j

/-- If the party is linked to the word, the word is `x`. -/
def Holds (m : LinkedMemory κ ω ι) (i : ι) (k : κ) (x : ω) : Prop :=
  m.link i = some k → m.word k = x

section Load

variable [DecidableEq ι]

theorem holds_linkedLoad : (m.linkedLoad i k).Holds i k (m.word k) := fun _ => rfl

theorem Holds.linkedLoad (h : m.Holds i k x) (hne : i ≠ j) : (m.linkedLoad j k').Holds i k x := by
  intro hlink
  have hsame : (m.linkedLoad j k').link i = m.link i := Function.update_of_ne hne ..
  exact h (hsame.symm.trans hlink)

end Load

section Store

variable [DecidableEq κ]

theorem store_word_self : (m.store k x).word k = x := Function.update_self ..

theorem store_word_of_ne (h : k' ≠ k) : (m.store k x).word k' = m.word k' :=
  Function.update_of_ne h ..

/-- A store unlinks the parties from its word. -/
theorem Holds.store (h : m.Holds i k x) : (m.store k' y).Holds i k x := by
  intro hlink
  rw [LinkedMemory.store] at hlink
  dsimp only at hlink
  split_ifs at hlink with hsame
  have hne : k ≠ k' := by
    rintro rfl
    exact hsame hlink
  rw [store_word_of_ne hne]
  exact h hlink

end Store

/-- What a party can do in one step. -/
inductive Access [DecidableEq κ] [DecidableEq ι] (m : LinkedMemory κ ω ι) (i : ι) :
    LinkedMemory κ ω ι → Prop where
  | none : Access m i m
  | linkedLoad {k : κ} : Access m i (m.linkedLoad i k)
  | store {k : κ} {x : ω} : Access m i (m.store k x)

theorem Holds.access [DecidableEq κ] [DecidableEq ι] (h : m.Holds i k x) (hne : i ≠ j)
    (haccess : m.Access j m') : m'.Holds i k x := by
  cases haccess with
  | none => exact h
  | linkedLoad => exact h.linkedLoad hne
  | store => exact h.store

end LinkedMemory

end Programs
