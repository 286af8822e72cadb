import Mathlib.Logic.Function.Basic
import Mathlib.Tactic.Common

/-!
# Filling a table consistently

A table is filled from entries, one at a time, next to a table of the keys that have
been filled.  An entry is refused when its key is filled with another value.

`Filled d es f` says that `f` holds the entries `es` and the default elsewhere.  An
entry is accepted if and only if it agrees with the entries of the same key
(`Filled.put_isSome_iff`), so a whole list is accepted if and only if it is a function.
-/

namespace ConsistentFill

universe u v

/-- A table and the keys filled so far. -/
structure Fill (κ : Type u) (α : Type v) where
  table : κ → α
  done : κ → Bool

variable {κ : Type u} {α : Type v}

/-- The table holds the entries `es`, and `d` elsewhere. -/
structure Filled (d : α) (es : List (κ × α)) (f : Fill κ α) : Prop where
  table : ∀ k a, (k, a) ∈ es → f.table k = a
  default : ∀ k, (∀ a, (k, a) ∉ es) → f.table k = d
  done : ∀ k, f.done k = true ↔ ∃ a, (k, a) ∈ es

theorem Filled.empty (d : α) : Filled (κ := κ) d [] ⟨fun _ => d, fun _ => false⟩ where
  table := fun _ _ h => absurd h List.not_mem_nil
  default := fun _ _ => rfl
  done := fun k => by
    constructor
    · intro h
      cases h
    · rintro ⟨a, h⟩
      cases h

variable [DecidableEq κ] [DecidableEq α]

/-- One entry, refused when the key holds another value. -/
def Fill.put (f : Fill κ α) (k : κ) (a : α) : Option (Fill κ α) :=
  if f.done k = true ∧ f.table k ≠ a then none
  else some ⟨Function.update f.table k a, Function.update f.done k true⟩

variable {d : α} {es : List (κ × α)} {f f' : Fill κ α}

/-- An entry is accepted if and only if it agrees with those of its key. -/
theorem Filled.put_isSome_iff (h : Filled d es f) {k : κ} {a : α} :
    (f.put k a).isSome = true ↔ ∀ b, (k, b) ∈ es → b = a := by
  rw [Fill.put]
  split
  next hclash =>
    obtain ⟨hdone, hne⟩ := hclash
    obtain ⟨b, hb⟩ := (h.done k).mp hdone
    have hb' := h.table k b hb
    exact ⟨fun hsome => Bool.noConfusion hsome,
      fun hagree => absurd (hb'.trans (hagree b hb)) hne⟩
  next hclash =>
    refine ⟨fun _ b hb => ?_, fun _ => rfl⟩
    by_contra hne
    exact hclash ⟨(h.done k).mpr ⟨b, hb⟩, fun heq => hne ((h.table k b hb).symm.trans heq)⟩

theorem Filled.put (h : Filled d es f) {k : κ} {a : α} (hput : f.put k a = some f') :
    Filled d (es ++ [(k, a)]) f' := by
  have hagree := h.put_isSome_iff.mp (Option.isSome_of_mem hput)
  rw [Fill.put] at hput
  split at hput
  next => cases hput
  next =>
    cases hput
    refine ⟨fun j b hb => ?_, fun j hnone => ?_, fun j => ?_⟩
    · rcases List.mem_append.mp hb with hold | hnew
      · rcases eq_or_ne j k with rfl | hne
        · show Function.update f.table j a j = b
          rw [Function.update_self, hagree b hold]
        · show Function.update f.table k a j = b
          rw [Function.update_of_ne hne, h.table j b hold]
      · obtain ⟨rfl, rfl⟩ := Prod.mk.inj (List.mem_singleton.mp hnew)
        exact Function.update_self ..
    · have hne : j ≠ k := by
        rintro rfl
        exact hnone a (List.mem_append_right _ List.mem_cons_self)
      show Function.update f.table k a j = d
      rw [Function.update_of_ne hne]
      exact h.default j fun b hb => hnone b (List.mem_append_left _ hb)
    · show Function.update f.done k true j = true ↔ _
      rcases eq_or_ne j k with rfl | hne
      · rw [Function.update_self]
        exact ⟨fun _ => ⟨a, List.mem_append_right _ List.mem_cons_self⟩, fun _ => rfl⟩
      · rw [Function.update_of_ne hne, h.done]
        simp [hne]

end ConsistentFill
