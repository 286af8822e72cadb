import Mathlib.Algebra.Ring.Int.Defs
import Mathlib.Algebra.Ring.Nat
import Mathlib.Tactic.Common

/-!
# Fields packed into a number

A list of fields, each a value with its width in bits, is packed into a number from the
left: what is there is shifted by the width and the value is added.  A field of the packed
number is read back by shifting out the widths to its right (`pack_field`), so packing is
injective on values that fit.
-/

namespace PackedFields

/-- Pack fields, value and width, into a number. -/
def pack (r : Nat) (fields : List (Nat × Nat)) : Nat :=
  fields.foldl (fun r f => r * 2 ^ f.2 + f.1) r

/-- The width of the fields together. -/
def width (fields : List (Nat × Nat)) : Nat := (fields.map Prod.snd).sum

/-- Every value fits into its width. -/
def Fit (fields : List (Nat × Nat)) : Prop := ∀ f ∈ fields, f.1 < 2 ^ f.2

@[simp] theorem pack_nil (r : Nat) : pack r [] = r := rfl

@[simp] theorem pack_cons (r : Nat) (f : Nat × Nat) (fs : List (Nat × Nat)) :
    pack r (f :: fs) = pack (r * 2 ^ f.2 + f.1) fs := rfl

@[simp] theorem width_cons (f : Nat × Nat) (fs : List (Nat × Nat)) :
    width (f :: fs) = f.2 + width fs := List.sum_cons

theorem pack_append (r : Nat) (fs gs : List (Nat × Nat)) :
    pack r (fs ++ gs) = pack (pack r fs) gs := List.foldl_append

/-- What is packed already is shifted by the whole width. -/
theorem pack_eq (r : Nat) (fs : List (Nat × Nat)) :
    pack r fs = r * 2 ^ width fs + pack 0 fs := by
  induction fs generalizing r with
  | nil => simp [width]
  | cons f fs ih =>
      rw [pack_cons, pack_cons, ih, ih (0 * 2 ^ f.2 + f.1), width_cons, Nat.pow_add,
        Nat.zero_mul, Nat.zero_add, Nat.add_mul, Nat.mul_assoc, Nat.add_assoc]

theorem pack_lt {fs : List (Nat × Nat)} (h : Fit fs) {r a : Nat} (hr : r < 2 ^ a) :
    pack r fs < 2 ^ (a + width fs) := by
  induction fs generalizing r a with
  | nil => exact hr
  | cons f fs ih =>
      have hnext : r * 2 ^ f.2 + f.1 < 2 ^ (a + f.2) := by
        have hf := h f List.mem_cons_self
        calc r * 2 ^ f.2 + f.1 < (r + 1) * 2 ^ f.2 := by rw [Nat.succ_mul]; omega
          _ ≤ 2 ^ a * 2 ^ f.2 := Nat.mul_le_mul_right _ hr
          _ = 2 ^ (a + f.2) := (Nat.pow_add 2 a f.2).symm
      have hrest := ih (fun g hg => h g (List.mem_cons_of_mem _ hg)) hnext
      rwa [width_cons, ← Nat.add_assoc]

/-- A field is read back from behind the fields to its right. -/
theorem pack_field (fs gs : List (Nat × Nat)) {f : Nat × Nat} (hf : f.1 < 2 ^ f.2) (hgs : Fit gs) :
    pack 0 (fs ++ f :: gs) / 2 ^ width gs % 2 ^ f.2 = f.1 := by
  have hlow : pack 0 gs < 2 ^ width gs := by
    have hlt := pack_lt hgs (r := 0) (a := 0) Nat.one_pos
    rwa [Nat.zero_add] at hlt
  rw [pack_append, pack_cons, pack_eq, Nat.mul_comm, Nat.mul_add_div (Nat.two_pow_pos _),
    Nat.div_eq_of_lt hlow, Nat.add_zero, Nat.mul_comm, Nat.mul_add_mod, Nat.mod_eq_of_lt hf]

end PackedFields
