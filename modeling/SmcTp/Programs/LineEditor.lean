import Mathlib.Data.List.Induction
import Mathlib.Logic.Function.Basic
import Mathlib.Tactic.Common

/-!
# Lines typed into a buffer

*Cells.*  A buffer is a function from positions, and `cells buf i n` are the `n` entries from
`i` on.  A store next to them makes them longer, one anywhere else leaves them alone.

*Lines.*  A line of text is typed key by key.  A key puts a character at its end, erases the
last one, or ends the line.  `Line.press` is the editor: a line that has been ended, or has
come to its limit, is closed, and keys no longer change it.
-/

namespace LineEditor

/-! ## Cells -/

section Cells

variable {α : Type*} {buf : Nat → α} {i n : Nat} {a : α}

/-- The `n` cells of a buffer from `i` on. -/
def cells (buf : Nat → α) (i : Nat) : Nat → List α
  | 0 => []
  | n + 1 => buf i :: cells buf (i + 1) n

@[simp] theorem cells_zero (buf : Nat → α) (i : Nat) : cells buf i 0 = [] := rfl

@[simp] theorem length_cells (buf : Nat → α) (i n : Nat) : (cells buf i n).length = n := by
  induction n generalizing i with
  | zero => rfl
  | succ n ih => rw [cells, List.length_cons, ih]

theorem cells_append (buf : Nat → α) (i n m : Nat) :
    cells buf i (n + m) = cells buf i n ++ cells buf (i + n) m := by
  induction n generalizing i with
  | zero => rw [Nat.zero_add, cells_zero, List.nil_append, Nat.add_zero]
  | succ n ih =>
      rw [Nat.succ_add_eq_add_succ, Nat.add_succ, cells, cells, ih, List.cons_append,
        Nat.succ_add_eq_add_succ]

theorem cells_concat (buf : Nat → α) (i n : Nat) :
    cells buf i (n + 1) = cells buf i n ++ [buf (i + n)] := cells_append buf i n 1

/-- A store elsewhere. -/
theorem cells_update_of_out {j : Nat} (hj : j < i ∨ i + n ≤ j) :
    cells (Function.update buf j a) i n = cells buf i n := by
  induction n generalizing i with
  | zero => rfl
  | succ n ih =>
      rw [cells, cells, Function.update_of_ne (by omega), ih (by omega)]

/-- A store just before. -/
theorem cells_update_before :
    cells (Function.update buf i a) i (n + 1) = a :: cells buf (i + 1) n := by
  rw [cells, Function.update_self, cells_update_of_out (.inl (Nat.lt_succ_self i))]

/-- A store just behind. -/
theorem cells_update_behind :
    cells (Function.update buf (i + n) a) i (n + 1) = cells buf i n ++ [a] := by
  rw [cells_concat, Function.update_self, cells_update_of_out (.inr (Nat.le_refl _))]

end Cells

/-! ## Lines -/

/-- What a key does to a line. -/
inductive Key (α : Type*) where
  | put (a : α)
  | erase
  | enter
  | other
deriving DecidableEq, Repr

/-- A line as it is typed. -/
structure Line (α : Type*) where
  text : List α
  ended : Bool
deriving DecidableEq, Repr

namespace Line

variable {α : Type*} {limit : Nat} {l : Line α}

/-- The line before the first key. -/
def empty : Line α := ⟨[], false⟩

/-- The line has been ended, or it has come to its limit. -/
def Closed (limit : Nat) (l : Line α) : Prop := l.ended = true ∨ l.text.length = limit

instance (limit : Nat) (l : Line α) : Decidable (l.Closed limit) :=
  inferInstanceAs (Decidable (_ ∨ _))

/-- What a key makes of an open line. -/
def edit (l : Line α) : Key α → Line α
  | .put a => { l with text := l.text ++ [a] }
  | .erase => { l with text := l.text.dropLast }
  | .enter => { l with ended := true }
  | .other => l

/-- What a key makes of a line. -/
def press (limit : Nat) (l : Line α) (k : Key α) : Line α :=
  if l.Closed limit then l else l.edit k

/-- The line that keys make. -/
def typed (limit : Nat) (keys : List (Key α)) : Line α := keys.foldl (press limit) empty

theorem typed_concat (keys : List (Key α)) (k : Key α) :
    typed limit (keys ++ [k]) = (typed limit keys).press limit k := by
  rw [typed, List.foldl_append]
  rfl

theorem press_of_closed (h : l.Closed limit) (k : Key α) : l.press limit k = l := if_pos h

theorem press_of_open (h : ¬ l.Closed limit) (k : Key α) : l.press limit k = l.edit k := if_neg h

end Line

end LineEditor
