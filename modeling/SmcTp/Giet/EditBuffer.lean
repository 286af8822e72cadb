import Mathlib.Data.List.ReduceOption
import SmcTp.Giet.Characters
import SmcTp.Programs.LineEditor

/-!
# Edit buffers

The functions that read lines poll the terminal for a byte at a time (`poll`), and only the
bytes matter (`foldl_poll`).

They keep a line in a buffer with an index.  A character goes to the cell of the index, which
then goes up, and a deletion takes the index down.  `Shows size b t` says that the cells
below the index hold the text `t`, and that no cell beyond `size` has been written.
-/

namespace SmcTp.Giet

open LineEditor

/-- A poll: `sys_call(SYSCALL_TTY_READ_IRQ, ..)` returns 1 with a byte, which is taken, or 0. -/
def poll {σ : Type} (take : σ → Byte → σ) (s : σ) : Option Byte → σ
  | none => s
  | some byte => take s byte

theorem foldl_poll {σ : Type} (take : σ → Byte → σ) (s : σ) (polls : List (Option Byte)) :
    polls.foldl (poll take) s = polls.reduceOption.foldl take s := by
  induction polls generalizing s with
  | nil => rfl
  | cons byte polls ih =>
      cases byte with
      | none =>
          rw [List.reduceOption_cons_of_none]
          exact ih s
      | some c =>
          rw [List.reduceOption_cons_of_some]
          exact ih (take s c)

/-- A buffer and its index, with the cells that have been written. -/
structure EditBuffer where
  buf : Nat → Byte
  index : Word
  stored : List Nat

namespace EditBuffer

/-- The buffer before the first character. -/
def start (buf : Nat → Byte) : EditBuffer := { buf, index := 0, stored := [] }

/-- `buf[index] = c` -/
def put (b : EditBuffer) (c : Byte) : EditBuffer :=
  { b with
    buf := Function.update b.buf b.index.toNat c
    stored := b.stored ++ [b.index.toNat] }

/-- `buf[index] = c; index++` -/
def push (b : EditBuffer) (c : Byte) : EditBuffer := { b.put c with index := b.index + 1 }

/-- `index--` -/
def pop (b : EditBuffer) : EditBuffer := { b with index := b.index - 1 }

/-- The text in the buffer. -/
structure Shows (size : Nat) (b : EditBuffer) (t : List Byte) : Prop where
  index : b.index.toNat = t.length
  holds : cells b.buf 0 t.length = t
  inside : ∀ i ∈ b.stored, i < size

variable {size : Nat} {b : EditBuffer} {t : List Byte}

theorem shows_start (size : Nat) (buf : Nat → Byte) : Shows size (start buf) [] :=
  ⟨rfl, rfl, fun _ hi => absurd hi List.not_mem_nil⟩

theorem Shows.cells_put (h : Shows size b t) (c : Byte) :
    cells (b.put c).buf 0 (t.length + 1) = t ++ [c] := by
  have hcells : cells (Function.update b.buf (0 + t.length) c) 0 (t.length + 1) =
      cells b.buf 0 t.length ++ [c] := cells_update_behind
  rw [Nat.zero_add, h.holds] at hcells
  rw [put, h.index]
  exact hcells

theorem Shows.inside_put (h : Shows size b t) (hroom : t.length < size) (c : Byte) :
    ∀ i ∈ (b.put c).stored, i < size := by
  intro i hi
  rcases List.mem_append.mp hi with hi | hi
  · exact h.inside i hi
  · rw [List.mem_singleton.mp hi, h.index]
    exact hroom

theorem Shows.push (h : Shows size b t) (hroom : t.length < size) (hsize : size < 2 ^ 32)
    (c : Byte) : Shows size (b.push c) (t ++ [c]) := by
  have hlength : (t ++ [c]).length = t.length + 1 := List.length_append
  refine ⟨?_, ?_, h.inside_put hroom c⟩
  · have hone : (1 : Word).toNat = 1 := rfl
    have hindex := h.index
    rw [hlength, EditBuffer.push, BitVec.toNat_add, hone]
    omega
  · rw [hlength]
    exact h.cells_put c

theorem Shows.pop (h : Shows size b t) (hne : t ≠ []) : Shows size b.pop t.dropLast := by
  obtain ⟨rest, c, rfl⟩ := (List.eq_nil_or_concat' t).resolve_left hne
  have hlength : (rest ++ [c]).length = rest.length + 1 := List.length_append
  rw [List.dropLast_concat]
  refine ⟨?_, ?_, h.inside⟩
  · have hindex := h.index
    have hone : (1 : Word) ≤ b.index := by
      rw [BitVec.le_def, hindex, hlength]
      exact Nat.succ_pos _
    rw [EditBuffer.pop, BitVec.toNat_sub_of_le hone, hindex, hlength]
    rfl
  · have hcells := h.holds
    rw [hlength, cells_concat] at hcells
    exact (List.append_inj' hcells rfl).1

/-- The index is at the start of the buffer only when there is no text. -/
theorem Shows.index_pos_iff (h : Shows size b t) : 0 < b.index ↔ t ≠ [] := by
  rw [BitVec.lt_def, h.index]
  exact List.length_pos_iff

end EditBuffer

end SmcTp.Giet
