import Mathlib.Data.Nat.ModEq
import Mathlib.Tactic.Common

/-!
# Walks over lines

An address space of `count` lines of `size` bytes each, in which addresses come round.  A walk
goes from an address in steps of one line, so it meets as many lines as it has steps.

A range of bytes may meet one line more than a walk of its length, when it starts inside of
a line.  `walk_covers_iff` says which ranges a walk covers.
-/

namespace LineWalk

variable {size count : Nat}

/-- The line of an address, which may be beyond the space. -/
def line (size count a : Nat) : Nat := a / size % count

theorem line_eq_of_lt {a : Nat} (ha : a < size * count) : line size count a = a / size :=
  Nat.mod_eq_of_lt (Nat.div_lt_of_lt_mul ha)

/-- Addresses come round. -/
theorem line_mod (a : Nat) : line size count (a % (size * count)) = line size count a := by
  rw [line, line, Nat.mod_mul_right_div_self, Nat.mod_mod]

/-- A step of the walk is a line. -/
theorem line_step (hsize : 0 < size) (a m : Nat) :
    line size count (a + size * m) = (a / size + m) % count := by
  rw [line, Nat.add_mul_div_left _ _ hsize]

/-- The line of a byte behind `a`. -/
theorem line_add (hsize : 0 < size) (a j : Nat) :
    line size count (a + j) = (a / size + (a % size + j) / size) % count := by
  have ha : a + j = a % size + j + size * (a / size) := by
    have := Nat.mod_add_div a size
    omega
  rw [line, ha, Nat.add_mul_div_left _ _ hsize, Nat.add_comm]

/-- The bytes of a range are in the lines of a walk that does not come round, if and only if
the range ends in one of them. -/
theorem walk_covers_iff (hsize : 0 < size) {steps : Nat} (hsteps : steps < count) (a n : Nat) :
    (∀ j < n, ∃ m < steps, line size count (a + size * m) = line size count (a + j)) ↔
      n = 0 ∨ (a % size + (n - 1)) / size < steps := by
  constructor
  · intro hcovers
    by_contra hmiss
    rw [not_or, Nat.not_lt, Nat.le_div_iff_mul_le hsize] at hmiss
    obtain ⟨hn, hreach⟩ := hmiss
    -- the first byte behind the last line of the walk
    have hfirst : ∃ j < n, (a % size + j) / size = steps := by
      have hmod : a % size < size := Nat.mod_lt a hsize
      rcases Nat.eq_zero_or_pos steps with rfl | hpos
      · exact ⟨0, Nat.pos_of_ne_zero hn, Nat.div_eq_of_lt hmod⟩
      · have hle : size ≤ steps * size := Nat.le_mul_of_pos_left size hpos
        refine ⟨steps * size - a % size, by omega, ?_⟩
        rw [Nat.add_sub_cancel' (by omega), Nat.mul_div_cancel _ hsize]
    obtain ⟨j, hj, hline⟩ := hfirst
    obtain ⟨m, hm, hmeets⟩ := hcovers j hj
    rw [line_step hsize, line_add hsize, hline] at hmeets
    have hsame : m ≡ steps [MOD count] := Nat.ModEq.add_left_cancel' (a / size) hmeets
    rw [Nat.ModEq, Nat.mod_eq_of_lt (by omega), Nat.mod_eq_of_lt hsteps] at hsame
    exact absurd hsame (Nat.ne_of_lt hm)
  · rintro (rfl | hend) j hj
    · exact absurd hj (Nat.not_lt_zero j)
    · refine ⟨(a % size + j) / size, Nat.lt_of_le_of_lt (Nat.div_le_div_right ?_) hend, ?_⟩
      · omega
      · rw [line_step hsize, line_add hsize]

/-- The range is as long as the walk, rounded up to lines. -/
theorem ends_within_iff (hsize : 0 < size) (a : Nat) {n : Nat} (hn : 0 < n) :
    (a % size + (n - 1)) / size < (n + size - 1) / size ↔ a % size + (n - 1) % size < size := by
  have hsteps : (n + size - 1) / size = (n - 1) / size + 1 := by
    rw [← Nat.add_div_right _ hsize]
    congr 1
    omega
  have hrange : (a % size + (n - 1)) / size =
      (a % size + (n - 1) % size) / size + (n - 1) / size := by
    have hsplit : a % size + (n - 1) = a % size + (n - 1) % size + size * ((n - 1) / size) := by
      have := Nat.mod_add_div (n - 1) size
      omega
    rw [hsplit, Nat.add_mul_div_left _ _ hsize]
  rw [hsteps, hrange, Nat.add_comm, Nat.add_lt_add_iff_left, Nat.div_lt_iff_lt_mul hsize,
    Nat.one_mul]

end LineWalk
