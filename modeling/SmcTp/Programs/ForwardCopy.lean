import Mathlib.Algebra.Ring.Nat
import Mathlib.Data.Nat.ModEq
import Mathlib.Logic.Function.Basic
import Mathlib.Tactic.Common

/-!
# Copying upwards

`copy m dst src n` copies `n` cells one by one, from the first one on, in a memory whose
addresses are taken modulo `2^w`.  The two ranges may overlap, and either may come round to
zero.

`copy_at` says what is copied in every case.  If `dst` is `d` cells above `src` in the middle
of the range, the first `d` cells are repeated.  If it is not, the range is copied as it was,
and then it does not matter in how many pieces (`copy_add`), nor whether a piece is read as a
whole before it is written (`copy_eq_move`).
-/

namespace Programs.ForwardCopy

variable {w : Nat} {β : Type*} {m : BitVec w → β} {dst src a : BitVec w} {n k i : Nat}

/-- `n` cells, one by one. -/
def copy (m : BitVec w → β) (dst src : BitVec w) : Nat → BitVec w → β
  | 0 => m
  | n + 1 => copy (Function.update m dst (m src)) (dst + 1) (src + 1) n

/-- `n` cells at once. -/
def move (m : BitVec w → β) (dst src : BitVec w) (n : Nat) (a : BitVec w) : β :=
  if (a - dst).toNat < n then m (src + (a - dst)) else m a

theorem add_one_add (p : BitVec w) (i : Nat) :
    p + 1 + BitVec.ofNat w i = p + BitVec.ofNat w (i + 1) := by
  rw [BitVec.ofNat_add, BitVec.add_assoc, BitVec.add_comm 1]
  rfl

theorem copy_add (m : BitVec w → β) (dst src : BitVec w) (k n : Nat) :
    copy m dst src (k + n) =
      copy (copy m dst src k) (dst + BitVec.ofNat w k) (src + BitVec.ofNat w k) n := by
  induction k generalizing m dst src with
  | zero => simp [copy]
  | succ k ih =>
      rw [Nat.succ_add, copy, copy, ih, add_one_add, add_one_add]

/-! ## What is copied -/

/-- An address is reached after as many cells as it is away. -/
theorem add_ofNat_eq_iff (hi : i < 2 ^ w) :
    dst + BitVec.ofNat w i = a ↔ (a - dst).toNat = i := by
  constructor
  · rintro rfl
    rw [BitVec.add_comm, BitVec.add_sub_cancel, BitVec.toNat_ofNat, Nat.mod_eq_of_lt hi]
  · rintro rfl
    rw [BitVec.ofNat_toNat, BitVec.setWidth_eq, BitVec.add_comm, BitVec.sub_add_cancel]

/-- The other cells are left alone. -/
theorem copy_of_out (h : ∀ i < n, dst + BitVec.ofNat w i ≠ a) : copy m dst src n a = m a := by
  induction n generalizing m dst src with
  | zero => rfl
  | succ n ih =>
      have hfirst : dst ≠ a := by simpa using h 0 (Nat.zero_lt_succ n)
      rw [copy, ih, Function.update_of_ne hfirst.symm]
      intro i hi
      have hnext := h (i + 1) (Nat.succ_lt_succ hi)
      rwa [← add_one_add] at hnext

/-- The remainder of the next number, by `d` or by zero. -/
theorem succ_mod (i d : Nat) : (i + 1) % d = if d = i % d + 1 then 0 else i % d + 1 := by
  rw [← Nat.mod_add_mod]
  split_ifs with hlast
  · rw [← hlast, Nat.mod_self]
  · rcases Nat.eq_zero_or_pos d with rfl | hpos
    · rw [Nat.mod_zero]
    · have hlt := Nat.mod_lt i hpos
      exact Nat.mod_eq_of_lt (by omega)

/-- Where the destination begins in the source, what comes before is repeated. -/
theorem copy_at (hn : n ≤ 2 ^ w) (hi : i < n) :
    copy m dst src n (dst + BitVec.ofNat w i) =
      m (src + BitVec.ofNat w (i % (dst - src).toNat)) := by
  induction n generalizing m dst src i with
  | zero => exact absurd hi (Nat.not_lt_zero i)
  | succ n ih =>
      rw [copy]
      cases i with
      | zero =>
          have hout : ∀ j < n, dst + 1 + BitVec.ofNat w j ≠ dst + BitVec.ofNat w 0 := by
            intro j hj heq
            rw [add_one_add, add_ofNat_eq_iff (by omega)] at heq
            simp at heq
          rw [copy_of_out hout]
          simp
      | succ i =>
          have hdiff : dst + 1 - (src + 1) = dst - src := by
            rw [BitVec.add_comm dst, BitVec.add_comm src]
            grind
          have hbound : i % (dst - src).toNat + 1 < 2 ^ w := by
            have := Nat.mod_le i (dst - src).toNat
            omega
          rw [← add_one_add, ih (by omega) (Nat.lt_of_succ_lt_succ hi), hdiff, add_one_add,
            succ_mod]
          -- the cell read may be the one just written
          split_ifs with hfirst
          · rw [(add_ofNat_eq_iff hbound).mpr hfirst, Function.update_self]
            simp
          · rw [Function.update_of_ne (mt (add_ofNat_eq_iff hbound).mp hfirst)]

/-- A range is copied as it was if the destination does not begin in it. -/
theorem copy_eq_move (hn : n ≤ 2 ^ w) (h : dst = src ∨ n ≤ (dst - src).toNat) :
    copy m dst src n = move m dst src n := by
  funext a
  unfold move
  split_ifs with hin
  · have ha : dst + BitVec.ofNat w (a - dst).toNat = a := (add_ofNat_eq_iff (by omega)).mpr rfl
    have hmod : (a - dst).toNat % (dst - src).toNat = (a - dst).toNat := by
      rcases h with rfl | hle
      · rw [BitVec.sub_self]
        exact Nat.mod_zero _
      · exact Nat.mod_eq_of_lt (Nat.lt_of_lt_of_le hin hle)
    have hcopy : copy m dst src n (dst + BitVec.ofNat w (a - dst).toNat) = _ := copy_at hn hin
    rwa [ha, hmod, BitVec.ofNat_toNat, BitVec.setWidth_eq] at hcopy
  · refine copy_of_out fun i hi heq => hin ?_
    rw [(add_ofNat_eq_iff (by omega)).mp heq]
    exact hi

end Programs.ForwardCopy
