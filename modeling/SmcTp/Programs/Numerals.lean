import Mathlib.Algebra.Ring.Nat
import Mathlib.Data.List.Induction
import Mathlib.Data.Nat.Log
import Mathlib.Tactic.Common

/-!
# Numerals

A list of digits, the most significant one first.  `value b` is the number it stands for in
base `b`, by Horner's rule, and `low b n k` are the `k` digits of least weight of `n`, which
a program finds from the right by dividing.

*Residues.*  A program that reads a number modulo `m` may look for a fall of the residue from
one digit to the next.  A number below `m` never falls, and a larger one that does not fall
is not taken for zero (`value_eq_zero_of_not_falls`).

*Numerals.*  `numeral b n` has as many digits as `n` needs and at least one.  It is what a
division loop finds that stops when nothing is left (`low_eq_numeral`), and it has no zero
in front unless it is zero (`head_numeral`).
-/

namespace Numerals

/-- The number that digits in base `b` stand for. -/
def value (b : Nat) (l : List Nat) : Nat := l.foldl (fun n d => n * b + d) 0

/-- The last `k` digits of `n`. -/
def low (b n : Nat) : Nat → List Nat
  | 0 => []
  | k + 1 => n / b ^ k % b :: low b n k

/-- The digits of `n`. -/
def numeral (b n : Nat) : List Nat := low b n (Nat.log b n + 1)

variable {b n k : Nat}

@[simp] theorem value_nil (b : Nat) : value b [] = 0 := rfl

@[simp] theorem value_concat (b : Nat) (l : List Nat) (d : Nat) :
    value b (l ++ [d]) = value b l * b + d := by
  rw [value, List.foldl_append]
  rfl

theorem value_cons (b d : Nat) (l : List Nat) :
    value b (d :: l) = d * b ^ l.length + value b l := by
  induction l using List.reverseRecOn with
  | nil => simp [value]
  | append_singleton l e ih =>
      rw [← List.cons_append, value_concat, ih, value_concat, List.length_append,
        List.length_singleton, Nat.pow_succ, Nat.add_mul, Nat.mul_assoc, Nat.add_assoc]

@[simp] theorem length_low (b n k : Nat) : (low b n k).length = k := by
  induction k with
  | zero => rfl
  | succ k ih => rw [low, List.length_cons, ih]

theorem lt_of_mem_low (hb : 0 < b) {d : Nat} (hd : d ∈ low b n k) : d < b := by
  induction k with
  | zero => cases hd
  | succ k ih =>
      rcases List.mem_cons.mp hd with rfl | hd
      · exact Nat.mod_lt _ hb
      · exact ih hd

theorem value_low (b n k : Nat) : value b (low b n k) = n % b ^ k := by
  induction k with
  | zero => rw [low, value_nil, Nat.pow_zero, Nat.mod_one]
  | succ k ih =>
      rw [low, value_cons, length_low, ih, Nat.mod_pow_succ, Nat.mul_comm, Nat.add_comm]

theorem value_low_of_lt (h : n < b ^ k) : value b (low b n k) = n := by
  rw [value_low, Nat.mod_eq_of_lt h]

/-- The digits that a loop has found when nothing is left to divide. -/
theorem low_eq_numeral (hlt : n < b ^ (k + 1)) (hle : k = 0 ∨ b ^ k ≤ n) :
    low b n (k + 1) = numeral b n := by
  have hlog : Nat.log b n = k := by
    rcases hle with rfl | hle
    · exact Nat.log_of_lt (by rwa [Nat.zero_add, Nat.pow_one] at hlt)
    · exact Nat.log_eq_of_pow_le_of_lt_pow hle hlt
  rw [numeral, hlog]

theorem lt_of_mem_numeral (hb : 0 < b) {d : Nat} (hd : d ∈ numeral b n) : d < b :=
  lt_of_mem_low hb hd

theorem numeral_ne_nil (b n : Nat) : numeral b n ≠ [] := List.cons_ne_nil _ _

theorem value_numeral (hb : 1 < b) (n : Nat) : value b (numeral b n) = n :=
  value_low_of_lt (Nat.lt_pow_succ_log_self hb n)

/-- Nothing is left after `k` divisions, one at least. -/
theorem divided_iff (hb : 1 < b) : (n / b ^ k = 0 ∧ k ≠ 0) ↔ Nat.log b n + 1 ≤ k := by
  have hpos : 0 < b ^ k := Nat.pow_pos (Nat.zero_lt_of_lt hb)
  rw [Nat.div_eq_zero_iff_lt hpos, Nat.succ_le_iff]
  constructor
  · rintro ⟨hlt, hk⟩
    exact Nat.log_lt_of_lt_pow' hk hlt
  · intro hlog
    exact ⟨Nat.lt_pow_of_log_lt hb hlog, Nat.ne_zero_of_lt hlog⟩

/-- A numeral that starts with a zero is zero. -/
theorem head_numeral (hb : 1 < b) (h : (numeral b n).head? = some 0) : numeral b n = [0] := by
  have hzero : n / b ^ Nat.log b n % b = 0 := Option.some.inj h
  have hlt : n / b ^ Nat.log b n < b := by
    rw [Nat.div_lt_iff_lt_mul (Nat.pow_pos (Nat.zero_lt_of_lt hb)), ← Nat.pow_succ']
    exact Nat.lt_pow_succ_log_self hb n
  rw [Nat.mod_eq_of_lt hlt, Nat.div_eq_zero_iff] at hzero
  have hn : n = 0 := by
    by_contra hn
    have hle := Nat.pow_log_le_self b hn
    have hpos : 0 < b ^ Nat.log b n := Nat.pow_pos (Nat.zero_lt_of_lt hb)
    omega
  rw [hn, numeral, Nat.log_zero_right, low, Nat.zero_div, Nat.zero_mod]
  rfl

/-! ## Residues -/

section Residues

variable {m : Nat} {l : List Nat}

/-- The residue of the number read so far falls at some digit. -/
def Falls (b m : Nat) (l : List Nat) : Prop :=
  ∃ p d, p ++ [d] <+: l ∧ value b (p ++ [d]) % m < value b p % m

theorem not_falls_nil (b m : Nat) : ¬ Falls b m [] := by
  rintro ⟨p, d, hp, -⟩
  simp at hp

theorem falls_concat_iff {d : Nat} :
    Falls b m (l ++ [d]) ↔ Falls b m l ∨ value b (l ++ [d]) % m < value b l % m := by
  constructor
  · rintro ⟨p, e, hp, hfall⟩
    rcases List.prefix_concat_iff.mp hp with heq | hp
    · obtain ⟨rfl, rfl⟩ := List.append_singleton_inj.mp heq
      exact .inr hfall
    · exact .inl ⟨p, e, hp, hfall⟩
  · rintro (⟨p, e, hp, hfall⟩ | hfall)
    · exact ⟨p, e, hp.trans (List.prefix_append _ _), hfall⟩
    · exact ⟨l, d, List.prefix_refl _, hfall⟩

theorem not_falls_of_lt (hb : 0 < b) (hlt : value b l < m) : ¬ Falls b m l := by
  induction l using List.reverseRecOn with
  | nil => exact not_falls_nil b m
  | append_singleton l d ih =>
      have hle : value b l ≤ value b (l ++ [d]) := by
        rw [value_concat]
        exact Nat.le_add_right_of_le (Nat.le_mul_of_pos_right _ hb)
      rw [falls_concat_iff, not_or, Nat.mod_eq_of_lt hlt, Nat.mod_eq_of_lt (hle.trans_lt hlt)]
      exact ⟨ih (hle.trans_lt hlt), Nat.not_lt.mpr hle⟩

/-- A number that is taken for zero without a fall is zero. -/
theorem value_eq_zero_of_not_falls (hl : ∀ d ∈ l, d < m) (hfalls : ¬ Falls b m l)
    (hzero : value b l % m = 0) : value b l = 0 := by
  induction l using List.reverseRecOn with
  | nil => rfl
  | append_singleton l d ih =>
      rw [falls_concat_iff, not_or, hzero, Nat.not_lt, Nat.le_zero] at hfalls
      have hrest := ih (fun e he => hl e (List.mem_append_left _ he)) hfalls.1 hfalls.2
      have hd : d < m := hl d (List.mem_append_right _ (List.mem_singleton.mpr rfl))
      rw [value_concat, hrest, Nat.zero_mul, Nat.zero_add] at hzero ⊢
      rwa [Nat.mod_eq_of_lt hd] at hzero

end Residues

end Numerals
