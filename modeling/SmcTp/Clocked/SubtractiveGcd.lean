import Mathlib.Logic.Function.Iterate
import Mathlib.Tactic.Common

/-!
# The subtractive gcd engine

An engine holds two naturals and subtracts the smaller from the larger until they
are equal.  It alternates a comparison with a subtraction, so each subtraction is
one engine step of its own, guarded by the comparison before it.

`Engine.Computes g` is the loop invariant: the gcd of the two registers is `g`,
and the phase remembers the outcome of the last comparison.  A subtraction under
this invariant never goes below zero, which is what a hardware engine on machine
words needs to follow this one.

The engine started on `a` and `b` finishes if and only if the operands are equal or
both non-zero (`halts_iff`), and then within `2 * max a b + 1` steps.
-/

namespace SubtractiveGcd

/-- What an engine does at its next step. -/
inductive Phase where
  | compare
  | decA
  | decB
  | done
deriving DecidableEq, Repr

/-- The engine: a phase and the two operands. -/
structure Engine where
  phase : Phase
  a : Nat
  b : Nat
deriving DecidableEq, Repr

/-- One step of the engine. -/
def Engine.step : Engine → Engine
  | ⟨.compare, a, b⟩ =>
      if a < b then ⟨.decB, a, b⟩ else if b < a then ⟨.decA, a, b⟩ else ⟨.done, a, b⟩
  | ⟨.decA, a, b⟩ => ⟨.compare, a - b, b⟩
  | ⟨.decB, a, b⟩ => ⟨.compare, a, b - a⟩
  | ⟨.done, a, b⟩ => ⟨.done, a, b⟩

/-- What the phase says about the operands. -/
def Engine.Guarded (e : Engine) : Prop :=
  match e.phase with
  | .compare => True
  | .decA => e.b < e.a
  | .decB => e.a < e.b
  | .done => e.a = e.b

/-- The loop invariant of an engine that computes `g`. -/
structure Engine.Computes (g : Nat) (e : Engine) : Prop where
  /-- The subtractions so far kept the gcd. -/
  gcd : Nat.gcd e.a e.b = g
  /-- The phase is the outcome of the last comparison. -/
  guarded : e.Guarded

/-- An engine about to compare computes the gcd of its operands. -/
theorem Engine.computes_start (a b : Nat) :
    Engine.Computes (Nat.gcd a b) ⟨.compare, a, b⟩ := ⟨rfl, trivial⟩

theorem Engine.Computes.step {g : Nat} {e : Engine} (h : e.Computes g) :
    e.step.Computes g := by
  obtain ⟨phase, a, b⟩ := e
  obtain ⟨hgcd, hguard⟩ := h
  cases phase with
  | compare =>
      simp only [Engine.step]
      split
      next hlt => exact ⟨hgcd, hlt⟩
      next hle =>
        split
        next hlt => exact ⟨hgcd, hlt⟩
        next hle' => exact ⟨hgcd, show a = b by omega⟩
  | decA =>
      have hle : b ≤ a := Nat.le_of_lt hguard
      exact ⟨(Nat.gcd_sub_self_left hle).trans hgcd, trivial⟩
  | decB =>
      have hle : a ≤ b := Nat.le_of_lt hguard
      exact ⟨(Nat.gcd_sub_self_right hle).trans hgcd, trivial⟩
  | done => exact ⟨hgcd, hguard⟩

/-- A finished engine holds the result in both operands. -/
theorem Engine.Computes.result {g : Nat} {e : Engine} (h : e.Computes g)
    (hdone : e.phase = .done) : e.a = g ∧ e.b = g := by
  obtain ⟨phase, a, b⟩ := e
  obtain ⟨hgcd, hguard⟩ := h
  cases hdone
  have hab : a = b := hguard
  subst hab
  exact ⟨(Nat.gcd_self a).symm.trans hgcd, (Nat.gcd_self a).symm.trans hgcd⟩

theorem Engine.Computes.iterate {g : Nat} {e : Engine} (h : e.Computes g) (n : Nat) :
    (Engine.step^[n] e).Computes g := by
  induction n with
  | zero => exact h
  | succ n ih =>
      rw [Function.iterate_succ_apply']
      exact ih.step

/-! ## Termination -/

theorem Engine.iterate_decB {a b : Nat} (h : a < b) (n : Nat) :
    Engine.step^[n + 2] ⟨.compare, a, b⟩ = Engine.step^[n] ⟨.compare, a, b - a⟩ := by
  rw [Function.iterate_add_apply]
  show Engine.step^[n] (Engine.step (Engine.step ⟨.compare, a, b⟩)) = _
  simp only [Engine.step, if_pos h]

theorem Engine.iterate_decA {a b : Nat} (h : b < a) (n : Nat) :
    Engine.step^[n + 2] ⟨.compare, a, b⟩ = Engine.step^[n] ⟨.compare, a - b, b⟩ := by
  rw [Function.iterate_add_apply]
  show Engine.step^[n] (Engine.step (Engine.step ⟨.compare, a, b⟩)) = _
  simp only [Engine.step, if_neg (Nat.lt_asymm h), if_pos h]

/-- Two positive operands: every subtraction takes at least one off the larger. -/
theorem Engine.done_of_pos {a b : Nat} (ha : 0 < a) (hb : 0 < b) :
    ∃ n, n + 1 ≤ 2 * max a b ∧ (Engine.step^[n] ⟨.compare, a, b⟩).phase = .done := by
  -- on the sum of the operands, two steps at a time
  induction hsum : a + b using Nat.strongRecOn generalizing a b with
  | ind sum ih =>
    rcases Nat.lt_trichotomy a b with hlt | heq | hlt
    · obtain ⟨n, hn, hdone⟩ := ih (a + (b - a)) (by omega) ha (Nat.sub_pos_of_lt hlt) rfl
      exact ⟨n + 2, by omega, by rw [Engine.iterate_decB hlt, hdone]⟩
    · refine ⟨1, by omega, ?_⟩
      show (Engine.step ⟨.compare, a, b⟩).phase = .done
      simp [Engine.step, heq]
    · obtain ⟨n, hn, hdone⟩ := ih (a - b + b) (by omega) (Nat.sub_pos_of_lt hlt) hb rfl
      exact ⟨n + 2, by omega, by rw [Engine.iterate_decA hlt, hdone]⟩

theorem Engine.done_within {a b : Nat} (h : a = b ∨ a ≠ 0 ∧ b ≠ 0) :
    ∃ n, n ≤ 2 * max a b + 1 ∧ (Engine.step^[n] ⟨.compare, a, b⟩).phase = .done := by
  rcases h with heq | ⟨ha, hb⟩
  · refine ⟨1, by omega, ?_⟩
    show (Engine.step ⟨.compare, a, b⟩).phase = .done
    simp [Engine.step, heq]
  · obtain ⟨n, hn, hdone⟩ :=
      Engine.done_of_pos (Nat.pos_of_ne_zero ha) (Nat.pos_of_ne_zero hb)
    exact ⟨n, by omega, hdone⟩

/-- Exactly one operand is zero, and the engine has not taken it for a result. -/
structure Engine.Stuck (e : Engine) : Prop where
  zero : e.a = 0 ∨ e.b = 0
  ne : e.a ≠ e.b
  guarded : e.Guarded

theorem Engine.Stuck.phase_ne {e : Engine} (h : e.Stuck) : e.phase ≠ .done := by
  intro hdone
  have hguard := h.guarded
  rw [Engine.Guarded, hdone] at hguard
  exact h.ne hguard

/-- The subtraction of zero changes nothing, so the engine goes round for ever. -/
theorem Engine.Stuck.step {e : Engine} (h : e.Stuck) : e.step.Stuck := by
  obtain ⟨phase, a, b⟩ := e
  obtain ⟨hzero, hne, hguard⟩ := h
  simp only at hzero hne
  cases phase with
  | compare =>
      simp only [Engine.step]
      split
      next hlt => exact ⟨hzero, hne, hlt⟩
      next hle =>
        split
        next hlt => exact ⟨hzero, hne, hlt⟩
        next hle' => exact absurd (show a = b by omega) hne
  | decA =>
      have hlt : b < a := hguard
      exact ⟨show a - b = 0 ∨ b = 0 by omega, show a - b ≠ b by omega, trivial⟩
  | decB =>
      have hlt : a < b := hguard
      exact ⟨show a = 0 ∨ b - a = 0 by omega, show a ≠ b - a by omega, trivial⟩
  | done => exact absurd hguard hne

theorem Engine.Stuck.iterate {e : Engine} (h : e.Stuck) (n : Nat) :
    (Engine.step^[n] e).Stuck := by
  induction n with
  | zero => exact h
  | succ n ih =>
      rw [Function.iterate_succ_apply']
      exact ih.step

/-- The engine finishes on equal operands and on two non-zero ones. -/
theorem Engine.halts_iff (a b : Nat) :
    (∃ n, (Engine.step^[n] ⟨.compare, a, b⟩).phase = .done) ↔ a = b ∨ a ≠ 0 ∧ b ≠ 0 := by
  constructor
  · rintro ⟨n, hdone⟩
    by_contra hstuck
    have hstart : Engine.Stuck ⟨.compare, a, b⟩ :=
      ⟨show a = 0 ∨ b = 0 by omega, show a ≠ b by omega, trivial⟩
    exact (hstart.iterate n).phase_ne hdone
  · intro h
    obtain ⟨n, -, hdone⟩ := Engine.done_within h
    exact ⟨n, hdone⟩

/-! ## Machine words -/

/-- The engine whose operands are two machine words. -/
def Engine.ofWords {w : Nat} (phase : Phase) (x y : BitVec w) : Engine :=
  ⟨phase, x.toNat, y.toNat⟩

/-- The guarded subtraction on words follows the engine: it does not wrap. -/
theorem Engine.ofWords_decA {w : Nat} {x y : BitVec w}
    (h : (Engine.ofWords .decA x y).Guarded) :
    Engine.ofWords .compare (x - y) y = (Engine.ofWords .decA x y).step := by
  have hle : y ≤ x := Nat.le_of_lt (show y.toNat < x.toNat from h)
  simp only [Engine.ofWords, Engine.step, BitVec.toNat_sub_of_le hle]

theorem Engine.ofWords_decB {w : Nat} {x y : BitVec w}
    (h : (Engine.ofWords .decB x y).Guarded) :
    Engine.ofWords .compare x (y - x) = (Engine.ofWords .decB x y).step := by
  have hle : x ≤ y := Nat.le_of_lt (show x.toNat < y.toNat from h)
  simp only [Engine.ofWords, Engine.step, BitVec.toNat_sub_of_le hle]

end SubtractiveGcd
