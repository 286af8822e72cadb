import Mathlib.Tactic.Common

/-!
# Search in cyclic order

Positions `0 .. n-1` stand on a circle.  `first n p req` is the first position
after `p` that `req` holds of, with `p` itself tried last.

`gap n p j` is the number of positions passed over on the way from `p` to `j`.  It
turns the search into a minimisation (`first_eq_some_iff`), and two searches from
different starts into arithmetic on gaps (`first_eq_first_iff`).
-/

namespace Cyclic

/-! ## Gaps -/

/-- How many positions lie strictly between `p` and `j`, going up from `p`.  From
`p` back to `p` these are all the others. -/
def gap (n p j : Nat) : Nat := if p < j then j - p - 1 else j + n - p - 1

variable {n p j : Nat}

theorem gap_lt (hp : p < n) (hj : j < n) : gap n p j < n := by
  unfold gap
  split <;> omega

theorem gap_self (hp : p < n) : gap n p p = n - 1 := by
  unfold gap
  rw [if_neg (Nat.lt_irrefl p)]
  omega

/-- The position a gap leads to. -/
theorem add_gap_mod (hp : p < n) (hj : j < n) : (gap n p j + 1 + p) % n = j := by
  unfold gap
  split
  next hlt =>
    rw [show j - p - 1 + 1 + p = j by omega]
    exact Nat.mod_eq_of_lt hj
  next hle =>
    rw [show j + n - p - 1 + 1 + p = j + n by omega, Nat.add_mod_right]
    exact Nat.mod_eq_of_lt hj

/-- The gap that leads to a position. -/
theorem gap_add_mod {x : Nat} (hp : p < n) (hx : x < n) : gap n p ((x + 1 + p) % n) = x := by
  have hcase : (x + 1 + p) % n = x + 1 + p ∨ (x + 1 + p) % n = x + 1 + p - n ∧ n ≤ x + 1 + p := by
    rcases Nat.lt_or_ge (x + 1 + p) n with h | h
    · exact .inl (Nat.mod_eq_of_lt h)
    · exact .inr ⟨by rw [Nat.mod_eq_sub_mod h, Nat.mod_eq_of_lt (by omega)], h⟩
  unfold gap
  split <;> omega

/-- Positions are told apart by their gaps. -/
theorem gap_injective {i j : Nat} (hp : p < n) (hi : i < n) (hj : j < n)
    (h : gap n p i = gap n p j) : i = j := by
  rw [← add_gap_mod hp hi, ← add_gap_mod hp hj, h]

/-- Moving the start from `p` to `k`: what lies beyond `k` comes nearer. -/
theorem gap_of_gap_lt {k : Nat} (hp : p < n) (hk : k < n) (hj : j < n)
    (h : gap n p k < gap n p j) : gap n k j = gap n p j - gap n p k - 1 := by
  unfold gap at *
  split at h <;> split at h <;> split <;> omega

/-- Moving the start from `p` to `k`: what lies up to `k` goes behind the rest. -/
theorem gap_of_gap_le {k : Nat} (hp : p < n) (hk : k < n) (hj : j < n)
    (h : gap n p j ≤ gap n p k) : gap n k j = gap n p j + (n - 1 - gap n p k) := by
  unfold gap at *
  split at h <;> split at h <;> split <;> omega

/-! ## The search -/

/-- The positions after `p`, in the order the search tries them. -/
def candidates (n p : Nat) : List Nat := (List.range n).map fun x => (x + 1 + p) % n

/-- The first position after `p` that `req` holds of. -/
def first (n p : Nat) (req : Nat → Bool) : Option Nat := (candidates n p).find? req

theorem pos_of_first {req : Nat → Bool} (h : first n p req = some j) : 0 < n := by
  cases n with
  | zero => cases h
  | succ n => exact Nat.succ_pos n

/-- The search returns the requesting position with the least gap. -/
theorem first_eq_some_iff {req : Nat → Bool} (hp : p < n) :
    first n p req = some j ↔
      j < n ∧ req j = true ∧ ∀ i < n, req i = true → gap n p j ≤ gap n p i := by
  have hn : 0 < n := Nat.lt_of_le_of_lt (Nat.zero_le p) hp
  rw [first, candidates, List.find?_map, Option.map_eq_some_iff]
  constructor
  · rintro ⟨x, hx, rfl⟩
    obtain ⟨hreq, hmem, hmin⟩ := List.find?_range_eq_some.mp hx
    have hxn : x < n := List.mem_range.mp hmem
    refine ⟨Nat.mod_lt _ hn, hreq, fun i hi hreqi => ?_⟩
    rw [gap_add_mod hp hxn]
    refine Nat.le_of_not_lt fun hlt => ?_
    have hno := hmin (gap n p i) hlt
    simp only [Function.comp_apply, add_gap_mod hp hi, hreqi] at hno
    cases hno
  · rintro ⟨hj, hreq, hmin⟩
    refine ⟨gap n p j, List.find?_range_eq_some.mpr ⟨?_, ?_, fun y hy => ?_⟩, add_gap_mod hp hj⟩
    · rw [Function.comp_apply, add_gap_mod hp hj]
      exact hreq
    · exact List.mem_range.mpr (gap_lt hp hj)
    · rw [Function.comp_apply, Bool.not_eq_true']
      refine Bool.eq_false_iff.mpr fun hy' => ?_
      have hyn : y < n := Nat.lt_trans hy (gap_lt hp hj)
      have hle := hmin _ (Nat.mod_lt _ hn) hy'
      rw [gap_add_mod hp hyn] at hle
      omega

/-- Nothing is found exactly when nothing requests. -/
theorem first_eq_none_iff {req : Nat → Bool} (hp : p < n) :
    first n p req = none ↔ ∀ i < n, req i = false := by
  have hn : 0 < n := Nat.lt_of_le_of_lt (Nat.zero_le p) hp
  rw [first, candidates, List.find?_eq_none]
  constructor
  · intro h i hi
    have hmem : i ∈ (List.range n).map fun x => (x + 1 + p) % n :=
      List.mem_map.mpr ⟨gap n p i, List.mem_range.mpr (gap_lt hp hi), add_gap_mod hp hi⟩
    exact Bool.eq_false_iff.mpr (h i hmem)
  · intro h i hi
    obtain ⟨x, -, rfl⟩ := List.mem_map.mp hi
    rw [h _ (Nat.mod_lt _ hn)]
    exact Bool.false_ne_true

theorem first_lt {req : Nat → Bool} (hp : p < n) (h : first n p req = some j) : j < n :=
  ((first_eq_some_iff hp).mp h).1

theorem first_req {req : Nat → Bool} (hp : p < n) (h : first n p req = some j) :
    req j = true := ((first_eq_some_iff hp).mp h).2.1

/-- A request that is passed over is nearer at the next search. -/
theorem gap_lt_of_first {i : Nat} {req : Nat → Bool} (hp : p < n) (hi : i < n)
    (h : first n p req = some j) (hreq : req i = true) (hne : j ≠ i) :
    gap n j i < gap n p i := by
  obtain ⟨hj, -, hmin⟩ := (first_eq_some_iff hp).mp h
  have hle : gap n p j ≤ gap n p i := hmin i hi hreq
  have hlt : gap n p j < gap n p i :=
    Nat.lt_of_le_of_ne hle fun heq => hne (gap_injective hp hj hi heq)
  rw [gap_of_gap_lt hp hj hi hlt]
  omega

/-- Two searches from `p` and from `k` agree exactly when the requests do not lie
on both sides of `k`, seen from `p`. -/
theorem first_eq_first_iff {k : Nat} {req : Nat → Bool} (hp : p < n) (hk : k < n) :
    first n k req = first n p req ↔
      ¬ ∃ i < n, ∃ j < n, req i = true ∧ req j = true ∧
        gap n p i ≤ gap n p k ∧ gap n p k < gap n p j := by
  constructor
  · -- A request on each side: the one beyond `k` wins from `k`, the other from `p`.
    rintro heq ⟨i, hi, j, hj, hreqi, hreqj, hik, hkj⟩
    cases hf : first n p req with
    | none => rw [(first_eq_none_iff hp).mp hf i hi] at hreqi; cases hreqi
    | some f =>
        obtain ⟨hfn, -, hminp⟩ := (first_eq_some_iff hp).mp hf
        obtain ⟨-, -, hmink⟩ := (first_eq_some_iff hk).mp (heq.trans hf)
        have hfi := hminp i hi hreqi
        have hfj := hmink j hj hreqj
        rw [gap_of_gap_lt hp hk hj hkj, gap_of_gap_le hp hk hfn (Nat.le_trans hfi hik)] at hfj
        have := gap_lt hp hj
        omega
  · intro hsides
    cases hf : first n p req with
    | none => exact (first_eq_none_iff hk).mpr ((first_eq_none_iff hp).mp hf)
    | some f =>
        obtain ⟨hfn, hreqf, hminp⟩ := (first_eq_some_iff hp).mp hf
        refine (first_eq_some_iff hk).mpr ⟨hfn, hreqf, fun i hi hreqi => ?_⟩
        have hfi := hminp i hi hreqi
        rcases Nat.lt_or_ge (gap n p k) (gap n p f) with hkf | hfk
        · have hki : gap n p k < gap n p i := Nat.lt_of_lt_of_le hkf hfi
          rw [gap_of_gap_lt hp hk hfn hkf, gap_of_gap_lt hp hk hi hki]
          omega
        · have hik : gap n p i ≤ gap n p k := by
            refine Nat.le_of_not_lt fun hki => hsides ?_
            exact ⟨f, hfn, i, hi, hreqf, hreqi, hfk, hki⟩
          rw [gap_of_gap_le hp hk hfn hfk, gap_of_gap_le hp hk hi hik]
          omega

end Cyclic
