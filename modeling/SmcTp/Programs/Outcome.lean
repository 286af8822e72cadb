import Mathlib.Tactic.Common

/-!
# Outcomes of a call

A call with a bound on the passes of its loops returns, throws or is still running.
`Outcome` is the monad of such calls: what comes after a call runs only when it returns.

*Triples.*  `x.Meets Q E` says that what `x` returns satisfies `Q` and what it throws
satisfies `E`.  A call that is still running meets everything, so termination is a
statement of its own (`x ≠ .running`).

*Bounds.*  `x.Within y` says that `y` is what `x` comes to with more passes.  Sequencing and
loops are monotone, so a call comes to one result whatever the bound.

*Loops.*  `forLoop` is the loop `for (i = i0; cond i; i = next i) body`.  `Visits` lists
the values of the loop variable when the loop ends without a throw, and
`forLoop_meets` is the invariant rule, with an invariant over the values so far.  `forBelow`
is a loop that counts up to a number known before.
-/

namespace Programs

universe u v w

/-- What a call comes to. -/
inductive Outcome (ε : Type u) (α : Type v) where
  | running
  | throws (e : ε)
  | returns (a : α)
deriving DecidableEq, Repr

namespace Outcome

variable {ε : Type u} {α β : Type v}

/-- What comes after a call. -/
def bind (x : Outcome ε α) (f : α → Outcome ε β) : Outcome ε β :=
  match x with
  | running => running
  | throws e => throws e
  | returns a => f a

instance : Monad (Outcome ε) where
  pure := returns
  bind := bind

instance : LawfulMonad (Outcome ε) :=
  LawfulMonad.mk' _ (fun x => by cases x <;> rfl) (fun _ _ => rfl)
    (fun x _ _ => by cases x <;> rfl)

@[simp] theorem pure_eq (a : α) : (pure a : Outcome ε α) = .returns a := rfl

@[simp] theorem running_bind (f : α → Outcome ε β) :
    (Outcome.running : Outcome ε α) >>= f = .running := rfl

@[simp] theorem throws_bind (e : ε) (f : α → Outcome ε β) :
    (Outcome.throws e : Outcome ε α) >>= f = .throws e := rfl

@[simp] theorem returns_bind (a : α) (f : α → Outcome ε β) :
    (Outcome.returns a : Outcome ε α) >>= f = f a := rfl

/-- What a call returns satisfies `Q`, what it throws satisfies `E`. -/
def Meets (x : Outcome ε α) (Q : α → Prop) (E : ε → Prop) : Prop :=
  match x with
  | running => True
  | throws e => E e
  | returns a => Q a

section Triples

variable {x : Outcome ε α} {Q Q' : α → Prop} {E E' : ε → Prop}

theorem Meets.returned {a : α} (h : x.Meets Q E) (hx : x = .returns a) : Q a := by
  rwa [hx] at h

theorem Meets.thrown {e : ε} (h : x.Meets Q E) (hx : x = .throws e) : E e := by
  rwa [hx] at h

theorem Meets.imp (h : x.Meets Q E) (hQ : ∀ a, Q a → Q' a) (hE : ∀ e, E e → E' e) :
    x.Meets Q' E' := by
  cases x with
  | running => trivial
  | throws e => exact hE e h
  | returns a => exact hQ a h

theorem Meets.bind {f : α → Outcome ε β} {R : β → Prop} (h : x.Meets Q E)
    (hf : ∀ a, Q a → (f a).Meets R E) : (x >>= f).Meets R E := by
  cases x with
  | running => trivial
  | throws e => exact h
  | returns a => exact hf a h

theorem bind_ne_running {f : α → Outcome ε β} (hx : x ≠ .running)
    (hf : ∀ a, x = .returns a → f a ≠ .running) : x >>= f ≠ .running := by
  cases x with
  | running => exact absurd rfl hx
  | throws e => simp
  | returns a => exact hf a rfl

theorem forM_meets {l : List α} {f : α → Outcome ε PUnit} {P : α → Prop}
    (hf : ∀ a ∈ l, (f a).Meets (fun _ => P a) E) :
    (l.forM f).Meets (fun _ => ∀ a ∈ l, P a) E := by
  induction l with
  | nil => exact fun _ h => absurd h List.not_mem_nil
  | cons a l ih =>
      refine (hf a List.mem_cons_self).bind fun _ ha => ?_
      refine (ih fun b hb => hf b (List.mem_cons_of_mem _ hb)).imp ?_ fun _ he => he
      intro _ hl b hb
      rcases List.mem_cons.mp hb with rfl | hb
      · exact ha
      · exact hl b hb

end Triples

section Folds

variable {σ : Type v} {ι : Type w}

/-- The invariant rule of a fold, with an invariant over the elements so far. -/
theorem foldlM_meets {f : σ → ι → Outcome ε σ} {P : List ι → σ → Prop} {E : ε → Prop}
    {l : List ι} (hf : ∀ r a s, a ∈ l → P r s → (f s a).Meets (P (r ++ [a])) E) {r : List ι}
    {s : σ} (hP : P r s) : (l.foldlM f s).Meets (P (r ++ l)) E := by
  induction l generalizing r s with
  | nil => rwa [List.append_nil]
  | cons a l ih =>
      rw [List.foldlM_cons]
      refine (hf r a s List.mem_cons_self hP).bind fun s' hs' => ?_
      have hrest := ih (fun r b s hb => hf r b s (List.mem_cons_of_mem _ hb)) hs'
      rwa [List.append_assoc] at hrest

theorem foldlM_ne_running {f : σ → ι → Outcome ε σ} {l : List ι}
    (hf : ∀ a ∈ l, ∀ s, f s a ≠ .running) (s : σ) : l.foldlM f s ≠ .running := by
  induction l generalizing s with
  | nil => simp
  | cons a l ih =>
      rw [List.foldlM_cons]
      exact bind_ne_running (hf a List.mem_cons_self s) fun s' _ =>
        ih (fun b hb => hf b (List.mem_cons_of_mem _ hb)) s'

end Folds

/-! ## More passes -/

/-- What `x` comes to is what `y` comes to, unless `x` is still running. -/
def Within (x y : Outcome ε α) : Prop := x ≠ .running → y = x

theorem Within.refl (x : Outcome ε α) : x.Within x := fun _ => rfl

theorem running_within (y : Outcome ε α) : (Outcome.running : Outcome ε α).Within y :=
  fun h => absurd rfl h

theorem Within.bind {x y : Outcome ε α} {f g : α → Outcome ε β} (h : x.Within y)
    (hf : ∀ a, (f a).Within (g a)) : (x >>= f).Within (y >>= g) := by
  cases x with
  | running => exact running_within _
  | throws e =>
      rw [h (by simp)]
      exact .refl _
  | returns a =>
      rw [h (by simp)]
      exact hf a

theorem forM_within {f g : α → Outcome ε PUnit} (hf : ∀ a, (f a).Within (g a)) (l : List α) :
    (l.forM f).Within (l.forM g) := by
  induction l with
  | nil => exact .refl _
  | cons a l ih => exact (hf a).bind fun _ => ih

theorem foldlM_within {σ : Type v} {ι : Type w} {f g : σ → ι → Outcome ε σ}
    (hf : ∀ s a, (f s a).Within (g s a)) (l : List ι) (s : σ) :
    (l.foldlM f s).Within (l.foldlM g s) := by
  induction l generalizing s with
  | nil => exact .refl _
  | cons a l ih =>
      rw [List.foldlM_cons, List.foldlM_cons]
      exact (hf s a).bind fun s' => ih s'

/-- Two bounds that a call both keeps to give the same result. -/
theorem eq_of_within {f : Nat → Outcome ε α} (hf : ∀ n m, n ≤ m → (f n).Within (f m)) {n m : Nat}
    (hn : f n ≠ .running) (hm : f m ≠ .running) : f n = f m := by
  rcases Nat.le_total n m with hle | hle
  · exact (hf n m hle hn).symm
  · exact hf m n hle hm

end Outcome

/-! ## Loops -/

section Loops

variable {ε : Type u} {ι : Type w} {σ : Type v}

/-- `for (i = i0; cond i; i = next i) body`, for at most so many tests of `cond`. -/
def forLoop (cond : ι → Bool) (next : ι → ι) (body : ι → σ → Outcome ε σ) :
    Nat → ι → σ → Outcome ε σ
  | 0, _, _ => .running
  | n + 1, i, s =>
      if cond i then body i s >>= forLoop cond next body n (next i) else .returns s

/-- The values of the loop variable, from `i` to the end of the loop. -/
inductive Visits (cond : ι → Bool) (next : ι → ι) : ι → List ι → Prop where
  | stop {i : ι} : cond i = false → Visits cond next i []
  | pass {i : ι} {l : List ι} :
      cond i = true → Visits cond next (next i) l → Visits cond next i (i :: l)

variable {cond : ι → Bool} {next : ι → ι} {body : ι → σ → Outcome ε σ}

/-- The invariant rule.  `P` is about the values so far and the state, `R` about a value
alone. -/
theorem forLoop_meets_from {P : List ι → σ → Prop} {R : ι → Prop} {E : ε → Prop}
    (hnext : ∀ i, R i → cond i = true → R (next i))
    (hbody : ∀ l i s, R i → cond i = true → P l s → (body i s).Meets (P (l ++ [i])) E)
    (n : Nat) {i : ι} {s : σ} {l : List ι} (hR : R i) (hP : P l s) :
    (forLoop cond next body n i s).Meets (fun s' => ∃ r, Visits cond next i r ∧ P (l ++ r) s')
      E := by
  induction n generalizing i s l with
  | zero => trivial
  | succ n ih =>
      unfold forLoop
      cases hcond : cond i with
      | false => exact ⟨[], .stop hcond, by rwa [List.append_nil]⟩
      | true =>
          refine (hbody l i s hR hcond hP).bind fun s' hs' => ?_
          refine (ih (hnext i hR hcond) hs').imp ?_ fun _ he => he
          rintro s'' ⟨r, hr, hs''⟩
          exact ⟨i :: r, .pass hcond hr, by rwa [List.append_assoc] at hs''⟩

theorem forLoop_meets {P : List ι → σ → Prop} {R : ι → Prop} {E : ε → Prop}
    (hnext : ∀ i, R i → cond i = true → R (next i))
    (hbody : ∀ l i s, R i → cond i = true → P l s → (body i s).Meets (P (l ++ [i])) E)
    {n : Nat} {i : ι} {s : σ} (hR : R i) (hP : P [] s) :
    (forLoop cond next body n i s).Meets (fun s' => ∃ l, Visits cond next i l ∧ P l s') E :=
  forLoop_meets_from hnext hbody n hR hP

/-- A loop that ends does so within a bound above the number of its passes. -/
theorem Visits.ne_running {i : ι} {l : List ι} (h : Visits cond next i l)
    (hbody : ∀ i s, body i s ≠ .running) {n : Nat} (hn : l.length < n) (s : σ) :
    forLoop cond next body n i s ≠ .running := by
  induction h generalizing n s with
  | stop hcond =>
      obtain ⟨n, rfl⟩ := Nat.exists_eq_succ_of_ne_zero (Nat.ne_of_gt hn)
      simp [forLoop, hcond]
  | pass hcond _ ih =>
      obtain ⟨n, rfl⟩ := Nat.exists_eq_succ_of_ne_zero (Nat.ne_of_gt (Nat.zero_lt_of_lt hn))
      rw [forLoop, hcond]
      exact Outcome.bind_ne_running (hbody _ s) fun s' _ => ih (Nat.lt_of_succ_lt_succ hn) s'

/-- A loop that ends is its body on the values it visits, one after the other. -/
theorem Visits.forLoop_eq {i : ι} {l : List ι} (h : Visits cond next i l) {n : Nat}
    (hn : l.length < n) (s : σ) :
    forLoop cond next body n i s = l.foldlM (fun s i => body i s) s := by
  induction h generalizing n s with
  | stop hcond =>
      obtain ⟨n, rfl⟩ := Nat.exists_eq_succ_of_ne_zero (Nat.ne_of_gt hn)
      rw [forLoop, hcond]
      rfl
  | @pass i l hcond _ ih =>
      obtain ⟨n, rfl⟩ := Nat.exists_eq_succ_of_ne_zero (Nat.ne_of_gt (Nat.zero_lt_of_lt hn))
      rw [forLoop, if_pos hcond, List.foldlM_cons]
      congr 1
      funext s'
      exact ih (Nat.lt_of_succ_lt_succ hn) s'

/-- The rule of total correctness: a loop whose passes return, keep `P` and lower `r`
returns, with `P` at the value that ends it. -/
theorem forLoop_returns {P : ι → σ → Prop} {r : ι → Nat}
    (hbody : ∀ i s, cond i = true → P i s →
      r (next i) < r i ∧ ∃ s', body i s = .returns s' ∧ P (next i) s')
    {n : Nat} {i : ι} {s : σ} (hn : r i < n) (hP : P i s) :
    ∃ i' s', forLoop cond next body n i s = .returns s' ∧ cond i' = false ∧ P i' s' := by
  induction n generalizing i s with
  | zero => exact absurd hn (Nat.not_lt_zero _)
  | succ n ih =>
      unfold forLoop
      cases hcond : cond i with
      | false => exact ⟨i, s, rfl, hcond, hP⟩
      | true =>
          obtain ⟨hlower, s', hs', hP'⟩ := hbody i s hcond hP
          rw [if_pos rfl, hs']
          exact ih (Nat.lt_of_lt_of_le hlower (Nat.le_of_lt_succ hn)) hP'

theorem forLoop_within {body' : ι → σ → Outcome ε σ}
    (hbody : ∀ i s, (body i s).Within (body' i s)) {n m : Nat} (hle : n ≤ m) (i : ι) (s : σ) :
    (forLoop cond next body n i s).Within (forLoop cond next body' m i s) := by
  induction n generalizing m i s with
  | zero => exact Outcome.running_within _
  | succ n ih =>
      obtain ⟨m, rfl⟩ := Nat.exists_eq_add_of_le' (Nat.le_trans (Nat.le_add_left 1 n) hle)
      unfold forLoop
      split
      · exact (hbody i s).bind fun s' => ih (Nat.le_of_succ_le_succ hle) (next i) s'
      · exact .refl _

end Loops

section Counting

variable {ε : Type u} {σ : Type v}

/-- `for (i = 0; i < n; i++) body`. -/
def forBelow (body : Nat → σ → Outcome ε σ) : Nat → σ → Outcome ε σ
  | 0, s => .returns s
  | n + 1, s => forBelow body n s >>= body n

variable {body : Nat → σ → Outcome ε σ} {P : Nat → σ → Prop} {n : Nat} {s : σ}

theorem forBelow_meets {E : ε → Prop}
    (hbody : ∀ i < n, ∀ s, P i s → (body i s).Meets (P (i + 1)) E) (hP : P 0 s) :
    (forBelow body n s).Meets (P n) E := by
  induction n with
  | zero => exact hP
  | succ n ih =>
      exact (ih fun i hi => hbody i (Nat.lt_succ_of_lt hi)).bind (hbody n (Nat.lt_succ_self n))

theorem forBelow_returns
    (hbody : ∀ i < n, ∀ s, P i s → ∃ s', body i s = .returns s' ∧ P (i + 1) s') (hP : P 0 s) :
    ∃ s', forBelow body n s = .returns s' ∧ P n s' := by
  induction n with
  | zero => exact ⟨s, rfl, hP⟩
  | succ n ih =>
      obtain ⟨s', hs', hP'⟩ := ih fun i hi => hbody i (Nat.lt_succ_of_lt hi)
      rw [forBelow, hs', Outcome.returns_bind]
      exact hbody n (Nat.lt_succ_self n) s' hP'

end Counting

end Programs
