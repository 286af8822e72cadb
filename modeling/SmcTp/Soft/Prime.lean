import SmcTp.Programs.Outcome
import Mathlib.NumberTheory.Chebyshev
import Mathlib.Tactic

/-!
# The table of primes

`soft_prime` tests one number after the other.  It divides the number by every prime of its
table, and appends it to the table if no remainder is zero.  The program ends when the table
has its 1000 entries, or on the key `q`.

*The table.*  `Table s n` says that the entries in use are the primes below `n`, in order,
and that each has been printed with its rank.  It holds before every test, because a number
that is not prime has a prime divisor below it (`forall_nth_not_dvd_iff`).

*The ends.*  There are 1000 primes below `2 ^ 14`, so that the tested number never wraps
(`lt_of_count_lt`).  Before the table is full no test fails, and then the program prints the
first 1000 primes and ends (`main_prints`).
-/

namespace SmcTp.Soft.Prime

open Programs

/-! ## The program -/

/-- A call of `tty_printf`. -/
inductive Print where
  /-- `*** Starting Prime Computation ***` -/
  | starting
  /-- `prime[%d] = %d` -/
  | prime (slot value : BitVec 32)
  /-- `prime table full` -/
  | full
deriving DecidableEq, Repr

/-- The variables of `main`, and what has been printed. -/
structure State where
  prime : Vector (BitVec 32) 1000
  testedValue : BitVec 32
  nextEmptySlot : BitVec 32
  printed : List Print

/-- How `main` stops. -/
inductive Stop where
  /-- `exit()`, after these calls of `tty_printf` -/
  | exit (printed : List Print)
  /-- An access outside of `prime`. -/
  | outOfBounds
  /-- A modulo by zero. -/
  | divideByZero
deriving DecidableEq, Repr

/-- `a % b` -/
def modulo (a b : BitVec 32) : Outcome Stop (BitVec 32) :=
  if b = 0 then .throws .divideByZero else .returns (a % b)

namespace State

variable (s : State)

/-- `prime[i]` -/
def load (i : BitVec 32) : Outcome Stop (BitVec 32) :=
  if h : i.toNat < 1000 then .returns (s.prime.get ⟨i.toNat, h⟩) else .throws .outOfBounds

/-- `prime[i] = value` -/
def store (i value : BitVec 32) : Outcome Stop State :=
  if h : i.toNat < 1000 then .returns { s with prime := s.prime.set i.toNat value h }
  else .throws .outOfBounds

/-- The body of the `for` loop. -/
def divide (i : BitVec 32) (isPrime : Bool) : Outcome Stop Bool := do
  let divisor ← s.load i
  let remainder ← modulo s.testedValue divisor
  pure (if remainder = 0 then false else isPrime)

/-- The `for` loop, from `is_prime = TRUE`. -/
def isPrime (fuel : Nat) : Outcome Stop Bool :=
  forLoop (fun i => decide (i < s.nextEmptySlot)) (· + 1) s.divide fuel 0 true

/-- The body of `if (is_prime)`. -/
def addPrime : Outcome Stop State := do
  let s' ← s.store s.nextEmptySlot s.testedValue
  let printed := s'.printed ++ [.prime s'.nextEmptySlot s'.testedValue]
  if s'.nextEmptySlot + 1 = 1000 then .throws (.exit (printed ++ [.full]))
  else pure { s' with nextEmptySlot := s'.nextEmptySlot + 1, printed }

/-- A pass of `while (1)`, in which `tty_getc_irq` reads `c`. -/
def iteration (fuel : Nat) (c : BitVec 8) : Outcome Stop State := do
  let s' ← if ← s.isPrime fuel then s.addPrime else pure s
  let s' := { s' with testedValue := s'.testedValue + 1 }
  -- `c == 'q'`
  if c = 113 then .throws (.exit s'.printed) else pure s'

end State

/-- `main`, up to the end of the pass that reads the last of these keys.  The entries of the
table have any value at first. -/
def main (fuel : Nat) (prime : Vector (BitVec 32) 1000) (keys : List (BitVec 8)) :
    Outcome Stop State :=
  keys.foldlM (fun s c => s.iteration fuel c)
    { prime, testedValue := 2, nextEmptySlot := 0, printed := [.starting] }

/-! ## The primes below a number -/

section Primes

open Nat

/-- A number is prime if and only if no prime below divides it. -/
theorem forall_nth_not_dvd_iff {n : Nat} (hn : 2 ≤ n) :
    (∀ k < count Nat.Prime n, ¬ nth Nat.Prime k ∣ n) ↔ n.Prime := by
  constructor
  · intro hall
    by_contra hcomposite
    have hprime : n.minFac.Prime := minFac_prime (by omega)
    have hlt : n.minFac < n := (not_prime_iff_minFac_lt hn).mp hcomposite
    have hdvd : ¬ nth Nat.Prime (count Nat.Prime n.minFac) ∣ n :=
      hall _ (count_strict_mono hprime hlt)
    rw [nth_count hprime] at hdvd
    exact hdvd n.minFac_dvd
  · intro hprime k hk hdvd
    rcases (dvd_prime hprime).mp hdvd with hone | hself
    · exact (prime_nth_prime k).one_lt.ne' hone
    · exact (nth_lt_of_lt_count hk).ne hself

/-- The numbers below `n` with a property are the first ones that have it. -/
theorem filter_range_eq_map_nth (P : Nat → Prop) [DecidablePred P] (n : Nat) :
    (List.range n).filter P = (List.range (count P n)).map (nth P) := by
  induction n with
  | zero => rfl
  | succ n ih =>
      rw [List.range_succ, List.filter_append, ih, count_succ]
      by_cases hP : P n
      · simp [hP, List.range_succ, nth_count hP]
      · simp [hP]

theorem thousand_le_primeCounting : 1000 ≤ primeCounting (2 ^ 14) := by
  have hlog : 0 < Real.log 2 := Real.log_pos (by norm_num)
  have hbound := Chebyshev.pi_ge (2 ^ 14)
  have hpow : Real.log ((2 ^ 14 : Nat) : Real) = 14 * Real.log 2 := by
    rw [cast_pow, Real.log_pow]
    norm_num
  have hsucc : Real.log (((2 ^ 14 : Nat) : Real) + 1) ≤ 15 * Real.log 2 := by
    rw [show (15 : Real) * Real.log 2 = Real.log (2 ^ 15) by rw [Real.log_pow]; norm_num]
    exact Real.log_le_log (by positivity) (by norm_num)
  have hthousand : (1000 : Real) ≤
      (((2 ^ 14 : Nat) : Real) * Real.log 2 - Real.log (((2 ^ 14 : Nat) : Real) + 1)) /
        Real.log ((2 ^ 14 : Nat) : Real) := by
    rw [hpow, le_div_iff₀ (by positivity)]
    push_cast at hsucc ⊢
    linarith
  exact_mod_cast hthousand.trans hbound

/-- While there is room in the table the numbers are small. -/
theorem le_of_count_lt {n : Nat} (h : count Nat.Prime n < 1000) : n ≤ 2 ^ 14 := by
  by_contra hle
  have hcount : count Nat.Prime (2 ^ 14 + 1) ≤ count Nat.Prime n := count_monotone _ (by omega)
  exact absurd (thousand_le_primeCounting.trans hcount) (by omega)

end Primes

/-! ## The table -/

/-- The `k`-th line after the first, with the `k`-th prime. -/
noncomputable def line (k : Nat) : Print :=
  .prime (BitVec.ofNat 32 k) (BitVec.ofNat 32 (Nat.nth Nat.Prime k))

namespace State

/-- The entries of the table in use. -/
def entries (s : State) : List Nat :=
  (s.prime.toList.take s.nextEmptySlot.toNat).map BitVec.toNat

/-- The table holds the primes below `n`, which is tested next. -/
structure Table (s : State) (n : Nat) : Prop where
  tested : s.testedValue.toNat = n
  slot : s.nextEmptySlot.toNat = Nat.count Nat.Prime n
  entries : s.entries = (List.range n).filter Nat.Prime
  printed : s.printed = .starting :: (List.range (Nat.count Nat.Prime n)).map line

variable {s : State} {n : Nat}

theorem toNat_succ {i : BitVec 32} (hi : i.toNat ≤ 2 ^ 14) : (i + 1).toNat = i.toNat + 1 := by
  have hone : (1 : BitVec 32).toNat = 1 := rfl
  rw [BitVec.toNat_add, hone]
  omega

/-- The entry of rank `i` is the `i`-th prime. -/
theorem Table.load (h : s.Table n) (hroom : Nat.count Nat.Prime n < 1000) {i : BitVec 32}
    (hi : i.toNat < Nat.count Nat.Prime n) :
    ∃ v, s.load i = .returns v ∧ v.toNat = Nat.nth Nat.Prime i.toNat := by
  have hsmall : i.toNat < 1000 := hi.trans hroom
  have hentry : s.entries[i.toNat]? = some (Nat.nth Nat.Prime i.toNat) := by
    rw [h.entries, filter_range_eq_map_nth]
    simp [hi]
  refine ⟨_, dif_pos hsmall, ?_⟩
  simpa [State.entries, h.slot, hi, hsmall, Vector.get] using hentry

/-- What the loop has found out before it comes to the entry `i`. -/
def Divided (n : Nat) (i : BitVec 32) (isPrime : Bool) : Prop :=
  i.toNat ≤ Nat.count Nat.Prime n ∧
    isPrime = decide (∀ k < i.toNat, ¬ Nat.nth Nat.Prime k ∣ n)

/-- A pass of the loop reads an entry in use, which is no zero. -/
theorem Table.divide (h : s.Table n) (hroom : Nat.count Nat.Prime n < 1000) {i : BitVec 32}
    {b : Bool} (hi : i.toNat < Nat.count Nat.Prime n) (hb : Divided n i b) :
    ∃ b', s.divide i b = .returns b' ∧ Divided n (i + 1) b' := by
  obtain ⟨divisor, hload, hdivisor⟩ := h.load hroom hi
  have hne : divisor ≠ 0 := by
    rintro rfl
    exact (Nat.prime_nth_prime i.toNat).ne_zero hdivisor.symm
  have hnext : (i + 1).toNat = i.toNat + 1 := toNat_succ (by omega)
  have hremainder : s.testedValue % divisor = 0 ↔ Nat.nth Nat.Prime i.toNat ∣ n := by
    rw [← BitVec.toNat_inj, BitVec.toNat_umod, h.tested, hdivisor, Nat.dvd_iff_mod_eq_zero]
    rfl
  refine ⟨if s.testedValue % divisor = 0 then false else b, ?_, ?_, ?_⟩
  · rw [State.divide, hload, Outcome.returns_bind, modulo, if_neg hne]
    rfl
  · rw [hnext]
    exact hi
  · rw [hnext, hb.2]
    by_cases hdvd : Nat.nth Nat.Prime i.toNat ∣ n
    · rw [if_pos (hremainder.mpr hdvd)]
      simp only [Nat.forall_lt_succ_right, hdvd]
      simp
    · rw [if_neg (mt hremainder.mp hdvd)]
      simp only [Nat.forall_lt_succ_right, hdvd]
      simp

/-- The loop finds out whether the number is prime. -/
theorem Table.isPrime (h : s.Table n) (hn : 2 ≤ n) (hroom : Nat.count Nat.Prime n < 1000)
    {fuel : Nat} (hfuel : 1000 ≤ fuel) : s.isPrime fuel = .returns (decide n.Prime) := by
  have hin : ∀ i : BitVec 32,
      decide (i < s.nextEmptySlot) = decide (i.toNat < Nat.count Nat.Prime n) := by
    intro i
    simp only [BitVec.lt_def, h.slot]
  have hpass : ∀ i b, decide (i < s.nextEmptySlot) = true → Divided n i b →
      Nat.count Nat.Prime n - (i + 1).toNat < Nat.count Nat.Prime n - i.toNat ∧
        ∃ b', s.divide i b = .returns b' ∧ Divided n (i + 1) b' := by
    intro i b hcond hb
    have hi : i.toNat < Nat.count Nat.Prime n := by simpa [hin] using hcond
    have hnext : (i + 1).toNat = i.toNat + 1 := toNat_succ (by omega)
    exact ⟨by omega, h.divide hroom hi hb⟩
  have hstart : Divided n (0 : BitVec 32) true := ⟨Nat.zero_le _, by simp⟩
  have hpasses : Nat.count Nat.Prime n - (0 : BitVec 32).toNat < fuel :=
    Nat.lt_of_le_of_lt (Nat.sub_le _ _) (hroom.trans_le hfuel)
  obtain ⟨i, b, hloop, hend, hle, hb⟩ := forLoop_returns (P := Divided n)
    (r := fun i => Nat.count Nat.Prime n - i.toNat) hpass hpasses hstart
  have hi : i.toNat = Nat.count Nat.Prime n := by
    rw [hin, decide_eq_false_iff_not] at hend
    omega
  rw [State.isPrime, hloop, hb, hi]
  simp only [forall_nth_not_dvd_iff hn]

/-! ## The run -/

/-- The next number, when this one is no prime. -/
theorem Table.pass (h : s.Table n) (hroom : Nat.count Nat.Prime n < 1000) (hn : ¬ n.Prime) :
    { s with testedValue := s.testedValue + 1 }.Table (n + 1) := by
  have hle : n ≤ 2 ^ 14 := le_of_count_lt hroom
  have hcount : Nat.count Nat.Prime (n + 1) = Nat.count Nat.Prime n := by
    simp [Nat.count_succ, hn]
  refine ⟨?_, ?_, ?_, ?_⟩
  · rw [toNat_succ (by rwa [h.tested]), h.tested]
  · rw [hcount]
    exact h.slot
  · rw [List.range_succ, List.filter_append, ← h.entries]
    simp [hn, State.entries]
  · rw [hcount]
    exact h.printed

theorem count_prime_two : Nat.count Nat.Prime 2 = 0 := by
  simp [Nat.count_succ, Nat.not_prime_zero, Nat.not_prime_one]

/-- The next number, when this one is a prime. -/
theorem Table.append (h : s.Table n) (hroom : Nat.count Nat.Prime n < 1000) (hn : n.Prime)
    (hslot : s.nextEmptySlot.toNat < 1000) :
    { s with
      prime := s.prime.set s.nextEmptySlot.toNat s.testedValue hslot
      testedValue := s.testedValue + 1
      nextEmptySlot := s.nextEmptySlot + 1
      printed := s.printed ++ [Print.prime s.nextEmptySlot s.testedValue] }.Table (n + 1) := by
  have hle : n ≤ 2 ^ 14 := le_of_count_lt hroom
  have hcount : Nat.count Nat.Prime (n + 1) = Nat.count Nat.Prime n + 1 := by
    simp [Nat.count_succ, hn]
  refine ⟨?_, ?_, ?_, ?_⟩
  · rw [toNat_succ (by rwa [h.tested]), h.tested]
  · rw [toNat_succ (by omega), h.slot, hcount]
  · have hentries : s.entries = (List.range n).filter Nat.Prime := h.entries
    rw [List.range_succ, List.filter_append, ← hentries]
    have hnext : (s.nextEmptySlot + 1).toNat = s.nextEmptySlot.toNat + 1 := toNat_succ (by omega)
    have hlength : s.nextEmptySlot.toNat <
        (s.prime.set s.nextEmptySlot.toNat s.testedValue hslot).toList.length := by
      rwa [Vector.length_toList]
    have htake : (s.prime.set s.nextEmptySlot.toNat s.testedValue hslot).toList.take
        s.nextEmptySlot.toNat = s.prime.toList.take s.nextEmptySlot.toNat := by
      rw [Vector.toList_set, List.take_set_of_le (Nat.le_refl _)]
    have hvalue : (s.prime.set s.nextEmptySlot.toNat s.testedValue hslot).toList[
        s.nextEmptySlot.toNat] = s.testedValue := by
      simp
    rw [State.entries, State.entries]
    dsimp only
    rw [hnext, List.take_succ_eq_append_getElem hlength, htake, hvalue, List.map_append,
      List.map_singleton, h.tested]
    simp [hn]
  · have hline : line (Nat.count Nat.Prime n) = Print.prime s.nextEmptySlot s.testedValue := by
      rw [line, Nat.nth_count hn, ← h.slot, ← h.tested, BitVec.ofNat_toNat, BitVec.ofNat_toNat]
      rfl
    rw [hcount, List.range_succ, List.map_append, h.printed, ← hline]
    rfl

/-- The lines of a full table. -/
noncomputable def allPrinted : List Print :=
  .starting :: (List.range 1000).map line ++ [.full]

/-- What the program has come to when it has tested the numbers below `n`. -/
def Agrees (x : Outcome Stop State) (n : Nat) : Prop :=
  if Nat.count Nat.Prime n < 1000 then ∃ s, x = .returns s ∧ s.Table n
  else x = .throws (.exit allPrinted)

/-- A prime that has a slot goes there. -/
theorem addPrime_eq (s : State) (hslot : s.nextEmptySlot.toNat < 1000) :
    s.addPrime =
      if s.nextEmptySlot + 1 = 1000 then
        .throws (.exit (s.printed ++ [.prime s.nextEmptySlot s.testedValue] ++ [.full]))
      else
        .returns
          { s with
            prime := s.prime.set s.nextEmptySlot.toNat s.testedValue hslot
            nextEmptySlot := s.nextEmptySlot + 1
            printed := s.printed ++ [.prime s.nextEmptySlot s.testedValue] } := by
  rw [addPrime, store, dif_pos hslot]
  rfl

/-- A pass tests one number. -/
theorem Table.iteration (h : s.Table n) (hn : 2 ≤ n) (hroom : Nat.count Nat.Prime n < 1000)
    {fuel : Nat} (hfuel : 1000 ≤ fuel) {c : BitVec 8} (hc : c ≠ 113) :
    Agrees (s.iteration fuel c) (n + 1) := by
  have hslot : s.nextEmptySlot.toNat < 1000 := by rwa [h.slot]
  rw [State.iteration, h.isPrime hn hroom hfuel]
  by_cases hprime : n.Prime
  · have hcount : Nat.count Nat.Prime (n + 1) = Nat.count Nat.Prime n + 1 := by
      simp [Nat.count_succ, hprime]
    have hnext := h.append hroom hprime hslot
    have hfull : s.nextEmptySlot + 1 = 1000 ↔ ¬ Nat.count Nat.Prime (n + 1) < 1000 := by
      have hthousand : (1000 : BitVec 32).toNat = 1000 := rfl
      rw [← BitVec.toNat_inj, toNat_succ (by omega), h.slot, hcount]
      omega
    rw [decide_eq_true hprime, Outcome.returns_bind, if_pos rfl, s.addPrime_eq hslot, Agrees]
    by_cases hmore : Nat.count Nat.Prime (n + 1) < 1000
    · rw [if_pos hmore, if_neg (mt hfull.mp (not_not_intro hmore)), Outcome.returns_bind]
      exact ⟨_, if_neg hc, hnext⟩
    · have hall : Nat.count Nat.Prime (n + 1) = 1000 := by omega
      have hprinted := hnext.printed
      rw [hall] at hprinted
      rw [if_neg hmore, if_pos (hfull.mpr hmore), Outcome.throws_bind]
      dsimp only at hprinted ⊢
      rw [hprinted]
      rfl
  · have hcount : Nat.count Nat.Prime (n + 1) = Nat.count Nat.Prime n := by
      simp [Nat.count_succ, hprime]
    rw [Agrees, hcount, if_pos hroom]
    rw [decide_eq_false hprime, Outcome.returns_bind, if_neg Bool.false_ne_true,
      Outcome.pure_eq, Outcome.returns_bind]
    exact ⟨_, if_neg hc, h.pass hroom hprime⟩

/-- The passes of a run. -/
theorem Table.foldlM (h : s.Table n) (hn : 2 ≤ n) (hroom : Nat.count Nat.Prime n < 1000)
    {fuel : Nat} (hfuel : 1000 ≤ fuel) {keys : List (BitVec 8)} (hkeys : ∀ c ∈ keys, c ≠ 113) :
    Agrees (keys.foldlM (fun s c => s.iteration fuel c) s) (n + keys.length) := by
  induction keys generalizing s n with
  | nil =>
      rw [Agrees, List.length_nil, Nat.add_zero, if_pos hroom]
      exact ⟨s, rfl, h⟩
  | cons c keys ih =>
      have hpass := h.iteration hn hroom hfuel (hkeys c List.mem_cons_self)
      have hrest : ∀ c ∈ keys, c ≠ 113 := fun c hc => hkeys c (List.mem_cons_of_mem _ hc)
      rw [List.foldlM_cons, List.length_cons, Nat.add_comm keys.length 1, ← Nat.add_assoc]
      by_cases hmore : Nat.count Nat.Prime (n + 1) < 1000
      · rw [Agrees, if_pos hmore] at hpass
        obtain ⟨s', hs', htable⟩ := hpass
        rw [hs', Outcome.returns_bind]
        exact ih htable (Nat.le_succ_of_le hn) hmore hrest
      · have hfull : ¬ Nat.count Nat.Prime (n + 1 + keys.length) < 1000 := by
          have hmono : Nat.count Nat.Prime (n + 1) ≤ Nat.count Nat.Prime (n + 1 + keys.length) :=
            Nat.count_monotone _ (Nat.le_add_right _ _)
          omega
        rw [Agrees, if_neg hmore] at hpass
        rw [Agrees, if_neg hfull, hpass, Outcome.throws_bind]

/-- The table is empty before the first test. -/
theorem table_start (prime : Vector (BitVec 32) 1000) :
    (⟨prime, 2, 0, [.starting]⟩ : State).Table 2 where
  tested := rfl
  slot := by rw [count_prime_two]; rfl
  entries := by rw [filter_range_eq_map_nth, count_prime_two]; rfl
  printed := by rw [count_prime_two]; rfl

end State

open State

/-- Whatever the keys, none of which is `q`, the table holds the primes below the tested value
after each pass, until it has its 1000 entries and the program ends.  No access is outside of
the table and no modulo is by zero. -/
theorem main_prints {fuel : Nat} (hfuel : 1000 ≤ fuel) (prime : Vector (BitVec 32) 1000)
    {keys : List (BitVec 8)} (hkeys : ∀ c ∈ keys, c ≠ 113) :
    Agrees (main fuel prime keys) (keys.length + 2) := by
  have hroom : Nat.count Nat.Prime 2 < 1000 := by rw [count_prime_two]; decide
  rw [Nat.add_comm]
  exact (table_start prime).foldlM (Nat.le_refl 2) hroom hfuel hkeys

/-- Two keys, and the table has the primes below 4. -/
theorem four_prints : Agrees (main 1000 (Vector.replicate 1000 0) [97, 10]) 4 :=
  main_prints (Nat.le_refl 1000) (Vector.replicate 1000 0) (by decide)

end SmcTp.Soft.Prime
