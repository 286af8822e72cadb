import Mathlib.Algebra.Ring.Int.Defs
import SmcTp.Giet.TtyOutput
import SmcTp.Programs.LineEditor

/-!
# The digit loops of `tty_printf`

`%d`, `%u` and `%x` fill a buffer with digits from the right, and stop when nothing is left
to divide.  The variable `val` is an `int`: the decimal loop divides it as a signed number,
and the hexadecimal one, with an unsigned base, as an unsigned number.

`digitLoop_spec` says that a loop which divides as for natural numbers finds the numeral.
The decimal loop does so for a number that is not negative (`decimalLoop_spec`).  The first
digit of a negative number that is no zero is negative itself, and so the index of a
character in front of the table (`decimalLoop_of_neg`).
-/

namespace SmcTp.Giet

open Programs LineEditor Numerals

/-- `HexaTab` -/
def hexaTab : CString :=
  ⟨['0', '1', '2', '3', '4', '5', '6', '7', '8', '9', 'A', 'B', 'C', 'D', 'E', 'F'].map ascii,
    by decide⟩

/-- `for (i = 0; i < n; i++) { buf[n-1-i] = HexaTab[digit]; if (!(val = quotient)) break; }`,
from the pass that has `left` passes behind it: `i` and the buffer at its end. -/
def digitLoop (digit : Word → Int) (quotient : Word → Word) (n : Nat) :
    Nat → Word → (Nat → Byte) → Outcome Stop (Nat × (Nat → Byte))
  | 0, _, buf => .returns (n, buf)
  | left + 1, val, buf => do
      let c ← hexaTab.load .beyondTable (digit val)
      let buf := Function.update buf left c
      if quotient val = 0 then pure (n - 1 - left, buf)
      else digitLoop digit quotient n left (quotient val) buf

/-- `pbuf` with `len` characters, from `len = i+1; pbuf = &buf[n-1-i]`. -/
def loopChars (n : Nat) (r : Nat × (Nat → Byte)) : List Byte := cells r.2 (n - 1 - r.1) (r.1 + 1)

/-- `val % 10` -/
def decimalDigit (val : Word) : Int := (val.srem 10).toInt

/-- `val % 16U` -/
def hexDigit (val : Word) : Int := (val % 16).toNat

/-- The loop of `%d` and `%u`. -/
def decimalLoop (val : Word) (buf : Nat → Byte) : Outcome Stop (List Byte) := do
  let r ← digitLoop decimalDigit (·.sdiv 10) 10 10 val buf
  pure (loopChars 10 r)

/-- The loop of `%x`. -/
def hexLoop (val : Word) (buf : Nat → Byte) : Outcome Stop (List Byte) := do
  let r ← digitLoop hexDigit (· / 16) 8 8 val buf
  pure (loopChars 8 r)

theorem hexaTab_load {d : Nat} (hd : d < 16) :
    hexaTab.load Stop.beyondTable d = .returns (digitChar d) := by
  have hall : ∀ e (he : e < hexaTab.chars.length), hexaTab.chars[e] = digitChar e := by decide
  rw [hexaTab.load_natCast _ hd, hall d hd]

section Loop

variable {digit : Word → Int} {quotient : Word → Word} {n b v : Nat}

/-- A pass that finds a digit. -/
theorem digitLoop_succ {left d : Nat} {val : Word} (hd : d < 16) (hdigit : digit val = d)
    (buf : Nat → Byte) :
    digitLoop digit quotient n (left + 1) val buf =
      if quotient val = 0 then .returns (n - 1 - left, Function.update buf left (digitChar d))
      else digitLoop digit quotient n left (quotient val)
        (Function.update buf left (digitChar d)) := by
  rw [digitLoop, hdigit, hexaTab_load hd, Outcome.returns_bind]
  rfl

/-- A loop that divides by `b` finds the numeral in base `b`. -/
theorem digitLoop_spec (hb : 1 < b) (hbase : b ≤ 16) {P : Word → Prop}
    (hdigit : ∀ val, P val → digit val = (val.toNat % b : Nat))
    (hquotient : ∀ val, P val → P (quotient val) ∧ (quotient val).toNat = val.toNat / b)
    (hn : 0 < n) (hv : v < b ^ n) {i left : Nat} (hi : i + left = n) {val : Word}
    {buf : Nat → Byte} (hP : P val) (hval : val.toNat = v / b ^ i) (hmore : i = 0 ∨ b ^ i ≤ v)
    (hbuf : cells buf left i = (low b v i).map digitChar) :
    ∃ r, digitLoop digit quotient n left val buf = .returns r ∧
      loopChars n r = (numeral b v).map digitChar := by
  have hpos : 0 < b := Nat.zero_lt_of_lt hb
  induction left generalizing i val buf with
  | zero =>
      -- a number below `b ^ n` has no more than `n` digits
      obtain rfl : i = n := hi
      rcases hmore with rfl | hle
      · exact absurd hn (Nat.lt_irrefl 0)
      · exact absurd hv (Nat.not_lt.mpr hle)
  | succ left ih =>
      obtain ⟨hP', hval'⟩ := hquotient val hP
      have hd : val.toNat % b < 16 := Nat.lt_of_lt_of_le (Nat.mod_lt _ hpos) hbase
      have hnext : (quotient val).toNat = v / b ^ (i + 1) := by
        rw [hval', hval, Nat.div_div_eq_div_mul, Nat.pow_succ]
      have hbuf' : cells (Function.update buf left (digitChar (val.toNat % b))) left (i + 1) =
          (low b v (i + 1)).map digitChar := by
        rw [cells_update_before, hbuf, hval]
        rfl
      have hzero : quotient val = 0 ↔ v < b ^ (i + 1) := by
        rw [← BitVec.toNat_inj, hnext, ← Nat.div_eq_zero_iff_lt (Nat.pow_pos hpos)]
        rfl
      rw [digitLoop_succ hd (hdigit val hP)]
      by_cases hlast : quotient val = 0
      · refine ⟨_, if_pos hlast, ?_⟩
        have hstart : n - 1 - (n - 1 - left) = left := by omega
        have hlength : n - 1 - left = i := by omega
        rw [loopChars, hstart, hlength, hbuf', low_eq_numeral (hzero.mp hlast) hmore]
      · rw [if_neg hlast]
        exact ih (by omega) hP' hnext (.inr (Nat.not_lt.mp (mt hzero.mpr hlast))) hbuf'

end Loop

theorem hexLoop_spec (val : Word) (buf : Nat → Byte) :
    hexLoop val buf = .returns (numberChars 16 val.toNat) := by
  have hquotient : ∀ val : Word, True → True ∧ (val / 16).toNat = val.toNat / 16 :=
    fun val _ => ⟨trivial, BitVec.toNat_udiv⟩
  have hv : val.toNat < 16 ^ 8 := Nat.lt_of_lt_of_le val.isLt (by decide)
  obtain ⟨r, hloop, hchars⟩ : ∃ r, digitLoop hexDigit (· / 16) 8 8 val buf = .returns r ∧
      loopChars 8 r = numberChars 16 val.toNat :=
    digitLoop_spec (by decide) (Nat.le_refl _) (fun _ _ => rfl) hquotient (by decide) hv
      (Nat.zero_add 8) trivial (Nat.div_one _).symm (.inl rfl) rfl
  rw [hexLoop, hloop, Outcome.returns_bind, hchars]
  rfl

section Decimal

/-- The signed division and its remainder, as for integers. -/
theorem signed_ten (val : Word) :
    decimalDigit val = val.toInt.tmod 10 ∧ (val.sdiv 10).toInt = val.toInt.tdiv 10 :=
  ⟨BitVec.toInt_srem val 10, BitVec.toInt_sdiv_of_ne_or_ne val 10 (.inr (by decide))⟩

/-- The digit and the quotient of a number that is not negative. -/
theorem decimal_of_nonneg {val : Word} (h : val.msb = false) :
    decimalDigit val = (val.toNat % 10 : Nat) ∧ (val.sdiv 10).msb = false ∧
      (val.sdiv 10).toNat = val.toNat / 10 := by
  obtain ⟨hrem, hdiv⟩ := signed_ten val
  have hnonneg : (0 : Int) ≤ val.toNat := Int.natCast_nonneg _
  rw [BitVec.toInt_eq_toNat_of_msb h, Int.tmod_eq_emod_of_nonneg hnonneg] at hrem
  rw [BitVec.toInt_eq_toNat_of_msb h, Int.tdiv_eq_ediv_of_nonneg hnonneg] at hdiv
  have hmsb : (val.sdiv 10).msb = false := by
    rw [BitVec.msb_eq_toInt, hdiv]
    exact decide_eq_false (by omega)
  rw [BitVec.toInt_eq_toNat_of_msb hmsb] at hdiv
  exact ⟨hrem, hmsb, Int.ofNat.inj hdiv⟩

theorem decimalLoop_spec {val : Word} (h : val.msb = false) (buf : Nat → Byte) :
    decimalLoop val buf = .returns (numberChars 10 val.toNat) := by
  have hv : val.toNat < 10 ^ 10 := Nat.lt_of_lt_of_le val.isLt (by decide)
  obtain ⟨r, hloop, hchars⟩ : ∃ r, digitLoop decimalDigit (·.sdiv 10) 10 10 val buf =
      .returns r ∧ loopChars 10 r = numberChars 10 val.toNat :=
    digitLoop_spec (by decide) (by decide) (fun _ hval => (decimal_of_nonneg hval).1)
      (fun _ hval => (decimal_of_nonneg hval).2) (by decide) hv (Nat.zero_add 10) h
      (Nat.div_one _).symm (.inl rfl) rfl
  rw [decimalLoop, hloop, Outcome.returns_bind, hchars]
  rfl

/-- The digits of a negative number are zeros up to one that is negative. -/
theorem digitLoop_of_neg {left : Nat} {val : Word} (hneg : val.toInt < 0)
    (hsmall : -(10 ^ left : Int) < val.toInt) (buf : Nat → Byte) :
    digitLoop decimalDigit (·.sdiv 10) 10 left val buf = .throws .beyondTable := by
  induction left generalizing val buf with
  | zero =>
      rw [Int.pow_zero] at hsmall
      omega
  | succ left ih =>
      obtain ⟨hrem, hdiv⟩ := signed_ten val
      have hsplit : 10 * val.toInt.tdiv 10 + val.toInt.tmod 10 = val.toInt :=
        Int.mul_tdiv_add_tmod val.toInt 10
      have hsign : 0 ≤ -val.toInt.tmod 10 := by
        rw [← Int.neg_tmod]
        exact Int.tmod_nonneg 10 (by omega)
      rcases Int.lt_or_eq_of_le (Int.neg_nonneg.mp hsign) with hlt | hzero
      · rw [digitLoop, hrem, CString.load_of_neg _ _ hlt, Outcome.throws_bind]
      · have hquotient : val.sdiv 10 ≠ 0 := by
          intro h
          rw [h] at hdiv
          have hzero : (0 : Word).toInt = 0 := rfl
          omega
        have hdigit : decimalDigit val = (0 : Nat) := hrem.trans hzero
        rw [digitLoop_succ (by decide) hdigit, if_neg hquotient]
        rw [Int.pow_succ] at hsmall
        exact ih (by omega) (by omega) _

theorem decimalLoop_of_neg {val : Word} (h : val.msb = true) (buf : Nat → Byte) :
    decimalLoop val buf = .throws .beyondTable := by
  have hneg : val.toInt < 0 := by
    rwa [BitVec.msb_eq_toInt, decide_eq_true_eq] at h
  have hsmall : -(10 ^ 10 : Int) < val.toInt := by
    have hbound : -(2 ^ 31 : Int) ≤ val.toInt := BitVec.le_toInt val
    omega
  rw [decimalLoop, digitLoop_of_neg hneg hsmall, Outcome.throws_bind]

end Decimal

end SmcTp.Giet
