import SmcTp.Giet.Drivers
import SmcTp.Programs.Numerals
import SmcTp.Programs.Outcome

/-!
# Characters and strings

Strings are bytes up to a NUL.  A `CString` is an object of memory: it is read at an index
from zero to the NUL, and what lies around it is not its own.

*Digits.*  `digitChar` gives the character of a digit, in base 16 at most, and `readNumber`
reads digits back (`readNumber_digitChars`).  `numberChars` are the digits of a number as one
writes it, without a zero in front (`head_numberChars`).
-/

namespace SmcTp.Giet

open Programs

/-- `char` and `unsigned char`. -/
abbrev Byte := BitVec 8

/-- The code of a character. -/
def ascii (c : Char) : Byte := BitVec.ofNat 8 c.toNat

/-- A string, ended by a NUL that does not belong to its characters. -/
structure CString where
  chars : List Byte
  noNul : 0 ∉ chars

/-- `s[i]`, or the error `e` when there is no such character. -/
def CString.load {ε : Type} (s : CString) (e : ε) (i : Int) : Outcome ε Byte :=
  if i < 0 then .throws e
  else
    match (s.chars ++ [0])[i.toNat]? with
    | some c => .returns c
    | none => .throws e

theorem CString.load_natCast {ε : Type} (s : CString) (e : ε) {i : Nat}
    (hi : i < s.chars.length) : s.load e i = .returns (s.chars[i]) := by
  rw [CString.load, if_neg (Int.not_lt.mpr (Int.natCast_nonneg i)), Int.toNat_natCast,
    List.getElem?_append_left hi, List.getElem?_eq_getElem hi]

theorem CString.load_of_neg {ε : Type} (s : CString) (e : ε) {i : Int} (hi : i < 0) :
    s.load e i = .throws e := if_pos hi

/-! ## Digits -/

/-- The character of a digit. -/
def digitChar (d : Nat) : Byte := BitVec.ofNat 8 (if d < 10 then 48 + d else 55 + d)

/-- The digit that a character stands for. -/
def digitOf (c : Byte) : Option Nat :=
  if 48 ≤ c.toNat ∧ c.toNat ≤ 57 then some (c.toNat - 48)
  else if 65 ≤ c.toNat ∧ c.toNat ≤ 70 then some (c.toNat - 55)
  else none

/-- The number that characters stand for in base `b`, if they are digits in that base. -/
def readNumber (b : Nat) (l : List Byte) : Option Nat :=
  (l.mapM fun c => (digitOf c).filter (· < b)).map (Numerals.value b)

theorem digitOf_digitChar : ∀ d < 16, digitOf (digitChar d) = some d := by decide

theorem readNumber_digitChars {b : Nat} (hb : b ≤ 16) {l : List Nat} (hl : ∀ d ∈ l, d < b) :
    readNumber b (l.map digitChar) = some (Numerals.value b l) := by
  have hdigits : (l.map digitChar).mapM (fun c => (digitOf c).filter (· < b)) = some l := by
    induction l with
    | nil => rfl
    | cons d l ih =>
        have hd : d < b := hl d List.mem_cons_self
        rw [List.map_cons, List.mapM_cons, ih fun e he => hl e (List.mem_cons_of_mem _ he),
          digitOf_digitChar d (Nat.lt_of_lt_of_le hd hb), Option.filter_some,
          if_pos (decide_eq_true hd)]
        rfl
  rw [readNumber, hdigits, Option.map_some]

/-- Only the digit zero looks like zero. -/
theorem digitChar_eq_zero : ∀ d < 16, digitChar d = digitChar 0 → d = 0 := by decide

/-- The digits of a number, in base `b`. -/
def numberChars (b n : Nat) : List Byte := (Numerals.numeral b n).map digitChar

section Numbers

variable {b : Nat}

theorem numberChars_ne_nil (b n : Nat) : numberChars b n ≠ [] :=
  mt List.map_eq_nil_iff.mp (Numerals.numeral_ne_nil b n)

theorem readNumber_numberChars (hb : 1 < b) (hbase : b ≤ 16) (n : Nat) :
    readNumber b (numberChars b n) = some n := by
  have hdigits : ∀ d ∈ Numerals.numeral b n, d < b := fun d =>
    Numerals.lt_of_mem_numeral (Nat.zero_lt_of_lt hb)
  rw [numberChars, readNumber_digitChars hbase hdigits, Numerals.value_numeral hb]

/-- A number that starts with a zero is zero. -/
theorem head_numberChars (hb : 1 < b) (hbase : b ≤ 16) {n : Nat}
    (h : (numberChars b n).head? = some (digitChar 0)) : numberChars b n = [digitChar 0] := by
  rw [numberChars, List.head?_map, Option.map_eq_some_iff] at h
  obtain ⟨d, hd, hzero⟩ := h
  have hlt : d < b := Numerals.lt_of_mem_numeral (Nat.zero_lt_of_lt hb) (List.mem_of_head? hd)
  rw [digitChar_eq_zero d (Nat.lt_of_lt_of_le hlt hbase) hzero] at hd
  rw [numberChars, Numerals.head_numeral hb hd, List.map_singleton]

end Numbers

end SmcTp.Giet
