import SmcTp.Giet.Characters
import SmcTp.Programs.LineEditor

/-!
# The numbers of the kernel

`_itoa_hex` and `_itoa_dec` write a number into a field of 8 or 10 characters, from the
right, and look each digit up in a table.  `_itoa_dec` has blanks in front of the first
digit.

*Fields.*  `Fills` says what the passes so far have done: they have written the characters
at the right end of the field, and read the table inside of its digits.

*The missing letters.*  The table of `_itoa_hex` ends with D, so that a digit 14 reads the
NUL behind it and a digit 15 reads beyond the table.  `rendered_iff` says that every other
number is written as it should be.
-/

namespace SmcTp.Giet.Itoa

open Programs LineEditor Numerals

/-! ## The conversions -/

/-- `hexatab` -/
def hexatab : CString :=
  ⟨['0', '1', '2', '3', '4', '5', '6', '7', '8', '9', 'A', 'B', 'C', 'D'].map ascii, by decide⟩

/-- `dectab` -/
def dectab : CString :=
  ⟨['0', '1', '2', '3', '4', '5', '6', '7', '8', '9'].map ascii, by decide⟩

/-- A read beyond the NUL of a table. -/
inductive Fault where
  | beyondTable
deriving DecidableEq, Repr

/-- The variables of a conversion, with the indices read in the table and the cells of the
buffer that have been written. -/
structure Conversion where
  val : Word
  buf : Nat → Byte
  loaded : List Nat
  stored : List Nat

namespace Conversion

/-- `buf[cell] = c` -/
def put (s : Conversion) (cell : Nat) (c : Byte) : Conversion :=
  { s with buf := Function.update s.buf cell c, stored := s.stored ++ [cell] }

@[simp] theorem put_buf (s : Conversion) (cell : Nat) (c : Byte) :
    (s.put cell c).buf = Function.update s.buf cell c := rfl

/-- `buf[cell] = tab[val % base]` -/
def digit (tab : CString) (base : Word) (cell : Nat) (s : Conversion) :
    Outcome Fault Conversion := do
  let c ← tab.load .beyondTable (s.val % base).toNat
  pure { s.put cell c with loaded := s.loaded ++ [(s.val % base).toNat] }

/-- `val /= base` -/
def divide (base : Word) (s : Conversion) : Conversion := { s with val := s.val / base }

end Conversion

/-- A pass of the loop of `_itoa_dec`. -/
def decPass (i : Nat) (s : Conversion) : Outcome Fault Conversion := do
  let s ← if s.val ≠ 0 ∨ i = 0 then s.digit dectab 10 (9 - i) else pure (s.put (9 - i) 0x20)
  pure (s.divide 10)

/-- `_itoa_dec`. -/
def itoaDec (val : Word) (buf : Nat → Byte) : Outcome Fault Conversion :=
  forBelow decPass 10 { val, buf, loaded := [], stored := [] }

/-- A pass of the loop of `_itoa_hex`. -/
def hexPass (i : Nat) (s : Conversion) : Outcome Fault Conversion := do
  let s ← s.digit hexatab 16 (7 - i)
  pure (s.divide 16)

/-- `_itoa_hex`. -/
def itoaHex (val : Word) (buf : Nat → Byte) : Outcome Fault Conversion :=
  forBelow hexPass 8 { val, buf, loaded := [], stored := [] }

/-! ## Fields -/

/-- The last `n` cells of a field of `width` characters have been written, with `text`, and
nothing else. -/
structure Fills (tab : CString) (width : Nat) (buf : Nat → Byte) (n : Nat) (text : List Byte)
    (s : Conversion) : Prop where
  text : cells s.buf (width - n) n = text
  stored : ∀ j, j ∈ s.stored ↔ width - n ≤ j ∧ j < width
  frame : ∀ j, width ≤ j → s.buf j = buf j
  loaded : ∀ j ∈ s.loaded, j < tab.chars.length

section Fields

variable {tab : CString} {width n cell : Nat} {buf : Nat → Byte} {text : List Byte}
  {s : Conversion}

theorem Fills.start (val : Word) :
    Fills tab width buf 0 [] { val, buf, loaded := [], stored := [] } where
  text := rfl
  stored j := by
    rw [Nat.sub_zero]
    exact ⟨fun h => absurd h List.not_mem_nil, fun h => absurd h.2 (Nat.not_lt.mpr h.1)⟩
  frame _ _ := rfl
  loaded j h := absurd h List.not_mem_nil

theorem Fills.put (h : Fills tab width buf n text s) (hcell : cell + n + 1 = width) (c : Byte) :
    Fills tab width buf (n + 1) (c :: text) (s.put cell c) where
  text := by
    have hstart : width - (n + 1) = cell := by omega
    have hrest : width - n = cell + 1 := by omega
    rw [hstart, Conversion.put_buf, cells_update_before, ← hrest, h.text]
  stored j := by
    rw [Conversion.put, List.mem_append, List.mem_singleton, h.stored]
    omega
  frame j hj := by
    rw [Conversion.put_buf, Function.update_of_ne (by omega)]
    exact h.frame j hj
  loaded := h.loaded

theorem Fills.divide (h : Fills tab width buf n text s) (base : Word) :
    Fills tab width buf n text (s.divide base) := ⟨h.text, h.stored, h.frame, h.loaded⟩

/-- A digit that the table contains. -/
theorem Fills.digit (h : Fills tab width buf n text s) (hcell : cell + n + 1 = width)
    {base : Word} (hd : (s.val % base).toNat < tab.chars.length) :
    ∃ s', s.digit tab base cell = .returns s' ∧ s'.val = s.val ∧
      Fills tab width buf (n + 1) (tab.chars[(s.val % base).toNat] :: text) s' := by
  have hput := h.put hcell tab.chars[(s.val % base).toNat]
  rw [Conversion.digit, CString.load_natCast tab _ hd]
  refine ⟨_, rfl, rfl, hput.text, hput.stored, hput.frame, fun j hj => ?_⟩
  rcases List.mem_append.mp hj with hj | hj
  · exact h.loaded j hj
  · rwa [List.mem_singleton.mp hj]

end Fields

/-! ## The passes -/

section Passes

variable {buf : Nat → Byte} {v : Word} {i : Nat} {s : Conversion}

theorem hexatab_getElem : ∀ d (hd : d < hexatab.chars.length), hexatab.chars[d] = digitChar d := by
  decide

theorem dectab_getElem : ∀ d (hd : d < dectab.chars.length), dectab.chars[d] = digitChar d := by
  decide

/-- The value after `i` divisions. -/
theorem toNat_divide {base : Word} (hval : s.val.toNat = v.toNat / base.toNat ^ i) :
    (s.divide base).val.toNat = v.toNat / base.toNat ^ (i + 1) := by
  rw [Conversion.divide, BitVec.toNat_udiv, hval, Nat.div_div_eq_div_mul, Nat.pow_succ]

theorem toNat_digit {base : Word} (hval : s.val.toNat = v.toNat / base.toNat ^ i) :
    (s.val % base).toNat = v.toNat / base.toNat ^ i % base.toNat := by
  rw [BitVec.toNat_umod, hval]

/-- What `_itoa_hex` has done before the pass `i`. -/
def HexSoFar (v : Word) (buf : Nat → Byte) (i : Nat) (s : Conversion) : Prop :=
  s.val.toNat = v.toNat / 16 ^ i ∧
    Fills hexatab 8 buf i ((low 16 v.toNat i).map digitChar) s

theorem hexPass_fills (hi : i < 8) (hd : v.toNat / 16 ^ i % 16 < 14) (h : HexSoFar v buf i s) :
    ∃ s', hexPass i s = .returns s' ∧ HexSoFar v buf (i + 1) s' := by
  obtain ⟨hval, hfills⟩ := h
  have hdigit : (s.val % 16).toNat = v.toNat / 16 ^ i % 16 := toNat_digit hval
  have hin : (s.val % 16).toNat < hexatab.chars.length := hdigit ▸ hd
  have hcell : 7 - i + i + 1 = 8 := by omega
  obtain ⟨s', hs', hval', hfills'⟩ := hfills.digit hcell hin
  refine ⟨s'.divide 16, ?_, toNat_divide (by rw [hval']; exact hval), ?_⟩
  · rw [hexPass, hs']
    rfl
  · rw [hexatab_getElem _ hin, hdigit] at hfills'
    exact hfills'.divide 16

/-- Every digit is looked up, in so far as the table allows it. -/
theorem hexPass_loads (hval : s.val.toNat = v.toNat / 16 ^ i)
    (hall : ∀ k < i, v.toNat / 16 ^ k % 16 ∈ s.loaded) :
    (hexPass i s).Meets (fun s' => s'.val.toNat = v.toNat / 16 ^ (i + 1) ∧
      ∀ k < i + 1, v.toNat / 16 ^ k % 16 ∈ s'.loaded) fun _ => True := by
  have hdigit : (s.val % 16).toNat = v.toNat / 16 ^ i % 16 := toNat_digit hval
  rw [hexPass, Conversion.digit]
  cases hexatab.load Fault.beyondTable (s.val % 16).toNat with
  | running => trivial
  | throws e => trivial
  | returns c =>
      refine ⟨toNat_divide (s := { s.put (7 - i) c with loaded := _ }) hval, fun k hk => ?_⟩
      rcases Nat.lt_succ_iff_lt_or_eq.mp hk with hk | rfl
      · exact List.mem_append_left _ (hall k hk)
      · exact List.mem_append_right _ (List.mem_singleton.mpr hdigit.symm)

theorem itoaHex_loads (v : Word) (buf : Nat → Byte) :
    (itoaHex v buf).Meets (fun s => ∀ k < 8, v.toNat / 16 ^ k % 16 ∈ s.loaded) fun _ => True := by
  refine (forBelow_meets (P := fun i s => s.val.toNat = v.toNat / 16 ^ i ∧
    ∀ k < i, v.toNat / 16 ^ k % 16 ∈ s.loaded) (fun i _ s hs => hexPass_loads hs.1 hs.2)
    ⟨?_, fun k hk => absurd hk (Nat.not_lt_zero k)⟩).imp (fun s hs => hs.2) fun _ he => he
  rw [Nat.pow_zero, Nat.div_one]

/-- The characters of the field before the pass `i`: digits while there are any, then blanks. -/
def decText (v : Word) (i : Nat) : List Byte :=
  List.replicate (i - (Nat.log 10 v.toNat + 1)) 0x20 ++
    (low 10 v.toNat (min i (Nat.log 10 v.toNat + 1))).map digitChar

/-- What `_itoa_dec` has done before the pass `i`. -/
def DecSoFar (v : Word) (buf : Nat → Byte) (i : Nat) (s : Conversion) : Prop :=
  s.val.toNat = v.toNat / 10 ^ i ∧ Fills dectab 10 buf i (decText v i) s

theorem decText_zero (v : Word) : decText v 0 = [] := by
  rw [decText, Nat.zero_sub, Nat.zero_min]
  rfl

theorem decText_digit (hi : i < Nat.log 10 v.toNat + 1) :
    decText v (i + 1) = digitChar (v.toNat / 10 ^ i % 10) :: decText v i := by
  rw [decText, decText, Nat.sub_eq_zero_of_le hi, Nat.sub_eq_zero_of_le (Nat.le_of_lt hi),
    Nat.min_eq_left hi, Nat.min_eq_left (Nat.le_of_lt hi)]
  rfl

theorem decText_blank (hi : Nat.log 10 v.toNat + 1 ≤ i) :
    decText v (i + 1) = 0x20 :: decText v i := by
  rw [decText, decText, Nat.min_eq_right hi, Nat.min_eq_right (Nat.le_succ_of_le hi),
    Nat.succ_sub hi, List.replicate_succ]
  rfl

theorem decPass_fills (hi : i < 10) (h : DecSoFar v buf i s) :
    ∃ s', decPass i s = .returns s' ∧ DecSoFar v buf (i + 1) s' := by
  obtain ⟨hval, hfills⟩ := h
  have hzero : s.val = 0 ↔ v.toNat / 10 ^ i = 0 := by
    rw [← hval, ← BitVec.toNat_inj]
    rfl
  have hblank : ¬ (s.val ≠ 0 ∨ i = 0) ↔ Nat.log 10 v.toNat + 1 ≤ i := by
    rw [← divided_iff (by decide), not_or, not_not, hzero]
  rcases Nat.lt_or_ge i (Nat.log 10 v.toNat + 1) with hlt | hge
  · have hdigit : (s.val % 10).toNat = v.toNat / 10 ^ i % 10 := toNat_digit hval
    have hin : (s.val % 10).toNat < dectab.chars.length := by
      rw [hdigit]
      exact Nat.mod_lt _ (by decide)
    have hcell : 9 - i + i + 1 = 10 := by omega
    obtain ⟨s', hs', hval', hfills'⟩ := hfills.digit hcell hin
    refine ⟨s'.divide 10, ?_, toNat_divide (by rw [hval']; exact hval), ?_⟩
    · rw [decPass, if_pos (not_not.mp (mt hblank.mp (Nat.not_le.mpr hlt))), hs']
      rfl
    · rw [dectab_getElem _ hin, hdigit] at hfills'
      rw [decText_digit hlt]
      exact hfills'.divide 10
  · refine ⟨(s.put (9 - i) 0x20).divide 10, ?_, toNat_divide (s := s.put (9 - i) 0x20) hval, ?_⟩
    · rw [decPass, if_neg (hblank.mpr hge)]
      rfl
    · rw [decText_blank hge]
      exact (hfills.put (by omega) 0x20).divide 10

end Passes

/-! ## What is written -/

/-- `_itoa_hex` writes eight digits that read back as `v`. -/
def HexRendered (v : Word) (buf : Nat → Byte) : Prop :=
  ∃ s text, itoaHex v buf = .returns s ∧ Fills hexatab 8 buf 8 text s ∧
    readNumber 16 text = some v.toNat

/-- `_itoa_dec` writes ten characters, blanks and then digits that read back as `v`. -/
def DecRendered (v : Word) (buf : Nat → Byte) : Prop :=
  ∃ s blanks digits, itoaDec v buf = .returns s ∧
    Fills dectab 10 buf 10 (List.replicate blanks 0x20 ++ digits) s ∧ digits ≠ [] ∧
      readNumber 10 digits = some v.toNat ∧
        (digits.head? = some (digitChar 0) → digits = [digitChar 0])

theorem hexRendered_iff (v : Word) (buf : Nat → Byte) :
    HexRendered v buf ↔ ∀ k < 8, v.toNat / 16 ^ k % 16 < 14 := by
  constructor
  · rintro ⟨s, text, hs, hfills, -⟩ k hk
    exact hfills.loaded _ ((itoaHex_loads v buf).returned hs k hk)
  · intro hall
    have hstart : HexSoFar v buf 0 { val := v, buf, loaded := [], stored := [] } :=
      ⟨(Nat.div_one _).symm, .start v⟩
    obtain ⟨s, hs, -, hfills⟩ :=
      forBelow_returns (fun i hi s h => hexPass_fills hi (hall i hi) h) hstart
    have hlt : v.toNat < 16 ^ 8 := Nat.lt_of_lt_of_le v.isLt (by decide)
    refine ⟨s, _, hs, hfills, ?_⟩
    rw [readNumber_digitChars (Nat.le_refl 16) fun d => lt_of_mem_low (by decide),
      value_low_of_lt hlt]

theorem decRendered (v : Word) (buf : Nat → Byte) : DecRendered v buf := by
  have hstart : DecSoFar v buf 0 { val := v, buf, loaded := [], stored := [] } :=
    ⟨(Nat.div_one _).symm, by rw [decText_zero]; exact .start v⟩
  obtain ⟨s, hs, -, hfills⟩ := forBelow_returns (fun i hi s h => decPass_fills hi h) hstart
  have hlog : Nat.log 10 v.toNat + 1 ≤ 10 := by
    exact Nat.log_lt_of_lt_pow' (by decide) (Nat.lt_of_lt_of_le v.isLt (by decide))
  rw [decText, Nat.min_eq_right hlog] at hfills
  exact ⟨s, _, numberChars 10 v.toNat, hs, hfills, numberChars_ne_nil 10 v.toNat,
    readNumber_numberChars (by decide) (by decide) v.toNat,
    head_numberChars (by decide) (by decide)⟩

/-- The numbers of the kernel are right when the hexadecimal one has no digit above D. -/
theorem rendered_iff (v : Word) (buf : Nat → Byte) :
    HexRendered v buf ∧ DecRendered v buf ↔ ∀ k < 8, v.toNat / 16 ^ k % 16 < 14 :=
  (and_iff_left (decRendered v buf)).trans (hexRendered_iff v buf)

/-- The digit 14 reads the NUL of the table. -/
theorem letter_e_missing :
    ¬ ∀ (v : Word) (buf : Nat → Byte), HexRendered v buf ∧ DecRendered v buf := by
  intro hall
  obtain ⟨⟨s, text, hs, hfills, -⟩, -⟩ := hall 0xE fun _ => 0
  have hload := (itoaHex_loads 0xE fun _ => 0).returned hs 0 (by decide)
  exact absurd (hfills.loaded _ hload) (by decide)

end SmcTp.Giet.Itoa
