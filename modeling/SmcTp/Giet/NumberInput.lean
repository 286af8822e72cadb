import SmcTp.Giet.EditBuffer

/-!
# Numbers from the terminal

`tty_getw_irq` edits a string of digits in a buffer of 32 characters, echoing it, and reads
it when LF or CR comes.

*The digits.*  `numberLine` is the line that the bytes make: digits are put, DEL erases, and
other bytes are ignored.  A call follows it (`Follows.getsByte`).

*The overflow.*  The number is read modulo `2^32`, and a digit after which it is smaller
than before is taken for the sign of an overflow.  A number can come round without getting
smaller, as `5000000000` does.  `parsed_iff` says which digits are read as they should be.
-/

namespace SmcTp.Giet

open Programs LineEditor Numerals

/-! ## The function -/

/-- The variables of `tty_getw_irq`: `buf` with `max`, `done`, the calls of `tty_putc`, and
`*val` when it has been written. -/
structure Getw where
  line : EditBuffer
  done : Bool
  echo : List Byte
  val : Option Word
  returned : Bool

/-- The variables of the conversion. -/
structure Decimal where
  dec : Word
  save : Word
  overflow : Bool
deriving DecidableEq, Repr

/-- A pass of the conversion, with `buf[i]`. -/
def Decimal.add (a : Decimal) (c : Byte) : Decimal :=
  let dec := a.dec * 10 + (c.setWidth 32 - 0x30)
  { dec, save := dec, overflow := a.overflow || decide (dec < a.save) }

namespace Getw

/-- BS, blank and BS again, which take a character off the screen. -/
def rubout : List Byte := [0x08, 0x20, 0x08]

/-- The string is cancelled, and the value is 0. -/
def cancel (s : Getw) : Getw :=
  { s with
    echo := s.echo ++ (List.replicate s.line.index.toNat rubout).flatten ++ [0x30]
    val := some 0
    returned := true }

/-- What follows the loop. -/
def convert (s : Getw) : Getw :=
  let a := (cells s.line.buf 0 s.line.index.toNat).foldl Decimal.add ⟨0, 0, false⟩
  if a.overflow then s.cancel else { s with val := some a.dec, returned := true }

/-- What the loop does with a byte. -/
def edit (s : Getw) (byte : Byte) : Getw :=
  if 0x2F < byte ∧ byte < 0x3A then
    { s with line := s.line.push byte, echo := s.echo ++ [byte] }
  else if byte = 0x0A ∨ byte = 0x0D then { s with done := true }
  else if byte = 0x7F then
    if 0 < s.line.index then { s with line := s.line.pop, echo := s.echo ++ rubout } else s
  else s

/-- The end of a pass: `if (max == 32)`, and the test of the loop. -/
def finish (s : Getw) : Getw :=
  if s.line.index = 32 then s.cancel else if s.done then s.convert else s

/-- A pass of the loop that has got a byte. -/
def getsByte (s : Getw) (byte : Byte) : Getw := if s.returned then s else (s.edit byte).finish

/-- A call before its first byte. -/
def start (buf : Nat → Byte) : Getw :=
  { line := .start buf, done := false, echo := [], val := none, returned := false }

end Getw

/-- `tty_getw_irq`, after these polls. -/
def ttyGetwIrq (buf : Nat → Byte) (polls : List (Option Byte)) : Getw :=
  polls.foldl (poll Getw.getsByte) (.start buf)

/-! ## What should be read -/

/-- What a byte does to a line of digits. -/
def numberKey (c : Byte) : Key Byte :=
  if 0x2F < c ∧ c < 0x3A then .put c
  else if c = 0x0A ∨ c = 0x0D then .enter
  else if c = 0x7F then .erase
  else .other

/-- The line of digits that bytes make. -/
def numberLine (bytes : List Byte) : Line Byte := Line.typed 32 (bytes.map numberKey)

/-- The digits of a line. -/
def digitsOf (text : List Byte) : List Nat := text.map fun c => c.toNat - 0x30

/-- The number that should be stored for a line. -/
def numberOf (text : List Byte) : Word :=
  if text.length = 32 ∨ 2 ^ 32 ≤ value 10 (digitsOf text) then 0
  else BitVec.ofNat 32 (value 10 (digitsOf text))

/-- The call writes into its buffer only, and when the line is closed it returns with the
number of the line. -/
structure Parsed (buf : Nat → Byte) (polls : List (Option Byte)) : Prop where
  inside : ∀ i ∈ (ttyGetwIrq buf polls).line.stored, i < 32
  returns : (numberLine polls.reduceOption).Closed 32 →
    (ttyGetwIrq buf polls).returned = true ∧
      (ttyGetwIrq buf polls).val = some (numberOf (numberLine polls.reduceOption).text)

/-! ## The conversion -/

section Conversion

/-- A line of digits. -/
def AllDigits (text : List Byte) : Prop := ∀ c ∈ text, 0x2F < c ∧ c < 0x3A

theorem digit_lt {text : List Byte} (h : AllDigits text) : ∀ d ∈ digitsOf text, d < 10 := by
  intro d hd
  obtain ⟨c, hc, rfl⟩ := List.mem_map.mp hd
  have hlt : c.toNat < 0x3A := (h c hc).2
  omega

theorem toNat_digit {c : Byte} (h : 0x2F < c ∧ c < 0x3A) :
    (c.setWidth 32 - 0x30 : Word).toNat = c.toNat - 0x30 := by
  have hle : 0x2F < c.toNat := h.1
  have hwide : (c.setWidth 32).toNat = c.toNat := by
    rw [BitVec.toNat_setWidth]
    exact Nat.mod_eq_of_lt (Nat.lt_trans c.isLt (by decide))
  have hbase : (0x30 : Word) ≤ c.setWidth 32 := by
    rw [BitVec.le_def, hwide]
    exact hle
  rw [BitVec.toNat_sub_of_le hbase, hwide]
  rfl

/-- The conversion computes the number modulo `2^32` and looks for falls. -/
theorem foldl_add {text : List Byte} (h : AllDigits text) :
    let a := text.foldl Decimal.add ⟨0, 0, false⟩
    a.dec = BitVec.ofNat 32 (value 10 (digitsOf text)) ∧ a.save = a.dec ∧
      (a.overflow = true ↔ Falls 10 (2 ^ 32) (digitsOf text)) := by
  induction text using List.reverseRecOn with
  | nil => exact ⟨rfl, rfl, iff_of_false Bool.false_ne_true (not_falls_nil _ _)⟩
  | append_singleton text c ih =>
      obtain ⟨hdec, hsave, hoverflow⟩ := ih fun e he => h e (List.mem_append_left _ he)
      have hc := h c (List.mem_append_right _ (List.mem_singleton.mpr rfl))
      have hdigits : digitsOf (text ++ [c]) = digitsOf text ++ [c.toNat - 0x30] := List.map_append
      rw [List.foldl_append]
      generalize text.foldl Decimal.add ⟨0, 0, false⟩ = a at hdec hsave hoverflow ⊢
      have hnext : a.dec * 10 + (c.setWidth 32 - 0x30) =
          BitVec.ofNat 32 (value 10 (digitsOf (text ++ [c]))) := by
        have hdigit : c.setWidth 32 - 0x30 = BitVec.ofNat 32 (c.toNat - 0x30) := by
          rw [← toNat_digit hc, BitVec.ofNat_toNat, BitVec.setWidth_eq]
        rw [hdigits, value_concat, BitVec.ofNat_add, BitVec.ofNat_mul, hdec, hdigit]
        rfl
      refine ⟨hnext, rfl, ?_⟩
      have hfalls : a.dec * 10 + (c.setWidth 32 - 0x30) < a.save ↔
          value 10 (digitsOf text ++ [c.toNat - 0x30]) % 2 ^ 32 <
            value 10 (digitsOf text) % 2 ^ 32 := by
        rw [hnext, hsave, hdec, BitVec.lt_def, BitVec.toNat_ofNat, BitVec.toNat_ofNat, hdigits]
      rw [hdigits, falls_concat_iff, ← hoverflow, ← hfalls]
      simp [Decimal.add]

/-- What the conversion of a string gives. -/
def converted (text : List Byte) : Word :=
  let a := text.foldl Decimal.add ⟨0, 0, false⟩
  if a.overflow then 0 else a.dec

theorem converted_of_falls {text : List Byte} (h : AllDigits text)
    (hfalls : Falls 10 (2 ^ 32) (digitsOf text)) : converted text = 0 :=
  if_pos ((foldl_add h).2.2.mpr hfalls)

theorem converted_of_not_falls {text : List Byte} (h : AllDigits text)
    (hfalls : ¬ Falls 10 (2 ^ 32) (digitsOf text)) :
    converted text = BitVec.ofNat 32 (value 10 (digitsOf text)) := by
  rw [← (foldl_add h).1]
  exact if_neg (mt (foldl_add h).2.2.mp hfalls)

/-- The digits whose number is read as it should be. -/
theorem converted_eq_numberOf_iff {text : List Byte} (h : AllDigits text)
    (hshort : text.length ≠ 32) :
    converted text = numberOf text ↔
      value 10 (digitsOf text) < 2 ^ 32 ∨ Falls 10 (2 ^ 32) (digitsOf text) := by
  have hlt : ∀ d ∈ digitsOf text, d < 2 ^ 32 := fun d hd =>
    Nat.lt_trans (digit_lt h d hd) (by decide)
  rcases Nat.lt_or_ge (value 10 (digitsOf text)) (2 ^ 32) with hsmall | hlarge
  · rw [converted_of_not_falls h (not_falls_of_lt (by decide) hsmall), numberOf,
      if_neg (not_or.mpr ⟨hshort, Nat.not_le.mpr hsmall⟩)]
    exact iff_of_true rfl (.inl hsmall)
  · have hnumber : numberOf text = 0 := if_pos (.inr hlarge)
    rw [hnumber, or_iff_right (Nat.not_lt.mpr hlarge)]
    by_cases hfalls : Falls 10 (2 ^ 32) (digitsOf text)
    · exact iff_of_true (converted_of_falls h hfalls) hfalls
    · rw [converted_of_not_falls h hfalls]
      refine iff_of_false (fun hzero => ?_) hfalls
      have hresidue : value 10 (digitsOf text) % 2 ^ 32 = 0 := by
        rw [← BitVec.toNat_ofNat, hzero]
        rfl
      have hvalue := value_eq_zero_of_not_falls hlt hfalls hresidue
      omega

end Conversion

/-! ## The run -/

section Run

variable {s : Getw} {l : Line Byte}

/-- A call that waits has the digits of the line in its buffer, and a call that has returned
has stored what the digits are converted to. -/
inductive Follows (s : Getw) (l : Line Byte) : Prop where
  | waits : l.ended = false → l.text.length < 32 → s.returned = false → s.done = false →
      s.line.Shows 32 l.text → Follows s l
  | finished : l.Closed 32 → s.returned = true →
      s.val = some (if l.text.length = 32 then 0 else converted l.text) →
        (∀ i ∈ s.line.stored, i < 32) → Follows s l

theorem not_closed_of_short (hended : l.ended = false) (hshort : l.text.length < 32) :
    ¬ l.Closed 32 := by
  rintro (hclosed | hfull)
  · rw [hended] at hclosed
    cases hclosed
  · omega

theorem index_eq_iff {t : List Byte} (h : s.line.Shows 32 t) :
    s.line.index = 32 ↔ t.length = 32 := by
  rw [← BitVec.toNat_inj, h.index]
  rfl

/-- The end of a pass in which the line has not been ended. -/
theorem Follows.finish (hended : l.ended = false) (hle : l.text.length ≤ 32)
    (hreturned : s.returned = false) (hdone : s.done = false) (h : s.line.Shows 32 l.text) :
    Follows s.finish l := by
  unfold Getw.finish
  split
  next hfull =>
    have hlength := (index_eq_iff h).mp hfull
    refine .finished (.inr hlength) rfl ?_ h.inside
    rw [if_pos hlength]
    rfl
  next hmore =>
    have hlength : l.text.length ≠ 32 := mt (index_eq_iff h).mpr hmore
    rw [if_neg (by simp [hdone])]
    exact .waits hended (by omega) hreturned hdone h

/-- What follows the loop, with these digits in the buffer. -/
theorem convert_spec {t : List Byte} (h : s.line.Shows 32 t) :
    s.convert.returned = true ∧ s.convert.val = some (converted t) ∧ s.convert.line = s.line := by
  unfold Getw.convert converted
  rw [h.index, h.holds]
  dsimp only
  split
  · exact ⟨rfl, rfl, rfl⟩
  · exact ⟨rfl, rfl, rfl⟩

/-- The end of the pass in which the line has been ended. -/
theorem Follows.ended (hshort : l.text.length < 32) (h : s.line.Shows 32 l.text) :
    Follows (Getw.finish { s with done := true }) { l with ended := true } := by
  have hlength : l.text.length ≠ 32 := Nat.ne_of_lt hshort
  have hindex : ¬ s.line.index = 32 := mt (index_eq_iff h).mp hlength
  obtain ⟨hreturned, hval, hline⟩ := convert_spec (s := { s with done := true }) h
  rw [Getw.finish, if_neg hindex, if_pos rfl]
  refine .finished (.inl rfl) hreturned ?_ ?_
  · rw [if_neg hlength]
    exact hval
  · rw [hline]
    exact h.inside

/-- What a byte does to the line and to the call. -/
theorem Follows.getsByte (h : Follows s l) (c : Byte) :
    Follows (s.getsByte c) (l.press 32 (numberKey c)) := by
  cases h with
  | finished hclosed hreturned hval hinside =>
      rw [Line.press_of_closed hclosed, Getw.getsByte, if_pos hreturned]
      exact .finished hclosed hreturned hval hinside
  | waits hended hshort hreturned hdone hshows =>
      have hopen := not_closed_of_short hended hshort
      rw [Line.press_of_open hopen, Getw.getsByte, if_neg (by simp [hreturned]), numberKey,
        Getw.edit]
      split
      next hdigit =>
        have hlength : (l.text ++ [c]).length = l.text.length + 1 := List.length_append
        exact .finish (l := ⟨l.text ++ [c], l.ended⟩) hended (by rw [hlength]; exact hshort)
          hreturned hdone (hshows.push hshort (by decide) c)
      next =>
      split
      next => exact .ended hshort hshows
      next =>
      split
      next =>
        have hdropped : l.text.dropLast.length ≤ 32 := by
          rw [List.length_dropLast]
          omega
        split
        next hindex =>
          exact .finish (l := ⟨l.text.dropLast, l.ended⟩) hended hdropped hreturned hdone
            (hshows.pop (hshows.index_pos_iff.mp hindex))
        next hindex =>
          have hempty : l.text = [] := not_not.mp (mt hshows.index_pos_iff.mpr hindex)
          have hsame : l.edit .erase = l := by
            rw [Line.edit, hempty, List.dropLast_nil, ← hempty]
          rw [hsame]
          exact .finish hended (Nat.le_of_lt hshort) hreturned hdone hshows
      next => exact .finish hended (Nat.le_of_lt hshort) hreturned hdone hshows

theorem numberLine_concat (bytes : List Byte) (c : Byte) :
    numberLine (bytes ++ [c]) = (numberLine bytes).press 32 (numberKey c) := by
  rw [numberLine, List.map_append, List.map_singleton, Line.typed_concat]
  rfl

theorem allDigits_numberLine (bytes : List Byte) : AllDigits (numberLine bytes).text := by
  induction bytes using List.reverseRecOn with
  | nil => exact fun c hc => absurd hc List.not_mem_nil
  | append_singleton bytes c ih =>
      rw [numberLine_concat]
      by_cases hclosed : (numberLine bytes).Closed 32
      · rwa [Line.press_of_closed hclosed]
      · rw [Line.press_of_open hclosed, numberKey]
        split
        next hdigit =>
          intro d hd
          rcases List.mem_append.mp hd with hd | hd
          · exact ih d hd
          · rwa [List.mem_singleton.mp hd]
        next =>
        split
        next => exact ih
        next =>
        split
        next => exact fun d hd => ih d ((List.dropLast_sublist _).subset hd)
        next => exact ih

/-- A call follows the line that its bytes make. -/
theorem follows_run (buf : Nat → Byte) (bytes : List Byte) :
    Follows (bytes.foldl Getw.getsByte (.start buf)) (numberLine bytes) := by
  induction bytes using List.reverseRecOn with
  | nil => exact .waits rfl (by decide) rfl rfl (EditBuffer.shows_start 32 buf)
  | append_singleton bytes c ih =>
      rw [List.foldl_append, numberLine_concat]
      exact ih.getsByte c

/-- A number is read as it should be, unless its digits come to `2^32` or more without
a fall. -/
theorem parsed_iff (buf : Nat → Byte) (polls : List (Option Byte)) :
    Parsed buf polls ↔ ((numberLine polls.reduceOption).Closed 32 →
      (numberLine polls.reduceOption).text.length = 32 ∨
        value 10 (digitsOf (numberLine polls.reduceOption).text) < 2 ^ 32 ∨
          Falls 10 (2 ^ 32) (digitsOf (numberLine polls.reduceOption).text)) := by
  have hfollows := follows_run buf polls.reduceOption
  have hdigits := allDigits_numberLine polls.reduceOption
  rw [← foldl_poll] at hfollows
  cases hfollows with
  | waits hended hshort _ _ hshows =>
      have hopen := not_closed_of_short hended hshort
      exact iff_of_true ⟨hshows.inside, fun h => absurd h hopen⟩ fun h => absurd h hopen
  | finished hclosed hreturned hval hinside =>
      have hval : (ttyGetwIrq buf polls).val = _ := hval
      have hparsed : Parsed buf polls ↔
          (ttyGetwIrq buf polls).val = some (numberOf (numberLine polls.reduceOption).text) :=
        ⟨fun h => (h.returns hclosed).2, fun h => ⟨hinside, fun _ => ⟨hreturned, h⟩⟩⟩
      rw [hparsed, hval, forall_prop_of_true hclosed, Option.some.injEq]
      by_cases hfull : (numberLine polls.reduceOption).text.length = 32
      · have hnumber : numberOf (numberLine polls.reduceOption).text = 0 := if_pos (.inl hfull)
        rw [if_pos hfull, hnumber]
        exact iff_of_true rfl (.inl hfull)
      · rw [if_neg hfull, or_iff_right hfull]
        exact converted_eq_numberOf_iff hdigits hfull

/-- `5000000000` comes round to a larger number than `500000000`. -/
theorem overflow_not_seen :
    ¬ ∀ (buf : Nat → Byte) (polls : List (Option Byte)), Parsed buf polls := by
  intro hall
  have hparsed := hall (fun _ => 0) ((['5', '0', '0', '0', '0', '0', '0', '0', '0', '0'].map
    fun c => some (ascii c)) ++ [some 0x0A])
  exact absurd (hparsed.returns (by decide)).2 (by decide)

end Run

end SmcTp.Giet
