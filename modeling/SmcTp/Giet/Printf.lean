import Mathlib.Data.List.TakeWhile
import SmcTp.Giet.DigitLoops

/-!
# `tty_printf`

The format is text and conversions, a `%` and the character behind it.  `tty_printf` writes
the text in runs, and for a conversion it takes the next argument and writes what the
character asks for.

*The reference.*  `rendering` is what a format says: `%d`, `%u`, `%x`, `%c` and `%s` are
replaced by the next argument, and all the rest is text and copied.  Numbers are written with
`numberChars`, whose digits read back as the number.

*The lax reading.*  `tty_printf` takes a conversion that is not supported for an empty one
with an argument.  From there on it writes what `lax` says.

*Faults.*  At three places the program reads what is not there (`Piece.fault`).  A `%` that
ends the format is followed by the NUL, and the pointer is moved beyond it.  `%u` divides
its argument as a signed number, so that the first half of the unsigned numbers is all it
can print, and the opposite of the most negative number, for `%d`, is that number.

`printed_iff` says that `tty_printf` is right exactly when the terminal is full before it
comes to a fault or to a character that the two readings do not share, or when there is
neither.
-/

namespace SmcTp.Giet

open Programs

/-- `format`, pointing into its string or beyond the NUL. -/
inductive Pointer where
  | at (rest : List Byte)
  | beyond
deriving DecidableEq, Repr

namespace Pointer

/-- `*format` -/
def load : Pointer → Outcome Stop Byte
  | .at [] => .returns 0
  | .at (c :: _) => .returns c
  | .beyond => .throws .beyondFormat

/-- `format++` -/
def next : Pointer → Pointer
  | .at (_ :: rest) => .at rest
  | _ => .beyond

/-- `for (i = 0; format[i] && format[i] != '%'; i++);`: the characters up to `format[i]`, and
`format + i`. -/
def text : Pointer → Outcome Stop (List Byte × Pointer)
  | .at rest => .returns (rest.takeWhile (· ≠ ascii '%'), .at (rest.dropWhile (· ≠ ascii '%')))
  | .beyond => .throws .beyondFormat

end Pointer

/-- What a call of `tty_printf` finds: when the terminal is full, the strings in memory by
their addresses, the words from its first argument on, and what `buf` holds when its block is
entered at a place of the format. -/
structure Setting where
  full : Nat → Bool
  strings : Word → CString
  args : Nat → Word
  buf : Pointer → Nat → Byte

/-- `if (i) { ret = sys_call(SYSCALL_TTY_WRITE, format, i); if (ret != i) return 1; }` -/
def writeText (full : Nat → Bool) (chars : List Byte) (tty : Tty) : Outcome Stop Tty :=
  if chars.length ≠ 0 then write full chars tty else .returns tty

/-- The cases of `%d`, behind its sign, and of `%u`. -/
def decimalCase (full : Nat → Bool) (val : Word) (buf : Nat → Byte) (tty : Tty) :
    Outcome Stop Tty := do
  let chars ← decimalLoop val buf
  write full chars tty

/-- `switch (*format++)`, and what is written behind it. -/
def convert (setting : Setting) (kind : Byte) (val : Word) (buf : Nat → Byte) (tty : Tty) :
    Outcome Stop Tty :=
  let full := setting.full
  if kind = ascii 'c' then write full [val.setWidth 8] tty
  else if kind = ascii 'd' then
    if val.slt 0 then do
      let tty ← write full [ascii '-'] tty
      decimalCase full (-val) buf tty
    else decimalCase full val buf tty
  else if kind = ascii 'u' then decimalCase full val buf tty
  else if kind = ascii 'x' then do
    let tty ← write full [ascii '0', ascii 'x'] tty
    let chars ← hexLoop val buf
    write full chars tty
  else if kind = ascii 's' then write full (setting.strings val).chars tty
  else .returns tty

/-- `tty_printf` from `printf_text` on, with `ap` arguments taken. -/
def printfText (setting : Setting) : Nat → Pointer → Nat → Tty → Outcome Stop Tty
  | 0, _, _, _ => .running
  | fuel + 1, format, ap, tty => do
      let c ← format.load
      if c = 0 then pure tty
      else do
        let run ← format.text
        let format := run.2
        let tty ← writeText setting.full run.1 tty
        let c ← format.load
        if c = ascii '%' then do
          let format := format.next
          let kind ← format.load
          let tty ← convert setting kind (setting.args ap) (setting.buf format) tty
          printfText setting fuel format.next (ap + 1) tty
        else printfText setting fuel format ap tty

/-- `tty_printf`, with the value that it returns and the characters written, unless it is
stopped by a read of what is not there. -/
def ttyPrintf (setting : Setting) (fuel : Nat) (format : CString) : Option (Nat × List Byte) :=
  match printfText setting fuel (.at format.chars) 0 ⟨0, []⟩ with
  | .returns tty => some (0, tty.written)
  | .throws (.error tty) => some (1, tty.written)
  | _ => none

/-! ## What a format says -/

/-- A character of text, a conversion, or a `%` with nothing behind it. -/
inductive Piece where
  | text (c : Byte)
  | conversion (kind : Byte)
  | percent
deriving DecidableEq, Repr

def pieces : List Byte → List Piece
  | [] => []
  | [c] => if c = ascii '%' then [.percent] else [.text c]
  | c :: kind :: rest =>
      if c = ascii '%' then .conversion kind :: pieces rest else .text c :: pieces (kind :: rest)

/-- The digits of an integer, behind a minus sign when it is negative. -/
def signedChars (z : Int) : List Byte :=
  if z < 0 then ascii '-' :: numberChars 10 z.natAbs else numberChars 10 z.natAbs

/-- The conversions that are supported. -/
def supported (kind : Byte) : Bool := kind ∈ ['c', 'd', 'u', 'x', 's'].map ascii

/-- What a conversion says of its argument, when it is supported. -/
def conversionChars (strings : Word → CString) (arg : Word) (kind : Byte) : List Byte :=
  if kind = ascii 'c' then [arg.setWidth 8]
  else if kind = ascii 'd' then signedChars arg.toInt
  else if kind = ascii 'u' then numberChars 10 arg.toNat
  else if kind = ascii 'x' then ascii '0' :: ascii 'x' :: numberChars 16 arg.toNat
  else if kind = ascii 's' then (strings arg).chars
  else []

/-- What a piece says, with the next argument.  All that is no supported conversion is text. -/
def Piece.chars (strings : Word → CString) (arg : Word) : Piece → List Byte
  | .text c => [c]
  | .conversion kind =>
      if supported kind then conversionChars strings arg kind else [ascii '%', kind]
  | .percent => [ascii '%']

/-- The arguments taken behind a piece. -/
def Piece.taken (ap : Nat) : Piece → Nat
  | .text _ => ap
  | .conversion kind => if supported kind then ap + 1 else ap
  | .percent => ap

def rendering (setting : Setting) : List Piece → Nat → List Byte
  | [], _ => []
  | p :: ps, ap =>
      p.chars setting.strings (setting.args ap) ++ rendering setting ps (p.taken ap)

/-- The format is printed: nothing is read that is not there, what is written starts the
rendering, and the call succeeds exactly when it is the whole. -/
def Printed (setting : Setting) (format : CString) : Prop :=
  ∃ ret written, (∀ fuel > format.chars.length,
      ttyPrintf setting fuel format = some (ret, written)) ∧
    written <+: rendering setting (pieces format.chars) 0 ∧
    (ret = 0 ↔ written = rendering setting (pieces format.chars) 0)

/-! ## The lax reading -/

/-- What a piece says when a conversion that is not supported says nothing. -/
def Piece.laxChars (strings : Word → CString) (arg : Word) : Piece → List Byte
  | .text c => [c]
  | .conversion kind => conversionChars strings arg kind
  | .percent => []

/-- The arguments taken behind a piece when every conversion takes one. -/
def Piece.laxTaken (ap : Nat) : Piece → Nat
  | .text _ => ap
  | .conversion _ => ap + 1
  | .percent => ap

def lax (setting : Setting) : List Piece → Nat → List Byte
  | [], _ => []
  | p :: ps, ap =>
      p.laxChars setting.strings (setting.args ap) ++ lax setting ps (p.laxTaken ap)

/-- What is written of a piece before something is read that is not there. -/
def Piece.fault (arg : Word) : Piece → Option (List Byte × Stop)
  | .text _ => none
  | .conversion kind =>
      if kind = ascii 'u' ∧ arg.msb = true then some ([], .beyondTable)
      else if kind = ascii 'd' ∧ arg = BitVec.intMin 32 then some ([ascii '-'], .beyondTable)
      else none
  | .percent => some ([], .beyondFormat)

/-- The first fault, with what is written before. -/
def firstFault (setting : Setting) : List Piece → Nat → Option (List Byte × Stop)
  | [], _ => none
  | p :: ps, ap =>
      match p.fault (setting.args ap) with
      | some f => some f
      | none =>
          (firstFault setting ps (p.laxTaken ap)).map fun f =>
            (p.laxChars setting.strings (setting.args ap) ++ f.1, f.2)

/-! ## Piece by piece -/

/-- A piece is written, up to its fault. -/
def Piece.speak (setting : Setting) (arg : Word) (p : Piece) (tty : Tty) : Outcome Stop Tty :=
  match p.fault arg with
  | none => write setting.full (p.laxChars setting.strings arg) tty
  | some f => write setting.full f.1 tty >>= fun _ => .throws f.2

def speak (setting : Setting) : List Piece → Nat → Tty → Outcome Stop Tty
  | [], _, tty => .returns tty
  | p :: ps, ap, tty =>
      p.speak setting (setting.args ap) tty >>= speak setting ps (p.laxTaken ap)

section Conversions

variable {setting : Setting} {val : Word} {tty : Tty}

theorem decimalCase_of_nonneg (full : Nat → Bool) (h : val.msb = false) (buf : Nat → Byte) :
    decimalCase full val buf tty = write full (numberChars 10 val.toNat) tty := by
  rw [decimalCase, decimalLoop_spec h, Outcome.returns_bind]

theorem decimalCase_of_neg (full : Nat → Bool) (h : val.msb = true) (buf : Nat → Byte) :
    decimalCase full val buf tty = .throws .beyondTable := by
  rw [decimalCase, decimalLoop_of_neg h, Outcome.throws_bind]

theorem signedChars_of_nonneg (h : val.msb = false) :
    signedChars val.toInt = numberChars 10 val.toNat := by
  rw [BitVec.toInt_eq_toNat_of_msb h, signedChars, if_neg (Int.not_lt.mpr (Int.natCast_nonneg _)),
    Int.natAbs_natCast]

/-- The opposite of a negative number, but for one. -/
theorem neg_of_neg (h : val.msb = true) (hmin : val ≠ BitVec.intMin 32) :
    (-val).msb = false ∧ signedChars val.toInt = ascii '-' :: numberChars 10 (-val).toNat := by
  have hneg : val.toInt < 0 := by
    rwa [BitVec.msb_eq_toInt, decide_eq_true_eq] at h
  have hopposite : (-val).toInt = -val.toInt := BitVec.toInt_neg_of_ne_intMin hmin
  have hmsb : (-val).msb = false := by
    rw [BitVec.msb_eq_toInt, hopposite]
    exact decide_eq_false (by omega)
  have habs : val.toInt.natAbs = (-val).toNat := by
    rw [BitVec.toInt_eq_toNat_of_msb hmsb] at hopposite
    omega
  exact ⟨hmsb, by rw [signedChars, if_pos hneg, habs]⟩

theorem slt_zero (val : Word) : val.slt 0 = val.msb := BitVec.slt_zero_eq_msb

theorem convert_signed (buf : Nat → Byte) :
    convert setting (ascii 'd') val buf tty =
      (Piece.conversion (ascii 'd')).speak setting val tty := by
  have hc : ascii 'd' ≠ ascii 'c' := by decide
  have hu : ¬ (ascii 'd' = ascii 'u' ∧ val.msb = true) := fun h => absurd h.1 (by decide)
  simp only [convert, Piece.speak, Piece.fault, Piece.laxChars, conversionChars, if_neg hc,
    if_neg hu, slt_zero, true_and, if_true]
  cases h : val.msb with
  | false =>
      have hmin : val ≠ BitVec.intMin 32 := by
        rintro rfl
        exact absurd h (by decide)
      rw [if_neg hmin, signedChars_of_nonneg h]
      exact decimalCase_of_nonneg _ h buf
  | true =>
      by_cases hmin : val = BitVec.intMin 32
      · have hopposite : (-val).msb = true := by
          rw [hmin]
          decide
        rw [if_pos hmin, if_pos rfl]
        simp only [decimalCase_of_neg _ hopposite]
      · obtain ⟨hopposite, hchars⟩ := neg_of_neg h hmin
        rw [if_neg hmin, if_pos rfl, hchars]
        simp only [decimalCase_of_nonneg _ hopposite]
        exact (write_append [ascii '-'] (numberChars 10 (-val).toNat) tty).symm

theorem convert_unsigned (buf : Nat → Byte) :
    convert setting (ascii 'u') val buf tty =
      (Piece.conversion (ascii 'u')).speak setting val tty := by
  have hc : ascii 'u' ≠ ascii 'c' := by decide
  have hd : ascii 'u' ≠ ascii 'd' := by decide
  simp only [convert, Piece.speak, Piece.fault, Piece.laxChars, conversionChars, if_neg hc,
    if_neg hd, true_and, if_true]
  cases h : val.msb with
  | false => simp [decimalCase_of_nonneg _ h, hd]
  | true => simp [decimalCase_of_neg _ h]

theorem convert_hexadecimal (buf : Nat → Byte) :
    convert setting (ascii 'x') val buf tty =
      (Piece.conversion (ascii 'x')).speak setting val tty := by
  have hc : ascii 'x' ≠ ascii 'c' := by decide
  have hd : ascii 'x' ≠ ascii 'd' := by decide
  have hu : ascii 'x' ≠ ascii 'u' := by decide
  simp only [convert, Piece.speak, Piece.fault, Piece.laxChars, conversionChars, if_neg hc, hd,
    hu, false_and, if_false, if_true, hexLoop_spec, Outcome.returns_bind]
  exact (write_append [ascii '0', ascii 'x'] (numberChars 16 val.toNat) tty).symm

/-- A conversion is written as it says, up to its fault. -/
theorem convert_eq (kind : Byte) (val : Word) (buf : Nat → Byte) (tty : Tty) :
    convert setting kind val buf tty = (Piece.conversion kind).speak setting val tty := by
  by_cases hd : kind = ascii 'd'
  · rw [hd, convert_signed]
  by_cases hu : kind = ascii 'u'
  · rw [hu, convert_unsigned]
  by_cases hx : kind = ascii 'x'
  · rw [hx, convert_hexadecimal]
  -- the other cases write what they say at once
  have hfault : (Piece.conversion kind).fault val = none := by
    rw [Piece.fault, if_neg fun h => hu h.1, if_neg fun h => hd h.1]
  rw [Piece.speak, hfault, convert, if_neg hd, if_neg hu, if_neg hx]
  simp only [Piece.laxChars, conversionChars, if_neg hd, if_neg hu, if_neg hx]
  split
  · rfl
  · split
    · rfl
    · rfl

end Conversions

section Refinement

variable {setting : Setting}

@[simp] theorem pieces_conversion (kind : Byte) (rest : List Byte) :
    pieces (ascii '%' :: kind :: rest) = .conversion kind :: pieces rest := rfl

theorem pieces_text {c : Byte} (hc : c ≠ ascii '%') (rest : List Byte) :
    pieces (c :: rest) = .text c :: pieces rest := by
  cases rest with
  | nil => exact if_neg hc
  | cons kind rest => rw [pieces, if_neg hc]

/-- A run of text is written as a whole. -/
theorem speak_text {t : List Byte} (ht : ∀ c ∈ t, c ≠ ascii '%') (rest : List Byte) (ap : Nat)
    (tty : Tty) :
    speak setting (pieces (t ++ rest)) ap tty =
      write setting.full t tty >>= speak setting (pieces rest) ap := by
  induction t generalizing tty with
  | nil => rfl
  | cons c t ih =>
      have hcut : write setting.full (c :: t) tty =
          write setting.full [c] tty >>= write setting.full t := write_append [c] t tty
      rw [List.cons_append, pieces_text (ht c List.mem_cons_self), hcut, bind_assoc]
      exact bind_congr fun tty' => ih (fun d hd => ht d (List.mem_cons_of_mem c hd)) tty'

theorem writeText_eq (full : Nat → Bool) (chars : List Byte) (tty : Tty) :
    writeText full chars tty = write full chars tty := by
  cases chars with
  | nil => rfl
  | cons c chars => exact if_pos (Nat.succ_ne_zero _)

/-- The characters of a run of text, and the one that ends it. -/
theorem ne_of_mem_text {l : List Byte} {c : Byte} (h : c ∈ l.takeWhile (· ≠ ascii '%')) :
    c ≠ ascii '%' := by
  simpa using List.mem_takeWhile_imp h

theorem eq_of_text_cons {l rest : List Byte} {c : Byte}
    (h : l.dropWhile (· ≠ ascii '%') = c :: rest) : c = ascii '%' := by
  have hhead := List.head?_dropWhile_not (· ≠ ascii '%') l
  rw [h] at hhead
  simpa using hhead

theorem speak_run (l : List Byte) (ap : Nat) (tty : Tty) :
    speak setting (pieces l) ap tty =
      write setting.full (l.takeWhile (· ≠ ascii '%')) tty >>=
        speak setting (pieces (l.dropWhile (· ≠ ascii '%'))) ap :=
  calc speak setting (pieces l) ap tty
      = speak setting (pieces (l.takeWhile (· ≠ ascii '%') ++ l.dropWhile (· ≠ ascii '%'))) ap
          tty := by rw [List.takeWhile_append_dropWhile]
    _ = _ := speak_text (fun _ => ne_of_mem_text) _ ap tty

/-- `tty_printf` writes the pieces of its format. -/
theorem printfText_eq {fuel : Nat} {rest : List Byte} (hnul : 0 ∉ rest)
    (hfuel : rest.length < fuel) (ap : Nat) (tty : Tty) :
    printfText setting fuel (.at rest) ap tty = speak setting (pieces rest) ap tty := by
  induction fuel generalizing rest ap tty with
  | zero => exact absurd hfuel (Nat.not_lt_zero _)
  | succ fuel ih =>
      cases rest with
      | nil => rfl
      | cons c rest =>
          have hc : c ≠ 0 := fun h => hnul (h ▸ List.mem_cons_self)
          have hsuffix : (c :: rest).dropWhile (· ≠ ascii '%') <:+ c :: rest :=
            List.dropWhile_suffix _
          have hlength : ((c :: rest).dropWhile (· ≠ ascii '%')).length ≤ fuel :=
            Nat.le_trans hsuffix.length_le (Nat.le_of_lt_succ hfuel)
          have hmore : 0 < fuel := Nat.lt_of_lt_of_le (Nat.succ_pos _) (Nat.le_of_lt_succ hfuel)
          rw [printfText, Pointer.load, Outcome.returns_bind, if_neg hc, Pointer.text,
            Outcome.returns_bind, writeText_eq, speak_run]
          refine bind_congr fun tty' => ?_
          rcases hrun : (c :: rest).dropWhile (· ≠ ascii '%') with _ | ⟨p, d⟩
          · exact ih List.not_mem_nil hmore ap tty'
          · obtain rfl : p = ascii '%' := eq_of_text_cons hrun
            rw [hrun] at hsuffix hlength
            cases d with
            | nil =>
                obtain ⟨fuel, rfl⟩ := Nat.exists_eq_succ_of_ne_zero (Nat.ne_of_gt hmore)
                rfl
            | cons kind d =>
                have hnul' : 0 ∉ d := fun h =>
                  hnul (hsuffix.mem (List.mem_cons_of_mem _ (List.mem_cons_of_mem _ h)))
                simp only [Pointer.load, Outcome.returns_bind, if_true, Pointer.next, convert_eq,
                  pieces_conversion, speak, Piece.laxTaken]
                have hlength' : d.length < fuel :=
                  Nat.lt_of_lt_of_le (Nat.lt_succ_of_lt (Nat.lt_succ_self _)) hlength
                exact bind_congr fun tty'' => ih hnul' hlength' (ap + 1) tty''

end Refinement

/-! ## The first fault -/

section Faults

variable {setting : Setting} {ps : List Piece} {ap : Nat} {f : List Byte × Stop}

theorem Piece.fault_spec {p : Piece} {arg : Word} (strings : Word → CString)
    (h : p.fault arg = some f) :
    f.1 <+: p.laxChars strings arg ∧ ∀ tty, f.2 ≠ .error tty := by
  cases p with
  | text c => cases h
  | percent =>
      cases h
      exact ⟨List.nil_prefix, fun _ h => by cases h⟩
  | conversion kind =>
      rw [Piece.fault] at h
      split at h
      · cases h
        exact ⟨List.nil_prefix, fun _ h => by cases h⟩
      · split at h
        next hmin =>
          cases h
          rw [hmin.1, hmin.2]
          exact ⟨⟨_, rfl⟩, fun _ h => by cases h⟩
        next => cases h

theorem firstFault_spec (h : firstFault setting ps ap = some f) :
    f.1 <+: lax setting ps ap ∧ ∀ tty, f.2 ≠ .error tty := by
  induction ps generalizing ap f with
  | nil => cases h
  | cons p ps ih =>
      rw [firstFault] at h
      split at h
      next g hg =>
        cases h
        obtain ⟨hstarts, hstop⟩ := Piece.fault_spec setting.strings hg
        exact ⟨hstarts.trans (List.prefix_append _ _), hstop⟩
      next =>
        obtain ⟨g, hg, rfl⟩ := Option.map_eq_some_iff.mp h
        obtain ⟨hstarts, hstop⟩ := ih hg
        exact ⟨(List.prefix_append_right_inj _).mpr hstarts, hstop⟩

/-- Without a fault the lax reading is written. -/
theorem speak_of_none (h : firstFault setting ps ap = none) (tty : Tty) :
    speak setting ps ap tty = write setting.full (lax setting ps ap) tty := by
  induction ps generalizing ap tty with
  | nil => rfl
  | cons p ps ih =>
      rw [firstFault] at h
      split at h
      next => cases h
      next hp =>
        rw [speak, Piece.speak, hp, lax, write_append]
        exact bind_congr fun tty' => ih (Option.map_eq_none_iff.mp h) tty'

/-- With one, what comes before. -/
theorem speak_of_some (h : firstFault setting ps ap = some f) (tty : Tty) :
    speak setting ps ap tty = write setting.full f.1 tty >>= fun _ => .throws f.2 := by
  induction ps generalizing ap f tty with
  | nil => cases h
  | cons p ps ih =>
      rw [firstFault] at h
      rw [speak, Piece.speak]
      split at h
      next g hp =>
        cases h
        rw [hp, bind_assoc]
        rfl
      next hp =>
        obtain ⟨g, hg, rfl⟩ := Option.map_eq_some_iff.mp h
        rw [hp, write_append, bind_assoc]
        exact bind_congr fun tty' => ih hg tty'

end Faults

/-! ## What is printed -/

section Printed

/-- What is to be written before the first fault. -/
def reach (setting : Setting) (format : CString) : List Byte :=
  match firstFault setting (pieces format.chars) 0 with
  | some f => f.1
  | none => lax setting (pieces format.chars) 0

variable {setting : Setting} {format : CString} {fuel : Nat}

theorem ttyPrintf_eq (hfuel : format.chars.length < fuel) :
    ttyPrintf setting fuel format =
      match speak setting (pieces format.chars) 0 ⟨0, []⟩ with
      | .returns tty => some (0, tty.written)
      | .throws (.error tty) => some (1, tty.written)
      | _ => none := by
  rw [ttyPrintf, printfText_eq format.noNul hfuel]

/-- The pieces are written up to the first fault. -/
theorem speak_pieces (setting : Setting) (format : CString) :
    speak setting (pieces format.chars) 0 ⟨0, []⟩ =
      write setting.full (reach setting format) ⟨0, []⟩ >>= fun tty =>
        match firstFault setting (pieces format.chars) 0 with
        | some f => .throws f.2
        | none => .returns tty := by
  unfold reach
  cases hf : firstFault setting (pieces format.chars) 0 with
  | some f => exact speak_of_some hf _
  | none =>
      rw [speak_of_none hf]
      exact (bind_pure _).symm

/-- Otherwise it stops at the first fault, or it succeeds. -/
theorem ttyPrintf_of_ready (hready : ∀ j < (reach setting format).length, setting.full j = false)
    (hfuel : format.chars.length < fuel) :
    ttyPrintf setting fuel format =
      match firstFault setting (pieces format.chars) 0 with
      | some _ => none
      | none => some (0, lax setting (pieces format.chars) 0) := by
  have hready' : ∀ j < (reach setting format).length,
      setting.full ((Tty.mk 0 []).readings + j) = false := by
    simpa using hready
  rw [ttyPrintf_eq hfuel, speak_pieces, write_of_ready hready', Outcome.returns_bind, reach]
  cases hf : firstFault setting (pieces format.chars) 0 with
  | none => rfl
  | some f =>
      obtain ⟨-, hstop⟩ := firstFault_spec hf
      obtain ⟨chars, stop⟩ := f
      cases stop with
      | error tty => exact absurd rfl (hstop tty)
      | beyondFormat => rfl
      | beyondTable => rfl

example : ttyPrintf ⟨fun _ => false, fun _ => ⟨[], List.not_mem_nil⟩, fun _ => -12, fun _ _ => 0⟩ 4
    ⟨['x', '=', '%', 'd'].map ascii, by decide⟩ =
      some (0, ['x', '=', '-', '1', '2'].map ascii) := by
  decide

/-- The format `%%%d` with the argument 7 prints what lies behind the argument. -/
theorem percent_takes_argument :
    ¬ Printed ⟨fun _ => false, fun _ => ⟨[], List.not_mem_nil⟩, fun ap => if ap = 0 then 7 else 9,
        fun _ _ => 0⟩ ⟨['%', '%', '%', 'd'].map ascii, by decide⟩ := by
  rintro ⟨ret, written, hcall, hstarts, -⟩
  have hnine : some (ret, written) = some (0, [ascii '9']) := (hcall 5 (by decide)).symm
  obtain ⟨-, rfl⟩ := Prod.mk.inj (Option.some.inj hnine)
  exact absurd hstarts (by decide)

/-! ## Formats of supported conversions -/

/-- All conversions are supported, and the format does not end with `%`. -/
def Plain (ps : List Piece) : Prop :=
  ∀ p ∈ ps, p ≠ .percent ∧ ∀ kind, p = .conversion kind → supported kind = true

/-- The lax reading is the right one for such a format. -/
theorem Plain.lax_eq {ps : List Piece} (h : Plain ps) (setting : Setting) (ap : Nat) :
    lax setting ps ap = rendering setting ps ap := by
  induction ps generalizing ap with
  | nil => rfl
  | cons p ps ih =>
      obtain ⟨hpercent, hkind⟩ := h p List.mem_cons_self
      have hrest := ih (fun q hq => h q (List.mem_cons_of_mem p hq))
      cases p with
      | text c => rw [lax, rendering, hrest]; rfl
      | percent => exact absurd rfl hpercent
      | conversion kind =>
          have hsupported := hkind kind rfl
          simp only [lax, rendering, Piece.laxChars, Piece.chars, Piece.laxTaken, Piece.taken,
            hsupported, if_true, hrest]

/-- With a terminal that is never full such a format is printed unless it has a fault. -/
theorem Plain.ttyPrintf_eq (h : Plain (pieces format.chars)) (hready : ∀ j, setting.full j = false)
    (hf : firstFault setting (pieces format.chars) 0 = none) (hfuel : format.chars.length < fuel) :
    ttyPrintf setting fuel format = some (0, rendering setting (pieces format.chars) 0) := by
  rw [ttyPrintf_of_ready (fun j _ => hready j) hfuel, hf, h.lax_eq]

end Printed

end SmcTp.Giet
