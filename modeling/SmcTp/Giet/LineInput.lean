import Mathlib.Algebra.Ring.Parity
import SmcTp.Giet.EditBuffer

/-!
# Lines from the terminal

`tty_gets_irq` polls the terminal and edits what it gets in the buffer of its caller.  A
call is followed from poll to poll: `Gets` are its variables while it waits for the next
byte, or when it has returned.

*The buffer.*  `Holds` and `Held` say which text is in the buffer of a call that waits, and
of one that has returned.  `Holds.getsByte` is what a byte does to the text.

*Spare deletions.*  A DEL that comes to an empty line should do nothing, but the test of
`index` sends it on to the branch of the other characters, which keeps it.  The next such
DEL removes it again, so the text is right in the end if no line ends, or fills the buffer,
between the two (`edited_iff`).
-/

namespace SmcTp.Giet

open Programs LineEditor

/-! ## The function -/

/-- The variables of `tty_gets_irq`. -/
structure Gets where
  line : EditBuffer
  returned : Bool

namespace Gets

/-- What follows the loop: `buf[index] = 0; return 0`. -/
def close (s : Gets) : Gets := { line := s.line.put 0, returned := true }

/-- The test of the loop, `index < (bufsize - 1)`. -/
def test (bufsize : Word) (s : Gets) : Gets :=
  if s.line.index < bufsize - 1 then s else s.close

/-- A pass of the loop that has got a byte. -/
def getsByte (bufsize : Word) (s : Gets) (byte : Byte) : Gets :=
  if s.returned then s
  else if byte = 0x0A then s.close
  else if byte = 0x7F ∧ 0 < s.line.index then test bufsize { s with line := s.line.pop }
  else test bufsize { s with line := s.line.push byte }

/-- A call before its first byte. -/
def start (bufsize : Word) (buf : Nat → Byte) : Gets :=
  test bufsize { line := .start buf, returned := false }

end Gets

/-- `tty_gets_irq`, after these polls. -/
def ttyGetsIrq (bufsize : Word) (buf : Nat → Byte) (polls : List (Option Byte)) : Gets :=
  polls.foldl (poll (Gets.getsByte bufsize)) (Gets.start bufsize buf)

section Bytes

variable {bufsize : Word} {s : Gets} {c : Byte}

theorem getsByte_eq_close (hopen : s.returned = false) :
    s.getsByte bufsize 0x0A = s.close := by
  rw [Gets.getsByte, if_neg (by simp [hopen]), if_pos rfl]

theorem getsByte_eq_erase (hopen : s.returned = false) (hindex : 0 < s.line.index) :
    s.getsByte bufsize 0x7F = Gets.test bufsize { s with line := s.line.pop } := by
  rw [Gets.getsByte, if_neg (by simp [hopen]), if_neg (by decide), if_pos ⟨rfl, hindex⟩]

theorem getsByte_eq_put (hopen : s.returned = false) (hlf : c ≠ 0x0A)
    (hdel : ¬ (c = 0x7F ∧ 0 < s.line.index)) :
    s.getsByte bufsize c = Gets.test bufsize { s with line := s.line.push c } := by
  rw [Gets.getsByte, if_neg (by simp [hopen]), if_neg hlf, if_neg hdel]

end Bytes

/-! ## What should be in the buffer -/

/-- What a byte does to a line. -/
def editKey (c : Byte) : Key Byte :=
  if c = 0x0A then .enter else if c = 0x7F then .erase else .put c

/-- The line that bytes make, in a buffer of this size. -/
def lineOfBytes (bufsize : Word) (bytes : List Byte) : Line Byte :=
  Line.typed (bufsize.toNat - 1) (bytes.map editKey)

/-- The call has written into its buffer only, it returns when the line is closed, and then
the buffer holds the line and a NUL. -/
structure Edited (bufsize : Word) (buf : Nat → Byte) (polls : List (Option Byte)) : Prop where
  inside : ∀ i ∈ (ttyGetsIrq bufsize buf polls).line.stored, i < bufsize.toNat
  returns : 0 < bufsize.toNat →
    (lineOfBytes bufsize polls.reduceOption).Closed (bufsize.toNat - 1) →
      (ttyGetsIrq bufsize buf polls).returned = true
  text : (ttyGetsIrq bufsize buf polls).returned = true →
    cells (ttyGetsIrq bufsize buf polls).line.buf 0
        ((lineOfBytes bufsize polls.reduceOption).text.length + 1) =
      (lineOfBytes bufsize polls.reduceOption).text ++ [0]

/-- A DEL that comes to a line without characters. -/
def IsSpare (limit : Nat) (l : Line Byte) (c : Byte) : Prop :=
  ¬ l.Closed limit ∧ l.text = [] ∧ c = 0x7F

instance (limit : Nat) (l : Line Byte) (c : Byte) : Decidable (IsSpare limit l c) :=
  inferInstanceAs (Decidable (_ ∧ _))

/-- The number of spare DELs among bytes that come to the line `l`. -/
def spares (limit : Nat) : Line Byte → List Byte → Nat
  | _, [] => 0
  | l, c :: cs => (if IsSpare limit l c then 1 else 0) + spares limit (l.press limit (editKey c)) cs

/-- After an odd number of spare DELs the line is open, and the buffer has room for two more
characters at least. -/
def Paired (bufsize : Word) (l : Line Byte) (n : Nat) : Prop :=
  Odd n → ¬ l.Closed (bufsize.toNat - 1) ∧ l.text.length + 2 < bufsize.toNat

/-- Every spare DEL is followed by another one, before the line is closed or has one
character less than the buffer has room for. -/
def SparesPaired (bufsize : Word) (bytes : List Byte) : Prop :=
  ∀ p, p <+: bytes →
    Paired bufsize (lineOfBytes bufsize p) (spares (bufsize.toNat - 1) .empty p)

/-! ## The text in the buffer -/

section Buffer

variable {bufsize : Word} {s : Gets} {t : List Byte}

/-- A call has this text in its buffer, before the test of the loop. -/
structure Written (bufsize : Word) (s : Gets) (t : List Byte) : Prop where
  returned : s.returned = false
  shows : s.line.Shows bufsize.toNat t
  room : t.length < bufsize.toNat

/-- A call that waits has this text in its buffer. -/
structure Holds (bufsize : Word) (s : Gets) (t : List Byte) : Prop extends Written bufsize s t where
  waits : t.length + 1 < bufsize.toNat

/-- A call that has returned has this text in its buffer. -/
structure Held (bufsize : Word) (s : Gets) (t : List Byte) : Prop where
  returned : s.returned = true
  holds : cells s.line.buf 0 (t.length + 1) = t ++ [0]
  inside : ∀ i ∈ s.line.stored, i < bufsize.toNat

theorem Written.close (h : Written bufsize s t) : Held bufsize s.close t :=
  ⟨rfl, h.shows.cells_put 0, h.shows.inside_put h.room 0⟩

theorem Written.test (h : Written bufsize s t) :
    if t.length + 1 < bufsize.toNat then Holds bufsize (s.test bufsize) t
    else Held bufsize (s.test bufsize) t := by
  have hpred : (bufsize - 1).toNat = bufsize.toNat - 1 :=
    BitVec.toNat_sub_of_le (Nat.zero_lt_of_lt h.room)
  have hlt : s.line.index < bufsize - 1 ↔ t.length + 1 < bufsize.toNat := by
    rw [BitVec.lt_def, h.shows.index, hpred]
    omega
  unfold Gets.test
  split
  next hwaits =>
    rw [if_pos (hlt.mpr hwaits)]
    exact ⟨h, hwaits⟩
  next hfull =>
    rw [if_neg (mt hlt.mp hfull)]
    exact h.close

theorem Holds.getsByte_lf (h : Holds bufsize s t) : Held bufsize (s.getsByte bufsize 0x0A) t := by
  rw [getsByte_eq_close h.returned]
  exact h.close

/-- DEL behind some text. -/
theorem Holds.getsByte_del (h : Holds bufsize s t) (hne : t ≠ []) :
    Holds bufsize (s.getsByte bufsize 0x7F) t.dropLast := by
  have hwaits := h.waits
  have hshorter : t.dropLast.length + 1 < bufsize.toNat := by
    rw [List.length_dropLast]
    omega
  have herase : Written bufsize { s with line := s.line.pop } t.dropLast :=
    ⟨h.returned, h.shows.pop hne, Nat.lt_of_succ_lt hshorter⟩
  have htest := herase.test
  rw [if_pos hshorter] at htest
  rw [getsByte_eq_erase h.returned (h.shows.index_pos_iff.mpr hne)]
  exact htest

/-- Another byte, or DEL before any text. -/
theorem Holds.getsByte_put (h : Holds bufsize s t) {c : Byte} (hlf : c ≠ 0x0A)
    (hdel : c = 0x7F → t = []) :
    if t.length + 2 < bufsize.toNat then Holds bufsize (s.getsByte bufsize c) (t ++ [c])
    else Held bufsize (s.getsByte bufsize c) (t ++ [c]) := by
  have hindex : ¬ (c = 0x7F ∧ 0 < s.line.index) := fun hpos =>
    h.shows.index_pos_iff.mp hpos.2 (hdel hpos.1)
  have hlength : (t ++ [c]).length = t.length + 1 := List.length_append
  have hput : Written bufsize { s with line := s.line.push c } (t ++ [c]) :=
    ⟨h.returned, h.shows.push h.room bufsize.isLt c, hlength ▸ h.waits⟩
  have htest := hput.test
  rw [hlength] at htest
  rw [getsByte_eq_put h.returned hlf hindex]
  exact htest

theorem Held.getsByte (h : Held bufsize s t) (c : Byte) : s.getsByte bufsize c = s :=
  if_pos h.returned

theorem Held.first (h : Held bufsize s t) : s.line.buf 0 = (t ++ [0]).head (by simp) := by
  have hcells : s.line.buf 0 :: cells s.line.buf 1 t.length = t ++ [0] := h.holds
  simp only [← hcells, List.head_cons]

end Buffer

/-! ## The text and the line -/

section Tracking

variable {bufsize : Word} {s : Gets} {l : Line Byte} {n : Nat}

/-- What is in the buffer when the line is `l`, after `n` spare DELs. -/
def shown (l : Line Byte) (n : Nat) : List Byte := if Odd n then 0x7F :: l.text else l.text

/-- A call that waits shows the line, perhaps with a DEL in front of it, and a call that has
returned shows the line alone. -/
inductive Tracks (bufsize : Word) (s : Gets) (l : Line Byte) (n : Nat) : Prop where
  | waits : l.ended = false → Holds bufsize s (shown l n) → Tracks bufsize s l n
  | done : l.Closed (bufsize.toNat - 1) → ¬ Odd n → Held bufsize s l.text → Tracks bufsize s l n

/-- A call that has returned with a DEL in front. -/
def Lost (s : Gets) : Prop := s.returned = true ∧ s.line.buf 0 = 0x7F

theorem length_le_shown (l : Line Byte) (n : Nat) : l.text.length ≤ (shown l n).length := by
  unfold shown
  split
  · exact Nat.le_succ _
  · exact Nat.le_refl _

theorem not_closed_of_waits (hended : l.ended = false) (h : Holds bufsize s (shown l n)) :
    ¬ l.Closed (bufsize.toNat - 1) := by
  have hwaits := h.waits
  have hle := length_le_shown l n
  rintro (hclosed | hfull)
  · rw [hended] at hclosed
    cases hclosed
  · omega

theorem Tracks.paired (h : Tracks bufsize s l n) : Paired bufsize l n := by
  intro hodd
  cases h with
  | waits hended hholds =>
      have hwaits := hholds.waits
      rw [shown, if_pos hodd, List.length_cons] at hwaits
      exact ⟨not_closed_of_waits hended hholds, hwaits⟩
  | done _ heven _ => exact absurd hodd heven

theorem lost_of_held (h : Held bufsize s (0x7F :: l.text)) : Lost s := ⟨h.returned, h.first⟩

theorem press_editKey_del (hopen : ¬ l.Closed (bufsize.toNat - 1)) :
    l.press (bufsize.toNat - 1) (editKey 0x7F) = { l with text := l.text.dropLast } :=
  Line.press_of_open hopen _

theorem press_editKey_lf (hopen : ¬ l.Closed (bufsize.toNat - 1)) :
    l.press (bufsize.toNat - 1) (editKey 0x0A) = { l with ended := true } :=
  Line.press_of_open hopen _

theorem press_editKey_put (hopen : ¬ l.Closed (bufsize.toNat - 1)) {c : Byte} (hlf : c ≠ 0x0A)
    (hdel : c ≠ 0x7F) :
    l.press (bufsize.toNat - 1) (editKey c) = { l with text := l.text ++ [c] } := by
  rw [Line.press_of_open hopen, editKey, if_neg hlf, if_neg hdel]
  rfl

/-- A call goes on to follow the line, or it is lost for good. -/
def Goes (bufsize : Word) (s : Gets) (l : Line Byte) (n : Nat) : Prop :=
  Tracks bufsize s l n ∨ Lost s ∧ ¬ Paired bufsize l n

theorem Goes.lf (hopen : ¬ l.Closed (bufsize.toNat - 1)) (h : Holds bufsize s (shown l n)) :
    Goes bufsize (s.getsByte bufsize 0x0A) (l.press (bufsize.toNat - 1) (editKey 0x0A)) n := by
  have hheld := h.getsByte_lf
  rw [press_editKey_lf hopen]
  by_cases hodd : Odd n
  · rw [shown, if_pos hodd] at hheld
    exact .inr ⟨lost_of_held hheld, fun hpaired => (hpaired hodd).1 (.inl rfl)⟩
  · rw [shown, if_neg hodd] at hheld
    exact .inl (.done (.inl rfl) hodd hheld)

/-- A DEL that comes to an empty line. -/
theorem Goes.spare (hended : l.ended = false) (hempty : l.text = [])
    (h : Holds bufsize s (shown l n)) :
    Goes bufsize (s.getsByte bufsize 0x7F) l (n + 1) := by
  by_cases hodd : Odd n
  · have hshown : shown l n = [0x7F] := by rw [shown, if_pos hodd, hempty]
    have hnext : shown l (n + 1) = [] := by
      rw [shown, if_neg fun h => Nat.odd_add_one.mp h hodd, hempty]
    rw [hshown] at h
    refine .inl (.waits hended ?_)
    rw [hnext]
    exact h.getsByte_del (by decide)
  · have hodd' : Odd (n + 1) := Nat.odd_add_one.mpr hodd
    have hshown : shown l n = [] := by rw [shown, if_neg hodd, hempty]
    have hnext : shown l (n + 1) = [0x7F] := by rw [shown, if_pos hodd', hempty]
    rw [hshown] at h
    have hput := h.getsByte_put (c := 0x7F) (by decide) fun _ => rfl
    split at hput
    next => exact .inl (.waits hended (by rw [hnext]; exact hput))
    next hfull =>
      refine .inr ⟨⟨hput.returned, hput.first⟩, fun hpaired => hfull ?_⟩
      have hroom := (hpaired hodd').2
      rwa [hempty] at hroom

/-- A DEL behind some text. -/
theorem Goes.erase (hended : l.ended = false) (hne : l.text ≠ [])
    (h : Holds bufsize s (shown l n)) :
    Goes bufsize (s.getsByte bufsize 0x7F) { l with text := l.text.dropLast } n := by
  have hnext : shown { l with text := l.text.dropLast } n = (shown l n).dropLast := by
    unfold shown
    split
    · rw [List.dropLast_cons_of_ne_nil hne]
    · rfl
  have hshown : shown l n ≠ [] := by
    unfold shown
    split
    · exact List.cons_ne_nil _ _
    · exact hne
  refine .inl (.waits hended ?_)
  rw [hnext]
  exact h.getsByte_del hshown

/-- A byte that is put. -/
theorem Goes.put (hended : l.ended = false) {c : Byte} (hlf : c ≠ 0x0A) (hdel : c ≠ 0x7F)
    (h : Holds bufsize s (shown l n)) :
    Goes bufsize (s.getsByte bufsize c) { l with text := l.text ++ [c] } n := by
  have hnext : shown { l with text := l.text ++ [c] } n = shown l n ++ [c] := by
    unfold shown
    split
    · rfl
    · rfl
  have hput := h.getsByte_put hlf fun hc => absurd hc hdel
  rw [← hnext] at hput
  split at hput
  next => exact .inl (.waits hended hput)
  next hfull =>
    have hwaits := h.waits
    by_cases hodd : Odd n
    · rw [shown, if_pos hodd] at hput hwaits hfull
      refine .inr ⟨lost_of_held hput, fun hpaired => hfull ?_⟩
      have hroom := (hpaired hodd).2
      rwa [List.length_append, List.length_singleton] at hroom
    · rw [shown, if_neg hodd] at hput hwaits hfull
      refine .inl (.done (.inr ?_) hodd hput)
      rw [List.length_append, List.length_singleton]
      omega

/-- What a byte does to the line, to the number of spare DELs, and to the call. -/
theorem Tracks.getsByte (h : Tracks bufsize s l n) (c : Byte) :
    Goes bufsize (s.getsByte bufsize c) (l.press (bufsize.toNat - 1) (editKey c))
      (n + if IsSpare (bufsize.toNat - 1) l c then 1 else 0) := by
  cases h with
  | done hclosed heven hheld =>
      rw [Line.press_of_closed hclosed, if_neg fun hspare => hspare.1 hclosed, hheld.getsByte]
      exact .inl (.done hclosed heven hheld)
  | waits hended hholds =>
      have hopen := not_closed_of_waits hended hholds
      by_cases hlf : c = 0x0A
      · subst hlf
        rw [if_neg fun hspare => absurd hspare.2.2 (by decide)]
        exact .lf hopen hholds
      by_cases hdel : c = 0x7F
      · subst hdel
        rw [press_editKey_del hopen]
        by_cases hempty : l.text = []
        · have hsame : { l with text := l.text.dropLast } = l := by
            rw [hempty, List.dropLast_nil, ← hempty]
          rw [if_pos ⟨hopen, hempty, rfl⟩, hsame]
          exact .spare hended hempty hholds
        · rw [if_neg fun hspare => hempty hspare.2.1]
          exact .erase hended hempty hholds
      · rw [press_editKey_put hopen hlf hdel, if_neg fun hspare => hdel hspare.2.2]
        exact .put hended hlf hdel hholds

end Tracking

/-! ## The run -/

section Run

variable {bufsize : Word} {buf : Nat → Byte}

theorem lineOfBytes_concat (bytes : List Byte) (c : Byte) :
    lineOfBytes bufsize (bytes ++ [c]) =
      (lineOfBytes bufsize bytes).press (bufsize.toNat - 1) (editKey c) := by
  rw [lineOfBytes, List.map_append, List.map_singleton, Line.typed_concat]
  rfl

theorem spares_concat (limit : Nat) (l : Line Byte) (bytes : List Byte) (c : Byte) :
    spares limit l (bytes ++ [c]) = spares limit l bytes +
      if IsSpare limit ((bytes.map editKey).foldl (Line.press limit) l) c then 1 else 0 := by
  induction bytes generalizing l with
  | nil =>
      rw [List.nil_append, spares, spares, spares, Nat.add_comm]
      rfl
  | cons b bytes ih =>
      rw [List.cons_append, spares, ih, spares, Nat.add_assoc]
      rfl

theorem not_mem_lineOfBytes (bytes : List Byte) : 0x7F ∉ (lineOfBytes bufsize bytes).text := by
  induction bytes using List.reverseRecOn with
  | nil => exact List.not_mem_nil
  | append_singleton bytes c ih =>
      rw [lineOfBytes_concat]
      by_cases hclosed : (lineOfBytes bufsize bytes).Closed (bufsize.toNat - 1)
      · rwa [Line.press_of_closed hclosed]
      by_cases hlf : c = 0x0A
      · rwa [hlf, press_editKey_lf hclosed]
      by_cases hdel : c = 0x7F
      · rw [hdel, press_editKey_del hclosed]
        exact fun hmem => ih ((List.dropLast_sublist _).subset hmem)
      · rw [press_editKey_put hclosed hlf hdel, List.mem_append, List.mem_singleton, not_or]
        exact ⟨ih, Ne.symm hdel⟩

theorem sparesPaired_concat_iff (bytes : List Byte) (c : Byte) :
    SparesPaired bufsize (bytes ++ [c]) ↔ SparesPaired bufsize bytes ∧
      Paired bufsize (lineOfBytes bufsize (bytes ++ [c]))
        (spares (bufsize.toNat - 1) .empty (bytes ++ [c])) := by
  constructor
  · intro hall
    exact ⟨fun p hp => hall p (hp.trans (List.prefix_append _ _)), hall _ (List.prefix_refl _)⟩
  · rintro ⟨hall, hlast⟩ p hp
    rcases List.prefix_concat_iff.mp hp with rfl | hp
    · exact hlast
    · exact hall p hp

theorem lost_getsByte {s : Gets} (h : Lost s) (c : Byte) : Lost (s.getsByte bufsize c) := by
  rw [Gets.getsByte, if_pos h.1]
  exact h

/-- A call follows the line as long as the spare DELs are paired. -/
theorem tracks_or_lost (hpos : 0 < bufsize.toNat) (buf : Nat → Byte) (bytes : List Byte) :
    SparesPaired bufsize bytes ∧
        Tracks bufsize (bytes.foldl (Gets.getsByte bufsize) (Gets.start bufsize buf))
          (lineOfBytes bufsize bytes) (spares (bufsize.toNat - 1) .empty bytes) ∨
      ¬ SparesPaired bufsize bytes ∧
        Lost (bytes.foldl (Gets.getsByte bufsize) (Gets.start bufsize buf)) := by
  induction bytes using List.reverseRecOn with
  | nil =>
      have heven : ¬ Odd (spares (bufsize.toNat - 1) .empty ([] : List Byte)) := by
        simp [spares]
      refine .inl ⟨fun p hp hodd => ?_, ?_⟩
      · rw [List.prefix_nil.mp hp] at hodd
        exact absurd hodd heven
      · have hstart : Written bufsize { line := .start buf, returned := false } [] :=
          ⟨rfl, EditBuffer.shows_start _ buf, hpos⟩
        have htest := hstart.test
        split at htest
        next =>
          refine .waits rfl ?_
          rw [shown, if_neg heven]
          exact htest
        next hfull =>
          refine .done (.inr ?_) heven htest
          rw [List.length_nil] at hfull
          change 0 = bufsize.toNat - 1
          omega
  | append_singleton bytes c ih =>
      rw [List.foldl_append, sparesPaired_concat_iff]
      rcases ih with ⟨hpaired, htracks⟩ | ⟨hunpaired, hlost⟩
      · have hgoes := htracks.getsByte c
        have hspares := spares_concat (bufsize.toNat - 1) .empty bytes c
        rw [lineOfBytes_concat, hspares]
        rcases hgoes with htracks' | ⟨hlost, hunpaired⟩
        · exact .inl ⟨⟨hpaired, htracks'.paired⟩, htracks'⟩
        · exact .inr ⟨fun h => hunpaired h.2, hlost⟩
      · exact .inr ⟨fun h => hunpaired h.1, lost_getsByte hlost c⟩

theorem stored_put {b : EditBuffer} {i : Nat} (hi : i ∈ b.stored) (c : Byte) :
    i ∈ (b.put c).stored := List.mem_append_left _ hi

theorem stored_test {s : Gets} {i : Nat} (hi : i ∈ s.line.stored) :
    i ∈ (s.test bufsize).line.stored := by
  unfold Gets.test
  split
  · exact hi
  · exact stored_put hi 0

theorem stored_getsByte {s : Gets} {i : Nat} (hi : i ∈ s.line.stored) (c : Byte) :
    i ∈ (s.getsByte bufsize c).line.stored := by
  unfold Gets.getsByte
  split_ifs
  · exact hi
  · exact stored_put hi 0
  · exact stored_test hi
  · exact stored_test (stored_put hi c)

/-- A buffer without room is written to as soon as a byte comes. -/
theorem stored_of_empty_buffer (buf : Nat → Byte) (c : Byte) (bytes : List Byte) :
    0 ∈ ((c :: bytes).foldl (Gets.getsByte 0) (Gets.start 0 buf)).line.stored := by
  rw [List.foldl_cons]
  have hput : ∀ b, 0 ∈ ((Gets.start 0 buf).line.put b).stored := fun b =>
    List.mem_append_right _ (List.mem_singleton.mpr rfl)
  have hfirst : 0 ∈ ((Gets.start 0 buf).getsByte 0 c).line.stored := by
    have hindex : ¬ (c = 0x7F ∧ 0 < (Gets.start 0 buf).line.index) := fun h =>
      absurd h.2 (Nat.not_lt_zero _)
    by_cases hlf : c = 0x0A
    · rw [hlf, getsByte_eq_close rfl]
      exact hput 0
    · rw [getsByte_eq_put rfl hlf hindex]
      exact stored_test (hput c)
  generalize (Gets.start 0 buf).getsByte 0 c = s at hfirst
  induction bytes generalizing s with
  | nil => exact hfirst
  | cons b bytes ih => exact ih _ (stored_getsByte hfirst b)

/-- A call edits its line, if it has a buffer and the spare DELs are paired. -/
theorem edited_iff (bufsize : Word) (buf : Nat → Byte) (polls : List (Option Byte)) :
    Edited bufsize buf polls ↔
      (bufsize = 0 → polls.reduceOption = []) ∧ SparesPaired bufsize polls.reduceOption := by
  have heq : ttyGetsIrq bufsize buf polls =
      polls.reduceOption.foldl (Gets.getsByte bufsize) (Gets.start bufsize buf) := foldl_poll ..
  generalize hbytes : polls.reduceOption = bytes at heq ⊢
  rcases Nat.eq_zero_or_pos bufsize.toNat with hzero | hpos
  · obtain rfl : bufsize = 0 := BitVec.eq_of_toNat_eq hzero
    cases bytes with
    | nil =>
        refine iff_of_true ⟨?_, fun h => absurd h (Nat.lt_irrefl 0), ?_⟩ ⟨fun _ => rfl, ?_⟩
        · rw [heq]
          exact fun i hi => absurd hi List.not_mem_nil
        · rw [heq]
          exact fun h => absurd h Bool.false_ne_true
        · intro p hp hodd
          rw [List.prefix_nil.mp hp] at hodd
          exact absurd hodd (by simp [spares])
    | cons c bytes =>
        refine iff_of_false (fun h => ?_) fun h => List.cons_ne_nil _ _ (h.1 rfl)
        have hstored := stored_of_empty_buffer buf c bytes
        rw [← heq] at hstored
        exact absurd (h.inside 0 hstored) (Nat.lt_irrefl 0)
  · have hsize : bufsize ≠ 0 := fun h => absurd hpos (by simp [h])
    rw [and_iff_right fun h => absurd h hsize]
    rcases tracks_or_lost hpos buf bytes with ⟨hpaired, htracks⟩ | ⟨hunpaired, hlost⟩
    · refine iff_of_true ?_ hpaired
      rw [← heq, ← hbytes] at htracks
      cases htracks with
      | waits hended hholds =>
          refine ⟨hholds.shows.inside, fun _ hclosed => ?_, fun hreturned => ?_⟩
          · exact absurd hclosed (not_closed_of_waits hended hholds)
          · rw [hholds.returned] at hreturned
            cases hreturned
      | done hclosed heven hheld =>
          exact ⟨hheld.inside, fun _ _ => hheld.returned, fun _ => hheld.holds⟩
    · refine iff_of_false (fun h => ?_) hunpaired
      rw [← heq] at hlost
      have htext := h.text hlost.1
      have hmem : (0x7F : Byte) ∈ (lineOfBytes bufsize polls.reduceOption).text ++ [0] := by
        rw [← htext, ← hlost.2]
        exact List.mem_cons_self
      rcases List.mem_append.mp hmem with hmem | hmem
      · exact not_mem_lineOfBytes _ hmem
      · exact absurd (List.mem_singleton.mp hmem) (by decide)

/-- A DEL that comes first is kept. -/
theorem spare_del_kept :
    ¬ ∀ (bufsize : Word) (buf : Nat → Byte) (polls : List (Option Byte)),
      Edited bufsize buf polls := by
  intro hall
  have htext := (hall 8 (fun _ => 0) [some 0x7F, some 0x0A]).text (by decide)
  exact absurd htext (by decide)

end Run

end SmcTp.Giet
