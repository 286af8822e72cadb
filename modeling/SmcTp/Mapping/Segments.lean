import Mathlib.Algebra.Ring.Int.Defs
import Mathlib.Data.List.TakeWhile
import Mathlib.Tactic.Common

/-!
# Segments and indexes

`IntTab` is an index in the hierarchy of targets, one number a level.  `Segment` is an
address range with the index of its target and its cacheability.

`unsigned long` and `size_t` are words of `w` bits.  The two tests on ranges treat the
end of a segment in two ways.  `contains` takes an end that wraps for the top of the
address space.  `isOverlapping` compares the ends as they are, so a segment whose end
wraps overlaps nothing above its end.  `disjoint_iff_of_not_isOverlapping` says when the
two agree.
-/

namespace SmcTp.Mapping

/-! ## Indexes -/

/-- `IntTab`: at most nine levels, each a number other than the end mark -1. -/
structure IntTab where
  values : List Int
  level_lt : values.length < 10
  ne_end : ∀ v ∈ values, v ≠ -1

namespace IntTab

instance : DecidableEq IntTab := fun s t =>
  decidable_of_iff (s.values = t.values) (by cases s; cases t; simp)

@[ext] theorem ext {s t : IntTab} (h : s.values = t.values) : s = t := by
  cases s
  cases t
  cases h
  rfl

/-- `IntTab::init`: the values up to the first -1. -/
def init (vals : List Int) : Option IntTab :=
  if h : (vals.takeWhile (· ≠ -1)).length < 10 then
    some ⟨vals.takeWhile (· ≠ -1), h, fun v hv => by simpa using List.mem_takeWhile_imp hv⟩
  else none

/-- `IntTab()`. -/
def root : IntTab := ⟨[], by decide, fun _ h => absurd h List.not_mem_nil⟩

/-- `IntTab::level`. -/
def level (t : IntTab) : Nat := t.values.length

/-- `IntTab::operator[]`.  The level after the last one holds the end mark, and any
other one is out of bounds. -/
def get? (t : IntTab) (level : Nat) : Option Int :=
  if t.level < level then none else some (t.values[level]?.getD (-1))

/-- `IntTab::sum`. -/
def sum (t : IntTab) (level : Nat) : Int := (t.values.take level).sum

/-- `IntTab::idMatches`: the two agree on the levels they both have. -/
def idMatches (t other : IntTab) : Bool :=
  (t.values.zip other.values).all fun v => v.1 == v.2

/-- The index with another level. -/
def push (t : IntTab) (v : Int) : Option IntTab := init (t.values ++ [v])

/-- The first levels of an index. -/
def take (t : IntTab) (level : Nat) : IntTab where
  values := t.values.take level
  level_lt := Nat.lt_of_le_of_lt (List.length_take_le' level t.values) t.level_lt
  ne_end := fun v hv => t.ne_end v (List.mem_of_mem_take hv)

theorem init_values (t : IntTab) : init t.values = some t := by
  have hall : t.values.takeWhile (· ≠ -1) = t.values := by
    rw [List.takeWhile_eq_self_iff]
    intro v hv
    simpa using t.ne_end v hv
  unfold init
  simp only [hall, t.level_lt, dite_true]

/-- The next level of an index leads from its first levels to one more. -/
theorem push_take (t : IntTab) {level : Nat} {v : Int} (hlevel : level < t.level)
    (h : t.get? level = some v) : (t.take level).push v = some (t.take (level + 1)) := by
  have hv : t.values[level]? = some v := by
    rw [get?, if_neg (Nat.lt_asymm hlevel)] at h
    rw [List.getElem?_eq_getElem hlevel] at h ⊢
    exact h
  have hvalues : (t.take level).values ++ [v] = (t.take (level + 1)).values := by
    show t.values.take level ++ [v] = t.values.take (level + 1)
    rw [List.take_add_one, hv, Option.toList_some]
  rw [push, hvalues, init_values]

theorem take_level (t : IntTab) : t.take t.level = t :=
  ext (List.take_length)

theorem all_zip_beq_iff {ts ps : List Int} (h : ps.length ≤ ts.length) :
    ((ts.zip ps).all fun v => v.1 == v.2) = true ↔ ps <+: ts := by
  induction ps generalizing ts with
  | nil => simp
  | cons p ps ih =>
      cases ts with
      | nil => simp at h
      | cons t ts =>
          have hlen : ps.length ≤ ts.length := by simpa using h
          rw [List.cons_prefix_cons, ← ih hlen, List.zip_cons_cons, List.all_cons,
            Bool.and_eq_true, beq_iff_eq, eq_comm]

/-- An index matches one with no more levels if and only if that is a prefix of it. -/
theorem idMatches_iff {t p : IntTab} (h : p.level ≤ t.level) :
    t.idMatches p = true ↔ p.values <+: t.values := all_zip_beq_iff h

theorem idMatches_take (t : IntTab) (level : Nat) : t.idMatches (t.take level) = true := by
  have hle : (t.take level).level ≤ t.level := List.length_take_le' level t.values
  rw [idMatches_iff hle]
  exact List.take_prefix level t.values

end IntTab

/-! ## Segments -/

/-- `Segment`: a range of addresses and its target. -/
structure Segment (w : Nat) where
  baseAddress : BitVec w
  size : BitVec w
  index : IntTab
  cacheable : Bool
deriving DecidableEq

namespace Segment

variable {w : Nat}

/-- The end of a segment, as a word: it may wrap. -/
def bound (s : Segment w) : BitVec w := s.baseAddress + s.size

/-- `Segment::isOverlapping`. -/
def isOverlapping (s other : Segment w) : Bool :=
  if other.bound ≤ s.baseAddress then false
  else if s.bound ≤ other.baseAddress then false
  else true

/-- `Segment::contains`. -/
def contains (s : Segment w) (addr : BitVec w) : Bool :=
  s.baseAddress ≤ addr && (addr < s.bound || s.bound < s.baseAddress)

/-- The end wraps: the segment goes up to the top of the address space. -/
def Wraps (s : Segment w) : Prop := s.bound < s.baseAddress

instance (s : Segment w) : Decidable s.Wraps := inferInstanceAs (Decidable (_ < _))

/-- No address is in both. -/
def Disjoint (s other : Segment w) : Prop :=
  ∀ addr, ¬ (s.contains addr = true ∧ other.contains addr = true)

/-- The segment is empty, or it ends below the other one and does not wrap. -/
def EndsBelow (s other : Segment w) : Prop :=
  s.size = 0 ∨ ¬ s.Wraps ∧ s.bound ≤ other.baseAddress

/-- A segment that goes up to the top has nothing of the other one above its base. -/
def ClearAtTop (s other : Segment w) : Prop :=
  (s.Wraps → other.EndsBelow s) ∧ (other.Wraps → s.EndsBelow other)

theorem contains_iff {s : Segment w} {addr : BitVec w} :
    s.contains addr = true ↔ s.baseAddress ≤ addr ∧ (addr < s.bound ∨ s.Wraps) := by
  simp [contains, Wraps]

theorem isOverlapping_eq_false_iff {s other : Segment w} :
    s.isOverlapping other = false ↔
      other.bound ≤ s.baseAddress ∨ s.bound ≤ other.baseAddress := by
  unfold isOverlapping
  split
  next h => exact ⟨fun _ => .inl h, fun _ => rfl⟩
  next h =>
    split
    next h' => exact ⟨fun _ => .inr h', fun _ => rfl⟩
    next h' => simp [h, h']

theorem bound_eq_iff {s : Segment w} : s.bound = s.baseAddress ↔ s.size = 0 := by
  constructor
  · intro h
    exact (BitVec.add_right_inj s.baseAddress).mp (h.trans (BitVec.add_zero _).symm)
  · intro h
    rw [bound, h]
    exact BitVec.add_zero _

/-- An empty segment contains no address. -/
theorem not_contains_of_size_eq {s : Segment w} (h : s.size = 0) (addr : BitVec w) :
    ¬ s.contains addr = true := by
  have hbound := bound_eq_iff.mpr h
  rw [contains_iff, Wraps, hbound]
  simp only [BitVec.le_def, BitVec.lt_def]
  omega

theorem contains_of_le {s : Segment w} {addr : BitVec w} (hle : s.baseAddress ≤ addr)
    (hbound : ¬ s.Wraps → addr < s.bound) : s.contains addr = true := by
  rw [contains_iff]
  refine ⟨hle, ?_⟩
  rcases Classical.em s.Wraps with hwraps | hwraps
  · exact .inr hwraps
  · exact .inl (hbound hwraps)

/-- The end of a segment that is neither empty nor wraps is above its base. -/
theorem baseAddress_lt_bound {s : Segment w} (hsize : s.size ≠ 0) (hwraps : ¬ s.Wraps) :
    s.baseAddress < s.bound := by
  have hne : s.bound ≠ s.baseAddress := fun h => hsize (bound_eq_iff.mp h)
  exact BitVec.lt_of_le_ne (BitVec.not_lt.mp hwraps) hne.symm

theorem Disjoint.symm {s other : Segment w} (h : s.Disjoint other) : other.Disjoint s :=
  fun addr hboth => h addr hboth.symm

/-- A segment below one that wraps shares no address with it. -/
theorem EndsBelow.disjoint {s other : Segment w} (h : s.EndsBelow other) : s.Disjoint other := by
  rintro addr ⟨hs, hother⟩
  rcases h with hsize | ⟨hwraps, hle⟩
  · exact not_contains_of_size_eq hsize addr hs
  · obtain ⟨-, hlt | hwraps'⟩ := contains_iff.mp hs
    · exact BitVec.not_lt.mpr (BitVec.le_trans hle (contains_iff.mp hother).1) hlt
    · exact hwraps hwraps'

/-- Next to a segment that wraps, a disjoint one ends below its base. -/
theorem Disjoint.endsBelow {s other : Segment w} (h : s.Disjoint other) (hwraps : other.Wraps) :
    s.EndsBelow other := by
  rcases Classical.em (s.size = 0) with hsize | hsize
  · exact .inl hsize
  -- the higher one of the two bases would be in both
  have hnot : ¬ s.Wraps := by
    intro hs
    rcases BitVec.le_total s.baseAddress other.baseAddress with hle | hle
    · exact h other.baseAddress ⟨contains_of_le hle (absurd hs),
        contains_of_le (BitVec.le_refl _) (absurd hwraps)⟩
    · exact h s.baseAddress ⟨contains_of_le (BitVec.le_refl _) (absurd hs),
        contains_of_le hle (absurd hwraps)⟩
  refine .inr ⟨hnot, BitVec.not_lt.mp fun hlt => ?_⟩
  rcases BitVec.le_total s.baseAddress other.baseAddress with hle | hle
  · exact h other.baseAddress ⟨contains_of_le hle fun _ => hlt,
      contains_of_le (BitVec.le_refl _) (absurd hwraps)⟩
  · exact h s.baseAddress
      ⟨contains_of_le (BitVec.le_refl _) fun _ => baseAddress_lt_bound hsize hnot,
        contains_of_le hle (absurd hwraps)⟩

/-- The overlap test is right about two segments unless one of them goes up to the top
and the other one into it. -/
theorem disjoint_iff_of_not_isOverlapping {s other : Segment w}
    (h : s.isOverlapping other = false) : s.Disjoint other ↔ s.ClearAtTop other := by
  constructor
  · intro hdisj
    exact ⟨hdisj.symm.endsBelow, hdisj.endsBelow⟩
  · rintro ⟨hs, hother⟩
    rcases Classical.em s.Wraps with hwraps | hwraps
    · exact (hs hwraps).disjoint.symm
    rcases Classical.em other.Wraps with hwraps' | hwraps'
    · exact (hother hwraps').disjoint
    rintro addr ⟨hin, hin'⟩
    obtain ⟨hlo, hhi⟩ := contains_iff.mp hin
    obtain ⟨hlo', hhi'⟩ := contains_iff.mp hin'
    have hlt := hhi.resolve_right hwraps
    have hlt' := hhi'.resolve_right hwraps'
    rcases isOverlapping_eq_false_iff.mp h with hle | hle
    · exact BitVec.not_lt.mpr (BitVec.le_trans hle hlo) hlt'
    · exact BitVec.not_lt.mpr (BitVec.le_trans hle hlo') hlt

end Segment

end SmcTp.Mapping
