import SmcTp.Mapping.Blocks

/-!
# The loops over blocks

The loop variable is a 32-bit address, the end of a segment is an `unsigned long`, and the
second test of the loop is there for the address that wraps.  It catches the wrap except
when the loop started at zero: then the address comes back to a block of the segment.

A loop that ends has visited each block that meets the segment once
(`nodup_of_visits`), and it ends unless the segment meets both the first and the last
block of the address space (`stepped_iff`).  The statement is about any body, so about
the two loops of `add` and those of the three builders.
-/

namespace SmcTp.Mapping

open Programs

variable {rtSize : Addr} {s : Segment 64}

/-! ## What the loops are for -/

/-- An address of the segment is in the block. -/
def Segment.MeetsBlock (rtSize : Addr) (s : Segment 64) (b : Addr) : Prop :=
  ∃ a : Addr, s.baseAddress ≤ a.setWidth 64 ∧ a.setWidth 64 < s.bound ∧ blockOf rtSize a = b

/-- A loop over the blocks of the segment ends and runs its body once on each block that
meets the segment. -/
def Segment.Stepped (rtSize : Addr) (s : Segment 64) : Prop :=
  ∃ l : List Addr, l.Nodup ∧ (∀ b, b ∈ l ↔ s.MeetsBlock rtSize b) ∧
    ∀ {ε σ : Type} (body : Addr → σ → Outcome ε σ) (fuel : Nat), l.length < fuel → ∀ t,
      forBlocks fuel rtSize s body t = l.foldlM (fun t b => body b t) t

/-- The segment meets the first and the last block of the address space. -/
def Segment.MeetsBothEnds (rtSize : Addr) (s : Segment 64) : Prop :=
  s.baseAddress.toNat < rtSize.toNat ∧
    4294967296 - rtSize.toNat < s.baseAddress.toNat + s.size.toNat

/-- A segment that is not empty and lies in the 32-bit space. -/
structure Segment.InSpace (s : Segment 64) : Prop where
  size : 1 ≤ s.size.toNat
  space : s.baseAddress.toNat + s.size.toNat ≤ 4294967296

namespace Segment.InSpace

theorem toNat_bound (h : s.InSpace) : s.bound.toNat = s.baseAddress.toNat + s.size.toNat := by
  have hspace := h.space
  rw [bound, BitVec.toNat_add]
  exact Nat.mod_eq_of_lt (Nat.lt_of_le_of_lt hspace (by decide))

/-- The base is a 32-bit word. -/
theorem toNat_base (h : s.InSpace) : (s.baseAddress.setWidth 32).toNat = s.baseAddress.toNat := by
  have hspace := h.space
  have hsize := h.size
  rw [BitVec.toNat_setWidth]
  exact Nat.mod_eq_of_lt (show s.baseAddress.toNat < 4294967296 by omega)

/-- The blocks between the rounded base and the end are those that meet the segment. -/
theorem isBlock_iff_meetsBlock (h : s.InSpace) (hrt : IsBlockSize rtSize) (b : Addr) :
    s.IsBlock rtSize b ↔ s.MeetsBlock rtSize b := by
  constructor
  · intro hblock
    obtain ⟨hdvd, hlo, hhi⟩ := isBlock_iff.mp hblock
    rcases Nat.lt_or_ge b.toNat s.baseAddress.toNat with hlt | hge
    · -- the segment starts inside the block
      refine ⟨s.baseAddress.setWidth 32, ?_, ?_, BitVec.eq_of_toNat_eq ?_⟩
      · rw [BitVec.le_def, toNat_setWidth_long, h.toNat_base]
      · have hsize := h.size
        rw [BitVec.lt_def, toNat_setWidth_long, h.toNat_base, h.toNat_bound]
        omega
      · rw [toNat_blockStart_eq] at hlo
        refine Nat.le_antisymm hlo ?_
        have hle : b.toNat ≤ (s.baseAddress.setWidth 32).toNat := by
          rw [h.toNat_base]
          exact Nat.le_of_lt hlt
        have hmono := hrt.blockOf_mono hle
        rwa [hrt.toNat_blockOf b, Nat.div_mul_cancel hdvd] at hmono
    · refine ⟨b, ?_, ?_, BitVec.eq_of_toNat_eq ?_⟩
      · rwa [BitVec.le_def, toNat_setWidth_long]
      · rwa [BitVec.lt_def, toNat_setWidth_long]
      · rw [hrt.toNat_blockOf, Nat.div_mul_cancel hdvd]
  · rintro ⟨a, hlo, hhi, rfl⟩
    exact isBlock_blockOf hrt hlo hhi

/-- The loop starts at zero if and only if the segment meets the first block. -/
theorem blockStart_eq_zero_iff (h : s.InSpace) (hrt : IsBlockSize rtSize) :
    (s.blockStart rtSize).toNat = 0 ↔ s.baseAddress.toNat < rtSize.toNat := by
  have hpos : 0 < rtSize.toNat := Nat.pos_of_dvd_of_pos hrt.dvd (by decide)
  rw [toNat_blockStart_eq, hrt.toNat_blockOf, h.toNat_base, Nat.mul_eq_zero,
    Nat.div_eq_zero_iff]
  omega

end Segment.InSpace

/-- The loop over an empty segment visits the block its base is inside. -/
theorem Segment.isBlock_iff_of_empty (h : IsBlockSize rtSize) (hsize : s.size = 0)
    (hbase : s.baseAddress.toNat < 4294967296) (b : Addr) :
    s.IsBlock rtSize b ↔
      ¬ rtSize.toNat ∣ s.baseAddress.toNat ∧ b = blockOf rtSize (s.baseAddress.setWidth 32) := by
  have hbound : s.bound.toNat = s.baseAddress.toNat := by rw [Segment.bound_eq_iff.mpr hsize]
  have hword : (s.baseAddress.setWidth 32).toNat = s.baseAddress.toNat := by
    rw [BitVec.toNat_setWidth]
    exact Nat.mod_eq_of_lt hbase
  have hround := h.toNat_blockOf (s.baseAddress.setWidth 32)
  rw [hword] at hround
  rw [isBlock_iff, toNat_blockStart_eq, hbound]
  constructor
  · rintro ⟨hdvd, hlo, hhi⟩
    have heq : b = blockOf rtSize (s.baseAddress.setWidth 32) := by
      refine BitVec.eq_of_toNat_eq (Nat.le_antisymm ?_ hlo)
      have hmono := Nat.mul_le_mul_right rtSize.toNat
        (Nat.div_le_div_right (c := rtSize.toNat) (Nat.le_of_lt hhi))
      rwa [Nat.div_mul_cancel hdvd, ← hround] at hmono
    refine ⟨fun hbase' => ?_, heq⟩
    rw [heq, hround, Nat.div_mul_cancel hbase'] at hhi
    exact Nat.lt_irrefl _ hhi
  · rintro ⟨hinside, rfl⟩
    refine ⟨h.dvd_blockOf _, Nat.le_refl _, Nat.lt_of_le_of_ne ?_ fun heq => ?_⟩
    · rw [← hword]
      exact h.blockOf_le _
    · rw [← heq] at hinside
      exact hinside (h.dvd_blockOf _)

/-! ## The visits of a loop -/

/-- A loop that ends visits no block twice. -/
theorem nodup_of_visits (h : IsBlockSize rtSize) {a : Addr} {l : List Addr}
    (hvisits : Visits (s.inBlocks rtSize) (· + rtSize) a l) (ha : rtSize.toNat ∣ a.toNat)
    (hle : (s.blockStart rtSize).toNat ≤ a.toNat) : l.Nodup := by
  induction hvisits with
  | stop _ => exact List.nodup_nil
  | @pass a l hcond hrest ih =>
      have hpos : 0 < rtSize.toNat := Nat.pos_of_dvd_of_pos h.dvd (by decide)
      rcases add_cases h ha with hadd | ⟨hwrap, hadd⟩
      · have hdvd := dvd_toNat_add h ha
        refine List.nodup_cons.mpr ⟨fun hmem => ?_, ih hdvd (by omega)⟩
        obtain ⟨-, hback, -⟩ := (mem_visits_from h hrest hdvd (by omega) a).mp hmem
        omega
      · rw [hadd] at hrest
        rw [rest_eq_nil h hcond hwrap hrest]
        exact List.nodup_cons.mpr ⟨List.not_mem_nil, List.nodup_nil⟩

/-- The loop ends, from any block, unless it starts at zero and the segment reaches the
last block.  The induction is on the space above the address. -/
theorem exists_visits (h : IsBlockSize rtSize)
    (hround : ¬ ((s.blockStart rtSize).toNat = 0 ∧ 4294967296 - rtSize.toNat < s.bound.toNat))
    (n : Nat) {a : Addr} (ha : rtSize.toNat ∣ a.toNat) (hn : 4294967296 - a.toNat ≤ n) :
    ∃ l, Visits (s.inBlocks rtSize) (· + rtSize) a l := by
  induction n generalizing a with
  | zero =>
      have hlt := a.isLt
      omega
  | succ n ih =>
      cases hcond : s.inBlocks rtSize a with
      | false => exact ⟨[], .stop hcond⟩
      | true =>
          have hpos : 0 < rtSize.toNat := Nat.pos_of_dvd_of_pos h.dvd (by decide)
          rcases add_cases h ha with hadd | ⟨hwrap, hadd⟩
          · obtain ⟨l, hl⟩ := ih (a := a + rtSize) (dvd_toNat_add h ha) (by omega)
            exact ⟨a :: l, .pass hcond hl⟩
          · refine ⟨[a], .pass hcond (.stop ?_)⟩
            -- the segment reaches the last block, so its rounded base is above zero
            obtain ⟨-, hlt⟩ := inBlocks_iff.mp hcond
            show s.inBlocks rtSize (a + rtSize) = false
            rw [hadd, ← Bool.not_eq_true, inBlocks_iff]
            rintro ⟨hzero, -⟩
            exact hround ⟨Nat.le_zero.mp hzero, by omega⟩

/-- A loop that ends steps through the segment. -/
theorem Segment.BlocksEnd.stepped (hends : s.BlocksEnd rtSize) (h : IsBlockSize rtSize)
    (hspace : s.InSpace) : s.Stepped rtSize := by
  obtain ⟨l, hvisits⟩ := hends
  have hdvd := dvd_blockStart h s
  rw [← toNat_blockStart] at hdvd
  refine ⟨l, nodup_of_visits h hvisits hdvd (Nat.le_of_eq (toNat_blockStart rtSize s).symm),
    fun b => ?_, fun body fuel hfuel t => hvisits.forLoop_eq hfuel t⟩
  rw [mem_visits_iff h hvisits, hspace.isBlock_iff_meetsBlock h]

/-- A loop that only counts its passes ends if the segment is stepped through. -/
theorem Segment.Stepped.blocksEnd (h : s.Stepped rtSize) : s.BlocksEnd rtSize := by
  obtain ⟨l, -, -, hloop⟩ := h
  have hruns := hloop (ε := Empty) (fun _ n => .returns (n + 1)) (l.length + 1)
    (Nat.lt_succ_self _) 0
  have hend : l.foldlM (fun n _ => (.returns (n + 1) : Outcome Empty Nat)) 0 ≠ .running :=
    Outcome.foldlM_ne_running (fun _ _ n => by simp) 0
  have hmeets : (forLoop (s.inBlocks rtSize) (· + rtSize)
      (fun _ n => (.returns (n + 1) : Outcome Empty Nat)) (l.length + 1)
      ((s.blockStart rtSize).setWidth 32) 0).Meets
      (fun _ => ∃ r, Visits (s.inBlocks rtSize) (· + rtSize) ((s.blockStart rtSize).setWidth 32) r ∧
        True) fun _ => False := by
    refine forLoop_meets (P := fun _ _ => True) (R := fun _ => True) ?_ ?_ trivial trivial
    · exact fun _ _ _ => trivial
    · exact fun _ _ _ _ _ _ => trivial
  rw [← hruns] at hend
  unfold forBlocks at hend
  cases hloop : forLoop (s.inBlocks rtSize) (· + rtSize)
      (fun _ n => (.returns (n + 1) : Outcome Empty Nat)) (l.length + 1)
      ((s.blockStart rtSize).setWidth 32) 0 with
  | running => exact absurd hloop hend
  | throws e => exact e.elim
  | returns n =>
      obtain ⟨r, hvisits, -⟩ := hmeets.returned hloop
      exact ⟨r, hvisits⟩

/-- The loop over the blocks of a segment does not end if and only if the segment meets
both ends of the address space. -/
theorem blocksEnd_iff (h : IsBlockSize rtSize) (hspace : s.InSpace) :
    s.BlocksEnd rtSize ↔ ¬ s.MeetsBothEnds rtSize := by
  have hdvd := dvd_blockStart h s
  rw [← toNat_blockStart] at hdvd
  rw [Segment.MeetsBothEnds, ← hspace.blockStart_eq_zero_iff h, ← hspace.toNat_bound]
  constructor
  · rintro ⟨l, hvisits⟩ ⟨hzero, hlast⟩
    exact not_visits_of_last h hzero hlast hdvd hvisits
  · intro hround
    exact exists_visits h hround 4294967296 hdvd (Nat.sub_le _ _)

/-- The loops over the blocks of a segment end after one visit of each block it meets,
unless it meets both ends of the address space. -/
theorem stepped_iff (h : IsBlockSize rtSize) (hspace : s.InSpace) :
    s.Stepped rtSize ↔ ¬ s.MeetsBothEnds rtSize := by
  rw [← blocksEnd_iff h hspace]
  exact ⟨Segment.Stepped.blocksEnd, fun hends => hends.stepped h hspace⟩

/-! ## The whole address space -/

/-- A segment of the 32-bit space and one that is the whole of it. -/
def page : Segment 64 := ⟨0x1800, 0x1000, .root, false⟩

def wholeSpace : Segment 64 := ⟨0, 0x100000000, .root, false⟩

/-- The loop over a page ends, although the page ends inside a block. -/
theorem page_stepped : page.Stepped 0x1000 :=
  (stepped_iff ⟨12, by decide, rfl⟩ ⟨by decide, by decide⟩).mpr fun h => by
    exact absurd h.1 (by decide)

/-- The loop over the whole space comes round. -/
theorem wholeSpace_not_stepped :
    ¬ ∀ (rtSize : Addr) (s : Segment 64), IsBlockSize rtSize → s.InSpace → s.Stepped rtSize := by
  intro hall
  have hspace : wholeSpace.InSpace := ⟨by decide, by decide⟩
  have hrt : IsBlockSize 0x1000 := ⟨12, by decide, rfl⟩
  exact (blocksEnd_iff hrt hspace).mp (hall _ _ hrt hspace).blocksEnd ⟨by decide, by decide⟩

end SmcTp.Mapping
