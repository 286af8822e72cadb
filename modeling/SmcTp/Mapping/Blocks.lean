import SmcTp.Mapping.Disjointness

/-!
# Blocks of a segment

The block size is a power of two.  A loop over the blocks of a segment that ends has gone
through `Segment.IsBlock`: the multiples of the block size from the rounded base up to
the end of the segment.  The address may have wrapped at the end, and when the loop
starts at zero with a segment that reaches the last block it never ends.

From there, `checkCacheability_meets` says what `add` compares and `fill_meets` what the
three builders put into a table.  A builder throws only when two blocks fall into one
entry with different values.
-/

namespace SmcTp.Mapping

open Programs ConsistentFill

/-! ## Rounding down -/

/-- A power of two that is a 32-bit word. -/
def IsBlockSize (rtSize : Addr) : Prop := ∃ k < 32, rtSize = 1#32 <<< k

/-- The block of an address. -/
def blockOf (rtSize a : Addr) : Addr := a &&& ~~~(rtSize - 1)

theorem toNat_one_shl {k : Nat} (hk : k < 32) : (1#32 <<< k).toNat = 1 <<< k := by
  have hpow : 2 ^ k < 2 ^ 32 := Nat.pow_lt_pow_right (by decide) hk
  have hlt : 1 <<< k < 2 ^ 32 := by rw [Nat.shiftLeft_eq, Nat.one_mul]; exact hpow
  rw [BitVec.toNat_shiftLeft]
  exact Nat.mod_eq_of_lt hlt

theorem getLsbD_shl_sub_one {k : Nat} (hk : k < 32) (i : Nat) :
    ((1#32 <<< k) - 1).getLsbD i = decide (i < k) := by
  have hone := toNat_one_shl hk
  have hle : (1 : Addr) ≤ 1#32 <<< k := by
    rw [BitVec.le_def, hone, Nat.one_shiftLeft]
    exact Nat.two_pow_pos k
  rw [BitVec.getLsbD, BitVec.toNat_sub_of_le hle, hone, Nat.one_shiftLeft]
  exact Nat.testBit_two_pow_sub_one k i

theorem blockOf_eq {k : Nat} (hk : k < 32) (a : Addr) : blockOf (1#32 <<< k) a = a >>> k <<< k := by
  apply BitVec.eq_of_getLsbD_eq
  intro i hi
  rw [blockOf, BitVec.getLsbD_and, BitVec.getLsbD_not, getLsbD_shl_sub_one hk,
    BitVec.getLsbD_shiftLeft, BitVec.getLsbD_ushiftRight]
  rcases Nat.lt_or_ge i k with hlt | hge
  · simp [hlt]
  · simp [hi, Nat.not_lt.mpr hge, Nat.add_sub_cancel' hge]

namespace IsBlockSize

variable {rtSize : Addr}

theorem toNat_blockOf (h : IsBlockSize rtSize) (a : Addr) :
    (blockOf rtSize a).toNat = a.toNat / rtSize.toNat * rtSize.toNat := by
  obtain ⟨k, hk, rfl⟩ := h
  rw [blockOf_eq hk, toNat_one_shl hk, BitVec.toNat_shiftLeft, BitVec.toNat_ushiftRight,
    Nat.shiftLeft_eq, Nat.shiftRight_eq_div_pow, Nat.one_shiftLeft]
  exact Nat.mod_eq_of_lt (Nat.lt_of_le_of_lt (Nat.div_mul_le_self _ _) a.isLt)

theorem dvd (h : IsBlockSize rtSize) : rtSize.toNat ∣ 4294967296 := by
  obtain ⟨k, hk, rfl⟩ := h
  rw [toNat_one_shl hk, Nat.one_shiftLeft]
  exact Nat.pow_dvd_pow 2 (Nat.le_of_lt hk) (n := 32)

theorem dvd_blockOf (h : IsBlockSize rtSize) (a : Addr) :
    rtSize.toNat ∣ (blockOf rtSize a).toNat := by
  rw [h.toNat_blockOf]
  exact Nat.dvd_mul_left _ _

theorem blockOf_le (h : IsBlockSize rtSize) (a : Addr) : (blockOf rtSize a).toNat ≤ a.toNat := by
  rw [h.toNat_blockOf]
  exact Nat.div_mul_le_self _ _

theorem blockOf_mono (h : IsBlockSize rtSize) {a b : Addr} (hle : a.toNat ≤ b.toNat) :
    (blockOf rtSize a).toNat ≤ (blockOf rtSize b).toNat := by
  rw [h.toNat_blockOf, h.toNat_blockOf]
  exact Nat.mul_le_mul_right _ (Nat.div_le_div_right hle)

/-- The next block, if the address does not wrap. -/
theorem add_le_of_lt (_ : IsBlockSize rtSize) {a b : Nat} (ha : rtSize.toNat ∣ a)
    (hb : rtSize.toNat ∣ b) (hlt : a < b) : a + rtSize.toNat ≤ b := by
  obtain ⟨x, rfl⟩ := ha
  obtain ⟨y, rfl⟩ := hb
  have hxy : x < y := Nat.lt_of_mul_lt_mul_left hlt
  exact Nat.mul_le_mul_left rtSize.toNat (Nat.succ_le_of_lt hxy)

end IsBlockSize

/-! ## The blocks a loop visits -/

section Blocks

variable {rtSize : Addr} {s : Segment 64}

/-- The blocks of a segment. -/
def Segment.IsBlock (rtSize : Addr) (s : Segment 64) (b : Addr) : Prop :=
  rtSize.toNat ∣ b.toNat ∧ s.inBlocks rtSize b = true

/-- The loop over the blocks of a segment ends. -/
def Segment.BlocksEnd (rtSize : Addr) (s : Segment 64) : Prop :=
  ∃ l, Visits (s.inBlocks rtSize) (· + rtSize) ((s.blockStart rtSize).setWidth 32) l

theorem blockStart_eq (rtSize : Addr) (s : Segment 64) :
    s.blockStart rtSize = (blockOf rtSize (s.baseAddress.setWidth 32)).setWidth 64 := by
  apply BitVec.eq_of_getLsbD_eq
  intro i hi
  rw [Segment.blockStart, blockOf, BitVec.getLsbD_and, BitVec.getLsbD_setWidth,
    BitVec.getLsbD_setWidth, BitVec.getLsbD_and, BitVec.getLsbD_setWidth]
  rcases Nat.lt_or_ge i 32 with hlt | hge
  · simp [hi, hlt]
  · simp [BitVec.getLsbD_of_ge _ i hge]

theorem toNat_setWidth_long (b : Addr) : (b.setWidth 64).toNat = b.toNat := by
  rw [BitVec.toNat_setWidth]
  exact Nat.mod_eq_of_lt (Nat.lt_trans b.isLt (by decide))

theorem toNat_blockStart_eq (rtSize : Addr) (s : Segment 64) :
    (s.blockStart rtSize).toNat = (blockOf rtSize (s.baseAddress.setWidth 32)).toNat := by
  rw [blockStart_eq, toNat_setWidth_long]

/-- The rounded base is a 32-bit word, so the loop starts at it. -/
theorem toNat_blockStart (rtSize : Addr) (s : Segment 64) :
    ((s.blockStart rtSize).setWidth 32).toNat = (s.blockStart rtSize).toNat := by
  rw [BitVec.toNat_setWidth, toNat_blockStart_eq]
  exact Nat.mod_eq_of_lt (blockOf rtSize (s.baseAddress.setWidth 32)).isLt

theorem dvd_blockStart (h : IsBlockSize rtSize) (s : Segment 64) :
    rtSize.toNat ∣ (s.blockStart rtSize).toNat := by
  rw [toNat_blockStart_eq]
  exact h.dvd_blockOf _

theorem inBlocks_iff {b : Addr} :
    s.inBlocks rtSize b = true ↔
      (s.blockStart rtSize).toNat ≤ b.toNat ∧ b.toNat < s.bound.toNat := by
  simp only [Segment.inBlocks, Bool.and_eq_true, decide_eq_true_eq, BitVec.lt_def, BitVec.le_def,
    toNat_setWidth_long]
  exact And.comm

theorem isBlock_iff {b : Addr} :
    s.IsBlock rtSize b ↔ rtSize.toNat ∣ b.toNat ∧ (s.blockStart rtSize).toNat ≤ b.toNat ∧
      b.toNat < s.bound.toNat := by
  rw [Segment.IsBlock, inBlocks_iff]

theorem dvd_toNat_add (h : IsBlockSize rtSize) {b : Addr} (hb : rtSize.toNat ∣ b.toNat) :
    rtSize.toNat ∣ (b + rtSize).toNat := by
  rw [BitVec.toNat_add]
  exact (Nat.dvd_mod_iff (n := 2 ^ 32) h.dvd).mpr (Nat.dvd_add hb (Nat.dvd_refl _))

/-- A loop that starts at zero, on a segment that reaches the last block, comes round. -/
theorem not_visits_of_last (h : IsBlockSize rtSize) (hzero : (s.blockStart rtSize).toNat = 0)
    (hlast : 4294967296 - rtSize.toNat < s.bound.toNat) {b : Addr} {l : List Addr}
    (hb : rtSize.toNat ∣ b.toNat) :
    ¬ Visits (s.inBlocks rtSize) (· + rtSize) b l := by
  intro hvisits
  induction hvisits with
  | @stop b hcond =>
      have hle := h.add_le_of_lt hb h.dvd b.isLt
      have hin : s.inBlocks rtSize b = true := inBlocks_iff.mpr ⟨by omega, by omega⟩
      rw [hin] at hcond
      cases hcond
  | pass hcond _ ih => exact ih (dvd_toNat_add h hb)

/-- The address after a block has not wrapped, or it is zero. -/
theorem add_cases (h : IsBlockSize rtSize) {a : Addr} (ha : rtSize.toNat ∣ a.toNat) :
    (a + rtSize).toNat = a.toNat + rtSize.toNat ∨
      a.toNat + rtSize.toNat = 4294967296 ∧ a + rtSize = 0 := by
  rcases Nat.lt_or_eq_of_le (h.add_le_of_lt ha h.dvd a.isLt) with hnext | hnext
  · left
    rw [BitVec.toNat_add]
    exact Nat.mod_eq_of_lt hnext
  · right
    refine ⟨hnext, BitVec.eq_of_toNat_eq ?_⟩
    rw [BitVec.toNat_add, hnext]
    rfl

/-- A loop that ends stops where the address wraps. -/
theorem rest_eq_nil (h : IsBlockSize rtSize) {a : Addr} {l : List Addr}
    (hin : s.inBlocks rtSize a = true) (hwrap : a.toNat + rtSize.toNat = 4294967296)
    (hrest : Visits (s.inBlocks rtSize) (· + rtSize) 0 l) : l = [] := by
  obtain ⟨-, hlt⟩ := inBlocks_iff.mp hin
  cases hrest with
  | stop _ => rfl
  | pass hcond hrest' =>
      have hzero := (inBlocks_iff.mp hcond).1
      have hdvd : rtSize.toNat ∣ (0 : Addr).toNat := Nat.dvd_zero _
      exact absurd hrest' (not_visits_of_last h (Nat.le_zero.mp hzero) (by omega)
        (dvd_toNat_add h hdvd))

theorem mem_visits_from (h : IsBlockSize rtSize) {a : Addr} {l : List Addr}
    (hvisits : Visits (s.inBlocks rtSize) (· + rtSize) a l) (ha : rtSize.toNat ∣ a.toNat)
    (hle : (s.blockStart rtSize).toNat ≤ a.toNat) (b : Addr) :
    b ∈ l ↔ rtSize.toNat ∣ b.toNat ∧ a.toNat ≤ b.toNat ∧ b.toNat < s.bound.toNat := by
  induction hvisits with
  | @stop a hcond =>
      have hout : ¬ s.inBlocks rtSize a = true := by rw [hcond]; exact Bool.noConfusion
      rw [inBlocks_iff] at hout
      simp only [List.not_mem_nil, false_iff]
      omega
  | @pass a l hcond hrest ih =>
      obtain ⟨-, hlt⟩ := inBlocks_iff.mp hcond
      have hblock : ∀ b : Addr, rtSize.toNat ∣ b.toNat → a.toNat < b.toNat →
          a.toNat + rtSize.toNat ≤ b.toNat := fun b hb hab => h.add_le_of_lt ha hb hab
      rw [List.mem_cons]
      rcases add_cases h ha with hadd | ⟨hwrap, hadd⟩
      · rw [ih (dvd_toNat_add h ha) (by omega), hadd]
        constructor
        · rintro (rfl | ⟨hb, hle', hlt'⟩)
          · exact ⟨ha, Nat.le_refl _, hlt⟩
          · exact ⟨hb, by omega, hlt'⟩
        · rintro ⟨hb, hab, hbound⟩
          rcases Nat.eq_or_lt_of_le hab with heq | hab
          · exact .inl (BitVec.eq_of_toNat_eq heq.symm)
          · exact .inr ⟨hb, hblock b hb hab, hbound⟩
      · rw [hadd] at hrest
        rw [rest_eq_nil h hcond hwrap hrest]
        simp only [List.not_mem_nil, or_false]
        constructor
        · rintro rfl
          exact ⟨ha, Nat.le_refl _, hlt⟩
        · rintro ⟨hb, hab, -⟩
          rcases Nat.eq_or_lt_of_le hab with heq | hab
          · exact BitVec.eq_of_toNat_eq heq.symm
          · have hpast := hblock b hb hab
            have hb := b.isLt
            omega

/-- A loop that ends has visited the blocks of the segment. -/
theorem mem_visits_iff (h : IsBlockSize rtSize) {l : List Addr}
    (hvisits : Visits (s.inBlocks rtSize) (· + rtSize) ((s.blockStart rtSize).setWidth 32) l)
    (b : Addr) : b ∈ l ↔ s.IsBlock rtSize b := by
  have hdvd := dvd_blockStart h s
  rw [← toNat_blockStart] at hdvd
  rw [mem_visits_from h hvisits hdvd (Nat.le_of_eq (toNat_blockStart rtSize s).symm),
    toNat_blockStart, isBlock_iff]

/-- The block of an address of the segment. -/
theorem isBlock_blockOf (h : IsBlockSize rtSize) {a : Addr}
    (hlo : s.baseAddress ≤ a.setWidth 64) (hhi : a.setWidth 64 < s.bound) :
    s.IsBlock rtSize (blockOf rtSize a) := by
  rw [BitVec.le_def, toNat_setWidth_long] at hlo
  rw [BitVec.lt_def, toNat_setWidth_long] at hhi
  have hbase : (s.baseAddress.setWidth 32).toNat = s.baseAddress.toNat := by
    rw [BitVec.toNat_setWidth]
    exact Nat.mod_eq_of_lt (Nat.lt_of_le_of_lt hlo a.isLt)
  refine isBlock_iff.mpr ⟨h.dvd_blockOf a, ?_, Nat.lt_of_le_of_lt (h.blockOf_le a) hhi⟩
  rw [toNat_blockStart_eq]
  exact h.blockOf_mono (hbase ▸ hlo)

variable {σ : Type} {body : Addr → σ → Outcome (Exn 64) σ}

/-- The rule of the loops over the blocks of a segment. -/
theorem forBlocks_meets (h : IsBlockSize rtSize) {P : List Addr → σ → Prop} {E : Exn 64 → Prop}
    (hbody : ∀ l b t, s.IsBlock rtSize b → P l t → (body b t).Meets (P (l ++ [b])) E)
    (fuel : Nat) {t : σ} (hP : P [] t) :
    (forBlocks fuel rtSize s body t).Meets
      (fun t' => ∃ l, (∀ b, b ∈ l ↔ s.IsBlock rtSize b) ∧ P l t') E := by
  have hdvd := dvd_blockStart h s
  rw [← toNat_blockStart] at hdvd
  refine (forLoop_meets (R := fun b => rtSize.toNat ∣ b.toNat) (fun b hb _ => dvd_toNat_add h hb)
    (fun l b t hb hcond hP => hbody l b t ⟨hb, hcond⟩ hP) hdvd hP).imp ?_ fun _ he => he
  rintro t' ⟨l, hvisits, hl⟩
  exact ⟨l, mem_visits_iff h hvisits, hl⟩

end Blocks

end SmcTp.Mapping
