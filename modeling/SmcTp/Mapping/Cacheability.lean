import SmcTp.Mapping.BlockLoops
import SmcTp.Mapping.Routing

/-!
# Cacheability

`add` compares the masked addresses of two segments block by block, and
`getCacheabilityTable` compares the entries their blocks fall into.  For a contiguous mask
the two are the same comparison (`entry_eq_iff`), so what `add` let in is never found
incoherent.

*The mask.*  `Contiguous mask use drop` says where the ones of the mask are.  The
constructor counts them (`maskBits_eq`), except for the mask of all ones.  With 31 ones
the size of the table, `1 << 31`, is negative as an `int`, and no table is built.

*Empty segments.*  The loop visits the block an empty segment has its base in.  When the
segment is cacheable, the table is true there although the segment has no address
(`CacheableStray`).
-/

namespace SmcTp.Mapping

open Programs Clocked MappingTable

/-! ## Contiguous masks -/

/-- The ones of the mask are `use` bits above the lowest `drop`. -/
structure Contiguous (mask : Addr) (use drop : Nat) : Prop where
  pos : 0 < use
  le : drop + use ≤ 32
  bits : ∀ i, mask.getLsbD i = decide (drop ≤ i ∧ i < drop + use)

theorem countDrop_eq {m : Addr} {d n drop : Nat} (hn : d < n)
    (hzeros : ∀ i < d, m.getLsbD i = false) (hone : m.getLsbD d = true) :
    countDrop n drop m = some (drop + d, m >>> d) := by
  induction d generalizing m n drop with
  | zero =>
      obtain ⟨n, rfl⟩ := Nat.exists_eq_succ_of_ne_zero (Nat.ne_of_gt hn)
      simp [countDrop, hone]
  | succ d ih =>
      obtain ⟨n, rfl⟩ := Nat.exists_eq_succ_of_ne_zero (Nat.ne_of_gt (Nat.zero_lt_of_lt hn))
      have hzero : m.getLsbD 0 = false := hzeros 0 (Nat.succ_pos d)
      have hrest : countDrop n (drop + 1) (m >>> 1) = _ := ih (Nat.lt_of_succ_lt_succ hn)
        (fun i hi => by
          rw [BitVec.getLsbD_ushiftRight, Nat.add_comm]
          exact hzeros (i + 1) (Nat.succ_lt_succ hi))
        (by rw [BitVec.getLsbD_ushiftRight, Nat.add_comm]; exact hone)
      rw [countDrop, hzero, if_neg Bool.false_ne_true, hrest, ← BitVec.shiftRight_add,
        Nat.add_comm 1 d, Nat.add_assoc, Nat.add_comm 1 d]

theorem countUse_eq {m : Addr} {drop u n use : Nat} (hn : u < n) (hle : use + u + drop ≤ 32)
    (hones : ∀ i < u, m.getLsbD i = true) (hzero : m.getLsbD u = false) :
    countUse drop n use m = use + u := by
  induction u generalizing m n use with
  | zero =>
      obtain ⟨n, rfl⟩ := Nat.exists_eq_succ_of_ne_zero (Nat.ne_of_gt hn)
      rw [countUse, hzero, Bool.false_and, if_neg Bool.false_ne_true, Nat.add_zero]
  | succ u ih =>
      obtain ⟨n, rfl⟩ := Nat.exists_eq_succ_of_ne_zero (Nat.ne_of_gt (Nat.zero_lt_of_lt hn))
      have hone : m.getLsbD 0 = true := hones 0 (Nat.succ_pos u)
      have hrest : countUse drop n (use + 1) (m >>> 1) = _ :=
        ih (Nat.lt_of_succ_lt_succ hn) (by omega)
        (fun i hi => by
          rw [BitVec.getLsbD_ushiftRight, Nat.add_comm]
          exact hones (i + 1) (Nat.succ_lt_succ hi))
        (by rw [BitVec.getLsbD_ushiftRight, Nat.add_comm]; exact hzero)
      have hcond : (m.getLsbD 0 && decide (use + drop ≤ 32)) = true := by
        rw [hone, Bool.true_and, decide_eq_true_eq]
        omega
      rw [countUse, if_pos hcond, hrest]
      omega

namespace Contiguous

variable {mask : Addr} {use drop : Nat}

/-- Only the mask of all ones has 32 of them. -/
theorem use_lt (h : Contiguous mask use drop) (hne : mask ≠ BitVec.allOnes 32) : use < 32 := by
  have hle := h.le
  rcases Nat.lt_or_eq_of_le (Nat.le_trans (Nat.le_add_left use drop) hle) with hlt | heq
  · exact hlt
  · refine absurd ?_ hne
    apply BitVec.eq_of_getLsbD_eq
    intro i hi
    rw [h.bits, BitVec.getLsbD_allOnes]
    simp only [decide_eq_decide]
    omega

theorem shl1_eq (huse : use < 32) : shl1 use = 1#32 <<< use := by
  have hmod : ((use : Int) % 32).toNat = use := by omega
  rw [shl1, hmod]

/-- `mask()` gives the mask back. -/
theorem mask_eq (h : Contiguous mask use drop) (huse : use < 32) :
    (shl1 use - 1) <<< drop = mask := by
  apply BitVec.eq_of_getLsbD_eq
  intro i hi
  rw [BitVec.getLsbD_shiftLeft, shl1_eq huse, getLsbD_shl_sub_one huse, h.bits]
  have hle := h.le
  rcases Nat.lt_or_ge i drop with hlt | hge
  · simp [hlt, Nat.not_le.mpr hlt]
  · have hiff : i - drop < use ↔ i < drop + use := by omega
    simp [hi, hge, Nat.not_lt.mpr hge, hiff]

/-- The loops of the constructors count the bits of a contiguous mask. -/
theorem maskBits_eq (h : Contiguous mask use drop) (huse : use < 32) :
    maskBits mask = some (use, drop) := by
  have hpos := h.pos
  have hle := h.le
  have hdrop : countDrop 33 0 mask = some (0 + drop, mask >>> drop) := countDrop_eq (by omega)
    (fun i hi => by rw [h.bits]; exact decide_eq_false (by omega))
    (by rw [h.bits]; exact decide_eq_true (by omega))
  have huses : countUse drop 33 0 (mask >>> drop) = 0 + use := countUse_eq (by omega) (by omega)
    (fun i hi => by
      rw [BitVec.getLsbD_ushiftRight, h.bits]
      exact decide_eq_true (by omega))
    (by
      rw [BitVec.getLsbD_ushiftRight, h.bits]
      exact decide_eq_false (by omega))
  rw [maskBits, hdrop]
  simp only [Option.bind_some, Nat.zero_add]
  rw [huses, Nat.zero_add, if_pos (h.mask_eq huse)]

/-- Two addresses fall into one entry if and only if they are equal under the mask. -/
theorem entry_eq_iff (h : Contiguous mask use drop) (huse : use < 32) (a b : Addr) :
    entry use drop a = entry use drop b ↔ mask &&& a = mask &&& b := by
  have hle := h.le
  have hpos := h.pos
  have hdrop : ((drop : Int) % 32).toNat = drop := by omega
  have hentry : ∀ (a : Addr) (i : Nat),
      (entry use drop a).getLsbD i = (a.getLsbD (drop + i) && decide (i < use)) := by
    intro a i
    rw [entry, hdrop, BitVec.getLsbD_and, BitVec.getLsbD_ushiftRight, shl1_eq huse,
      getLsbD_shl_sub_one huse]
  constructor
  · intro heq
    apply BitVec.eq_of_getLsbD_eq
    intro i hi
    rw [BitVec.getLsbD_and, BitVec.getLsbD_and, h.bits]
    rcases Classical.em (drop ≤ i ∧ i < drop + use) with hin | hout
    · have hbit := congrArg (fun e => e.getLsbD (i - drop)) heq
      simp only [hentry, Nat.add_sub_cancel' hin.1] at hbit
      have hlt : i - drop < use := by omega
      simpa [hlt, hin] using hbit
    · simp [hout]
  · intro heq
    apply BitVec.eq_of_getLsbD_eq
    intro i hi
    rw [hentry, hentry]
    rcases Nat.lt_or_ge i use with hlt | hge
    · have hbit := congrArg (fun e => e.getLsbD (drop + i)) heq
      have hin : drop ≤ drop + i ∧ drop + i < drop + use := by omega
      simpa [h.bits, hin, hlt] using hbit
    · simp [Nat.not_lt.mpr hge]

end Contiguous

namespace MappingTable

/-! ## What `add` compares -/

/-- Blocks of the two segments are equal under the mask. -/
def Meet (mask rtSize : Addr) (s seg : Segment 64) : Prop :=
  ∃ b b', s.IsBlock rtSize b ∧ seg.IsBlock rtSize b' ∧ mask &&& b = mask &&& b'

theorem Meet.symm {mask rtSize : Addr} {s seg : Segment 64} (h : Meet mask rtSize s seg) :
    Meet mask rtSize seg s := by
  obtain ⟨b, b', hb, hb', heq⟩ := h
  exact ⟨b', b, hb', hb, heq.symm⟩

variable {mt : MappingTable 64} {s seg : Segment 64}

/-- What a comparison that throws has found. -/
def Found (mt : MappingTable 64) (s seg : Segment 64) (e : Exn 64) : Prop :=
  e = .cacheability s seg ∧ Meet mt.cacheabilityMask mt.rtSize s seg ∧ s.cacheable ≠ seg.cacheable

theorem checkBlock_meets (h : IsBlockSize mt.rtSize) (fuel : Nat) {b : Addr}
    (hb : s.IsBlock mt.rtSize b) :
    (checkBlock fuel mt s seg b).Meets
      (fun _ => ∀ b', seg.IsBlock mt.rtSize b' →
        mt.cacheabilityMask &&& b = mt.cacheabilityMask &&& b' → s.cacheable = seg.cacheable)
      (Found mt s seg) := by
  refine (forBlocks_meets h (P := fun l _ => ∀ b' ∈ l,
    mt.cacheabilityMask &&& b = mt.cacheabilityMask &&& b' → s.cacheable = seg.cacheable) ?_
    fuel (by simp)).imp ?_ fun _ he => he
  · intro l b' _ hb' hl
    split
    next hclash => exact ⟨rfl, ⟨b, b', hb, hb', hclash.1⟩, hclash.2⟩
    next hclash =>
      intro c hc heq
      rcases List.mem_append.mp hc with hc | hc
      · exact hl c hc heq
      · rw [List.mem_singleton.mp hc] at heq
        by_contra hne
        exact hclash ⟨heq, hne⟩
  · rintro _ ⟨l, hl, hsame⟩ b' hb'
    exact hsame b' ((hl b').mpr hb')

theorem checkCacheability_meets (h : IsBlockSize mt.rtSize) (fuel : Nat) :
    (checkCacheability fuel mt s seg).Meets
      (fun _ => Meet mt.cacheabilityMask mt.rtSize s seg → s.cacheable = seg.cacheable)
      (Found mt s seg) := by
  refine (forBlocks_meets h (P := fun l _ => ∀ b ∈ l, ∀ b', seg.IsBlock mt.rtSize b' →
    mt.cacheabilityMask &&& b = mt.cacheabilityMask &&& b' → s.cacheable = seg.cacheable) ?_
    fuel (by simp)).imp ?_ fun _ he => he
  · intro l b _ hb hl
    refine (checkBlock_meets h fuel hb).imp (fun _ hsame => ?_) fun _ he => he
    intro c hc
    rcases List.mem_append.mp hc with hc | hc
    · exact hl c hc
    · rwa [List.mem_singleton.mp hc]
  · rintro _ ⟨l, hl, hsame⟩ ⟨b, b', hb, hb', heq⟩
    exact hsame b ((hl b).mpr hb) b' hb' heq

theorem check_meets (h : IsBlockSize mt.rtSize) (fuel : Nat) :
    (mt.check fuel seg).Meets
      (fun _ => ∀ s ∈ mt.segmentList, Meet mt.cacheabilityMask mt.rtSize s seg →
        s.cacheable = seg.cacheable)
      fun e => ∀ r, e = .cacheability r seg → r ∈ mt.segmentList ∧
        Meet mt.cacheabilityMask mt.rtSize r seg ∧ r.cacheable ≠ seg.cacheable := by
  unfold check
  split
  · intro r heq
    cases heq
  · refine Outcome.forM_meets fun s hs => ?_
    split
    · intro r heq
      cases heq
    · refine (checkCacheability_meets h fuel).imp (fun _ hsame => hsame) ?_
      rintro e ⟨rfl, hmeet, hne⟩ r heq
      cases heq
      exact ⟨hs, hmeet, hne⟩

/-- Registered segments whose blocks meet under the mask have one attribute. -/
def Coherent (mt : MappingTable 64) : Prop :=
  ∀ s ∈ mt.segmentList, ∀ r ∈ mt.segmentList,
    Meet mt.cacheabilityMask mt.rtSize s r → s.cacheable = r.cacheable

theorem Coherent.append (hcoherent : mt.Coherent) (h : IsBlockSize mt.rtSize)
    (haccepts : mt.Accepts seg) : (mt.append seg).Coherent := by
  obtain ⟨fuel, hcheck⟩ := haccepts
  have hnew := (check_meets h fuel).returned hcheck
  intro s hs r hr hmeet
  rcases List.mem_append.mp hs with hold | hlast
  · rcases List.mem_append.mp hr with hold' | hlast'
    · exact hcoherent s hold r hold' hmeet
    · rw [List.mem_singleton.mp hlast'] at hmeet ⊢
      exact hnew s hold hmeet
  · rw [List.mem_singleton.mp hlast] at hmeet ⊢
    rcases List.mem_append.mp hr with hold' | hlast'
    · exact (hnew r hold' hmeet.symm).symm
    · rw [List.mem_singleton.mp hlast']

/-! ## The table -/

theorem getCacheabilityTable_eq {fuel use drop : Nat}
    (hmask : maskBits mt.cacheabilityMask = some (use, drop)) :
    mt.getCacheabilityTable fuel =
      build fuel mt use drop false fun seg => some seg.cacheable := by
  simp only [getCacheabilityTable, build, AddressDecodingTable.ofMask, hmask]

/-- With 31 ones, the size of the table is negative. -/
theorem msb_shl1_iff {use : Nat} (huse : use < 32) : (shl1 use).msb = true ↔ use = 31 := by
  rw [Contiguous.shl1_eq huse, BitVec.msb_eq_decide, toNat_one_shl huse, Nat.one_shiftLeft,
    decide_eq_true_eq]
  constructor
  · intro hle
    have hlt : ¬ use < 31 := fun h => Nat.not_lt.mpr hle (Nat.pow_lt_pow_right (by decide) h)
    omega
  · rintro rfl
    exact Nat.le_refl _

/-- The entries of two segments that clash belong to blocks that meet. -/
theorem Coherent.not_clash {use drop : Nat} (hcoherent : mt.Coherent)
    (hmask : Contiguous mt.cacheabilityMask use drop) (huse : use < 32) :
    ¬ Clash mt.rtSize (entry use drop) (fun seg => some seg.cacheable) mt.segmentList := by
  rintro ⟨k, v, v', hne, ⟨s, hs, hv, b, hb, rfl⟩, ⟨s', hs', hv', b', hb', heq⟩⟩
  have hsame := hcoherent s hs s' hs' ⟨b, b', hb, hb', ((hmask.entry_eq_iff huse _ _).mp heq).symm⟩
  cases hv
  cases hv'
  exact hne hsame

/-- A segment that lies in the 32-bit space and whose loops end. -/
structure Fits (rtSize : Addr) (seg : Segment 64) : Prop where
  space : seg.baseAddress.toNat + seg.size.toNat ≤ 4294967296
  ends : seg.BlocksEnd rtSize

/-- A loop over an empty segment that ends is one below the top of the 32-bit space. -/
theorem Fits.base_lt {rtSize : Addr} (hfits : Fits rtSize seg) (h : IsBlockSize rtSize)
    (hsize : seg.size = 0) : seg.baseAddress.toNat < 4294967296 := by
  have hspace := hfits.space
  rw [hsize] at hspace
  refine Nat.lt_of_le_of_ne hspace fun heq => ?_
  obtain ⟨l, hvisits⟩ := hfits.ends
  have hpos : 0 < rtSize.toNat := Nat.pos_of_dvd_of_pos h.dvd (by decide)
  have hdvd := dvd_blockStart h seg
  rw [← toNat_blockStart] at hdvd
  have hzero : (seg.blockStart rtSize).toNat = 0 := by
    have hword : seg.baseAddress.setWidth 32 = 0 := by
      apply BitVec.eq_of_toNat_eq
      rw [BitVec.toNat_setWidth, heq]
      rfl
    rw [toNat_blockStart_eq, hword, h.toNat_blockOf]
    exact (congrArg (· * rtSize.toNat) (Nat.zero_div _)).trans (Nat.zero_mul _)
  have hbound : seg.bound.toNat = 4294967296 := by
    rw [Segment.bound_eq_iff.mpr hsize]
    exact heq
  exact not_visits_of_last h hzero (by omega) hdvd hvisits

/-- One bound for the loops over all segments. -/
theorem exists_bound {rtSize : Addr} {segs : List (Segment 64)}
    (hends : ∀ seg ∈ segs, seg.BlocksEnd rtSize) :
    ∃ n, ∀ seg ∈ segs, ∃ l, l.length < n ∧ Visits (seg.inBlocks rtSize) (· + rtSize)
      ((seg.blockStart rtSize).setWidth 32) l := by
  induction segs with
  | nil => exact ⟨0, fun seg hseg => absurd hseg List.not_mem_nil⟩
  | cons seg segs ih =>
      obtain ⟨n, hn⟩ := ih fun s hs => hends s (List.mem_cons_of_mem _ hs)
      obtain ⟨l, hl⟩ := hends seg List.mem_cons_self
      refine ⟨max n (l.length + 1), fun s hs => ?_⟩
      rcases List.mem_cons.mp hs with rfl | hs
      · exact ⟨l, by omega, hl⟩
      · obtain ⟨r, hr, hvisits⟩ := hn s hs
        exact ⟨r, by omega, hvisits⟩

/-- A builder comes to an end when the loops over the segments do. -/
theorem exists_build_ne_running {α : Type} [DecidableEq α] (useBits dropBits : Int) (d : α)
    (val : Segment 64 → Option α) (hends : ∀ seg ∈ mt.segmentList, seg.BlocksEnd mt.rtSize) :
    ∃ fuel, build fuel mt useBits dropBits d val ≠ .running := by
  obtain ⟨n, hn⟩ := exists_bound hends
  refine ⟨n, ?_⟩
  cases hmsb : (shl1 useBits).msb with
  | true =>
      rw [build, AddressDecodingTable.ofBits, hmsb]
      simp
  | false =>
      rw [build, ofBits_eq hmsb, ofBits_eq hmsb, Outcome.returns_bind, Outcome.returns_bind]
      refine Outcome.bind_ne_running (Outcome.foldlM_ne_running (fun seg hseg t => ?_) _)
        fun _ _ => by simp
      obtain ⟨l, hl, hvisits⟩ := hn seg hseg
      cases val seg with
      | none => simp
      | some v =>
          refine hvisits.ne_running (fun b t => ?_) hl t
          unfold mark
          split <;> simp

/-! ## Histories -/

/-- The calls of `add` with segments that fit. -/
def fittingCalls (mt : MappingTable 64) : System (MappingTable 64) (Segment 64) :=
  (calls mt).under fun _ seg => Fits mt.rtSize seg

theorem reachable_of_fitting {mt s : MappingTable 64} (h : (fittingCalls mt).Reachable s) :
    (calls mt).Reachable s :=
  System.Reachable.mono (S := fittingCalls mt) (T := calls mt) (fun _ hs => hs)
    (fun _ _ _ hstep => hstep.2) h

theorem coherent_of_fitting {addrWidth : Nat} {levelAddrBits : IntTab} {mask : Addr}
    {mt s : MappingTable 64} (hnew : new addrWidth levelAddrBits mask = some mt)
    (h : (fittingCalls mt).Reachable s) :
    s.Coherent ∧ ∀ seg ∈ s.segmentList, Fits mt.rtSize seg := by
  induction h with
  | init hs =>
      obtain rfl : _ = mt := hs
      have hempty := segmentList_of_new hnew
      refine ⟨fun s hs => ?_, fun s hs => ?_⟩
      · rw [hempty] at hs
        cases hs
      · rw [hempty] at hs
        cases hs
  | @step s s' seg hs hstep ih =>
      have hrt := isBlockSize_of_new hnew
      rw [← (grown_of_reachable hnew (reachable_of_fitting hs)).rtSize] at hrt
      rcases step_cases hstep.2 with ⟨-, rfl⟩ | ⟨haccepts, rfl⟩
      · exact ih
      · refine ⟨ih.1.append hrt haccepts, fun r hr => ?_⟩
        rcases List.mem_append.mp hr with hr | hr
        · exact ih.2 r hr
        · rw [List.mem_singleton.mp hr]
          exact hstep.1

/-! ## What a cacheability table is for -/

/-- An address of a registered segment is equal to `a` under the mask. -/
def Touched (s : MappingTable 64) (a : Addr) : Prop :=
  ∃ seg ∈ s.segmentList, ∃ x : Addr, seg.baseAddress ≤ x.setWidth 64 ∧
    x.setWidth 64 < seg.baseAddress + seg.size ∧
    s.cacheabilityMask &&& x = s.cacheabilityMask &&& a

/-- `add` and `getCacheabilityTable` agree. -/
structure Cacheability (s : MappingTable 64) : Prop where
  /-- The builder does not throw, and it comes to an end. -/
  never_throws : ∀ fuel e, s.getCacheabilityTable fuel ≠ .throws e
  returns : ∃ fuel t, s.getCacheabilityTable fuel = .returns t
  /-- The addresses of a segment have its attribute. -/
  get : ∀ fuel t, s.getCacheabilityTable fuel = .returns t → ∀ seg ∈ s.segmentList, ∀ a : Addr,
    seg.baseAddress ≤ a.setWidth 64 → a.setWidth 64 < seg.baseAddress + seg.size →
    t.get a = seg.cacheable
  /-- An address that no segment touches is not cacheable. -/
  default : ∀ fuel t, s.getCacheabilityTable fuel = .returns t → ∀ a : Addr,
    ¬ s.Touched a → t.get a = false
  /-- A call of `add` that throws for cacheability has found blocks that meet. -/
  refused : ∀ fuel seg r s', s.add fuel seg = (.throws (.cacheability r seg), s') →
    r ∈ s.segmentList ∧ Meet s.cacheabilityMask s.rtSize r seg ∧ r.cacheable ≠ seg.cacheable

/-- An empty cacheable segment whose base is inside a block. -/
structure CacheableStray (s : MappingTable 64) (seg : Segment 64) : Prop where
  mem : seg ∈ s.segmentList
  size : seg.size = 0
  inside : ¬ s.rtSize.toNat ∣ seg.baseAddress.toNat
  cacheable : seg.cacheable = true

/-- A table whose mask has `use` ones above the lowest `drop` bits, and what a history of
segments that fit keeps about it. -/
structure Maskable (s : MappingTable 64) (use drop : Nat) : Prop where
  mask : Contiguous s.cacheabilityMask use drop
  use_lt : use < 32
  block : IsBlockSize s.rtSize
  fits : ∀ seg ∈ s.segmentList, Fits s.rtSize seg
  coherent : s.Coherent
  entry_block : ∀ a, entry use drop (blockOf s.rtSize a) = entry use drop a

theorem maskable_of_fitting {levelAddrBits : IntTab} {mask : Addr} {use drop : Nat}
    {s : MappingTable 64} (hmask : Contiguous mask use drop) (huse : use < 32)
    (hnew : new 32 levelAddrBits mask = some mt) (hreach : (fittingCalls mt).Reachable s) :
    s.Maskable use drop := by
  have hgrown := grown_of_reachable hnew (reachable_of_fitting hreach)
  obtain ⟨hcoherent, hfits⟩ := coherent_of_fitting hnew hreach
  refine ⟨hgrown.cacheabilityMask ▸ hmask, huse, hgrown.rtSize ▸ isBlockSize_of_new hnew,
    fun seg hseg => hgrown.rtSize ▸ hfits seg hseg, hcoherent, fun a => ?_⟩
  obtain ⟨k, hk, hstep, -, use', drop', hbits, hkle⟩ := rtSize_of_new hnew
  obtain ⟨rfl, rfl⟩ := Prod.mk.inj (Option.some.inj ((hmask.maskBits_eq huse).symm.trans hbits))
  have hle := hmask.le
  have hpos := hmask.pos
  rw [hgrown.rtSize, hstep]
  exact entry_blockOf hk (.inr (by omega)) a

namespace Maskable

variable {s : MappingTable 64} {use drop fuel : Nat} {t : AddressDecodingTable Bool}

theorem table_eq (h : s.Maskable use drop) (fuel : Nat) :
    s.getCacheabilityTable fuel = build fuel s use drop false fun seg => some seg.cacheable :=
  getCacheabilityTable_eq (h.mask.maskBits_eq h.use_lt)

/-- The table that is returned. -/
theorem table (h : s.Maskable use drop) (ht : s.getCacheabilityTable fuel = .returns t) :
    Table s.rtSize (entry use drop) false (fun seg => some seg.cacheable) s.segmentList t := by
  rw [h.table_eq] at ht
  exact (build_meets h.block fuel).returned ht

theorem never_throws (h : s.Maskable use drop) (hsize : use ≠ 31) (fuel : Nat) (e : Exn 64) :
    s.getCacheabilityTable fuel ≠ .throws e := by
  intro heq
  rw [h.table_eq] at heq
  rcases (build_meets h.block fuel).thrown heq with hmsb | hclash
  · exact hsize ((msb_shl1_iff h.use_lt).mp hmsb)
  · exact h.coherent.not_clash h.mask h.use_lt hclash

theorem returns (h : s.Maskable use drop) (hsize : use ≠ 31) :
    ∃ fuel t, s.getCacheabilityTable fuel = .returns t := by
  obtain ⟨fuel, hend⟩ := exists_build_ne_running use drop false (fun seg => some seg.cacheable)
    fun seg hseg => (h.fits seg hseg).ends
  rw [← h.table_eq fuel] at hend
  cases hout : s.getCacheabilityTable fuel with
  | running => exact absurd hout hend
  | throws e => exact absurd hout (h.never_throws hsize fuel e)
  | returns t => exact ⟨fuel, t, hout⟩

/-- What the loops put into the entry of an address: the attribute of a segment that
touches it, or that of an empty segment whose base is equal to it under the mask. -/
theorem touched_or_empty (h : s.Maskable use drop) {a : Addr} {v : Bool}
    (hput : Puts s.rtSize (entry use drop) (fun seg => some seg.cacheable) s.segmentList
      (entry use drop a) v) :
    s.Touched a ∨ ∃ seg ∈ s.segmentList, seg.size = 0 ∧
      ¬ s.rtSize.toNat ∣ seg.baseAddress.toNat ∧ seg.cacheable = v ∧
      s.cacheabilityMask &&& seg.baseAddress.setWidth 32 = s.cacheabilityMask &&& a := by
  obtain ⟨seg, hseg, hval, b, hb, hentry⟩ := hput
  rcases Nat.eq_zero_or_pos seg.size.toNat with hzero | hpos
  · have hsize : seg.size = 0 := BitVec.eq_of_toNat_eq hzero
    have hbase := (h.fits seg hseg).base_lt h.block hsize
    obtain ⟨hinside, rfl⟩ := (Segment.isBlock_iff_of_empty h.block hsize hbase b).mp hb
    rw [h.entry_block] at hentry
    exact .inr ⟨seg, hseg, hsize, hinside, Option.some.inj hval,
      (h.mask.entry_eq_iff h.use_lt _ _).mp hentry⟩
  · have hspace : seg.InSpace := ⟨hpos, (h.fits seg hseg).space⟩
    obtain ⟨x, hlo, hhi, rfl⟩ := (hspace.isBlock_iff_meetsBlock h.block b).mp hb
    rw [h.entry_block] at hentry
    exact .inl ⟨seg, hseg, x, hlo, hhi, (h.mask.entry_eq_iff h.use_lt _ _).mp hentry⟩

/-- Addresses that are equal under the mask are touched together. -/
theorem touched_congr {a b : Addr} (heq : s.cacheabilityMask &&& a = s.cacheabilityMask &&& b)
    (h : s.Touched a) : s.Touched b := by
  obtain ⟨seg, hseg, x, hlo, hhi, hx⟩ := h
  exact ⟨seg, hseg, x, hlo, hhi, hx.trans heq⟩

theorem get (h : s.Maskable use drop) (ht : s.getCacheabilityTable fuel = .returns t)
    {seg : Segment 64} (hseg : seg ∈ s.segmentList) {a : Addr}
    (hlo : seg.baseAddress ≤ a.setWidth 64) (hhi : a.setWidth 64 < seg.bound) :
    t.get a = seg.cacheable :=
  (h.table ht).get_eq h.entry_block h.block hseg rfl hlo hhi

/-- An address that nothing touches is not cacheable when every cacheable stray segment
has its base at an address that is touched. -/
theorem default (h : s.Maskable use drop) (ht : s.getCacheabilityTable fuel = .returns t)
    (hstray : ∀ seg, s.CacheableStray seg → s.Touched (seg.baseAddress.setWidth 32)) {a : Addr}
    (hfar : ¬ s.Touched a) : t.get a = false := by
  have htable := h.table ht
  rw [AddressDecodingTable.get, htable.id]
  rcases Classical.em (∃ v, Puts s.rtSize (entry use drop) (fun seg => some seg.cacheable)
      s.segmentList (entry use drop a) v) with ⟨v, hput⟩ | hno
  · rw [htable.table _ v hput]
    rcases h.touched_or_empty hput with htouched | ⟨seg, hseg, hsize, hinside, rfl, heq⟩
    · exact absurd htouched hfar
    · rw [← Bool.not_eq_true]
      intro hcacheable
      exact hfar (touched_congr heq (hstray seg ⟨hseg, hsize, hinside, hcacheable⟩))
  · exact htable.default _ fun v hput => hno ⟨v, hput⟩

/-- A cacheable stray segment makes the addresses of its block cacheable. -/
theorem get_of_stray (h : s.Maskable use drop) (ht : s.getCacheabilityTable fuel = .returns t)
    {seg : Segment 64} (hstray : s.CacheableStray seg) :
    t.get (seg.baseAddress.setWidth 32) = true := by
  have hseg := hstray.mem
  have hbase := (h.fits seg hseg).base_lt h.block hstray.size
  have hblock := (Segment.isBlock_iff_of_empty h.block hstray.size hbase _).mpr
    ⟨hstray.inside, rfl⟩
  have htable := h.table ht
  rw [AddressDecodingTable.get, htable.id]
  exact htable.table _ _ ⟨seg, hseg, congrArg some hstray.cacheable, _, hblock, h.entry_block _⟩

/-- With 31 ones there is no table. -/
theorem throws_of_31 (h : s.Maskable 31 drop) (fuel : Nat) :
    s.getCacheabilityTable fuel = .throws .badLength := by
  have hmsb : (shl1 ((31 : Nat) : Int)).msb = true := (msb_shl1_iff (by decide)).mpr rfl
  rw [h.table_eq, build, AddressDecodingTable.ofBits, hmsb]
  rfl

end Maskable

/-- For a contiguous mask other than all ones, `add` and `getCacheabilityTable` agree at a
state of a history of segments that fit if and only if the mask has not 31 ones and every
cacheable stray segment has its base at an address that is touched. -/
theorem cacheability_iff (levelAddrBits : IntTab) {mask : Addr} {use drop : Nat}
    (hmask : Contiguous mask use drop) (hne : mask ≠ BitVec.allOnes 32) :
    ∃ mt : MappingTable 64, new 32 levelAddrBits mask = some mt ∧
      ∀ s, (fittingCalls mt).Reachable s →
        (s.Cacheability ↔ use ≠ 31 ∧
          ∀ seg, s.CacheableStray seg → s.Touched (seg.baseAddress.setWidth 32)) := by
  have huse := hmask.use_lt hne
  obtain ⟨mt, hnew⟩ : ∃ mt : MappingTable 64, new 32 levelAddrBits mask = some mt := by
    rw [new, hmask.maskBits_eq huse]
    exact ⟨_, rfl⟩
  refine ⟨mt, hnew, fun s hreach => ?_⟩
  have hs := maskable_of_fitting hmask huse hnew hreach
  constructor
  · intro hall
    constructor
    · rintro rfl
      exact hall.never_throws 0 .badLength (hs.throws_of_31 0)
    · intro seg hstray
      obtain ⟨fuel, t, ht⟩ := hall.returns
      by_contra hfar
      have hfalse := hall.default fuel t ht _ hfar
      rw [hs.get_of_stray ht hstray] at hfalse
      cases hfalse
  · rintro ⟨hsize, hstray⟩
    exact
      { never_throws := hs.never_throws hsize
        returns := hs.returns hsize
        get := fun fuel t ht seg hseg a hlo hhi => hs.get ht hseg hlo hhi
        default := fun fuel t ht a hfar => hs.default ht hstray hfar
        refused := fun fuel seg r s' hadd =>
          (check_meets hs.block fuel).thrown (add_throws hadd).1 r rfl }

/-- A mask is contiguous when its 32 bits are. -/
theorem contiguous_of_lt {mask : Addr} {use drop : Nat} (hpos : 0 < use) (hle : drop + use ≤ 32)
    (hbits : ∀ i < 32, mask.getLsbD i = decide (drop ≤ i ∧ i < drop + use)) :
    Contiguous mask use drop := by
  refine ⟨hpos, hle, fun i => ?_⟩
  rcases Nat.lt_or_ge i 32 with hlt | hge
  · exact hbits i hlt
  · rw [BitVec.getLsbD_of_ge _ _ hge, eq_comm, decide_eq_false_iff_not]
    omega

/-! ## Two bits of mask -/

/-- A cacheable segment that starts and ends inside blocks. -/
def cachedRam : Segment 64 := ⟨0x00FFF000, 0x1004, ⟨[3], by decide, by decide⟩, true⟩

/-- A segment at the top of the 32-bit space. -/
def topDevice : Segment 64 := ⟨0xFFFFF000, 0x1000, ⟨[4], by decide, by decide⟩, false⟩

/-- An empty cacheable segment whose base is inside a block. -/
def emptyRam : Segment 64 := ⟨0x01000004, 0, ⟨[2], by decide, by decide⟩, true⟩

theorem cachedRam_fits : Fits 0x1000000 cachedRam :=
  ⟨by decide, [0, 0x1000000], .pass (by decide) (.pass (by decide) (.stop (by decide)))⟩

theorem topDevice_fits : Fits 0x1000000 topDevice :=
  ⟨by decide, [0xFF000000], .pass (by decide) (.stop (by decide))⟩

theorem emptyRam_fits : Fits 0x1000000 emptyRam :=
  ⟨by decide, [0x1000000], .pass (by decide) (.stop (by decide))⟩

theorem twoBits : Contiguous 0xC0000000 2 30 :=
  contiguous_of_lt (by decide) (by decide) (by decide)

/-- The table of a history with these three segments, and that with the last one alone. -/
def cachedTable : MappingTable 64 :=
  ((emptyTable.append cachedRam).append topDevice).append emptyRam

theorem cachedTable_reachable : (fittingCalls emptyTable).Reachable cachedTable := by
  have hram : (fittingCalls emptyTable).Reachable (emptyTable.append cachedRam) :=
    .step (.init rfl) (i := cachedRam) ⟨cachedRam_fits, 1, .returns (), rfl, by simp⟩
  have htop : (fittingCalls emptyTable).Reachable
      ((emptyTable.append cachedRam).append topDevice) :=
    .step hram (i := topDevice) ⟨topDevice_fits, 3, .returns (), rfl, by simp⟩
  exact .step htop (i := emptyRam) ⟨emptyRam_fits, 3, .returns (), rfl, by simp⟩

theorem emptyRam_reachable : (fittingCalls emptyTable).Reachable (emptyTable.append emptyRam) :=
  .step (.init rfl) (i := emptyRam) ⟨emptyRam_fits, 1, .returns (), rfl, by simp⟩

/-- The two highest bits decide on the cacheability.  The empty segment does no harm where
the cacheable one is. -/
theorem cacheability_of_two_bits : cachedTable.Cacheability := by
  obtain ⟨mt, hnew, hiff⟩ := cacheability_iff oneLevel twoBits (by decide)
  obtain rfl : emptyTable = mt := Option.some.inj (emptyTable_new.symm.trans hnew)
  refine (hiff _ cachedTable_reachable).mpr ⟨by decide, fun seg hstray => ?_⟩
  have hmem : cachedRam ∈ cachedTable.segmentList := List.mem_cons_self
  refine ⟨cachedRam, hmem, 0x00FFF000, by decide, by decide, ?_⟩
  rcases List.mem_cons.mp hstray.mem with rfl | hrest
  · decide
  · rcases List.mem_cons.mp hrest with rfl | hlast
    · exact absurd hstray.cacheable (by decide)
    · rw [List.mem_singleton.mp hlast]
      decide

/-- Alone, it makes a quarter of the address space cacheable that nothing touches. -/
theorem emptyRam_not_cacheability : ¬ (emptyTable.append emptyRam).Cacheability := by
  intro hall
  have hmaskable := maskable_of_fitting twoBits (by decide) emptyTable_new emptyRam_reachable
  have hstray : (emptyTable.append emptyRam).CacheableStray emptyRam :=
    ⟨List.mem_cons_self, rfl, by decide, rfl⟩
  obtain ⟨fuel, t, ht⟩ := hall.returns
  have hget := hmaskable.get_of_stray ht hstray
  rw [hall.default fuel t ht _ ?_] at hget
  · cases hget
  · rintro ⟨seg, hseg, x, hlo, hhi, -⟩
    rw [List.mem_singleton.mp hseg] at hlo hhi
    exact absurd hhi (BitVec.not_lt.mpr hlo)

/-- All bits but the lowest one: a contiguous mask for which there is no table. -/
theorem no_table_of_31_ones :
    ¬ ∀ (mask : Addr) (use drop : Nat), Contiguous mask use drop → mask ≠ BitVec.allOnes 32 →
      ∀ mt : MappingTable 64, new 32 oneLevel mask = some mt →
        ∀ s, (fittingCalls mt).Reachable s → s.Cacheability := by
  intro hall
  have hmask : Contiguous 0xFFFFFFFE 31 1 :=
    contiguous_of_lt (by decide) (by decide) (by decide)
  have htable := hall 0xFFFFFFFE 31 1 hmask (by decide) ⟨[], 32, oneLevel, 0xFFFFFFFE, 2⟩ rfl _
    (.init rfl)
  exact htable.never_throws 0 .badLength rfl

end MappingTable

end SmcTp.Mapping
