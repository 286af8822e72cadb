import SmcTp.Mapping.Builders

/-!
# Hierarchical routing

The routing table of a cluster decodes the bits of its own level, and its locality table
decodes the bits of all levels above.  Both ignore the bits inside a block, because the
block size is at most what no level decodes, so an address of a segment is decoded like
its block and a table that is built holds the value of the segment there.

`follow` goes down from the root, one table a level.  It ends at the index of the segment.
-/

namespace SmcTp.Mapping

open Programs Clocked

/-- The bit counts of the levels: at least one bit in all and no more than the address
has. -/
structure IntTab.Counts (levelAddrBits : IntTab) (addrWidth : Nat) : Prop where
  nonneg : ∀ v ∈ levelAddrBits.values, 0 ≤ v
  pos : 1 ≤ levelAddrBits.sum 10
  le : levelAddrBits.sum 10 ≤ addrWidth
  width : addrWidth ≤ 32

namespace IntTab

theorem sum_take_le {values : List Int} (h : ∀ v ∈ values, 0 ≤ v) {l m : Nat} (hle : l ≤ m) :
    0 ≤ (values.take l).sum ∧ (values.take l).sum ≤ (values.take m).sum := by
  induction values generalizing l m with
  | nil => simp
  | cons v values ih =>
      have hv := h v List.mem_cons_self
      have hvs : ∀ u ∈ values, 0 ≤ u := fun u hu => h u (List.mem_cons_of_mem _ hu)
      cases l with
      | zero =>
          cases m with
          | zero => simp
          | succ m =>
              have hrest := ih hvs (Nat.le_refl m)
              simp only [List.take_zero, List.sum_nil, List.take_succ_cons, List.sum_cons]
              omega
      | succ l =>
          obtain ⟨m, rfl⟩ := Nat.exists_eq_add_of_le' (Nat.le_trans (Nat.le_add_left 1 l) hle)
          have hrest := ih hvs (Nat.le_of_succ_le_succ hle)
          simp only [List.take_succ_cons, List.sum_cons]
          omega

/-- The bits of one level come after those of the levels above. -/
theorem sum_succ (t : IntTab) {level : Nat} {v : Int} (hlevel : level < t.level)
    (h : t.get? level = some v) : t.sum (level + 1) = t.sum level + v := by
  have hv : t.values[level]? = some v := by
    rw [get?, if_neg (Nat.lt_asymm hlevel), List.getElem?_eq_getElem hlevel] at h
    rw [List.getElem?_eq_getElem hlevel]
    exact h
  rw [sum, sum, List.take_add_one, hv]
  simp

theorem get?_of_lt (t : IntTab) {level : Nat} (hlevel : level < t.level) :
    ∃ v ∈ t.values, t.get? level = some v := by
  refine ⟨t.values[level], List.getElem_mem hlevel, ?_⟩
  rw [get?, if_neg (Nat.lt_asymm hlevel), List.getElem?_eq_getElem hlevel]
  rfl

/-- The values of the levels there are. -/
theorem sum_le (t : IntTab) (hnonneg : ∀ v ∈ t.values, 0 ≤ v) (level : Nat) :
    0 ≤ t.sum level ∧ t.sum level ≤ t.sum 10 := by
  have hall : t.values.take 10 = t.values := List.take_of_length_le (Nat.le_of_lt t.level_lt)
  rw [sum, sum, hall]
  have hle := sum_take_le hnonneg (Nat.le_max_left level t.values.length)
  rwa [List.take_of_length_le (Nat.le_max_right level t.values.length)] at hle

end IntTab

namespace MappingTable

/-! ## What a history keeps -/

/-- A table with these constants, whose segments have all levels. -/
structure Grown {w : Nat} (width : Nat) (counts : IntTab) (mask step : Addr)
    (s : MappingTable w) : Prop where
  addrWidth : s.addrWidth = width
  levelAddrBits : s.levelAddrBits = counts
  cacheabilityMask : s.cacheabilityMask = mask
  rtSize : s.rtSize = step
  level : ∀ seg ∈ s.segmentList, seg.index.level = counts.level

theorem Accepts.level {w : Nat} {mt : MappingTable w} {seg : Segment w} (h : mt.Accepts seg) :
    seg.index.level = mt.levelAddrBits.level := by
  obtain ⟨fuel, hcheck⟩ := h
  unfold check at hcheck
  split at hcheck
  next => cases hcheck
  next hlevel => exact Classical.not_not.mp hlevel

theorem grown_of_reachable {w addrWidth : Nat} {levelAddrBits : IntTab} {mask : Addr}
    {mt s : MappingTable w} (hnew : new addrWidth levelAddrBits mask = some mt)
    (h : (calls mt).Reachable s) : Grown addrWidth levelAddrBits mask mt.rtSize s := by
  refine h.invariant (P := fun s => Grown addrWidth levelAddrBits mask mt.rtSize s) ?_ ?_
  · rintro s rfl
    obtain ⟨bits, -, rfl⟩ := Option.map_eq_some_iff.mp hnew
    exact ⟨rfl, rfl, rfl, rfl, fun seg hseg => absurd hseg List.not_mem_nil⟩
  · rintro s seg s' hs hstep
    rcases step_cases hstep with ⟨-, rfl⟩ | ⟨haccepts, rfl⟩
    · exact hs
    · refine ⟨hs.addrWidth, hs.levelAddrBits, hs.cacheabilityMask, hs.rtSize, fun r hr => ?_⟩
      rcases List.mem_append.mp hr with hr | hr
      · exact hs.level r hr
      · rw [List.mem_singleton.mp hr, ← hs.levelAddrBits]
        exact haccepts.level

/-! ## The tables of a cluster -/

section Tables

variable {addrWidth : Nat} {levelAddrBits : IntTab} {mask : Addr} {mt s : MappingTable 64}

theorem isBlockSize_of_new (hnew : new addrWidth levelAddrBits mask = some mt) :
    IsBlockSize mt.rtSize := by
  obtain ⟨k, hk, hrt, -⟩ := rtSize_of_new hnew
  exact ⟨k, hk, hrt⟩

/-- A table that decodes bits of the routing levels ignores the bits inside a block. -/
theorem entry_of_counts (hcounts : levelAddrBits.Counts addrWidth)
    (hnew : new addrWidth levelAddrBits mask = some mt) {before bits : Int} (hbefore : 0 ≤ before)
    (hbits : 0 ≤ bits) (hle : before + bits ≤ levelAddrBits.sum 10) (a : Addr) :
    entry bits (addrWidth - bits - before) (blockOf mt.rtSize a) =
      entry bits (addrWidth - bits - before) a := by
  obtain ⟨k, hk, hrt, hkle, -⟩ := rtSize_of_new hnew
  obtain ⟨-, hpos, hsum, hwidth⟩ := hcounts
  rw [hrt]
  refine entry_blockOf hk ?_ a
  rcases Classical.em (bits = 0) with hzero | hzero
  · exact .inl hzero
  · exact .inr (by omega)

theorem getRoutingTable_eq {fuel : Nat} {index : IntTab} {defaultIndex bits : Int}
    (hbits : s.levelAddrBits.get? index.level = some bits) :
    s.getRoutingTable fuel index defaultIndex =
      build fuel s bits (s.addrWidth - bits - s.levelAddrBits.sum index.level) defaultIndex
        fun seg => if seg.index.idMatches index then some ((seg.index.get? index.level).getD (-1))
          else none := by
  rw [getRoutingTable, hbits]
  rfl

theorem getLocalityTable_eq {fuel : Nat} {index : IntTab} :
    s.getLocalityTable fuel index =
      build fuel s (s.levelAddrBits.sum index.level)
        (s.addrWidth - s.levelAddrBits.sum index.level) true
        fun seg => some (seg.index.idMatches index) := rfl

/-! ## From the root to a segment -/

/-- The index the routing tables of the first levels lead to: the table of the root, then
the one of the cluster it points to, and so on. -/
def follow (fuel : Nat) (s : MappingTable 64) (defaultIndex : Int) (a : Addr) :
    Nat → Option IntTab
  | 0 => some .root
  | level + 1 =>
      (follow fuel s defaultIndex a level).bind fun index =>
        match s.getRoutingTable fuel index defaultIndex with
        | .returns t => index.push (t.get a)
        | _ => none

variable {seg : Segment 64} {a : Addr}

theorem getRoutingTable_within {index : IntTab} {defaultIndex : Int} {n m : Nat} (hle : n ≤ m) :
    (s.getRoutingTable n index defaultIndex).Within (s.getRoutingTable m index defaultIndex) := by
  cases hbits : s.levelAddrBits.get? index.level with
  | none =>
      rw [getRoutingTable, getRoutingTable, hbits]
      exact .refl _
  | some bits =>
      rw [getRoutingTable_eq hbits, getRoutingTable_eq hbits]
      exact build_within hle

/-- The routing table of a cluster above a segment gives the next number of its index. -/
theorem routing_get (hcounts : levelAddrBits.Counts addrWidth)
    (hnew : new addrWidth levelAddrBits mask = some mt) (hreach : (calls mt).Reachable s)
    (hseg : seg ∈ s.segmentList) (hlo : seg.baseAddress ≤ a.setWidth 64)
    (hhi : a.setWidth 64 < seg.bound) {level : Nat} (hlevel : level < seg.index.level)
    {fuel : Nat} {defaultIndex : Int} {t : AddressDecodingTable Int}
    (ht : s.getRoutingTable fuel (seg.index.take level) defaultIndex = .returns t) :
    seg.index.get? level = some (t.get a) := by
  have hgrown := grown_of_reachable hnew hreach
  have htake : (seg.index.take level).level = level :=
    List.length_take_of_le (Nat.le_of_lt hlevel)
  have hdepth : level < levelAddrBits.level := by
    rw [← hgrown.level seg hseg]
    exact hlevel
  obtain ⟨bits, hmem, hbits⟩ := levelAddrBits.get?_of_lt hdepth
  obtain ⟨v, -, hv⟩ := seg.index.get?_of_lt hlevel
  have hblock : ∀ a, entry bits (s.addrWidth - bits - s.levelAddrBits.sum level)
      (blockOf s.rtSize a) = entry bits (s.addrWidth - bits - s.levelAddrBits.sum level) a := by
    rw [hgrown.addrWidth, hgrown.levelAddrBits, hgrown.rtSize]
    have hsum := levelAddrBits.sum_le hcounts.nonneg level
    have hsucc := levelAddrBits.sum_le hcounts.nonneg (level + 1)
    rw [levelAddrBits.sum_succ hdepth hbits] at hsucc
    exact entry_of_counts hcounts hnew hsum.1 (hcounts.nonneg bits hmem) hsucc.2
  have hrt : IsBlockSize s.rtSize := by
    rw [hgrown.rtSize]
    exact isBlockSize_of_new hnew
  have hget : s.levelAddrBits.get? (seg.index.take level).level = some bits := by
    rw [hgrown.levelAddrBits, htake, hbits]
  rw [getRoutingTable_eq hget] at ht
  have htable := (build_meets hrt fuel).returned ht
  rw [htake] at htable
  rw [hv, htable.get_eq hblock hrt hseg ?_ hlo hhi]
  rw [if_pos (seg.index.idMatches_take level), hv]
  rfl

theorem follow_eq (hcounts : levelAddrBits.Counts addrWidth)
    (hnew : new addrWidth levelAddrBits mask = some mt) (hreach : (calls mt).Reachable s)
    (hseg : seg ∈ s.segmentList) (hlo : seg.baseAddress ≤ a.setWidth 64)
    (hhi : a.setWidth 64 < seg.bound) {defaultIndex : Int}
    (htables : ∀ level < levelAddrBits.level,
      ∃ fuel t, s.getRoutingTable fuel (seg.index.take level) defaultIndex = .returns t)
    {level : Nat} (hlevel : level ≤ levelAddrBits.level) :
    ∃ fuel, ∀ n ≥ fuel, s.follow n defaultIndex a level = some (seg.index.take level) := by
  have hgrown := grown_of_reachable hnew hreach
  induction level with
  | zero => exact ⟨0, fun _ _ => rfl⟩
  | succ level ih =>
      obtain ⟨fuel, hfollow⟩ := ih (Nat.le_of_succ_le hlevel)
      obtain ⟨fuel', t, ht⟩ := htables level hlevel
      have hlt : level < seg.index.level := by
        rw [hgrown.level seg hseg]
        exact hlevel
      refine ⟨max fuel fuel', fun n hn => ?_⟩
      have hreturns := getRoutingTable_within (s := s) (n := fuel') (m := n)
        (Nat.le_trans (Nat.le_max_right _ _) hn) (by rw [ht]; simp)
      rw [ht] at hreturns
      rw [follow, hfollow n (Nat.le_trans (Nat.le_max_left _ _) hn), Option.bind_some, hreturns]
      exact seg.index.push_take hlt
        (routing_get hcounts hnew hreach hseg hlo hhi hlt ht)

/-- The locality table of a cluster says of an address of a segment whether the segment
is in the cluster. -/
theorem locality_get (hcounts : levelAddrBits.Counts addrWidth)
    (hnew : new addrWidth levelAddrBits mask = some mt) (hreach : (calls mt).Reachable s)
    (hseg : seg ∈ s.segmentList) (hlo : seg.baseAddress ≤ a.setWidth 64)
    (hhi : a.setWidth 64 < seg.bound) {p : IntTab} {fuel : Nat} {t : AddressDecodingTable Bool}
    (ht : s.getLocalityTable fuel p = .returns t) : t.get a = seg.index.idMatches p := by
  have hgrown := grown_of_reachable hnew hreach
  have hblock : ∀ a, entry (s.levelAddrBits.sum p.level)
      (s.addrWidth - s.levelAddrBits.sum p.level) (blockOf s.rtSize a) =
      entry (s.levelAddrBits.sum p.level) (s.addrWidth - s.levelAddrBits.sum p.level) a := by
    rw [hgrown.addrWidth, hgrown.levelAddrBits, hgrown.rtSize]
    have hsum := levelAddrBits.sum_le hcounts.nonneg p.level
    have hentry := entry_of_counts hcounts hnew (Int.le_refl 0) hsum.1 (by omega)
    simpa using hentry
  have hrt : IsBlockSize s.rtSize := by
    rw [hgrown.rtSize]
    exact isBlockSize_of_new hnew
  rw [getLocalityTable_eq] at ht
  exact ((build_meets hrt fuel).returned ht).get_eq hblock hrt hseg rfl hlo hhi

/-- Following the routing tables from the root leads every address of a segment to the
index of the segment, and a locality table holds at the address if and only if its
cluster is above the segment. -/
theorem tables_lead_to_index (hcounts : levelAddrBits.Counts addrWidth)
    (hnew : new addrWidth levelAddrBits mask = some mt) (hreach : (calls mt).Reachable s)
    (hseg : seg ∈ s.segmentList) (hlo : seg.baseAddress ≤ a.setWidth 64)
    (hhi : a.setWidth 64 < seg.baseAddress + seg.size) :
    (∀ defaultIndex, (∀ level < levelAddrBits.level,
        ∃ fuel t, s.getRoutingTable fuel (seg.index.take level) defaultIndex = .returns t) →
      ∃ fuel, ∀ n ≥ fuel, s.follow n defaultIndex a levelAddrBits.level = some seg.index) ∧
    (∀ p : IntTab, p.level ≤ levelAddrBits.level → ∀ fuel t,
      s.getLocalityTable fuel p = .returns t →
        (t.get a = true ↔ p.values <+: seg.index.values)) := by
  have hlevel := (grown_of_reachable hnew hreach).level seg hseg
  constructor
  · intro defaultIndex htables
    have hfollow := follow_eq hcounts hnew hreach hseg hlo hhi htables (Nat.le_refl _)
    have hall : seg.index.take levelAddrBits.level = seg.index := by
      rw [← hlevel, seg.index.take_level]
    rwa [hall] at hfollow
  · intro p hp fuel t ht
    rw [locality_get hcounts hnew hreach hseg hlo hhi ht]
    exact IntTab.idMatches_iff (hlevel ▸ hp)

end Tables

/-! ## A platform with two levels -/

/-- Two clusters of four targets. -/
def twoLevels : IntTab := ⟨[1, 2], by decide, by decide⟩

/-- A segment of the first cluster that starts inside a block. -/
def ram : Segment 64 := ⟨0x48, 0x30, ⟨[0, 2], by decide, by decide⟩, true⟩

/-- A segment of the second cluster that ends inside one. -/
def timer : Segment 64 := ⟨0xA0, 0x2C, ⟨[1, 1], by decide, by decide⟩, false⟩

/-- The platform with these segments. -/
def platform : MappingTable 64 := ⟨[ram, timer], 8, twoLevels, 0x80, 0x20⟩

theorem platform_reachable :
    (calls (⟨[], 8, twoLevels, 0x80, 0x20⟩ : MappingTable 64)).Reachable platform := by
  have hram : (calls (⟨[], 8, twoLevels, 0x80, 0x20⟩ : MappingTable 64)).Reachable
      ⟨[ram], 8, twoLevels, 0x80, 0x20⟩ :=
    .step (.init rfl) (i := ram) ⟨1, .returns (), rfl, by simp⟩
  exact .step hram (i := timer) ⟨4, .returns (), rfl, by simp⟩

theorem twoLevels_counts : twoLevels.Counts 8 := ⟨by decide, by decide, by decide, by decide⟩

/-- The tables lead the last address of each segment to it. -/
theorem platform_follow :
    (∃ fuel, ∀ n ≥ fuel, platform.follow n 0 0x77 2 = some ram.index) ∧
      ∃ fuel, ∀ n ≥ fuel, platform.follow n 0 0xCB 2 = some timer.index := by
  have hram : ram ∈ platform.segmentList := List.mem_cons_self
  have htimer : timer ∈ platform.segmentList := List.mem_cons_of_mem _ List.mem_cons_self
  have hramTables := tables_lead_to_index twoLevels_counts (rfl : new 8 twoLevels 0x80 = some _)
    platform_reachable hram (a := 0x77) (by decide) (by decide)
  have htimerTables := tables_lead_to_index twoLevels_counts (rfl : new 8 twoLevels 0x80 = some _)
    platform_reachable htimer (a := 0xCB) (by decide) (by decide)
  refine ⟨hramTables.1 0 fun level hlevel => ?_, htimerTables.1 0 fun level hlevel => ?_⟩
  all_goals
    rcases Nat.lt_succ_iff_lt_or_eq.mp hlevel with hlt | rfl
    · rw [Nat.lt_one_iff.mp hlt]
      exact ⟨10, _, rfl⟩
    · exact ⟨10, _, rfl⟩

end MappingTable

end SmcTp.Mapping
