import SmcTp.Mapping.Cacheability

/-!
# Exact routing tables

The routing table of a cluster is to hold, at each entry, the index of a segment of the
cluster with an address that falls into the entry, and the default index where there is
none.  There is no table when two such segments want different things of one entry.

The loops go through blocks, not addresses.  A segment with addresses meets exactly the
blocks they are in.  An empty one has none, but when its base is inside a block the loop
visits the block all the same (`Stray`).  With the level of 31 bits, for which the size of the
table is negative, this is all that can be wrong (`routingExact_iff`).
-/

namespace SmcTp.Mapping

open Programs Clocked

namespace MappingTable

variable {mt s : MappingTable 64} {index : IntTab} {seg : Segment 64} {rtSize : Addr}

/-! ## What a routing table is for -/

/-- The entry of an address in the routing table of a cluster. -/
def routingEntry (s : MappingTable 64) (index : IntTab) : Addr → Addr :=
  let bits := (s.levelAddrBits.get? index.level).getD 0
  entry bits (s.addrWidth - bits - s.levelAddrBits.sum index.level)

/-- A segment of the cluster has an address that falls into the entry `k`, and its index
continues with `v`. -/
def Routes (s : MappingTable 64) (index : IntTab) (k : Addr) (v : Int) : Prop :=
  ∃ seg ∈ s.segmentList, seg.index.idMatches index = true ∧ seg.index.get? index.level = some v ∧
    ∃ a : Addr, seg.baseAddress ≤ a.setWidth 64 ∧ a.setWidth 64 < seg.bound ∧
      s.routingEntry index a = k

/-- Two segments of the cluster want different things of one entry. -/
def Incoherent (s : MappingTable 64) (index : IntTab) : Prop :=
  ∃ k v v', v ≠ v' ∧ s.Routes index k v ∧ s.Routes index k v'

/-- `getRoutingTable` ends.  It throws its `RunTimeError` if and only if the cluster is
incoherent, and returns otherwise a table that routes every address. -/
structure RoutingExact (s : MappingTable 64) (index : IntTab) (defaultIndex : Int) : Prop where
  ends : ∃ fuel, s.getRoutingTable fuel index defaultIndex ≠ .running
  throws_iff : (∃ fuel seg, s.getRoutingTable fuel index defaultIndex = .throws (.incoherent seg)) ↔
    s.Incoherent index
  returns : ¬ s.Incoherent index → ∃ fuel t, s.getRoutingTable fuel index defaultIndex = .returns t
  routes : ∀ fuel t, s.getRoutingTable fuel index defaultIndex = .returns t → ∀ x v,
    s.Routes index (s.routingEntry index x) v → t.get x = v
  default : ∀ fuel t, s.getRoutingTable fuel index defaultIndex = .returns t → ∀ x,
    (∀ v, ¬ s.Routes index (s.routingEntry index x) v) → t.get x = defaultIndex

/-! ## Empty segments -/

/-- An empty segment of the cluster whose base is inside a block. -/
structure Stray (s : MappingTable 64) (index : IntTab) (seg : Segment 64) : Prop where
  mem : seg ∈ s.segmentList
  matching : seg.index.idMatches index = true
  size : seg.size = 0
  inside : ¬ s.rtSize.toNat ∣ seg.baseAddress.toNat

/-- The entry of a stray segment holds what it wants anyway. -/
def Harmless (s : MappingTable 64) (index : IntTab) (defaultIndex : Int) (seg : Segment 64) :
    Prop :=
  ∀ v, seg.index.get? index.level = some v →
    (∀ u, s.Routes index (s.routingEntry index (seg.baseAddress.setWidth 32)) u → u = v) ∧
    ((∀ u, ¬ s.Routes index (s.routingEntry index (seg.baseAddress.setWidth 32)) u) →
      v = defaultIndex)

/-! ## What the loops put into the table -/

/-- The value of a segment in the routing table of a cluster. -/
def routed (index : IntTab) (seg : Segment 64) : Option Int :=
  if seg.index.idMatches index then some ((seg.index.get? index.level).getD (-1)) else none

theorem routed_eq_some_iff (hlevel : index.level < seg.index.level) {v : Int} :
    routed index seg = some v ↔
      seg.index.idMatches index = true ∧ seg.index.get? index.level = some v := by
  obtain ⟨u, -, hu⟩ := seg.index.get?_of_lt hlevel
  rw [routed, hu, Option.getD_some]
  split
  next hmatch => simp [hmatch]
  next hmatch => simp [hmatch]

/-- A table of these segments: they fit and have a number for the level of the cluster. -/
structure Routable (s : MappingTable 64) (index : IntTab) : Prop where
  block : IsBlockSize s.rtSize
  fits : ∀ seg ∈ s.segmentList, Fits s.rtSize seg
  level : ∀ seg ∈ s.segmentList, index.level < seg.index.level
  entry_block : ∀ a, s.routingEntry index (blockOf s.rtSize a) = s.routingEntry index a

/-- What a segment puts into the table: its own entries, and that of a stray segment. -/
theorem Routable.puts_iff (h : s.Routable index) {k : Addr} {v : Int} :
    Puts s.rtSize (s.routingEntry index) (routed index) s.segmentList k v ↔
      s.Routes index k v ∨ ∃ seg, s.Stray index seg ∧ seg.index.get? index.level = some v ∧
        s.routingEntry index (seg.baseAddress.setWidth 32) = k := by
  constructor
  · rintro ⟨seg, hseg, hval, b, hb, rfl⟩
    obtain ⟨hmatch, hv⟩ := (routed_eq_some_iff (h.level seg hseg)).mp hval
    rcases Nat.eq_zero_or_pos seg.size.toNat with hzero | hpos
    · have hsize : seg.size = 0 := BitVec.eq_of_toNat_eq hzero
      have hbase := (h.fits seg hseg).base_lt h.block hsize
      obtain ⟨hinside, rfl⟩ := (Segment.isBlock_iff_of_empty h.block hsize hbase b).mp hb
      exact .inr ⟨seg, ⟨hseg, hmatch, hsize, hinside⟩, hv, (h.entry_block _).symm⟩
    · have hspace : seg.InSpace := ⟨hpos, (h.fits seg hseg).space⟩
      obtain ⟨a, hlo, hhi, rfl⟩ := (hspace.isBlock_iff_meetsBlock h.block b).mp hb
      exact .inl ⟨seg, hseg, hmatch, hv, a, hlo, hhi, (h.entry_block a).symm⟩
  · rintro (⟨seg, hseg, hmatch, hv, a, hlo, hhi, rfl⟩ | ⟨seg, hstray, hv, rfl⟩)
    · exact ⟨seg, hseg, (routed_eq_some_iff (h.level seg hseg)).mpr ⟨hmatch, hv⟩,
        blockOf s.rtSize a, isBlock_blockOf h.block hlo hhi, h.entry_block a⟩
    · have hseg := hstray.mem
      have hbase := (h.fits seg hseg).base_lt h.block hstray.size
      exact ⟨seg, hseg, (routed_eq_some_iff (h.level seg hseg)).mpr ⟨hstray.matching, hv⟩,
        _, (Segment.isBlock_iff_of_empty h.block hstray.size hbase _).mpr ⟨hstray.inside, rfl⟩,
        h.entry_block _⟩

/-- Harmless stray segments add no clash. -/
theorem Routable.not_clash (h : s.Routable index) {defaultIndex : Int}
    (hcoherent : ¬ s.Incoherent index)
    (hharmless : ∀ seg, s.Stray index seg → s.Harmless index defaultIndex seg) :
    ¬ Clash s.rtSize (s.routingEntry index) (routed index) s.segmentList := by
  rintro ⟨k, v, v', hne, hput, hput'⟩
  rcases h.puts_iff.mp hput with hroute | ⟨seg, hstray, hv, rfl⟩
  · rcases h.puts_iff.mp hput' with hroute' | ⟨seg', hstray', hv', rfl⟩
    · exact hcoherent ⟨k, v, v', hne, hroute, hroute'⟩
    · exact hne ((hharmless seg' hstray' v' hv').1 v hroute)
  · rcases h.puts_iff.mp hput' with hroute' | ⟨seg', hstray', hv', heq⟩
    · exact hne ((hharmless seg hstray v hv).1 v' hroute').symm
    · have hfirst := hharmless seg hstray v hv
      have hsecond := hharmless seg' hstray' v' hv'
      rw [heq] at hsecond
      rcases Classical.em (∃ u, s.Routes index
          (s.routingEntry index (seg.baseAddress.setWidth 32)) u) with ⟨u, hu⟩ | hnone
      · exact hne ((hfirst.1 u hu).symm.trans (hsecond.1 u hu))
      · rw [not_exists] at hnone
        exact hne ((hfirst.2 hnone).trans (hsecond.2 hnone).symm)

/-! ## The outcome of the builder -/

theorem mark_throws {α : Type} [DecidableEq α] {v : α} {addr : Addr}
    {t : AddressDecodingTable α × AddressDecodingTable Bool} :
    (mark seg v addr t).Meets (fun _ => True) fun e => ∃ seg, e = .incoherent seg := by
  unfold mark
  split
  · exact ⟨seg, rfl⟩
  · trivial

/-- A builder throws only its own error, once its tables are there. -/
theorem build_throws {α : Type} [DecidableEq α] {useBits dropBits : Int} {d : α}
    {val : Segment 64 → Option α} (hmsb : (shl1 useBits).msb = false) (fuel : Nat) :
    (build fuel s useBits dropBits d val).Meets (fun _ => True)
      fun e => ∃ seg, e = .incoherent seg := by
  rw [build, ofBits_eq hmsb, ofBits_eq hmsb, Outcome.returns_bind, Outcome.returns_bind]
  refine (Outcome.foldlM_meets (P := fun _ _ => True) (r := []) (fun r seg t _ _ => ?_)
    trivial).bind fun _ _ => trivial
  cases val seg with
  | none => trivial
  | some v =>
      refine (forLoop_meets (P := fun _ _ => True) (R := fun _ => True) (fun _ _ _ => trivial)
        (fun _ _ _ _ _ _ => mark_throws) trivial trivial).imp (fun _ _ => trivial) fun _ he => he

section Outcome

variable {bits defaultIndex : Int}

/-- The builder behind the routing table. -/
theorem getRoutingTable_eq_build (hbits : s.levelAddrBits.get? index.level = some bits)
    (fuel : Nat) :
    s.getRoutingTable fuel index defaultIndex =
      build fuel s bits (s.addrWidth - bits - s.levelAddrBits.sum index.level) defaultIndex
        (routed index) := getRoutingTable_eq hbits

theorem routingEntry_eq (hbits : s.levelAddrBits.get? index.level = some bits) :
    s.routingEntry index = entry bits (s.addrWidth - bits - s.levelAddrBits.sum index.level) := by
  rw [routingEntry, hbits]
  rfl

/-- With a table of a size that is not negative, the outcome is what the blocks say. -/
theorem Routable.outcome (h : s.Routable index)
    (hbits : s.levelAddrBits.get? index.level = some bits) (hmsb : (shl1 bits).msb = false)
    (fuel : Nat) :
    (s.getRoutingTable fuel index defaultIndex).Meets
      (Table s.rtSize (s.routingEntry index) defaultIndex (routed index) s.segmentList)
      fun e => (∃ seg, e = .incoherent seg) ∧
        Clash s.rtSize (s.routingEntry index) (routed index) s.segmentList := by
  have htable : (build fuel s bits (s.addrWidth - bits - s.levelAddrBits.sum index.level)
      defaultIndex (routed index)).Meets _ _ := build_meets h.block fuel
  have hthrows : (build fuel s bits (s.addrWidth - bits - s.levelAddrBits.sum index.level)
      defaultIndex (routed index)).Meets _ _ := build_throws hmsb fuel
  rw [getRoutingTable_eq_build hbits, routingEntry_eq hbits]
  cases hout : build fuel s bits (s.addrWidth - bits - s.levelAddrBits.sum index.level)
      defaultIndex (routed index) with
  | running => trivial
  | returns t => exact htable.returned hout
  | throws e =>
      refine ⟨hthrows.thrown hout, (htable.thrown hout).resolve_left fun hneg => ?_⟩
      rw [hmsb] at hneg
      cases hneg

theorem Routable.exists_ne_running (h : s.Routable index)
    (hbits : s.levelAddrBits.get? index.level = some bits) (defaultIndex : Int) :
    ∃ fuel, s.getRoutingTable fuel index defaultIndex ≠ .running := by
  obtain ⟨fuel, hend⟩ := exists_build_ne_running bits
    (s.addrWidth - bits - s.levelAddrBits.sum index.level) defaultIndex (routed index)
    fun seg hseg => (h.fits seg hseg).ends
  exact ⟨fuel, by rwa [getRoutingTable_eq_build hbits]⟩

/-- A table that is returned is not the outcome of a clash. -/
theorem Table.not_clash {idf : Addr → Addr} {val : Segment 64 → Option Int}
    {segs : List (Segment 64)} {t : AddressDecodingTable Int}
    (h : Table rtSize idf defaultIndex val segs t) : ¬ Clash rtSize idf val segs := by
  rintro ⟨k, v, v', hne, hput, hput'⟩
  exact hne ((h.table k v hput).symm.trans (h.table k v' hput'))

/-- An incoherent cluster has no table, with any bound. -/
theorem Routable.not_returns (h : s.Routable index)
    (hbits : s.levelAddrBits.get? index.level = some bits) (hmsb : (shl1 bits).msb = false)
    (hincoherent : s.Incoherent index) {fuel : Nat} {t : AddressDecodingTable Int} :
    s.getRoutingTable fuel index defaultIndex ≠ .returns t := by
  intro ht
  obtain ⟨k, v, v', hne, hroute, hroute'⟩ := hincoherent
  exact Table.not_clash ((h.outcome hbits hmsb fuel).returned ht)
    ⟨k, v, v', hne, h.puts_iff.mpr (.inl hroute), h.puts_iff.mpr (.inl hroute')⟩

/-- What a table that is returned holds. -/
theorem Routable.get_eq (h : s.Routable index)
    (hbits : s.levelAddrBits.get? index.level = some bits) (hmsb : (shl1 bits).msb = false)
    {fuel : Nat} {t : AddressDecodingTable Int}
    (ht : s.getRoutingTable fuel index defaultIndex = .returns t) :
    Table s.rtSize (s.routingEntry index) defaultIndex (routed index) s.segmentList t ∧
      ∀ x, t.get x = t.table (s.routingEntry index x) := by
  have htable := (h.outcome hbits hmsb fuel).returned ht
  exact ⟨htable, fun x => by rw [AddressDecodingTable.get, htable.id]⟩

theorem Routable.exact_of_incoherent (h : s.Routable index)
    (hbits : s.levelAddrBits.get? index.level = some bits) (hmsb : (shl1 bits).msb = false)
    (hincoherent : s.Incoherent index) : s.RoutingExact index defaultIndex := by
  have hnever : ∀ fuel t, s.getRoutingTable fuel index defaultIndex ≠ .returns t :=
    fun _ _ => h.not_returns hbits hmsb hincoherent
  obtain ⟨fuel, hend⟩ := h.exists_ne_running hbits defaultIndex
  refine ⟨⟨fuel, hend⟩, ⟨fun _ => hincoherent, fun _ => ?_⟩,
    fun hcoherent => absurd hincoherent hcoherent,
    fun fuel t ht => absurd ht (hnever fuel t), fun fuel t ht => absurd ht (hnever fuel t)⟩
  cases hout : s.getRoutingTable fuel index defaultIndex with
  | running => exact absurd hout hend
  | returns t => exact absurd hout (hnever fuel t)
  | throws e =>
      obtain ⟨⟨seg, rfl⟩, -⟩ := (h.outcome hbits hmsb fuel).thrown hout
      exact ⟨fuel, seg, hout⟩

theorem Routable.exact_of_harmless (h : s.Routable index)
    (hbits : s.levelAddrBits.get? index.level = some bits) (hmsb : (shl1 bits).msb = false)
    (hcoherent : ¬ s.Incoherent index)
    (hharmless : ∀ seg, s.Stray index seg → s.Harmless index defaultIndex seg) :
    s.RoutingExact index defaultIndex := by
  have hclash := h.not_clash hcoherent hharmless
  obtain ⟨fuel, hend⟩ := h.exists_ne_running hbits defaultIndex
  refine ⟨⟨fuel, hend⟩, ⟨?_, fun hincoherent => absurd hincoherent hcoherent⟩, fun _ => ?_,
    fun fuel t ht x v hroute => ?_, fun fuel t ht x hnone => ?_⟩
  · rintro ⟨fuel, seg, hout⟩
    exact absurd ((h.outcome hbits hmsb fuel).thrown hout).2 hclash
  · cases hout : s.getRoutingTable fuel index defaultIndex with
    | running => exact absurd hout hend
    | returns t => exact ⟨fuel, t, hout⟩
    | throws e => exact absurd ((h.outcome hbits hmsb fuel).thrown hout).2 hclash
  · obtain ⟨htable, hget⟩ := h.get_eq hbits hmsb ht
    rw [hget]
    exact htable.table _ v (h.puts_iff.mpr (.inl hroute))
  · obtain ⟨htable, hget⟩ := h.get_eq hbits hmsb ht
    rw [hget]
    rcases Classical.em (∃ v, Puts s.rtSize (s.routingEntry index) (routed index)
        s.segmentList (s.routingEntry index x) v) with ⟨v, hput⟩ | hno
    · -- only a stray segment can have put something there
      rw [htable.table _ v hput]
      rcases h.puts_iff.mp hput with hroute | ⟨seg, hstray, hv, heq⟩
      · exact absurd hroute (hnone v)
      · rw [← heq] at hnone
        exact (hharmless seg hstray v hv).2 hnone
    · exact htable.default _ fun v hput => hno ⟨v, hput⟩

/-- In an exact table a stray segment finds what it has put there. -/
theorem Routable.harmless_of_exact (h : s.Routable index)
    (hbits : s.levelAddrBits.get? index.level = some bits) (hmsb : (shl1 bits).msb = false)
    (hexact : s.RoutingExact index defaultIndex) (hcoherent : ¬ s.Incoherent index)
    (hstray : s.Stray index seg) : s.Harmless index defaultIndex seg := by
  intro v hv
  obtain ⟨fuel, t, ht⟩ := hexact.returns hcoherent
  obtain ⟨htable, hget⟩ := h.get_eq hbits hmsb ht
  have hentry := htable.table _ v (h.puts_iff.mpr (.inr ⟨seg, hstray, hv, rfl⟩))
  rw [← hget] at hentry
  refine ⟨fun u hu => ?_, fun hnone => ?_⟩
  · rw [← hentry, hexact.routes fuel t ht _ u hu]
  · rw [← hentry, hexact.default fuel t ht _ hnone]

/-- With a table whose size is negative nothing is exact. -/
theorem not_exact_of_msb (hbits : s.levelAddrBits.get? index.level = some bits)
    (hmsb : (shl1 bits).msb = true) : ¬ s.RoutingExact index defaultIndex := by
  intro hexact
  have hout : ∀ fuel, s.getRoutingTable fuel index defaultIndex = .throws .badLength := by
    intro fuel
    rw [getRoutingTable_eq_build hbits, build, AddressDecodingTable.ofBits, hmsb]
    rfl
  rcases Classical.em (s.Incoherent index) with hincoherent | hcoherent
  · obtain ⟨fuel, seg, hthrows⟩ := hexact.throws_iff.mpr hincoherent
    rw [hout] at hthrows
    cases hthrows
  · obtain ⟨fuel, t, ht⟩ := hexact.returns hcoherent
    rw [hout] at ht
    cases ht

end Outcome

/-! ## Histories -/

section Histories

variable {levelAddrBits : IntTab} {mask : Addr} {bits defaultIndex : Int}

/-- A reachable table can be routed. -/
theorem routable_of_fitting (hcounts : levelAddrBits.Counts 32)
    (hnew : new 32 levelAddrBits mask = some mt) (hreach : (fittingCalls mt).Reachable s)
    (hlevel : index.level < levelAddrBits.level)
    (hbits : levelAddrBits.get? index.level = some bits) (hpos : 0 ≤ bits) :
    s.Routable index := by
  have hgrown := grown_of_reachable hnew (reachable_of_fitting hreach)
  obtain ⟨-, hfits⟩ := coherent_of_fitting hnew hreach
  refine ⟨hgrown.rtSize ▸ isBlockSize_of_new hnew, fun seg hseg => hgrown.rtSize ▸ hfits seg hseg,
    fun seg hseg => ?_, ?_⟩
  · rw [hgrown.level seg hseg]
    exact hlevel
  · have hsum := levelAddrBits.sum_le hcounts.nonneg index.level
    have hsucc := levelAddrBits.sum_le hcounts.nonneg (index.level + 1)
    rw [levelAddrBits.sum_succ hlevel hbits] at hsucc
    have hget : s.levelAddrBits.get? index.level = some bits := by
      rw [hgrown.levelAddrBits, hbits]
    rw [routingEntry_eq hget, hgrown.addrWidth, hgrown.levelAddrBits, hgrown.rtSize]
    exact entry_of_counts hcounts hnew hsum.1 hpos hsucc.2

/-- Along every history of segments that fit, the routing table of a cluster is exact if and
only if its level has not 31 bits and the cluster is incoherent or has only harmless stray
segments. -/
theorem routingExact_iff (hcounts : levelAddrBits.Counts 32) (hfewer : levelAddrBits.sum 10 < 32)
    (hnew : new 32 levelAddrBits mask = some mt) (hreach : (fittingCalls mt).Reachable s)
    (hlevel : index.level < levelAddrBits.level) :
    s.RoutingExact index defaultIndex ↔
      levelAddrBits.get? index.level ≠ some 31 ∧
        (s.Incoherent index ∨ ∀ seg, s.Stray index seg → s.Harmless index defaultIndex seg) := by
  obtain ⟨bits, hmem, hbits⟩ := levelAddrBits.get?_of_lt hlevel
  have hpos := hcounts.nonneg bits hmem
  have hroutable := routable_of_fitting hcounts hnew hreach hlevel hbits hpos
  have hget : s.levelAddrBits.get? index.level = some bits := by
    rw [(grown_of_reachable hnew (reachable_of_fitting hreach)).levelAddrBits, hbits]
  have hle : bits ≤ 31 := by
    have hsum := levelAddrBits.sum_le hcounts.nonneg index.level
    have hsucc := levelAddrBits.sum_le hcounts.nonneg (index.level + 1)
    rw [levelAddrBits.sum_succ hlevel hbits] at hsucc
    omega
  obtain ⟨n, rfl⟩ := Int.eq_ofNat_of_zero_le hpos
  have hmsb : (shl1 n).msb = true ↔ n = 31 := msb_shl1_iff (by omega)
  rw [hbits]
  rcases Nat.lt_or_eq_of_le (show n ≤ 31 by omega) with hlt | rfl
  · have hfalse : (shl1 n).msb = false := by
      rw [Bool.eq_false_iff, Ne, hmsb]
      omega
    have hne : (some (n : Int)) ≠ some 31 := by
      simp only [ne_eq, Option.some.injEq]
      omega
    constructor
    · intro hexact
      refine ⟨hne, ?_⟩
      rcases Classical.em (s.Incoherent index) with hincoherent | hcoherent
      · exact .inl hincoherent
      · exact .inr fun seg => hroutable.harmless_of_exact hget hfalse hexact hcoherent
    · rintro ⟨-, hcase⟩
      rcases Classical.em (s.Incoherent index) with hincoherent | hcoherent
      · exact hroutable.exact_of_incoherent hget hfalse hincoherent
      · exact hroutable.exact_of_harmless hget hfalse hcoherent (hcase.resolve_left hcoherent)
  · have hfails : ¬ s.RoutingExact index defaultIndex := not_exact_of_msb hget (hmsb.mpr rfl)
    exact ⟨fun hexact => absurd hexact hfails, fun h => absurd rfl h.1⟩

end Histories

/-! ## An empty segment -/

/-- Two segments of target 5 that start inside a block.  The second one is empty. -/
def device : Segment 64 := ⟨0x1000004, 0x100, ⟨[5], by decide, by decide⟩, false⟩

def emptyDevice : Segment 64 := ⟨0x1000004, 0, ⟨[5], by decide, by decide⟩, false⟩

/-- A segment of another target, from the block above on. -/
def frames : Segment 64 := ⟨0x2000000, 0x1000800, ⟨[6], by decide, by decide⟩, false⟩

theorem device_fits : Fits 0x1000000 device :=
  ⟨by decide, [0x1000000], .pass (by decide) (.stop (by decide))⟩

theorem frames_fits : Fits 0x1000000 frames :=
  ⟨by decide, [0x2000000, 0x3000000], .pass (by decide) (.pass (by decide) (.stop (by decide)))⟩

theorem emptyDevice_fits : Fits 0x1000000 emptyDevice :=
  ⟨by decide, [0x1000000], .pass (by decide) (.stop (by decide))⟩

/-- The table with two segments and with the empty one behind them. -/
def deviceTable : MappingTable 64 := ((emptyTable.append frames).append emptyDevice).append device

theorem deviceTable_reachable : (fittingCalls emptyTable).Reachable deviceTable := by
  have hframes : (fittingCalls emptyTable).Reachable (emptyTable.append frames) :=
    .step (.init rfl) (i := frames) ⟨frames_fits, 1, .returns (), rfl, by simp⟩
  have hempty : (fittingCalls emptyTable).Reachable
      ((emptyTable.append frames).append emptyDevice) :=
    .step hframes (i := emptyDevice) ⟨emptyDevice_fits, 3, .returns (), rfl, by simp⟩
  exact .step hempty (i := device) ⟨device_fits, 3, .returns (), rfl, by simp⟩

theorem emptyDevice_reachable :
    (fittingCalls emptyTable).Reachable (emptyTable.append emptyDevice) :=
  .step (.init rfl) (i := emptyDevice) ⟨emptyDevice_fits, 1, .returns (), rfl, by simp⟩

/-- No address of the segments above falls into the entry of the empty one. -/
theorem frames_entry_ne {a : Addr} (hlo : frames.baseAddress ≤ a.setWidth 64) :
    deviceTable.routingEntry .root a ≠ 1 := by
  intro heq
  have hword : (a >>> 24 &&& 0xFF#32).toNat = 1 := congrArg BitVec.toNat heq
  rw [BitVec.toNat_and, BitVec.toNat_ushiftRight, Nat.shiftRight_eq_div_pow] at hword
  have hmod : a.toNat / 2 ^ 24 % 2 ^ 8 = 1 := by
    rw [← Nat.and_two_pow_sub_one_eq_mod]
    exact hword
  have hbase : 0x2000000 ≤ a.toNat := by
    rw [BitVec.le_def, toNat_setWidth_long] at hlo
    exact hlo
  have hlt := a.isLt
  omega

/-- The table of the root is exact for all three.  The entry that the empty one goes to is
that of addresses of its own target. -/
theorem device_exact : deviceTable.RoutingExact .root 0 := by
  refine (routingExact_iff ⟨by decide, by decide, by decide, by decide⟩ (by decide) emptyTable_new
    deviceTable_reachable (by decide)).mpr ⟨by decide, .inr fun seg hstray v hv => ?_⟩
  have hempty : seg = emptyDevice := by
    rcases List.mem_cons.mp hstray.mem with rfl | hrest
    · exact absurd hstray.size (by decide)
    · rcases List.mem_cons.mp hrest with rfl | hlast
      · rfl
      · rw [List.mem_singleton.mp hlast] at hstray
        exact absurd hstray.size (by decide)
  subst hempty
  obtain rfl : v = 5 := Option.some.inj (hv.symm.trans rfl)
  constructor
  · rintro u ⟨r, hr, -, hu, a, hlo, hhi, hentry⟩
    rcases List.mem_cons.mp hr with rfl | hrest
    · exact absurd hentry (frames_entry_ne hlo)
    · rcases List.mem_cons.mp hrest with rfl | hlast
      · exact absurd hhi (BitVec.not_lt.mpr hlo)
      · rw [List.mem_singleton.mp hlast] at hu
        exact Option.some.inj (hu.symm.trans rfl)
  · intro hnone
    refine absurd ⟨device, ?_, by decide, rfl, 0x1000004, by decide, by decide, rfl⟩ (hnone 5)
    exact List.mem_append_right _ List.mem_cons_self

/-- The table sends the block of the empty segment to its target. -/
theorem emptyDevice_not_exact :
    ¬ ∀ (levelAddrBits : IntTab) (mask : Addr) (mt s : MappingTable 64), levelAddrBits.Counts 32 →
      levelAddrBits.sum 10 < 32 → new 32 levelAddrBits mask = some mt →
      (fittingCalls mt).Reachable s → ∀ index : IntTab, index.level < levelAddrBits.level →
        ∀ defaultIndex, s.RoutingExact index defaultIndex := by
  intro hall
  have hexact := hall _ _ _ _ ⟨by decide, by decide, by decide, by decide⟩ (by decide)
    emptyTable_new emptyDevice_reachable .root (by decide) 0
  have hnone : ∀ k v, ¬ (emptyTable.append emptyDevice).Routes .root k v := by
    rintro k v ⟨seg, hseg, -, -, a, hlo, hhi, -⟩
    have heq : seg = emptyDevice := List.mem_singleton.mp hseg
    rw [heq] at hlo hhi
    exact absurd hhi (BitVec.not_lt.mpr hlo)
  have hdefault := hexact.default 2 _ rfl 0x1000000 fun v => hnone _ v
  revert hdefault
  decide

end MappingTable

end SmcTp.Mapping
