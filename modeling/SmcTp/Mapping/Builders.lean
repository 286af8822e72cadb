import SmcTp.Mapping.Blocks

/-!
# The builders of tables

A builder goes through the blocks of all segments and puts the value of each segment
into the entries its blocks fall into.  `fill_meets` connects the loops to
`ConsistentFill`: the table returned holds the value of a segment at each of its blocks
and the reset value elsewhere, and a throw means that two blocks with different values
fall into one entry.

A table decodes bits above the block size, so an address falls into the entry of its
block (`id_blockOf`).
-/

namespace SmcTp.Mapping

open Programs ConsistentFill Clocked

namespace MappingTable

section Fill

variable {α : Type} {rtSize : Addr} {val : Segment 64 → Option α} {segs : List (Segment 64)}
  {d : α}

/-- A block with a value falls into the entry `k`. -/
def Puts (rtSize : Addr) (idf : Addr → Addr) (val : Segment 64 → Option α)
    (segs : List (Segment 64)) (k : Addr) (v : α) : Prop :=
  ∃ s ∈ segs, val s = some v ∧ ∃ b, s.IsBlock rtSize b ∧ idf b = k

theorem puts_append {idf : Addr → Addr} {s : Segment 64} {k : Addr} {v : α} :
    Puts rtSize idf val (segs ++ [s]) k v ↔ Puts rtSize idf val segs k v ∨
      val s = some v ∧ ∃ b, s.IsBlock rtSize b ∧ idf b = k := by
  constructor
  · rintro ⟨r, hr, hput⟩
    rcases List.mem_append.mp hr with hr | hr
    · exact .inl ⟨r, hr, hput⟩
    · rw [← List.mem_singleton.mp hr]
      exact .inr hput
  · rintro (⟨r, hr, hput⟩ | hput)
    · exact ⟨r, List.mem_append_left _ hr, hput⟩
    · exact ⟨s, List.mem_append_right _ List.mem_cons_self, hput⟩

/-- The tables of a builder hold the entries `es`. -/
structure Holds (idf : Addr → Addr) (d : α) (es : List (Addr × α))
    (t : AddressDecodingTable α × AddressDecodingTable Bool) : Prop where
  id : t.1.id = idf
  doneId : t.2.id = idf
  filled : Filled d es ⟨t.1.table, t.2.table⟩

/-- The tables hold what the blocks of the segments put into them. -/
def Built (rtSize : Addr) (idf : Addr → Addr) (d : α) (val : Segment 64 → Option α)
    (segs : List (Segment 64)) (t : AddressDecodingTable α × AddressDecodingTable Bool) : Prop :=
  ∃ es, Holds idf d es t ∧ ∀ k v, (k, v) ∈ es ↔ Puts rtSize idf val segs k v

/-- Two blocks with different values fall into one entry. -/
def Clash (rtSize : Addr) (idf : Addr → Addr) (val : Segment 64 → Option α)
    (segs : List (Segment 64)) : Prop :=
  ∃ k v v', v ≠ v' ∧ Puts rtSize idf val segs k v ∧ Puts rtSize idf val segs k v'

theorem Clash.mono {idf : Addr → Addr} {segs' : List (Segment 64)}
    (h : Clash rtSize idf val segs) (hsub : ∀ s ∈ segs, s ∈ segs') :
    Clash rtSize idf val segs' := by
  obtain ⟨k, v, v', hne, ⟨s, hs, hput⟩, ⟨s', hs', hput'⟩⟩ := h
  exact ⟨k, v, v', hne, ⟨s, hsub s hs, hput⟩, ⟨s', hsub s' hs', hput'⟩⟩

variable [DecidableEq α]

/-- A marked entry is put into the table, or it clashes with one that is there. -/
theorem mark_meets {idf : Addr → Addr} {es : List (Addr × α)} {seg : Segment 64} {v : α}
    {addr : Addr} {t : AddressDecodingTable α × AddressDecodingTable Bool}
    (h : Holds idf d es t) :
    (mark seg v addr t).Meets (Holds idf d (es ++ [(idf addr, v)]))
      fun _ => ∃ v', v' ≠ v ∧ (idf addr, v') ∈ es := by
  obtain ⟨rfl, hdone, hfilled⟩ := h
  unfold mark AddressDecodingTable.get
  rw [hdone]
  split
  next hclash =>
    obtain ⟨v', hv'⟩ := (hfilled.done _).mp hclash.1
    exact ⟨v', fun heq => hclash.2 ((hfilled.table _ v' hv').trans heq), hv'⟩
  next hclash =>
    refine ⟨rfl, hdone, ?_⟩
    have hput : (Fill.mk t.1.table t.2.table).put (t.1.id addr) v =
        some ⟨(t.1.set addr v).table, (t.2.set addr true).table⟩ := by
      rw [Fill.put, if_neg hclash]
      simp only [AddressDecodingTable.set, hdone]
    exact hfilled.put hput

/-- The blocks of one segment. -/
theorem markBlocks_meets (h : IsBlockSize rtSize) {idf : Addr → Addr} {seg : Segment 64} {v : α}
    (hval : val seg = some v) (fuel : Nat)
    {t : AddressDecodingTable α × AddressDecodingTable Bool}
    (ht : Built rtSize idf d val segs t) :
    (forBlocks fuel rtSize seg (mark seg v) t).Meets (Built rtSize idf d val (segs ++ [seg]))
      fun _ => Clash rtSize idf val (segs ++ [seg]) := by
  obtain ⟨es, hholds, hes⟩ := ht
  refine (forBlocks_meets h
    (P := fun l t => Holds idf d (es ++ l.map fun b => (idf b, v)) t ∧
      ∀ b ∈ l, seg.IsBlock rtSize b) ?_ fuel ⟨by simpa using hholds, by simp⟩).imp ?_
    fun _ he => he
  · rintro l b t hb ⟨ht, hl⟩
    refine (mark_meets ht).imp ?_ ?_
    · intro t' ht'
      refine ⟨by simpa using ht', fun c hc => ?_⟩
      rcases List.mem_append.mp hc with hc | hc
      · exact hl c hc
      · rwa [List.mem_singleton.mp hc]
    · rintro _ ⟨v', hne, hmem⟩
      have hnew : Puts rtSize idf val (segs ++ [seg]) (idf b) v :=
        puts_append.mpr (.inr ⟨hval, b, hb, rfl⟩)
      rcases List.mem_append.mp hmem with hold | hmap
      · exact ⟨_, v', v, hne, puts_append.mpr (.inl ((hes _ _).mp hold)), hnew⟩
      · -- the blocks of the segment itself all have its value
        obtain ⟨c, -, heq⟩ := List.mem_map.mp hmap
        exact absurd (Prod.mk.inj heq).2.symm hne
  · rintro t' ⟨l, hl, ht', -⟩
    refine ⟨_, ht', fun k u => ?_⟩
    rw [List.mem_append, hes, puts_append, List.mem_map, hval]
    constructor
    · rintro (hput | ⟨b, hb, heq⟩)
      · exact .inl hput
      · cases heq
        exact .inr ⟨rfl, b, (hl b).mp hb, rfl⟩
    · rintro (hput | ⟨heq, b, hb, rfl⟩)
      · exact .inl hput
      · cases heq
        exact .inr ⟨b, (hl b).mpr hb, rfl⟩

/-- What the table of a builder holds. -/
structure Table (rtSize : Addr) (idf : Addr → Addr) (d : α) (val : Segment 64 → Option α)
    (segs : List (Segment 64)) (t : AddressDecodingTable α) : Prop where
  id : t.id = idf
  table : ∀ k v, Puts rtSize idf val segs k v → t.table k = v
  default : ∀ k, (∀ v, ¬ Puts rtSize idf val segs k v) → t.table k = d

/-- A builder that has reset its two tables. -/
theorem fill_meets {mt : MappingTable 64} (h : IsBlockSize mt.rtSize)
    {adt : AddressDecodingTable α} {done : AddressDecodingTable Bool} (hid : done.id = adt.id)
    (hadt : adt.table = fun _ => d) (hdone : done.table = fun _ => false) (fuel : Nat) :
    (mt.fill fuel val adt done).Meets (Table mt.rtSize adt.id d val mt.segmentList)
      fun _ => Clash mt.rtSize adt.id val mt.segmentList := by
  have hstart : Built mt.rtSize adt.id d val [] (adt, done) := by
    refine ⟨[], ⟨rfl, hid, ?_⟩, fun k v => ⟨fun hmem => absurd hmem List.not_mem_nil, ?_⟩⟩
    · rw [hadt, hdone]
      exact .empty d
    · rintro ⟨s, hs, -⟩
      exact absurd hs List.not_mem_nil
  refine (Outcome.foldlM_meets
    (P := fun r t => Built mt.rtSize adt.id d val r t ∧ ∀ s ∈ r, s ∈ mt.segmentList) ?_
    ⟨hstart, fun s hs => absurd hs List.not_mem_nil⟩).bind ?_
  · rintro r s t hs ⟨ht, hr⟩
    have hsub : ∀ x ∈ r ++ [s], x ∈ mt.segmentList := by
      intro x hx
      rcases List.mem_append.mp hx with hx | hx
      · exact hr x hx
      · rwa [List.mem_singleton.mp hx]
    cases hval : val s with
    | some v =>
        exact (markBlocks_meets h hval fuel ht).imp (fun t' ht' => ⟨ht', hsub⟩)
          fun _ hclash => hclash.mono hsub
    | none =>
        obtain ⟨es, hholds, hes⟩ := ht
        refine ⟨⟨es, hholds, fun k v => ?_⟩, hsub⟩
        rw [hes, puts_append, hval]
        simp
  · rintro t ⟨⟨es, hholds, hes⟩, -⟩
    exact ⟨hholds.id, fun k v hput => hholds.filled.table k v ((hes k v).mpr hput),
      fun k hnone => hholds.filled.default k fun v hmem => hnone v ((hes k v).mp hmem)⟩

theorem fill_within (mt : MappingTable 64) (val : Segment 64 → Option α)
    (adt : AddressDecodingTable α) (done : AddressDecodingTable Bool) {n m : Nat} (hle : n ≤ m) :
    (mt.fill n val adt done).Within (mt.fill m val adt done) := by
  refine (Outcome.foldlM_within (fun t seg => ?_) _ _).bind fun t => .refl _
  cases val seg with
  | some v => exact forLoop_within (fun b t => .refl _) hle _ _
  | none => exact .refl _

omit [DecidableEq α] in
/-- An address is decoded like its block. -/
theorem Table.get_eq {idf : Addr → Addr} {t : AddressDecodingTable α}
    (h : Table rtSize idf d val segs t) (hblock : ∀ a, idf (blockOf rtSize a) = idf a)
    (hrt : IsBlockSize rtSize) {s : Segment 64} (hs : s ∈ segs) {v : α} (hval : val s = some v)
    {a : Addr} (hlo : s.baseAddress ≤ a.setWidth 64) (hhi : a.setWidth 64 < s.bound) :
    t.get a = v := by
  rw [AddressDecodingTable.get, h.id]
  exact h.table _ v ⟨s, hs, hval, blockOf rtSize a, isBlock_blockOf hrt hlo hhi, hblock a⟩

end Fill

/-! ## Decoding a block -/

/-- The entry of an address in a table of so many bits. -/
def entry (useBits dropBits : Int) (a : Addr) : Addr :=
  (a >>> (dropBits % 32).toNat) &&& (shl1 useBits - 1)

/-- A table ignores the bits inside a block. -/
theorem entry_blockOf {useBits dropBits : Int} {k : Nat} (hk : k < 32)
    (hdrop : useBits = 0 ∨ k ≤ (dropBits % 32).toNat) (a : Addr) :
    entry useBits dropBits (blockOf (1#32 <<< k) a) = entry useBits dropBits a := by
  unfold entry
  rcases hdrop with rfl | hle
  · have hzero : shl1 0 - 1 = 0 := rfl
    rw [hzero]
    simp
  · rw [blockOf_eq hk]
    congr 1
    apply BitVec.eq_of_getLsbD_eq
    intro i hi
    simp only [BitVec.getLsbD_ushiftRight, BitVec.getLsbD_shiftLeft]
    have hge : k ≤ (dropBits % 32).toNat + i := Nat.le_trans hle (Nat.le_add_right _ _)
    rcases Nat.lt_or_ge ((dropBits % 32).toNat + i) 32 with hlt | hout
    · simp [hlt, Nat.not_lt.mpr hge, Nat.add_sub_cancel' hge]
    · simp [BitVec.getLsbD_of_ge _ _ hout, Nat.not_lt.mpr hout]

/-- A builder on two tables of so many bits. -/
def build {α : Type} [DecidableEq α] (fuel : Nat) (mt : MappingTable 64) (useBits dropBits : Int)
    (d : α) (val : Segment 64 → Option α) : Outcome (Exn 64) (AddressDecodingTable α) := do
  let adt ← AddressDecodingTable.ofBits useBits dropBits d
  let done ← AddressDecodingTable.ofBits useBits dropBits false
  mt.fill fuel val adt done

section Build

variable {α : Type} [DecidableEq α] {mt : MappingTable 64} {useBits dropBits : Int} {d : α}
  {val : Segment 64 → Option α}

omit [DecidableEq α] in
theorem ofBits_eq (hmsb : (shl1 useBits).msb = false) :
    (AddressDecodingTable.ofBits useBits dropBits d : Outcome (Exn 64) _) =
      .returns ⟨useBits, dropBits, shl1 useBits - 1, fun _ => d⟩ := by
  rw [AddressDecodingTable.ofBits, hmsb]
  rfl

/-- A builder fails on a size that is negative, or on a clash. -/
theorem build_meets (h : IsBlockSize mt.rtSize) (fuel : Nat) :
    (build fuel mt useBits dropBits d val).Meets
      (Table mt.rtSize (entry useBits dropBits) d val mt.segmentList)
      fun _ => (shl1 useBits).msb = true ∨
        Clash mt.rtSize (entry useBits dropBits) val mt.segmentList := by
  cases hmsb : (shl1 useBits).msb with
  | true =>
      rw [build, AddressDecodingTable.ofBits, hmsb]
      exact .inl rfl
  | false =>
      rw [build, ofBits_eq hmsb, ofBits_eq hmsb, Outcome.returns_bind, Outcome.returns_bind]
      refine (fill_meets h ?_ ?_ ?_ fuel).imp (fun _ ht => ht) fun _ he => Or.inr he
      all_goals rfl

theorem build_within {n m : Nat} (hle : n ≤ m) :
    (build n mt useBits dropBits d val).Within (build m mt useBits dropBits d val) :=
  Outcome.Within.bind (.refl _) fun adt => Outcome.Within.bind (.refl _) fun done =>
    fill_within mt val adt done hle

end Build

theorem shl1_lt_iff {m n : Int} : shl1 m < shl1 n ↔ (m % 32).toNat < (n % 32).toNat := by
  have hlt : ∀ n : Int, (n % 32).toNat < 32 := by
    intro n
    omega
  rw [shl1, shl1, BitVec.lt_def, toNat_one_shl (hlt m), toNat_one_shl (hlt n), Nat.one_shiftLeft,
    Nat.one_shiftLeft]
  exact Nat.pow_lt_pow_iff_right (by decide)

/-- The block size of a new table: no larger than the two granularities. -/
theorem rtSize_of_new {w addrWidth : Nat} {levelAddrBits : IntTab} {mask : Addr}
    {mt : MappingTable w} (h : new addrWidth levelAddrBits mask = some mt) :
    ∃ k < 32, mt.rtSize = 1#32 <<< k ∧ k ≤ ((addrWidth - levelAddrBits.sum 10) % 32).toNat ∧
      ∃ use drop, maskBits mask = some (use, drop) ∧ k ≤ drop % 32 := by
  obtain ⟨⟨use, drop⟩, hmask, rfl⟩ := Option.map_eq_some_iff.mp h
  have hless := shl1_lt_iff (m := addrWidth - levelAddrBits.sum 10) (n := drop)
  rcases Classical.em (shl1 (addrWidth - levelAddrBits.sum 10) < shl1 drop) with hlt | hle
  · refine ⟨((addrWidth - levelAddrBits.sum 10) % 32).toNat, by omega, if_pos hlt,
      Nat.le_refl _, use, drop, hmask, ?_⟩
    have hbits := hless.mp hlt
    omega
  · refine ⟨((drop : Int) % 32).toNat, by omega, if_neg hle, ?_, use, drop, hmask, by omega⟩
    rw [hless] at hle
    omega

end MappingTable

end SmcTp.Mapping
