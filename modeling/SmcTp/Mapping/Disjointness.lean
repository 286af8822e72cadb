import SmcTp.Mapping.MappingTable

/-!
# Disjoint segments

A call of `add` that throws leaves the list as it was, and one that returns has tested
the new segment against every registered one.  What the tests say about a pair is
`Compatible`, and it holds of every pair of a reachable table.

The overlap test compares ends that may wrap, so a segment that goes up to the top of the
address space is let in next to what lies above its base.  A history keeps the segments
disjoint if and only if no call that returned put two segments together that are not
clear at the top.
-/

namespace SmcTp.Mapping

open Programs Clocked

namespace MappingTable

variable {w : Nat}

/-! ## The result of a call -/

theorem check_within (mt : MappingTable w) (seg : Segment w) {n m : Nat} (hle : n ≤ m) :
    (mt.check n seg).Within (mt.check m seg) := by
  unfold check
  split
  · exact .refl _
  · refine Outcome.forM_within (fun s => ?_) _
    split
    · exact .refl _
    · refine forLoop_within (fun address _ => ?_) hle _ _
      exact forLoop_within (fun segaddress _ => .refl _) hle _ _

/-- Whatever the bound, a call that ends has one result. -/
theorem check_eq {mt : MappingTable w} {seg : Segment w} {n m : Nat}
    (hn : mt.check n seg ≠ .running) (hm : mt.check m seg ≠ .running) :
    mt.check n seg = mt.check m seg :=
  Outcome.eq_of_within (f := fun n => mt.check n seg) (fun _ _ hle => mt.check_within seg hle) hn hm

/-- The call of `add` returns. -/
def Accepts (mt : MappingTable w) (seg : Segment w) : Prop :=
  ∃ fuel, mt.check fuel seg = .returns ()

/-- The table with one more segment. -/
def append (mt : MappingTable w) (seg : Segment w) : MappingTable w :=
  { mt with segmentList := mt.segmentList ++ [seg] }

/-- A call that ends either throws and changes nothing or returns and appends. -/
theorem step_cases {mt s s' : MappingTable w} {seg : Segment w}
    (h : (calls mt).step s seg s') :
    ¬ s.Accepts seg ∧ s' = s ∨ s.Accepts seg ∧ s' = s.append seg := by
  obtain ⟨fuel, outcome, hadd, hend⟩ := h
  unfold add at hadd
  cases hcheck : s.check fuel seg with
  | running =>
      rw [hcheck] at hadd
      cases hadd
      exact absurd rfl hend
  | throws e =>
      rw [hcheck] at hadd
      cases hadd
      refine .inl ⟨?_, rfl⟩
      rintro ⟨m, hm⟩
      have heq : s.check fuel seg = s.check m seg := check_eq (by simp [hcheck]) (by simp [hm])
      rw [hcheck, hm] at heq
      cases heq
  | returns u =>
      rw [hcheck] at hadd
      cases hadd
      exact .inr ⟨⟨fuel, hcheck⟩, rfl⟩

/-- A call that throws has failed its test, and leaves the table. -/
theorem add_throws {mt mt' : MappingTable w} {seg : Segment w} {fuel : Nat} {e : Exn w}
    (h : mt.add fuel seg = (.throws e, mt')) : mt.check fuel seg = .throws e ∧ mt' = mt := by
  unfold add at h
  cases hcheck : mt.check fuel seg with
  | running =>
      rw [hcheck] at h
      cases h
  | throws e' =>
      rw [hcheck] at h
      cases h
      exact ⟨rfl, rfl⟩
  | returns u =>
      rw [hcheck] at h
      cases h

/-- What a call that returns has tested. -/
theorem Accepts.not_isOverlapping {mt : MappingTable w} {seg : Segment w} (h : mt.Accepts seg) :
    ∀ s ∈ mt.segmentList, s.isOverlapping seg = false := by
  obtain ⟨fuel, hcheck⟩ := h
  have hmeets : (mt.check fuel seg).Meets
      (fun _ => ∀ s ∈ mt.segmentList, s.isOverlapping seg = false) fun _ => True := by
    unfold check
    split
    · trivial
    · refine Outcome.forM_meets fun s _ => ?_
      split
      next => trivial
      next hover =>
        cases checkCacheability fuel mt s seg with
        | running => trivial
        | throws e => trivial
        | returns u => exact Bool.eq_false_iff.mpr hover
  exact hmeets.returned hcheck

/-! ## Histories -/

/-- The registered segments share no address. -/
def SegmentsDisjoint (mt : MappingTable w) : Prop := mt.segmentList.Pairwise Segment.Disjoint

/-- A call puts together only segments that are clear at the top. -/
def CallClear (mt : MappingTable w) (seg : Segment w) : Prop :=
  mt.Accepts seg → ∀ s ∈ mt.segmentList, s.ClearAtTop seg

/-- A call that returns keeps the segments disjoint if and only if it is clear. -/
theorem segmentsDisjoint_append_iff {mt : MappingTable w} {seg : Segment w}
    (haccepts : mt.Accepts seg) :
    (mt.append seg).SegmentsDisjoint ↔ mt.SegmentsDisjoint ∧ mt.CallClear seg := by
  have hpair : (∀ s ∈ mt.segmentList, s.Disjoint seg) ↔ mt.CallClear seg := by
    constructor
    · intro h _ s hs
      exact (Segment.disjoint_iff_of_not_isOverlapping
        (haccepts.not_isOverlapping s hs)).mp (h s hs)
    · intro h s hs
      exact (Segment.disjoint_iff_of_not_isOverlapping
        (haccepts.not_isOverlapping s hs)).mpr (h haccepts s hs)
  rw [SegmentsDisjoint, append, List.pairwise_append, ← hpair]
  simp [SegmentsDisjoint]

theorem segmentsDisjoint_iff_of_path {mt : MappingTable w} (hempty : mt.segmentList = [])
    {steps : List (MappingTable w × Segment w)} {s : MappingTable w}
    (hpath : (calls mt).Path steps s) :
    s.SegmentsDisjoint ↔ ∀ step ∈ steps, step.1.CallClear step.2 := by
  induction hpath with
  | init h =>
      rw [show _ = mt from h]
      simp [SegmentsDisjoint, hempty]
  | @step steps s s' seg _ hstep ih =>
      simp only [List.forall_mem_append, List.forall_mem_singleton]
      rcases step_cases hstep with ⟨hrefused, rfl⟩ | ⟨haccepts, rfl⟩
      · rw [ih]
        exact ⟨fun h => ⟨h, fun haccepts => absurd haccepts hrefused⟩, And.left⟩
      · rw [segmentsDisjoint_append_iff haccepts, ih]

/-- A new table has no segment. -/
theorem segmentList_of_new {addrWidth : Nat} {levelAddrBits : IntTab} {mask : Addr}
    {mt : MappingTable w} (h : new addrWidth levelAddrBits mask = some mt) :
    mt.segmentList = [] := by
  obtain ⟨bits, -, rfl⟩ := Option.map_eq_some_iff.mp h
  rfl

/-- Along every history of a mapping table, a call that throws leaves the segments as they
were, and they are disjoint if and only if every call so far was clear at the top. -/
theorem segments_disjoint_iff_calls_clear {addrWidth : Nat} {levelAddrBits : IntTab}
    {mask : Addr} {mt : MappingTable w} (hnew : new addrWidth levelAddrBits mask = some mt)
    {steps : List (MappingTable w × Segment w)} {s : MappingTable w}
    (hpath : (calls mt).Path steps s) :
    (∀ fuel seg e s', s.add fuel seg = (.throws e, s') → s'.segmentList = s.segmentList) ∧
      (s.SegmentsDisjoint ↔ ∀ step ∈ steps, step.1.CallClear step.2) := by
  refine ⟨fun fuel seg e s' hadd => ?_,
    segmentsDisjoint_iff_of_path (segmentList_of_new hnew) hpath⟩
  rw [(add_throws hadd).2]

/-! ## A segment at the top -/

/-- One level of eight bits. -/
def oneLevel : IntTab := ⟨[8], by decide, by decide⟩

/-- The last page of the address space. -/
def lastPage : Segment 64 := ⟨0xFFFFFFFFFFFFF000, 0x1000, ⟨[0], by decide, by decide⟩, false⟩

/-- A part of the last page. -/
def insideLastPage : Segment 64 :=
  ⟨0xFFFFFFFFFFFFF800, 0x100, ⟨[1], by decide, by decide⟩, false⟩

/-- A table with that level. -/
def emptyTable : MappingTable 64 := ⟨[], 32, oneLevel, 0xC0000000, 0x1000000⟩

theorem emptyTable_new : new 32 oneLevel 0xC0000000 = some emptyTable := rfl

/-- Both calls return. -/
theorem lastPage_path :
    (calls emptyTable).Path [(emptyTable, lastPage), (emptyTable.append lastPage, insideLastPage)]
      ((emptyTable.append lastPage).append insideLastPage) := by
  have hfirst := System.Path.step (S := calls emptyTable) (i := lastPage) (.init rfl)
    ⟨1, .returns (), rfl, by simp⟩
  exact hfirst.step ⟨1, .returns (), rfl, by simp⟩

/-- The two segments share the addresses of the second one. -/
theorem lastPage_not_disjoint :
    ¬ ∀ mt : MappingTable 64, new 32 oneLevel 0xC0000000 = some mt →
      ∀ steps s, (calls mt).Path steps s → s.SegmentsDisjoint := by
  intro hall
  have hdisj := hall emptyTable emptyTable_new _ _ lastPage_path
  have hpair : lastPage.Disjoint insideLastPage := (List.pairwise_pair.mp hdisj)
  exact hpair 0xFFFFFFFFFFFFF800 ⟨by decide, by decide⟩

/-- A segment that ends where the last page begins. -/
def belowLastPage : Segment 64 :=
  ⟨0xFFFFFFFFFFFFE800, 0x800, ⟨[1], by decide, by decide⟩, false⟩

/-- Two calls that return, and one that throws. -/
theorem belowLastPage_path :
    (calls emptyTable).Path
      [(emptyTable, belowLastPage), (emptyTable.append belowLastPage, lastPage),
        ((emptyTable.append belowLastPage).append lastPage, belowLastPage)]
      ((emptyTable.append belowLastPage).append lastPage) := by
  have hfirst := System.Path.step (S := calls emptyTable) (i := belowLastPage) (.init rfl)
    ⟨1, .returns (), rfl, by simp⟩
  have hsecond := hfirst.step (i := lastPage) ⟨2, .returns (), rfl, by simp⟩
  exact hsecond.step ⟨1, .throws (.collision belowLastPage belowLastPage), rfl, by simp⟩

/-- The last page goes up to the top, and what was registered before ends below it. -/
theorem belowLastPage_disjoint :
    ((emptyTable.append belowLastPage).append lastPage).SegmentsDisjoint := by
  refine (segments_disjoint_iff_calls_clear emptyTable_new belowLastPage_path).2.mpr ?_
  intro step hstep haccepts s hs
  rcases List.mem_cons.mp hstep with rfl | hstep
  · exact absurd hs List.not_mem_nil
  rcases List.mem_cons.mp hstep with rfl | hstep
  · rw [List.mem_singleton.mp hs]
    exact ⟨fun hwraps => absurd hwraps (by decide), fun _ => .inr ⟨by decide, by decide⟩⟩
  · rw [List.mem_singleton.mp hstep] at haccepts
    have hoverlap := haccepts.not_isOverlapping belowLastPage List.mem_cons_self
    exact absurd hoverlap (by decide)

end MappingTable

end SmcTp.Mapping
