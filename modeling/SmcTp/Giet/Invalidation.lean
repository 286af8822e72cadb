import SmcTp.Giet.Drivers
import SmcTp.Programs.LineWalk
import SmcTp.Programs.Outcome

/-!
# Invalidation of the target of a transfer

A device writes into memory behind the data cache, so the lines of the buffer it writes to
must be invalidated.  `_dcache_buf_invalidate` starts at the address of the buffer and goes
on by one line until the size is reached.

*The loop.*  It ends unless the size reaches into the last line below `2^32`, where the
counter comes round (`dcacheBufInvalidate_eq`, `dcacheBufInvalidate_endless`).

*Coverage.*  The loop meets as many lines as the size fills.  A buffer that starts inside
of a line may lie in one more, and `_fb_read` has its call of the function commented out.
`invalidated_iff` says which reads find all lines of their buffer invalidated.
-/

namespace SmcTp.Giet

open Programs LineWalk

/-! ## The function -/

/-- `line_size`, from bits 12 to 10 of the config register. -/
def lineSize (config : Word) : Word := 2#32 <<< ((config >>> 10) &&& 7).toNat

/-- `_dcache_buf_invalidate`: the addresses that `cache` is applied to. -/
def dcacheBufInvalidate (fuel : Nat) (config buffer size : Word) : Outcome Empty (List Word) :=
  forLoop (fun i => decide (i < size)) (· + lineSize config)
    (fun i addrs => .returns (addrs ++ [buffer + i])) fuel 0 []

/-- The addresses that `cache` is applied to by what a driver does. -/
def invalidations (fuel : Nat) (config : Word) : List Action → Outcome Empty (List Word)
  | [] => .returns []
  | .invalidate buffer size :: rest => do
      let addrs ← dcacheBufInvalidate fuel config buffer size
      let more ← invalidations fuel config rest
      pure (addrs ++ more)
  | _ :: rest => invalidations fuel config rest

/-! ## The loop -/

section Loop

variable {config size : Word}

theorem toNat_lineSize (config : Word) :
    ∃ k < 8, (lineSize config).toNat = 2 ^ (k + 1) := by
  have hk : ((config >>> 10) &&& 7).toNat < 8 := by
    rw [BitVec.toNat_and]
    exact Nat.and_lt_two_pow _ (n := 3) (by decide)
  refine ⟨_, hk, ?_⟩
  have htwo : (2#32).toNat = 2 := rfl
  have hpow : 2 ^ (((config >>> 10) &&& 7).toNat + 1) < 2 ^ 32 :=
    Nat.pow_lt_pow_right (by decide) (by omega)
  rw [lineSize, BitVec.toNat_shiftLeft, htwo, Nat.shiftLeft_eq, ← Nat.pow_succ',
    Nat.mod_eq_of_lt hpow]

theorem lineSize_pos (config : Word) : 0 < (lineSize config).toNat := by
  obtain ⟨k, -, hk⟩ := toNat_lineSize config
  rw [hk]
  exact Nat.two_pow_pos _

/-- The lines of the address space. -/
def lineCount (config : Word) : Nat := 2 ^ 32 / (lineSize config).toNat

theorem lineSize_mul_lineCount (config : Word) :
    (lineSize config).toNat * lineCount config = 2 ^ 32 := by
  obtain ⟨k, hk, hsize⟩ := toNat_lineSize config
  rw [lineCount, hsize]
  exact Nat.mul_div_cancel' (Nat.pow_dvd_pow 2 (by omega))

/-- The number of passes that reach the size. -/
def passes (config size : Word) : Nat :=
  (size.toNat + (lineSize config).toNat - 1) / (lineSize config).toNat

theorem lt_passes_iff {m : Nat} :
    m < passes config size ↔ (lineSize config).toNat * m < size.toNat := by
  have hpos := lineSize_pos config
  rw [passes, ← Nat.succ_le_iff, Nat.le_div_iff_mul_le hpos, Nat.succ_mul, Nat.mul_comm]
  omega

/-- The counter after `m` passes, if it has not come round. -/
theorem toNat_counter {m : Nat} (hm : (lineSize config).toNat * m < 2 ^ 32) :
    (BitVec.ofNat 32 ((lineSize config).toNat * m)).toNat = (lineSize config).toNat * m := by
  rw [BitVec.toNat_ofNat, Nat.mod_eq_of_lt hm]

theorem counter_succ (m : Nat) :
    BitVec.ofNat 32 ((lineSize config).toNat * m) + lineSize config =
      BitVec.ofNat 32 ((lineSize config).toNat * (m + 1)) := by
  rw [Nat.mul_succ, BitVec.ofNat_add, BitVec.ofNat_toNat, BitVec.setWidth_eq]

/-- The loop visits one counter value for every line, if it ends before the last line. -/
theorem visits_counter (hsize : size.toNat + (lineSize config).toNat ≤ 2 ^ 32) {m n : Nat}
    (hm : m + n = passes config size) :
    Visits (fun i => decide (i < size)) (· + lineSize config)
      (BitVec.ofNat 32 ((lineSize config).toNat * m))
      ((List.range' m n).map fun k => BitVec.ofNat 32 ((lineSize config).toNat * k)) := by
  have hpos := lineSize_pos config
  induction n generalizing m with
  | zero =>
      refine .stop (decide_eq_false ?_)
      have hle : size.toNat ≤ (lineSize config).toNat * m :=
        Nat.not_lt.mp (mt lt_passes_iff.mpr (by omega))
      have hcounter : (lineSize config).toNat * m < 2 ^ 32 := by
        rcases Nat.eq_zero_or_pos m with rfl | hm'
        · simp
        · obtain ⟨m, rfl⟩ := Nat.exists_eq_add_of_lt hm'
          have hlast := lt_passes_iff.mp (show 0 + m < passes config size by omega)
          rw [Nat.mul_succ]
          omega
      rw [BitVec.lt_def, toNat_counter hcounter]
      exact Nat.not_lt.mpr hle
  | succ n ih =>
      have hin : (lineSize config).toNat * m < size.toNat := lt_passes_iff.mp (by omega)
      refine .pass (decide_eq_true ?_) ?_
      · rw [BitVec.lt_def, toNat_counter (Nat.lt_trans hin size.isLt)]
        exact hin
      · rw [counter_succ]
        exact ih (by omega)

theorem foldlM_append (buffer : Word) (l : List Word) (addrs : List Word) :
    l.foldlM (fun addrs i => (.returns (addrs ++ [buffer + i]) : Outcome Empty (List Word)))
      addrs = .returns (addrs ++ l.map (buffer + ·)) := by
  induction l generalizing addrs with
  | nil => simp
  | cons i l ih =>
      rw [List.foldlM_cons, Outcome.returns_bind, ih, List.append_assoc]
      rfl

/-- The addresses of a walk from the buffer on. -/
def walk (config buffer size : Word) : List Word :=
  (List.range' 0 (passes config size)).map fun m =>
    buffer + BitVec.ofNat 32 ((lineSize config).toNat * m)

/-- A size below the last line is walked through. -/
theorem dcacheBufInvalidate_eq (hsize : size.toNat + (lineSize config).toNat ≤ 2 ^ 32)
    (buffer : Word) {fuel : Nat} (hfuel : passes config size < fuel) :
    dcacheBufInvalidate fuel config buffer size = .returns (walk config buffer size) := by
  have hvisits : Visits _ _ (0 : Word) _ := visits_counter hsize (Nat.zero_add _)
  rw [dcacheBufInvalidate, hvisits.forLoop_eq (by simpa using hfuel), foldlM_append,
    List.nil_append, List.map_map]
  rfl

/-- The counter of a loop that reaches into the last line steps over its end. -/
theorem not_visits (hsize : 2 ^ 32 < size.toNat + (lineSize config).toNat) {i : Word}
    {l : List Word} (hdvd : (lineSize config).toNat ∣ i.toNat) :
    ¬ Visits (fun i => decide (i < size)) (· + lineSize config) i l := by
  intro hvisits
  have hdvd32 : (lineSize config).toNat ∣ 2 ^ 32 := ⟨_, (lineSize_mul_lineCount config).symm⟩
  induction hvisits with
  | @stop i hstop =>
      have hlt := i.isLt
      have hle : size.toNat ≤ i.toNat := by
        simpa [BitVec.lt_def] using hstop
      obtain ⟨x, hx⟩ := hdvd
      obtain ⟨y, hy⟩ := hdvd32
      have hxy : x < y := Nat.lt_of_mul_lt_mul_left (hx ▸ hy ▸ hlt)
      have hnext := Nat.mul_le_mul_left (lineSize config).toNat (Nat.succ_le_of_lt hxy)
      rw [Nat.mul_succ, ← hx, ← hy] at hnext
      omega
  | pass _ _ ih =>
      refine ih ?_
      rw [BitVec.toNat_add]
      exact (Nat.dvd_mod_iff hdvd32).mpr (Nat.dvd_add hdvd (Nat.dvd_refl _))

theorem dcacheBufInvalidate_endless (hsize : 2 ^ 32 < size.toNat + (lineSize config).toNat)
    (buffer : Word) (fuel : Nat) : dcacheBufInvalidate fuel config buffer size = .running := by
  have hloop : (dcacheBufInvalidate fuel config buffer size).Meets
      (fun _ => ∃ l, Visits (fun i => decide (i < size)) (· + lineSize config) 0 l ∧ True)
      fun _ => True := by
    refine forLoop_meets (P := fun _ _ => True) (R := fun _ => True) ?_ ?_ trivial trivial
    · exact fun _ _ _ => trivial
    · exact fun _ _ _ _ _ _ => trivial
  have hmeets : (dcacheBufInvalidate fuel config buffer size).Meets (fun _ => False)
      fun _ => True := by
    refine hloop.imp ?_ fun _ he => he
    rintro _ ⟨l, hvisits, -⟩
    exact not_visits hsize (Nat.dvd_zero _) hvisits
  cases h : dcacheBufInvalidate fuel config buffer size with
  | running => rfl
  | throws e => exact e.elim
  | returns a => exact (hmeets.returned h).elim

/-- When the loop ends, and where it has been. -/
theorem dcacheBufInvalidate_returns_iff {buffer : Word} {addrs : List Word} :
    (∃ fuel, dcacheBufInvalidate fuel config buffer size = .returns addrs) ↔
      size.toNat + (lineSize config).toNat ≤ 2 ^ 32 ∧ addrs = walk config buffer size := by
  constructor
  · rintro ⟨fuel, hreturns⟩
    rcases Nat.lt_or_ge (2 ^ 32) (size.toNat + (lineSize config).toNat) with hlast | hsize
    · rw [dcacheBufInvalidate_endless hlast] at hreturns
      cases hreturns
    · have hwithin : (dcacheBufInvalidate fuel config buffer size).Within
          (dcacheBufInvalidate (fuel + (passes config size + 1)) config buffer size) :=
        forLoop_within (fun _ _ => .refl _) (Nat.le_add_right _ _) _ _
      have hmore := hwithin (by simp [hreturns])
      rw [dcacheBufInvalidate_eq hsize buffer (by omega), hreturns] at hmore
      exact ⟨hsize, (Outcome.returns.inj hmore).symm⟩
  · rintro ⟨hsize, rfl⟩
    exact ⟨_, dcacheBufInvalidate_eq hsize buffer (Nat.lt_succ_self _)⟩

end Loop

/-! ## The reads of the drivers -/

/-- A call that has a device write into memory. -/
inductive DeviceRead where
  | ioc (lba buffer count : Word)
  | fb (procId offset buffer length : Word)
deriving DecidableEq, Repr

/-- The call of the driver. -/
def DeviceRead.call : DeviceRead → Call
  | .ioc lba buffer count => .iocRead lba buffer count
  | .fb procId offset buffer length => .fbRead procId offset buffer length

/-- The cache line of an address. -/
def lineOf (config a : Word) : Nat := a.toNat / (lineSize config).toNat

/-- The invalidations of a call end, and every byte of the buffer is in a line that has been
invalidated. -/
def Invalidated (plat : Platform) (config : Word) (call : Call) : Prop :=
  ∃ fuel addrs, invalidations fuel config (call.run plat).2 = .returns addrs ∧
    ∀ j < call.bytes plat, ∃ a ∈ addrs,
      lineOf config a = lineOf config (call.buffer + BitVec.ofNat 32 j)

/-- The buffer ends in one of the lines that its length fills, counted from its start. -/
def DeviceRead.Covered (plat : Platform) (config : Word) (read : DeviceRead) : Prop :=
  read.call.bytes plat = 0 ∨
    match read with
    | .ioc _ buffer _ =>
        read.call.bytes plat + (lineSize config).toNat ≤ 2 ^ 32 ∧
          buffer.toNat % (lineSize config).toNat +
            (read.call.bytes plat - 1) % (lineSize config).toNat < (lineSize config).toNat
    | .fb .. => False

section Reads

variable {config buffer size : Word}

theorem lineOf_eq (config a : Word) :
    lineOf config a = line (lineSize config).toNat (lineCount config) a.toNat := by
  rw [line_eq_of_lt (by rw [lineSize_mul_lineCount]; exact a.isLt), lineOf]

theorem lineOf_add (config a : Word) (j : Nat) :
    lineOf config (a + BitVec.ofNat 32 j) =
      line (lineSize config).toNat (lineCount config) (a.toNat + j) := by
  rw [lineOf_eq, BitVec.toNat_add, BitVec.toNat_ofNat, Nat.add_mod_mod, ← lineSize_mul_lineCount,
    line_mod]

theorem passes_lt (hsize : size.toNat + (lineSize config).toNat ≤ 2 ^ 32) :
    passes config size < lineCount config := by
  have hpos := lineSize_pos config
  rw [passes, Nat.div_lt_iff_lt_mul hpos, Nat.mul_comm, lineSize_mul_lineCount]
  omega

/-- What a walk that ends covers. -/
theorem walk_covers (hsize : size.toNat + (lineSize config).toNat ≤ 2 ^ 32) (buffer : Word)
    (n : Nat) :
    (∀ j < n, ∃ a ∈ walk config buffer size,
      lineOf config a = lineOf config (buffer + BitVec.ofNat 32 j)) ↔
      n = 0 ∨ (buffer.toNat % (lineSize config).toNat + (n - 1)) / (lineSize config).toNat <
        passes config size := by
  rw [← walk_covers_iff (lineSize_pos config) (passes_lt hsize)]
  simp only [walk, List.mem_map, List.mem_range'_1, lineOf_add, exists_exists_and_eq_and,
    Nat.zero_le, true_and, Nat.zero_add]

theorem checked_of_accepted {actions : List Action}
    (haccept : (checked buffer size actions).1 = 0) :
    (checked buffer size actions).2 = actions := by
  unfold checked at haccept ⊢
  split
  next herror =>
    rw [if_pos herror] at haccept
    exact absurd haccept (by decide)
  next => rfl

/-- The invalidations of `_ioc_read` are those of its buffer. -/
theorem invalidations_iocRead {plat : Platform} (hcc : plat.noHardCc = true) {lba count : Word}
    (haccept : (iocRead plat lba buffer count).1 = 0) (fuel : Nat) :
    invalidations fuel config (iocRead plat lba buffer count).2 =
      dcacheBufInvalidate fuel config buffer (plat.blockSize * count) := by
  rw [iocRead, checked_of_accepted haccept, hcc]
  simp only [invalidations, if_true, List.cons_append, List.nil_append]
  cases dcacheBufInvalidate fuel config buffer (plat.blockSize * count) with
  | running => rfl
  | throws e => rfl
  | returns addrs => exact congrArg Outcome.returns (List.append_nil addrs)

/-- `_fb_read` invalidates nothing. -/
theorem invalidations_fbRead {plat : Platform} {procId offset length : Word}
    (haccept : (fbRead plat procId offset buffer length).1 = 0) (fuel : Nat) :
    invalidations fuel config (fbRead plat procId offset buffer length).2 = .returns [] := by
  rw [fbRead, checked_of_accepted haccept]
  rfl

/-- A read of the disk that the loop covers. -/
theorem covers_iff (hsize : size.toNat + (lineSize config).toNat ≤ 2 ^ 32) {n : Nat}
    (hn : size.toNat = n % 2 ^ 32) (a : Nat) :
    (n = 0 ∨ (a % (lineSize config).toNat + (n - 1)) / (lineSize config).toNat <
      passes config size) ↔
        n = 0 ∨ n + (lineSize config).toNat ≤ 2 ^ 32 ∧
          a % (lineSize config).toNat + (n - 1) % (lineSize config).toNat <
            (lineSize config).toNat := by
  have hpos := lineSize_pos config
  refine or_congr_right' fun hzero => ?_
  rcases Nat.lt_or_ge n (2 ^ 32) with hlt | hge
  · rw [Nat.mod_eq_of_lt hlt] at hn
    rw [passes, hn, ends_within_iff hpos a (Nat.pos_of_ne_zero hzero)]
    exact (and_iff_right (hn ▸ hsize)).symm
  · -- the length comes round, and the walk is too short for it
    have hlong : lineCount config ≤ (a % (lineSize config).toNat + (n - 1)) /
        (lineSize config).toNat + 1 := by
      rw [← Nat.add_div_right _ hpos, Nat.le_div_iff_mul_le hpos, Nat.mul_comm,
        lineSize_mul_lineCount]
      omega
    have hshort := passes_lt hsize
    constructor
    · intro hin
      omega
    · rintro ⟨hfits, -⟩
      omega

/-- When the lines of the buffer of a read are invalidated. -/
theorem invalidated_iff (plat : Platform) (hcc : plat.noHardCc = true) (config : Word)
    (read : DeviceRead) (haccept : (read.call.run plat).1 = 0) :
    Invalidated plat config read.call ↔ read.Covered plat config := by
  have hpos := lineSize_pos config
  cases read with
  | ioc lba buffer count =>
      have hmul : (plat.blockSize * count).toNat =
          plat.blockSize.toNat * count.toNat % 2 ^ 32 := BitVec.toNat_mul ..
      have hruns : Invalidated plat config (.iocRead lba buffer count) ↔
          (plat.blockSize * count).toNat + (lineSize config).toNat ≤ 2 ^ 32 ∧
            ∀ j < plat.blockSize.toNat * count.toNat,
              ∃ a ∈ walk config buffer (plat.blockSize * count),
                lineOf config a = lineOf config (buffer + BitVec.ofNat 32 j) := by
        constructor
        · rintro ⟨fuel, addrs, hreturns, hall⟩
          rw [Call.run, invalidations_iocRead hcc haccept] at hreturns
          obtain ⟨hends, rfl⟩ := dcacheBufInvalidate_returns_iff.mp ⟨fuel, hreturns⟩
          exact ⟨hends, hall⟩
        · rintro ⟨hends, hall⟩
          obtain ⟨fuel, hreturns⟩ := dcacheBufInvalidate_returns_iff.mpr ⟨hends, rfl⟩
          exact ⟨fuel, _, by rw [Call.run, invalidations_iocRead hcc haccept, hreturns], hall⟩
      refine hruns.trans ?_
      rcases Nat.lt_or_ge (2 ^ 32) ((plat.blockSize * count).toNat + (lineSize config).toNat)
        with hlast | hends
      · refine iff_of_false (fun h => absurd h.1 (Nat.not_le.mpr hlast)) ?_
        -- the loop never ends, and the number of bytes is no smaller than the size
        have hle : (plat.blockSize * count).toNat ≤ plat.blockSize.toNat * count.toNat := by
          rw [hmul]
          exact Nat.mod_le _ _
        obtain ⟨k, hk, hline⟩ := toNat_lineSize config
        have hline' : 2 ^ (k + 1) ≤ 2 ^ 8 := Nat.pow_le_pow_right (by decide) hk
        rintro (hzero | ⟨hfits, -⟩)
        · have hbytes : plat.blockSize.toNat * count.toNat = 0 := hzero
          omega
        · have hbytes : plat.blockSize.toNat * count.toNat + (lineSize config).toNat ≤ 2 ^ 32 :=
            hfits
          omega
      · rw [and_iff_right hends, walk_covers hends, covers_iff hends hmul]
        rfl
  | fb procId offset buffer length =>
      constructor
      · rintro ⟨fuel, addrs, hreturns, hall⟩
        rw [DeviceRead.call, Call.run, invalidations_fbRead haccept] at hreturns
        cases hreturns
        refine .inl ?_
        by_contra hbytes
        obtain ⟨a, ha, -⟩ := hall 0 (Nat.pos_of_ne_zero hbytes)
        cases ha
      · rintro (hzero | hfalse)
        · refine ⟨0, [], invalidations_fbRead haccept 0, fun j hj => ?_⟩
          rw [hzero] at hj
          exact absurd hj (Nat.not_lt_zero j)
        · exact hfalse.elim

end Reads

/-- A block at the start of a line. -/
theorem block_invalidated :
    Invalidated ⟨true, 0x96000000, 512⟩ 0xC00 (.iocRead 0 0x1000 1) :=
  (invalidated_iff ⟨true, 0x96000000, 512⟩ rfl 0xC00 (.ioc 0 0x1000 1) (by decide)).mpr
    (.inr ⟨by decide, by decide⟩)

/-- `_fb_read` leaves old lines in the cache. -/
theorem frame_not_invalidated :
    ¬ ∀ (plat : Platform) (config : Word) (read : DeviceRead), plat.noHardCc = true →
      (read.call.run plat).1 = 0 → Invalidated plat config read.call := by
  intro hall
  obtain ⟨fuel, addrs, hreturns, hbytes⟩ :=
    hall ⟨true, 0x96000000, 512⟩ 0xC00 (.fb 0 0 0x1000 64) rfl (by decide)
  rw [DeviceRead.call, Call.run, invalidations_fbRead (by decide)] at hreturns
  cases hreturns
  obtain ⟨a, ha, -⟩ := hbytes 0 (by decide)
  cases ha

end SmcTp.Giet
