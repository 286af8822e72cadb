import Mathlib.Data.Nat.Find
import Mathlib.Logic.Function.Iterate
import SmcTp.Mapping.Cacheability

/-!
# Masks

`AddressMaskingTable` and `AddressDecodingTable` are constructed from a mask in the same
way: a loop counts the zeros at its end, a second one the ones above them, and an assertion
says that the two counts give the mask back.

*Loops.*  `whileLoop` is bounded by the tests of its condition, and `whileLoop_eq_some_iff`
says what it comes to.  The loops of the constructors end with the `LowestRun` of the mask,
which the mask 0 does not have.

*Sizes.*  The constructor of the decoding table allocates before it asserts.  So the two
classes differ on the masks of 31 ones, and both fail on the mask of all ones, for which
`1 << 32` is taken to be 1.  They decompose all other masks (`decomposes_iff`).
-/

namespace SmcTp.Mapping

open Programs

/-! ## Loops -/

/-- `while (cond s) s = step s`, for at most so many tests of `cond`. -/
def whileLoop {σ : Type} (cond : σ → Bool) (step : σ → σ) : Nat → σ → Option σ
  | 0, _ => none
  | n + 1, s => if cond s then whileLoop cond step n (step s) else some s

/-- A loop comes to the first state that fails the test. -/
theorem whileLoop_eq_some_iff {σ : Type} {cond : σ → Bool} {step : σ → σ} {fuel : Nat}
    {s r : σ} :
    whileLoop cond step fuel s = some r ↔
      ∃ n < fuel, step^[n] s = r ∧ (∀ i < n, cond (step^[i] s) = true) ∧ cond r = false := by
  induction fuel generalizing s with
  | zero => simp [whileLoop]
  | succ fuel ih =>
      rw [whileLoop]
      cases hcond : cond s with
      | false =>
          rw [if_neg Bool.false_ne_true, Option.some_inj]
          constructor
          · rintro rfl
            exact ⟨0, Nat.succ_pos fuel, rfl, fun i hi => absurd hi (Nat.not_lt_zero i), hcond⟩
          · rintro ⟨n, -, hr, hbefore, -⟩
            cases n with
            | zero => exact hr
            | succ n =>
                have hfirst := hbefore 0 (Nat.succ_pos n)
                rw [Function.iterate_zero, id, hcond] at hfirst
                cases hfirst
      | true =>
          rw [if_pos rfl, ih]
          constructor
          · rintro ⟨n, hn, hr, hbefore, hstop⟩
            refine ⟨n + 1, Nat.succ_lt_succ hn, hr, fun i hi => ?_, hstop⟩
            cases i with
            | zero => exact hcond
            | succ i => exact hbefore i (Nat.lt_of_succ_lt_succ hi)
          · rintro ⟨n, hn, hr, hbefore, hstop⟩
            cases n with
            | zero =>
                rw [← hr, Function.iterate_zero, id, hcond] at hstop
                cases hstop
            | succ n =>
                exact ⟨n, Nat.lt_of_succ_lt_succ hn, hr,
                  fun i hi => hbefore (i + 1) (Nat.succ_lt_succ hi), hstop⟩

/-! ## The constructors -/

/-- `AddressMaskingTable`. -/
structure AddressMaskingTable where
  useBits : Int
  dropBits : Int
  lowMask : Addr

/-- Count one bit and shift it out of the mask. -/
def shiftOut (s : Nat × Addr) : Nat × Addr := (s.1 + 1, s.2 >>> 1)

/-- The loop over the zeros at the end of a mask. -/
def dropLoop (fuel : Nat) (mask : Addr) : Option (Nat × Addr) :=
  whileLoop (fun s => !s.2.getLsbD 0) shiftOut fuel (0, mask)

/-- The loop over the ones from there. -/
def useLoop (fuel drop : Nat) (m : Addr) : Option (Nat × Addr) :=
  whileLoop (fun s => s.2.getLsbD 0 && s.1 + drop ≤ 32) shiftOut fuel (0, m)

/-- The counts of the ones and of the zeros. -/
def countBits (fuel : Nat) (mask : Addr) : Option (Nat × Nat) :=
  (dropLoop fuel mask).bind fun s => (useLoop fuel s.1 s.2).map fun u => (u.1, s.1)

namespace AddressMaskingTable

/-- `AddressMaskingTable::init`. -/
def init (useBits dropBits : Int) : AddressMaskingTable := ⟨useBits, dropBits, shl1 useBits - 1⟩

/-- `AddressMaskingTable::mask`. -/
def mask (t : AddressMaskingTable) : Addr := t.lowMask <<< (t.dropBits % 32).toNat

/-- `operator[]`. -/
def get (t : AddressMaskingTable) (addr : Addr) : Addr :=
  (addr >>> (t.dropBits % 32).toNat) &&& t.lowMask

/-- `AddressMaskingTable(mask)`. -/
def ofMask (fuel : Nat) (mask : Addr) : Outcome (Exn 64) AddressMaskingTable :=
  match countBits fuel mask with
  | none => .running
  | some (use, drop) =>
      if (init use drop).mask = mask then .returns (init use drop) else .throws .badMask

end AddressMaskingTable

namespace AddressDecodingTable

variable {α : Type}

/-- `AddressDecodingTable::mask`. -/
def mask (t : AddressDecodingTable α) : Addr := t.lowMask <<< (t.dropBits % 32).toNat

/-- `AddressDecodingTable(mask)`, followed by `reset(value)`, in the order of its steps. -/
def construct (fuel : Nat) (mask : Addr) (value : α) : Outcome (Exn 64) (AddressDecodingTable α) :=
  match countBits fuel mask with
  | none => .running
  | some (use, drop) =>
      ofBits use drop value >>= fun t => if t.mask = mask then .returns t else .throws .badMask

end AddressDecodingTable

/-! ## What a mask decomposes into -/

/-- The set bits of the mask form one run. -/
def IsRun (mask : Addr) : Prop := ∃ use drop, Contiguous mask use drop

/-- Both constructors terminate, and their assertions hold if and only if the mask is one
run of ones.  Then the two agree on the counts and extract the bits under the mask. -/
structure Decomposes (mask : Addr) : Prop where
  terminates : ∃ fuel, AddressMaskingTable.ofMask fuel mask ≠ .running ∧
    ∀ {α : Type} (value : α), AddressDecodingTable.construct fuel mask value ≠ .running
  masking : (∃ fuel t, AddressMaskingTable.ofMask fuel mask = .returns t) ↔ IsRun mask
  decoding : ∀ {α : Type} (value : α),
    (∃ fuel t, AddressDecodingTable.construct fuel mask value = .returns t) ↔ IsRun mask
  agree : ∀ {fuel fuel' : Nat} {t : AddressMaskingTable} {α : Type} {value : α}
    {t' : AddressDecodingTable α}, AddressMaskingTable.ofMask fuel mask = .returns t →
      AddressDecodingTable.construct fuel' mask value = .returns t' →
      t.useBits = t'.useBits ∧ t.dropBits = t'.dropBits ∧
        ∀ x, t.get x <<< (t.dropBits % 32).toNat = x &&& mask ∧
          t'.id x <<< (t'.dropBits % 32).toNat = x &&& mask

/-- The lowest ones of a mask, up to the next zero. -/
structure LowestRun (mask : Addr) (use drop : Nat) : Prop where
  pos : 0 < use
  zeros : ∀ i < drop, mask.getLsbD i = false
  ones : ∀ i < use, mask.getLsbD (drop + i) = true
  stop : mask.getLsbD (drop + use) = false

namespace LowestRun

variable {mask : Addr} {use drop use' drop' : Nat}

theorem le (h : LowestRun mask use drop) : drop + use ≤ 32 := by
  have hpos := h.pos
  have hlast := BitVec.lt_of_getLsbD (h.ones (use - 1) (by omega))
  omega

theorem unique (h : LowestRun mask use drop) (h' : LowestRun mask use' drop') :
    use = use' ∧ drop = drop' := by
  have hone := h.ones 0 h.pos
  have hone' := h'.ones 0 h'.pos
  have hdrop : drop = drop' := by
    rcases Nat.lt_trichotomy drop drop' with hlt | heq | hlt
    · rw [Nat.add_zero, h'.zeros drop hlt] at hone
      cases hone
    · exact heq
    · rw [Nat.add_zero, h.zeros drop' hlt] at hone'
      cases hone'
  subst hdrop
  refine ⟨?_, rfl⟩
  rcases Nat.lt_trichotomy use use' with hlt | heq | hlt
  · exact absurd (h'.ones use hlt) (by rw [h.stop]; exact Bool.false_ne_true)
  · exact heq
  · exact absurd (h.ones use' hlt) (by rw [h'.stop]; exact Bool.false_ne_true)

end LowestRun

/-- Up to the top there is room for one run only. -/
theorem LowestRun.contiguous_of_le {mask : Addr} {use drop : Nat} (h : LowestRun mask use drop)
    (hle : 31 ≤ drop + use) : Contiguous mask use drop := by
  refine ⟨h.pos, h.le, fun i => ?_⟩
  rcases Nat.lt_or_ge i drop with hlt | hge
  · rw [h.zeros i hlt, decide_eq_false (by omega)]
  · obtain ⟨j, rfl⟩ := Nat.exists_eq_add_of_le hge
    rcases Nat.lt_trichotomy j use with hlt | rfl | hgt
    · rw [h.ones j hlt, decide_eq_true (by omega)]
    · rw [h.stop, decide_eq_false (by omega)]
    · rw [BitVec.getLsbD_of_ge _ _ (by omega), decide_eq_false (by omega)]

theorem Contiguous.lowestRun {mask : Addr} {use drop : Nat} (h : Contiguous mask use drop) :
    LowestRun mask use drop where
  pos := h.pos
  zeros i hi := by
    rw [h.bits]
    exact decide_eq_false (by omega)
  ones i hi := by
    rw [h.bits]
    exact decide_eq_true (by omega)
  stop := by
    rw [h.bits]
    exact decide_eq_false (by omega)

/-- Every mask but 0 has a lowest run. -/
theorem exists_lowestRun {mask : Addr} (hne : mask ≠ 0) : ∃ use drop, LowestRun mask use drop := by
  have hset : ∃ d, mask.getLsbD d = true := by
    by_contra hnone
    refine hne (BitVec.eq_of_getLsbD_eq fun i _ => ?_)
    rw [Bool.eq_false_iff.mpr fun h => hnone ⟨i, h⟩]
    simp
  have hclear : ∃ u, mask.getLsbD (Nat.find hset + u) = false :=
    ⟨32, BitVec.getLsbD_of_ge _ _ (Nat.le_add_left _ _)⟩
  refine ⟨Nat.find hclear, Nat.find hset, ?_, fun i hi => ?_, fun i hi => ?_, Nat.find_spec hclear⟩
  · refine Nat.pos_of_ne_zero fun hzero => ?_
    have hstop := Nat.find_spec hclear
    rw [hzero, Nat.add_zero, Nat.find_spec hset] at hstop
    cases hstop
  · exact Bool.eq_false_iff.mpr (Nat.find_min hset hi)
  · exact Bool.not_eq_false _ ▸ Nat.find_min hclear hi

/-! ## What the loops count -/

theorem iterate_shiftOut (n k : Nat) (m : Addr) : shiftOut^[n] (k, m) = (k + n, m >>> n) := by
  induction n with
  | zero => simp
  | succ n ih =>
      rw [Function.iterate_succ_apply', ih, shiftOut, ← BitVec.shiftRight_add, Nat.add_assoc]

section Counts

variable {mask : Addr} {use drop fuel : Nat}

theorem LowestRun.countBits_eq (h : LowestRun mask use drop) (hfuel : 33 ≤ fuel) :
    countBits fuel mask = some (use, drop) := by
  have hle := h.le
  have hpos := h.pos
  have hdrop : dropLoop fuel mask = some (drop, mask >>> drop) := by
    refine whileLoop_eq_some_iff.mpr ⟨drop, by omega, ?_, fun i hi => ?_, ?_⟩
    · rw [iterate_shiftOut, Nat.zero_add]
    · rw [iterate_shiftOut, BitVec.getLsbD_ushiftRight, Nat.add_zero, h.zeros i hi]
      rfl
    · rw [BitVec.getLsbD_ushiftRight, h.ones 0 hpos]
      rfl
  have huse : useLoop fuel drop (mask >>> drop) = some (use, mask >>> drop >>> use) := by
    refine whileLoop_eq_some_iff.mpr ⟨use, by omega, ?_, fun i hi => ?_, ?_⟩
    · rw [iterate_shiftOut, Nat.zero_add]
    · rw [iterate_shiftOut, BitVec.getLsbD_ushiftRight, BitVec.getLsbD_ushiftRight, Nat.add_zero,
        h.ones i hi, Bool.true_and, decide_eq_true_eq]
      omega
    · rw [BitVec.getLsbD_ushiftRight, BitVec.getLsbD_ushiftRight, Nat.add_zero, h.stop,
        Bool.false_and]
  rw [countBits, hdrop, Option.bind_some, huse]
  rfl

/-- The counts are those of the lowest run. -/
theorem lowestRun_of_countBits (h : countBits fuel mask = some (use, drop)) :
    LowestRun mask use drop := by
  obtain ⟨⟨d, m⟩, hdrop, hmap⟩ := Option.bind_eq_some_iff.mp h
  obtain ⟨⟨u, m'⟩, huse, heq⟩ := Option.map_eq_some_iff.mp hmap
  obtain ⟨rfl, rfl⟩ := Prod.mk.inj heq
  obtain ⟨n, -, hn, hzeros, hone⟩ := whileLoop_eq_some_iff.mp hdrop
  obtain ⟨n', -, hn', hones, hstop⟩ := whileLoop_eq_some_iff.mp huse
  rw [iterate_shiftOut, Nat.zero_add] at hn hn'
  obtain ⟨rfl, rfl⟩ := Prod.mk.inj hn
  obtain ⟨rfl, rfl⟩ := Prod.mk.inj hn'
  simp only [iterate_shiftOut, BitVec.getLsbD_ushiftRight, Nat.add_zero, Nat.zero_add,
    Bool.not_eq_true', Bool.not_eq_false', Bool.and_eq_true, Bool.and_eq_false_iff,
    decide_eq_true_eq, decide_eq_false_iff_not] at hzeros hone hones hstop
  have hpos : 0 < n' := by
    refine Nat.pos_of_ne_zero fun hzero => ?_
    have hlt := BitVec.lt_of_getLsbD hone
    rcases hstop with hbit | hfar
    · rw [hzero, Nat.add_zero, hone] at hbit
      cases hbit
    · omega
  have hlast := (hones (n' - 1) (by omega)).1
  have hlt := BitVec.lt_of_getLsbD hlast
  refine ⟨hpos, hzeros, fun i hi => (hones i hi).1, ?_⟩
  rcases hstop with hbit | hfar
  · exact hbit
  · omega

/-- The loop over the zeros does not end on the mask 0. -/
theorem countBits_zero (fuel : Nat) : countBits fuel 0 = none := by
  rw [Option.eq_none_iff_forall_not_mem]
  rintro ⟨use, drop⟩ hsome
  have hrun := lowestRun_of_countBits hsome
  have hone := hrun.ones 0 hrun.pos
  exact absurd hone (by simp)

end Counts

/-! ## The mask the counts give back -/

section Mask

variable {mask : Addr} {use drop : Nat}

theorem contiguous_shl (hpos : 0 < use) (hle : drop + use ≤ 32) (huse : use < 32) :
    Contiguous ((shl1 use - 1) <<< drop) use drop := by
  refine ⟨hpos, hle, fun i => ?_⟩
  rw [BitVec.getLsbD_shiftLeft, Contiguous.shl1_eq huse, getLsbD_shl_sub_one huse]
  rcases Nat.lt_or_ge i drop with hlt | hge
  · simp [hlt, Nat.not_le.mpr hlt]
  · have hiff : i - drop < use ↔ i < drop + use := by omega
    by_cases hi : i < 32
    · simp [hi, hge, Nat.not_lt.mpr hge, hiff]
    · have hout : ¬ i < drop + use := by omega
      simp [hi, hout]

/-- The mask of 32 ones is not given back. -/
theorem LowestRun.shl_eq_iff (h : LowestRun mask use drop) :
    (shl1 use - 1) <<< drop = mask ↔ use < 32 ∧ Contiguous mask use drop := by
  have hle := h.le
  constructor
  · intro heq
    have huse : use < 32 := by
      by_contra hge
      obtain rfl : use = 32 := by omega
      have hone := h.ones 0 h.pos
      rw [← heq] at hone
      exact absurd hone (by simp [shl1])
    exact ⟨huse, heq ▸ contiguous_shl h.pos hle huse⟩
  · rintro ⟨huse, hcontiguous⟩
    exact hcontiguous.mask_eq huse

theorem toNat_drop (h : LowestRun mask use drop) : ((drop : Int) % 32).toNat = drop := by
  have hle := h.le
  have hpos := h.pos
  omega

/-- A run is the lowest one. -/
theorem LowestRun.isRun_iff (h : LowestRun mask use drop) :
    IsRun mask ↔ Contiguous mask use drop := by
  refine ⟨fun hrun => ?_, fun hcontiguous => ⟨use, drop, hcontiguous⟩⟩
  obtain ⟨use', drop', hcontiguous⟩ := hrun
  obtain ⟨rfl, rfl⟩ := h.unique hcontiguous.lowestRun
  exact hcontiguous

/-- Shifted down and up again under the low bits, an address keeps the bits under the mask. -/
theorem Contiguous.shift_and_shift (h : Contiguous mask use drop) (huse : use < 32) (x : Addr) :
    ((x >>> drop) &&& (shl1 use - 1)) <<< drop = x &&& mask := by
  apply BitVec.eq_of_getLsbD_eq
  intro i hi
  rw [BitVec.getLsbD_shiftLeft, BitVec.getLsbD_and, BitVec.getLsbD_ushiftRight, shl1_eq huse,
    getLsbD_shl_sub_one huse, BitVec.getLsbD_and, h.bits]
  rcases Nat.lt_or_ge i drop with hlt | hge
  · simp [hlt, Nat.not_le.mpr hlt]
  · have hiff : i - drop < use ↔ i < drop + use := by omega
    simp [hi, hge, Nat.not_lt.mpr hge, Nat.add_sub_cancel' hge, hiff]

end Mask

/-! ## The outcomes of the constructors -/

section Outcomes

variable {mask : Addr} {use drop fuel : Nat} {α : Type} {value : α}

theorem masking_mask (h : LowestRun mask use drop) :
    (AddressMaskingTable.init use drop).mask = (shl1 use - 1) <<< drop := by
  rw [AddressMaskingTable.mask, AddressMaskingTable.init, toNat_drop h]

/-- The masking table of a mask, if there is one. -/
theorem LowestRun.ofMask_eq_returns_iff (h : LowestRun mask use drop) {t : AddressMaskingTable} :
    (∃ fuel, AddressMaskingTable.ofMask fuel mask = .returns t) ↔
      t = AddressMaskingTable.init use drop ∧ use < 32 ∧ Contiguous mask use drop := by
  rw [← h.shl_eq_iff, ← masking_mask h]
  constructor
  · rintro ⟨fuel, hreturns⟩
    unfold AddressMaskingTable.ofMask at hreturns
    split at hreturns
    next => cases hreturns
    next use' drop' hcounts =>
      obtain ⟨rfl, rfl⟩ := h.unique (lowestRun_of_countBits hcounts)
      split at hreturns
      next hmask =>
        cases hreturns
        exact ⟨rfl, hmask⟩
      next => cases hreturns
  · rintro ⟨rfl, hmask⟩
    refine ⟨33, ?_⟩
    rw [AddressMaskingTable.ofMask, h.countBits_eq (Nat.le_refl 33)]
    exact if_pos hmask

/-- The counts a mapping table takes from its mask are these. -/
theorem LowestRun.maskBits_eq (h : LowestRun mask use drop) :
    maskBits mask = if (shl1 use - 1) <<< drop = mask then some (use, drop) else none := by
  have hle := h.le
  have hone : mask.getLsbD drop = true := h.ones 0 h.pos
  have hdrop : countDrop 33 0 mask = some (0 + drop, mask >>> drop) :=
    countDrop_eq (Nat.lt_succ_of_lt (BitVec.lt_of_getLsbD hone)) h.zeros hone
  have huse : countUse drop 33 0 (mask >>> drop) = 0 + use := countUse_eq (by omega) (by omega)
    (fun i hi => by
      rw [BitVec.getLsbD_ushiftRight]
      exact h.ones i hi)
    (by
      rw [BitVec.getLsbD_ushiftRight]
      exact h.stop)
  rw [maskBits, hdrop]
  simp only [Option.bind_some, Nat.zero_add]
  rw [huse, Nat.zero_add]

/-- Allocating after the assertion, as `getCacheabilityTable` is modelled, makes no
difference. -/
theorem LowestRun.ofMask_eq_construct (h : LowestRun mask use drop) :
    AddressDecodingTable.ofMask mask value = AddressDecodingTable.construct 33 mask value := by
  have hle := h.le
  rw [AddressDecodingTable.ofMask, AddressDecodingTable.construct, h.maskBits_eq,
    h.countBits_eq (Nat.le_refl 33)]
  by_cases hmask : (shl1 use - 1) <<< drop = mask
  · rw [if_pos hmask]
    show AddressDecodingTable.ofBits use drop value =
      AddressDecodingTable.ofBits use drop value >>= _
    cases hmsb : (shl1 use).msb with
    | true =>
        rw [AddressDecodingTable.ofBits, hmsb]
        rfl
    | false =>
        rw [MappingTable.ofBits_eq hmsb, Outcome.returns_bind, AddressDecodingTable.mask,
          toNat_drop h]
        exact (if_pos hmask).symm
  · rw [if_neg hmask]
    show Outcome.throws .badMask = AddressDecodingTable.ofBits use drop value >>= _
    have hmsb : (shl1 use).msb = false := by
      rcases Nat.lt_or_ge use 32 with hlt | hge
      · rw [Bool.eq_false_iff, Ne, MappingTable.msb_shl1_iff hlt]
        intro h31
        exact hmask (h.shl_eq_iff.mpr ⟨hlt, h.contiguous_of_le (by omega)⟩)
      · obtain rfl : use = 32 := by omega
        rfl
    rw [MappingTable.ofBits_eq hmsb, Outcome.returns_bind, AddressDecodingTable.mask, toNat_drop h]
    exact (if_neg hmask).symm

/-- The decoding table of a mask, if there is one. -/
theorem LowestRun.construct_eq_returns_iff (h : LowestRun mask use drop)
    {t : AddressDecodingTable α} :
    (∃ fuel, AddressDecodingTable.construct fuel mask value = .returns t) ↔
      t = ⟨use, drop, shl1 use - 1, fun _ => value⟩ ∧ use < 31 ∧ Contiguous mask use drop := by
  have hmask : (⟨use, drop, shl1 use - 1, fun _ => value⟩ : AddressDecodingTable α).mask =
      (shl1 use - 1) <<< drop := by
    rw [AddressDecodingTable.mask, toNat_drop h]
  constructor
  · rintro ⟨fuel, hreturns⟩
    unfold AddressDecodingTable.construct at hreturns
    split at hreturns
    next => cases hreturns
    next use' drop' hcounts =>
      obtain ⟨rfl, rfl⟩ := h.unique (lowestRun_of_countBits hcounts)
      cases hmsb : (shl1 use).msb with
      | true =>
          rw [AddressDecodingTable.ofBits, hmsb] at hreturns
          cases hreturns
      | false =>
          rw [MappingTable.ofBits_eq hmsb, Outcome.returns_bind, hmask] at hreturns
          split at hreturns
          next heq =>
            cases hreturns
            obtain ⟨huse, hcontiguous⟩ := h.shl_eq_iff.mp heq
            refine ⟨rfl, ?_, hcontiguous⟩
            have hne : use ≠ 31 := fun h31 => by
              rw [(MappingTable.msb_shl1_iff huse).mpr h31] at hmsb
              cases hmsb
            omega
          next => cases hreturns
  · rintro ⟨rfl, huse, hcontiguous⟩
    have hmsb : (shl1 use).msb = false := by
      rw [Bool.eq_false_iff, Ne, MappingTable.msb_shl1_iff (by omega)]
      omega
    refine ⟨33, ?_⟩
    rw [← h.ofMask_eq_construct, AddressDecodingTable.ofMask, h.maskBits_eq,
      if_pos (h.shl_eq_iff.mpr ⟨by omega, hcontiguous⟩)]
    exact MappingTable.ofBits_eq hmsb

theorem LowestRun.terminates (h : LowestRun mask use drop) :
    AddressMaskingTable.ofMask 33 mask ≠ .running ∧
      ∀ {α : Type} (value : α), AddressDecodingTable.construct 33 mask value ≠ .running := by
  have hcounts := h.countBits_eq (Nat.le_refl 33)
  refine ⟨?_, fun value => ?_⟩
  · rw [AddressMaskingTable.ofMask, hcounts]
    show (if _ then _ else _) ≠ _
    split <;> simp
  · rw [AddressDecodingTable.construct, hcounts]
    refine Outcome.bind_ne_running ?_ fun t _ => ?_
    · unfold AddressDecodingTable.ofBits
      split <;> simp
    · split <;> simp

end Outcomes

/-! ## When a mask decomposes -/

/-- The masks with a lowest run decompose unless it is a run of 31 or 32. -/
theorem LowestRun.decomposes_iff_lt {mask : Addr} {use drop : Nat} (h : LowestRun mask use drop) :
    Decomposes mask ↔ (Contiguous mask use drop → use < 31) := by
  have hmasking : (∃ fuel t, AddressMaskingTable.ofMask fuel mask = .returns t) ↔
      use < 32 ∧ Contiguous mask use drop := by
    rw [exists_comm]
    simp only [h.ofMask_eq_returns_iff, exists_eq_left]
  have hdecoding : ∀ {α : Type} (value : α),
      (∃ fuel t, AddressDecodingTable.construct fuel mask value = .returns t) ↔
        use < 31 ∧ Contiguous mask use drop := by
    intro α value
    rw [exists_comm]
    simp only [h.construct_eq_returns_iff, exists_eq_left]
  constructor
  · intro hdec hcontiguous
    exact ((hdecoding ()).mp ((hdec.decoding ()).mpr (h.isRun_iff.mpr hcontiguous))).1
  · intro huse
    refine ⟨⟨33, h.terminates⟩, ?_, fun value => ?_, ?_⟩
    · rw [hmasking, h.isRun_iff]
      exact ⟨And.right, fun hcontiguous => ⟨Nat.lt_succ_of_lt (huse hcontiguous), hcontiguous⟩⟩
    · rw [hdecoding, h.isRun_iff]
      exact ⟨And.right, fun hcontiguous => ⟨huse hcontiguous, hcontiguous⟩⟩
    · intro fuel fuel' t α value t' ht ht'
      obtain ⟨rfl, hlt, hcontiguous⟩ := h.ofMask_eq_returns_iff.mp ⟨fuel, ht⟩
      obtain ⟨rfl, -, -⟩ := h.construct_eq_returns_iff.mp ⟨fuel', ht'⟩
      refine ⟨rfl, rfl, fun x => ?_⟩
      have hshift := hcontiguous.shift_and_shift hlt x
      simp only [AddressMaskingTable.get, AddressMaskingTable.init, AddressDecodingTable.id,
        toNat_drop h]
      exact ⟨hshift, hshift⟩

/-- Two runs of the same bits are one mask. -/
theorem Contiguous.eq {mask mask' : Addr} {use drop : Nat} (h : Contiguous mask use drop)
    (h' : Contiguous mask' use drop) : mask = mask' := by
  apply BitVec.eq_of_getLsbD_eq
  intro i _
  rw [h.bits, h'.bits]

/-- The masks of 31 or 32 ones. -/
theorem exists_run_ge_iff {mask : Addr} :
    (∃ use drop, 31 ≤ use ∧ Contiguous mask use drop) ↔
      mask = 0xFFFFFFFF ∨ mask = 0x7FFFFFFF ∨ mask = 0xFFFFFFFE := by
  have hall : Contiguous 0xFFFFFFFF 32 0 :=
    MappingTable.contiguous_of_lt (by decide) (by decide) (by decide)
  have hlow : Contiguous 0x7FFFFFFF 31 0 :=
    MappingTable.contiguous_of_lt (by decide) (by decide) (by decide)
  have hhigh : Contiguous 0xFFFFFFFE 31 1 :=
    MappingTable.contiguous_of_lt (by decide) (by decide) (by decide)
  constructor
  · rintro ⟨use, drop, hge, hcontiguous⟩
    have hle := hcontiguous.le
    obtain ⟨rfl, rfl⟩ | ⟨rfl, rfl⟩ | ⟨rfl, rfl⟩ : use = 32 ∧ drop = 0 ∨ use = 31 ∧ drop = 0 ∨
        use = 31 ∧ drop = 1 := by omega
    · exact .inl (hcontiguous.eq hall)
    · exact .inr (.inl (hcontiguous.eq hlow))
    · exact .inr (.inr (hcontiguous.eq hhigh))
  · rintro (rfl | rfl | rfl)
    · exact ⟨32, 0, by decide, hall⟩
    · exact ⟨31, 0, Nat.le_refl 31, hlow⟩
    · exact ⟨31, 1, Nat.le_refl 31, hhigh⟩

/-- The mask 0 has no bit to stop at. -/
theorem not_decomposes_zero : ¬ Decomposes 0 := by
  intro hdec
  obtain ⟨fuel, hmasking, -⟩ := hdec.terminates
  exact hmasking (by rw [AddressMaskingTable.ofMask, countBits_zero])

/-- The constructors decompose all masks but four: no ones, 32 ones and the two with 31
ones in a run. -/
theorem decomposes_iff (mask : Addr) :
    Decomposes mask ↔
      mask ≠ 0 ∧ mask ≠ 0xFFFFFFFF ∧ mask ≠ 0x7FFFFFFF ∧ mask ≠ 0xFFFFFFFE := by
  rcases Classical.em (mask = 0) with rfl | hne
  · exact ⟨fun hdec => absurd hdec not_decomposes_zero, fun h => absurd rfl h.1⟩
  obtain ⟨use, drop, hrun⟩ := exists_lowestRun hne
  have hlong : (Contiguous mask use drop → use < 31) ↔
      ¬ ∃ use drop, 31 ≤ use ∧ Contiguous mask use drop := by
    constructor
    · rintro hlt ⟨use', drop', hge, hcontiguous⟩
      obtain ⟨rfl, rfl⟩ := hrun.unique hcontiguous.lowestRun
      exact absurd (hlt hcontiguous) (Nat.not_lt.mpr hge)
    · intro hnone hcontiguous
      exact Nat.lt_of_not_le fun hge => hnone ⟨use, drop, hge, hcontiguous⟩
  rw [hrun.decomposes_iff_lt, hlong, exists_run_ge_iff, not_or, not_or]
  exact ⟨fun h => ⟨hne, h⟩, And.right⟩

/-- All ones are one run, but the assertion fails. -/
theorem all_ones_not_decomposes : ¬ Decomposes 0xFFFFFFFF := by
  have hall : Contiguous 0xFFFFFFFF 32 0 :=
    MappingTable.contiguous_of_lt (by decide) (by decide) (by decide)
  rw [hall.lowestRun.decomposes_iff_lt]
  intro hlt
  exact absurd (hlt hall) (by decide)

end SmcTp.Mapping
