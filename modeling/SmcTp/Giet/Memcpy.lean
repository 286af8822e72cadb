import SmcTp.Giet.Drivers
import SmcTp.Programs.ForwardCopy

/-!
# The copy of the GIET

`memcpy` copies words as long as both pointers are aligned and there are four bytes left, and
bytes then.  `memcpy_eq_copy` says that the words make no difference: two aligned ranges
never overlap by a part of a word.

The drivers of the frame buffer that do without the DMA are calls of `memcpy` in a memory
where the frame buffer has its addresses.  The frame buffer is memory like any other here: a
load gives what has been stored last, and no store changes another byte.
-/

namespace SmcTp.Giet

open Programs.ForwardCopy

/-- The bytes of the address space. -/
abbrev Bytes := Word → BitVec 8

/-- A load of a word.  The processor is little-endian. -/
def loadWord (m : Bytes) (a : Word) : Word := m (a + 3) ++ m (a + 2) ++ m (a + 1) ++ m a

/-- A store of a word. -/
def storeWord (m : Bytes) (a v : Word) : Bytes :=
  Function.update (Function.update (Function.update (Function.update m
    a (v.extractLsb' 0 8)) (a + 1) (v.extractLsb' 8 8)) (a + 2) (v.extractLsb' 16 8))
    (a + 3) (v.extractLsb' 24 8)

/-- The variables of `memcpy`. -/
structure Copying where
  mem : Bytes
  dst : Word
  src : Word
  size : Word

namespace Copying

/-- `while (size > 3) { *dst++ = *src++; size -= 4; }` -/
def words (s : Copying) : Copying :=
  if 3 < s.size then
    words ⟨storeWord s.mem s.dst (loadWord s.mem s.src), s.dst + 4, s.src + 4, s.size - 4⟩
  else s
termination_by s.size.toNat
decreasing_by bv_omega

/-- `while (size--) { *cdst++ = *csrc++; }` -/
def bytes (s : Copying) : Bytes :=
  if s.size = 0 then s.mem
  else bytes ⟨Function.update s.mem s.dst (s.mem s.src), s.dst + 1, s.src + 1, s.size - 1⟩
termination_by s.size.toNat
decreasing_by bv_omega

end Copying

/-- `memcpy` -/
def memcpy (m : Bytes) (dst src size : Word) : Bytes :=
  if dst &&& 3 = 0 ∧ src &&& 3 = 0 then (Copying.words ⟨m, dst, src, size⟩).bytes
  else Copying.bytes ⟨m, dst, src, size⟩

/-! ## What it copies -/

section Copy

variable {m : Bytes} {a dst src : Word}

theorem bytes_eq_copy (s : Copying) : s.bytes = copy s.mem s.dst s.src s.size.toNat := by
  induction s using Copying.bytes.induct with
  | case1 s hzero => rw [Copying.bytes, if_pos hzero, hzero]; rfl
  | case2 s hne ih =>
      have hsize : s.size.toNat = (s.size - 1).toNat + 1 := by bv_omega
      rw [Copying.bytes, if_neg hne, ih, hsize, copy]

/-- The bytes of a word. -/
theorem extractLsb'_word (x₃ x₂ x₁ x₀ : BitVec 8) :
    (x₃ ++ x₂ ++ x₁ ++ x₀).extractLsb' 0 8 = x₀ ∧ (x₃ ++ x₂ ++ x₁ ++ x₀).extractLsb' 8 8 = x₁ ∧
      (x₃ ++ x₂ ++ x₁ ++ x₀).extractLsb' 16 8 = x₂ ∧
      (x₃ ++ x₂ ++ x₁ ++ x₀).extractLsb' 24 8 = x₃ := by
  refine ⟨BitVec.extractLsb'_append_eq_right, ?_, ?_, ?_⟩
  · rw [BitVec.extractLsb'_append_eq_of_le (by decide)]
    exact BitVec.extractLsb'_append_eq_right
  · rw [BitVec.extractLsb'_append_eq_of_le (by decide),
      BitVec.extractLsb'_append_eq_of_le (by decide)]
    exact BitVec.extractLsb'_append_eq_right
  · rw [BitVec.extractLsb'_append_eq_of_le (by decide),
      BitVec.extractLsb'_append_eq_of_le (by decide),
      BitVec.extractLsb'_append_eq_of_le (by decide)]
    exact BitVec.extractLsb'_eq_self

/-- A word that is loaded and stored is moved as four bytes at once. -/
theorem storeWord_loadWord : storeWord m dst (loadWord m src) = move m dst src 4 := by
  funext a
  obtain ⟨h₀, h₁, h₂, h₃⟩ := extractLsb'_word (m (src + 3)) (m (src + 2)) (m (src + 1)) (m src)
  have hbytes : storeWord m dst (loadWord m src) = Function.update (Function.update
      (Function.update (Function.update m dst (m src)) (dst + 1) (m (src + 1))) (dst + 2)
      (m (src + 2))) (dst + 3) (m (src + 3)) := by
    unfold storeWord loadWord
    rw [h₀, h₁, h₂, h₃]
  have hsplit : a = dst + 3 ∨ a = dst + 2 ∨ a = dst + 1 ∨ a = dst ∨ ¬ (a - dst).toNat < 4 := by
    bv_omega
  have hmove : ∀ k : Word, k.toNat < 4 → move m dst src 4 (dst + k) = m (src + k) := by
    intro k hk
    have hsub : dst + k - dst = k := by rw [BitVec.add_comm, BitVec.add_sub_cancel]
    rw [move, hsub, if_pos hk]
  rw [hbytes]
  rcases hsplit with rfl | rfl | rfl | rfl | hout
  · rw [Function.update_self, hmove 3 (by decide)]
  · rw [Function.update_of_ne (by grind), Function.update_self, hmove 2 (by decide)]
  · rw [Function.update_of_ne (by grind), Function.update_of_ne (by grind), Function.update_self,
      hmove 1 (by decide)]
  · rw [Function.update_of_ne (by grind), Function.update_of_ne (by grind),
      Function.update_of_ne (by grind), Function.update_self]
    simpa using (hmove 0 (by decide)).symm
  · rw [move, if_neg hout, Function.update_of_ne, Function.update_of_ne, Function.update_of_ne,
      Function.update_of_ne]
    all_goals
      rintro rfl
      exact hout (by bv_omega)

theorem aligned_iff (a : Word) : a &&& 3 = 0 ↔ a.toNat % 4 = 0 := by
  rw [← BitVec.toNat_inj, BitVec.toNat_and]
  exact iff_of_eq (congrArg (· = 0) (Nat.and_two_pow_sub_one_eq_mod a.toNat 2))

/-- Aligned words are the same or apart. -/
theorem aligned_apart (hdst : dst &&& 3 = 0) (hsrc : src &&& 3 = 0) :
    dst = src ∨ 4 ≤ (dst - src).toNat := by
  rw [aligned_iff] at hdst hsrc
  bv_omega

/-- Copying words first is copying bytes. -/
theorem words_copy (s : Copying) (hdst : s.dst &&& 3 = 0) (hsrc : s.src &&& 3 = 0) :
    copy s.words.mem s.words.dst s.words.src s.words.size.toNat =
      copy s.mem s.dst s.src s.size.toNat := by
  induction s using Copying.words.induct with
  | case1 s hsize ih =>
      have hnext : ∀ p : Word, p &&& 3 = 0 → (p + 4) &&& 3 = 0 := by
        intro p hp
        rw [aligned_iff] at hp ⊢
        bv_omega
      have hfour : copy s.mem s.dst s.src 4 = move s.mem s.dst s.src 4 :=
        copy_eq_move (by decide) (aligned_apart hdst hsrc)
      have hsplit : s.size.toNat = 4 + (s.size - 4).toNat := by bv_omega
      rw [Copying.words, if_pos hsize, ih (hnext _ hdst) (hnext _ hsrc), hsplit, copy_add, hfour,
        ← storeWord_loadWord]
      rfl
  | case2 s hsize => rw [Copying.words, if_neg hsize]

/-- `memcpy` copies byte by byte. -/
theorem memcpy_eq_copy (m : Bytes) (dst src size : Word) :
    memcpy m dst src size = copy m dst src size.toNat := by
  unfold memcpy
  split_ifs with haligned
  · rw [bytes_eq_copy, words_copy _ haligned.1 haligned.2]
  · rw [bytes_eq_copy]

/-- What `memcpy` copies, for any two ranges: where the destination begins `d` bytes behind
the source, the first `d` bytes are repeated.  No other byte is written. -/
theorem memcpy_copies (m : Bytes) (dst src size : Word) :
    (∀ i < size.toNat, memcpy m dst src size (dst + BitVec.ofNat 32 i) =
        m (src + BitVec.ofNat 32 (i % (dst - src).toNat))) ∧
      ∀ a, (∀ i < size.toNat, dst + BitVec.ofNat 32 i ≠ a) → memcpy m dst src size a = m a := by
  rw [memcpy_eq_copy]
  exact ⟨fun i hi => copy_at (Nat.le_of_lt size.isLt) hi, fun a ha => copy_of_out ha⟩

/-- Two ranges without a common byte. -/
theorem memcpy_of_apart {size : Word} (h : size.toNat ≤ (dst - src).toNat) (m : Bytes) {i : Nat}
    (hi : i < size.toNat) :
    memcpy m dst src size (dst + BitVec.ofNat 32 i) = m (src + BitVec.ofNat 32 i) := by
  rw [memcpy_eq_copy, copy_at (Nat.le_of_lt size.isLt) hi,
    Nat.mod_eq_of_lt (Nat.lt_of_lt_of_le hi h)]

end Copy

/-! ## The frame buffer -/

section FrameBuffer

variable {plat : Platform} {offset src dst length : Word}

/-- What the copies among the actions of a driver do to the memory. -/
def copies (m : Bytes) : List Action → Bytes
  | [] => m
  | .copy dst src length :: actions => copies (memcpy m dst src length) actions
  | _ :: actions => copies m actions

/-- The bytes of the frame buffer that a call uses, none of which is in user space. -/
def InFrameBuffer (plat : Platform) (offset length : Word) : Prop :=
  ∀ i < length.toNat, 0x80000000 ≤ (plat.segFbBase + offset).toNat + i ∧
    (plat.segFbBase + offset).toNat + i < 0x100000000

theorem fbSyncWrite_copies (h : (fbSyncWrite plat offset src length).1 = 0) (m : Bytes) :
    copies m (fbSyncWrite plat offset src length).2 =
      memcpy m (plat.segFbBase + offset) src length := by
  unfold fbSyncWrite checked at h ⊢
  split_ifs at h ⊢
  · cases h
  · rfl

theorem fbSyncRead_copies (h : (fbSyncRead plat offset dst length).1 = 0) (m : Bytes) :
    copies m (fbSyncRead plat offset dst length).2 =
      memcpy m dst (plat.segFbBase + offset) length := by
  unfold fbSyncRead checked at h ⊢
  split_ifs at h ⊢
  · cases h
  · rfl

/-- User space and the frame buffer are apart. -/
theorem apart_of_inFrameBuffer (hfb : InFrameBuffer plat offset length)
    (huser : ∀ i < length.toNat, src.toNat + i < 0x80000000) :
    length.toNat ≤ (plat.segFbBase + offset - src).toNat ∧
      length.toNat ≤ (src - (plat.segFbBase + offset)).toNat := by
  unfold InFrameBuffer at hfb
  generalize plat.segFbBase + offset = base at hfb
  rcases Nat.eq_zero_or_pos length.toNat with hzero | hpos
  · rw [hzero]
    exact ⟨Nat.zero_le _, Nat.zero_le _⟩
  · have hfirst := hfb 0 hpos
    have hlast := hfb (length.toNat - 1) (by omega)
    have huser := huser (length.toNat - 1) (by omega)
    constructor
    · bv_omega
    · bv_omega

/-- What a buffer has been written with into the frame buffer is read back into any buffer,
and no byte but those of the frame buffer and of this buffer is changed. -/
theorem fbSync_round_trip (m : Bytes) (hwrite : (fbSyncWrite plat offset src length).1 = 0)
    (hread : (fbSyncRead plat offset dst length).1 = 0)
    (hsrc : (Call.fbSyncWrite offset src length).InUserSpace plat)
    (hdst : (Call.fbSyncRead offset dst length).InUserSpace plat)
    (hfb : InFrameBuffer plat offset length) :
    let after := copies (copies m (fbSyncWrite plat offset src length).2)
      (fbSyncRead plat offset dst length).2
    (∀ i < length.toNat, after (dst + BitVec.ofNat 32 i) = m (src + BitVec.ofNat 32 i)) ∧
      ∀ a, (∀ i < length.toNat, dst + BitVec.ofNat 32 i ≠ a) →
        (∀ i < length.toNat, plat.segFbBase + offset + BitVec.ofNat 32 i ≠ a) → after a = m a := by
  intro after
  have hafter : after = memcpy (memcpy m (plat.segFbBase + offset) src length) dst
      (plat.segFbBase + offset) length := by
    unfold after
    rw [fbSyncRead_copies hread, fbSyncWrite_copies hwrite]
  rw [hafter]
  have hapart : length.toNat ≤ (plat.segFbBase + offset - src).toNat :=
    (apart_of_inFrameBuffer hfb hsrc).1
  have hapart' : length.toNat ≤ (dst - (plat.segFbBase + offset)).toNat :=
    (apart_of_inFrameBuffer hfb hdst).2
  constructor
  · intro i hi
    rw [memcpy_of_apart hapart' _ hi, memcpy_of_apart hapart _ hi]
  · intro a hout houtfb
    rw [memcpy_eq_copy, copy_of_out hout, memcpy_eq_copy, copy_of_out houtfb]

/-- A memory in which every byte shows its address. -/
def ramp : Bytes := fun a => a.setWidth 8

/-- A line of a picture, in the middle of the frame buffer. -/
theorem fbSync_round_trip_line :
    let after := copies (copies ramp (fbSyncWrite ⟨false, 0x96000000, 512⟩ 256 0x1000 128).2)
      (fbSyncRead ⟨false, 0x96000000, 512⟩ 256 0x1040 128).2
    (∀ i < 128, after (0x1040 + BitVec.ofNat 32 i) = ramp (0x1000 + BitVec.ofNat 32 i)) ∧
      ∀ a, (∀ i < 128, 0x1040 + BitVec.ofNat 32 i ≠ a) →
        (∀ i < 128, 0x96000000 + 256 + BitVec.ofNat 32 i ≠ a) → after a = ramp a := by
  have hwrite : (fbSyncWrite ⟨false, 0x96000000, 512⟩ 256 0x1000 128).1 = 0 := by decide
  have hread : (fbSyncRead ⟨false, 0x96000000, 512⟩ 256 0x1040 128).1 = 0 := by decide
  refine fbSync_round_trip ramp hwrite hread (fun i hi => ?_) (fun i hi => ?_) fun i hi => ?_
  · change i < 128 at hi
    change 0x1000 + i < 0x80000000
    omega
  · change i < 128 at hi
    change 0x1040 + i < 0x80000000
    omega
  · change i < 128 at hi
    change 0x80000000 ≤ 0x96000100 + i ∧ 0x96000100 + i < 0x100000000
    omega

end FrameBuffer

end SmcTp.Giet
