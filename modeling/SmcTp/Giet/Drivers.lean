import Mathlib.Tactic.Common

/-!
# The drivers of the GIET

The drivers of the block device and of the frame buffer are system calls.  Each of them
checks that the buffer of the caller lies in user space and then works: it takes the
device, programs its registers, or copies.  `Action` lists what is done, in order.

*The check.*  A buffer must start and end below `0x80000000`.  The end is computed modulo
`2^32`, and for the block device the number of bytes is a product modulo `2^32`, so a
transfer so large that its end comes round is let through.  `check_sound_iff` says which
calls are sound: all but these.
-/

namespace SmcTp.Giet

/-- `unsigned int`. -/
abbrev Word := BitVec 32

/-- `enum IOC_registers`, those the drivers use. -/
inductive IocReg where
  | buffer
  | lba
  | count
  | op
  | status
  | irqEnable
  | blockSize
deriving DecidableEq, Repr

/-- `enum DMA_registers`. -/
inductive DmaReg where
  | src
  | dst
  | len
  | reset
  | irqDisable
deriving DecidableEq, Repr

namespace IocOp

/-- `BLOCK_DEVICE_READ`. -/
def read : Word := 1
/-- `BLOCK_DEVICE_WRITE`. -/
def write : Word := 2

end IocOp

/-- What a driver does once its check has passed. -/
inductive Action where
  /-- `_ioc_get_lock`, blocking. -/
  | getIocLock
  /-- `_dcache_buf_invalidate`. -/
  | invalidate (buffer size : Word)
  | setIoc (reg : IocReg) (value : Word)
  /-- The wait for `_dma_busy[proc_id]`, which is then set. -/
  | getDma (procId : Word)
  | setDma (procId : Word) (reg : DmaReg) (value : Word)
  /-- `memcpy`. -/
  | copy (dst src length : Word)
deriving DecidableEq, Repr

/-- The constants of a platform. -/
structure Platform where
  /-- `NO_HARD_CC`. -/
  noHardCc : Bool
  segFbBase : Word
  /-- `BLOCK_DEVICE_BLOCK_SIZE`, as the device reports it. -/
  blockSize : Word
deriving DecidableEq, Repr

/-- The parameter check of the drivers: 1 on an error, and then nothing is done. -/
def checked (buffer size : Word) (actions : List Action) : Word × List Action :=
  if 0x80000000 ≤ buffer ∨ 0x80000000 ≤ buffer + size then (1, []) else (0, actions)

section Drivers

variable (plat : Platform)

/-- `_ioc_write`. -/
def iocWrite (lba buffer count : Word) : Word × List Action :=
  checked buffer (plat.blockSize * count)
    [.getIocLock, .setIoc .buffer buffer, .setIoc .count count, .setIoc .lba lba,
      .setIoc .irqEnable 1, .setIoc .op IocOp.write]

/-- `_ioc_read`. -/
def iocRead (lba buffer count : Word) : Word × List Action :=
  checked buffer (plat.blockSize * count)
    (.getIocLock :: (if plat.noHardCc then [.invalidate buffer (plat.blockSize * count)] else []) ++
      [.setIoc .buffer buffer, .setIoc .count count, .setIoc .lba lba, .setIoc .irqEnable 1,
        .setIoc .op IocOp.read])

/-- `_fb_sync_write`. -/
def fbSyncWrite (offset buffer length : Word) : Word × List Action :=
  checked buffer length [.copy (plat.segFbBase + offset) buffer length]

/-- `_fb_sync_read`. -/
def fbSyncRead (offset buffer length : Word) : Word × List Action :=
  checked buffer length [.copy buffer (plat.segFbBase + offset) length]

/-- `_fb_write`, on the processor `procId`. -/
def fbWrite (procId offset buffer length : Word) : Word × List Action :=
  checked buffer length
    [.getDma procId, .setDma procId .irqDisable 0, .setDma procId .src buffer,
      .setDma procId .dst (plat.segFbBase + offset), .setDma procId .len length]

/-- `_fb_read`, on the processor `procId`. -/
def fbRead (procId offset buffer length : Word) : Word × List Action :=
  checked buffer length
    [.getDma procId, .setDma procId .irqDisable 0, .setDma procId .src (plat.segFbBase + offset),
      .setDma procId .dst buffer, .setDma procId .len length]

end Drivers

/-- A call of one of the drivers. -/
inductive Call where
  | iocWrite (lba buffer count : Word)
  | iocRead (lba buffer count : Word)
  | fbSyncWrite (offset buffer length : Word)
  | fbSyncRead (offset buffer length : Word)
  | fbWrite (procId offset buffer length : Word)
  | fbRead (procId offset buffer length : Word)
deriving DecidableEq, Repr

namespace Call

/-- The value returned and what is done. -/
def run (plat : Platform) : Call → Word × List Action
  | .iocWrite lba buffer count => Giet.iocWrite plat lba buffer count
  | .iocRead lba buffer count => Giet.iocRead plat lba buffer count
  | .fbSyncWrite offset buffer length => Giet.fbSyncWrite plat offset buffer length
  | .fbSyncRead offset buffer length => Giet.fbSyncRead plat offset buffer length
  | .fbWrite procId offset buffer length => Giet.fbWrite plat procId offset buffer length
  | .fbRead procId offset buffer length => Giet.fbRead plat procId offset buffer length

/-- The buffer of the caller. -/
def buffer : Call → Word
  | .iocWrite _ buffer _ | .iocRead _ buffer _ | .fbSyncWrite _ buffer _
  | .fbSyncRead _ buffer _ | .fbWrite _ _ buffer _ | .fbRead _ _ buffer _ => buffer

/-- The number of bytes to transfer. -/
def bytes (plat : Platform) : Call → Nat
  | .iocWrite _ _ count | .iocRead _ _ count => plat.blockSize.toNat * count.toNat
  | .fbSyncWrite _ _ length | .fbSyncRead _ _ length
  | .fbWrite _ _ _ length | .fbRead _ _ _ length => length.toNat

/-- Every byte of the transfer lies in user space. -/
def InUserSpace (plat : Platform) (call : Call) : Prop :=
  ∀ k < call.bytes plat, call.buffer.toNat + k < 0x80000000

/-- The end of the buffer does not come round to user space. -/
def NoReturn (plat : Platform) (call : Call) : Prop :=
  0x80000000 ≤ call.buffer.toNat ∨ call.buffer.toNat + call.bytes plat < 0x100000000 ∨
    0x80000000 ≤ (call.buffer.toNat + call.bytes plat) % 0x100000000

instance (plat : Platform) (call : Call) : Decidable (call.NoReturn plat) :=
  inferInstanceAs (Decidable (_ ∨ _))

/-- A call passes when its buffer seems to start and to end in user space. -/
theorem run_eq_zero_iff (plat : Platform) (call : Call) :
    (call.run plat).1 = 0 ↔ call.buffer.toNat < 0x80000000 ∧
      (call.buffer.toNat + call.bytes plat) % 0x100000000 < 0x80000000 := by
  have hchecked : ∀ (buffer size : Word) (actions : List Action),
      (checked buffer size actions).1 = 0 ↔
        buffer.toNat < 0x80000000 ∧ (buffer.toNat + size.toNat) % 0x100000000 < 0x80000000 := by
    intro buffer size actions
    unfold checked
    split
    next herror =>
      rw [BitVec.le_def, BitVec.le_def, BitVec.toNat_add] at herror
      have hbound : (0x80000000 : Word).toNat = 0x80000000 := rfl
      rw [hbound] at herror
      constructor
      · intro h
        cases h
      · rintro ⟨hlo, hhi⟩
        rcases herror with h | h
        · exact absurd hlo (Nat.not_lt.mpr h)
        · exact absurd hhi (Nat.not_lt.mpr h)
    next hpass =>
      rw [BitVec.le_def, BitVec.le_def, BitVec.toNat_add] at hpass
      have hbound : (0x80000000 : Word).toNat = 0x80000000 := rfl
      rw [hbound] at hpass
      exact ⟨fun _ => ⟨Nat.not_le.mp fun h => hpass (.inl h),
        Nat.not_le.mp fun h => hpass (.inr h)⟩, fun _ => rfl⟩
  have hmul : ∀ count : Word, (plat.blockSize * count).toNat =
      plat.blockSize.toNat * count.toNat % 0x100000000 := fun count => BitVec.toNat_mul ..
  cases call with
  | iocWrite lba buffer count =>
      refine (hchecked _ _ _).trans ?_
      rw [hmul, Nat.add_mod_mod]
      rfl
  | iocRead lba buffer count =>
      refine (hchecked _ _ _).trans ?_
      rw [hmul, Nat.add_mod_mod]
      rfl
  | fbSyncWrite offset buffer length => exact hchecked _ _ _
  | fbSyncRead offset buffer length => exact hchecked _ _ _
  | fbWrite procId offset buffer length => exact hchecked _ _ _
  | fbRead procId offset buffer length => exact hchecked _ _ _

/-- A call that returns 0 transfers user bytes only, unless the end of its buffer comes
round to user space. -/
theorem check_sound_iff (plat : Platform) (call : Call) :
    ((call.run plat).1 = 0 → call.InUserSpace plat) ↔ call.NoReturn plat := by
  rw [run_eq_zero_iff, NoReturn]
  generalize hb : call.buffer.toNat = b
  generalize hn : call.bytes plat = n
  constructor
  · intro hsound
    by_contra hwrap
    -- the first byte beyond user space is part of the transfer
    have hbeyond := hsound (by omega) (0x80000000 - b) (by omega)
    omega
  · rintro hnowrap ⟨hlo, hhi⟩ k hk
    omega

/-- A length of almost 4 GiB: the buffer ends at zero. -/
theorem fbWrite_past_user_space :
    ¬ ∀ (plat : Platform) (call : Call), (call.run plat).1 = 0 → call.InUserSpace plat := by
  intro hall
  have hbytes := hall ⟨false, 0x96000000, 512⟩ (.fbWrite 0 0 0x1000 0xFFFFF000) (by decide)
    0x7FFFF000 (by decide)
  exact absurd hbytes (by decide)

end Call

end SmcTp.Giet
