import Mathlib.Algebra.Ring.Nat
import Mathlib.Logic.Function.Basic
import SmcTp.Clocked.Run
import SmcTp.Giet.Boot
import SmcTp.Giet.Memcpy

/-!
# The entry point and the handlers of the GIET

A processor enters the GIET at `_giet`, which jumps through `_cause_vector`: to `_int_handler`
for an interrupt, to `_sys_handler` for a system call, and for the other causes to functions
that do not come back.  The two handlers call functions that a compiler has made,
`_int_demux` and the one of the system call, and return to the program by `eret`.

*The processor.*  The code of `giet.s` is executed instruction by instruction.  The instructions
of programs and of the functions that are called may do anything the calling convention allows
(`Machine.Legal`).  Other processors and the devices write the shared memory.

*Ghosts.*  `Machine.call` and `Machine.trapped` note which function has been called by the
handlers and from where a program has entered the GIET, and `State.interrupted` what was
interrupted.  The processor does not read them.
-/

namespace SmcTp.Giet.Handlers

open Boot (enabled)
open Clocked Programs

/-- The memory. -/
abbrev Mem := Word → Word

/-! ## The code -/

/-- The symbols of the code. -/
inductive Sym where
  | causeVector
  | syscallVector
  | intDemux
deriving DecidableEq, Repr

/-- The coprocessor registers. -/
inductive Cop0 where
  | sr
  | cause
  | epc
deriving DecidableEq, Repr

/-- The instructions. -/
inductive Instr where
  /-- `addiu $d, $s, imm` -/
  | addiu (d s : Nat) (imm : Word)
  /-- `andi $d, $s, imm` -/
  | andi (d s : Nat) (imm : Word)
  /-- `sll $d, $s, n` -/
  | sll (d s n : Nat)
  /-- `addu $d, $s, $t` -/
  | addu (d s t : Nat)
  /-- `and $d, $s, $t` -/
  | and (d s t : Nat)
  /-- `li $d, imm` -/
  | li (d : Nat) (imm : Word)
  /-- `la $d, sym` -/
  | la (d : Nat) (sym : Sym)
  /-- `sw $t, offset($b)` -/
  | sw (t : Nat) (offset : Word) (b : Nat)
  /-- `lw $t, offset($b)` -/
  | lw (t : Nat) (offset : Word) (b : Nat)
  /-- `mfc0 $d, c` -/
  | mfc0 (d : Nat) (c : Cop0)
  /-- `mtc0 $s, c` -/
  | mtc0 (s : Nat) (c : Cop0)
  | mflo (d : Nat)
  | mfhi (d : Nat)
  | mtlo (s : Nat)
  | mthi (s : Nat)
  /-- `jr $s` -/
  | jr (s : Nat)
  /-- `jalr $s` -/
  | jalr (s : Nat)
  | eret
deriving DecidableEq, Repr

/-- `_giet`, up to its `jr`. -/
def gietEntry : List Instr :=
  [.mfc0 27 .cause, .la 26 .causeVector, .andi 27 27 0x3c, .addu 26 26 27, .lw 26 0 26]

/-- `_sys_handler`, up to its `jalr`. -/
def sysSave : List Instr :=
  [.addiu 29 29 (-24), .mfc0 26 .sr, .sw 26 16 29, .mfc0 27 .epc, .addiu 27 27 4, .sw 27 20 29,
    .andi 26 2 0x1F, .sll 26 26 2, .la 27 .syscallVector, .addu 27 27 26, .lw 3 0 27,
    .li 27 0xFFFFFFED, .mfc0 26 .sr, .and 26 26 27, .mtc0 26 .sr]

/-- `_sys_handler`, from the first instruction at which interrupts are disabled again up to its
`eret`. -/
def sysRestore : List Instr :=
  [.lw 26 16 29, .mtc0 26 .sr, .lw 26 20 29, .mtc0 26 .epc, .addiu 29 29 24]

/-- `_sys_handler` -/
def sysHandler : List Instr := sysSave ++ .jalr 3 :: .mtc0 0 .sr :: sysRestore ++ [.eret]

/-- The registers `_int_handler` saves, with the offsets of their words. -/
def saved : List (Nat × Word) :=
  [(1, 16), (2, 20), (3, 24), (4, 28), (5, 32), (6, 36), (7, 40), (8, 44), (9, 48), (10, 52),
    (11, 56), (12, 60), (13, 64), (14, 68), (15, 72), (24, 76), (25, 80), (31, 84)]

/-- `_int_handler`, up to its `jalr`. -/
def intSave : List Instr :=
  .addiu 29 29 (-100) :: (saved.map (fun x => .sw x.1 x.2 29) ++
    [.mflo 26, .sw 26 88 29, .mfhi 26, .sw 26 92 29, .mfc0 27 .epc, .sw 27 96 29, .la 26 .intDemux])

/-- `restore`, up to its `eret`. -/
def intRestore : List Instr :=
  saved.map (fun x => .lw x.1 x.2 29) ++
    [.lw 26 88 29, .mtlo 26, .lw 26 92 29, .mthi 26, .lw 27 96 29, .addiu 29 29 100, .mtc0 27 .epc]

/-- `_int_handler` -/
def intHandler : List Instr := intSave ++ .jalr 26 :: intRestore ++ [.eret]

/-- The code of `giet.s` from `_giet` on, without `_task_switch`. -/
def giet : List Instr := gietEntry ++ .jr 26 :: sysHandler ++ intHandler

/-! ## The registers -/

/-- The registers of the processor. -/
structure Cpu where
  gpr : Nat → Word
  hi : Word
  lo : Word
  sr : Word
  cause : Word
  epc : Word

namespace Cpu

/-- A general register is read.  `$0` is 0. -/
def reg (c : Cpu) (n : Nat) : Word := if n = 0 then 0 else c.gpr n

/-- A general register is written. -/
def set (c : Cpu) (n : Nat) (v : Word) : Cpu := { c with gpr := Function.update c.gpr n v }

/-- A coprocessor register is read. -/
def cop0 (c : Cpu) : Cop0 → Word
  | .sr => c.sr
  | .cause => c.cause
  | .epc => c.epc

/-- A coprocessor register is written. -/
def setCop0 (c : Cpu) (r : Cop0) (v : Word) : Cpu :=
  match r with
  | .sr => { c with sr := v }
  | .cause => { c with cause := v }
  | .epc => { c with epc := v }

@[simp] theorem set_hi (c : Cpu) (n : Nat) (v : Word) : (c.set n v).hi = c.hi := rfl
@[simp] theorem set_lo (c : Cpu) (n : Nat) (v : Word) : (c.set n v).lo = c.lo := rfl
@[simp] theorem set_sr (c : Cpu) (n : Nat) (v : Word) : (c.set n v).sr = c.sr := rfl
@[simp] theorem set_epc (c : Cpu) (n : Nat) (v : Word) : (c.set n v).epc = c.epc := rfl

@[simp] theorem set_gpr (c : Cpu) (n : Nat) (v : Word) : (c.set n v).gpr n = v :=
  Function.update_self ..

@[simp] theorem set_gpr_of_ne (c : Cpu) {n k : Nat} (v : Word) (h : k ≠ n) :
    (c.set n v).gpr k = c.gpr k :=
  Function.update_of_ne h ..

@[simp] theorem setCop0_gpr (c : Cpu) (r : Cop0) (v : Word) : (c.setCop0 r v).gpr = c.gpr := by
  cases r <;> rfl

end Cpu

/-! ## The layout -/

/-- Where the linker puts things, and what the memory is used for. -/
structure Layout where
  /-- The address of an instruction of `giet.s`. -/
  addr : Nat → Word
  addr_zero : addr 0 = 0x80000180
  addr_injective : ∀ j < giet.length, ∀ k < giet.length, addr j = addr k → j = k
  causeVector : Word
  syscallVector : Word
  causeVector_aligned : causeVector &&& 3 = 0
  syscallVector_aligned : syscallVector &&& 3 = 0
  /-- `_int_demux` -/
  intDemux : Word
  /-- `_syscall_vector` -/
  syscall : Word → Word
  /-- `_cause_vector`, for what is neither an interrupt nor a system call. -/
  fault : Word → Word
  /-- The bounds of the stack of the processor. -/
  low : Word
  high : Word
  /-- What others write, and the service routines. -/
  shared : Word → Prop

namespace Layout

/-- The number of the instruction of `giet.s` at an address. -/
def index (lay : Layout) (pc : Word) : Option Nat :=
  (List.range giet.length).find? fun k => lay.addr k = pc

/-- The address of a symbol. -/
def address (lay : Layout) : Sym → Word
  | .causeVector => lay.causeVector
  | .syscallVector => lay.syscallVector
  | .intDemux => lay.intDemux

/-- `_cause_vector`, by the offset of an entry. -/
def cause (lay : Layout) (x : Word) : Word :=
  if x = 0 then lay.addr 29 else if x = 32 then lay.addr 6 else lay.fault x

/-- A word of one of the two vectors. -/
def IsConst (lay : Layout) (a : Word) : Prop :=
  (∃ x : Word, a = lay.causeVector + (x &&& 0x3c)) ∨
    ∃ n : Word, a = lay.syscallVector + (n &&& 0x1F) <<< 2

/-- The two vectors are in the memory. -/
structure Consts (lay : Layout) (m : Mem) : Prop where
  cause : ∀ x : Word, m (lay.causeVector + (x &&& 0x3c)) = lay.cause (x &&& 0x3c)
  syscall : ∀ n : Word, m (lay.syscallVector + (n &&& 0x1F) <<< 2) = lay.syscall (n &&& 0x1F)

/-- The address is in the stack. -/
def Stack (lay : Layout) (a : Word) : Prop := lay.low.toNat ≤ a.toNat ∧ a.toNat < lay.high.toNat

/-- The stack is private, nobody writes the vectors, and functions are not in `giet.s`. -/
structure WellPlaced (lay : Layout) : Prop where
  stack_shared : ∀ a, lay.Stack a → ¬ lay.shared a
  const_shared : ∀ a, lay.IsConst a → ¬ lay.shared a
  const_stack : ∀ a, lay.IsConst a → ¬ lay.Stack a
  intDemux : lay.index lay.intDemux = none
  syscall : ∀ n, lay.index (lay.syscall n) = none
  fault : ∀ x, lay.index (lay.fault x) = none

/-- There is room for `n` bytes on the stack. -/
structure Room (lay : Layout) (n : Nat) (sp : Word) : Prop where
  aligned : sp &&& 3 = 0
  low : lay.low.toNat + n ≤ sp.toNat
  high : sp.toNat ≤ lay.high.toNat

/-- The address is in the stack below the stack pointer. -/
def Dead (lay : Layout) (sp a : Word) : Prop := lay.low.toNat ≤ a.toNat ∧ a.toNat < sp.toNat

end Layout

/-! ## The processor -/

/-- What an instruction does that is neither a jump nor an `eret`.  Loads and stores are aligned. -/
def Instr.effect (lay : Layout) (c : Cpu) : Instr → Option (Isa.Effect Cpu Word Word)
  | .addiu d s imm => some (.regs (c.set d (c.reg s + imm)))
  | .andi d s imm => some (.regs (c.set d (c.reg s &&& imm)))
  | .sll d s n => some (.regs (c.set d (c.reg s <<< n)))
  | .addu d s t => some (.regs (c.set d (c.reg s + c.reg t)))
  | .and d s t => some (.regs (c.set d (c.reg s &&& c.reg t)))
  | .li d imm => some (.regs (c.set d imm))
  | .la d sym => some (.regs (c.set d (lay.address sym)))
  | .sw t offset b =>
      if (c.reg b + offset) &&& 3 = 0 then some (.store (c.reg b + offset) (c.reg t) c) else none
  | .lw t offset b =>
      if (c.reg b + offset) &&& 3 = 0 then some (.load (c.reg b + offset) (c.set t)) else none
  | .mfc0 d r => some (.regs (c.set d (c.cop0 r)))
  | .mtc0 s r => some (.regs (c.setCop0 r (c.reg s)))
  | .mflo d => some (.regs (c.set d c.lo))
  | .mfhi d => some (.regs (c.set d c.hi))
  | .mtlo s => some (.regs { c with lo := c.reg s })
  | .mthi s => some (.regs { c with hi := c.reg s })
  | .jr _ | .jalr _ | .eret => none

/-- The code between the jumps, which is not interrupted. -/
def handlers (lay : Layout) : Isa Instr Cpu Word Word :=
  Isa.ofEffects fun i c => if enabled c.sr then none else i.effect lay c

/-! ## What the code does -/

/-- The registers a function gives back as it found them, but `$29`. -/
def kept : List Nat := [16, 17, 18, 19, 20, 21, 22, 23, 28, 30]

theorem enabled_or (sr : Word) : enabled (sr ||| 0x2) = false := by
  have hbit : ((sr ||| 0x2) &&& 0x7).getLsbD 1 = true := by simp
  refine decide_eq_false fun heq => ?_
  rw [heq] at hbit
  cases hbit

/-- `EXL` is set and cleared again. -/
theorem or_and_not {sr : Word} (h : sr &&& 0x2 = 0) : (sr ||| 0x2) &&& ~~~0x2 = sr := by
  have hbit : sr.getLsbD 1 = false := by
    have hmask : (sr &&& 0x2).getLsbD 1 = sr.getLsbD 1 := by simp
    rw [← hmask, h]
    rfl
  apply BitVec.eq_of_getLsbD_eq
  intro i hi
  have htwo : ∀ i < 32, (0x2 : Word).getLsbD i = decide (i = 1) := by decide
  rw [BitVec.getLsbD_and, BitVec.getLsbD_or, BitVec.getLsbD_not, htwo i hi]
  rcases eq_or_ne i 1 with rfl | hne
  · rw [hbit]
    rfl
  · simp [hi, hne]

theorem exl_of_enabled {sr : Word} (h : enabled sr = true) : sr &&& 0x2 = 0 := by
  have heq : sr &&& 0x7 = 0x1 := of_decide_eq_true h
  have hmask : sr &&& 0x7 &&& 0x2 = sr &&& 0x2 := BitVec.and_assoc ..
  rw [← hmask, heq]
  rfl

theorem aligned_add {a b : Word} (ha : a &&& 3 = 0) (hb : b &&& 3 = 0) : (a + b) &&& 3 = 0 := by
  rw [aligned_iff] at *
  rw [BitVec.toNat_add]
  omega

theorem aligned_shl (a : Word) : a <<< 2 &&& 3 = 0 := by
  rw [aligned_iff, BitVec.toNat_shiftLeft, Nat.shiftLeft_eq]
  omega

theorem aligned_and (a : Word) : a &&& 0x3c &&& 3 = 0 := by
  rw [BitVec.and_assoc]
  exact BitVec.and_zero

section Leads

variable {lay : Layout} {A : Word → Prop} {Q : Cpu → Mem → Prop} {i : Instr} {rest : List Instr}
  {c d : Cpu} {m : Mem} {l : List (Nat × Word)}

theorem leads_regs (hsr : enabled c.sr = false) (he : i.effect lay c = some (.regs d))
    (h : (handlers lay).Leads A Q rest d m) : (handlers lay).Leads A Q (i :: rest) c m := by
  refine Isa.Leads.regs ?_ h
  rw [hsr, if_neg Bool.false_ne_true, he]

theorem leads_sw {t b : Nat} {offset a v : Word} (ha : c.reg b + offset = a) (ht : c.reg t = v)
    (hsr : enabled c.sr = false) (haligned : a &&& 3 = 0) (hA : A a)
    (h : (handlers lay).Leads A Q rest c (Function.update m a v)) :
    (handlers lay).Leads A Q (.sw t offset b :: rest) c m := by
  subst ha ht
  refine .store (a := c.reg b + offset) (v := c.reg t) ?_ hA h
  rw [hsr, if_neg Bool.false_ne_true, Instr.effect, if_pos haligned]

theorem leads_lw {t b : Nat} {offset a : Word} (ha : c.reg b + offset = a)
    (hsr : enabled c.sr = false) (haligned : a &&& 3 = 0) (hA : A a)
    (h : (handlers lay).Leads A Q rest (c.set t (m a)) m) :
    (handlers lay).Leads A Q (.lw t offset b :: rest) c m := by
  subst ha
  refine .load (a := c.reg b + offset) (f := c.set t) ?_ hA h
  rw [hsr, if_neg Bool.false_ne_true, Instr.effect, if_pos haligned]

/-- A row of stores puts each register into its word on the stack. -/
theorem leads_stores (hsr : enabled c.sr = false) (hoffsets : (l.map Prod.snd).Nodup)
    (hregs : ∀ x ∈ l, x.1 ≠ 0) (haligned : ∀ x ∈ l, (c.gpr 29 + x.2) &&& 3 = 0)
    (hA : ∀ x ∈ l, A (c.gpr 29 + x.2))
    (h : ∀ m', (∀ x ∈ l, m' (c.gpr 29 + x.2) = c.gpr x.1) →
      (∀ a, (∀ x ∈ l, a ≠ c.gpr 29 + x.2) → m' a = m a) → (handlers lay).Leads A Q rest c m') :
    (handlers lay).Leads A Q (l.map (fun x => .sw x.1 x.2 29) ++ rest) c m := by
  induction l generalizing m with
  | nil => exact h m (fun _ hx => absurd hx List.not_mem_nil) fun _ _ => rfl
  | cons x l ih =>
      have hmem {y : Nat × Word} (hy : y ∈ l) : y ∈ x :: l := List.mem_cons_of_mem _ hy
      obtain ⟨hfresh, hoffsets⟩ := List.nodup_cons.mp hoffsets
      have hne : ∀ y ∈ l, c.gpr 29 + x.2 ≠ c.gpr 29 + y.2 := fun y hy heq =>
        hfresh ((BitVec.add_right_inj _).mp heq ▸ List.mem_map_of_mem hy)
      have hreg : c.reg x.1 = c.gpr x.1 := if_neg (hregs x List.mem_cons_self)
      refine leads_sw rfl hreg hsr (haligned x List.mem_cons_self) (hA x List.mem_cons_self) ?_
      refine ih hoffsets (fun y hy => hregs y (hmem hy)) (fun y hy => haligned y (hmem hy))
        (fun y hy => hA y (hmem hy)) fun m' hstored hother => h m' ?_ ?_
      · intro y hy
        rcases List.mem_cons.mp hy with rfl | hy
        · rw [hother _ hne]
          exact Function.update_self ..
        · exact hstored y hy
      · intro a ha
        rw [hother a fun y hy => ha y (hmem hy)]
        exact Function.update_of_ne (ha x List.mem_cons_self) ..

/-- A row of loads takes each register from its word on the stack. -/
theorem leads_loads (hsr : enabled c.sr = false) (hregs : (l.map Prod.fst).Nodup)
    (h29 : 29 ∉ l.map Prod.fst) (haligned : ∀ x ∈ l, (c.gpr 29 + x.2) &&& 3 = 0)
    (hA : ∀ x ∈ l, A (c.gpr 29 + x.2))
    (h : ∀ g, (∀ x ∈ l, g x.1 = m (c.gpr 29 + x.2)) → (∀ r, r ∉ l.map Prod.fst → g r = c.gpr r) →
      (handlers lay).Leads A Q rest { c with gpr := g } m) :
    (handlers lay).Leads A Q (l.map (fun x => .lw x.1 x.2 29) ++ rest) c m := by
  induction l generalizing c with
  | nil => exact h c.gpr (fun _ hx => absurd hx List.not_mem_nil) fun _ _ => rfl
  | cons x l ih =>
      have hmem {y : Nat × Word} (hy : y ∈ l) : y ∈ x :: l := List.mem_cons_of_mem _ hy
      obtain ⟨hfresh, hregs⟩ := List.nodup_cons.mp hregs
      have hsp : (c.set x.1 (m (c.gpr 29 + x.2))).gpr 29 = c.gpr 29 :=
        Cpu.set_gpr_of_ne _ _ fun heq => h29 (heq ▸ List.mem_cons_self)
      refine leads_lw rfl hsr (haligned x List.mem_cons_self) (hA x List.mem_cons_self) ?_
      refine ih (c := c.set x.1 (m (c.gpr 29 + x.2))) hsr hregs
        (fun hin => h29 (List.mem_cons_of_mem _ hin)) (fun y hy => ?_) (fun y hy => ?_)
        fun g hloaded hother => h g ?_ ?_
      · rw [hsp]
        exact haligned y (hmem hy)
      · rw [hsp]
        exact hA y (hmem hy)
      · intro y hy
        rcases List.mem_cons.mp hy with rfl | hy
        · rw [hother _ hfresh, Cpu.set_gpr]
        · rw [hloaded y hy, hsp]
      · intro r hr
        have hne : r ≠ x.1 := fun heq => hr (heq ▸ List.mem_map_of_mem List.mem_cons_self)
        rw [hother r fun hin => hr (List.mem_cons_of_mem _ hin), Cpu.set_gpr_of_ne _ _ hne]

/-- `_giet` finds the entry of the cause in `_cause_vector`. -/
theorem leads_gietEntry (hsr : enabled c.sr = false)
    (hA : A (lay.causeVector + (c.cause &&& 0x3c)))
    (haligned : (lay.causeVector + (c.cause &&& 0x3c)) &&& 3 = 0)
    (h : ∀ g, (∀ r, r ≠ 26 → r ≠ 27 → g r = c.gpr r) →
      g 26 = m (lay.causeVector + (c.cause &&& 0x3c)) → Q { c with gpr := g } m) :
    (handlers lay).Leads A Q gietEntry c m := by
  refine leads_regs hsr rfl (leads_regs hsr rfl (leads_regs hsr rfl (leads_regs hsr rfl ?_)))
  refine leads_lw (BitVec.add_zero _) hsr haligned hA (h _ (fun r h26 h27 => ?_) ?_)
  · simp [Function.update_of_ne, h26, h27]
  · exact Function.update_self ..

/-- What `_int_handler` saves. -/
structure Saved (base : Word) (c : Cpu) (m : Mem) : Prop where
  regs : ∀ x ∈ saved, m (base + x.2) = c.gpr x.1
  lo : m (base + 88) = c.lo
  hi : m (base + 92) = c.hi
  epc : m (base + 96) = c.epc

/-- The words of `_int_handler` are on the stack, below what was there. -/
theorem Layout.Room.dead {n : Nat} {sp offset : Word} (h : lay.Room n sp)
    (hoffset : offset.toNat < n) : lay.Dead sp (sp - BitVec.ofNat 32 n + offset) := by
  have hlow := h.low
  constructor <;> bv_omega

theorem Layout.Room.aligned_base {n : Nat} {sp : Word} (h : lay.Room n sp)
    (hn : BitVec.ofNat 32 n &&& 3 = 0) : (sp - BitVec.ofNat 32 n) &&& 3 = 0 := by
  have hsp := h.aligned
  rw [aligned_iff] at *
  rw [BitVec.toNat_sub]
  omega

/-- `_int_handler` saves the registers a function may write. -/
theorem leads_intSave (hsr : enabled c.sr = false) (hroom : lay.Room 100 (c.gpr 29))
    (hA : ∀ a, lay.Dead (c.gpr 29) a → A a)
    (h : ∀ c' m', c'.gpr 26 = lay.intDemux → c'.gpr 29 = c.gpr 29 - 100 →
      (∀ r ∈ kept, c'.gpr r = c.gpr r) → c'.sr = c.sr → Saved (c.gpr 29 - 100) c m' →
      (∀ a, ¬ lay.Dead (c.gpr 29) a → m' a = m a) → Q c' m') :
    (handlers lay).Leads A Q intSave c m := by
  have hsub : c.gpr 29 + (-100) = c.gpr 29 - 100 := (BitVec.sub_eq_add_neg _ _).symm
  have hdead {offset : Word} (hoffset : offset.toNat < 100) :
      lay.Dead (c.gpr 29) (c.gpr 29 - 100 + offset) := hroom.dead hoffset
  have haligned {offset : Word} (hoffset : offset &&& 3 = 0) :
      (c.gpr 29 - 100 + offset) &&& 3 = 0 := aligned_add (hroom.aligned_base (by decide)) hoffset
  have hne {o o' : Word} (hne : o ≠ o') : c.gpr 29 - 100 + o ≠ c.gpr 29 - 100 + o' := fun heq =>
    hne ((BitVec.add_right_inj _).mp heq)
  refine leads_regs (d := c.set 29 (c.gpr 29 - 100)) hsr ?_ ?_
  · rw [← hsub]
    rfl
  generalize hc₁ : c.set 29 (c.gpr 29 - 100) = c₁
  have h29 : c₁.gpr 29 = c.gpr 29 - 100 := by rw [← hc₁, Cpu.set_gpr]
  have hgpr {r : Nat} (hr : r ≠ 29) : c₁.gpr r = c.gpr r := by rw [← hc₁, Cpu.set_gpr_of_ne _ _ hr]
  have hsr₁ : enabled c₁.sr = false := by rw [← hc₁, Cpu.set_sr, hsr]
  have hsaved : ∀ x ∈ saved, x.1 ≠ 0 ∧ x.1 ≠ 29 ∧ x.2.toNat < 100 ∧ x.2 &&& 3 = 0 ∧
    x.2 ≠ 88 ∧ x.2 ≠ 92 ∧ x.2 ≠ 96 := by decide
  refine leads_stores hsr₁ (by decide) (fun x hx => (hsaved x hx).1) (fun x hx => ?_)
    (fun x hx => ?_) fun m₁ hstored hother => ?_
  · rw [h29]
    exact haligned (hsaved x hx).2.2.2.1
  · rw [h29]
    exact hA _ (hdead (hsaved x hx).2.2.1)
  rw [h29] at hstored hother
  refine leads_regs (d := c₁.set 26 c.lo) hsr₁ ?_ ?_
  · rw [← hc₁]
    rfl
  refine leads_sw (congrArg (· + _) h29) (Cpu.set_gpr ..) hsr₁ (haligned (by decide))
    (hA _ (hdead (by decide))) ?_
  refine leads_regs (d := (c₁.set 26 c.lo).set 26 c.hi) hsr₁ ?_ ?_
  · rw [← hc₁]
    rfl
  refine leads_sw (congrArg (· + _) h29) (Cpu.set_gpr ..) hsr₁ (haligned (by decide))
    (hA _ (hdead (by decide))) ?_
  refine leads_regs (d := ((c₁.set 26 c.lo).set 26 c.hi).set 27 c.epc) hsr₁ ?_ ?_
  · rw [← hc₁]
    rfl
  refine leads_sw (congrArg (· + _) h29) (Cpu.set_gpr ..) hsr₁ (haligned (by decide))
    (hA _ (hdead (by decide))) ?_
  refine leads_regs hsr₁ rfl (h _ _ (Cpu.set_gpr ..) h29 (fun r hr => ?_) ?_ ?_ fun a ha => ?_)
  · have hr' : r ≠ 26 ∧ r ≠ 27 ∧ r ≠ 29 := by
      revert r
      decide
    rw [Cpu.set_gpr_of_ne _ _ hr'.1, Cpu.set_gpr_of_ne _ _ hr'.2.1, Cpu.set_gpr_of_ne _ _ hr'.1,
      Cpu.set_gpr_of_ne _ _ hr'.1, hgpr hr'.2.2]
  · rw [← hc₁]
    rfl
  · refine ⟨fun x hx => ?_, ?_, ?_, ?_⟩
    · obtain ⟨-, hx29, -, -, h88, h92, h96⟩ := hsaved x hx
      rw [Function.update_of_ne (hne h96), Function.update_of_ne (hne h92),
        Function.update_of_ne (hne h88), hstored x hx, hgpr hx29]
    · rw [Function.update_of_ne (hne (by decide)), Function.update_of_ne (hne (by decide)),
        Function.update_self]
    · rw [Function.update_of_ne (hne (by decide)), Function.update_self]
    · rw [Function.update_self]
  · have hout {offset : Word} (hoffset : offset.toNat < 100) : a ≠ c.gpr 29 - 100 + offset :=
      fun heq => ha (heq ▸ hdead hoffset)
    rw [Function.update_of_ne (hout (by decide)), Function.update_of_ne (hout (by decide)),
      Function.update_of_ne (hout (by decide)), hother a fun x hx => hout (hsaved x hx).2.2.1]

/-- Two processors show a program the same registers. -/
structure Same (c c' : Cpu) : Prop where
  gpr : ∀ r, 0 < r → r < 32 → r ≠ 26 → r ≠ 27 → c'.gpr r = c.gpr r
  hi : c'.hi = c.hi
  lo : c'.lo = c.lo
  sr : c'.sr = c.sr
  epc : c'.epc = c.epc

/-- The registers a program has are those `_int_handler` saves, those a function keeps, and the
stack pointer. -/
theorem mem_saved_or_kept {r : Nat} (hpos : 0 < r) (hlt : r < 32) (h26 : r ≠ 26) (h27 : r ≠ 27) :
    (∃ x ∈ saved, x.1 = r) ∨ r ∈ kept ∨ r = 29 := by
  have hall : ∀ r ∈ List.range 32, 0 < r → r ≠ 26 → r ≠ 27 →
    r ∈ saved.map Prod.fst ∨ r ∈ kept ∨ r = 29 := by decide
  rw [← List.mem_map]
  exact hall r (List.mem_range.mpr hlt) hpos h26 h27

/-- `restore` brings back what `_int_handler` has saved. -/
theorem leads_intRestore {b : Cpu} (hsr : enabled c.sr = false)
    (hroom : lay.Room 100 (b.gpr 29)) (h29 : c.gpr 29 = b.gpr 29 - 100)
    (hA : ∀ a, lay.Dead (b.gpr 29) a → A a) (hsaved : Saved (b.gpr 29 - 100) b m)
    (hkept : ∀ r ∈ kept, c.gpr r = b.gpr r) (hsr₀ : c.sr = b.sr)
    (h : ∀ c', Same b c' → Q c' m) : (handlers lay).Leads A Q intRestore c m := by
  have hadd : b.gpr 29 - 100 + 100 = b.gpr 29 := BitVec.sub_add_cancel _ _
  have hdead {offset : Word} (hoffset : offset.toNat < 100) :
      lay.Dead (b.gpr 29) (b.gpr 29 - 100 + offset) := hroom.dead hoffset
  have haligned {offset : Word} (hoffset : offset &&& 3 = 0) :
      (b.gpr 29 - 100 + offset) &&& 3 = 0 := aligned_add (hroom.aligned_base (by decide)) hoffset
  have hoffsets : ∀ x ∈ saved, x.2.toNat < 100 ∧ x.2 &&& 3 = 0 := by decide
  refine leads_loads hsr (by decide) (by decide) (fun x hx => ?_) (fun x hx => ?_)
    fun g hloaded hother => ?_
  · rw [h29]
    exact haligned (hoffsets x hx).2
  · rw [h29]
    exact hA _ (hdead (hoffsets x hx).1)
  rw [h29] at hloaded
  have hg : g 29 = b.gpr 29 - 100 := (hother 29 (by decide)).trans h29
  refine leads_lw (congrArg (· + _) hg) hsr (haligned (by decide)) (hA _ (hdead (by decide)))
    (leads_regs hsr rfl ?_)
  refine leads_lw (congrArg (· + _) hg) hsr (haligned (by decide)) (hA _ (hdead (by decide)))
    (leads_regs hsr rfl ?_)
  refine leads_lw (congrArg (· + _) hg) hsr (haligned (by decide)) (hA _ (hdead (by decide)))
    (leads_regs hsr rfl (leads_regs hsr rfl (h _ ?_)))
  rw [hsaved.lo, hsaved.hi, hsaved.epc]
  refine ⟨fun r hpos hlt h26 h27 => ?_, rfl, rfl, hsr₀, rfl⟩
  rcases mem_saved_or_kept hpos hlt h26 h27 with ⟨x, hx, rfl⟩ | hkeep | rfl
  · have h29' : x.1 ≠ 29 := by
      revert x
      decide
    rw [← hsaved.regs x hx, ← hloaded x hx]
    simp [Cpu.set, Cpu.setCop0, h26, h27, h29']
  · have hkeeps : ∀ r ∈ kept, r ≠ 29 ∧ r ∉ saved.map Prod.fst := by decide
    obtain ⟨h29', hnot⟩ := hkeeps r hkeep
    rw [← hkept r hkeep, ← hother r hnot]
    simp [Cpu.set, Cpu.setCop0, h26, h27, h29']
  · refine Eq.trans ?_ hadd
    rw [← hg]
    rfl

/-- `_sys_handler` saves SR and the return address and finds the function. -/
theorem leads_sysSave (hsr : enabled c.sr = false) (hroom : lay.Room 24 (c.gpr 29))
    (hA : ∀ a, lay.Dead (c.gpr 29) a → A a)
    (hconst : A (lay.syscallVector + (c.gpr 2 &&& 0x1F) <<< 2))
    (haligned : (lay.syscallVector + (c.gpr 2 &&& 0x1F) <<< 2) &&& 3 = 0)
    (h : ∀ c' m', c'.gpr 3 = m' (lay.syscallVector + (c.gpr 2 &&& 0x1F) <<< 2) →
      c'.gpr 29 = c.gpr 29 - 24 →
      (∀ r, r ≠ 3 → r ≠ 26 → r ≠ 27 → r ≠ 29 → c'.gpr r = c.gpr r) →
      m' (c.gpr 29 - 24 + 16) = c.sr → m' (c.gpr 29 - 24 + 20) = c.epc + 4 →
      (∀ a, ¬ lay.Dead (c.gpr 29) a → m' a = m a) → Q c' m') :
    (handlers lay).Leads A Q sysSave c m := by
  have hsub : c.gpr 29 + (-24) = c.gpr 29 - 24 := (BitVec.sub_eq_add_neg _ _).symm
  have hdead {offset : Word} (hoffset : offset.toNat < 24) :
      lay.Dead (c.gpr 29) (c.gpr 29 - 24 + offset) := hroom.dead hoffset
  have hslot {offset : Word} (hoffset : offset &&& 3 = 0) :
      (c.gpr 29 - 24 + offset) &&& 3 = 0 := aligned_add (hroom.aligned_base (by decide)) hoffset
  refine leads_regs (d := c.set 29 (c.gpr 29 - 24)) hsr ?_ ?_
  · rw [← hsub]
    rfl
  generalize hc₁ : c.set 29 (c.gpr 29 - 24) = c₁
  have h29 : c₁.gpr 29 = c.gpr 29 - 24 := by rw [← hc₁, Cpu.set_gpr]
  have hgpr {r : Nat} (hr : r ≠ 29) : c₁.gpr r = c.gpr r := by rw [← hc₁, Cpu.set_gpr_of_ne _ _ hr]
  have hsr₁ : enabled c₁.sr = false := by rw [← hc₁, Cpu.set_sr, hsr]
  refine leads_regs (d := c₁.set 26 c.sr) hsr₁ ?_ ?_
  · rw [← hc₁]
    rfl
  refine leads_sw (congrArg (· + _) h29) (Cpu.set_gpr ..) hsr₁ (hslot (by decide))
    (hA _ (hdead (by decide))) ?_
  refine leads_regs (d := (c₁.set 26 c.sr).set 27 c.epc) hsr₁ ?_ ?_
  · rw [← hc₁]
    rfl
  refine leads_regs hsr₁ rfl ?_
  refine leads_sw (v := c.epc + 4) (congrArg (· + _) h29) ?_ hsr₁ (hslot (by decide))
    (hA _ (hdead (by decide))) ?_
  · simp [Cpu.reg]
  generalize hm₂ : Function.update (Function.update m (c.gpr 29 - 24 + 16) c.sr)
    (c.gpr 29 - 24 + 20) (c.epc + 4) = m₂
  refine leads_regs hsr₁ rfl (leads_regs hsr₁ rfl (leads_regs hsr₁ rfl (leads_regs hsr₁ rfl ?_)))
  refine leads_lw (a := lay.syscallVector + (c.gpr 2 &&& 0x1F) <<< 2) ?_ hsr₁ haligned hconst ?_
  · simp [Cpu.reg, hgpr, Layout.address]
  refine leads_regs hsr₁ rfl (leads_regs hsr₁ rfl (leads_regs hsr₁ rfl (leads_regs hsr₁ rfl ?_)))
  have hne : c.gpr 29 - 24 + 16 ≠ c.gpr 29 - 24 + 20 := fun heq =>
    absurd ((BitVec.add_right_inj _).mp heq) (by decide)
  refine h _ _ (by simp) (by simpa using h29) (fun r h3 h26 h27 h29' => ?_) ?_ ?_ fun a ha => ?_
  · rw [← hgpr h29']
    simp [h3, h26, h27]
  · rw [← hm₂, Function.update_of_ne hne, Function.update_self]
  · rw [← hm₂, Function.update_self]
  · have hout {offset : Word} (hoffset : offset.toNat < 24) : a ≠ c.gpr 29 - 24 + offset :=
      fun heq => ha (heq ▸ hdead hoffset)
    rw [← hm₂, Function.update_of_ne (hout (by decide)), Function.update_of_ne (hout (by decide))]

/-- `_sys_handler` brings SR and the return address back. -/
theorem leads_sysRestore {sp : Word} (hsr : enabled c.sr = false) (hroom : lay.Room 24 sp)
    (h29 : c.gpr 29 = sp - 24) (hA : ∀ a, lay.Dead sp a → A a)
    (hsaved : enabled (m (sp - 24 + 16)) = false)
    (h : ∀ c', c'.sr = m (sp - 24 + 16) → c'.epc = m (sp - 24 + 20) → c'.gpr 29 = sp →
      (∀ r, r ≠ 26 → r ≠ 29 → c'.gpr r = c.gpr r) → Q c' m) :
    (handlers lay).Leads A Q sysRestore c m := by
  have hadd : sp - 24 + 24 = sp := BitVec.sub_add_cancel _ _
  have hdead {offset : Word} (hoffset : offset.toNat < 24) : lay.Dead sp (sp - 24 + offset) :=
    hroom.dead hoffset
  have hslot {offset : Word} (hoffset : offset &&& 3 = 0) : (sp - 24 + offset) &&& 3 = 0 :=
    aligned_add (hroom.aligned_base (by decide)) hoffset
  refine leads_lw (congrArg (· + _) h29) hsr (hslot (by decide)) (hA _ (hdead (by decide)))
    (leads_regs hsr rfl ?_)
  refine leads_lw (a := sp - 24 + 20) ?_ hsaved (hslot (by decide)) (hA _ (hdead (by decide)))
    (leads_regs hsaved rfl (leads_regs hsaved rfl (h _ rfl rfl ?_ fun r h26 h29' => ?_)))
  · rw [← h29]
    rfl
  · refine Eq.trans ?_ hadd
    rw [← h29]
    rfl
  · simp [h26, h29']

end Leads

/-! ## The machine -/

/-- A function that was called, with the registers it was called with. -/
structure Call where
  f : Word
  gpr : Nat → Word
  ret : Word

/-- A program that has entered the GIET. -/
structure Trap where
  pc : Word
  cpu : Cpu
  cause : Word
  /-- The function that has returned, with its result. -/
  returned : Option (Call × Word)

/-- The processor and its memory. -/
structure Machine where
  pc : Word
  cpu : Cpu
  mem : Mem
  /-- The function called by a handler that has not returned. -/
  call : Option Call
  /-- The program that has entered the GIET and is not back. -/
  trapped : Option Trap

/-- What happens on a processor that is not interrupted. -/
inductive Event where
  /-- The next instruction of `giet.s`. -/
  | giet
  /-- An instruction of a program or a function. -/
  | compute (pc : Word) (cpu : Cpu) (mem : Mem)
  /-- A function returns to `giet.s`. -/
  | ret (cpu : Cpu)
  /-- A program raises an exception. -/
  | trap (cause : Word)
  /-- Somebody else writes a word. -/
  | share (a v : Word)

namespace Machine

/-- The next instruction of `giet.s`. -/
def instr (lay : Layout) (m : Machine) : Option Instr := (lay.index m.pc).bind (giet[·]?)

/-- The address of the instruction after it. -/
def succ (lay : Layout) (m : Machine) : Word := lay.addr ((lay.index m.pc).getD 0 + 1)

/-- An instruction of `giet.s` is executed. -/
def giet (lay : Layout) (m : Machine) : Option Machine :=
  match m.instr lay with
  | none => none
  | some (.jr s) => some { m with pc := m.cpu.reg s }
  | some (.jalr s) => some
      { m with
        pc := m.cpu.reg s
        cpu := m.cpu.set 31 (m.succ lay)
        call := some ⟨m.cpu.reg s, m.cpu.gpr, m.succ lay⟩ }
  | some .eret => some
      { m with pc := m.cpu.epc, cpu := { m.cpu with sr := m.cpu.sr &&& ~~~0x2 }, trapped := none }
  | some i => (i.effect lay m.cpu).map fun e =>
      { m with pc := m.succ lay, cpu := (e.perform m.mem).1, mem := (e.perform m.mem).2 }

/-- An exception: the processor goes to the entry point. -/
def raise (m : Machine) (cause : Word) : Machine :=
  { m with
    pc := 0x80000180
    cpu := { m.cpu with sr := m.cpu.sr ||| 0x2, cause := cause, epc := m.pc } }

/-- A function returns. -/
def back (m : Machine) (c : Call) (cpu : Cpu) : Machine :=
  { m with
    pc := c.ret
    cpu := cpu
    call := none
    trapped := m.trapped.map fun t => { t with returned := some (c, cpu.gpr 2) } }

/-- A step of a processor that is not interrupted. -/
def next (lay : Layout) (m : Machine) : Event → Option Machine
  | .giet => m.giet lay
  | .compute pc cpu mem =>
      if lay.index m.pc = none then some { m with pc := pc, cpu := cpu, mem := mem } else none
  | .ret cpu => if lay.index m.pc = none then m.call.map fun c => m.back c cpu else none
  | .trap cause =>
      if lay.index m.pc = none then
        some { m.raise cause with trapped := some ⟨m.pc, m.cpu, cause, none⟩ }
      else none
  | .share a v => some { m with mem := Function.update m.mem a v }

end Machine

/-- What the calling convention and the platform promise.  A function keeps what is on the stack
above its four words for arguments, and returns with the stack and the registers it has to keep.
A system call finds the stack aligned and with room for its frame. -/
def Machine.Legal (lay : Layout) (m : Machine) : Event → Prop
  | .giet => True
  | .compute pc cpu mem =>
      lay.index pc = none ∧ (∀ a, lay.IsConst a → mem a = m.mem a) ∧
        ∀ c, m.call = some c → (cpu.gpr 29).toNat ≤ (c.gpr 29).toNat ∧
          mem (c.gpr 29 + 16) = m.mem (c.gpr 29 + 16) ∧ mem (c.gpr 29 + 20) = m.mem (c.gpr 29 + 20)
  | .ret cpu => ∀ c, m.call = some c → ∀ r, r = 29 ∨ r ∈ kept → cpu.gpr r = c.gpr r
  | .trap cause =>
      m.call = none ∧ m.trapped = none ∧ m.cpu.sr &&& 2 = 0 ∧ cause &&& 0x3c ≠ 0 ∧
        lay.index (m.pc + 4) = none ∧ lay.Room 24 (m.cpu.gpr 29)
  | .share a _ => lay.shared a

/-! ## Interrupts -/

/-- The processor, with what it was doing when it was interrupted. -/
structure State where
  machine : Machine
  interrupted : Option Machine

/-- What happens on the processor. -/
inductive Step where
  | plain (e : Event)
  | interrupt (cause : Word)

namespace State

/-- What an interrupted program sees of the processor. -/
def visible (s : State) : Machine := s.interrupted.getD s.machine

/-- A step of the processor.  An `eret` ends an interrupt. -/
def next (lay : Layout) (s : State) : Step → Option State
  | .plain e => (s.machine.next lay e).map fun m =>
      match s.interrupted, e with
      | some b, .giet =>
          if s.machine.instr lay = some .eret then
            ⟨{ m with call := b.call, trapped := b.trapped }, none⟩
          else ⟨m, some b⟩
      | x, _ => ⟨m, x⟩
  | .interrupt cause =>
      if enabled s.machine.cpu.sr then
        some ⟨{ s.machine.raise cause with call := none, trapped := none }, some s.machine⟩
      else none

/-- A service routine writes what is shared, and the stack below what it is to keep.  It leaves
the status register alone.  An interrupt finds the stack aligned and with room for its frame. -/
def Legal (lay : Layout) (s : State) : Step → Prop
  | .plain e => s.machine.Legal lay e ∧ (s.interrupted.isSome = true →
      match e with
      | .compute _ cpu mem => cpu.sr = s.machine.cpu.sr ∧ ∀ c, s.machine.call = some c →
          ∀ a, ¬ lay.shared a → ¬ lay.Dead (c.gpr 29 + 16) a → mem a = s.machine.mem a
      | .ret cpu => cpu.sr = s.machine.cpu.sr
      | _ => True)
  | .interrupt cause => cause &&& 0x3c = 0 ∧ lay.Room 100 (s.machine.cpu.gpr 29)

/-- A program of the processor. -/
structure Start (lay : Layout) (m : Machine) : Prop where
  program : lay.index m.pc = none
  call : m.call = none
  trapped : m.trapped = none
  consts : lay.Consts m.mem

end State

/-- The processor. -/
def processor (lay : Layout) : System State Step :=
  System.under ⟨fun s => State.Start lay s.machine ∧ s.interrupted = none,
    fun s e s' => s.next lay e = some s'⟩ (State.Legal lay)

/-! ## Where the processor is -/

section Running

variable {lay : Layout} {m m' : Machine} {i : Instr} {base : Nat} {code : List Instr}
  {Q : Cpu → Mem → Prop}

theorem Layout.index_addr {k : Nat} (hk : k < giet.length) : lay.index (lay.addr k) = some k := by
  have hfind : ((List.range giet.length).find? fun j => lay.addr j = lay.addr k).isSome = true := by
    rw [List.find?_isSome]
    exact ⟨k, List.mem_range.mpr hk, decide_eq_true rfl⟩
  obtain ⟨j, hj⟩ := Option.isSome_iff_exists.mp hfind
  have heq : lay.addr j = lay.addr k := by simpa using List.find?_some hj
  have hlt := List.mem_range.mp (List.mem_of_find?_eq_some hj)
  rw [Layout.index, hj, lay.addr_injective j hlt k hk heq]

/-- The code between two jumps is under way, or done. -/
def Running (lay : Layout) (base : Nat) (code : List Instr) (Q : Cpu → Mem → Prop)
    (m : Machine) : Prop :=
  ∃ k ≤ code.length, m.pc = lay.addr (base + k) ∧
    (handlers lay).Leads (fun a => ¬ lay.shared a) Q (code.drop k) m.cpu m.mem

theorem Running.start (hpc : m.pc = lay.addr base)
    (h : (handlers lay).Leads (fun a => ¬ lay.shared a) Q code m.cpu m.mem) :
    Running lay base code Q m :=
  ⟨0, Nat.zero_le _, hpc, h⟩

theorem Running.done (hpc : m.pc = lay.addr (base + code.length)) (h : Q m.cpu m.mem) :
    Running lay base code Q m := by
  refine ⟨code.length, Nat.le_refl _, hpc, ?_⟩
  rw [List.drop_length]
  exact h

theorem Running.index_ne_none (hbase : base + code.length < giet.length)
    (h : Running lay base code Q m) : lay.index m.pc ≠ none := by
  obtain ⟨k, hk, hpc, -⟩ := h
  rw [hpc, Layout.index_addr (by omega)]
  exact Option.some_ne_none _

theorem Machine.instr_of_index (hpc : lay.index m.pc = none) : m.instr lay = none := by
  rw [Machine.instr, hpc]
  rfl

theorem Machine.instr_at {k : Nat} (hk : k < Handlers.giet.length) (hpc : m.pc = lay.addr k) :
    m.instr lay = some Handlers.giet[k] ∧ m.succ lay = lay.addr (k + 1) := by
  rw [Machine.instr, Machine.succ, hpc, Layout.index_addr hk]
  exact ⟨List.getElem?_eq_getElem hk, rfl⟩

theorem Machine.giet_jr {s : Nat} (hi : m.instr lay = some (.jr s)) :
    m.giet lay = some { m with pc := m.cpu.reg s } := by
  rw [Machine.giet, hi]

theorem Machine.giet_jalr {s : Nat} (hi : m.instr lay = some (.jalr s)) : m.giet lay = some
    { m with
      pc := m.cpu.reg s
      cpu := m.cpu.set 31 (m.succ lay)
      call := some ⟨m.cpu.reg s, m.cpu.gpr, m.succ lay⟩ } := by
  rw [Machine.giet, hi]

theorem Machine.giet_eret (hi : m.instr lay = some .eret) : m.giet lay = some
    { m with
      pc := m.cpu.epc
      cpu := { m.cpu with sr := m.cpu.sr &&& ~~~0x2 }
      trapped := none } := by
  rw [Machine.giet, hi]

/-- An instruction that is neither a jump nor an `eret`. -/
theorem Machine.giet_of_effect {e : Isa.Effect Cpu Word Word} (hi : m.instr lay = some i)
    (he : i.effect lay m.cpu = some e) : m.giet lay = some
      { m with pc := m.succ lay, cpu := (e.perform m.mem).1, mem := (e.perform m.mem).2 } := by
  unfold Machine.giet
  rw [hi]
  cases i with
  | jr | jalr | eret => cases he
  | _ => exact congrArg (Option.map _) he

/-- The next instruction between two jumps is executed, with interrupts disabled. -/
theorem Running.step (hcode : code <+: giet.drop base) (h : Running lay base code Q m) :
    (m.pc = lay.addr (base + code.length) ∧ Q m.cpu m.mem) ∨
      enabled m.cpu.sr = false ∧ m.instr lay ≠ some .eret ∧
        ∃ m', m.giet lay = some m' ∧ m'.call = m.call ∧ m'.trapped = m.trapped ∧
          Running lay base code Q m' := by
  obtain ⟨k, hk, hpc, hleads⟩ := h
  rcases Nat.lt_or_eq_of_le hk with hlt | rfl
  · rw [List.drop_eq_getElem_cons hlt] at hleads
    obtain ⟨c', mem', hexec, -, hrest⟩ := hleads
    obtain ⟨e, he, hperform⟩ := Option.map_eq_some_iff.mp hexec
    have he : (if enabled m.cpu.sr then none else code[k].effect lay m.cpu) = some e := he
    have hdisabled : enabled m.cpu.sr = false := by
      by_contra henabled
      rw [if_pos (Bool.eq_true_of_not_eq_false henabled)] at he
      cases he
    rw [hdisabled, if_neg Bool.false_ne_true] at he
    have hlength : k < (giet.drop base).length := Nat.lt_of_lt_of_le hlt hcode.length_le
    have hat : base + k < giet.length := by
      rw [List.length_drop] at hlength
      omega
    obtain ⟨hi, hsucc⟩ := Machine.instr_at hat hpc
    have hget : giet[base + k] = code[k] := by
      rw [← List.getElem_drop (h := hlength)]
      exact (hcode.getElem hlt).symm
    rw [hget] at hi
    refine .inr ⟨hdisabled, ?_, _, Machine.giet_of_effect hi he, rfl, rfl, k + 1, hlt, hsucc, ?_⟩
    · rw [hi]
      intro heret
      rw [Option.some.inj heret] at he
      cases he
    · rw [hperform]
      exact hrest
  · rw [List.drop_length] at hleads
    exact .inl ⟨hpc, hleads⟩

/-- Somebody else writes a shared word. -/
theorem Running.share {a v : Word} (ha : lay.shared a)
    (hQ : ∀ c m m₂, AgreeOn (fun a => ¬ lay.shared a) m m₂ → Q c m → Q c m₂)
    (h : Running lay base code Q m) :
    Running lay base code Q { m with mem := Function.update m.mem a v } := by
  obtain ⟨k, hk, hpc, hleads⟩ := h
  refine ⟨k, hk, hpc, hleads.agree hQ fun b hb => Function.update_of_ne ?_ ..⟩
  rintro rfl
  exact hb ha

end Running

end SmcTp.Giet.Handlers
