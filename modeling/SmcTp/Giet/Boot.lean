import Mathlib.Algebra.Ring.Nat
import Mathlib.Logic.Function.Basic
import SmcTp.Giet.Drivers
import SmcTp.Programs.StraightLine

/-!
# The boot code of a platform with four processors

All processors start at `reset`, which branches on the number of the processor.  Each of the
four blocks sets the stack pointer, the mask of one output of the interrupt controller, the
entries of the interrupt vector for the inputs that this output shows, the status register and
the return address, and leaves by `eret`.

The branches have a delay slot, and the one of the last branch is the first half of a `la`.
`reset_reaches` says what a processor has done when it comes to its `eret`, whatever the other
ones do meanwhile to the rest of the memory.
-/

namespace SmcTp.Giet.Boot

open Programs

/-- For the numerals of processors. -/
scoped instance four_ne_zero : NeZero 4 := ⟨Nat.succ_ne_zero 3⟩

/-- The memory, and the registers of the devices in it. -/
abbrev Mem := Word → Word

/-! ## The code -/

/-- The interrupt service routines the boot code installs, and the default one. -/
inductive Isr where
  | ioc
  | ttyGetTask0
  | timer
  | dma
  | default
deriving DecidableEq, Repr

/-- The symbols of the boot code. -/
inductive Sym where
  | segStackBase
  | segDataBase
  | segIcuBase
  | interruptVector
  | isr (f : Isr)
deriving DecidableEq, Repr

/-- The coprocessor registers the boot code writes. -/
inductive Cop0 where
  | sr
  | epc
deriving DecidableEq, Repr

/-- The instructions of the boot code. -/
inductive Instr where
  /-- `mfc0 $d, $15, 1` -/
  | procid (d : Nat)
  /-- `andi $d, $s, imm` -/
  | andi (d s : Nat) (imm : Word)
  /-- `li $d, imm` -/
  | li (d : Nat) (imm : Word)
  /-- The first half of `la $d, sym`. -/
  | lui (d : Nat) (sym : Sym)
  /-- The second half of `la $d, sym`. -/
  | addiu (d : Nat) (sym : Sym)
  /-- `addu $d, $s, $t` -/
  | addu (d s t : Nat)
  /-- `sw $t, offset($b)` -/
  | sw (t : Nat) (offset : Word) (b : Nat)
  /-- `lw $t, offset($b)` -/
  | lw (t : Nat) (offset : Word) (b : Nat)
  /-- `mtc0 $s, c` -/
  | mtc0 (s : Nat) (c : Cop0)
  /-- `beq $s, $t, proc<label>` -/
  | beq (s t : Nat) (label : Fin 4)
  | eret
deriving DecidableEq, Repr

/-- `la $d, sym` -/
def la (d : Nat) (sym : Sym) : List Instr := [.lui d sym, .addiu d sym]

/-- `interrupt_vector[i] <= isr`, for the byte offsets of the entries. -/
def installs : List (Isr × Word) → List Instr
  | [] => []
  | (f, offset) :: rest => la 27 (.isr f) ++ .sw 27 offset 26 :: installs rest

/-- What the code of a processor sets. -/
structure Setup where
  /-- The top of the stack, above the base of the stacks. -/
  stack : Word
  /-- The inputs of the interrupt controller the processor listens to. -/
  mask : Word
  /-- `ICU_MASK_SET` of the processor, above the base of the interrupt controller. -/
  maskSet : Word
  /-- The entries of the interrupt vector, by their byte offsets. -/
  vectors : List (Isr × Word)
  /-- The entry point, above the base of the data. -/
  main : Word

/-- `proc0` to `proc3` -/
def setup : Fin 4 → Setup
  | 0 => ⟨0x10000, 0x1111, 8, [(.ioc, 0), (.ttyGetTask0, 48), (.timer, 32), (.dma, 16)], 0⟩
  | 1 => ⟨0x20000, 0x2220, 40, [(.ttyGetTask0, 52), (.timer, 36), (.dma, 20)], 4⟩
  | 2 => ⟨0x30000, 0x4440, 72, [(.ttyGetTask0, 56), (.timer, 40), (.dma, 24)], 8⟩
  | 3 => ⟨0x40000, 0x8880, 104, [(.ttyGetTask0, 60), (.timer, 44), (.dma, 28)], 12⟩

/-- The code of a processor. -/
def block (u : Setup) : List Instr :=
  la 27 .segStackBase ++ .li 26 u.stack :: .addu 29 26 27 ::
    la 26 .segIcuBase ++ .li 27 u.mask :: .sw 27 u.maskSet 26 ::
    la 26 .interruptVector ++ installs u.vectors ++ .li 26 0xFF13 :: .mtc0 26 .sr ::
    la 26 .segDataBase ++ [.lw 26 u.main 26, .mtc0 26 .epc, .eret]

/-- The code from `proc0`, `proc1`, `proc2` or `proc3` on. -/
def codeAt : Fin 4 → List Instr
  | 0 => block (setup 0) ++ block (setup 1) ++ block (setup 2) ++ block (setup 3)
  | 1 => block (setup 1) ++ block (setup 2) ++ block (setup 3)
  | 2 => block (setup 2) ++ block (setup 3)
  | 3 => block (setup 3)

/-- `reset` -/
def reset : List Instr :=
  [.procid 27, .andi 27 27 0x3, .li 26 0x0, .beq 27 26 0, .li 26 0x1, .beq 27 26 1,
    .li 26 0x2, .beq 27 26 2, .li 26 0x3, .beq 27 26 3] ++ codeAt 0

/-! ## The machine -/

/-- Where the linker puts things.  The segments of the data and of the interrupt controller
have their addresses in `seg.ld`. -/
structure Layout where
  interruptVector : Word
  isr : Isr → Word
  /-- The vector is in the data of the kernel. -/
  vector_kernel : 0x80000000 ≤ interruptVector.toNat ∧ interruptVector.toNat < 0x90000000
  isr_injective : Function.Injective isr

/-- The address of a symbol. -/
def Layout.address (lay : Layout) : Sym → Word
  | .segStackBase => 0x02000000
  | .segDataBase => 0x01000000
  | .segIcuBase => 0x9F000000
  | .interruptVector => lay.interruptVector
  | .isr f => lay.isr f

/-- The upper half of an address, as a `la` loads it first. -/
def upper (a : Word) : Word := (a + 0x8000) &&& 0xFFFF0000

/-- The registers of a processor. -/
structure Cpu where
  /-- The number of the processor. -/
  id : Word
  gpr : Nat → Word
  sr : Word
  epc : Word

namespace Cpu

/-- A general register is written. -/
def set (c : Cpu) (n : Nat) (v : Word) : Cpu := { c with gpr := Function.update c.gpr n v }

/-- A coprocessor register is written. -/
def setCop0 (c : Cpu) (r : Cop0) (v : Word) : Cpu :=
  match r with
  | .sr => { c with sr := v }
  | .epc => { c with epc := v }

@[simp] theorem set_id (c : Cpu) (n : Nat) (v : Word) : (c.set n v).id = c.id := rfl
@[simp] theorem set_sr (c : Cpu) (n : Nat) (v : Word) : (c.set n v).sr = c.sr := rfl

@[simp] theorem set_gpr (c : Cpu) (n : Nat) (v : Word) : (c.set n v).gpr n = v :=
  Function.update_self ..

@[simp] theorem set_gpr_of_ne (c : Cpu) {n k : Nat} (v : Word) (h : k ≠ n) :
    (c.set n v).gpr k = c.gpr k :=
  Function.update_of_ne h ..

@[simp] theorem setCop0_id (c : Cpu) (r : Cop0) (v : Word) : (c.setCop0 r v).id = c.id := by
  cases r <;> rfl

@[simp] theorem setCop0_gpr (c : Cpu) (r : Cop0) (v : Word) : (c.setCop0 r v).gpr = c.gpr := by
  cases r <;> rfl

end Cpu

/-- Interrupts are enabled: `IE`, and neither `EXL` nor `ERL`. -/
def enabled (sr : Word) : Bool := sr &&& 0x7 = 0x1

/-- The registers `ICU_MASK_SET`. -/
def isMaskSet (a : Word) : Bool :=
  a = 0x9F000008 || a = 0x9F000028 || a = 0x9F000048 || a = 0x9F000068

/-- A store.  What is written to `ICU_MASK_SET` is added to the mask, which is kept there. -/
def Mem.store (m : Mem) (a v : Word) : Mem :=
  Function.update m a (if isMaskSet a then m a ||| v else v)

/-- A processor that runs the boot code. -/
structure Proc where
  code : List Instr
  cpu : Cpu

/-- What an instruction does. -/
inductive Effect where
  /-- Registers are written. -/
  | regs (b : Proc)
  /-- A word is loaded. -/
  | load (a : Word) (b : Word → Proc)
  /-- A word is stored. -/
  | store (a v : Word) (b : Proc)

/-- The next instruction.  A branch comes before the instruction in its delay slot, and `eret`
leaves the boot code. -/
def Proc.effect (lay : Layout) (b : Proc) : Option Effect :=
  match b.code with
  | .procid d :: rest => some (.regs ⟨rest, b.cpu.set d b.cpu.id⟩)
  | .andi d s imm :: rest => some (.regs ⟨rest, b.cpu.set d (b.cpu.gpr s &&& imm)⟩)
  | .li d imm :: rest => some (.regs ⟨rest, b.cpu.set d imm⟩)
  | .lui d sym :: rest => some (.regs ⟨rest, b.cpu.set d (upper (lay.address sym))⟩)
  | .addiu d sym :: rest =>
      let lower := lay.address sym - upper (lay.address sym)
      some (.regs ⟨rest, b.cpu.set d (b.cpu.gpr d + lower)⟩)
  | .addu d s t :: rest => some (.regs ⟨rest, b.cpu.set d (b.cpu.gpr s + b.cpu.gpr t)⟩)
  | .sw t offset r :: rest => some (.store (b.cpu.gpr r + offset) (b.cpu.gpr t) ⟨rest, b.cpu⟩)
  | .lw t offset r :: rest =>
      some (.load (b.cpu.gpr r + offset) fun v => ⟨rest, b.cpu.set t v⟩)
  | .mtc0 s c :: rest => some (.regs ⟨rest, b.cpu.setCop0 c (b.cpu.gpr s)⟩)
  | .beq s t label :: slot :: rest =>
      let target := if b.cpu.gpr s = b.cpu.gpr t then codeAt label else rest
      some (.regs ⟨slot :: target, b.cpu⟩)
  | _ => none

/-- What an instruction does is done. -/
def Effect.perform (m : Mem) : Effect → Proc × Mem
  | .regs b => (b, m)
  | .load a b => (b (m a), m)
  | .store a v b => (b, m.store a v)

/-- The word that is accessed. -/
def Effect.access : Effect → Option Word
  | .regs _ => none
  | .load a _ | .store a _ _ => some a

/-- An instruction is executed. -/
def Proc.step (lay : Layout) (b : Proc) (m : Mem) : Option (Proc × Mem) :=
  (b.effect lay).map (Effect.perform m)

/-- The boot code.  Once interrupts are enabled the code does not say what comes next. -/
def boot (lay : Layout) : Isa Unit Proc Word Word where
  exec _ b m := if enabled b.cpu.sr then none else b.step lay m
  Accesses _ b a := (b.effect lay).bind Effect.access = some a
  frame := by
    intro _ b b' m m' a hexec hacc
    split_ifs at hexec
    obtain ⟨e, he, hperform⟩ := Option.map_eq_some_iff.mp hexec
    rw [he] at hacc
    cases e with
    | regs b => cases hperform; rfl
    | load a b => cases hperform; rfl
    | store a' v b =>
        cases hperform
        exact Function.update_of_ne (fun h => hacc (congrArg some h.symm)) ..
  exec_agree := by
    intro _ b b' m m' m₂ hexec hsame
    split_ifs at hexec with hdisabled
    rw [if_neg hdisabled]
    obtain ⟨e, he, hperform⟩ := Option.map_eq_some_iff.mp hexec
    rw [Proc.step, he]
    rw [he] at hsame
    cases e with
    | regs b =>
        cases hperform
        exact ⟨_, rfl, nofun⟩
    | load a b =>
        cases hperform
        have ha : m₂ a = m a := hsame a rfl
        refine ⟨m₂, ?_, hsame⟩
        simp only [Option.map_some, Effect.perform, ha]
    | store a v b =>
        cases hperform
        have ha : m₂ a = m a := hsame a rfl
        refine ⟨_, rfl, ?_⟩
        rintro _ ⟨⟩
        simp only [Mem.store, Function.update_self, ha]

/-! ## What is reached -/

section Reaches

variable {lay : Layout} {A : Word → Prop} {Q : Proc → Mem → Prop} {rest : List Instr} {c : Cpu}
  {m : Mem} {b b' : Proc}

/-- A processor comes to the end of the boot code within the words `A`, and ends in `Q`. -/
def Reaches (lay : Layout) (A : Word → Prop) (Q : Proc → Mem → Prop) (b : Proc) (m : Mem) : Prop :=
  ∃ n, (boot lay).Leads A Q (List.replicate n ()) b m

theorem Reaches.done (h : Q b m) : Reaches lay A Q b m := ⟨0, h⟩

/-- One instruction. -/
theorem Reaches.perform (hsr : enabled b.cpu.sr = false) {e : Effect} (he : b.effect lay = some e)
    (hacc : ∀ a, e.access = some a → A a)
    (h : Reaches lay A Q (e.perform m).1 (e.perform m).2) : Reaches lay A Q b m := by
  obtain ⟨n, hn⟩ := h
  refine ⟨n + 1, _, _, ?_, fun a ha => ?_, hn⟩
  · show (if enabled b.cpu.sr then none else b.step lay m) = _
    rw [hsr, if_neg Bool.false_ne_true, Proc.step, he]
    rfl
  · have ha : (b.effect lay).bind Effect.access = some a := ha
    rw [he] at ha
    exact hacc a ha

theorem Reaches.procid {d : Nat} (hsr : enabled c.sr = false)
    (h : Reaches lay A Q ⟨rest, c.set d c.id⟩ m) : Reaches lay A Q ⟨.procid d :: rest, c⟩ m :=
  .perform hsr rfl nofun h

theorem Reaches.andi {d r : Nat} {imm : Word} (hsr : enabled c.sr = false)
    (h : Reaches lay A Q ⟨rest, c.set d (c.gpr r &&& imm)⟩ m) :
    Reaches lay A Q ⟨.andi d r imm :: rest, c⟩ m :=
  .perform hsr rfl nofun h

theorem Reaches.li {d : Nat} {imm : Word} (hsr : enabled c.sr = false)
    (h : Reaches lay A Q ⟨rest, c.set d imm⟩ m) : Reaches lay A Q ⟨.li d imm :: rest, c⟩ m :=
  .perform hsr rfl nofun h

theorem Reaches.lui {d : Nat} {sym : Sym} (hsr : enabled c.sr = false)
    (h : Reaches lay A Q ⟨rest, c.set d (upper (lay.address sym))⟩ m) :
    Reaches lay A Q ⟨.lui d sym :: rest, c⟩ m :=
  .perform hsr rfl nofun h

theorem Reaches.addu {d r t : Nat} (hsr : enabled c.sr = false)
    (h : Reaches lay A Q ⟨rest, c.set d (c.gpr r + c.gpr t)⟩ m) :
    Reaches lay A Q ⟨.addu d r t :: rest, c⟩ m :=
  .perform hsr rfl nofun h

theorem Reaches.sw {t r : Nat} {offset a : Word} (hsr : enabled c.sr = false)
    (ha : c.gpr r + offset = a) (hA : A a)
    (h : Reaches lay A Q ⟨rest, c⟩ (m.store a (c.gpr t))) :
    Reaches lay A Q ⟨.sw t offset r :: rest, c⟩ m := by
  subst ha
  refine .perform hsr rfl ?_ h
  rintro _ ⟨⟩
  exact hA

theorem Reaches.lw {t r : Nat} {offset a : Word} (hsr : enabled c.sr = false)
    (ha : c.gpr r + offset = a) (hA : A a) (h : Reaches lay A Q ⟨rest, c.set t (m a)⟩ m) :
    Reaches lay A Q ⟨.lw t offset r :: rest, c⟩ m := by
  subst ha
  refine .perform hsr rfl ?_ h
  rintro _ ⟨⟩
  exact hA

theorem Reaches.mtc0 {r : Nat} {k : Cop0} (hsr : enabled c.sr = false)
    (h : Reaches lay A Q ⟨rest, c.setCop0 k (c.gpr r)⟩ m) :
    Reaches lay A Q ⟨.mtc0 r k :: rest, c⟩ m :=
  .perform hsr rfl nofun h

theorem Reaches.beq {r t : Nat} {label : Fin 4} {slot : Instr} (hsr : enabled c.sr = false)
    (h : Reaches lay A Q
      ⟨slot :: if c.gpr r = c.gpr t then codeAt label else rest, c⟩ m) :
    Reaches lay A Q ⟨.beq r t label :: slot :: rest, c⟩ m :=
  .perform hsr rfl nofun h

/-- The two halves of an address. -/
theorem upper_add (a : Word) : upper a + (a - upper a) = a := by
  rw [BitVec.add_comm, BitVec.sub_add_cancel]

/-- `la $d, sym` -/
theorem Reaches.la {d : Nat} {sym : Sym} (hsr : enabled c.sr = false)
    (h : Reaches lay A Q ⟨rest, c.set d (lay.address sym)⟩ m) :
    Reaches lay A Q ⟨la d sym ++ rest, c⟩ m := by
  refine .lui hsr (.perform hsr rfl nofun ?_)
  have hset : (c.set d (upper (lay.address sym))).set d
      ((c.set d (upper (lay.address sym))).gpr d + (lay.address sym - upper (lay.address sym))) =
      c.set d (lay.address sym) := by
    rw [Cpu.set_gpr, upper_add]
    simp only [Cpu.set, Function.update_idem]
  show Reaches lay A Q ⟨rest, _⟩ m
  rw [hset]
  exact h

/-- The entries of the vector, one after the other. -/
theorem Reaches.installs {vectors : List (Isr × Word)}
    (hsr : enabled c.sr = false) (hbase : c.gpr 26 = lay.interruptVector)
    (hA : ∀ x ∈ vectors, A (lay.interruptVector + x.2))
    (hcells : ∀ x ∈ vectors, isMaskSet (lay.interruptVector + x.2) = false)
    (hdistinct : vectors.Pairwise fun x y => x.2 ≠ y.2)
    (h : ∀ (c' : Cpu) (m' : Mem), c'.sr = c.sr → c'.gpr 29 = c.gpr 29 →
      (∀ x ∈ vectors, m' (lay.interruptVector + x.2) = lay.isr x.1) →
      (∀ a, (∀ x ∈ vectors, a ≠ lay.interruptVector + x.2) → m' a = m a) →
      Reaches lay A Q ⟨rest, c'⟩ m') :
    Reaches lay A Q ⟨installs vectors ++ rest, c⟩ m := by
  induction vectors generalizing c m with
  | nil => exact h c m rfl rfl (by simp) fun a _ => rfl
  | cons x vectors ih =>
      obtain ⟨f, offset⟩ := x
      rw [List.pairwise_cons] at hdistinct
      have hcell := hcells _ List.mem_cons_self
      rw [Boot.installs, List.append_assoc]
      have hbase' : (c.set 27 (lay.isr f)).gpr 26 = lay.interruptVector := by
        rwa [Cpu.set_gpr_of_ne _ _ (by decide)]
      refine .la hsr (.sw hsr (congrArg (· + offset) hbase') (hA _ List.mem_cons_self) ?_)
      refine ih hsr hbase' (fun x hx => hA x (List.mem_cons_of_mem _ hx))
        (fun x hx => hcells x (List.mem_cons_of_mem _ hx)) hdistinct.2 ?_
      intro c' m' hsr' hsp hset hframe
      have hother : ∀ x ∈ vectors, lay.interruptVector + offset ≠ lay.interruptVector + x.2 := by
        intro x hx heq
        exact hdistinct.1 x hx (BitVec.add_right_inj _ |>.mp heq)
      refine h c' m' hsr' (by rw [hsp, Cpu.set_gpr_of_ne _ _ (by decide)]) ?_ fun a ha => ?_
      · intro x hx
        rcases List.mem_cons.mp hx with rfl | hx
        · rw [hframe _ hother, Mem.store, Function.update_self, hcell, if_neg Bool.false_ne_true]
          rfl
        · exact hset x hx
      · rw [hframe a fun x hx => ha x (List.mem_cons_of_mem _ hx)]
        exact Function.update_of_ne (ha _ List.mem_cons_self) ..

/-- What the code of a processor leaves to its `eret`. -/
structure Ready (lay : Layout) (u : Setup) (entry : Word) (b : Proc) (m : Mem) : Prop where
  code : b.code.head? = some .eret
  sr : b.cpu.sr = 0xFF13
  sp : b.cpu.gpr 29 = 0x02000000 + u.stack
  mask : m (0x9F000000 + u.maskSet) = u.mask
  vector : ∀ x ∈ u.vectors, m (lay.interruptVector + x.2) = lay.isr x.1
  epc : b.cpu.epc = entry

/-- The words a processor accesses before its `eret`. -/
def Own (lay : Layout) (u : Setup) (a : Word) : Prop :=
  a = 0x9F000000 + u.maskSet ∨ (∃ x ∈ u.vectors, a = lay.interruptVector + x.2) ∨
    a = 0x01000000 + u.main

theorem Reaches.block {u : Setup} {entry : Word}
    (hsr : enabled c.sr = false) (hmask : isMaskSet (0x9F000000 + u.maskSet) = true)
    (hcells : ∀ x ∈ u.vectors, isMaskSet (lay.interruptVector + x.2) = false)
    (hdistinct : u.vectors.Pairwise fun x y => x.2 ≠ y.2)
    (hdata : ∀ x ∈ u.vectors, 0x01000000 + u.main ≠ lay.interruptVector + x.2)
    (hnomask : 0x01000000 + u.main ≠ 0x9F000000 + u.maskSet)
    (hzero : m (0x9F000000 + u.maskSet) = 0) (hentry : m (0x01000000 + u.main) = entry) :
    Reaches lay (Own lay u) (Ready lay u entry) ⟨block u ++ rest, c⟩ m := by
  have hcell : ∀ x ∈ u.vectors, (0x9F000000 + u.maskSet : Word) ≠ lay.interruptVector + x.2 := by
    intro x hx heq
    rw [heq, hcells x hx] at hmask
    cases hmask
  have hff13 : enabled 0xFF13 = false := by decide
  simp only [Boot.block, List.append_assoc, List.cons_append, List.nil_append]
  refine .la hsr (.li hsr (.addu hsr (.la hsr (.li hsr (.sw hsr ?_ (.inl rfl) (.la hsr ?_))))))
  · simp [Layout.address]
  refine .installs hsr (Cpu.set_gpr ..) (fun x hx => .inr (.inl ⟨x, hx, rfl⟩)) hcells hdistinct
    fun c' m' hsr' hsp hset hframe => ?_
  have hsr' : enabled c'.sr = false := hsr'.symm ▸ hsr
  refine .li hsr' (.mtc0 hsr' (.la hff13 (.lw hff13 rfl (.inr (.inr rfl))
    (.mtc0 hff13 (.done ?_)))))
  refine ⟨rfl, rfl, ?_, ?_, hset, ?_⟩
  · simp [hsp, Layout.address, BitVec.add_comm]
  · rw [hframe _ hcell, Mem.store, Function.update_self, hmask, if_pos rfl, hzero]
    simp
  · have hkept : m' (0x01000000 + u.main) = entry := by
      rw [hframe _ hdata, ← hentry]
      exact Function.update_of_ne hnomask ..
    simpa [Cpu.setCop0, Layout.address] using hkept

/-! ## From `reset` on -/

theorem isMaskSet_ge {a : Word} (h : isMaskSet a = true) : 0x9F000000 ≤ a.toNat := by
  simp only [isMaskSet, Bool.or_eq_true, decide_eq_true_eq] at h
  obtain ((rfl | rfl) | rfl) | rfl := h <;> decide

theorem setup_maskSet : ∀ p, isMaskSet (0x9F000000 + (setup p).maskSet) = true := by
  decide

theorem setup_offset : ∀ p, ∀ x ∈ (setup p).vectors, x.2.toNat ≤ 60 := by
  decide

theorem setup_main : ∀ p, (0x01000000 + (setup p).main).toNat < 0x80000000 := by
  decide

theorem setup_distinct : ∀ p, (setup p).vectors.Pairwise fun x y => x.2 ≠ y.2 := by
  decide

theorem maskSet_injective : ∀ p q, (setup p).maskSet = (setup q).maskSet → p = q := by
  decide

theorem offset_injective :
    ∀ p q, ∀ x ∈ (setup p).vectors, ∀ y ∈ (setup q).vectors, x.2 = y.2 → p = q := by
  decide

theorem main_injective : ∀ p q, (setup p).main = (setup q).main → p = q := by
  decide

/-- The entries of the vector are in the data of the kernel. -/
theorem vector_cell (lay : Layout) {p : Fin 4} {x : Isr × Word} (hx : x ∈ (setup p).vectors) :
    0x80000000 ≤ (lay.interruptVector + x.2).toNat ∧
      (lay.interruptVector + x.2).toNat < 0x9F000000 := by
  have hoff := setup_offset p x hx
  have hlow := lay.vector_kernel.1
  have hhigh := lay.vector_kernel.2
  rw [BitVec.toNat_add, Nat.mod_eq_of_lt (by omega)]
  omega

theorem Reaches.proc (p : Fin 4) (hsr : enabled c.sr = false)
    (hzero : m (0x9F000000 + (setup p).maskSet) = 0) :
    Reaches lay (Own lay (setup p)) (Ready lay (setup p) (m (0x01000000 + (setup p).main)))
      ⟨codeAt p, c⟩ m := by
  have hcode : ∃ rest, codeAt p = Boot.block (setup p) ++ rest := by
    match p with
    | 0 => exact ⟨Boot.block (setup 1) ++ Boot.block (setup 2) ++ Boot.block (setup 3), rfl⟩
    | 1 => exact ⟨Boot.block (setup 2) ++ Boot.block (setup 3), rfl⟩
    | 2 => exact ⟨Boot.block (setup 3), rfl⟩
    | 3 => exact ⟨[], rfl⟩
  obtain ⟨rest, hcode⟩ := hcode
  rw [hcode]
  have hmain := setup_main p
  refine .block hsr (setup_maskSet p) (fun x hx => ?_) ?_ (fun x hx heq => ?_) (fun heq => ?_)
    hzero rfl
  · rw [Bool.eq_false_iff]
    intro h
    have := isMaskSet_ge h
    have := (vector_cell lay hx).2
    omega
  · exact setup_distinct p
  · have := (vector_cell lay hx).1
    rw [heq] at hmain
    omega
  · have := isMaskSet_ge (setup_maskSet p)
    rw [heq] at hmain
    omega

/-- `li $26, k` and `beq $27, $26, label` -/
theorem Reaches.dispatch {k : Word} {label : Fin 4} {slot : Instr} (hsr : enabled c.sr = false)
    (h : Reaches lay A Q
      ⟨slot :: if c.gpr 27 = k then codeAt label else rest, c.set 26 k⟩ m) :
    Reaches lay A Q ⟨.li 26 k :: .beq 27 26 label :: slot :: rest, c⟩ m := by
  refine .li hsr (.beq hsr ?_)
  rwa [Cpu.set_gpr, Cpu.set_gpr_of_ne _ _ (by decide)]

/-- A processor leaves the boot code with what is its own set up. -/
theorem reset_reaches (p : Fin 4) (hsr : enabled c.sr = false) (hid : c.id = BitVec.ofNat 32 p)
    (hzero : m (0x9F000000 + (setup p).maskSet) = 0) :
    Reaches lay (Own lay (setup p)) (Ready lay (setup p) (m (0x01000000 + (setup p).main)))
      ⟨reset, c⟩ m := by
  refine .procid hsr (.andi hsr ?_)
  match p with
  | 0 =>
      refine .dispatch hsr ?_
      rw [if_pos (by simp [hid])]
      exact .li hsr (.proc 0 hsr hzero)
  | 1 =>
      refine .dispatch hsr ?_
      rw [if_neg (by simp [hid])]
      refine .dispatch hsr ?_
      rw [if_pos (by simp [hid])]
      exact .li hsr (.proc 1 hsr hzero)
  | 2 =>
      refine .dispatch hsr ?_
      rw [if_neg (by simp [hid])]
      refine .dispatch hsr ?_
      rw [if_neg (by simp [hid])]
      refine .dispatch hsr ?_
      rw [if_pos (by simp [hid])]
      exact .li hsr (.proc 2 hsr hzero)
  | 3 =>
      have hid : c.id = 3 := hid
      refine .dispatch hsr ?_
      rw [if_neg (by simp [hid])]
      refine .dispatch hsr ?_
      rw [if_neg (by simp [hid])]
      refine .dispatch hsr ?_
      rw [if_neg (by simp [hid])]
      refine .dispatch hsr ?_
      rw [if_pos (by simp [hid])]
      -- The delay slot is the first half of the first `la` of `proc0`.
      exact .lui hsr (.proc 3 hsr hzero)

/-- Two processors access different words. -/
theorem Own.disjoint {p q : Fin 4} {a : Word} (hp : Own lay (setup p) a)
    (hq : Own lay (setup q) a) : p = q := by
  have hmain := setup_main
  rcases hp with rfl | ⟨x, hx, rfl⟩ | rfl
  · have hp := isMaskSet_ge (setup_maskSet p)
    rcases hq with heq | ⟨y, hy, heq⟩ | heq
    · exact maskSet_injective p q (BitVec.add_right_inj _ |>.mp heq)
    · have := (vector_cell lay hy).2
      rw [heq] at hp
      omega
    · have := hmain q
      rw [heq] at hp
      omega
  · have hp := vector_cell lay hx
    rcases hq with heq | ⟨y, hy, heq⟩ | heq
    · have := isMaskSet_ge (setup_maskSet q)
      rw [heq] at hp
      omega
    · exact offset_injective p q x hx y hy (BitVec.add_right_inj _ |>.mp heq)
    · have := hmain q
      rw [heq] at hp
      omega
  · have hp := hmain p
    rcases hq with heq | ⟨y, hy, heq⟩ | heq
    · have := isMaskSet_ge (setup_maskSet q)
      rw [heq] at hp
      omega
    · have := (vector_cell lay hy).1
      rw [heq] at hp
      omega
    · exact main_injective p q (BitVec.add_right_inj _ |>.mp heq)

theorem Ready.agree {p : Fin 4} {entry : Word} {m₂ : Mem}
    (hm : AgreeOn (Own lay (setup p)) m m₂) (h : Ready lay (setup p) entry b m) :
    Ready lay (setup p) entry b m₂ :=
  ⟨h.code, h.sr, h.sp, (hm _ (.inl rfl)).trans h.mask,
    fun x hx => (hm _ (.inr (.inl ⟨x, hx, rfl⟩))).trans (h.vector x hx), h.epc⟩

/-! ## While the other processors go on -/

theorem Ready.disabled {u : Setup} {entry : Word} (h : Ready lay u entry b m) :
    enabled b.cpu.sr = false := by
  rw [h.sr]
  decide

theorem Reaches.agree {p : Fin 4} {entry : Word} {m₂ : Mem}
    (hm : AgreeOn (Own lay (setup p)) m m₂)
    (h : Reaches lay (Own lay (setup p)) (Ready lay (setup p) entry) b m) :
    Reaches lay (Own lay (setup p)) (Ready lay (setup p) entry) b m₂ := by
  obtain ⟨n, hn⟩ := h
  exact ⟨n, hn.agree (fun _ _ _ hm => Ready.agree hm) hm⟩

/-- The code does not go past its `eret`. -/
theorem effect_of_eret (h : b.code.head? = some .eret) : b.effect lay = none := by
  obtain ⟨code, c⟩ := b
  cases code with
  | nil => cases h
  | cons i rest =>
      cases h
      rfl

/-- The boot code is at its `eret`, or has a next step. -/
theorem Reaches.cases {u : Setup} {entry : Word} (h : Reaches lay A (Ready lay u entry) b m) :
    (b.code.head? = some .eret ∧ Ready lay u entry b m) ∨
      (b.code.head? ≠ some .eret ∧ enabled b.cpu.sr = false ∧
        ∃ b' m', (boot lay).exec () b m = some (b', m') ∧ (∀ a, ¬ A a → m' a = m a) ∧
          Reaches lay A (Ready lay u entry) b' m') := by
  obtain ⟨n, hn⟩ := h
  cases n with
  | zero => exact .inl ⟨Ready.code hn, hn⟩
  | succ n =>
      obtain ⟨b', m', hexec, hwithin, hrest⟩ := hn
      have hdisabled : enabled b.cpu.sr = false := by
        rw [Bool.eq_false_iff]
        intro henabled
        have hexec : (if enabled b.cpu.sr then none else b.step lay m) = some (b', m') := hexec
        rw [henabled, if_pos rfl] at hexec
        cases hexec
      refine .inr ⟨fun heret => ?_, hdisabled, b', m', hexec, fun a ha => ?_, n, hrest⟩
      · have hexec : (if enabled b.cpu.sr then none else b.step lay m) = some (b', m') := hexec
        rw [hdisabled, if_neg Bool.false_ne_true, Proc.step, effect_of_eret heret] at hexec
        cases hexec
      · exact (boot lay).frame hexec fun hacc => ha (hwithin a hacc)

theorem Reaches.disabled {u : Setup} {entry : Word}
    (h : Reaches lay A (Ready lay u entry) b m) : enabled b.cpu.sr = false := by
  obtain ⟨_, hready⟩ | ⟨_, hdisabled, _⟩ := h.cases
  · exact hready.disabled
  · exact hdisabled

/-- A processor keeps its number. -/
theorem exec_id {m' : Mem} (h : (boot lay).exec () b m = some (b', m')) :
    b'.cpu.id = b.cpu.id := by
  have h : (if enabled b.cpu.sr then none else b.step lay m) = some (b', m') := h
  split_ifs at h
  obtain ⟨e, he, hperform⟩ := Option.map_eq_some_iff.mp h
  obtain ⟨code, c⟩ := b
  unfold Proc.effect at he
  split at he <;> cases he <;> cases hperform
  case h_9 => exact Cpu.setCop0_id ..
  all_goals rfl

end Reaches

end SmcTp.Giet.Boot
