import Mathlib.Algebra.Ring.Nat
import Mathlib.Logic.Function.Basic
import SmcTp.Clocked.Run
import SmcTp.Giet.Boot

/-!
# The interrupts of a platform with four processors

The lines of the devices go to the inputs of one interrupt controller, which has an output for
each processor.  The boot code of a processor lets its output show some of the inputs, and
writes the service routines for them into a vector that all processors share.  `_int_demux`
asks the controller for the first input that is up and runs the routine it finds in the vector.

The processors come from `reset` at different speeds, and the devices raise and lower their
lines at any time.  `interrupts_served` says that nothing can go wrong between them, as long as
what the boot code sets up is not written later and a processor keeps its number (`Legal`).

`_isr_timer` and `_isr_default` print messages.  `_putk` does so with `_tty_write`, on the
terminal of the current task, which need not be the one with the number of the processor.
-/

namespace SmcTp.Giet.Interrupts

open Boot Clocked Programs

/-! ## The devices -/

/-- The devices with an interrupt line. -/
inductive Device where
  | ioc
  | dma (i : Fin 4)
  | tim (i : Fin 4)
  | tty (i : Fin 4)
deriving DecidableEq, Repr

/-- The lines at the inputs of the interrupt controller.  The others are never up. -/
def wired : Nat → Option Device
  | 0 => some .ioc
  | 4 => some (.dma 0)
  | 5 => some (.dma 1)
  | 6 => some (.dma 2)
  | 7 => some (.dma 3)
  | 8 => some (.tim 0)
  | 9 => some (.tim 1)
  | 10 => some (.tim 2)
  | 11 => some (.tim 3)
  | 12 => some (.tty 0)
  | 13 => some (.tty 1)
  | 14 => some (.tty 2)
  | 15 => some (.tty 3)
  | _ => none

namespace Device

/-- The input of the interrupt controller. -/
def input : Device → Nat
  | .ioc => 0
  | .dma i => 4 + i
  | .tim i => 8 + i
  | .tty i => 12 + i

/-- The processor that serves the device. -/
def owner : Device → Fin 4
  | .ioc => 0
  | .dma i | .tim i | .tty i => i

/-- Its service routine. -/
def isr : Device → Isr
  | .ioc => .ioc
  | .dma _ => .dma
  | .tim _ => .timer
  | .tty _ => .ttyGetTask0

/-- The first byte of its registers, and their number. -/
def registers : Device → Word × Nat
  | .ioc => (0x92000000, 8)
  | .dma i => (0x93000000 + 32 * BitVec.ofNat 32 i, 8)
  | .tim i => (0x91000000 + 16 * BitVec.ofNat 32 i, 4)
  | .tty i => (0x90000000 + 16 * BitVec.ofNat 32 i, 4)

/-- The register whose access acknowledges the interrupt. -/
def acknowledge : Device → Word
  | .ioc => 0x92000000 + 4 * 4
  | .dma i => 0x93000000 + 4 * (BitVec.ofNat 32 i * 8 + 3)
  | .tim i => 0x91000000 + 4 * (BitVec.ofNat 32 i * 4 + 3)
  | .tty i => 0x90000000 + 4 * (BitVec.ofNat 32 i * 4 + 2)

/-- The address is one of a register of the device. -/
def Decodes (d : Device) (a : Word) : Prop :=
  (a - d.registers.1).toNat < 4 * d.registers.2 ∧ 4 ∣ (a - d.registers.1).toNat

instance (d : Device) (a : Word) : Decidable (d.Decodes a) :=
  inferInstanceAs (Decidable (_ ∧ _))

end Device

/-! ## The processors -/

/-- `_procid` -/
def procId (c : Cpu) : Word := c.id &&& 0x3FF

/-- The registers `_tty_write` accesses for this `tty_id`: `TTY_STATUS` and `TTY_WRITE`. -/
def ttyWriteAccesses (ttyId : Word) : List Word :=
  [0x90000000 + 4 * (ttyId * 4 + 1), 0x90000000 + 4 * (ttyId * 4 + 0)]

/-- The registers a service routine accesses on a processor, when `_tty_write` finds this
`tty_id` for the current task. -/
def accesses (procId ttyId : Word) : Isr → List Word
  | .ioc => [0x92000000 + 4 * 4]
  | .dma => [0x93000000 + 4 * (procId * 8 + 2), 0x93000000 + 4 * (procId * 8 + 3)]
  | .timer => (0x91000000 + 4 * (procId * 4 + 3)) :: ttyWriteAccesses ttyId
  | .ttyGetTask0 => [0x90000000 + 4 * (procId * 1 * 4 + 0 * 4 + 2)]
  | .default => ttyWriteAccesses ttyId

/-- A register of the interrupt controller, as `_icu_read` finds it. -/
def icuRegister (c : Cpu) (r : Word) : Word := 0x9F000000 + 4 * (procId c * 8 + r)

/-- The interrupt controller. -/
structure Icu where
  /-- What `ICU_IT_VECTOR` shows when no input is up. -/
  idle : Nat
  idle_gt : 31 < idle

/-- `ICU_IT_VECTOR`: the first input that is up and in the mask. -/
def Icu.itVector (icu : Icu) (mask : Word) (lines : Device → Bool) : Nat :=
  ((List.range 32).find? fun i => (wired i).any lines && mask.getLsbD i).getD icu.idle

/-- What a processor is doing. -/
inductive Phase where
  /-- The boot code. -/
  | boot (b : Proc)
  /-- A program or a system call. -/
  | program (c : Cpu)
  /-- `_int_handler` and `_int_demux` up to `_icu_read`. -/
  | demux (c : Cpu)
  /-- `_int_demux` with an index, which it got when the lines were so. -/
  | index (c : Cpu) (i : Nat) (lines : Device → Bool)
  /-- `isr()`, at an address. -/
  | isr (c : Cpu) (f : Word)

/-- The registers. -/
def Phase.cpu : Phase → Cpu
  | .boot b => b.cpu
  | .program c | .demux c | .index c _ _ | .isr c _ => c

/-- The processor takes an interrupt. -/
def taken (c : Cpu) : Cpu := { c with sr := c.sr ||| 0x2 }

/-- `eret` -/
def eret (c : Cpu) : Cpu := { c with sr := c.sr &&& ~~~0x2 }

/-- A service routine that was called. -/
structure Served where
  proc : Fin 4
  cpu : Cpu
  /-- The lines of the devices when `ICU_IT_VECTOR` was read. -/
  lines : Device → Bool
  /-- The address. -/
  f : Word

/-- The platform. -/
structure State where
  mem : Mem
  lines : Device → Bool
  phase : Fin 4 → Phase
  /-- Where each processor has left the boot code for, and with which stack pointer. -/
  entered : Fin 4 → Option (Word × Word)
  served : List Served

/-- What happens. -/
inductive Event where
  /-- The next step of the boot code or of the interrupt handler. -/
  | step (p : Fin 4)
  /-- A program or a system call computes. -/
  | compute (p : Fin 4) (c : Cpu)
  /-- A program, a system call or a service routine stores a word. -/
  | store (p : Fin 4) (a v : Word)
  | interrupt (p : Fin 4)
  /-- A device raises or lowers its line. -/
  | line (d : Device) (up : Bool)

namespace State

/-- A processor goes on. -/
def goTo (s : State) (p : Fin 4) (x : Phase) : State :=
  { s with phase := Function.update s.phase p x }

/-- A processor leaves the boot code. -/
def enter (s : State) (p : Fin 4) (c : Cpu) : State :=
  { s.goTo p (.program (eret c)) with
    entered := Function.update s.entered p (some (c.epc, c.gpr 29)) }

/-- A service routine is called. -/
def serve (s : State) (p : Fin 4) (c : Cpu) (lines : Device → Bool) (f : Word) : State :=
  { s.goTo p (.isr c f) with served := ⟨p, c, lines, f⟩ :: s.served }

end State

/-- The next step of the boot code or of the interrupt handler. -/
def stepProc (lay : Layout) (icu : Icu) (s : State) (p : Fin 4) : Option State :=
  match s.phase p with
  | .boot b =>
      if b.code.head? = some .eret then some (s.enter p b.cpu)
      else ((boot lay).exec () b s.mem).map fun x => { s.goTo p (.boot x.1) with mem := x.2 }
  | .program _ => none
  | .demux c =>
      some (s.goTo p (.index c (icu.itVector (s.mem (icuRegister c 2)) s.lines) s.lines))
  | .index c i lines =>
      if 31 < i then some (s.goTo p (.program (eret c)))
      else some (s.serve p c lines (s.mem (lay.interruptVector + 4 * BitVec.ofNat 32 i)))
  | .isr c _ => some (s.goTo p (.program (eret c)))

/-- A step of the platform. -/
def next (lay : Layout) (icu : Icu) (s : State) : Event → Option State
  | .step p => stepProc lay icu s p
  | .compute p c =>
      match s.phase p with
      | .program _ => some (s.goTo p (.program c))
      | _ => none
  | .store p a v =>
      match s.phase p with
      | .program _ | .isr _ _ => some { s with mem := s.mem.store a v }
      | _ => none
  | .interrupt p =>
      if enabled (s.phase p).cpu.sr then some (s.goTo p (.demux (taken (s.phase p).cpu)))
      else none
  | .line d up => some { s with lines := Function.update s.lines d up }

/-- `ICU_MASK_CLEAR` of a processor. -/
def maskClear (p : Fin 4) : Word := 0x9F000000 + 4 * (BitVec.ofNat 32 p * 8 + 3)

/-- What the boot code has set up is not written later: programs do not name the table of
their entry points, and no system call or service routine writes the vector or the masks, by
`ICU_MASK_SET` or by `ICU_MASK_CLEAR`.  A processor keeps its number. -/
def Legal (lay : Layout) (s : State) : Event → Prop
  | .compute p c => c.id = (s.phase p).cpu.id
  | .store _ a _ => ∀ p, ¬ Own lay (setup p) a ∧ a ≠ maskClear p
  | _ => True

/-- The reset. -/
structure Start (entry : Fin 4 → Word) (s : State) : Prop where
  entries : ∀ p, s.mem (0x01000000 + (setup p).main) = entry p
  masks : ∀ p, s.mem (0x9F000000 + (setup p).maskSet) = 0
  phase : ∀ p, ∃ c : Cpu, s.phase p = .boot ⟨reset, c⟩ ∧ c.id = BitVec.ofNat 32 p ∧
    enabled c.sr = false
  entered : ∀ p, s.entered p = none
  served : s.served = []

instance (lay : Layout) (u : Setup) (a : Word) : Decidable (Own lay u a) :=
  inferInstanceAs (Decidable (_ ∨ _ ∨ _))

instance (lay : Layout) (s : State) : (e : Event) → Decidable (Legal lay s e)
  | .compute p c => inferInstanceAs (Decidable (c.id = (s.phase p).cpu.id))
  | .store _ a _ => inferInstanceAs (Decidable (∀ p, ¬ Own lay (setup p) a ∧ a ≠ maskClear p))
  | .step _ | .interrupt _ | .line _ _ => isTrue trivial

/-- The platform, whose programs start at `entry`. -/
def system (lay : Layout) (icu : Icu) (entry : Fin 4 → Word) : System State Event :=
  System.under ⟨Start entry, fun s e s' => next lay icu s e = some s'⟩ (Legal lay)

/-! ## What the boot code sets up -/

/-- What a processor finds when it takes an interrupt. -/
structure SetUp (lay : Layout) (p : Fin 4) (m : Mem) : Prop where
  mask : m (0x9F000000 + (setup p).maskSet) = (setup p).mask
  vector : ∀ x ∈ (setup p).vectors, m (lay.interruptVector + x.2) = lay.isr x.1

section SetUp

variable {lay : Layout} {icu : Icu} {p : Fin 4} {c : Cpu} {lines : Device → Bool} {m m' : Mem}

theorem SetUp.agree (h : SetUp lay p m) (hm : AgreeOn (Own lay (setup p)) m m') :
    SetUp lay p m' :=
  ⟨(hm _ (.inl rfl)).trans h.mask,
    fun x hx => (hm _ (.inr (.inl ⟨x, hx, rfl⟩))).trans (h.vector x hx)⟩

theorem procId_eq (hid : c.id = BitVec.ofNat 32 p) : procId c = BitVec.ofNat 32 p := by
  have hmasked : ∀ p : Fin 4, BitVec.ofNat 32 p &&& 0x3FF = BitVec.ofNat 32 p := by decide
  rw [procId, hid, hmasked]

/-- The boot code and `_icu_read` agree on the registers of a processor. -/
theorem icuRegister_maskSet (hid : c.id = BitVec.ofNat 32 p) :
    icuRegister c 2 = 0x9F000000 + (setup p).maskSet := by
  have hregister : ∀ p : Fin 4, (0x9F000000 + 4 * (BitVec.ofNat 32 p * 8 + 2) : Word) =
      0x9F000000 + (setup p).maskSet := by decide
  rw [icuRegister, procId_eq hid, hregister]

/-- An input that the mask of a processor shows is wired to a device of the processor, and the
processor has the service routine of the device in the vector. -/
theorem wired_of_mask : ∀ p : Fin 4, ∀ i < 32, (setup p).mask.getLsbD i = true →
    (wired i).any (fun d => d.owner = p ∧ d.input = i ∧
      (d.isr, 4 * BitVec.ofNat 32 i) ∈ (setup p).vectors) = true := by
  decide

/-- The mask of its processor shows every device. -/
theorem mask_input (d : Device) : d.input < 32 ∧ wired d.input = some d ∧
    (setup d.owner).mask.getLsbD d.input = true := by
  cases d with
  | ioc => decide
  | dma i | tim i | tty i => revert i; decide

/-- The routine of a device acknowledges the interrupt on its processor. -/
theorem acknowledge_mem (d : Device) (ttyId : Word) :
    d.acknowledge ∈ accesses (BitVec.ofNat 32 d.owner) ttyId d.isr := by
  cases d with
  | ioc => exact List.mem_cons_self
  | dma i => exact List.mem_cons_of_mem _ List.mem_cons_self
  | tim i => exact List.mem_cons_self
  | tty i =>
      have hread : ∀ i : Fin 4, (Device.tty i).acknowledge ∈
          accesses (BitVec.ofNat 32 i) 0 .ttyGetTask0 := by decide
      exact hread i

/-- It accesses this device, and for its message the terminal of the current task. -/
theorem decodes_of_mem (d : Device) {ttyId a : Word}
    (ha : a ∈ accesses (BitVec.ofNat 32 d.owner) ttyId d.isr) :
    d.Decodes a ∨ d.isr = .timer ∧ a ∈ ttyWriteAccesses ttyId := by
  cases d with
  | ioc =>
      rw [List.mem_singleton.mp ha]
      exact .inl (by decide)
  | dma i =>
      have hall : ∀ i : Fin 4, (accesses (BitVec.ofNat 32 i) 0 .dma).all
          (fun a => (Device.dma i).Decodes a) = true := by decide
      exact .inl (of_decide_eq_true (List.all_eq_true.mp (hall i) a ha))
  | tim i =>
      have hreset : ∀ i : Fin 4,
          (Device.tim i).Decodes (0x91000000 + 4 * (BitVec.ofNat 32 i * 4 + 3)) := by decide
      rcases List.mem_cons.mp ha with rfl | htty
      · exact .inl (hreset i)
      · exact .inr ⟨rfl, htty⟩
  | tty i =>
      have hall : ∀ i : Fin 4, (accesses (BitVec.ofNat 32 i) 0 .ttyGetTask0).all
          (fun a => (Device.tty i).Decodes a) = true := by decide
      exact .inl (of_decide_eq_true (List.all_eq_true.mp (hall i) a ha))

theorem Icu.itVector_spec (icu : Icu) (mask : Word) (lines : Device → Bool) :
    (31 < icu.itVector mask lines ∧
      ∀ j < 32, ((wired j).any lines && mask.getLsbD j) = false) ∨
    (icu.itVector mask lines < 32 ∧
      ((wired (icu.itVector mask lines)).any lines && mask.getLsbD (icu.itVector mask lines)) =
        true ∧
      ∀ j < icu.itVector mask lines, ((wired j).any lines && mask.getLsbD j) = false) := by
  unfold Icu.itVector
  cases hfind : (List.range 32).find? fun i => (wired i).any lines && mask.getLsbD i with
  | none =>
      rw [List.find?_range_eq_none] at hfind
      exact .inl ⟨icu.idle_gt, fun j hj => (Bool.not_eq_true' _).mp (hfind j hj)⟩
  | some i =>
      rw [List.find?_range_eq_some] at hfind
      exact .inr ⟨List.mem_range.mp hfind.2.1, hfind.1,
        fun j hj => (Bool.not_eq_true' _).mp (hfind.2.2 j hj)⟩

/-- A processor finds the first of its devices that has its line up, if there is one. -/
theorem itVector_setup (icu : Icu) (p : Fin 4) (lines : Device → Bool) :
    (31 < icu.itVector (setup p).mask lines ∧ ∀ d, d.owner = p → lines d = false) ∨
    ∃ d, icu.itVector (setup p).mask lines = d.input ∧ d.owner = p ∧ lines d = true ∧
      ∀ d', d'.owner = p → lines d' = true → d.input ≤ d'.input := by
  obtain ⟨hidle, hdown⟩ | ⟨hlt, hup, hfirst⟩ := icu.itVector_spec (setup p).mask lines
  · refine .inl ⟨hidle, fun d hd => ?_⟩
    subst hd
    obtain ⟨hlt, hwired, hmask⟩ := mask_input d
    simpa [hwired, hmask] using hdown d.input hlt
  · rw [Bool.and_eq_true] at hup
    obtain ⟨d, hd, howner⟩ := (Option.any_eq_true _ _).mp (wired_of_mask p _ hlt hup.2)
    have howner := of_decide_eq_true howner
    refine .inr ⟨d, howner.2.1.symm, howner.1, ?_, fun d' hd' hup' => ?_⟩
    · simpa [hd] using hup.1
    · subst hd'
      obtain ⟨_, hwired, hmask⟩ := mask_input d'
      by_contra hlt'
      have := hfirst d'.input (by omega)
      simp [hwired, hmask, hup'] at this

end SetUp

/-! ## The invariant -/

/-- The right routine was called: that of the first device of the processor whose line was up
when the controller was asked.  Whatever the terminal of the current task, the routine
acknowledges the interrupt of this device, and accesses no other one but for the message of a
timer. -/
def Right (lay : Layout) (x : Served) : Prop :=
  ∃ d : Device, d.owner = x.proc ∧ x.lines d = true ∧
    (∀ d', d'.owner = x.proc → x.lines d' = true → d.input ≤ d'.input) ∧
    x.f = lay.isr d.isr ∧
    ∀ ttyId, d.acknowledge ∈ accesses (procId x.cpu) ttyId d.isr ∧
      ∀ a ∈ accesses (procId x.cpu) ttyId d.isr,
        d.Decodes a ∨ d.isr = .timer ∧ a ∈ ttyWriteAccesses ttyId

/-- The stack pointer a processor leaves the boot code with. -/
def top (p : Fin 4) : Word := 0x02000000 + (setup p).stack

/-- What a processor has, and what it may rely on. -/
inductive ProcInv (lay : Layout) (icu : Icu) (entry : Fin 4 → Word) (p : Fin 4) (m : Mem) :
    Phase → Option (Word × Word) → Prop where
  | boot {b : Proc} : b.cpu.id = BitVec.ofNat 32 p →
      Reaches lay (Own lay (setup p)) (Ready lay (setup p) (entry p)) b m →
      ProcInv lay icu entry p m (.boot b) none
  | program {c : Cpu} : c.id = BitVec.ofNat 32 p → SetUp lay p m →
      ProcInv lay icu entry p m (.program c) (some (entry p, top p))
  | demux {c : Cpu} : c.id = BitVec.ofNat 32 p → SetUp lay p m → enabled c.sr = false →
      ProcInv lay icu entry p m (.demux c) (some (entry p, top p))
  | index {c : Cpu} {lines : Device → Bool} : c.id = BitVec.ofNat 32 p → SetUp lay p m →
      enabled c.sr = false →
      ProcInv lay icu entry p m (.index c (icu.itVector (setup p).mask lines) lines)
        (some (entry p, top p))
  | isr {c : Cpu} {f : Word} : c.id = BitVec.ofNat 32 p → SetUp lay p m → enabled c.sr = false →
      ProcInv lay icu entry p m (.isr c f) (some (entry p, top p))

/-- The platform works as it should. -/
structure Inv (lay : Layout) (icu : Icu) (entry : Fin 4 → Word) (s : State) : Prop where
  proc : ∀ p, ProcInv lay icu entry p s.mem (s.phase p) (s.entered p)
  served : ∀ x ∈ s.served, Right lay x

section Inv

variable {lay : Layout} {icu : Icu} {entry : Fin 4 → Word} {p : Fin 4} {m m' : Mem} {x : Phase}
  {en : Option (Word × Word)} {s s' : State}

theorem ProcInv.agree (h : ProcInv lay icu entry p m x en)
    (hm : AgreeOn (Own lay (setup p)) m m') : ProcInv lay icu entry p m' x en := by
  cases h with
  | boot hid hreaches => exact .boot hid (hreaches.agree hm)
  | program hid hset => exact .program hid (hset.agree hm)
  | demux hid hset hsr => exact .demux hid (hset.agree hm) hsr
  | index hid hset hsr => exact .index hid (hset.agree hm) hsr
  | isr hid hset hsr => exact .isr hid (hset.agree hm) hsr

/-- A processor has the interrupts enabled in its programs only. -/
theorem ProcInv.program_of_enabled (h : ProcInv lay icu entry p m x en)
    (henabled : enabled x.cpu.sr = true) : ∃ c, x = .program c := by
  cases h with
  | boot _ hreaches => exact absurd henabled (by simp [Phase.cpu, hreaches.disabled])
  | program => exact ⟨_, rfl⟩
  | demux _ _ hsr | index _ _ hsr | isr _ _ hsr =>
      exact absurd henabled (by simp [Phase.cpu, hsr])

/-- One processor goes on, and the others keep what they have. -/
theorem Inv.goOn (h : Inv lay icu entry s) (p : Fin 4)
    (hself : ProcInv lay icu entry p s'.mem (s'.phase p) (s'.entered p))
    (hphase : ∀ q, q ≠ p → s'.phase q = s.phase q)
    (hentered : ∀ q, q ≠ p → s'.entered q = s.entered q)
    (hmem : ∀ q, q ≠ p → AgreeOn (Own lay (setup q)) s.mem s'.mem)
    (hserved : ∀ x ∈ s'.served, Right lay x) : Inv lay icu entry s' := by
  refine ⟨fun q => ?_, hserved⟩
  by_cases hq : q = p
  · subst hq
    exact hself
  · rw [hphase q hq, hentered q hq]
    exact (h.proc q).agree (hmem q hq)

/-- A processor goes on within its registers. -/
theorem Inv.goTo (h : Inv lay icu entry s)
    (hself : ProcInv lay icu entry p s.mem x (s.entered p)) :
    Inv lay icu entry (s.goTo p x) := by
  refine h.goOn p ?_ (fun q hq => Function.update_of_ne hq ..) (fun q _ => rfl)
    (fun q _ a _ => rfl) h.served
  simpa [State.goTo] using hself

theorem taken_disabled (c : Cpu) : enabled (taken c).sr = false := by
  rw [Bool.eq_false_iff]
  intro henabled
  have heq : (c.sr ||| 0x2) &&& 0x7 = 0x1 := of_decide_eq_true henabled
  have hexl := congrArg (fun v => BitVec.getLsbD v 1) heq
  simp at hexl

theorem Inv.start (h : Start entry s) : Inv lay icu entry s := by
  refine ⟨fun p => ?_, fun x hx => ?_⟩
  · obtain ⟨c, hphase, hid, hsr⟩ := h.phase p
    rw [hphase, h.entered p]
    refine .boot hid ?_
    rw [← h.entries p]
    exact reset_reaches p hsr hid (h.masks p)
  · rw [h.served] at hx
    cases hx

/-- The boot code goes on, or leaves. -/
theorem Inv.boot (h : Inv lay icu entry s) {b : Proc} (hphase : s.phase p = .boot b)
    (hentered : s.entered p = none)
    (hid : b.cpu.id = BitVec.ofNat 32 p)
    (hreaches : Reaches lay (Own lay (setup p)) (Ready lay (setup p) (entry p)) b s.mem)
    (hnext : stepProc lay icu s p = some s') : Inv lay icu entry s' := by
  simp only [stepProc, hphase] at hnext
  obtain ⟨heret, hready⟩ | ⟨hcode, _, b', m', hexec, hframe, hrest⟩ := hreaches.cases
  · rw [if_pos heret] at hnext
    cases hnext
    refine h.goOn p ?_ (fun q hq => Function.update_of_ne hq ..)
      (fun q hq => Function.update_of_ne hq ..) (fun q _ a _ => rfl) h.served
    have hset : SetUp lay p s.mem := ⟨hready.mask, hready.vector⟩
    simpa [State.enter, State.goTo, hready.epc, hready.sp, top] using
      ProcInv.program (c := eret b.cpu) hid hset
  · rw [if_neg hcode, hexec] at hnext
    cases hnext
    refine h.goOn p ?_ (fun q hq => Function.update_of_ne hq ..) (fun q _ => rfl) ?_ h.served
    · have hproc : ProcInv lay icu entry p m' (.boot b') none :=
        .boot ((exec_id hexec).trans hid) hrest
      simpa [State.goTo, hentered] using hproc
    · intro q hq a ha
      exact hframe a fun hp => hq (Own.disjoint ha hp)

/-- `_int_demux` finds the right routine, or nothing to do. -/
theorem Inv.index (h : Inv lay icu entry s) {c : Cpu} {lines : Device → Bool}
    (hphase : s.phase p = .index c (icu.itVector (setup p).mask lines) lines)
    (hentered : s.entered p = some (entry p, top p))
    (hid : c.id = BitVec.ofNat 32 p) (hset : SetUp lay p s.mem) (hsr : enabled c.sr = false)
    (hnext : stepProc lay icu s p = some s') : Inv lay icu entry s' := by
  simp only [stepProc, hphase] at hnext
  obtain ⟨hidle, _⟩ | ⟨d, hd, howner, hup, hfirst⟩ := itVector_setup icu p lines
  · rw [if_pos hidle] at hnext
    cases hnext
    exact h.goTo (hentered ▸ .program hid hset)
  · subst howner
    obtain ⟨hlt, hwired, hmask⟩ := mask_input d
    rw [hd, if_neg (by omega)] at hnext
    cases hnext
    obtain ⟨d', hd', hentry⟩ := (Option.any_eq_true _ _).mp (wired_of_mask _ _ hlt hmask)
    rw [hwired] at hd'
    cases hd'
    have hf := hset.vector _ (of_decide_eq_true hentry).2.2
    refine h.goOn d.owner ?_ (fun q hq => Function.update_of_ne hq ..) (fun q _ => rfl)
      (fun q _ a _ => rfl) fun x hx => ?_
    · simpa [State.serve, State.goTo, hentered] using ProcInv.isr hid hset hsr
    · rcases List.mem_cons.mp hx with rfl | hx
      · refine ⟨d, rfl, hup, hfirst, hf, fun ttyId => ?_⟩
        rw [procId_eq hid]
        exact ⟨acknowledge_mem d ttyId, fun a => decodes_of_mem d⟩
      · exact h.served x hx

theorem Inv.stepProc (h : Inv lay icu entry s)
    (hnext : Interrupts.stepProc lay icu s p = some s') : Inv lay icu entry s' := by
  have hproc := h.proc p
  generalize hx : s.phase p = x at hproc
  generalize hen : s.entered p = en at hproc
  cases hproc with
  | boot hid hreaches => exact h.boot hx hen hid hreaches hnext
  | program =>
      rw [Interrupts.stepProc, hx] at hnext
      cases hnext
  | demux hid hset hsr =>
      rw [Interrupts.stepProc, hx] at hnext
      cases hnext
      rw [icuRegister_maskSet hid, hset.mask]
      exact h.goTo (hen ▸ .index hid hset hsr)
  | index hid hset hsr => exact h.index hx hen hid hset hsr hnext
  | isr hid hset _ =>
      rw [Interrupts.stepProc, hx] at hnext
      cases hnext
      exact h.goTo (hen ▸ .program hid hset)

theorem Inv.step {e : Event} (h : Inv lay icu entry s)
    (hstep : (system lay icu entry).step s e s') : Inv lay icu entry s' := by
  obtain ⟨hlegal, hnext⟩ := hstep
  have hnext : next lay icu s e = some s' := hnext
  cases e with
  | step p => exact h.stepProc hnext
  | compute p c =>
      have hproc := h.proc p
      generalize hx : s.phase p = x at hproc
      generalize hen : s.entered p = en at hproc
      have hlegal : c.id = (s.phase p).cpu.id := hlegal
      rw [next, hx] at hnext
      cases hproc with
      | program hid hset =>
          cases hnext
          rw [hx] at hlegal
          exact h.goTo (hen ▸ .program (hlegal.trans hid) hset)
      | boot | demux | index | isr => cases hnext
  | store p a v =>
      have hkept : ∀ q, AgreeOn (Own lay (setup q)) s.mem (s.mem.store a v) :=
        fun q b hb => Function.update_of_ne (fun heq : b = a => (hlegal q).1 (heq ▸ hb)) ..
      rw [next] at hnext
      split at hnext <;> cases hnext <;> exact ⟨fun q => (h.proc q).agree (hkept q), h.served⟩
  | interrupt p =>
      rw [next] at hnext
      split_ifs at hnext with henabled
      cases hnext
      have hproc := h.proc p
      obtain ⟨c, hx⟩ := hproc.program_of_enabled henabled
      rw [hx] at hproc ⊢
      generalize hen : s.entered p = en at hproc
      cases hproc with
      | program hid hset => exact h.goTo (hen ▸ .demux hid hset (taken_disabled c))
  | line d up =>
      cases hnext
      exact ⟨h.proc, h.served⟩

theorem inv_of_reachable (hs : (system lay icu entry).Reachable s) : Inv lay icu entry s :=
  hs.invariant (fun _ => Inv.start) fun _ _ _ => Inv.step

/-- A processor that is not in a program has a next step. -/
theorem Inv.exists_next (h : Inv lay icu entry s) (hx : ∀ c, s.phase p ≠ .program c) :
    ∃ s', next lay icu s (.step p) = some s' := by
  have hproc := h.proc p
  generalize hphase : s.phase p = x at hproc
  generalize hentered : s.entered p = en at hproc
  cases hproc with
  | boot hid hreaches =>
      simp only [next, Interrupts.stepProc, hphase]
      obtain ⟨heret, _⟩ | ⟨hcode, _, b', m', hexec, _⟩ := hreaches.cases
      · exact ⟨_, if_pos heret⟩
      · rw [if_neg hcode, hexec]
        exact ⟨_, rfl⟩
  | program => exact absurd hphase (hx _)
  | demux | isr =>
      simp only [next, Interrupts.stepProc, hphase]
      exact ⟨_, rfl⟩
  | index =>
      simp only [next, Interrupts.stepProc, hphase]
      split_ifs <;> exact ⟨_, rfl⟩

theorem top_eq : ∀ p, top p = 0x02000000 + BitVec.ofNat 32 (p + 1) * 0x10000 := by
  decide

/-- However the boot codes of the processors, the programs and the lines of the devices
interleave, as long as nobody writes what the boot code has set up, a processor starts its own
program on its own stack, is not interrupted before, and never stops on the way.  Each service
routine that is called is that of the first device of the processor whose line was up,
acknowledges the interrupt of this device, and is never the default one.  Besides this device
only a timer's routine accesses anything, the terminal of the current task.  None is called
only when no device of the processor has its line up. -/
theorem interrupts_served (hs : (system lay icu entry).Reachable s) :
    (∀ p, s.entered p = none ∨
      s.entered p = some (entry p, 0x02000000 + BitVec.ofNat 32 (p + 1) * 0x10000)) ∧
    (∀ p, enabled (s.phase p).cpu.sr = true → ∃ c, s.phase p = .program c) ∧
    (∀ p, (∀ c, s.phase p ≠ .program c) → ∃ s', next lay icu s (.step p) = some s') ∧
    (∀ x ∈ s.served, Right lay x ∧ x.f ≠ lay.isr .default) ∧
    ∀ p c i lines, s.phase p = .index c i lines → 31 < i → ∀ d, d.owner = p → lines d = false := by
  have hinv := inv_of_reachable hs
  refine ⟨fun p => ?_, fun p => (hinv.proc p).program_of_enabled, fun p => hinv.exists_next,
    fun x hx => ⟨hinv.served x hx, ?_⟩, fun p c i lines hphase hidle d hd => ?_⟩
  · rw [← top_eq]
    have hproc := hinv.proc p
    generalize s.phase p = x at hproc
    generalize s.entered p = en at hproc
    cases hproc with
    | boot => exact .inl rfl
    | program | demux | index | isr => exact .inr rfl
  · obtain ⟨d, _, _, _, hf, _⟩ := hinv.served x hx
    rw [hf]
    intro heq
    have hisr := lay.isr_injective heq
    cases d <;> cases hisr
  · have hproc := hinv.proc p
    rw [hphase] at hproc
    generalize s.entered p = en at hproc
    cases hproc with
    | index =>
        obtain ⟨_, hdown⟩ | ⟨d', hd', _⟩ := itVector_setup icu p lines
        · exact hdown d hd
        · have := (mask_input d').1
          omega

end Inv

/-- A kernel with its vector and its service routines somewhere. -/
def kernel : Layout where
  interruptVector := 0x82000010
  isr
    | .ioc => 0x80001000
    | .ttyGetTask0 => 0x80001100
    | .timer => 0x80001200
    | .dma => 0x80001300
    | .default => 0x80001400
  vector_kernel := by decide
  isr_injective := by
    intro f g h
    cases f <;> cases g <;> first | rfl | exact absurd h (by decide)

/-- The platform after a reset. -/
def atReset : State where
  mem _ := 0
  lines _ := false
  phase p := .boot ⟨reset, ⟨BitVec.ofNat 32 p, fun _ => 0, 0x4, 0⟩⟩
  entered _ := none
  served := []

/-- The second processor boots, and a key is typed on its terminal. -/
def typed : List Event :=
  .line (.tty 1) true :: List.replicate 33 (.step 1) ++ [.interrupt 1, .step 1, .step 1]

theorem atReset_start : Start (fun _ => 0) atReset where
  entries _ := rfl
  masks _ := rfl
  phase _ := ⟨_, rfl, rfl, show enabled 0x4 = false by decide⟩
  entered _ := rfl
  served := rfl

theorem interrupts_served_typed :
    ∃ s, (system kernel ⟨32, by decide⟩ fun _ => 0).Reachable s ∧
      s.served.map Served.f = [0x80001100] ∧
      (∀ p, s.entered p = none ∨
        s.entered p = some (0, 0x02000000 + BitVec.ofNat 32 (p + 1) * 0x10000)) ∧
      (∀ p, enabled (s.phase p).cpu.sr = true → ∃ c, s.phase p = .program c) ∧
      (∀ p, (∀ c, s.phase p ≠ .program c) →
        ∃ s', next kernel ⟨32, by decide⟩ s (.step p) = some s') ∧
      (∀ x ∈ s.served, Right kernel x ∧ x.f ≠ kernel.isr .default) ∧
      ∀ p c i lines, s.phase p = .index c i lines → 31 < i →
        ∀ d, d.owner = p → lines d = false := by
  have htest : (exec (guarded (Legal kernel) (next kernel ⟨32, by decide⟩)) typed atReset).any
      (fun s => s.served.map Served.f = [0x80001100]) = true := by decide
  obtain ⟨s, hs, hserved⟩ := System.exists_exec
    (S := system kernel ⟨32, by decide⟩ fun _ => 0)
    (guarded_step fun _ _ _ h => h) atReset_start htest
  exact ⟨s, hs, of_decide_eq_true hserved, interrupts_served hs⟩

end SmcTp.Giet.Interrupts
