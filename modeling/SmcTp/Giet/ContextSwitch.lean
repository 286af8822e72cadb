import SmcTp.Clocked.Run
import SmcTp.Giet.TaskSwitch

/-!
# Context switches of the GIET

Each processor runs one of its tasks.  A task computes, makes system calls, and is interrupted
by the timer wherever the status register allows it.  Both the system call `ctx_switch` and
the interrupt routine `_isr_switch` call `_ctx_switch`, which hands the processor to the next
task.  One step is one instruction of `_task_switch`, one access of `_ctx_switch` to
`_current_task_array`, or a stretch of code between such points during which no interrupt is
possible or none makes a difference.

Which task the registers are of, and the registers of each task at its last call of
`_task_switch` and at an interrupt it has not come back from, are logged for what is proved
about them.
-/

namespace SmcTp.Giet.TaskSwitch

open Clocked Programs

/-! ## The status register -/

/-- The bits of the status register.  An address has none the code looks at. -/
def Val.status : Val → Word
  | .word w => w
  | _ => 0

/-- The bit `EXL`. -/
def Val.exl (v : Val) : Bool := v.status.getLsbD 1

def Regs.exl (r : Regs) : Bool := (r.cop0 .sr).exl

/-- The status register allows interrupts. -/
def Regs.enabled (r : Regs) : Bool := (r.cop0 .sr).status.getLsbD 0 && !r.exl

/-- The status register is changed. -/
def Regs.setStatus (r : Regs) (f : Word → Word) : Regs :=
  r.setCop0 .sr (.word (f (r.cop0 .sr).status))

/-! ## A processor -/

/-- What is pushed on a stack. -/
inductive Frame where
  /-- The status register and the return address, by `_sys_handler`. -/
  | sys (sr epc : Val)
  /-- The registers and the return address, by `_int_handler`. -/
  | int (gpr : Nat → Val) (epc : Val)
  /-- The return address, by a C function. -/
  | ret (ra : Val)

/-- A processor, with its word of `_current_task_array` and the stacks of its tasks. -/
structure Local where
  pos : Pos
  regs : Regs
  current : Nat
  stack : Nat → Nat → Frame
  /-- The task whose registers are loaded. -/
  loaded : Nat
  /-- The registers of each task at its last call of `_task_switch`. -/
  suspended : Nat → Nat → Val
  /-- Where and with which registers the timer has interrupted each task, until the `eret`. -/
  interrupted : Nat → Option (Pos × Regs)

/-- `NB_MAXTASKS` and `_task_number_array`. -/
structure Config where
  nbMaxTasks : Nat
  number : Nat → Nat
  number_le : ∀ p, number p ≤ nbMaxTasks

/-- `(proc_id * NB_MAXTASKS + task) * TASK_CTXT_SIZE` -/
def Config.context (cfg : Config) (p t : Nat) : Nat := (p * cfg.nbMaxTasks + t) * 64

/-- The task whose context starts at a word of the array. -/
def Config.taskOf (cfg : Config) (base : Nat) : Nat := base / 64 % cfg.nbMaxTasks

/-- What a processor does next. -/
inductive Event where
  /-- It goes on with its code.  The values are those it computes, and `pc` is where user code
  goes. -/
  | run (regs : Nat → Word) (pc : Word)
  /-- `syscall` -/
  | syscall (ctxSwitch : Bool)
  /-- It returns from another system call. -/
  | leave
  /-- It takes an interrupt of the timer. -/
  | interrupt

/-- Where a jump to an address goes. -/
def Val.jump : Val → Option Pos
  | .code pos => some pos
  | _ => none

/-- The registers a function need not preserve, apart from its return address. -/
def temporaries : List Nat := (List.range 16).tail ++ [24, 25]

/-- A function computes. -/
def Regs.scratch (r : Regs) (regs : Nat → Word) : Regs :=
  { r with gpr := fun n => if n ∈ temporaries then .word (regs n) else r.gpr n }

/-- User code computes, and its stack pointer stays in its stack. -/
def Regs.compute (r : Regs) (regs : Nat → Word) : Regs :=
  { r with
    gpr := fun n =>
      if n = 29 then
        match r.gpr 29 with
        | .stack t _ => .stack t (regs 29).toNat
        | v => v
      else .word (regs n) }

/-- A frame is pushed on the stack `$29` points to. -/
def Local.push (l : Local) (f : Frame) : Option Local :=
  match l.regs.gpr 29 with
  | .stack t d =>
      some { l with
        stack := Function.update l.stack t (Function.update (l.stack t) d f)
        regs := l.regs.set 29 (.stack t (d + 1)) }
  | _ => none

/-- The last frame is popped. -/
def Local.pop (l : Local) : Option (Frame × Local) :=
  match l.regs.gpr 29 with
  | .stack t (d + 1) => some (l.stack t d, { l with regs := l.regs.set 29 (.stack t d) })
  | _ => none

/-- `jr $31` -/
def Local.jr (l : Local) : Option Local :=
  (l.regs.gpr 31).jump.map fun pos => { l with pos := pos }

/-- A function returns to the address it has pushed. -/
def Local.return (l : Local) : Option Local :=
  match l.pop with
  | some (.ret ra, l') => { l' with regs := l'.regs.set 31 ra }.jr
  | _ => none

/-- The processor takes an interrupt, and `_int_handler` saves the registers. -/
def Local.interrupt (l : Local) : Option Local :=
  if l.regs.enabled then
    (l.push (.int l.regs.gpr (.code l.pos))).map fun l' =>
      { l' with
        pos := .isr
        regs := (((l'.regs.setStatus (· ||| 2)).setCop0 .epc (.code l.pos)).set 27
          (.code l.pos)).set 31 (.code .isrReturn)
        interrupted := Function.update l.interrupted l.loaded (some (l.pos, l.regs)) }
  else none

/-- `restore` in `_int_handler`. -/
def Local.restore (l : Local) : Option Local :=
  match l.pop with
  | some (.int gpr epc, l') =>
      let regs : Regs :=
        { l'.regs with gpr := fun n => if n ∈ 31 :: temporaries then gpr n else l'.regs.gpr n }
      some { l' with pos := .eret, regs := (regs.set 27 epc).setCop0 .epc epc }
  | _ => none

/-- A task makes a system call, and `_sys_handler` goes up to its `jalr $3`. -/
def Local.sysEnter (l : Local) (pc : Word) (ctxSwitch : Bool) : Option Local :=
  let sr := (l.regs.cop0 .sr).status ||| 2
  (l.push (.sys (.word sr) (.code (.user (pc + 4))))).map fun l' =>
    { l' with
      pos := .jalr ctxSwitch
      regs := ((l'.regs.setCop0 .epc (.code (.user pc))).setCop0 .sr
        (.word (sr &&& 0xFFFFFFED))).set 27 (.word 0xFFFFFFED) }

/-- `_sys_handler` after its `jalr $3`. -/
def Local.sysReturn (l : Local) : Option Local :=
  match l.pop with
  | some (.sys sr epc, l') =>
      some { l' with pos := .eret, regs := ((l'.regs.setCop0 .sr sr).setCop0 .epc epc).set 26 epc }
  | _ => none

/-- `eret` -/
def Local.eret (l : Local) : Option Local :=
  (l.regs.cop0 .epc).jump.map fun pos =>
    { l with
      pos := pos
      regs := l.regs.setStatus (· &&& 0xFFFFFFFD)
      interrupted := Function.update l.interrupted l.loaded none }

/-- The call of `_task_switch` for two tasks of the processor `p`. -/
def Local.ctxCall (cfg : Config) (p : Nat) (l : Local) (regs : Nat → Word) (curr next : Nat) :
    Local :=
  let called := (((l.regs.scratch regs).set 4 (.context (cfg.context p curr))).set 5
    (.context (cfg.context p next))).set 31 (.code .ctxReturn)
  { l with
    pos := .switch 0
    regs := called
    suspended := Function.update l.suspended l.loaded called.slot }

/-- The processor `p` goes on with code other than `_task_switch`. -/
def Local.code (cfg : Config) (p : Nat) (l : Local) (regs : Nat → Word) (pc : Word) :
    Option Local :=
  let computed := { l with regs := l.regs.scratch regs }
  match l.pos with
  | .user _ => some { l with pos := .user pc, regs := l.regs.compute regs }
  | .jalr ctxSwitch =>
      some { l with
        pos := if ctxSwitch then .ctxEntry else .callEntry
        regs := l.regs.set 31 (.code .sysReturn) }
  | .callEntry => (l.push (.ret (l.regs.gpr 31))).map fun l' => { l' with pos := .call }
  | .call => some computed
  | .sysReturn => l.sysReturn
  | .isr =>
      some { l with pos := .ctxEntry, regs := (l.regs.scratch regs).set 31 (.code .isrReturn) }
  | .isrReturn => l.restore
  | .ctxEntry =>
      if cfg.number p ≤ 1 then computed.jr
      else (computed.push (.ret (l.regs.gpr 31))).map fun l' => { l' with pos := .ctxRead }
  | .ctxRead => some { computed with pos := .ctxStore l.current }
  | .ctxStore curr =>
      let next := (curr + 1) % cfg.number p
      some { computed with pos := .ctxCall curr next, current := next }
  | .ctxCall curr next => some (l.ctxCall cfg p regs curr next)
  | .switch _ => l.jr
  | .ctxReturn => computed.return
  | .eret => l.eret

/-- The instruction `k` of `_task_switch` has left the registers `r`.  With the last one the task
is the one whose context `$27` points to. -/
def Local.executed (cfg : Config) (l : Local) (k : Nat) (r : Regs) : Local :=
  { l with
    pos := .switch (k + 1)
    regs := r
    loaded :=
      if k + 1 = taskSwitch.length then (r.gpr 27).base.elim l.loaded cfg.taskOf else l.loaded }

/-- A step of the processor `p`. -/
def Local.next (cfg : Config) (p : Nat) (l : Local) (m : Table) : Event → Option (Local × Table)
  | .run regs pc =>
      match l.pos with
      | .switch k =>
          match taskSwitch[k]? with
          | some i => (i.exec l.regs m).map fun (r, m') => (l.executed cfg k r, m')
          | none => (l.code cfg p regs pc).map (·, m)
      | _ => (l.code cfg p regs pc).map (·, m)
  | .syscall ctxSwitch =>
      match l.pos with
      | .user pc => (l.sysEnter pc ctxSwitch).map (·, m)
      | _ => none
  | .leave => if l.pos = .call then l.return.map (·, m) else none
  | .interrupt => l.interrupt.map (·, m)

/-! ## The system -/

/-- The processors and `_task_context_array`. -/
structure State where
  proc : Nat → Local
  table : Table

/-- The processor of the turn makes a step. -/
def State.next (cfg : Config) (s : State) (turn : Nat × Event) : Option State :=
  ((s.proc turn.1).next cfg turn.1 s.table turn.2).map fun (l, m) =>
    ⟨Function.update s.proc turn.1 l, m⟩

/-- The boot code has started the task 0, and has set up the contexts of the other tasks such
that `_task_switch` returns to an `eret` into their code. -/
structure Local.Start (cfg : Config) (p : Nat) (m : Table) (l : Local) : Prop where
  pos : ∃ pc, l.pos = .user pc
  stack : ∃ d, l.regs.gpr 29 = .stack 0 d
  current : l.current = 0
  loaded : l.loaded = 0
  suspended : ∀ t < cfg.number p, ∀ n ∈ slots, l.suspended t n = m (cfg.context p t + n)
  interrupted : ∀ t, l.interrupted t = none
  context : ∀ t < cfg.number p, t ≠ 0 →
    (l.suspended t 0).exl = true ∧ (∃ d, l.suspended t 29 = .stack t d) ∧
      l.suspended t 31 = .code .eret ∧ ∃ pc, l.suspended t 32 = .code (.user pc)

/-- The tasks run, and are interrupted, in any order. -/
def scheduling (cfg : Config) : System State (Nat × Event) where
  init s := ∀ p, (s.proc p).Start cfg p s.table
  step s turn s' := s.next cfg turn = some s'

/-! ## What a context switch is for -/

/-- The next instruction of the processor is the last one that restores a register. -/
def Local.resumes (l : Local) (e : Event) : Prop :=
  l.pos = .switch (taskSwitch.length - 1) ∧ ∃ regs pc, e = .run regs pc

/-- The next instruction of the processor is an `eret`. -/
def Local.returns (l : Local) (e : Event) : Prop := l.pos = .eret ∧ ∃ regs pc, e = .run regs pc

/-- What context switches keep. -/
structure Preserves (S : System State (Nat × Event)) (cfg : Config) (s : State) : Prop where
  /-- `_current_task_array` names the task whose registers are loaded whenever user code runs. -/
  current : ∀ p pc, (s.proc p).pos = .user pc → (s.proc p).current = (s.proc p).loaded
  /-- A task that `_task_switch` resumes has the registers it was suspended with. -/
  resumed : ∀ p e s', S.step s (p, e) s' → (s.proc p).resumes e → ∀ n ∈ slots,
    (s'.proc p).regs.slot n = (s'.proc p).suspended (s'.proc p).loaded n
  /-- A task that the timer has interrupted, in user code or in a system call, goes on where it
  was, with the status register and the general registers it had there. -/
  returned : ∀ p e s', S.step s (p, e) s' → (s.proc p).returns e →
    ∀ pos r, (s.proc p).interrupted (s.proc p).loaded = some (pos, r) →
      (s'.proc p).pos = pos ∧ ∀ n ∈ 0 :: general, (s'.proc p).regs.slot n = r.slot n
  /-- A processor writes only registers of its own tasks to `_task_context_array`. -/
  table : ∀ p e s', S.step s (p, e) s' → ∀ a, s'.table a ≠ s.table a →
    ∃ t < cfg.number p, ∃ n < 64, n ≠ 34 ∧ a = cfg.context p t + n

/-- The processor has stored the next task in `_current_task_array`, and has not loaded all of
its registers. -/
def Pos.switching : Pos → Prop
  | .ctxCall _ _ => True
  | .switch k => k < taskSwitch.length
  | _ => False

instance (pos : Pos) : Decidable pos.switching :=
  match pos with
  | .ctxCall _ _ => isTrue trivial
  | .switch k => inferInstanceAs (Decidable (k < taskSwitch.length))
  | .user _ | .jalr _ | .callEntry | .call | .sysReturn | .isr | .isrReturn | .ctxEntry | .ctxRead
  | .ctxStore _ | .ctxReturn | .eret => isFalse id

/-- The processor takes no interrupt in between. -/
def Careful (s : State) (turn : Nat × Event) : Prop :=
  turn.2 = .interrupt → ¬ (s.proc turn.1).pos.switching

instance (s : State) (turn : Nat × Event) : Decidable (Careful s turn) :=
  match turn with
  | (p, .interrupt) =>
      decidable_of_iff (¬ (s.proc p).pos.switching) ⟨fun h _ => h, fun h => h rfl⟩
  | (_, .run _ _) | (_, .syscall _) | (_, .leave) => isTrue fun h => Event.noConfusion h

end SmcTp.Giet.TaskSwitch
