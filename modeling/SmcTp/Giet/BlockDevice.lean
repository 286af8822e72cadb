import SmcTp.Clocked.Run
import SmcTp.Giet.Drivers
import SmcTp.Programs.LinkedMemory

/-!
# Sharing the block device

Any number of tasks use the block device of the GIET.  A task starts a transfer with
`_ioc_read` or `_ioc_write`, which take `_ioc_lock`, and waits for its end with
`_ioc_completed`, which releases it.  In between the device works and interrupts, and the
interrupt routine writes `_ioc_status` and then `_ioc_done`.  One step is one access of a
task or of the interrupt routine, or the end of a transfer.

The transfers started, how they ended and what the calls of `_ioc_completed` returned are
logged, for what is proved about them.
-/

namespace SmcTp.Giet.BlockDevice

open Clocked Programs

/-! ## The program -/

/-- The shared variables. -/
inductive Cell where
  /-- `_ioc_lock` -/
  | lock
  /-- `_ioc_done` -/
  | done
  /-- `_ioc_status` -/
  | status
deriving DecidableEq, Repr

/-- How a transfer ends. -/
inductive Status where
  | readSuccess
  | writeSuccess
  | readError
  | writeError
  | error
deriving DecidableEq, Repr

/-- The value of the status register, in `enum IOC_status`. -/
def Status.code : Status → Word
  | .readSuccess => 2
  | .writeSuccess => 3
  | .readError => 4
  | .writeError => 5
  | .error => 6

/-- What `_ioc_completed` returns for it. -/
def Status.returned : Status → Word
  | .readSuccess | .writeSuccess => 0
  | .readError | .writeError | .error => 1

/-- A call which starts a transfer. -/
inductive IocCall where
  /-- `_ioc_read(lba, buffer, count)` -/
  | read (lba buffer count : Word)
  /-- `_ioc_write(lba, buffer, count)` -/
  | write (lba buffer count : Word)
deriving DecidableEq, Repr

/-- The value returned and what is done. -/
def IocCall.run (plat : Platform) : IocCall → Word × List Action
  | .read lba buffer count => iocRead plat lba buffer count
  | .write lba buffer count => iocWrite plat lba buffer count

/-- The registers of the device are those of the call. -/
def IocCall.Programmed (regs : IocReg → Word) : IocCall → Prop
  | .read lba buffer count =>
      regs .buffer = buffer ∧ regs .count = count ∧ regs .lba = lba ∧ regs .op = IocOp.read
  | .write lba buffer count =>
      regs .buffer = buffer ∧ regs .count = count ∧ regs .lba = lba ∧ regs .op = IocOp.write

/-- Where a task stands. -/
inductive Pc where
  /-- Neither call is in progress, and the next one starts a transfer. -/
  | outside
  /-- In `call`, with `actions` left.  The lock is the first one, until it is taken. -/
  | acting (call : IocCall) (actions : List Action)
  /-- `sc $3, 0(plock)` and `beqz $3, _ioc_llsc`, with `actions` left after it. -/
  | lockSc (call : IocCall) (actions : List Action)
  /-- `call` has returned 0. -/
  | started
  /-- `while (_ioc_done == 0)` -/
  | waitDone
  /-- `_ioc_status != BLOCK_DEVICE_READ_SUCCESS` -/
  | testRead
  /-- `_ioc_status != BLOCK_DEVICE_WRITE_SUCCESS` -/
  | testWrite
  /-- `_ioc_done = 0` -/
  | clearDone (ret : Word)
  /-- `_ioc_lock = 0` -/
  | clearLock (ret : Word)
deriving DecidableEq, Repr

/-- Where `_isr_ioc` stands. -/
inductive Isr where
  | idle
  /-- The load of the status register, which resets the IRQ. -/
  | load
  /-- The store to `_ioc_status`. -/
  | save (status : Word)
  /-- `_ioc_done = 1` -/
  | signal
deriving DecidableEq, Repr

/-- The device. -/
inductive Device where
  | idle
  | running
  /-- The transfer has ended, and the status has not been read. -/
  | ended (status : Status)
deriving DecidableEq, Repr

/-- A transfer: the task that started it, its call, and the registers of the device. -/
structure Job (ι : Type) where
  owner : ι
  call : IocCall
  regs : IocReg → Word

/-- The shared variables, the device, the interrupt routine, the tasks and the log. -/
structure State (ι : Type) where
  mem : LinkedMemory Cell Word ι
  regs : IocReg → Word
  device : Device
  isr : Isr
  pc : ι → Pc
  /-- The transfers started. -/
  jobs : List (Job ι)
  /-- How they ended. -/
  statuses : List Status
  /-- The returns of `_ioc_completed`, each with its task. -/
  returns : List (ι × Word)

/-- The task goes on with the actions left, or the call returns. -/
def Pc.after (call : IocCall) : List Action → Pc
  | [] => .started
  | action :: actions => .acting call (action :: actions)

namespace State

variable {ι : Type} [DecidableEq ι]

def setPc (s : State ι) (i : ι) (pc : Pc) : State ι := { s with pc := Function.update s.pc i pc }

/-- The task `i` in `call` writes a register of the device.  The register `op` starts a
transfer, unless one is in progress. -/
def writeReg (s : State ι) (i : ι) (call : IocCall) (reg : IocReg) (value : Word) : State ι :=
  if reg = .op ∧ s.device = .idle then
    { s with
      regs := Function.update s.regs reg value
      device := .running
      jobs := s.jobs ++ [⟨i, call, Function.update s.regs reg value⟩] }
  else { s with regs := Function.update s.regs reg value }

/-- An access of the task `i`.  It starts `call` when it is outside; a store-conditional may
fail although the task is linked. -/
def taskNext (plat : Platform) (s : State ι) (i : ι) (newCall : IocCall) (fails : Bool) :
    State ι :=
  match s.pc i with
  | .outside =>
      if (newCall.run plat).1 = 0 then s.setPc i (.acting newCall (newCall.run plat).2) else s
  | .acting call (.getIocLock :: actions) =>
      { s with mem := s.mem.linkedLoad i .lock }.setPc i
        (if s.mem.word .lock ≠ 0 then .acting call (.getIocLock :: actions)
          else .lockSc call actions)
  | .lockSc call actions =>
      if s.mem.link i = some .lock ∧ fails = false then
        { s with mem := s.mem.store .lock 1 }.setPc i (.after call actions)
      else s.setPc i (.acting call (.getIocLock :: actions))
  | .acting call (.setIoc reg value :: actions) =>
      (s.writeReg i call reg value).setPc i (.after call actions)
  | .acting call (_ :: actions) => s.setPc i (.after call actions)
  | .acting _ [] => s.setPc i .started
  | .started => s.setPc i .waitDone
  | .waitDone => if s.mem.word .done = 0 then s else s.setPc i .testRead
  | .testRead =>
      s.setPc i (if s.mem.word .status ≠ Status.readSuccess.code then .testWrite else .clearDone 0)
  | .testWrite =>
      s.setPc i (.clearDone (if s.mem.word .status ≠ Status.writeSuccess.code then 1 else 0))
  | .clearDone ret => { s with mem := s.mem.store .done 0 }.setPc i (.clearLock ret)
  | .clearLock ret =>
      { s with mem := s.mem.store .lock 0, returns := s.returns ++ [(i, ret)] }.setPc i .outside

/-- The device ends its transfer. -/
def deviceNext (s : State ι) (status : Status) : State ι :=
  match s.device with
  | .running => { s with device := .ended status, statuses := s.statuses ++ [status] }
  | _ => s

/-- The interrupt of a transfer that has ended, and the accesses of the routine.  The
variable `_ioc_status` is an `unsigned char`. -/
def isrNext (s : State ι) : State ι :=
  match s.isr with
  | .idle =>
      match s.device with
      | .ended _ => if s.regs .irqEnable ≠ 0 then { s with isr := .load } else s
      | _ => s
  | .load =>
      match s.device with
      | .ended status => { s with isr := .save status.code, device := .idle }
      | _ => s
  | .save status => { s with mem := s.mem.store .status (status &&& 0xff), isr := .signal }
  | .signal => { s with mem := s.mem.store .done 1, isr := .idle }

end State

/-- Whose turn it is. -/
inductive Turn (ι : Type) where
  | task (i : ι) (newCall : IocCall) (fails : Bool)
  | device (status : Status)
  | isr

/-- A step of the system. -/
def State.next {ι : Type} [DecidableEq ι] (plat : Platform) (s : State ι) : Turn ι → State ι
  | .task i newCall fails => s.taskNext plat i newCall fails
  | .device status => s.deviceNext status
  | .isr => s.isrNext

/-- The lock is free and no transfer is done; `_ioc_status` and the registers of the device
are anything. -/
structure Start {ι : Type} (s : State ι) : Prop where
  lock : s.mem.word .lock = 0
  done : s.mem.word .done = 0
  device : s.device = .idle
  isr : s.isr = .idle
  pc : ∀ i, s.pc i = .outside
  log : s.jobs = [] ∧ s.statuses = [] ∧ s.returns = []

/-- Any task, the device or the interrupt routine may have its turn at any time. -/
def sharing (ι : Type) [DecidableEq ι] (plat : Platform) : System (State ι) (Turn ι) :=
  .ofFn Start (State.next plat)

/-! ## What the lock is for -/

/-- The task is between taking `_ioc_lock` and releasing it. -/
def Pc.holds : Pc → Bool
  | .acting _ (.getIocLock :: _) => false
  | .outside | .lockSc _ _ => false
  | _ => true

/-- The next access of the task writes a register of the device. -/
def Pc.writesDevice : Pc → Bool
  | .acting _ (.setIoc _ _ :: _) => true
  | _ => false

end SmcTp.Giet.BlockDevice
