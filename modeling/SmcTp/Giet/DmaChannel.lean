import Mathlib.Logic.Function.Basic
import SmcTp.Clocked.Run
import SmcTp.Giet.Drivers

/-!
# Sharing the DMA of a processor

Any number of tasks share a processor and its channel of the DMA.  A task starts a transfer
with `_fb_write` or `_fb_read`: it waits until `_dma_busy` is zero, sets it, and writes the
registers of the channel one after the other, the length last.  The processor may go from
one task to another before any of these accesses.  The interrupt routine clears `_dma_busy`
when the transfer has ended; it is not interrupted itself, so that it is one step.
`_fb_completed` only reads, and is left out.

*The race.*  The test of `_dma_busy` and the store that sets it are two accesses.  Two tasks
may both find it zero, and the second one then programs the channel of the first
(`race_not_exclusive`).

*The rest.*  `SetsFree` says that a task sets `_dma_busy` only while it is still zero.  In the
runs of such steps the channel is programmed only while it is idle, and the calls that have
returned 0 are the transfers started, each with its own registers
(`exclusive_of_setsFree`).
-/

namespace SmcTp.Giet.DmaChannel

open Clocked

/-! ## The program -/

/-- A call which starts a transfer. -/
inductive FbCall where
  /-- `_fb_write(offset, buffer, length)` -/
  | write (offset buffer length : Word)
  /-- `_fb_read(offset, buffer, length)` -/
  | read (offset buffer length : Word)
deriving DecidableEq, Repr

/-- The value returned and what is done, on the processor `procId`. -/
def FbCall.run (plat : Platform) (procId : Word) : FbCall → Word × List Action
  | .write offset buffer length => fbWrite plat procId offset buffer length
  | .read offset buffer length => fbRead plat procId offset buffer length

/-- The registers of the channel are those of the call. -/
def FbCall.Programmed (plat : Platform) (regs : DmaReg → Word) : FbCall → Prop
  | .write offset buffer length =>
      regs .src = buffer ∧ regs .dst = plat.segFbBase + offset ∧ regs .len = length
  | .read offset buffer length =>
      regs .src = plat.segFbBase + offset ∧ regs .dst = buffer ∧ regs .len = length

/-- Where a task stands. -/
inductive Pc where
  /-- No call is in progress. -/
  | outside
  /-- In `call`, with `actions` left.  The wait for `_dma_busy` is the first one, until the
  task finds it zero. -/
  | acting (call : FbCall) (actions : List Action)
  /-- `_dma_busy[proc_id] = 1`, with `actions` left after it. -/
  | setBusy (call : FbCall) (actions : List Action)
deriving DecidableEq, Repr

/-- The channel. -/
inductive Channel where
  | idle
  | running
  /-- The transfer has ended with this status, and the interrupt is not acknowledged. -/
  | ended (status : Word)
deriving DecidableEq, Repr

/-- A transfer: the task that started it, its call, and the registers of the channel. -/
structure Job (ι : Type) where
  owner : ι
  call : FbCall
  regs : DmaReg → Word

/-- The variables of the processor, its channel, the tasks and the log. -/
structure State (ι : Type) where
  /-- `_dma_busy[proc_id]` -/
  dmaBusy : Word
  /-- `_dma_status[proc_id]` -/
  dmaStatus : Word
  regs : DmaReg → Word
  channel : Channel
  pc : ι → Pc
  /-- The transfers started. -/
  jobs : List (Job ι)
  /-- The calls that have returned 0, each with its task. -/
  returns : List (ι × FbCall)

namespace State

variable {ι : Type} [DecidableEq ι]

def setPc (s : State ι) (i : ι) (pc : Pc) : State ι := { s with pc := Function.update s.pc i pc }

/-- The task `i` in `call` writes a register of the channel.  The length starts a transfer,
unless one is in progress. -/
def writeReg (s : State ι) (i : ι) (call : FbCall) (reg : DmaReg) (value : Word) : State ι :=
  if reg = .len ∧ s.channel = .idle then
    { s with
      regs := Function.update s.regs reg value
      channel := .running
      jobs := s.jobs ++ [⟨i, call, Function.update s.regs reg value⟩] }
  else { s with regs := Function.update s.regs reg value }

/-- The task goes on with the actions left, or the call returns 0. -/
def after (s : State ι) (i : ι) (call : FbCall) : List Action → State ι
  | [] => { s with returns := s.returns ++ [(i, call)] }.setPc i .outside
  | action :: actions => s.setPc i (.acting call (action :: actions))

/-- An access of the task `i`.  It starts `newCall` when it is outside. -/
def taskNext (plat : Platform) (procId : Word) (s : State ι) (i : ι) (newCall : FbCall) :
    State ι :=
  match s.pc i with
  | .outside =>
      if (newCall.run plat procId).1 = 0 then
        s.setPc i (.acting newCall (newCall.run plat procId).2)
      else s
  | .acting call (.getDma _ :: actions) =>
      if s.dmaBusy ≠ 0 then s else s.setPc i (.setBusy call actions)
  | .setBusy call actions => { s with dmaBusy := 1 }.setPc i (.acting call actions)
  | .acting call (.setDma _ reg value :: actions) =>
      (s.writeReg i call reg value).after i call actions
  | .acting call (_ :: actions) => s.after i call actions
  | .acting call [] => s.after i call []

/-- The channel ends its transfer. -/
def channelNext (s : State ι) (status : Word) : State ι :=
  match s.channel with
  | .running => { s with channel := .ended status }
  | _ => s

/-- `_isr_dma`, when a transfer has ended and its interrupt is enabled.  The write of the
register `reset` acknowledges the interrupt. -/
def isrNext (s : State ι) : State ι :=
  match s.channel with
  | .ended status =>
      if s.regs .irqDisable = 0 then
        { s with dmaStatus := status, dmaBusy := 0, channel := .idle }
      else s
  | _ => s

end State

/-- Whose turn it is. -/
inductive Turn (ι : Type) where
  | task (i : ι) (newCall : FbCall)
  | channel (status : Word)
  | isr

/-- A step of the system. -/
def State.next {ι : Type} [DecidableEq ι] (plat : Platform) (procId : Word) (s : State ι) :
    Turn ι → State ι
  | .task i newCall => s.taskNext plat procId i newCall
  | .channel status => s.channelNext status
  | .isr => s.isrNext

/-- `_dma_busy` is zero and the channel idle; its registers and `_dma_status` are anything. -/
structure Start {ι : Type} (s : State ι) : Prop where
  dmaBusy : s.dmaBusy = 0
  channel : s.channel = .idle
  pc : ∀ i, s.pc i = .outside
  log : s.jobs = [] ∧ s.returns = []

/-- Any task, the channel or the interrupt routine may have its turn at any time. -/
def sharing (ι : Type) [DecidableEq ι] (plat : Platform) (procId : Word) :
    System (State ι) (Turn ι) :=
  .ofFn Start (State.next plat procId)

/-! ## What the flag is for -/

/-- The next access of the task writes a register of the channel. -/
def Pc.writesChannel : Pc → Bool
  | .acting _ (.setDma _ _ _ :: _) => true
  | _ => false

/-- The channel is programmed only while it is idle, and the calls that have returned 0 are
the transfers started, each with its own registers. -/
structure Exclusive {ι : Type} (plat : Platform) (s : State ι) : Prop where
  idle : ∀ i, (s.pc i).writesChannel = true → s.channel = .idle
  returns : s.returns = s.jobs.map fun job => (job.owner, job.call)
  programmed : ∀ job ∈ s.jobs, job.call.Programmed plat job.regs

/-- The next access of the task sets `_dma_busy`. -/
def Pc.setsBusy : Pc → Bool
  | .setBusy _ _ => true
  | _ => false

/-- A task sets `_dma_busy` only while it is zero. -/
def SetsFree {ι : Type} (s : State ι) : Turn ι → Prop
  | .task i _ => (s.pc i).setsBusy = true → s.dmaBusy = 0
  | _ => True

instance {ι : Type} : ∀ (s : State ι) (turn : Turn ι), Decidable (SetsFree s turn)
  | s, .task i _ => inferInstanceAs (Decidable ((s.pc i).setsBusy = true → s.dmaBusy = 0))
  | _, .channel _ => .isTrue trivial
  | _, .isr => .isTrue trivial

/-! ## The actions of a call -/

/-- The registers after the writes among the actions. -/
def writes : List Action → (DmaReg → Word) → DmaReg → Word
  | [], regs => regs
  | .setDma _ reg value :: actions, regs => writes actions (Function.update regs reg value)
  | _ :: actions, regs => writes actions regs

/-- The actions program a transfer and start it last. -/
inductive Programs : List Action → Prop where
  | start {procId value : Word} : Programs [.setDma procId .len value]
  | setDma {procId value : Word} {reg : DmaReg} {actions : List Action} :
      reg ≠ .len → Programs actions → Programs (.setDma procId reg value :: actions)

/-- The actions left of the call start the transfer it asks for. -/
structure Ready (plat : Platform) (call : FbCall) (actions : List Action) (regs : DmaReg → Word) :
    Prop where
  programs : Programs actions
  programmed : call.Programmed plat (writes actions regs)

/-- A call that passes its check waits and programs its transfer. -/
theorem run_eq_getDma {plat : Platform} {procId : Word} {call : FbCall}
    (h : (call.run plat procId).1 = 0) :
    ∃ actions, (call.run plat procId).2 = .getDma procId :: actions ∧
      ∀ regs, Ready plat call actions regs := by
  cases call with
  | write offset buffer length =>
      rw [FbCall.run, fbWrite, checked] at h ⊢
      split_ifs at h ⊢ with hcheck
      · cases h
      · exact ⟨_, rfl, fun regs => ⟨.setDma (by decide) (.setDma (by decide)
          (.setDma (by decide) .start)), ⟨rfl, rfl, rfl⟩⟩⟩
  | read offset buffer length =>
      rw [FbCall.run, fbRead, checked] at h ⊢
      split_ifs at h ⊢ with hcheck
      · cases h
      · exact ⟨_, rfl, fun regs => ⟨.setDma (by decide) (.setDma (by decide)
          (.setDma (by decide) .start)), ⟨rfl, rfl, rfl⟩⟩⟩

/-! ## The invariant -/

section Invariant

variable {ι : Type} {plat : Platform} {procId : Word} {s s' : State ι} {i j : ι}

/-- A task that has not set `_dma_busy`. -/
def Waiting (plat : Platform) : Pc → Prop
  | .outside => True
  | .acting call (.getDma _ :: actions) => ∀ regs, Ready plat call actions regs
  | .setBusy call actions => ∀ regs, Ready plat call actions regs
  | _ => False

/-- The calls that have returned 0 are the transfers. -/
structure Log (plat : Platform) (s : State ι) : Prop where
  returns : s.returns = s.jobs.map fun job => (job.owner, job.call)
  programmed : ∀ job ∈ s.jobs, job.call.Programmed plat job.regs

/-- The channel is free, programmed by one task, or working. -/
inductive Inv (plat : Platform) (s : State ι) : Prop where
  | free (hbusy : s.dmaBusy = 0) (hchannel : s.channel = .idle)
      (hwaiting : ∀ i, Waiting plat (s.pc i)) (hlog : Log plat s)
  | programming (i : ι) (call : FbCall) (actions : List Action) (hbusy : s.dmaBusy = 1)
      (hchannel : s.channel = .idle) (hpc : s.pc i = .acting call actions)
      (hready : Ready plat call actions s.regs) (hwaiting : ∀ j ≠ i, Waiting plat (s.pc j))
      (hlog : Log plat s)
  | working (hbusy : s.dmaBusy = 1) (hchannel : s.channel ≠ .idle)
      (hwaiting : ∀ i, Waiting plat (s.pc i)) (hlog : Log plat s)

theorem Log.start {call : FbCall} {regs : DmaReg → Word} (h : Log plat s)
    (hasked : call.Programmed plat regs) (hjobs : s'.jobs = s.jobs ++ [⟨i, call, regs⟩])
    (hreturns : s'.returns = s.returns ++ [(i, call)]) : Log plat s' where
  returns := by rw [hreturns, hjobs, List.map_append, h.returns]; rfl
  programmed := by
    intro job hjob
    rw [hjobs] at hjob
    rcases List.mem_append.mp hjob with hold | hnew
    · exact h.programmed job hold
    · obtain rfl := List.mem_singleton.mp hnew
      exact hasked

theorem Inv.start (h : Start s) : Inv plat s := by
  refine .free h.dmaBusy h.channel (fun i => ?_) ⟨?_, ?_⟩
  · rw [h.pc i]
    trivial
  · rw [h.log.1, h.log.2]
    rfl
  · rw [h.log.1]
    exact fun job hjob => absurd hjob List.not_mem_nil

/-! ## The channel and the interrupt routine -/

theorem Inv.channelNext (h : Inv plat s) (status : Word) : Inv plat (s.channelNext status) := by
  rw [State.channelNext]
  cases hchannel : s.channel with
  | idle => exact h
  | ended status => exact h
  | running =>
      cases h with
      | free _ hidle => exact absurd (hchannel.symm.trans hidle) (by simp)
      | programming _ _ _ _ hidle => exact absurd (hchannel.symm.trans hidle) (by simp)
      | working hbusy _ hwaiting hlog =>
          exact .working hbusy (by rintro ⟨⟩) hwaiting ⟨hlog.returns, hlog.programmed⟩

theorem Inv.isrNext (h : Inv plat s) : Inv plat s.isrNext := by
  rw [State.isrNext]
  cases hchannel : s.channel with
  | idle => exact h
  | running => exact h
  | ended status =>
      show Inv plat (if _ then _ else _)
      split_ifs
      · cases h with
        | free _ hidle => exact absurd (hchannel.symm.trans hidle) (by simp)
        | programming _ _ _ _ hidle => exact absurd (hchannel.symm.trans hidle) (by simp)
        | working _ _ hwaiting hlog => exact .free rfl rfl hwaiting ⟨hlog.returns, hlog.programmed⟩
      · exact h

/-! ## A task -/

variable [DecidableEq ι]

theorem setPc_self {pc : Pc} : (s.setPc i pc).pc i = pc := Function.update_self ..

theorem setPc_of_ne {pc : Pc} (hne : j ≠ i) : (s.setPc i pc).pc j = s.pc j :=
  Function.update_of_ne hne ..

/-- The tasks wait after one of them has gone on to wait somewhere else. -/
theorem waiting_setPc {pc : Pc} (hwaiting : ∀ j ≠ i, Waiting plat (s.pc j))
    (hpc : Waiting plat pc) (j : ι) : Waiting plat ((s.setPc i pc).pc j) := by
  rcases eq_or_ne j i with rfl | hne
  · rwa [setPc_self]
  · rw [setPc_of_ne hne]
    exact hwaiting j hne

/-- The move of a task that has not set `_dma_busy`. -/
inductive WaitMove (plat : Platform) (s : State ι) (i : ι) : State ι → Prop where
  | wait : WaitMove plat s i s
  | move (pc : Pc) : Waiting plat pc → WaitMove plat s i (s.setPc i pc)
  | set (call : FbCall) (actions : List Action) :
      s.dmaBusy = 0 → (∀ regs, Ready plat call actions regs) →
      WaitMove plat s i ({ s with dmaBusy := 1 }.setPc i (.acting call actions))

theorem Waiting.taskNext (h : Waiting plat (s.pc i)) {newCall : FbCall}
    (hfree : SetsFree s (.task i newCall)) :
    WaitMove plat s i (s.taskNext plat procId i newCall) := by
  rw [State.taskNext]
  cases hpc : s.pc i with
  | outside =>
      show WaitMove plat s i (if _ then _ else _)
      split_ifs with hcheck
      · obtain ⟨actions, hactions, hready⟩ := run_eq_getDma hcheck
        rw [hactions]
        exact .move _ hready
      · exact .wait
  | setBusy call actions =>
      rw [hpc] at h
      exact .set call actions (hfree (by rw [hpc]; rfl)) h
  | acting call actions =>
      rw [hpc] at h
      cases actions with
      | nil => exact h.elim
      | cons action actions =>
          cases action with
          | getDma procId =>
              show WaitMove plat s i (if _ then _ else _)
              split_ifs with hbusy
              · exact .wait
              · exact .move _ h
          | _ => exact h.elim

/-- The task that has set `_dma_busy` writes the next register. -/
theorem Ready.taskNext {call : FbCall} {actions : List Action} {newCall : FbCall}
    (h : Ready plat call actions s.regs) (hpc : s.pc i = .acting call actions)
    (hbusy : s.dmaBusy = 1) (hchannel : s.channel = .idle)
    (hwaiting : ∀ j ≠ i, Waiting plat (s.pc j)) (hlog : Log plat s) :
    Inv plat (s.taskNext plat procId i newCall) := by
  rw [State.taskNext, hpc]
  obtain ⟨hprograms, hprogrammed⟩ := h
  cases hprograms with
  | @start p value =>
      show Inv plat ((s.writeReg i call .len value).after i call [])
      rw [State.writeReg, if_pos ⟨rfl, hchannel⟩]
      refine .working hbusy (by rintro ⟨⟩) (waiting_setPc hwaiting trivial) ?_
      exact hlog.start hprogrammed rfl rfl
  | @setDma p value reg actions hreg hprograms =>
      show Inv plat ((s.writeReg i call reg value).after i call actions)
      rw [State.writeReg, if_neg (fun hboth => hreg hboth.1)]
      have hafter : ∀ (s : State ι), s.after i call actions = s.setPc i (.acting call actions) := by
        intro s
        cases hprograms <;> rfl
      rw [hafter]
      refine .programming i call actions hbusy hchannel setPc_self ⟨hprograms, hprogrammed⟩ ?_ ?_
      · intro j hne
        rw [setPc_of_ne hne]
        exact hwaiting j hne
      · exact ⟨hlog.returns, hlog.programmed⟩

theorem Inv.waitMove (h : Inv plat s) (hwait : Waiting plat (s.pc i))
    (hmove : WaitMove plat s i s') : Inv plat s' := by
  cases hmove with
  | wait => exact h
  | move pc hpc =>
      cases h with
      | free hbusy hchannel hwaiting hlog =>
          exact .free hbusy hchannel (waiting_setPc (fun j _ => hwaiting j) hpc)
            ⟨hlog.returns, hlog.programmed⟩
      | programming k call actions hbusy hchannel hat hready hwaiting hlog =>
          have hne : k ≠ i := by
            rintro rfl
            rw [hat] at hwait
            cases hready.programs <;> exact hwait
          refine .programming k call actions hbusy hchannel ?_ hready ?_
            ⟨hlog.returns, hlog.programmed⟩
          · rw [setPc_of_ne hne, hat]
          · intro j hjk
            rcases eq_or_ne j i with rfl | hji
            · rwa [setPc_self]
            · rw [setPc_of_ne hji]
              exact hwaiting j hjk
      | working hbusy hchannel hwaiting hlog =>
          exact .working hbusy hchannel (waiting_setPc (fun j _ => hwaiting j) hpc)
            ⟨hlog.returns, hlog.programmed⟩
  | set call actions hzero hready =>
      cases h with
      | free _ hchannel hwaiting hlog =>
          refine .programming i call actions rfl hchannel setPc_self (hready _) ?_
            ⟨hlog.returns, hlog.programmed⟩
          intro j hne
          rw [setPc_of_ne hne]
          exact hwaiting j
      | programming _ _ _ hbusy => exact absurd (hbusy.symm.trans hzero) (by decide)
      | working hbusy => exact absurd (hbusy.symm.trans hzero) (by decide)

theorem Inv.task (h : Inv plat s) {newCall : FbCall} (hfree : SetsFree s (.task i newCall)) :
    Inv plat (s.taskNext plat procId i newCall) := by
  cases h with
  | free hbusy hchannel hwaiting hlog =>
      exact Inv.waitMove (.free hbusy hchannel hwaiting hlog) (hwaiting i)
        ((hwaiting i).taskNext hfree)
  | programming k call actions hbusy hchannel hpc hready hwaiting hlog =>
      rcases eq_or_ne i k with rfl | hne
      · exact hready.taskNext hpc hbusy hchannel hwaiting hlog
      · exact Inv.waitMove (.programming k call actions hbusy hchannel hpc hready hwaiting hlog)
          (hwaiting i hne) ((hwaiting i hne).taskNext hfree)
  | working hbusy hchannel hwaiting hlog =>
      exact Inv.waitMove (.working hbusy hchannel hwaiting hlog) (hwaiting i)
        ((hwaiting i).taskNext hfree)

theorem Inv.next (h : Inv plat s) (turn : Turn ι) (hfree : SetsFree s turn) :
    Inv plat (s.next plat procId turn) := by
  cases turn with
  | task i newCall => exact h.task hfree
  | channel status => exact h.channelNext status
  | isr => exact h.isrNext

end Invariant

/-! ## The runs -/

theorem Waiting.not_writes {plat : Platform} {pc : Pc} (h : Waiting plat pc) :
    pc.writesChannel = false := by
  rw [Waiting.eq_def] at h
  split at h
  · rfl
  · rfl
  · rfl
  · exact h.elim

theorem Inv.exclusive {ι : Type} {plat : Platform} {s : State ι} (h : Inv plat s) :
    Exclusive plat s := by
  have hnone : ∀ {i}, Waiting plat (s.pc i) → (s.pc i).writesChannel ≠ true := by
    intro i hwaiting
    rw [hwaiting.not_writes]
    decide
  cases h with
  | free _ hchannel _ hlog => exact ⟨fun _ _ => hchannel, hlog.returns, hlog.programmed⟩
  | programming _ _ _ _ hchannel _ _ _ hlog =>
      exact ⟨fun _ _ => hchannel, hlog.returns, hlog.programmed⟩
  | working _ _ hwaiting hlog =>
      exact ⟨fun i hwrites => absurd hwrites (hnone (hwaiting i)), hlog.returns, hlog.programmed⟩

/-- As long as each task sets `_dma_busy` only while it is zero, the channel is programmed
only while it is idle, and each call that has returned 0 has started one transfer, its own. -/
theorem exclusive_of_setsFree {ι : Type} [DecidableEq ι] {plat : Platform} {procId : Word}
    {s : State ι} (h : ((sharing ι plat procId).under SetsFree).Reachable s) :
    Exclusive plat s := by
  have hinv : Inv plat s := h.invariant (fun _ hstart => .start hstart) fun _ turn _ hinv hstep =>
    hstep.2 ▸ hinv.next turn hstep.1
  exact hinv.exclusive

/-! ## Two tasks -/

/-- A task has its next turns. -/
def turns (n : Nat) (i : Bool) : List (Turn Bool) :=
  List.replicate n (.task i (.write 0 0x1000 64))

/-- The frame buffer of a platform. -/
def smallPlatform : Platform := ⟨false, 0x96000000, 512⟩

/-- A processor after its boot. -/
def booted : State Bool := ⟨0, 0, fun _ => 0, .idle, fun _ => .outside, [], []⟩

theorem booted_start : Start booted := ⟨rfl, rfl, fun _ => rfl, rfl, rfl⟩

theorem sharing_step {ι : Type} [DecidableEq ι] {plat : Platform} {procId : Word} (s : State ι)
    (turn : Turn ι) (s' : State ι) (h : some (s.next plat procId turn) = some s') :
    (sharing ι plat procId).step s turn s' :=
  (Option.some.inj h).symm

/-- A task starts a transfer, and the other one waits for its end and starts another one. -/
def inTurn : List (Turn Bool) :=
  turns 3 false ++ turns 3 true ++ turns 4 false ++ [.channel 0, .isr] ++ turns 6 true

theorem exclusive_inTurn : ∃ s : State Bool,
    ((sharing Bool smallPlatform 0).under SetsFree).Reachable s ∧ s.returns.length = 2 ∧
      Exclusive smallPlatform s := by
  have htest : (exec
      (guarded SetsFree fun s turn => some (State.next smallPlatform 0 s turn)) inTurn
      booted).any (fun s => s.returns.length = 2) = true := by decide
  obtain ⟨s, hs, hreturns⟩ := System.exists_exec (guarded_step sharing_step) booted_start htest
  exact ⟨s, hs, of_decide_eq_true hreturns, exclusive_of_setsFree hs⟩

/-- Two tasks find `_dma_busy` zero, and set it one after the other.  One starts its transfer,
and the other one programs the channel meanwhile. -/
def race : List (Turn Bool) := turns 2 false ++ turns 7 true ++ turns 1 false

theorem race_not_exclusive :
    ¬ ∀ (ι : Type) [DecidableEq ι] (plat : Platform) (procId : Word) (s : State ι),
      (sharing ι plat procId).Reachable s → Exclusive plat s := by
  intro hall
  have htest : (exec (fun s turn => some (State.next smallPlatform 0 s turn)) race booted).any
      (fun s => decide (s.channel = .running ∧ (s.pc false).writesChannel = true)) = true := by
    decide
  obtain ⟨s, hs, hrace⟩ := System.exists_exec (S := sharing Bool smallPlatform 0) sharing_step
    booted_start htest
  obtain ⟨hrunning, hwrites⟩ := of_decide_eq_true hrace
  have hidle := (hall Bool smallPlatform 0 s hs).idle false hwrites
  rw [hrunning] at hidle
  cases hidle

end SmcTp.Giet.DmaChannel
