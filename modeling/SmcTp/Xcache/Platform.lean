import SmcTp.Vci.Vgsb
import SmcTp.Xcache.Freshness

/-!
# Wrappers on a bus

A platform is a `VciVgsb` with wrappers at its first ports.  There may be other initiators at
the ports that follow, and they drive what they like.  A target takes commands when it likes and
answers each of them with one packet.  A line it answers with is read from the memory, which all
wrappers share and anybody may write.

A wrapper cannot tell the bus from an interconnect of its own (`platform_path`): a run of the
platform is a run of every `SharedNode` in it.
-/

namespace SmcTp.Xcache

open Vci Clocked VciVgsb

variable {p : VciParams} {F C W : Type}

/-! ## The platform -/

/-- The constants of a platform. -/
structure PlatformConfig (p : VciParams) where
  bus : VgsbConfig p
  nbProcs : Nat
  nbProcs_le : nbProcs ≤ bus.nbInitiator
  /-- The wrappers differ in their `srcid` only. -/
  wrapper : XcacheConfig p
  srcid : Nat → BitVec 32

/-- The constants of a wrapper. -/
def PlatformConfig.xc (cfg : PlatformConfig p) (i : Nat) : XcacheConfig p :=
  { cfg.wrapper with srcid := cfg.srcid i }

/-- The bus, the wrappers and the targets.  A `SharedNode` adds to its wrapper what the wrapper
sees of the platform, and neither the wrapper nor the bus looks at it. -/
structure Platform (p : VciParams) (F C W : Type) where
  bus : VciVgsb
  proc : Nat → SharedNode p F C W
  /-- The command each target has to answer, with the flits it has sent. -/
  job : Nat → Option (CmdFlit p × List (RspFlit p))
  mem : Nat → Word
  /-- The values a word had since the last command. -/
  held : Nat → List Word

/-- The inputs of a cycle. -/
structure PlatformStimulus (p : VciParams) where
  ireq : Nat → InsRequest
  dreq : Nat → DataRequest
  /-- What the targets and the other initiators drive. -/
  env : VgsbPorts p
  /-- The memory after the cycle. -/
  mem : Nat → Word

namespace Platform

variable (cfg : PlatformConfig p) (parts : Parts F C W)

/-- What the components drive. -/
def moore (s : Platform p F C W) (x : PlatformStimulus p) : VgsbPorts p where
  toInitiator i :=
    if i < cfg.nbProcs then
      (s.proc i).node.xc.genMoore (cfg.xc i) parts (s.proc i).node.sig
    else x.env.toInitiator i
  toTarget := x.env.toTarget

/-- The wires of a cycle. -/
def ports (s : Platform p F C W) (x : PlatformStimulus p) : VgsbPorts p :=
  settle cfg.bus s.bus (s.moore cfg parts x)

/-- What a wrapper sees of a cycle. -/
def stimulus (s : Platform p F C W) (x : PlatformStimulus p) (i : Nat) : SharedStimulus p :=
  let port := (s.ports cfg parts x).toInitiator i
  { base :=
      { ireq := x.ireq i
        dreq := x.dreq i
        cmdack := port.cmdack
        rspval := port.rspval
        flit := port.rspFlit
        txn := ((s.job s.bus.targetIndex).map Prod.fst).getD port.cmdFlit }
    mem := x.mem }

/-- A target after a cycle. -/
def nextJob (sig : VciSignals p) (job : Option (CmdFlit p × List (RspFlit p))) :
    Option (CmdFlit p × List (RspFlit p)) :=
  if sig.cmdTransfer && sig.eop then some (sig.cmdFlit, [])
  else if sig.rspTransfer then
    if sig.reop then none else job.map fun x => (x.1, x.2 ++ [sig.rspFlit])
  else job

/-- A command ends in this cycle. -/
def commandEnds (s : Platform p F C W) (x : PlatformStimulus p) : Bool :=
  let sig := (s.ports cfg parts x).toTarget s.bus.targetIndex
  s.bus.fsm = .cmd && sig.cmdTransfer && sig.eop

/-- A flit a target may send. -/
def Answers (s : Platform p F C W) (job : CmdFlit p × List (RspFlit p)) (f : RspFlit p) : Prop :=
  f.rtrdid = job.1.trdid ∧ ErrorFree cfg.wrapper job.1 job.2 f ∧
    (isDataLine job.1 = true → wordOf f ∈ s.held (targetOf job.1 + job.2.length))

/-- What the targets may do in a cycle. -/
def Legal (s : Platform p F C W) (x : PlatformStimulus p) : Prop :=
  ∀ j < cfg.bus.nbTarget, ((s.ports cfg parts x).toTarget j).rspval = true →
    ∃ job, s.job j = some job ∧
      s.Answers cfg job ((s.ports cfg parts x).toTarget j).rspFlit

/-- A wrapper after a cycle. -/
def nextProc (s : Platform p F C W) (x : PlatformStimulus p) (i : Nat) : SharedNode p F C W :=
  match (s.proc i).next (cfg.xc i) parts (s.stimulus cfg parts x i) with
  | .ok (m, _) => m
  | .error _ => s.proc i

/-- One cycle. -/
def next (s : Platform p F C W) (x : PlatformStimulus p) : Platform p F C W where
  bus := transition cfg.bus true (s.ports cfg parts x) s.bus
  proc i := if i < cfg.nbProcs then s.nextProc cfg parts x i else s.proc i
  job j := nextJob ((s.ports cfg parts x).toTarget j) (s.job j)
  mem := x.mem
  held a := if s.commandEnds cfg parts x then [x.mem a, s.mem a] else x.mem a :: s.held a

/-- No wrapper stops the simulation. -/
def Goes (s : Platform p F C W) (x : PlatformStimulus p) : Prop :=
  ∀ i < cfg.nbProcs,
    ((s.proc i).next (cfg.xc i) parts (s.stimulus cfg parts x i)).isOk = true

end Platform

/-! ## The wires of a wrapper -/

section Wires

variable {cfg : PlatformConfig p} {parts : Parts F C W} {s : Platform p F C W}
  {x : PlatformStimulus p} {i : Nat}

/-- What the bus drives at the port of an initiator. -/
theorem settle_port (cfg : VgsbConfig p) (b : VciVgsb) (ports : VgsbPorts p) (i : Nat) :
    (settle cfg b ports).toInitiator i =
      ({ ports.toInitiator i with cmdack := ((settle cfg b ports).toInitiator i).cmdack }).driveRsp
        ((settle cfg b ports).toInitiator i).rspval
        ((settle cfg b ports).toInitiator i).rspFlit := by
  simp only [VciVgsb.settle, VciVgsb.genMealyRspval, VciVgsb.genMealyCmdack]
  split
  · split <;> split <;> rfl
  · rfl

/-- A wrapper sees its port. -/
theorem Platform.wires_eq (hi : i < cfg.nbProcs) :
    (s.proc i).node.wires (cfg.xc i) parts (s.stimulus cfg parts x i).base =
      (s.ports cfg parts x).toInitiator i := by
  have hport := settle_port cfg.bus s.bus (s.moore cfg parts x) i
  have hmoore : (s.moore cfg parts x).toInitiator i =
      (s.proc i).node.xc.genMoore (cfg.xc i) parts (s.proc i).node.sig := if_pos hi
  rw [hmoore] at hport
  exact hport.symm

theorem Platform.ports_wires (cfg : PlatformConfig p) (parts : Parts F C W)
    (s : Platform p F C W) (x : PlatformStimulus p) :
    Wires cfg.bus s.bus (s.ports cfg parts x) :=
  (settled_settle _ _ _).wires

/-- A wrapper goes on as its `SharedNode`. -/
theorem Platform.proc_next (hgoes : s.Goes cfg parts x) (hi : i < cfg.nbProcs) :
    ∃ out, (s.proc i).next (cfg.xc i) parts (s.stimulus cfg parts x i) =
      .ok ((s.next cfg parts x).proc i, out) := by
  have hproc : (s.next cfg parts x).proc i = s.nextProc cfg parts x i := if_pos hi
  have hok := hgoes i hi
  rw [hproc, Platform.nextProc]
  cases hnext : (s.proc i).next (cfg.xc i) parts (s.stimulus cfg parts x i) with
  | error halt =>
      rw [hnext] at hok
      cases hok
  | ok r => exact ⟨r.2, rfl⟩

end Wires

/-! ## The interconnect a wrapper sees -/

/-- The interconnect of a wrapper, while a target has to answer its command. -/
inductive Waits : Net p → CmdFlit p × List (RspFlit p) → Prop where
  | asked (t : CmdFlit p) : Waits ⟨[t], none⟩ (t, [])
  | shown (t : CmdFlit p) (fs : List (RspFlit p)) : Waits ⟨[], some (t, fs)⟩ (t, fs)

section Waits

variable {net : Net p} {i : Stimulus p} {sig : VciSignals p} {job : CmdFlit p × List (RspFlit p)}

theorem Net.next_quiet (hcmd : (sig.cmdTransfer && sig.eop) = false) (hrsp : i.rspval = false) :
    net.next i sig = net := by
  simp [Net.next, hcmd, hrsp]

theorem Waits.txn_mem (h : Waits net job) (htxn : i.txn = job.1) (hcurrent : net.current = none) :
    i.txn ∈ net.waiting := by
  cases h with
  | asked t => simp [htxn]
  | shown t fs => cases hcurrent

theorem Waits.shown_eq (h : Waits net job) (htxn : i.txn = job.1) : net.shown i = job := by
  cases h with
  | asked t =>
      simp only [Net.shown, Option.getD_none, htxn]
  | shown t fs => rfl

/-- The packet goes on. -/
theorem Waits.next (i : Stimulus p) (sig : VciSignals p) (h : Waits net job) (htxn : i.txn = job.1)
    (hcmd : (sig.cmdTransfer && sig.eop) = false) :
    if (i.rspval && sig.rspack) = true then
      if i.flit.reop = true then net.next i sig = ⟨[], none⟩
      else Waits (net.next i sig) (job.1, job.2 ++ [i.flit])
    else Waits (net.next i sig) job := by
  have hshown := h.shown_eq htxn
  cases hval : i.rspval with
  | false =>
      rw [Net.next_quiet hcmd hval]
      simpa using h
  | true =>
      have hleft : (if (true && net.current.isNone) = true then net.waiting.erase i.txn
          else net.waiting) = [] := by
        cases h <;> simp [htxn]
      have hnext : net.next i sig = ⟨[], if sig.rspack = true then
          if i.flit.reop = true then none else some (job.1, job.2 ++ [i.flit])
          else some job⟩ := by
        simp only [Net.next, hcmd, hval, hshown, hleft, if_true, Bool.false_eq_true, if_false]
      rw [hnext, Bool.true_and]
      split_ifs
      · rfl
      · exact .shown _ _
      · exact .shown _ _

end Waits

/-- A platform after its reset. -/
structure Platform.Start (cfg : PlatformConfig p) (parts : Parts F C W)
    (s : Platform p F C W) : Prop where
  bus : AfterReset cfg.bus s.bus
  proc : ∀ i < cfg.nbProcs, (s.proc i).node.Start parts ∧ (s.proc i).log = .blank
  mem : ∀ i < cfg.nbProcs, (s.proc i).mem = s.mem
  job : ∀ j, s.job j = none

/-- All platforms. -/
def platform (cfg : PlatformConfig p) (parts : Parts F C W) :
    System (Platform p F C W) (PlatformStimulus p) where
  init := Platform.Start cfg parts
  step s x s' := s.Legal cfg parts x ∧ s.Goes cfg parts x ∧ s' = s.next cfg parts x

/-! ## The invariant -/

/-- How the bus, the targets and what the wrappers see fit together. -/
structure OnBus (cfg : PlatformConfig p) (s : Platform p F C W) : Prop where
  range : InRange cfg.bus s.bus
  mem : ∀ i < cfg.nbProcs, (s.proc i).mem = s.mem
  rest : ∀ j < cfg.bus.nbTarget, ¬ RspFrom s.bus j → s.job j = none
  idle : ∀ i < cfg.nbProcs, ¬ RspTo s.bus i → (s.proc i).node.net = ⟨[], none⟩
  answering : s.bus.fsm = .rsp → ∃ job, s.job s.bus.targetIndex = some job ∧
    ∀ i < cfg.nbProcs, RspTo s.bus i → Waits (s.proc i).node.net job ∧
      (isDataLine job.1 = true → (s.proc i).seen = s.held)

section OnBus

variable {cfg : PlatformConfig p} {parts : Parts F C W} {s : Platform p F C W}
  {x : PlatformStimulus p} {i j : Nat}

/-- The wrapper that is answered sees what the target shows. -/
theorem OnBus.shown (h : OnBus cfg s) (hlegal : s.Legal cfg parts x) (hi : i < cfg.nbProcs)
    (hval : ((s.ports cfg parts x).toInitiator i).rspval = true) :
    ∃ job, Waits (s.proc i).node.net job ∧ (s.stimulus cfg parts x i).base.txn = job.1 ∧
      (isDataLine job.1 = true → (s.proc i).seen = s.held) ∧
      s.Answers cfg job ((s.ports cfg parts x).toInitiator i).rspFlit := by
  have hwires := s.ports_wires cfg parts x
  have hini := Nat.lt_of_lt_of_le hi cfg.nbProcs_le
  have hto : RspTo s.bus i := by
    by_contra hclosed
    rw [hwires.notRspTo i hini hclosed] at hval
    cases hval
  obtain ⟨job, hjob, hwaits⟩ := h.answering hto.1
  obtain ⟨hnet, hseen⟩ := hwaits i hi hto
  obtain ⟨hrspval, hflit⟩ := hwires.rspTo i hini hto
  have htarget := (h.range.busy (by simp [hto.1])).2
  obtain ⟨job', hjob', hanswers⟩ := hlegal _ htarget (hrspval ▸ hval)
  cases hjob.symm.trans hjob'
  refine ⟨job, hnet, ?_, hseen, hflit ▸ hanswers⟩
  simp [Platform.stimulus, hjob]

/-- What a wrapper sees is legal. -/
theorem OnBus.legal (h : OnBus cfg s) (hlegal : s.Legal cfg parts x) (hi : i < cfg.nbProcs) :
    (s.proc i).Legal (cfg.xc i) (s.stimulus cfg parts x i) := by
  constructor
  · intro hval
    obtain ⟨job, hnet, htxn, _, htrdid, hcontract, _⟩ := h.shown hlegal hi hval
    refine ⟨hnet.txn_mem htxn, ?_⟩
    rw [hnet.shown_eq htxn]
    exact ⟨htrdid, hcontract⟩
  · intro hval hdata
    obtain ⟨job, hnet, htxn, hseen, _, _, hline⟩ := h.shown hlegal hi hval
    rw [hnet.shown_eq htxn] at hdata ⊢
    rw [hseen hdata]
    exact hline hdata

/-- What becomes of the interconnect of a wrapper. -/
theorem proc_spec (hgoes : s.Goes cfg parts x) (hi : i < cfg.nbProcs) :
    ((s.next cfg parts x).proc i).node.net =
        (s.proc i).node.net.next (s.stimulus cfg parts x i).base
          ((s.ports cfg parts x).toInitiator i) ∧
      ((s.next cfg parts x).proc i).mem = x.mem ∧
      ∀ a, ((s.next cfg parts x).proc i).seen a =
        if ((s.ports cfg parts x).toInitiator i).cmdTransfer &&
            ((s.ports cfg parts x).toInitiator i).eop &&
            isDataLine ((s.ports cfg parts x).toInitiator i).cmdFlit
        then [x.mem a, (s.proc i).mem a] else x.mem a :: (s.proc i).seen a := by
  obtain ⟨out, hnext⟩ := Platform.proc_next hgoes hi
  obtain ⟨hnode, hmem, hseen, _⟩ := sharedNext_ok hnext
  obtain ⟨_, _, hbus⟩ := next_bus hnode
  rw [← Platform.wires_eq hi]
  exact ⟨hbus.net, hmem, hseen⟩

/-- Nothing happens at a port that is closed. -/
theorem OnBus.closed (h : OnBus cfg s) (hgoes : s.Goes cfg parts x) (hi : i < cfg.nbProcs)
    (hto : ¬ RspTo s.bus i) (hends : ¬ (CmdFrom s.bus i ∧ CmdEnds s.bus (s.ports cfg parts x))) :
    ((s.next cfg parts x).proc i).node.net = ⟨[], none⟩ := by
  have hwires := s.ports_wires cfg parts x
  have hini := Nat.lt_of_lt_of_le hi cfg.nbProcs_le
  rw [(proc_spec hgoes hi).1, h.idle i hi hto]
  refine Net.next_quiet ?_ (hwires.notRspTo i hini hto)
  rw [Bool.eq_false_iff]
  intro hcmd
  simp only [VciSignals.cmdTransfer, Bool.and_eq_true] at hcmd
  by_cases hfrom : CmdFrom s.bus i
  · have hack := hwires.cmdFrom i hini hfrom
    obtain rfl := hfrom.2
    exact hends ⟨hfrom, hcmd.2, hcmd.1.1, hack ▸ hcmd.1.2⟩
  · rw [hwires.notCmdFrom i hini hfrom] at hcmd
    exact Bool.false_ne_true hcmd.1.2

/-- Nothing happens at a target that is closed. -/
theorem OnBus.jobClosed (h : OnBus cfg s) (hj : j < cfg.bus.nbTarget) (hfrom : ¬ RspFrom s.bus j)
    (hends : ¬ (CmdTo s.bus j ∧ CmdEnds s.bus (s.ports cfg parts x))) :
    (s.next cfg parts x).job j = none := by
  have hwires := s.ports_wires cfg parts x
  have hcmd : (((s.ports cfg parts x).toTarget j).cmdTransfer &&
      ((s.ports cfg parts x).toTarget j).eop) = false := by
    rw [Bool.eq_false_iff]
    intro hcmd
    simp only [VciSignals.cmdTransfer, Bool.and_eq_true] at hcmd
    by_cases hto : CmdTo s.bus j
    · obtain ⟨hval, hflit⟩ := hwires.cmdTo j hj hto
      obtain rfl := hto.2
      exact hends ⟨hto, (congrArg CmdFlit.eop hflit).symm.trans hcmd.2, hval ▸ hcmd.1.1, hcmd.1.2⟩
    · rw [hwires.notCmdTo j hj hto] at hcmd
      exact Bool.false_ne_true hcmd.1.1
  show Platform.nextJob _ _ = none
  rw [h.rest j hj hfrom, Platform.nextJob, hcmd]
  simp

/-- The bus has not come to a response. -/
theorem OnBus.quiet (h : OnBus cfg s) (hgoes : s.Goes cfg parts x) (hfsm : s.bus.fsm ≠ .rsp)
    (hends : ¬ (s.bus.fsm = .cmd ∧ CmdEnds s.bus (s.ports cfg parts x)))
    (hrange : InRange cfg.bus (s.next cfg parts x).bus)
    (hnext : (s.next cfg parts x).bus.fsm ≠ .rsp) : OnBus cfg (s.next cfg parts x) where
  range := hrange
  mem _ hi := (proc_spec hgoes hi).2.1
  rest _ hj _ := h.jobClosed hj (fun hfrom => hfsm hfrom.1) fun hto => hends ⟨hto.1.1, hto.2⟩
  idle _ hi _ := h.closed hgoes hi (fun hto => hfsm hto.1) fun hfrom => hends ⟨hfrom.1.1, hfrom.2⟩
  answering hrsp := absurd hrsp hnext

/-- A command ends. -/
theorem OnBus.cmdEnd (h : OnBus cfg s) (hgoes : s.Goes cfg parts x) (hfsm : s.bus.fsm = .cmd)
    (hends : CmdEnds s.bus (s.ports cfg parts x))
    (hrange : InRange cfg.bus (s.next cfg parts x).bus)
    (hbus : (s.next cfg parts x).bus = { s.bus with fsm := .rsp }) :
    OnBus cfg (s.next cfg parts x) := by
  have hwires := s.ports_wires cfg parts x
  obtain ⟨_, htgt⟩ := h.range.busy (by simp [hfsm])
  obtain ⟨hval, hflit⟩ := hwires.cmdTo _ htgt ⟨hfsm, rfl⟩
  have heop : ((s.ports cfg parts x).toTarget s.bus.targetIndex).eop = true :=
    (congrArg CmdFlit.eop hflit).trans hends.1
  have htransfer : ((s.ports cfg parts x).toTarget s.bus.targetIndex).cmdTransfer = true := by
    rw [VciSignals.cmdTransfer, hval, hends.2.1, hends.2.2, Bool.and_self]
  refine ⟨hrange, fun i hi => (proc_spec hgoes hi).2.1, fun j hj hfrom => ?_, fun i hi hto => ?_,
    fun _ => ?_⟩
  · rw [hbus] at hfrom
    exact h.jobClosed hj (fun hopen => by simp [hopen.1] at hfsm) fun hopen =>
      hfrom ⟨rfl, hopen.1.2⟩
  · rw [hbus] at hto
    exact h.closed hgoes hi (fun hopen => by simp [hopen.1] at hfsm) fun hopen =>
      hto ⟨rfl, hopen.1.2⟩
  · refine ⟨(((s.ports cfg parts x).toTarget s.bus.targetIndex).cmdFlit, []), ?_,
      fun i hi hto => ?_⟩
    · rw [hbus]
      show Platform.nextJob _ _ = _
      rw [Platform.nextJob, htransfer, heop]
      rfl
    · rw [hbus] at hto
      obtain rfl : i = s.bus.initiatorIndex := hto.2
      obtain ⟨hnet, _, hseen⟩ := proc_spec hgoes hi
      have hini := Nat.lt_of_lt_of_le hi cfg.nbProcs_le
      have hclosed : ¬ RspTo s.bus s.bus.initiatorIndex := fun hopen => by simp [hopen.1] at hfsm
      have hack := hwires.cmdFrom _ hini ⟨hfsm, rfl⟩
      have hsends :
          ((s.ports cfg parts x).toInitiator s.bus.initiatorIndex).cmdTransfer = true := by
        rw [VciSignals.cmdTransfer, hends.2.1, hack, hends.2.2, Bool.and_self]
      refine ⟨?_, fun hdata => funext fun a => ?_⟩
      · rw [hnet, h.idle _ hi hclosed, hflit]
        have hquiet : (s.stimulus cfg parts x s.bus.initiatorIndex).base.rspval = false :=
          hwires.notRspTo _ hini hclosed
        have hone : Net.next (s.stimulus cfg parts x s.bus.initiatorIndex).base
            ((s.ports cfg parts x).toInitiator s.bus.initiatorIndex) ⟨[], none⟩ =
            ⟨[((s.ports cfg parts x).toInitiator s.bus.initiatorIndex).cmdFlit], none⟩ := by
          simp [Net.next, hquiet, hsends, hends.1]
        rw [hone]
        exact .asked _
      · rw [hseen, ← hflit, hsends, hends.1, hdata, h.mem _ hi]
        have hcommand : s.commandEnds cfg parts x = true := by
          simp [Platform.commandEnds, hfsm, htransfer, heop]
        show _ = if s.commandEnds cfg parts x then _ else _
        rw [hcommand]
        rfl

/-- A response is under way. -/
theorem OnBus.rsp (h : OnBus cfg s) (hgoes : s.Goes cfg parts x) (hfsm : s.bus.fsm = .rsp)
    (hrange : InRange cfg.bus (s.next cfg parts x).bus)
    (hstay : ¬ RspEnds s.bus (s.ports cfg parts x) → (s.next cfg parts x).bus = s.bus)
    (hend : RspEnds s.bus (s.ports cfg parts x) → (s.next cfg parts x).bus.fsm = .idle) :
    OnBus cfg (s.next cfg parts x) := by
  have hwires := s.ports_wires cfg parts x
  obtain ⟨hpos, htgt⟩ := h.range.busy (by simp [hfsm])
  have hini := h.range.initiator hpos
  have hack := hwires.rspFrom _ htgt ⟨hfsm, rfl⟩
  obtain ⟨hval, hflit⟩ := hwires.rspTo _ hini ⟨hfsm, rfl⟩
  have hto : ¬ CmdTo s.bus s.bus.targetIndex := fun hopen => by simp [hopen.1] at hfsm
  have hfrom : ¬ CmdFrom s.bus s.bus.initiatorIndex := fun hopen => by simp [hopen.1] at hfsm
  obtain ⟨job, hjob, hwaits⟩ := h.answering hfsm
  have htransfer : ((s.ports cfg parts x).toTarget s.bus.targetIndex).rspTransfer =
      (((s.ports cfg parts x).toInitiator s.bus.initiatorIndex).rspval &&
        ((s.ports cfg parts x).toInitiator s.bus.initiatorIndex).rspack) := by
    rw [VciSignals.rspTransfer, hack, hval]
  have hreop : ((s.ports cfg parts x).toTarget s.bus.targetIndex).reop =
      ((s.ports cfg parts x).toInitiator s.bus.initiatorIndex).reop :=
    (congrArg RspFlit.reop hflit).symm
  have hnextJob : (s.next cfg parts x).job s.bus.targetIndex =
      if ((s.ports cfg parts x).toTarget s.bus.targetIndex).rspTransfer then
        if ((s.ports cfg parts x).toTarget s.bus.targetIndex).reop then none
        else some (job.1,
          job.2 ++ [((s.ports cfg parts x).toInitiator s.bus.initiatorIndex).rspFlit])
      else some job := by
    show Platform.nextJob _ _ = _
    rw [Platform.nextJob, VciSignals.cmdTransfer, hwires.notCmdTo _ htgt hto, hjob, hflit]
    rfl
  have hnextNet (hi : s.bus.initiatorIndex < cfg.nbProcs) :
      if ((s.ports cfg parts x).toTarget s.bus.targetIndex).rspTransfer then
        if ((s.ports cfg parts x).toTarget s.bus.targetIndex).reop then
          ((s.next cfg parts x).proc s.bus.initiatorIndex).node.net = ⟨[], none⟩
        else Waits ((s.next cfg parts x).proc s.bus.initiatorIndex).node.net (job.1,
          job.2 ++ [((s.ports cfg parts x).toInitiator s.bus.initiatorIndex).rspFlit])
      else Waits ((s.next cfg parts x).proc s.bus.initiatorIndex).node.net job := by
    rw [htransfer, hreop, (proc_spec hgoes hi).1]
    refine (hwaits _ hi ⟨hfsm, rfl⟩).1.next (s.stimulus cfg parts x s.bus.initiatorIndex).base
      ((s.ports cfg parts x).toInitiator s.bus.initiatorIndex) ?_ ?_
    · simp [Platform.stimulus, hjob]
    · rw [VciSignals.cmdTransfer, hwires.notCmdFrom _ hini hfrom, Bool.and_false, Bool.false_and]
  have hother (k : Nat) (hk : k < cfg.bus.nbTarget) (hne : k ≠ s.bus.targetIndex) :
      (s.next cfg parts x).job k = none :=
    h.jobClosed hk (fun hopen => hne hopen.2) fun hopen => by simp [hopen.1.1] at hfsm
  have hquiet (k : Nat) (hk : k < cfg.nbProcs) (hne : k ≠ s.bus.initiatorIndex) :
      ((s.next cfg parts x).proc k).node.net = ⟨[], none⟩ :=
    h.closed hgoes hk (fun hopen => hne hopen.2) fun hopen => by simp [hopen.1.1] at hfsm
  by_cases hends : RspEnds s.bus (s.ports cfg parts x)
  · have hlast : ((s.ports cfg parts x).toTarget s.bus.targetIndex).rspTransfer = true := by
      rw [VciSignals.rspTransfer, hack, hends.2.1, hends.2.2, Bool.and_self]
    rw [hlast, if_pos rfl, hends.1, if_pos rfl] at hnextJob
    refine ⟨hrange, fun i hi => (proc_spec hgoes hi).2.1, fun j hj _ => ?_, fun i hi _ => ?_,
      fun hrsp => by simp [hend hends] at hrsp⟩
    · by_cases hj' : j = s.bus.targetIndex
      · rw [hj', hnextJob]
      · exact hother j hj hj'
    · by_cases hi' : i = s.bus.initiatorIndex
      · subst hi'
        have hnet := hnextNet hi
        rwa [hlast, if_pos rfl, hends.1, if_pos rfl] at hnet
      · exact hquiet i hi hi'
  · have hbus := hstay hends
    refine ⟨hrange, fun i hi => (proc_spec hgoes hi).2.1, fun j hj hclosed => ?_,
      fun i hi hclosed => ?_, fun _ => ?_⟩
    · rw [hbus] at hclosed
      exact hother j hj fun hj' => hclosed ⟨hfsm, hj'⟩
    · rw [hbus] at hclosed
      exact hquiet i hi fun hi' => hclosed ⟨hfsm, hi'⟩
    · rw [hbus]
      have hlast : ¬ (((s.ports cfg parts x).toTarget s.bus.targetIndex).rspTransfer = true ∧
          ((s.ports cfg parts x).toTarget s.bus.targetIndex).reop = true) := by
        rintro ⟨hlast, hreop⟩
        rw [VciSignals.rspTransfer, hack, Bool.and_eq_true] at hlast
        exact hends ⟨hreop, hlast⟩
      have hheld (hi : s.bus.initiatorIndex < cfg.nbProcs) (hdata : isDataLine job.1 = true) :
          ((s.next cfg parts x).proc s.bus.initiatorIndex).seen = (s.next cfg parts x).held := by
        funext a
        have hcommand : s.commandEnds cfg parts x = false := by
          simp [Platform.commandEnds, hfsm]
        rw [(proc_spec hgoes hi).2.2, VciSignals.cmdTransfer, hwires.notCmdFrom _ hini hfrom,
          (hwaits _ hi ⟨hfsm, rfl⟩).2 hdata]
        show _ = if s.commandEnds cfg parts x then _ else _
        rw [hcommand]
        simp
      by_cases hsent : ((s.ports cfg parts x).toTarget s.bus.targetIndex).rspTransfer = true
      · have hmore : ((s.ports cfg parts x).toTarget s.bus.targetIndex).reop = false :=
          Bool.eq_false_iff.mpr fun hreop => hlast ⟨hsent, hreop⟩
        simp only [hsent, hmore, if_true, Bool.false_eq_true, if_false] at hnextJob hnextNet
        refine ⟨_, hnextJob, fun i hi hto => ?_⟩
        obtain rfl : i = s.bus.initiatorIndex := hto.2
        exact ⟨hnextNet hi, hheld hi⟩
      · simp only [hsent, Bool.false_eq_true, if_false] at hnextJob hnextNet
        refine ⟨_, hnextJob, fun i hi hto => ?_⟩
        obtain rfl : i = s.bus.initiatorIndex := hto.2
        exact ⟨hnextNet hi, hheld hi⟩

theorem OnBus.next (h : OnBus cfg s) (hgoes : s.Goes cfg parts x) :
    OnBus cfg (s.next cfg parts x) := by
  have hedge : VciVgsb.Edge cfg.bus (s.ports cfg parts x) s.bus (s.next cfg parts x).bus :=
    transition_edge _ _ _
  have hrange := h.range.edge hedge
  generalize hbus : (s.next cfg parts x).bus = b at hedge
  cases hedge with
  | idle hfsm _ =>
      exact h.quiet hgoes (by simp [hfsm]) (fun hcmd => by simp [hcmd.1] at hfsm) hrange
        (by simp [hbus, hfsm])
  | grant hfsm _ =>
      exact h.quiet hgoes (by simp [hfsm]) (fun hcmd => by simp [hcmd.1] at hfsm) hrange
        (by simp [hbus, granted])
  | cmdStay hfsm hends =>
      exact h.quiet hgoes (by simp [hfsm]) (fun hcmd => hends hcmd.2) hrange
        (by simp [hbus, hfsm])
  | cmdEnd hfsm hends => exact h.cmdEnd hgoes hfsm hends hrange hbus
  | rspStay hfsm hends =>
      exact h.rsp hgoes hfsm hrange (fun _ => hbus) fun hends' => absurd hends' hends
  | rspEnd hfsm hends =>
      exact h.rsp hgoes hfsm hrange (fun hends' => absurd hends hends') fun _ => by simp [hbus]

theorem OnBus.start (hstart : s.Start cfg parts) : OnBus cfg s := by
  obtain ⟨s₀, ports, hbus⟩ := hstart.bus
  have hfsm : s.bus.fsm = .idle := by
    rw [hbus]
    rfl
  refine ⟨⟨fun hpos => ?_, fun hbusy => absurd hfsm hbusy⟩, hstart.mem, fun j _ _ => hstart.job j,
    fun i hi _ => (hstart.proc i hi).1.2.1, fun hrsp => by simp [hfsm] at hrsp⟩
  rw [hbus]
  exact hpos

theorem onBus_of_reachable (hs : (platform cfg parts).Reachable s) : OnBus cfg s :=
  hs.invariant (fun _ => OnBus.start) fun s x s' h hstep => by
    obtain ⟨_, hgoes, rfl⟩ := hstep
    exact h.next hgoes

/-- A wrapper on the bus sees an interconnect of its own in front of the shared memory: every run
of the platform is a run of each `SharedNode`. -/
theorem platform_path {steps : List (Platform p F C W × PlatformStimulus p)}
    (hpath : (platform cfg parts).Path steps s) (hi : i < cfg.nbProcs) :
    (sharedSystem (cfg.xc i) parts).Path
        (steps.map fun e => (e.1.proc i, e.1.stimulus cfg parts e.2 i)) (s.proc i) ∧
      (s.proc i).mem = s.mem := by
  refine ⟨hpath.map (T := sharedSystem (cfg.xc i) parts) (f := fun s => s.proc i)
    (g := fun s x => s.stimulus cfg parts x i) (fun s hstart => ?_) fun s x s' hs hstep => ?_,
    (onBus_of_reachable hpath.reachable).mem i hi⟩
  · have hstart : s.Start cfg parts := hstart
    exact hstart.proc i hi
  obtain ⟨hlegal, hgoes, rfl⟩ := hstep
  exact ⟨(onBus_of_reachable hs).legal hlegal hi, Platform.proc_next hgoes hi⟩

end OnBus

/-! ## Runs of given inputs -/

instance (cfg : PlatformConfig p) (s : Platform p F C W) (job : CmdFlit p × List (RspFlit p))
    (f : RspFlit p) : Decidable (s.Answers cfg job f) :=
  decidable_of_iff (f.rtrdid = job.1.trdid ∧ ErrorFree cfg.wrapper job.1 job.2 f ∧
      (isDataLine job.1 = true →
        (s.held (targetOf job.1 + job.2.length)).contains (wordOf f) = true))
    ⟨fun ⟨htrdid, hcontract, hline⟩ =>
        ⟨htrdid, hcontract, fun hdata => List.contains_iff_mem.mp (hline hdata)⟩,
      fun ⟨htrdid, hcontract, hline⟩ =>
        ⟨htrdid, hcontract, fun hdata => List.contains_iff_mem.mpr (hline hdata)⟩⟩

instance (cfg : PlatformConfig p) (parts : Parts F C W) (s : Platform p F C W)
    (x : PlatformStimulus p) : Decidable (s.Legal cfg parts x) :=
  decidable_of_iff (∀ j < cfg.bus.nbTarget, ((s.ports cfg parts x).toTarget j).rspval = true →
      (s.job j).any (fun job =>
        s.Answers cfg job ((s.ports cfg parts x).toTarget j).rspFlit) = true)
    (by simp only [Option.any_eq_true, decide_eq_true_eq, Platform.Legal])

instance (cfg : PlatformConfig p) (parts : Parts F C W) (s : Platform p F C W)
    (x : PlatformStimulus p) : Decidable (s.Goes cfg parts x) :=
  inferInstanceAs (Decidable (∀ i < _, _ = true))

/-- The platform after a cycle, if the inputs are legal and nothing stops the simulation. -/
def Platform.legalNext (cfg : PlatformConfig p) (parts : Parts F C W) (s : Platform p F C W)
    (x : PlatformStimulus p) : Option (Platform p F C W) :=
  if s.Legal cfg parts x ∧ s.Goes cfg parts x then some (s.next cfg parts x) else none

theorem Platform.legalNext_step {cfg : PlatformConfig p} {parts : Parts F C W}
    (s : Platform p F C W) (x : PlatformStimulus p) (s' : Platform p F C W)
    (h : s.legalNext cfg parts x = some s') : (platform cfg parts).step s x s' := by
  unfold legalNext at h
  split_ifs at h with hlegal
  cases h
  exact ⟨hlegal.1, hlegal.2, rfl⟩

/-! ## A small platform -/

/-- Two small wrappers and a target. -/
def smallPlatformConfig : PlatformConfig smallParam where
  bus := ⟨fun _ => 0, 2, 1, fun _ => Nat.one_pos⟩
  nbProcs := 2
  nbProcs_le := Nat.le_refl 2
  wrapper := smallConfig
  srcid i := BitVec.ofNat 32 i

/-- The small platform in a memory in which every word is 7. -/
def smallPlatform : Platform smallParam (List Word) SetCache LineBuffer where
  bus := VciVgsb.transition smallPlatformConfig.bus false ⟨fun _ => .undriven, fun _ => .undriven⟩
    ⟨.idle, 0, 0, fun _ _ => 0⟩
  proc _ := smallShared
  job _ := none
  mem _ := 7
  held _ := []

theorem smallPlatform_start : smallPlatform.Start smallPlatformConfig (smallParts 2) where
  bus := ⟨⟨.idle, 0, 0, fun _ _ => 0⟩, ⟨fun _ => .undriven, fun _ => .undriven⟩, rfl⟩
  proc _ _ := smallShared_init
  mem _ _ := rfl
  job _ := rfl

/-- A cycle in which the first processor asks for data, and the target shows a flit or not. -/
def busCycle (q : DataRequest) (flit : Option (RspFlit smallParam)) :
    PlatformStimulus smallParam where
  ireq _ := ⟨false, 0⟩
  dreq i := if i = 0 then q else ⟨false, 0, .read, 0, 0⟩
  env :=
    { toInitiator _ := .undriven
      toTarget _ := ({ VciSignals.undriven with cmdack := true }).driveRsp flit.isSome
        (flit.getD ⟨0, 0, 0, 0, 0, false⟩) }
  mem _ := 7

/-- The first wrapper fetches a line over the bus. -/
def lineOverBus : List (PlatformStimulus smallParam) :=
  let flit last : RspFlit smallParam := ⟨7, 0, 0, 1, 0, last⟩
  let q := loadWord 0x10
  [busCycle q none, busCycle q none, busCycle q none, busCycle q none,
    busCycle q (some (flit false)), busCycle q (some (flit false)), busCycle q (some (flit true)),
    busCycle q none]

/-- The first processor reads a word, and the second one is idle. -/
theorem platform_path_small : ∃ (steps : List (Platform smallParam (List Word) SetCache
      LineBuffer × PlatformStimulus smallParam))
    (s : Platform smallParam (List Word) SetCache LineBuffer),
    (platform smallPlatformConfig (smallParts 2)).Path steps s ∧
      (s.proc 0).answers (smallPlatformConfig.xc 0) (smallParts 2)
        (s.stimulus smallPlatformConfig (smallParts 2) (busCycle (loadWord 0x10) none) 0) =
          some (loadWord 0x10, .ok 7) ∧
      (sharedSystem (smallPlatformConfig.xc 0) (smallParts 2)).Path
        (steps.map fun e =>
          (e.1.proc 0, e.1.stimulus smallPlatformConfig (smallParts 2) e.2 0)) (s.proc 0) ∧
      (s.proc 0).mem = s.mem := by
  have hrun : (exec (Platform.legalNext smallPlatformConfig (smallParts 2)) lineOverBus
      smallPlatform).any (fun s => (s.proc 0).answers (smallPlatformConfig.xc 0) (smallParts 2)
        (s.stimulus smallPlatformConfig (smallParts 2) (busCycle (loadWord 0x10) none) 0) =
          some (loadWord 0x10, .ok 7)) = true := by
    decide +kernel
  obtain ⟨s, hexec, hanswer⟩ := (Option.any_eq_true _ _).mp hrun
  have hinit : (platform smallPlatformConfig (smallParts 2)).Path [] smallPlatform :=
    .init smallPlatform_start
  have hpath := hinit.trace Platform.legalNext_step hexec
  exact ⟨_, s, hpath, of_decide_eq_true hanswer, platform_path hpath (by decide)⟩

end SmcTp.Xcache
