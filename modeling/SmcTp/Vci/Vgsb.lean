import SmcTp.Clocked.Cyclic
import SmcTp.Clocked.Run
import SmcTp.Vci.Signals

/-!
# The VCI bus

`VciVgsb` carries one transaction at a time between one initiator and one target.
Its automaton allocates the bus (`idle`), transfers the command packet (`cmd`) and
then the response packet (`rsp`).  The two index registers select the initiator
and the target and control the four multiplexers, which are the combinational
functions `genMealy`.

The ports are two families of wires, `toInitiator` and `toTarget`, indexed by
naturals and meaningful below the number of initiators and targets.  Each
`genMealy` function writes the wires the bus drives and leaves the others alone,
so the fields of a port that is not selected keep their old value.

`transition` is the clocked process.  The same search loop stands in `idle` and at
the end of `rsp`.  There it is followed by an assignment of `idle` to the state
register, and the last assignment of a cycle is the one that counts.
-/

namespace SmcTp.Vci

open Clocked

variable {p : VciParams}

/-- The constants of a bus.  The constructor exits unless every routing table
entry is below the number of targets. -/
structure VgsbConfig (p : VciParams) where
  /-- `m_routing_table`, read at an address. -/
  routingTable : BitVec p.N → Nat
  nbInitiator : Nat
  nbTarget : Nat
  isAllBelow : ∀ a, routingTable a < nbTarget

/-- `vgsb_fms_state_e`. -/
inductive VgsbFsm where
  | idle
  | cmd
  | rsp
deriving DecidableEq, Repr

/-- The registers of `VciVgsb`. -/
structure VciVgsb where
  fsm : VgsbFsm
  initiatorIndex : Nat
  targetIndex : Nat
  vciCounter : Nat → Nat → BitVec 32

/-- The ports of a bus, wire by wire. -/
structure VgsbPorts (p : VciParams) where
  toInitiator : Nat → VciSignals p
  toTarget : Nat → VciSignals p

/-- The initiators that assert `cmdval`. -/
def VgsbPorts.requests (ports : VgsbPorts p) (k : Nat) : Bool := (ports.toInitiator k).cmdval

namespace VciVgsb

/-! ## The clocked process -/

/-- Add one transaction to the counter of a pair. -/
def count (vciCounter : Nat → Nat → BitVec 32) (ini tgt : Nat) : Nat → Nat → BitVec 32 :=
  fun i j => if i = ini ∧ j = tgt then vciCounter i j + 1 else vciCounter i j

/-- The search loop over the initiators.  The first one that asserts `cmdval`
after the current one gets the bus, and the loop breaks. -/
def allocate (cfg : VgsbConfig p) (ports : VgsbPorts p) (s : VciVgsb) : VciVgsb :=
  match Cyclic.first cfg.nbInitiator s.initiatorIndex ports.requests with
  | none => s
  | some ini =>
      let tgt := cfg.routingTable (ports.toInitiator ini).address
      { fsm := .cmd
        initiatorIndex := ini
        targetIndex := tgt
        vciCounter := count s.vciCounter ini tgt }

/-- `VciVgsb::transition`. -/
def transition (cfg : VgsbConfig p) (resetn : Bool) (ports : VgsbPorts p) (s : VciVgsb) :
    VciVgsb :=
  let ini := ports.toInitiator s.initiatorIndex
  let tgt := ports.toTarget s.targetIndex
  if !resetn then
    { fsm := .idle
      initiatorIndex := 0
      targetIndex := 0
      vciCounter := fun i j =>
        if i < cfg.nbInitiator ∧ j < cfg.nbTarget then 0 else s.vciCounter i j }
  else
    match s.fsm with
    | .idle => allocate cfg ports s
    | .cmd => if ini.eop && ini.cmdval && tgt.cmdack then { s with fsm := .rsp } else s
    | .rsp =>
        -- The loop may assign `cmd` to the state register; the line after it wins.
        if tgt.reop && tgt.rspval && ini.rspack then { allocate cfg ports s with fsm := .idle }
        else s

/-! ## The combinational processes -/

/-- The command path is open from the initiator `x`. -/
def CmdFrom (s : VciVgsb) (x : Nat) : Prop := s.fsm = .cmd ∧ x = s.initiatorIndex

/-- The command path is open towards the target `x`. -/
def CmdTo (s : VciVgsb) (x : Nat) : Prop := s.fsm = .cmd ∧ x = s.targetIndex

/-- The response path is open from the target `x`. -/
def RspFrom (s : VciVgsb) (x : Nat) : Prop := s.fsm = .rsp ∧ x = s.targetIndex

/-- The response path is open towards the initiator `x`. -/
def RspTo (s : VciVgsb) (x : Nat) : Prop := s.fsm = .rsp ∧ x = s.initiatorIndex

instance (s : VciVgsb) (x : Nat) : Decidable (CmdFrom s x) := inferInstanceAs (Decidable (_ ∧ _))
instance (s : VciVgsb) (x : Nat) : Decidable (CmdTo s x) := inferInstanceAs (Decidable (_ ∧ _))
instance (s : VciVgsb) (x : Nat) : Decidable (RspFrom s x) := inferInstanceAs (Decidable (_ ∧ _))
instance (s : VciVgsb) (x : Nat) : Decidable (RspTo s x) := inferInstanceAs (Decidable (_ ∧ _))

/-- `VciVgsb::genMealy_cmdval`: the wires `toTarget`. -/
def genMealyCmdval (cfg : VgsbConfig p) (s : VciVgsb) (ports : VgsbPorts p) :
    Nat → VciSignals p := fun x =>
  let ini := ports.toInitiator s.initiatorIndex
  let port := ports.toTarget x
  if x < cfg.nbTarget then
    if CmdTo s x then port.driveCmd ini.cmdval ini.cmdFlit else { port with cmdval := false }
  else port

/-- `VciVgsb::genMealy_cmdack`: the wires `toInitiator`. -/
def genMealyCmdack (cfg : VgsbConfig p) (s : VciVgsb) (ports : VgsbPorts p) :
    Nat → VciSignals p := fun x =>
  let tgt := ports.toTarget s.targetIndex
  let port := ports.toInitiator x
  if x < cfg.nbInitiator then
    if CmdFrom s x then { port with cmdack := tgt.cmdack } else { port with cmdack := false }
  else port

/-- `VciVgsb::genMealy_rspval`: the wires `toInitiator`. -/
def genMealyRspval (cfg : VgsbConfig p) (s : VciVgsb) (ports : VgsbPorts p) :
    Nat → VciSignals p := fun x =>
  let tgt := ports.toTarget s.targetIndex
  let port := ports.toInitiator x
  if x < cfg.nbInitiator then
    if RspTo s x then port.driveRsp tgt.rspval tgt.rspFlit else { port with rspval := false }
  else port

/-- `VciVgsb::genMealy_rspack`: the wires `toTarget`. -/
def genMealyRspack (cfg : VgsbConfig p) (s : VciVgsb) (ports : VgsbPorts p) :
    Nat → VciSignals p := fun x =>
  let ini := ports.toInitiator s.initiatorIndex
  let port := ports.toTarget x
  if x < cfg.nbTarget then
    if RspFrom s x then { port with rspack := ini.rspack } else { port with rspack := false }
  else port

/-- The four processes, once each.  None reads what another writes, so this is
where they come to rest. -/
def settle (cfg : VgsbConfig p) (s : VciVgsb) (ports : VgsbPorts p) : VgsbPorts p :=
  let ports := { ports with toTarget := genMealyCmdval cfg s ports }
  let ports := { ports with toInitiator := genMealyCmdack cfg s ports }
  let ports := { ports with toInitiator := genMealyRspval cfg s ports }
  { ports with toTarget := genMealyRspack cfg s ports }

/-- The wires are at rest: no combinational process would change them. -/
structure Settled (cfg : VgsbConfig p) (s : VciVgsb) (ports : VgsbPorts p) : Prop where
  cmdval : genMealyCmdval cfg s ports = ports.toTarget
  cmdack : genMealyCmdack cfg s ports = ports.toInitiator
  rspval : genMealyRspval cfg s ports = ports.toInitiator
  rspack : genMealyRspack cfg s ports = ports.toTarget

/-! ## One port of each process -/

section Port

variable {cfg : VgsbConfig p} {s : VciVgsb} {ports : VgsbPorts p} {x : Nat}

theorem genMealyCmdval_open (hx : x < cfg.nbTarget) (h : CmdTo s x) :
    genMealyCmdval cfg s ports x =
      (ports.toTarget x).driveCmd (ports.toInitiator s.initiatorIndex).cmdval
        (ports.toInitiator s.initiatorIndex).cmdFlit := by
  simp only [genMealyCmdval, if_pos hx, if_pos h]

theorem genMealyCmdval_closed (hx : x < cfg.nbTarget) (h : ¬ CmdTo s x) :
    genMealyCmdval cfg s ports x = { ports.toTarget x with cmdval := false } := by
  simp only [genMealyCmdval, if_pos hx, if_neg h]

theorem genMealyCmdack_open (hx : x < cfg.nbInitiator) (h : CmdFrom s x) :
    genMealyCmdack cfg s ports x =
      { ports.toInitiator x with cmdack := (ports.toTarget s.targetIndex).cmdack } := by
  simp only [genMealyCmdack, if_pos hx, if_pos h]

theorem genMealyCmdack_closed (hx : x < cfg.nbInitiator) (h : ¬ CmdFrom s x) :
    genMealyCmdack cfg s ports x = { ports.toInitiator x with cmdack := false } := by
  simp only [genMealyCmdack, if_pos hx, if_neg h]

theorem genMealyRspval_open (hx : x < cfg.nbInitiator) (h : RspTo s x) :
    genMealyRspval cfg s ports x =
      (ports.toInitiator x).driveRsp (ports.toTarget s.targetIndex).rspval
        (ports.toTarget s.targetIndex).rspFlit := by
  simp only [genMealyRspval, if_pos hx, if_pos h]

theorem genMealyRspval_closed (hx : x < cfg.nbInitiator) (h : ¬ RspTo s x) :
    genMealyRspval cfg s ports x = { ports.toInitiator x with rspval := false } := by
  simp only [genMealyRspval, if_pos hx, if_neg h]

theorem genMealyRspack_open (hx : x < cfg.nbTarget) (h : RspFrom s x) :
    genMealyRspack cfg s ports x =
      { ports.toTarget x with rspack := (ports.toInitiator s.initiatorIndex).rspack } := by
  simp only [genMealyRspack, if_pos hx, if_pos h]

theorem genMealyRspack_closed (hx : x < cfg.nbTarget) (h : ¬ RspFrom s x) :
    genMealyRspack cfg s ports x = { ports.toTarget x with rspack := false } := by
  simp only [genMealyRspack, if_pos hx, if_neg h]

end Port

/-! ## Coming to rest

What an initiator drives and what a target drives are left alone by all four
processes, and what one process drives is left alone by the other three. -/

/-- The command wires of two ports are the same. -/
structure SameCmd (a b : VciSignals p) : Prop where
  cmdval : a.cmdval = b.cmdval
  cmdFlit : a.cmdFlit = b.cmdFlit

/-- The response wires of two ports are the same. -/
structure SameRsp (a b : VciSignals p) : Prop where
  rspval : a.rspval = b.rspval
  rspFlit : a.rspFlit = b.rspFlit

theorem SameCmd.trans {a b c : VciSignals p} (h : SameCmd a b) (h' : SameCmd b c) :
    SameCmd a c := ⟨h.cmdval.trans h'.cmdval, h.cmdFlit.trans h'.cmdFlit⟩

theorem SameRsp.trans {a b c : VciSignals p} (h : SameRsp a b) (h' : SameRsp b c) :
    SameRsp a c := ⟨h.rspval.trans h'.rspval, h.rspFlit.trans h'.rspFlit⟩

section Frame

variable (cfg : VgsbConfig p) (s : VciVgsb) (ports : VgsbPorts p) (x : Nat)

theorem genMealyCmdval_frame :
    SameRsp (genMealyCmdval cfg s ports x) (ports.toTarget x) ∧
      (genMealyCmdval cfg s ports x).cmdack = (ports.toTarget x).cmdack ∧
      (genMealyCmdval cfg s ports x).rspack = (ports.toTarget x).rspack := by
  unfold genMealyCmdval
  split
  · split <;> exact ⟨⟨rfl, rfl⟩, rfl, rfl⟩
  · exact ⟨⟨rfl, rfl⟩, rfl, rfl⟩

theorem genMealyCmdack_frame :
    SameCmd (genMealyCmdack cfg s ports x) (ports.toInitiator x) ∧
      SameRsp (genMealyCmdack cfg s ports x) (ports.toInitiator x) ∧
      (genMealyCmdack cfg s ports x).rspack = (ports.toInitiator x).rspack := by
  unfold genMealyCmdack
  split
  · split <;> exact ⟨⟨rfl, rfl⟩, ⟨rfl, rfl⟩, rfl⟩
  · exact ⟨⟨rfl, rfl⟩, ⟨rfl, rfl⟩, rfl⟩

theorem genMealyRspval_frame :
    SameCmd (genMealyRspval cfg s ports x) (ports.toInitiator x) ∧
      (genMealyRspval cfg s ports x).cmdack = (ports.toInitiator x).cmdack ∧
      (genMealyRspval cfg s ports x).rspack = (ports.toInitiator x).rspack := by
  unfold genMealyRspval
  split
  · split <;> exact ⟨⟨rfl, rfl⟩, rfl, rfl⟩
  · exact ⟨⟨rfl, rfl⟩, rfl, rfl⟩

theorem genMealyRspack_frame :
    SameCmd (genMealyRspack cfg s ports x) (ports.toTarget x) ∧
      SameRsp (genMealyRspack cfg s ports x) (ports.toTarget x) ∧
      (genMealyRspack cfg s ports x).cmdack = (ports.toTarget x).cmdack := by
  unfold genMealyRspack
  split
  · split <;> exact ⟨⟨rfl, rfl⟩, ⟨rfl, rfl⟩, rfl⟩
  · exact ⟨⟨rfl, rfl⟩, ⟨rfl, rfl⟩, rfl⟩

/-- Settling leaves what the initiators drive. -/
theorem settle_initiator :
    SameCmd ((settle cfg s ports).toInitiator x) (ports.toInitiator x) ∧
      ((settle cfg s ports).toInitiator x).rspack = (ports.toInitiator x).rspack := by
  obtain ⟨hcmd, -, hack⟩ := genMealyRspval_frame cfg s
    ⟨genMealyCmdack cfg s ⟨ports.toInitiator, genMealyCmdval cfg s ports⟩,
      genMealyCmdval cfg s ports⟩ x
  obtain ⟨hcmd', -, hack'⟩ :=
    genMealyCmdack_frame cfg s ⟨ports.toInitiator, genMealyCmdval cfg s ports⟩ x
  exact ⟨hcmd.trans hcmd', hack.trans hack'⟩

/-- Settling leaves what the targets drive. -/
theorem settle_target :
    SameRsp ((settle cfg s ports).toTarget x) (ports.toTarget x) ∧
      ((settle cfg s ports).toTarget x).cmdack = (ports.toTarget x).cmdack := by
  obtain ⟨-, hrsp, hack⟩ := genMealyRspack_frame cfg s
    ⟨(settle cfg s ports).toInitiator, genMealyCmdval cfg s ports⟩ x
  obtain ⟨hrsp', hack', -⟩ := genMealyCmdval_frame cfg s ports x
  exact ⟨hrsp.trans hrsp', hack.trans hack'⟩

theorem settled_settle : Settled cfg s (settle cfg s ports) := by
  have hini := settle_initiator cfg s ports s.initiatorIndex
  have htgt := settle_target cfg s ports s.targetIndex
  refine ⟨funext fun x => ?_, funext fun x => ?_, funext fun x => ?_, funext fun x => ?_⟩
  · -- `cmdval` is driven first and kept by the last process.
    obtain ⟨hkeep, -, -⟩ := genMealyRspack_frame cfg s
      ⟨(settle cfg s ports).toInitiator, genMealyCmdval cfg s ports⟩ x
    by_cases hx : x < cfg.nbTarget
    · by_cases h : CmdTo s x
      · rw [genMealyCmdval_open hx h, hini.1.cmdval, hini.1.cmdFlit]
        refine VciSignals.driveCmd_self (hkeep.cmdval.trans ?_) (hkeep.cmdFlit.trans ?_)
        · simp only [genMealyCmdval_open hx h]; rfl
        · simp only [genMealyCmdval_open hx h]; rfl
      · rw [genMealyCmdval_closed hx h]
        refine VciSignals.set_cmdval_self (hkeep.cmdval.trans ?_)
        simp only [genMealyCmdval_closed hx h]
    · simp only [genMealyCmdval, if_neg hx]
  · -- `cmdack` is kept by the process that drives `rspval`.
    obtain ⟨-, hkeep, -⟩ := genMealyRspval_frame cfg s
      ⟨genMealyCmdack cfg s ⟨ports.toInitiator, genMealyCmdval cfg s ports⟩,
        genMealyCmdval cfg s ports⟩ x
    obtain ⟨-, hack, -⟩ := genMealyCmdval_frame cfg s ports s.targetIndex
    by_cases hx : x < cfg.nbInitiator
    · by_cases h : CmdFrom s x
      · rw [genMealyCmdack_open hx h, htgt.2]
        refine VciSignals.set_cmdack_self (hkeep.trans ?_)
        simp only [genMealyCmdack_open hx h, hack]
      · rw [genMealyCmdack_closed hx h]
        refine VciSignals.set_cmdack_self (hkeep.trans ?_)
        simp only [genMealyCmdack_closed hx h]
    · simp only [genMealyCmdack, if_neg hx]
  · obtain ⟨hrsp, -, -⟩ := genMealyCmdval_frame cfg s ports s.targetIndex
    by_cases hx : x < cfg.nbInitiator
    · by_cases h : RspTo s x
      · rw [genMealyRspval_open hx h, htgt.1.rspval, htgt.1.rspFlit]
        refine VciSignals.driveRsp_self ?_ ?_
        · simp only [settle, genMealyRspval_open hx h, hrsp.rspval, VciSignals.driveRsp]
        · simp only [settle, genMealyRspval_open hx h, hrsp.rspFlit,
            VciSignals.rspFlit_driveRsp]
      · rw [genMealyRspval_closed hx h]
        refine VciSignals.set_rspval_self ?_
        simp only [settle, genMealyRspval_closed hx h]
    · simp only [genMealyRspval, if_neg hx]
  · by_cases hx : x < cfg.nbTarget
    · by_cases h : RspFrom s x
      · rw [genMealyRspack_open hx h]
        refine VciSignals.set_rspack_self ?_
        simp only [settle, genMealyRspack_open hx h]
      · rw [genMealyRspack_closed hx h]
        refine VciSignals.set_rspack_self ?_
        simp only [settle, genMealyRspack_closed hx h]
    · simp only [genMealyRspack, if_neg hx]

end Frame

/-! ## The wires at rest -/

/-- The wires the bus drives, as equations in the wires it reads. -/
structure Wires (cfg : VgsbConfig p) (s : VciVgsb) (ports : VgsbPorts p) : Prop where
  cmdTo : ∀ x < cfg.nbTarget, CmdTo s x →
    (ports.toTarget x).cmdval = (ports.toInitiator s.initiatorIndex).cmdval ∧
      (ports.toTarget x).cmdFlit = (ports.toInitiator s.initiatorIndex).cmdFlit
  notCmdTo : ∀ x < cfg.nbTarget, ¬ CmdTo s x → (ports.toTarget x).cmdval = false
  cmdFrom : ∀ x < cfg.nbInitiator, CmdFrom s x →
    (ports.toInitiator x).cmdack = (ports.toTarget s.targetIndex).cmdack
  notCmdFrom : ∀ x < cfg.nbInitiator, ¬ CmdFrom s x → (ports.toInitiator x).cmdack = false
  rspTo : ∀ x < cfg.nbInitiator, RspTo s x →
    (ports.toInitiator x).rspval = (ports.toTarget s.targetIndex).rspval ∧
      (ports.toInitiator x).rspFlit = (ports.toTarget s.targetIndex).rspFlit
  notRspTo : ∀ x < cfg.nbInitiator, ¬ RspTo s x → (ports.toInitiator x).rspval = false
  rspFrom : ∀ x < cfg.nbTarget, RspFrom s x →
    (ports.toTarget x).rspack = (ports.toInitiator s.initiatorIndex).rspack
  notRspFrom : ∀ x < cfg.nbTarget, ¬ RspFrom s x → (ports.toTarget x).rspack = false

theorem Settled.wires {cfg : VgsbConfig p} {s : VciVgsb} {ports : VgsbPorts p}
    (h : Settled cfg s ports) : Wires cfg s ports where
  cmdTo x hx hopen := by
    have hport := (genMealyCmdval_open hx hopen).symm.trans (congrFun h.cmdval x)
    exact ⟨(congrArg VciSignals.cmdval hport).symm, (congrArg VciSignals.cmdFlit hport).symm⟩
  notCmdTo x hx hclosed := by
    have hport := (genMealyCmdval_closed hx hclosed).symm.trans (congrFun h.cmdval x)
    exact (congrArg VciSignals.cmdval hport).symm
  cmdFrom x hx hopen := by
    have hport := (genMealyCmdack_open hx hopen).symm.trans (congrFun h.cmdack x)
    exact (congrArg VciSignals.cmdack hport).symm
  notCmdFrom x hx hclosed := by
    have hport := (genMealyCmdack_closed hx hclosed).symm.trans (congrFun h.cmdack x)
    exact (congrArg VciSignals.cmdack hport).symm
  rspTo x hx hopen := by
    have hport := (genMealyRspval_open hx hopen).symm.trans (congrFun h.rspval x)
    exact ⟨(congrArg VciSignals.rspval hport).symm, (congrArg VciSignals.rspFlit hport).symm⟩
  notRspTo x hx hclosed := by
    have hport := (genMealyRspval_closed hx hclosed).symm.trans (congrFun h.rspval x)
    exact (congrArg VciSignals.rspval hport).symm
  rspFrom x hx hopen := by
    have hport := (genMealyRspack_open hx hopen).symm.trans (congrFun h.rspack x)
    exact (congrArg VciSignals.rspack hport).symm
  notRspFrom x hx hclosed := by
    have hport := (genMealyRspack_closed hx hclosed).symm.trans (congrFun h.rspack x)
    exact (congrArg VciSignals.rspack hport).symm

/-! ## The bus as a clocked system -/

/-- The last flit of the command packet is transferred in this cycle. -/
def CmdEnds (s : VciVgsb) (ports : VgsbPorts p) : Prop :=
  (ports.toInitiator s.initiatorIndex).eop = true ∧
    (ports.toInitiator s.initiatorIndex).cmdval = true ∧
    (ports.toTarget s.targetIndex).cmdack = true

/-- The last flit of the response packet is transferred in this cycle. -/
def RspEnds (s : VciVgsb) (ports : VgsbPorts p) : Prop :=
  (ports.toTarget s.targetIndex).reop = true ∧
    (ports.toTarget s.targetIndex).rspval = true ∧
    (ports.toInitiator s.initiatorIndex).rspack = true

/-- The registers once `ini` has the bus. -/
def granted (cfg : VgsbConfig p) (ports : VgsbPorts p) (s : VciVgsb) (ini : Nat) : VciVgsb :=
  let tgt := cfg.routingTable (ports.toInitiator ini).address
  { fsm := .cmd
    initiatorIndex := ini
    targetIndex := tgt
    vciCounter := count s.vciCounter ini tgt }

/-- Everything a clock edge outside of the reset can do. -/
inductive Edge (cfg : VgsbConfig p) (ports : VgsbPorts p) (s : VciVgsb) : VciVgsb → Prop where
  | idle (hfsm : s.fsm = .idle)
      (hnone : Cyclic.first cfg.nbInitiator s.initiatorIndex ports.requests = none) :
      Edge cfg ports s s
  | grant {ini : Nat} (hfsm : s.fsm = .idle)
      (hsome : Cyclic.first cfg.nbInitiator s.initiatorIndex ports.requests = some ini) :
      Edge cfg ports s (granted cfg ports s ini)
  | cmdStay (hfsm : s.fsm = .cmd) (hends : ¬ CmdEnds s ports) : Edge cfg ports s s
  | cmdEnd (hfsm : s.fsm = .cmd) (hends : CmdEnds s ports) :
      Edge cfg ports s { s with fsm := .rsp }
  | rspStay (hfsm : s.fsm = .rsp) (hends : ¬ RspEnds s ports) : Edge cfg ports s s
  | rspEnd (hfsm : s.fsm = .rsp) (hends : RspEnds s ports) :
      Edge cfg ports s { allocate cfg ports s with fsm := .idle }

theorem transition_edge (cfg : VgsbConfig p) (ports : VgsbPorts p) (s : VciVgsb) :
    Edge cfg ports s (transition cfg true ports s) := by
  unfold transition
  simp only [Bool.not_true, Bool.false_eq_true, if_false]
  split
  next hfsm =>
    unfold allocate
    split
    next hnone => exact .idle hfsm hnone
    next ini hsome => exact .grant hfsm hsome
  next hfsm =>
    split
    next h => exact .cmdEnd hfsm (by simpa only [CmdEnds, Bool.and_eq_true, and_assoc] using h)
    next h => exact .cmdStay hfsm (by simpa only [CmdEnds, Bool.and_eq_true, and_assoc] using h)
  next hfsm =>
    split
    next h => exact .rspEnd hfsm (by simpa only [RspEnds, Bool.and_eq_true, and_assoc] using h)
    next h => exact .rspStay hfsm (by simpa only [RspEnds, Bool.and_eq_true, and_assoc] using h)

/-- The states a cycle under reset leaves. -/
def AfterReset (cfg : VgsbConfig p) (s : VciVgsb) : Prop :=
  ∃ s₀ ports, s = transition cfg false ports s₀

/-- The bus once the reset is over.  The wires of a cycle are at rest before its
edge; beyond that the other components drive what they like. -/
def bus (cfg : VgsbConfig p) : System VciVgsb (VgsbPorts p) :=
  (System.ofFn (AfterReset cfg) fun s ports => transition cfg true ports s).under (Settled cfg)

variable {cfg : VgsbConfig p}

theorem run_settled (r : (bus cfg).Run) (t : Nat) : Settled cfg (r.state t) (r.input t) :=
  (r.next t).1

theorem run_edge (r : (bus cfg).Run) (t : Nat) :
    Edge cfg (r.input t) (r.state t) (r.state (t + 1)) :=
  (r.next t).2 ▸ transition_edge cfg (r.input t) (r.state t)

theorem run_start (r : (bus cfg).Run) :
    (r.state 0).fsm = .idle ∧ (r.state 0).initiatorIndex = 0 := by
  obtain ⟨s₀, ports, h⟩ := r.start
  rw [h]
  exact ⟨rfl, rfl⟩

/-- What the other components drive, cycle by cycle, makes a run of the bus. -/
def drive (cfg : VgsbConfig p) (env : Nat → VgsbPorts p) : (bus cfg).Run where
  state := iter (fun s ports => transition cfg true (settle cfg s ports) s)
    (transition cfg false (env 0) ⟨.idle, 0, 0, fun _ _ => 0⟩) env
  input t := settle cfg (iter (fun s ports => transition cfg true (settle cfg s ports) s)
    (transition cfg false (env 0) ⟨.idle, 0, 0, fun _ _ => 0⟩) env t) (env t)
  start := ⟨_, _, rfl⟩
  next _ := ⟨settled_settle _ _ _, rfl⟩

theorem drive_cmd (cfg : VgsbConfig p) (env : Nat → VgsbPorts p) (t x : Nat) :
    SameCmd (((drive cfg env).input t).toInitiator x) ((env t).toInitiator x) :=
  (settle_initiator cfg _ (env t) x).1

/-! ## The index registers stay in range -/

/-- The index registers point at ports: the initiator's as soon as there is one,
both while the bus is allocated. -/
structure InRange (cfg : VgsbConfig p) (s : VciVgsb) : Prop where
  initiator : 0 < cfg.nbInitiator → s.initiatorIndex < cfg.nbInitiator
  busy : s.fsm ≠ .idle → 0 < cfg.nbInitiator ∧ s.targetIndex < cfg.nbTarget

theorem InRange.of_first {ports : VgsbPorts p} {s : VciVgsb} (h : InRange cfg s) {ini : Nat}
    (hsome : Cyclic.first cfg.nbInitiator s.initiatorIndex ports.requests = some ini) :
    ini < cfg.nbInitiator :=
  Cyclic.first_lt (h.initiator (Cyclic.pos_of_first hsome)) hsome

theorem InRange.granted {ports : VgsbPorts p} {s : VciVgsb} (h : InRange cfg s) {ini : Nat}
    (hsome : Cyclic.first cfg.nbInitiator s.initiatorIndex ports.requests = some ini) :
    InRange cfg (granted cfg ports s ini) :=
  ⟨fun _ => h.of_first hsome, fun _ => ⟨Cyclic.pos_of_first hsome, cfg.isAllBelow _⟩⟩

theorem InRange.edge {ports : VgsbPorts p} {s s' : VciVgsb} (h : InRange cfg s)
    (hedge : Edge cfg ports s s') : InRange cfg s' := by
  cases hedge with
  | idle hfsm hnone => exact h
  | grant hfsm hsome => exact h.granted hsome
  | cmdStay hfsm hends => exact h
  | cmdEnd hfsm hends =>
      have hbusy := h.busy (by rw [hfsm]; exact VgsbFsm.noConfusion)
      exact ⟨h.initiator, fun _ => hbusy⟩
  | rspStay hfsm hends => exact h
  | rspEnd hfsm hends =>
      refine ⟨?_, fun hbusy => absurd rfl hbusy⟩
      unfold allocate
      split
      next hnone => exact h.initiator
      next ini hsome => exact fun _ => h.of_first hsome

theorem run_inRange (r : (bus cfg).Run) : ∀ t, InRange cfg (r.state t)
  | 0 => by
      obtain ⟨hfsm, hini⟩ := run_start r
      exact ⟨fun hpos => by rw [hini]; exact hpos, fun hbusy => absurd hfsm hbusy⟩
  | t + 1 => (run_inRange r t).edge (run_edge r t)

end VciVgsb

end SmcTp.Vci
