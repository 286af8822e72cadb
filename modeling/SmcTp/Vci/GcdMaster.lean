import SmcTp.Vci.GcdCoprocessor

/-!
# The VCI gcd master

`VciGcdMaster` is a VCI initiator.  It draws two operands, writes both to its
coprocessor, starts it, polls the status until it is zero, reads the result and
displays it, for ever.  Each command is one flit, sent in a `cmd` state and
answered in the `rsp` state after it.

The five command states and the five response states are indexed by the command
they are about (`cmdFsm`, `rspFsm`), and so are the lemmas on the two processes.
`Mapped` is what the netlist promises: the segment starts at the base address, has
room for the four registers and fits in the address space.  With it the
coprocessor finds every command of the master legal (`legal_flit`).
-/

namespace SmcTp.Vci

variable {p : VciParams}

/-- `vci_gcd_master_fsm_state_e`. -/
inductive GcdMasterFsm where
  | random
  | cmdOpa
  | rspOpa
  | cmdOpb
  | rspOpb
  | cmdStart
  | rspStart
  | cmdStatus
  | rspStatus
  | cmdResult
  | rspResult
  | display
deriving DecidableEq, Repr

/-- The constants of a master. -/
structure GcdMasterConfig (p : VciParams) where
  /-- `m_srcid`. -/
  srcid : BitVec p.S
  /-- `m_base`. -/
  base : BitVec p.N

/-- The registers of `VciGcdMaster`. -/
structure VciGcdMaster (p : VciParams) where
  fsm : GcdMasterFsm
  opa : BitVec (p.B * 8)
  opb : BitVec (p.B * 8)
  res : BitVec (p.B * 8)
  cycle : BitVec 32
  iter : BitVec 32
deriving DecidableEq, Repr

namespace VciGcdMaster

/-- `VciGcdMaster::transition`.  `rand` holds the two words a call in the state
`random` draws. -/
def transition (resetn : Bool) (rand : BitVec (p.B * 8) × BitVec (p.B * 8))
    (sig : VciSignals p) (s : VciGcdMaster p) : VciGcdMaster p :=
  if !resetn then { s with fsm := .random, cycle := 0, iter := 0 }
  else
    let s' :=
      match s.fsm with
      | .random => { s with iter := s.iter + 1, opa := rand.1, opb := rand.2, fsm := .cmdOpa }
      | .cmdOpa => if sig.cmdack then { s with fsm := .rspOpa } else s
      | .rspOpa => if sig.rspval then { s with fsm := .cmdOpb } else s
      | .cmdOpb => if sig.cmdack then { s with fsm := .rspOpb } else s
      | .rspOpb => if sig.rspval then { s with fsm := .cmdStart } else s
      | .cmdStart => if sig.cmdack then { s with fsm := .rspStart } else s
      | .rspStart => if sig.rspval then { s with fsm := .cmdStatus } else s
      | .cmdStatus => if sig.cmdack then { s with fsm := .rspStatus } else s
      | .rspStatus =>
          if sig.rspval then
            if sig.rdata = 0 then { s with fsm := .cmdResult } else { s with fsm := .cmdStatus }
          else s
      | .cmdResult => if sig.cmdack then { s with fsm := .rspResult } else s
      | .rspResult => if sig.rspval then { s with res := sig.rdata, fsm := .display } else s
      | .display => { s with fsm := .random }
    { s' with cycle := s.cycle + 1 }

/-- `VciGcdMaster::genMoore`. -/
def genMoore (cfg : GcdMasterConfig p) (s : VciGcdMaster p) (sig : VciSignals p) :
    VciSignals p :=
  let sig := { sig with
    be := 0
    plen := 4
    eop := true
    srcid := cfg.srcid
    trdid := 0
    pktid := 0
    contig := true
    cons := false
    wrap := false
    cfixed := false
    clen := 0 }
  match s.fsm with
  | .random | .display => { sig with cmdval := false, rspack := false }
  | .cmdOpa =>
      { sig with
        cmdval := true
        cmd := Cmd.write
        address := cfg.base + BitVec.ofNat p.N (4 * GcdReg.opa)
        wdata := s.opa
        rspack := false }
  | .cmdOpb =>
      { sig with
        cmdval := true
        cmd := Cmd.write
        address := cfg.base + BitVec.ofNat p.N (4 * GcdReg.opb)
        wdata := s.opb
        rspack := false }
  | .cmdStart =>
      { sig with
        cmdval := true
        cmd := Cmd.write
        address := cfg.base + BitVec.ofNat p.N (4 * GcdReg.start)
        wdata := 1
        rspack := false }
  | .cmdResult =>
      { sig with
        cmdval := true
        cmd := Cmd.read
        address := cfg.base + BitVec.ofNat p.N (4 * GcdReg.opa)
        wdata := 0
        rspack := false }
  | .cmdStatus =>
      { sig with
        cmdval := true
        cmd := Cmd.read
        address := cfg.base + BitVec.ofNat p.N (4 * GcdReg.status)
        wdata := 0
        rspack := false }
  | .rspOpa | .rspOpb | .rspStart | .rspResult | .rspStatus =>
      { sig with cmdval := false, cmd := 0, address := cfg.base, wdata := 0, rspack := true }

/-! ## Commands -/

/-- The state that sends a command. -/
def cmdFsm : GcdCommand → GcdMasterFsm
  | .opa => .cmdOpa
  | .opb => .cmdOpb
  | .start => .cmdStart
  | .status => .cmdStatus
  | .result => .cmdResult

/-- The state that waits for the response to a command. -/
def rspFsm : GcdCommand → GcdMasterFsm
  | .opa => .rspOpa
  | .opb => .rspOpb
  | .start => .rspStart
  | .status => .rspStatus
  | .result => .rspResult

/-- The data of a command. -/
def wdata (s : VciGcdMaster p) : GcdCommand → BitVec (p.B * 8)
  | .opa => s.opa
  | .opb => s.opb
  | .start => 1
  | .status => 0
  | .result => 0

/-- The flit of a command. -/
def flit (cfg : GcdMasterConfig p) (s : VciGcdMaster p) (c : GcdCommand) : CmdFlit p where
  address := cfg.base + BitVec.ofNat p.N (4 * c.cell)
  wdata := s.wdata c
  be := 0
  plen := 4
  srcid := cfg.srcid
  trdid := 0
  pktid := 0
  cmd := c.cmd
  contig := true
  eop := true

/-- The result the operands of the current iteration call for. -/
def expected (s : VciGcdMaster p) : Nat := Nat.gcd s.opa.toNat s.opb.toNat

/-- In a `cmd` state the master moves on `cmdack` and keeps its registers. -/
theorem transition_cmd {s : VciGcdMaster p} {c : GcdCommand} (hfsm : s.fsm = cmdFsm c)
    (rand : BitVec (p.B * 8) × BitVec (p.B * 8)) (sig : VciSignals p) :
    transition true rand sig s =
      { s with
        fsm := if sig.cmdack then rspFsm c else cmdFsm c
        cycle := s.cycle + 1 } := by
  obtain ⟨fsm, opa, opb, res, cycle, iter⟩ := s
  cases hfsm
  cases hack : sig.cmdack <;> cases c <;> simp [transition, cmdFsm, rspFsm, hack]

/-- The state after the response to a command. -/
def afterRsp (rdata : BitVec (p.B * 8)) : GcdCommand → GcdMasterFsm
  | .opa => .cmdOpb
  | .opb => .cmdStart
  | .start => .cmdStatus
  | .status => if rdata = 0 then .cmdResult else .cmdStatus
  | .result => .display

/-- In an `rsp` state the master moves on `rspval`, and the result is the only data
it keeps. -/
theorem transition_rsp {s : VciGcdMaster p} {c : GcdCommand} (hfsm : s.fsm = rspFsm c)
    (rand : BitVec (p.B * 8) × BitVec (p.B * 8)) {sig : VciSignals p} (hval : sig.rspval = true) :
    transition true rand sig s =
      { s with
        fsm := afterRsp sig.rdata c
        res := if c = .result then sig.rdata else s.res
        cycle := s.cycle + 1 } := by
  obtain ⟨fsm, opa, opb, res, cycle, iter⟩ := s
  cases hfsm
  cases c with
  | status =>
      by_cases hzero : sig.rdata = 0 <;>
        simp only [transition, afterRsp, hval, hzero, if_true, if_false] <;> rfl
  | _ => simp [transition, afterRsp, hval]

/-- No command is answered straight away. -/
theorem afterRsp_ne_rspFsm (rdata : BitVec (p.B * 8)) (c c' : GcdCommand) :
    afterRsp rdata c ≠ rspFsm c' := by
  cases c with
  | status =>
      simp only [afterRsp]
      split <;> cases c' <;> exact GcdMasterFsm.noConfusion
  | _ => cases c' <;> exact GcdMasterFsm.noConfusion

/-! ## The wires -/

/-- What a master shows on its wires, as far as it matters to a bus. -/
structure Drives (cfg : GcdMasterConfig p) (s : VciGcdMaster p) (sig : VciSignals p) : Prop where
  sends : ∀ c, s.fsm = cmdFsm c →
    sig.cmdval = true ∧ sig.cmdFlit = s.flit cfg c ∧ sig.rspack = false
  waits : ∀ c, s.fsm = rspFsm c → sig.cmdval = false ∧ sig.rspack = true
  rests : s.fsm = .random ∨ s.fsm = .display → sig.cmdval = false ∧ sig.rspack = false

theorem drives_genMoore (cfg : GcdMasterConfig p) (s : VciGcdMaster p) (sig : VciSignals p) :
    Drives cfg s (s.genMoore cfg sig) := by
  obtain ⟨fsm, opa, opb, res, cycle, iter⟩ := s
  refine ⟨?_, ?_, ?_⟩
  · intro c hfsm
    cases hfsm
    cases c <;> exact ⟨rfl, rfl, rfl⟩
  · intro c hfsm
    cases hfsm
    cases c <;> exact ⟨rfl, rfl⟩
  · rintro (hfsm | hfsm) <;> cases hfsm <;> exact ⟨rfl, rfl⟩

/-- Every state sends a command, waits for a response or rests. -/
theorem fsm_cases (fsm : GcdMasterFsm) :
    (∃ c, fsm = cmdFsm c) ∨ (∃ c, fsm = rspFsm c) ∨ fsm = .random ∨ fsm = .display := by
  cases fsm with
  | random => exact .inr (.inr (.inl rfl))
  | display => exact .inr (.inr (.inr rfl))
  | cmdOpa => exact .inl ⟨.opa, rfl⟩
  | cmdOpb => exact .inl ⟨.opb, rfl⟩
  | cmdStart => exact .inl ⟨.start, rfl⟩
  | cmdStatus => exact .inl ⟨.status, rfl⟩
  | cmdResult => exact .inl ⟨.result, rfl⟩
  | rspOpa => exact .inr (.inl ⟨.opa, rfl⟩)
  | rspOpb => exact .inr (.inl ⟨.opb, rfl⟩)
  | rspStart => exact .inr (.inl ⟨.start, rfl⟩)
  | rspStatus => exact .inr (.inl ⟨.status, rfl⟩)
  | rspResult => exact .inr (.inl ⟨.result, rfl⟩)

/-! ## Legal commands -/

/-- The segment of the coprocessor, seen from the master that uses it. -/
structure Mapped (base : BitVec vciParam.N) (seg : Segment) : Prop where
  starts : seg.baseAddress.toNat = base.toNat
  /-- There is room for the four registers. -/
  size : 16 ≤ seg.size.toNat
  /-- The segment ends in the address space. -/
  fits : base.toNat + seg.size.toNat ≤ 0x100000000

theorem cell_lt (c : GcdCommand) : c.cell < 4 := by
  cases c <;> decide

/-- The address of a register, as a number. -/
theorem Mapped.address {base : BitVec vciParam.N} {seg : Segment} (h : Mapped base seg)
    (c : GcdCommand) :
    ((base + BitVec.ofNat vciParam.N (4 * c.cell)).setWidth 64).toNat =
      base.toNat + 4 * c.cell := by
  have hcell := cell_lt c
  have hsize := h.size
  have hfits := h.fits
  have hN : 2 ^ vciParam.N = 2 ^ 32 := rfl
  rw [BitVec.toNat_setWidth, BitVec.toNat_add, BitVec.toNat_ofNat, hN]
  omega

theorem Mapped.contains {base : BitVec vciParam.N} {seg : Segment} (h : Mapped base seg)
    (c : GcdCommand) :
    seg.contains ((base + BitVec.ofNat vciParam.N (4 * c.cell)).setWidth 64) = true := by
  have hcell := cell_lt c
  have hbase := h.starts
  have hsize := h.size
  have hfits := h.fits
  rw [Segment.contains, Bool.and_eq_true, Bool.or_eq_true, decide_eq_true_iff, decide_eq_true_iff,
    BitVec.le_def, BitVec.lt_def, h.address, BitVec.toNat_add]
  refine ⟨by omega, .inl ?_⟩
  rw [Nat.mod_eq_of_lt (by omega)]
  omega

theorem Mapped.cell {base : BitVec vciParam.N} {seg : Segment} (h : Mapped base seg)
    (c : GcdCommand) :
    (VciGcdCoprocessor.cell (p := vciParam) seg
      (base + BitVec.ofNat vciParam.N (4 * c.cell))).toNat = c.cell := by
  have hcell := cell_lt c
  have hbase := h.starts
  have hle : seg.baseAddress ≤ (base + BitVec.ofNat vciParam.N (4 * c.cell)).setWidth 64 := by
    rw [BitVec.le_def, h.address]
    omega
  rw [VciGcdCoprocessor.cell, BitVec.toNat_setWidth, BitVec.toNat_udiv,
    BitVec.toNat_sub_of_le hle, h.address, hbase, Nat.add_sub_cancel_left,
    show (BitVec.ofNat 64 vciParam.B).toNat = 4 from rfl, Nat.mul_div_cancel_left _ (by omega)]
  exact Nat.mod_eq_of_lt (by omega)

/-- A coprocessor that is shown a flit of its master finds the command legal. -/
theorem legal_flit {cfg : GcdMasterConfig vciParam} {seg : Segment} (h : Mapped cfg.base seg)
    {s : VciGcdMaster vciParam} {c : GcdCommand} {sig : VciSignals vciParam}
    (hflit : sig.cmdFlit = s.flit cfg c) : VciGcdCoprocessor.Legal seg sig c := by
  have haddr : sig.address = cfg.base + BitVec.ofNat vciParam.N (4 * c.cell) :=
    congrArg CmdFlit.address hflit
  have hplen : sig.plen = 4 := congrArg CmdFlit.plen hflit
  refine ⟨congrArg CmdFlit.eop hflit, ?_, ?_, congrArg CmdFlit.cmd hflit, ?_⟩
  · rw [hplen]
    rfl
  · rw [haddr]
    exact h.contains c
  · rw [haddr]
    exact h.cell c

end VciGcdMaster

end SmcTp.Vci
