import SmcTp.Clocked.Run
import SmcTp.Clocked.SubtractiveGcd
import SmcTp.Vci.Signals

/-!
# The VCI gcd coprocessor

`VciGcdCoprocessor` is a VCI target with four registers in its segment.  The
automaton `vciFsm` takes a command, stores its identifiers and answers it.  The
automaton `exeFsm` runs the subtraction loop on the two operands, and starts when
it is idle while the answer to a START command is pending.

*Faults.*  The transition process aborts on an assertion and exits on an unknown
access, so `transition` returns an `Except`.  `decode_ok_iff` says which commands
pass: the five legal ones, and no others.

*Edges.*  `Edge` lists what a clock edge can do, and `Computes` is the invariant of
the loop, carried by `Computes.exeTransition`.
-/

namespace SmcTp.Vci

open Clocked SubtractiveGcd

variable {p : VciParams}

/-! ## Registers and segments -/

namespace GcdReg

/-- `GCD_OPA`. -/
def opa : Nat := 0
/-- `GCD_OPB`. -/
def opb : Nat := 1
/-- `GCD_START`. -/
def start : Nat := 2
/-- `GCD_STATUS`. -/
def status : Nat := 3

end GcdReg

/-- `Segment`: the address range of a target. -/
structure Segment where
  baseAddress : BitVec 64
  size : BitVec 64
deriving DecidableEq, Repr

/-- `Segment::contains`. -/
def Segment.contains (seg : Segment) (addr : BitVec 64) : Bool :=
  seg.baseAddress ≤ addr &&
    (addr < seg.baseAddress + seg.size || seg.baseAddress + seg.size < seg.baseAddress)

/-- `gcd_coproc_vci_fsm_state_e`. -/
inductive GcdVciFsm where
  | getCmd
  | rspOpa
  | rspOpb
  | rspStart
  | rspStatus
  | rspResult
deriving DecidableEq, Repr

/-- `gcd_coproc_exe_fsm_state_e`. -/
inductive GcdExeFsm where
  | idle
  | compare
  | decA
  | decB
deriving DecidableEq, Repr

/-- The registers of `VciGcdCoprocessor`. -/
structure VciGcdCoprocessor (p : VciParams) where
  vciFsm : GcdVciFsm
  exeFsm : GcdExeFsm
  srcid : BitVec p.S
  trdid : BitVec p.T
  pktid : BitVec p.P
  opa : BitVec (p.B * 8)
  opb : BitVec (p.B * 8)
deriving DecidableEq, Repr

/-- The five commands the coprocessor tells apart. -/
inductive GcdCommand where
  | result
  | status
  | opa
  | opb
  | start
deriving DecidableEq, Repr

namespace GcdCommand

/-- The direction of a command. -/
def cmd : GcdCommand → Cmd
  | .result | .status => Cmd.read
  | .opa | .opb | .start => Cmd.write

/-- The register a command addresses. -/
def cell : GcdCommand → Nat
  | .result | .opa => GcdReg.opa
  | .opb => GcdReg.opb
  | .start => GcdReg.start
  | .status => GcdReg.status

/-- The state in which a command is answered. -/
def rspFsm : GcdCommand → GcdVciFsm
  | .result => .rspResult
  | .status => .rspStatus
  | .opa => .rspOpa
  | .opb => .rspOpb
  | .start => .rspStart

end GcdCommand

namespace VciGcdCoprocessor

/-! ## The clocked process -/

/-- The automaton `r_exe_fsm`. -/
def exeTransition (s : VciGcdCoprocessor p) : VciGcdCoprocessor p :=
  match s.exeFsm with
  | .idle => if s.vciFsm = .rspStart then { s with exeFsm := .compare } else s
  | .compare =>
      if s.opa < s.opb then { s with exeFsm := .decB }
      else if s.opb < s.opa then { s with exeFsm := .decA }
      else { s with exeFsm := .idle }
  | .decA => { s with opa := s.opa - s.opb, exeFsm := .compare }
  | .decB => { s with opb := s.opb - s.opa, exeFsm := .compare }

/-- The cell number of an address, as a 32-bit word. -/
def cell (seg : Segment) (address : BitVec p.N) : BitVec 32 :=
  ((address.setWidth 64 - seg.baseAddress) / BitVec.ofNat 64 p.B).setWidth 32

/-- The tests on the command wires. -/
def decode (seg : Segment) (sig : VciSignals p) : Except Halt GcdCommand :=
  let cell := cell seg sig.address
  if sig.eop = true ∧ sig.plen.toNat = 4 ∧ sig.cmd ≠ Cmd.lockedRead ∧ sig.cmd ≠ Cmd.storeCond ∧
      seg.contains (sig.address.setWidth 64) = true then
    if sig.cmd = Cmd.read ∧ cell.toNat = GcdReg.opa then .ok .result
    else if sig.cmd = Cmd.read ∧ cell.toNat = GcdReg.status then .ok .status
    else if sig.cmd = Cmd.write ∧ cell.toNat = GcdReg.opa then .ok .opa
    else if sig.cmd = Cmd.write ∧ cell.toNat = GcdReg.opb then .ok .opb
    else if sig.cmd = Cmd.write ∧ cell.toNat = GcdReg.start then .ok .start
    else .error (.exit "illegal command to the GCD coprocessor")
  else .error (.assertion "illegal command received by the GCD coprocessor")

/-- A command is stored.  A written operand wins over the subtraction of the same
cycle. -/
def accept (c : GcdCommand) (sig : VciSignals p) (s : VciGcdCoprocessor p) :
    VciGcdCoprocessor p :=
  let s := { s with srcid := sig.srcid, trdid := sig.trdid, pktid := sig.pktid }
  match c with
  | .result => { s with vciFsm := .rspResult }
  | .status => { s with vciFsm := .rspStatus }
  | .opa => { s with opa := sig.wdata, vciFsm := .rspOpa }
  | .opb => { s with opb := sig.wdata, vciFsm := .rspOpb }
  | .start => { s with vciFsm := .rspStart }

/-- `VciGcdCoprocessor::transition`. -/
def transition (seg : Segment) (resetn : Bool) (sig : VciSignals p)
    (s : VciGcdCoprocessor p) : Except Halt (VciGcdCoprocessor p) :=
  if !resetn then .ok { s with vciFsm := .getCmd, exeFsm := .idle }
  else
    let s' := s.exeTransition
    match s.vciFsm with
    | .getCmd =>
        if sig.cmdval then (decode seg sig).map fun c => accept c sig s' else .ok s'
    | .rspOpa | .rspOpb | .rspStart | .rspStatus | .rspResult =>
        .ok (if sig.rspack then { s' with vciFsm := .getCmd } else s')

/-- `VciGcdCoprocessor::genMoore`. -/
def genMoore (s : VciGcdCoprocessor p) (sig : VciSignals p) : VciSignals p :=
  let sig := { sig with
    rsrcid := s.srcid
    rtrdid := s.trdid
    rpktid := s.pktid
    rerror := 0
    reop := true }
  match s.vciFsm with
  | .getCmd => { sig with cmdack := true, rspval := false, rdata := 0 }
  | .rspOpa | .rspOpb | .rspStart => { sig with cmdack := false, rspval := true, rdata := 0 }
  | .rspStatus =>
      { sig with cmdack := false, rspval := true, rdata := if s.exeFsm ≠ .idle then 1 else 0 }
  | .rspResult =>
      { sig with cmdack := false, rspval := decide (s.exeFsm = .idle), rdata := s.opa }

/-! ## Legal commands -/

/-- The wires show the command `c`: one flit, one word, inside the segment. -/
structure Legal (seg : Segment) (sig : VciSignals p) (c : GcdCommand) : Prop where
  eop : sig.eop = true
  plen : sig.plen.toNat = 4
  contains : seg.contains (sig.address.setWidth 64) = true
  cmd : sig.cmd = c.cmd
  cell : (cell seg sig.address).toNat = c.cell

/-- The legal commands pass, and no others. -/
theorem decode_ok_iff {seg : Segment} {sig : VciSignals p} {c : GcdCommand} :
    decode seg sig = .ok c ↔ Legal seg sig c := by
  constructor
  · intro h
    simp only [decode] at h
    split at h
    next hone =>
      obtain ⟨heop, hplen, -, -, hcontains⟩ := hone
      repeat' split at h
      all_goals cases h
      all_goals exact ⟨heop, hplen, hcontains, And.left ‹_›, And.right ‹_›⟩
    next => cases h
  · rintro ⟨heop, hplen, hcontains, hcmd, hcell⟩
    cases c <;>
      simp [decode, heop, hplen, hcontains, hcmd, hcell, GcdCommand.cmd, GcdCommand.cell,
        Cmd.read, Cmd.write, Cmd.lockedRead, Cmd.storeCond, Cmd.nop, GcdReg.opa, GcdReg.opb,
        GcdReg.start, GcdReg.status]

/-! ## What an edge does -/

@[simp] theorem accept_vciFsm (c : GcdCommand) (sig : VciSignals p) (s : VciGcdCoprocessor p) :
    (accept c sig s).vciFsm = c.rspFsm := by
  cases c <;> rfl

@[simp] theorem accept_ids (c : GcdCommand) (sig : VciSignals p) (s : VciGcdCoprocessor p) :
    (accept c sig s).srcid = sig.srcid ∧ (accept c sig s).trdid = sig.trdid ∧
      (accept c sig s).pktid = sig.pktid := by
  cases c <;> exact ⟨rfl, rfl, rfl⟩

/-- The loop leaves the other automaton and the identifiers alone. -/
theorem exeTransition_frame (s : VciGcdCoprocessor p) :
    s.exeTransition.vciFsm = s.vciFsm ∧ s.exeTransition.srcid = s.srcid ∧
      s.exeTransition.trdid = s.trdid ∧ s.exeTransition.pktid = s.pktid := by
  unfold exeTransition
  repeat' split
  all_goals exact ⟨rfl, rfl, rfl, rfl⟩

/-- An idle loop that is not told to start stays as it is. -/
theorem exeTransition_of_idle {s : VciGcdCoprocessor p} (hidle : s.exeFsm = .idle)
    (hstart : s.vciFsm ≠ .rspStart) : s.exeTransition = s := by
  simp only [exeTransition, hidle, if_neg hstart]

/-- An idle loop starts while the response to a START command is pending. -/
theorem exeTransition_of_start {s : VciGcdCoprocessor p} (hidle : s.exeFsm = .idle)
    (hstart : s.vciFsm = .rspStart) : s.exeTransition = { s with exeFsm := .compare } := by
  simp only [exeTransition, hidle, if_pos hstart]

/-- Everything a clock edge outside of the reset can do without a halt. -/
inductive Edge (seg : Segment) (sig : VciSignals p) (s : VciGcdCoprocessor p) :
    VciGcdCoprocessor p → Prop where
  | wait (hfsm : s.vciFsm = .getCmd) (hval : sig.cmdval = false) : Edge seg sig s s.exeTransition
  | accept (c : GcdCommand) (hfsm : s.vciFsm = .getCmd) (hval : sig.cmdval = true)
      (hlegal : Legal seg sig c) : Edge seg sig s (accept c sig s.exeTransition)
  | hold (hfsm : s.vciFsm ≠ .getCmd) (hack : sig.rspack = false) : Edge seg sig s s.exeTransition
  | release (hfsm : s.vciFsm ≠ .getCmd) (hack : sig.rspack = true) :
      Edge seg sig s { s.exeTransition with vciFsm := .getCmd }

theorem transition_edge {seg : Segment} {sig : VciSignals p} {s s' : VciGcdCoprocessor p}
    (h : transition seg true sig s = .ok s') : Edge seg sig s s' := by
  have hrelease : s.vciFsm ≠ .getCmd →
      (.ok (if sig.rspack then { s.exeTransition with vciFsm := .getCmd } else s.exeTransition) :
        Except Halt (VciGcdCoprocessor p)) = .ok s' → Edge seg sig s s' := by
    intro hfsm heq
    cases hack : sig.rspack with
    | true =>
        rw [hack] at heq
        cases heq
        exact .release hfsm hack
    | false =>
        rw [hack] at heq
        cases heq
        exact .hold hfsm hack
  cases hfsm : s.vciFsm with
  | getCmd =>
      simp only [transition, hfsm, Bool.not_true, Bool.false_eq_true, if_false] at h
      cases hval : sig.cmdval with
      | true =>
          simp only [hval, if_true] at h
          cases hdecode : decode seg sig with
          | error e => rw [hdecode] at h; cases h
          | ok c =>
              rw [hdecode] at h
              cases h
              exact .accept c hfsm hval (decode_ok_iff.mp hdecode)
      | false =>
          simp only [hval, Bool.false_eq_true, if_false] at h
          cases h
          exact .wait hfsm hval
  | _ =>
      simp only [transition, hfsm, Bool.not_true, Bool.false_eq_true, if_false] at h
      exact hrelease (by rw [hfsm]; exact GcdVciFsm.noConfusion) h

theorem transition_wait {seg : Segment} {sig : VciSignals p} {s : VciGcdCoprocessor p}
    (hfsm : s.vciFsm = .getCmd) (hval : sig.cmdval = false) :
    transition seg true sig s = .ok s.exeTransition := by
  simp [transition, hfsm, hval]

theorem transition_accept {seg : Segment} {sig : VciSignals p} {s : VciGcdCoprocessor p}
    {c : GcdCommand} (hfsm : s.vciFsm = .getCmd) (hval : sig.cmdval = true)
    (hlegal : Legal seg sig c) :
    transition seg true sig s = .ok (accept c sig s.exeTransition) := by
  simp [transition, hfsm, hval, decode_ok_iff.mpr hlegal, Except.map]

theorem transition_release {seg : Segment} {sig : VciSignals p} {s : VciGcdCoprocessor p}
    (hfsm : s.vciFsm ≠ .getCmd) (hack : sig.rspack = true) :
    transition seg true sig s = .ok { s.exeTransition with vciFsm := .getCmd } := by
  cases hfsm' : s.vciFsm with
  | getCmd => exact absurd hfsm' hfsm
  | _ => simp [transition, hfsm', hack]

/-- The coprocessor does not halt on a legal command, nor without one. -/
theorem transition_ok {seg : Segment} {sig : VciSignals p} (s : VciGcdCoprocessor p)
    (h : s.vciFsm = .getCmd → sig.cmdval = true → ∃ c, Legal seg sig c) :
    ∃ s', transition seg true sig s = .ok s' := by
  cases hfsm : s.vciFsm with
  | getCmd =>
      cases hval : sig.cmdval with
      | true =>
          obtain ⟨c, hlegal⟩ := h hfsm hval
          exact ⟨_, transition_accept hfsm hval hlegal⟩
      | false => exact ⟨_, transition_wait hfsm hval⟩
  | _ => exact ⟨_, by simp only [transition, hfsm]; rfl⟩

/-! ## The wires -/

/-- The wires show what the coprocessor drives. -/
def Driven (s : VciGcdCoprocessor p) (sig : VciSignals p) : Prop := s.genMoore sig = sig

theorem driven_genMoore (s : VciGcdCoprocessor p) (sig : VciSignals p) :
    s.Driven (s.genMoore sig) := by
  unfold Driven genMoore
  cases s.vciFsm <;> rfl

namespace Driven

variable {s : VciGcdCoprocessor p} {sig : VciSignals p}

theorem cmdack (h : s.Driven sig) : sig.cmdack = decide (s.vciFsm = .getCmd) := by
  rw [← h, genMoore]
  cases s.vciFsm <;> rfl

/-- There is a response, but for a result that is still being computed. -/
theorem rspval (h : s.Driven sig) :
    sig.rspval =
      decide (s.vciFsm ≠ .getCmd ∧ (s.vciFsm = .rspResult → s.exeFsm = .idle)) := by
  rw [← h, genMoore]
  cases s.vciFsm <;> simp

theorem ids (h : s.Driven sig) :
    sig.rsrcid = s.srcid ∧ sig.rtrdid = s.trdid ∧ sig.rpktid = s.pktid := by
  rw [← h, genMoore]
  cases s.vciFsm <;> exact ⟨rfl, rfl, rfl⟩

/-- Every response is one flit without an error. -/
theorem reop (h : s.Driven sig) : sig.reop = true ∧ sig.rerror = 0 := by
  rw [← h, genMoore]
  cases s.vciFsm <;> exact ⟨rfl, rfl⟩

theorem result (h : s.Driven sig) (hfsm : s.vciFsm = .rspResult) : sig.rdata = s.opa := by
  rw [← h, genMoore, hfsm]

theorem status (h : s.Driven sig) (hfsm : s.vciFsm = .rspStatus) :
    sig.rdata = if s.exeFsm ≠ .idle then 1 else 0 := by
  rw [← h, genMoore, hfsm]

end Driven

theorem Driven.of_same {s : VciGcdCoprocessor p} {sig sig' : VciSignals p} (h : s.Driven sig)
    (hval : sig'.rspval = sig.rspval) (hflit : sig'.rspFlit = sig.rspFlit)
    (hack : sig'.cmdack = sig.cmdack) : s.Driven sig' := by
  rw [← h] at hval hflit hack
  simp only [VciSignals.rspFlit, RspFlit.mk.injEq] at hflit
  obtain ⟨hrdata, hrerror, hrsrcid, hrtrdid, hrpktid, hreop⟩ := hflit
  obtain ⟨⟩ := sig'
  simp only at hval hrdata hrerror hrsrcid hrtrdid hrpktid hreop hack
  subst hval hrdata hrerror hrsrcid hrtrdid hrpktid hreop hack
  simp only [Driven, genMoore]
  cases s.vciFsm <;> rfl

/-! ## The loop -/

/-- The phase of the engine.  An idle automaton is a finished engine. -/
def phase (s : VciGcdCoprocessor p) : Phase :=
  match s.exeFsm with
  | .idle => .done
  | .compare => .compare
  | .decA => .decA
  | .decB => .decB

/-- The loop computes `g`, or has computed it. -/
def Computes (g : Nat) (s : VciGcdCoprocessor p) : Prop :=
  (Engine.ofWords s.phase s.opa s.opb).Computes g

/-- The loop follows the engine.  Started once more on a finished pair, it computes
the same again. -/
theorem Computes.exeTransition {g : Nat} {s : VciGcdCoprocessor p} (h : s.Computes g) :
    s.exeTransition.Computes g := by
  obtain ⟨vciFsm, exeFsm, srcid, trdid, pktid, opa, opb⟩ := s
  cases exeFsm with
  | idle =>
      simp only [VciGcdCoprocessor.exeTransition]
      split
      · exact ⟨h.gcd, trivial⟩
      · exact h
  | compare =>
      have hstep := h.step
      simp only [phase, Engine.ofWords, Engine.step] at hstep
      simp only [VciGcdCoprocessor.exeTransition, BitVec.lt_def]
      split
      next hlt => rw [if_pos hlt] at hstep; exact hstep
      next hle =>
        rw [if_neg hle] at hstep
        split
        next hlt => rw [if_pos hlt] at hstep; exact hstep
        next hle' => rw [if_neg hle'] at hstep; exact hstep
  | decA =>
      have hstep := h.step
      simp only [phase] at hstep
      rw [← Engine.ofWords_decA h.guarded] at hstep
      exact hstep
  | decB =>
      have hstep := h.step
      simp only [phase] at hstep
      rw [← Engine.ofWords_decB h.guarded] at hstep
      exact hstep

/-- The loop starts on any pair of operands. -/
theorem computes_compare {s : VciGcdCoprocessor p} (h : s.exeFsm = .compare) :
    s.Computes (Nat.gcd s.opa.toNat s.opb.toNat) := by
  simp only [Computes, phase, h]
  exact Engine.computes_start _ _

theorem Computes.opa {g : Nat} {s : VciGcdCoprocessor p} (h : s.Computes g)
    (hidle : s.exeFsm = .idle) : s.opa.toNat = g :=
  (h.result (by simp only [Engine.ofWords, phase, hidle])).1

/-- A command that writes no operand leaves the loop alone. -/
theorem Computes.accept {g : Nat} {s : VciGcdCoprocessor p} (h : s.Computes g) {c : GcdCommand}
    (hc : c ≠ .opa ∧ c ≠ .opb) (sig : VciSignals p) : (accept c sig s).Computes g := by
  cases c with
  | opa => exact absurd rfl hc.1
  | opb => exact absurd rfl hc.2
  | result => exact h
  | status => exact h
  | start => exact h

/-- An edge at which no operand is written keeps the loop going. -/
theorem Computes.edge {g : Nat} {seg : Segment} {sig : VciSignals p} {s s' : VciGcdCoprocessor p}
    (h : s.Computes g) (hedge : Edge seg sig s s')
    (hkeep : ∀ c, s.vciFsm = .getCmd → sig.cmdval = true → Legal seg sig c →
      c ≠ .opa ∧ c ≠ .opb) : s'.Computes g := by
  cases hedge with
  | wait hfsm hval => exact h.exeTransition
  | accept c hfsm hval hlegal => exact h.exeTransition.accept (hkeep c hfsm hval hlegal) sig
  | hold hfsm hack => exact h.exeTransition
  | release hfsm hack => exact h.exeTransition

/-! ## The coprocessor as a clocked system -/

/-- The coprocessor once the reset is over, without a halt.  The other side drives
the command wires and `rspack` as it likes. -/
def coprocessor (seg : Segment) : System (VciGcdCoprocessor p) (VciSignals p) where
  init s := ∃ s₀ sig, transition seg false sig s₀ = .ok s
  step s sig s' := s.Driven sig ∧ transition seg true sig s = .ok s'

variable {seg : Segment}

theorem run_driven (r : (coprocessor (p := p) seg).Run) (t : Nat) :
    (r.state t).Driven (r.input t) := (r.next t).1

theorem run_edge (r : (coprocessor (p := p) seg).Run) (t : Nat) :
    Edge seg (r.input t) (r.state t) (r.state (t + 1)) := transition_edge (r.next t).2

theorem run_start (r : (coprocessor (p := p) seg).Run) :
    (r.state 0).vciFsm = .getCmd ∧ (r.state 0).exeFsm = .idle := by
  obtain ⟨s₀, sig, h⟩ := r.start
  rw [← Except.ok.inj h]
  exact ⟨rfl, rfl⟩

/-! ## Transfers -/

/-- A command is accepted. -/
def Accepts (r : (coprocessor (p := p) seg).Run) (t : Nat) : Prop :=
  (r.input t).cmdTransfer = true

/-- A response flit is transferred. -/
def Responds (r : (coprocessor (p := p) seg).Run) (t : Nat) : Prop :=
  (r.input t).rspTransfer = true

instance (r : (coprocessor (p := p) seg).Run) (t : Nat) : Decidable (Accepts r t) :=
  inferInstanceAs (Decidable (_ = true))

instance (r : (coprocessor (p := p) seg).Run) (t : Nat) : Decidable (Responds r t) :=
  inferInstanceAs (Decidable (_ = true))

theorem accepts_iff {r : (coprocessor (p := p) seg).Run} {t : Nat} :
    Accepts r t ↔ (r.state t).vciFsm = .getCmd ∧ (r.input t).cmdval = true := by
  rw [Accepts, VciSignals.cmdTransfer, Bool.and_eq_true, (run_driven r t).cmdack,
    decide_eq_true_iff, and_comm]

theorem responds_iff {r : (coprocessor (p := p) seg).Run} {t : Nat} :
    Responds r t ↔ (r.state t).vciFsm ≠ .getCmd ∧
      ((r.state t).vciFsm = .rspResult → (r.state t).exeFsm = .idle) ∧
        (r.input t).rspack = true := by
  rw [Responds, VciSignals.rspTransfer, Bool.and_eq_true, (run_driven r t).rspval,
    decide_eq_true_iff, and_assoc]

/-- The command `c` is accepted. -/
def Commands (r : (coprocessor (p := p) seg).Run) (t : Nat) (c : GcdCommand) : Prop :=
  Accepts r t ∧ Legal seg (r.input t) c

/-! ## Runs from command sequences -/

theorem legal_genMoore {s : VciGcdCoprocessor p} {sig : VciSignals p} {c : GcdCommand}
    (h : Legal seg sig c) : Legal seg (s.genMoore sig) c := by
  unfold genMoore
  cases s.vciFsm <;> exact ⟨h.eop, h.plen, h.contains, h.cmd, h.cell⟩

theorem cmdval_genMoore (s : VciGcdCoprocessor p) (sig : VciSignals p) :
    (s.genMoore sig).cmdval = sig.cmdval := by
  unfold genMoore
  cases s.vciFsm <;> rfl

theorem cmd_genMoore (s : VciGcdCoprocessor p) (sig : VciSignals p) :
    (s.genMoore sig).cmd = sig.cmd := by
  unfold genMoore
  cases s.vciFsm <;> rfl

/-- The edge under what the other side drives. -/
def advance (seg : Segment) (s : VciGcdCoprocessor p) (sig : VciSignals p) :
    VciGcdCoprocessor p :=
  (transition seg true (s.genMoore sig) s).toOption.getD s

/-- Legal commands make a run, from any operands the reset finds. -/
def drive (seg : Segment) (s : VciGcdCoprocessor p) (env : Nat → VciSignals p)
    (hlegal : ∀ t, (env t).cmdval = true → ∃ c, Legal seg (env t) c) :
    (coprocessor (p := p) seg).Run where
  state := iter (advance seg) { s with vciFsm := .getCmd, exeFsm := .idle } env
  input t :=
    (iter (advance seg) { s with vciFsm := .getCmd, exeFsm := .idle } env t).genMoore (env t)
  start := ⟨s, env 0, rfl⟩
  next t := by
    refine ⟨driven_genMoore _ _, ?_⟩
    generalize hs : iter (advance seg) _ env t = s'
    have hpass : s'.vciFsm = .getCmd → (s'.genMoore (env t)).cmdval = true →
        ∃ c, Legal seg (s'.genMoore (env t)) c := by
      intro _ hval
      obtain ⟨c, hc⟩ := hlegal t (cmdval_genMoore s' (env t) ▸ hval)
      exact ⟨c, legal_genMoore hc⟩
    obtain ⟨s'', hok⟩ := transition_ok s' hpass
    rw [hok, iter, hs, advance, hok]
    rfl

/-- A coprocessor at address zero. -/
def segmentAtZero : Segment := ⟨0, 16⟩

/-- The command `c` on the wires, to a coprocessor at address zero, by an initiator
that is ready for the response. -/
def commandWires (c : GcdCommand) (wdata : BitVec 32) : VciSignals vciParam :=
  { VciSignals.undriven with
    cmdval := true
    eop := true
    plen := 4
    address := BitVec.ofNat 32 (4 * c.cell)
    cmd := c.cmd
    wdata := wdata
    rspack := true }

theorem commandWires_legal (c : GcdCommand) (wdata : BitVec 32) :
    Legal segmentAtZero (commandWires c wdata) c := by
  have hcell : ∀ c : GcdCommand,
      (cell (p := vciParam) segmentAtZero (BitVec.ofNat 32 (4 * c.cell))).toNat = c.cell := by
    intro c
    cases c <;> decide
  refine ⟨rfl, rfl, ?_, rfl, hcell c⟩
  cases c <;> rfl

end VciGcdCoprocessor

end SmcTp.Vci
