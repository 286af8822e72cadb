import SmcTp.Vci.Vgsb

/-!
# Transaction integrity of the VCI bus

The transfers of a cycle are read off the wires alone, on both sides of the bus: a
command flit moves from `i` to `j` when the wires of `i` and the wires of `j` both
show `cmdval` and `cmdack`.  `Faithful` says the two sides agree in every cycle.

A transaction is a command packet from one initiator to one target followed by a
response packet the other way.  `log_parses` reads the log of all transfers as
complete transactions and one unfinished transaction at the end.  The proof keeps
the unfinished transaction next to the registers (`Carries`): in `idle` it is
empty, in `cmd` it holds the flits of the command packet so far, in `rsp` the
whole command packet and the response flits so far.  The link between the target
register and the address of the first flit is made one cycle before that flit
moves, and lives on because the initiator holds its command.
-/

namespace SmcTp.Vci

open Clocked

variable {p : VciParams}

/-! ## Transfers -/

/-- A flit that moves across the bus. -/
inductive Transfer (p : VciParams) where
  /-- From initiator `i` to target `j`. -/
  | cmd (i j : Nat) (f : CmdFlit p)
  /-- From target `j` to initiator `i`. -/
  | rsp (j i : Nat) (f : RspFlit p)
deriving DecidableEq

/-- What moves between one initiator and one target in a cycle. -/
def transfersBetween (ports : VgsbPorts p) (i j : Nat) : List (Transfer p) :=
  let ini := ports.toInitiator i
  let tgt := ports.toTarget j
  (if ini.cmdTransfer ∧ tgt.cmdTransfer then [.cmd i j ini.cmdFlit] else []) ++
    (if tgt.rspTransfer ∧ ini.rspTransfer then [.rsp j i tgt.rspFlit] else [])

/-- What moves across the bus in a cycle. -/
def transfers (cfg : VgsbConfig p) (ports : VgsbPorts p) : List (Transfer p) :=
  (List.range cfg.nbInitiator).flatMap fun i =>
    (List.range cfg.nbTarget).flatMap fun j => transfersBetween ports i j

/-! ## Packets and transactions -/

/-- A packet: its last flit, and no other, carries the end mark. -/
def IsPacket {α : Type} (last : α → Bool) (l : List α) : Prop :=
  ∃ init f, l = init ++ [f] ∧ last f = true ∧ ∀ g ∈ init, last g = false

/-- The flits of a command packet and of the response packet to it. -/
structure Transaction (p : VciParams) where
  initiator : Nat
  target : Nat
  cmds : List (CmdFlit p)
  rsps : List (RspFlit p)

namespace Transaction

/-- The transfers of a transaction, the command packet first. -/
def transfers (x : Transaction p) : List (Transfer p) :=
  x.cmds.map (.cmd x.initiator x.target) ++ x.rsps.map (.rsp x.target x.initiator)

/-- A flit joins the command packet. -/
def snocCmd (x : Transaction p) (f : CmdFlit p) : Transaction p :=
  { x with cmds := x.cmds ++ [f] }

/-- A flit joins the response packet. -/
def snocRsp (x : Transaction p) (f : RspFlit p) : Transaction p :=
  { x with rsps := x.rsps ++ [f] }

theorem transfers_snocCmd (x : Transaction p) (f : CmdFlit p) (hrsps : x.rsps = []) :
    (x.snocCmd f).transfers = x.transfers ++ [.cmd x.initiator x.target f] := by
  simp [transfers, snocCmd, hrsps]

theorem transfers_snocRsp (x : Transaction p) (f : RspFlit p) :
    (x.snocRsp f).transfers = x.transfers ++ [.rsp x.target x.initiator f] := by
  simp [transfers, snocRsp]

/-- The target is the one the routing table gives for the first flit's address. -/
def Routed (cfg : VgsbConfig p) (x : Transaction p) : Prop :=
  ∀ f ∈ x.cmds.head?, x.target = cfg.routingTable f.address

/-- Both ends exist. -/
def Connected (cfg : VgsbConfig p) (x : Transaction p) : Prop :=
  x.initiator < cfg.nbInitiator ∧ x.target < cfg.nbTarget

/-- One complete command packet and one complete response packet. -/
structure Complete (cfg : VgsbConfig p) (x : Transaction p) : Prop where
  connected : x.Connected cfg
  routed : x.Routed cfg
  cmds : IsPacket CmdFlit.eop x.cmds
  rsps : IsPacket RspFlit.reop x.rsps

/-- A transaction cut short: in its command packet, or in its response packet. -/
inductive Unfinished (cfg : VgsbConfig p) (x : Transaction p) : Prop where
  | none (hcmds : x.cmds = []) (hrsps : x.rsps = [])
  | inCmd (hconn : x.Connected cfg) (hrouted : x.Routed cfg)
      (hcmds : ∀ f ∈ x.cmds, f.eop = false) (hrsps : x.rsps = [])
  | inRsp (hconn : x.Connected cfg) (hrouted : x.Routed cfg)
      (hcmds : IsPacket CmdFlit.eop x.cmds) (hrsps : ∀ f ∈ x.rsps, f.reop = false)

end Transaction

/-! ## Both sides of the bus agree -/

/-- In one cycle: what is acknowledged to the sender is what the receiver takes,
and no wire is up at two ports. -/
structure Faithful (cfg : VgsbConfig p) (ports : VgsbPorts p) : Prop where
  cmdSent : ∀ i < cfg.nbInitiator, (ports.toInitiator i).cmdTransfer = true →
    ∃ j < cfg.nbTarget, (ports.toTarget j).cmdTransfer = true ∧
      (ports.toTarget j).cmdFlit = (ports.toInitiator i).cmdFlit
  cmdTaken : ∀ j < cfg.nbTarget, (ports.toTarget j).cmdTransfer = true →
    ∃ i < cfg.nbInitiator, (ports.toInitiator i).cmdTransfer = true ∧
      (ports.toTarget j).cmdFlit = (ports.toInitiator i).cmdFlit
  rspSent : ∀ j < cfg.nbTarget, (ports.toTarget j).rspTransfer = true →
    ∃ i < cfg.nbInitiator, (ports.toInitiator i).rspTransfer = true ∧
      (ports.toInitiator i).rspFlit = (ports.toTarget j).rspFlit
  rspTaken : ∀ i < cfg.nbInitiator, (ports.toInitiator i).rspTransfer = true →
    ∃ j < cfg.nbTarget, (ports.toTarget j).rspTransfer = true ∧
      (ports.toInitiator i).rspFlit = (ports.toTarget j).rspFlit
  oneCmdval : ∀ j < cfg.nbTarget, ∀ j' < cfg.nbTarget,
    (ports.toTarget j).cmdval = true → (ports.toTarget j').cmdval = true → j = j'
  oneRspval : ∀ i < cfg.nbInitiator, ∀ i' < cfg.nbInitiator,
    (ports.toInitiator i).rspval = true → (ports.toInitiator i').rspval = true → i = i'
  oneCmdack : ∀ i < cfg.nbInitiator, ∀ i' < cfg.nbInitiator,
    (ports.toInitiator i).cmdack = true → (ports.toInitiator i').cmdack = true → i = i'

namespace VciVgsb

variable {cfg : VgsbConfig p} {s : VciVgsb} {ports : VgsbPorts p}

/-! ## Open paths

A wire that is up names the port the bus has selected. -/

theorem Wires.cmdTo_of_cmdval (h : Wires cfg s ports) {j : Nat} (hj : j < cfg.nbTarget)
    (hval : (ports.toTarget j).cmdval = true) : CmdTo s j := by
  by_contra hclosed
  rw [h.notCmdTo j hj hclosed] at hval
  cases hval

theorem Wires.cmdFrom_of_cmdack (h : Wires cfg s ports) {i : Nat} (hi : i < cfg.nbInitiator)
    (hack : (ports.toInitiator i).cmdack = true) : CmdFrom s i := by
  by_contra hclosed
  rw [h.notCmdFrom i hi hclosed] at hack
  cases hack

theorem Wires.rspTo_of_rspval (h : Wires cfg s ports) {i : Nat} (hi : i < cfg.nbInitiator)
    (hval : (ports.toInitiator i).rspval = true) : RspTo s i := by
  by_contra hclosed
  rw [h.notRspTo i hi hclosed] at hval
  cases hval

theorem Wires.rspFrom_of_rspack (h : Wires cfg s ports) {j : Nat} (hj : j < cfg.nbTarget)
    (hack : (ports.toTarget j).rspack = true) : RspFrom s j := by
  by_contra hclosed
  rw [h.notRspFrom j hj hclosed] at hack
  cases hack

/-- Settled wires carry each flit faithfully. -/
theorem Wires.faithful (h : Wires cfg s ports) (hrange : InRange cfg s) :
    Faithful cfg ports where
  cmdSent i hi htransfer := by
    obtain ⟨hval, hack⟩ := Bool.and_eq_true_iff.mp htransfer
    have hopen := h.cmdFrom_of_cmdack hi hack
    obtain ⟨hfsm, rfl⟩ := hopen
    obtain ⟨-, htgt⟩ := hrange.busy (by rw [hfsm]; exact VgsbFsm.noConfusion)
    obtain ⟨hval', hflit⟩ := h.cmdTo _ htgt ⟨hfsm, rfl⟩
    refine ⟨s.targetIndex, htgt, Bool.and_eq_true_iff.mpr ⟨hval'.trans hval, ?_⟩, hflit⟩
    exact (h.cmdFrom _ hi ⟨hfsm, rfl⟩).symm.trans hack
  cmdTaken j hj htransfer := by
    obtain ⟨hval, hack⟩ := Bool.and_eq_true_iff.mp htransfer
    obtain ⟨hfsm, rfl⟩ := h.cmdTo_of_cmdval hj hval
    have hini := hrange.initiator (hrange.busy (by rw [hfsm]; exact VgsbFsm.noConfusion)).1
    obtain ⟨hval', hflit⟩ := h.cmdTo _ hj ⟨hfsm, rfl⟩
    refine ⟨s.initiatorIndex, hini, Bool.and_eq_true_iff.mpr ⟨hval'.symm.trans hval, ?_⟩, hflit⟩
    exact (h.cmdFrom _ hini ⟨hfsm, rfl⟩).trans hack
  rspSent j hj htransfer := by
    obtain ⟨hval, hack⟩ := Bool.and_eq_true_iff.mp htransfer
    obtain ⟨hfsm, rfl⟩ := h.rspFrom_of_rspack hj hack
    have hini := hrange.initiator (hrange.busy (by rw [hfsm]; exact VgsbFsm.noConfusion)).1
    obtain ⟨hval', hflit⟩ := h.rspTo _ hini ⟨hfsm, rfl⟩
    refine ⟨s.initiatorIndex, hini, Bool.and_eq_true_iff.mpr ⟨hval'.trans hval, ?_⟩, hflit⟩
    exact (h.rspFrom _ hj ⟨hfsm, rfl⟩).symm.trans hack
  rspTaken i hi htransfer := by
    obtain ⟨hval, hack⟩ := Bool.and_eq_true_iff.mp htransfer
    obtain ⟨hfsm, rfl⟩ := h.rspTo_of_rspval hi hval
    obtain ⟨-, htgt⟩ := hrange.busy (by rw [hfsm]; exact VgsbFsm.noConfusion)
    obtain ⟨hval', hflit⟩ := h.rspTo _ hi ⟨hfsm, rfl⟩
    refine ⟨s.targetIndex, htgt, Bool.and_eq_true_iff.mpr ⟨hval'.symm.trans hval, ?_⟩, hflit⟩
    exact (h.rspFrom _ htgt ⟨hfsm, rfl⟩).trans hack
  oneCmdval j hj j' hj' hval hval' :=
    (h.cmdTo_of_cmdval hj hval).2.trans (h.cmdTo_of_cmdval hj' hval').2.symm
  oneRspval i hi i' hi' hval hval' :=
    (h.rspTo_of_rspval hi hval).2.trans (h.rspTo_of_rspval hi' hval').2.symm
  oneCmdack i hi i' hi' hack hack' :=
    (h.cmdFrom_of_cmdack hi hack).2.trans (h.cmdFrom_of_cmdack hi' hack').2.symm

/-! ## The transfers of a cycle -/

/-- A command moves only along the open command path, a response only along the
open response path. -/
theorem Wires.transfersBetween_eq_nil (h : Wires cfg s ports) {i j : Nat}
    (hi : i < cfg.nbInitiator) (hj : j < cfg.nbTarget)
    (hclosed : ¬ (s.fsm ≠ .idle ∧ i = s.initiatorIndex ∧ j = s.targetIndex)) :
    transfersBetween ports i j = [] := by
  have hcmd : ¬ ((ports.toInitiator i).cmdTransfer = true ∧
      (ports.toTarget j).cmdTransfer = true) := by
    rintro ⟨hini, htgt⟩
    obtain ⟨hfsm, hi'⟩ := h.cmdFrom_of_cmdack hi (Bool.and_eq_true_iff.mp hini).2
    obtain ⟨-, hj'⟩ := h.cmdTo_of_cmdval hj (Bool.and_eq_true_iff.mp htgt).1
    exact hclosed ⟨by rw [hfsm]; exact VgsbFsm.noConfusion, hi', hj'⟩
  have hrsp : ¬ ((ports.toTarget j).rspTransfer = true ∧
      (ports.toInitiator i).rspTransfer = true) := by
    rintro ⟨htgt, hini⟩
    obtain ⟨hfsm, hi'⟩ := h.rspTo_of_rspval hi (Bool.and_eq_true_iff.mp hini).1
    obtain ⟨-, hj'⟩ := h.rspFrom_of_rspack hj (Bool.and_eq_true_iff.mp htgt).2
    exact hclosed ⟨by rw [hfsm]; exact VgsbFsm.noConfusion, hi', hj'⟩
  simp only [transfersBetween, if_neg hcmd, if_neg hrsp, List.append_nil]

/-- A family of lists that is empty but for one index. -/
theorem flatMap_range_single {α : Type} {n k : Nat} {f : Nat → List α} (hk : k < n)
    (h : ∀ i < n, i ≠ k → f i = []) : (List.range n).flatMap f = f k := by
  induction n with
  | zero => exact absurd hk (Nat.not_lt_zero k)
  | succ n ih =>
      rw [List.range_succ, List.flatMap_append, List.flatMap_singleton]
      by_cases hkn : k = n
      · subst hkn
        have hnil : (List.range k).flatMap f = [] :=
          List.flatMap_eq_nil_iff.mpr fun i hi =>
            h i (Nat.lt_succ_of_lt (List.mem_range.mp hi)) (Nat.ne_of_lt (List.mem_range.mp hi))
        rw [hnil, List.nil_append]
      · rw [ih (by omega) fun i hi => h i (Nat.lt_succ_of_lt hi),
          h n (Nat.lt_succ_self n) (Ne.symm hkn), List.append_nil]

theorem Wires.transfers_idle (h : Wires cfg s ports) (hfsm : s.fsm = .idle) :
    transfers cfg ports = [] :=
  List.flatMap_eq_nil_iff.mpr fun _ hi => List.flatMap_eq_nil_iff.mpr fun _ hj =>
    h.transfersBetween_eq_nil (List.mem_range.mp hi) (List.mem_range.mp hj)
      fun hbusy => hbusy.1 hfsm

theorem Wires.transfers_busy (h : Wires cfg s ports) (hrange : InRange cfg s)
    (hbusy : s.fsm ≠ .idle) :
    transfers cfg ports = transfersBetween ports s.initiatorIndex s.targetIndex := by
  obtain ⟨hpos, htgt⟩ := hrange.busy hbusy
  have hini := hrange.initiator hpos
  rw [transfers, flatMap_range_single hini, flatMap_range_single htgt]
  · exact fun j hj hne => h.transfersBetween_eq_nil hini hj fun hopen => hne hopen.2.2
  · intro i hi hne
    exact List.flatMap_eq_nil_iff.mpr fun j hj =>
      h.transfersBetween_eq_nil hi (List.mem_range.mp hj) fun hopen => hne hopen.2.1

/-- In `cmd` the flit of the selected initiator moves when the target takes it. -/
theorem Wires.transfers_cmd (h : Wires cfg s ports) (hrange : InRange cfg s)
    (hfsm : s.fsm = .cmd) :
    transfers cfg ports =
      if (ports.toInitiator s.initiatorIndex).cmdval = true ∧
          (ports.toTarget s.targetIndex).cmdack = true then
        [.cmd s.initiatorIndex s.targetIndex (ports.toInitiator s.initiatorIndex).cmdFlit]
      else [] := by
  have hbusy : s.fsm ≠ .idle := by rw [hfsm]; exact VgsbFsm.noConfusion
  obtain ⟨hpos, htgt⟩ := hrange.busy hbusy
  have hini := hrange.initiator hpos
  have hval := (h.cmdTo _ htgt ⟨hfsm, rfl⟩).1
  have hack := h.cmdFrom _ hini ⟨hfsm, rfl⟩
  have hrsp := h.notRspFrom _ htgt fun hopen => nomatch hfsm.symm.trans hopen.1
  rw [h.transfers_busy hrange hbusy, transfersBetween]
  simp only [VciSignals.cmdTransfer, VciSignals.rspTransfer, hval, hack, hrsp, Bool.and_false,
    Bool.false_eq_true, false_and, if_false, List.append_nil, and_self, Bool.and_eq_true]

/-- In `rsp` the flit of the selected target moves when the initiator takes it. -/
theorem Wires.transfers_rsp (h : Wires cfg s ports) (hrange : InRange cfg s)
    (hfsm : s.fsm = .rsp) :
    transfers cfg ports =
      if (ports.toTarget s.targetIndex).rspval = true ∧
          (ports.toInitiator s.initiatorIndex).rspack = true then
        [.rsp s.targetIndex s.initiatorIndex (ports.toTarget s.targetIndex).rspFlit]
      else [] := by
  have hbusy : s.fsm ≠ .idle := by rw [hfsm]; exact VgsbFsm.noConfusion
  obtain ⟨hpos, htgt⟩ := hrange.busy hbusy
  have hini := hrange.initiator hpos
  have hval := (h.rspTo _ hini ⟨hfsm, rfl⟩).1
  have hack := h.rspFrom _ htgt ⟨hfsm, rfl⟩
  have hcmd := h.notCmdFrom _ hini fun hopen => nomatch hfsm.symm.trans hopen.1
  rw [h.transfers_busy hrange hbusy, transfersBetween]
  simp only [VciSignals.cmdTransfer, VciSignals.rspTransfer, hval, hack, hcmd, Bool.and_false,
    Bool.false_eq_true, false_and, if_false, List.nil_append, and_self, Bool.and_eq_true]

/-! ## The unfinished transaction -/

/-- The transaction on the bus, as far as its flits have moved. -/
inductive Carries (cfg : VgsbConfig p) (s : VciVgsb) (ports : VgsbPorts p)
    (x : Transaction p) : Prop where
  | idle (hfsm : s.fsm = .idle) (hcmds : x.cmds = []) (hrsps : x.rsps = [])
  | cmd (hfsm : s.fsm = .cmd) (hini : x.initiator = s.initiatorIndex)
      (htgt : x.target = s.targetIndex) (hrouted : x.Routed cfg)
      (hfirst : x.cmds = [] → (ports.toInitiator s.initiatorIndex).cmdval = true ∧
        s.targetIndex = cfg.routingTable (ports.toInitiator s.initiatorIndex).address)
      (hcmds : ∀ f ∈ x.cmds, f.eop = false) (hrsps : x.rsps = [])
  | rsp (hfsm : s.fsm = .rsp) (hini : x.initiator = s.initiatorIndex)
      (htgt : x.target = s.targetIndex) (hrouted : x.Routed cfg)
      (hcmds : IsPacket CmdFlit.eop x.cmds) (hrsps : ∀ f ∈ x.rsps, f.reop = false)

/-- An initiator whose command is not acknowledged shows it again. -/
def HeldAt (cfg : VgsbConfig p) (ports ports' : VgsbPorts p) : Prop :=
  ∀ i < cfg.nbInitiator, (ports.toInitiator i).cmdval = true →
    (ports.toInitiator i).cmdack = false →
      (ports'.toInitiator i).cmdval = true ∧
        (ports'.toInitiator i).cmdFlit = (ports.toInitiator i).cmdFlit

theorem Carries.unfinished {x : Transaction p} (h : Carries cfg s ports x)
    (hrange : InRange cfg s) : x.Unfinished cfg := by
  have hconn : s.fsm ≠ .idle → x.initiator = s.initiatorIndex → x.target = s.targetIndex →
      x.Connected cfg := by
    intro hbusy hini htgt
    obtain ⟨hpos, hlt⟩ := hrange.busy hbusy
    exact ⟨hini ▸ hrange.initiator hpos, htgt ▸ hlt⟩
  cases h with
  | idle hfsm hcmds hrsps => exact .none hcmds hrsps
  | cmd hfsm hini htgt hrouted hfirst hcmds hrsps =>
      exact .inCmd (hconn (by rw [hfsm]; exact VgsbFsm.noConfusion) hini htgt) hrouted hcmds hrsps
  | rsp hfsm hini htgt hrouted hcmds hrsps =>
      exact .inRsp (hconn (by rw [hfsm]; exact VgsbFsm.noConfusion) hini htgt) hrouted hcmds hrsps

/-- One edge moves at most one flit.  It joins the unfinished transaction, and the
last response flit completes it. -/
theorem Carries.edge {s' : VciVgsb} {ports' : VgsbPorts p} {x : Transaction p}
    (h : Carries cfg s ports x) (hwires : Wires cfg s ports) (hrange : InRange cfg s)
    (hheld : HeldAt cfg ports ports') (hedge : Edge cfg ports s s') :
    ∃ (done : List (Transaction p)) (x' : Transaction p),
      (∀ y ∈ done, Transaction.Complete cfg y) ∧ Carries cfg s' ports' x' ∧
      x.transfers ++ transfers cfg ports = done.flatMap Transaction.transfers ++ x'.transfers := by
  have hunfinished := h.unfinished hrange
  cases h with
  | idle hfsm hcmds hrsps =>
      have hnone := hwires.transfers_idle hfsm
      cases hedge with
      | idle _ _ =>
          exact ⟨[], x, by simp, .idle hfsm hcmds hrsps, by rw [hnone, List.append_nil]; rfl⟩
      | @grant ini _ hsome =>
          -- The command that won the bus is not acknowledged in this cycle, so it stays.
          have hini := hrange.of_first hsome
          have hreq : (ports.toInitiator ini).cmdval = true :=
            Cyclic.first_req (hrange.initiator (Cyclic.pos_of_first hsome)) hsome
          have hack : (ports.toInitiator ini).cmdack = false :=
            hwires.notCmdFrom ini hini fun hopen => nomatch hfsm.symm.trans hopen.1
          obtain ⟨hval', hflit'⟩ := hheld ini hini hreq hack
          refine ⟨[], ⟨ini, cfg.routingTable (ports.toInitiator ini).address, [], []⟩, by simp,
            .cmd rfl rfl rfl (by simp [Transaction.Routed]) (fun _ => ⟨hval', ?_⟩) (by simp) rfl,
            ?_⟩
          · exact congrArg (fun f => cfg.routingTable (CmdFlit.address f)) hflit'.symm
          · simp [hnone, Transaction.transfers, hcmds, hrsps]
      | cmdStay hfsm' _ => exact nomatch hfsm.symm.trans hfsm'
      | cmdEnd hfsm' _ => exact nomatch hfsm.symm.trans hfsm'
      | rspStay hfsm' _ => exact nomatch hfsm.symm.trans hfsm'
      | rspEnd hfsm' _ => exact nomatch hfsm.symm.trans hfsm'
  | cmd hfsm hini htgt hrouted hfirst hcmds hrsps =>
      have hbusy : s.fsm ≠ .idle := by rw [hfsm]; exact VgsbFsm.noConfusion
      have hlt := hrange.initiator (hrange.busy hbusy).1
      have hmoves := hwires.transfers_cmd hrange hfsm
      have hrouted' : (x.snocCmd (ports.toInitiator s.initiatorIndex).cmdFlit).Routed cfg := by
        cases hl : x.cmds with
        | nil =>
            intro f hf
            simp only [Transaction.snocCmd, hl, List.nil_append, List.head?_cons,
              Option.mem_some_iff] at hf
            rw [← hf]
            exact htgt.trans (hfirst hl).2
        | cons g l =>
            intro f hf
            refine hrouted f ?_
            rw [hl]
            simpa only [Transaction.snocCmd, hl, List.cons_append, List.head?_cons] using hf
      cases hedge with
      | idle hfsm' _ => exact nomatch hfsm.symm.trans hfsm'
      | grant hfsm' _ => exact nomatch hfsm.symm.trans hfsm'
      | cmdStay _ hends =>
          by_cases hmove : (ports.toInitiator s.initiatorIndex).cmdval = true ∧
              (ports.toTarget s.targetIndex).cmdack = true
          · -- A flit that is not the last one moves.
            rw [if_pos hmove] at hmoves
            have heop : (ports.toInitiator s.initiatorIndex).eop = false :=
              Bool.eq_false_iff.mpr fun heop => hends ⟨heop, hmove.1, hmove.2⟩
            refine ⟨[], x.snocCmd (ports.toInitiator s.initiatorIndex).cmdFlit, by simp,
              .cmd hfsm hini htgt hrouted' (by simp [Transaction.snocCmd]) ?_ hrsps, ?_⟩
            · intro f hf
              rcases List.mem_append.mp hf with hf | hf
              · exact hcmds f hf
              · rw [List.mem_singleton.mp hf]
                exact heop
            · rw [hmoves, x.transfers_snocCmd _ hrsps, hini, htgt]
              rfl
          · -- Nothing moves, and the selected initiator holds its command.
            rw [if_neg hmove] at hmoves
            refine ⟨[], x, by simp, .cmd hfsm hini htgt hrouted (fun hnil => ?_) hcmds hrsps, ?_⟩
            · obtain ⟨hval, haddr⟩ := hfirst hnil
              have hack : (ports.toInitiator s.initiatorIndex).cmdack = false := by
                rw [hwires.cmdFrom _ hlt ⟨hfsm, rfl⟩]
                exact Bool.eq_false_iff.mpr fun hack => hmove ⟨hval, hack⟩
              obtain ⟨hval', hflit'⟩ := hheld _ hlt hval hack
              refine ⟨hval', haddr.trans ?_⟩
              exact congrArg (fun f => cfg.routingTable (CmdFlit.address f)) hflit'.symm
            · rw [hmoves, List.append_nil]
              rfl
      | cmdEnd _ hends =>
          obtain ⟨heop, hval, hack⟩ := hends
          rw [if_pos ⟨hval, hack⟩] at hmoves
          refine ⟨[], x.snocCmd (ports.toInitiator s.initiatorIndex).cmdFlit, by simp,
            .rsp rfl hini htgt hrouted' ⟨x.cmds, _, rfl, heop, hcmds⟩ ?_, ?_⟩
          · intro f hf
            rw [show (x.snocCmd _).rsps = [] from hrsps] at hf
            exact absurd hf (List.not_mem_nil)
          · rw [hmoves, x.transfers_snocCmd _ hrsps, hini, htgt]
            rfl
      | rspStay hfsm' _ => exact nomatch hfsm.symm.trans hfsm'
      | rspEnd hfsm' _ => exact nomatch hfsm.symm.trans hfsm'
  | rsp hfsm hini htgt hrouted hcmds hrsps =>
      have hmoves := hwires.transfers_rsp hrange hfsm
      cases hedge with
      | idle hfsm' _ => exact nomatch hfsm.symm.trans hfsm'
      | grant hfsm' _ => exact nomatch hfsm.symm.trans hfsm'
      | cmdStay hfsm' _ => exact nomatch hfsm.symm.trans hfsm'
      | cmdEnd hfsm' _ => exact nomatch hfsm.symm.trans hfsm'
      | rspStay _ hends =>
          by_cases hmove : (ports.toTarget s.targetIndex).rspval = true ∧
              (ports.toInitiator s.initiatorIndex).rspack = true
          · rw [if_pos hmove] at hmoves
            have hreop : (ports.toTarget s.targetIndex).reop = false :=
              Bool.eq_false_iff.mpr fun hreop => hends ⟨hreop, hmove.1, hmove.2⟩
            refine ⟨[], x.snocRsp (ports.toTarget s.targetIndex).rspFlit, by simp,
              .rsp hfsm hini htgt hrouted hcmds ?_, ?_⟩
            · intro f hf
              rcases List.mem_append.mp hf with hf | hf
              · exact hrsps f hf
              · rw [List.mem_singleton.mp hf]
                exact hreop
            · rw [hmoves, x.transfers_snocRsp, hini, htgt]
              rfl
          · rw [if_neg hmove] at hmoves
            exact ⟨[], x, by simp, .rsp hfsm hini htgt hrouted hcmds hrsps,
              by rw [hmoves, List.append_nil]; rfl⟩
      | rspEnd _ hends =>
          -- The last flit completes the transaction; the bus holds none until the next grant.
          obtain ⟨hreop, hval, hack⟩ := hends
          rw [if_pos ⟨hval, hack⟩] at hmoves
          have hconn : x.Connected cfg := by
            cases hunfinished with
            | none hnil _ => obtain ⟨init, f, hl, -⟩ := hcmds; simp [hl] at hnil
            | inCmd hconn _ _ _ => exact hconn
            | inRsp hconn _ _ _ => exact hconn
          refine ⟨[x.snocRsp (ports.toTarget s.targetIndex).rspFlit], ⟨0, 0, [], []⟩, ?_,
            .idle rfl rfl rfl, ?_⟩
          · intro y hy
            rw [List.mem_singleton.mp hy]
            exact ⟨hconn, hrouted, hcmds, x.rsps, _, rfl, hreop, hrsps⟩
          · rw [List.flatMap_singleton, hmoves, x.transfers_snocRsp, hini, htgt]
            simp [Transaction.transfers]

/-! ## Runs -/

/-- Every initiator holds its command until it is acknowledged. -/
def CommandsHeld (r : (bus cfg).Run) : Prop :=
  ∀ t, HeldAt cfg (r.input t) (r.input (t + 1))

/-- The log reads as complete transactions and the one on the bus. -/
theorem run_carries (r : (bus cfg).Run) (hheld : CommandsHeld r) (n : Nat) :
    ∃ (done : List (Transaction p)) (x : Transaction p),
      (∀ y ∈ done, Transaction.Complete cfg y) ∧
      Carries cfg (r.state n) (r.input n) x ∧
      r.log (fun _ ports => transfers cfg ports) n =
        done.flatMap Transaction.transfers ++ x.transfers := by
  induction n with
  | zero => exact ⟨[], ⟨0, 0, [], []⟩, by simp, .idle (run_start r).1 rfl rfl, rfl⟩
  | succ n ih =>
      obtain ⟨done, x, hdone, hx, hlog⟩ := ih
      obtain ⟨done', x', hdone', hx', heq⟩ :=
        hx.edge (run_settled r n).wires (run_inRange r n) (hheld n) (run_edge r n)
      refine ⟨done ++ done', x', ?_, hx', ?_⟩
      · intro y hy
        rcases List.mem_append.mp hy with hy | hy
        · exact hdone y hy
        · exact hdone' y hy
      · rw [System.Run.log_succ, hlog, List.append_assoc, heq, List.flatMap_append,
          List.append_assoc]

/-- Transaction integrity.  For every number of ports, every routing table and
every run in which the initiators hold their commands: the transfers so far are
complete transactions, each routed by the address of its first flit, and one
unfinished transaction; and in every cycle the two sides of the bus agree on what
moves, with no wire up at two ports. -/
theorem transaction_integrity (r : (bus cfg).Run) (hheld : CommandsHeld r) (n : Nat) :
    Faithful cfg (r.input n) ∧
      ∃ (done : List (Transaction p)) (x : Transaction p),
      (∀ y ∈ done, Transaction.Complete cfg y) ∧ Transaction.Unfinished cfg x ∧
        r.log (fun _ ports => transfers cfg ports) n =
          done.flatMap Transaction.transfers ++ x.transfers := by
  obtain ⟨done, x, hdone, hx, hlog⟩ := run_carries r hheld n
  exact ⟨(run_settled r n).wires.faithful (run_inRange r n),
    done, x, hdone, hx.unfinished (run_inRange r n), hlog⟩

/-! ## Two initiators and two targets -/

/-- The upper half of the addresses is that of the second target. -/
def twoTargets : VgsbConfig vciParam where
  routingTable a := if a.getLsbD 31 then 1 else 0
  nbInitiator := 2
  nbTarget := 2
  isAllBelow a := by split <;> decide

/-- A word of a packet that writes two of them. -/
def word (address : BitVec 32) (eop : Bool) (sig : VciSignals vciParam) : VciSignals vciParam :=
  { sig with cmdval := true, cmd := .write, address := address, be := 0xF, plen := 8, eop := eop }

/-- Both initiators ask for the bus at once, the first one until it is served at 10.  The second
one has a wait state between its words, and one before it takes the end of the response. -/
def initiators (t : Nat) : Nat → VciSignals vciParam
  | 0 =>
      let sig := { VciSignals.undriven with rspack := true }
      if t < 11 then word 0x100 false sig else if t = 11 then word 0x104 true sig else sig
  | _ =>
      let sig := { VciSignals.undriven with rspack := decide (t ≠ 7) }
      if t < 3 then word 0x80000000 false sig else if t = 4 then word 0x80000004 true sig else sig

/-- The first target answers with one word, the second one with two.  It has a wait state before
the first word it takes and one before the first word of its response. -/
def targets (t : Nat) : Nat → VciSignals vciParam
  | 0 => { VciSignals.undriven with cmdack := true, rspval := true, reop := true }
  | _ =>
      { VciSignals.undriven with
        cmdack := decide (t ≠ 1)
        rspval := decide (t ≠ 5)
        reop := decide (7 ≤ t) }

/-- The run of the bus between them. -/
def twoPackets : (bus twoTargets).Run := drive twoTargets fun t => ⟨initiators t, targets t⟩

theorem twoPackets_held : CommandsHeld twoPackets := by
  intro t
  rcases Nat.lt_or_ge t 12 with hlt | hge
  · revert t
    unfold HeldAt
    decide +kernel
  · intro i _ hval
    have hcmd := drive_cmd twoTargets (fun t => ⟨initiators t, targets t⟩) t i
    have hidle : (initiators t i).cmdval = false := by
      cases i with
      | zero => simp [initiators, VciSignals.undriven, show ¬ t < 11 by omega, show t ≠ 11 by omega]
      | succ i => simp [initiators, VciSignals.undriven, show ¬ t < 3 by omega, show t ≠ 4 by omega]
    exact absurd (hval.symm.trans (hcmd.cmdval.trans hidle)) (by decide)

/-- After 13 cycles two packets of two words and the responses to them have moved. -/
theorem transaction_integrity_twoPackets :
    (twoPackets.log (fun _ ports => transfers twoTargets ports) 13).length = 7 ∧
      Faithful twoTargets (twoPackets.input 13) ∧
      ∃ (done : List (Transaction _)) (x : Transaction _),
        (∀ y ∈ done, Transaction.Complete twoTargets y) ∧
          Transaction.Unfinished twoTargets x ∧
          twoPackets.log (fun _ ports => transfers twoTargets ports) 13 =
            done.flatMap Transaction.transfers ++ x.transfers :=
  ⟨by decide +kernel, transaction_integrity twoPackets twoPackets_held 13⟩

end VciVgsb

end SmcTp.Vci
