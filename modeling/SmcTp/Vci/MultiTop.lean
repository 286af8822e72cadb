import SmcTp.Vci.GcdPair
import SmcTp.Vci.Vgsb

/-!
# The gcd platform on a VCI bus

The netlist of `tp2_multi_top`, for any number of masters: master `i` is bound to
`p_to_initiator[i]` of the bus, coprocessor `i` to `p_to_target[i]`, and the routing
table sends the segment of coprocessor `i` to target `i`.

A clock period is a rising edge, where all components take their transition on the
wires as they stood, and a falling edge, where the masters and the coprocessors
drive their wires and the bus comes to rest on them.  A coprocessor may halt the
simulation at a rising edge, so `cycle` returns an `Except`.

The invariant `Inv` holds pair by pair (`Pair`), and says how the bus fits in: a
master waits for a response exactly while the response path is open to it, and the
selected target is always the one of the selected initiator.  No period halts from
a state in which it holds (`Inv.cycle`).
-/

namespace SmcTp.Vci

open Clocked VciGcdMaster

/-! ## The netlist -/

/-- The constants of a platform. -/
structure MultiTopConfig where
  bus : VgsbConfig vciParam
  master : Nat → GcdMasterConfig vciParam
  segment : Nat → Segment
  /-- There are as many coprocessors as masters, and at least one of each. -/
  square : bus.nbTarget = bus.nbInitiator
  pos : 0 < bus.nbInitiator
  /-- Master `i` uses the segment of coprocessor `i`. -/
  mapped : ∀ i < bus.nbInitiator, Mapped (master i).base (segment i)
  /-- The bus sends the segment of coprocessor `i` to target `i`. -/
  routed : ∀ i < bus.nbInitiator, ∀ a : BitVec vciParam.N,
    (segment i).contains (a.setWidth 64) = true → bus.routingTable a = i

/-- `N`. -/
def MultiTopConfig.n (cfg : MultiTopConfig) : Nat := cfg.bus.nbInitiator

/-- The registers of the components and the wires between them. -/
structure MultiTop where
  masters : Nat → VciGcdMaster vciParam
  coprocs : Nat → VciGcdCoprocessor vciParam
  vgsb : VciVgsb
  ports : VgsbPorts vciParam

namespace MultiTop

/-- The two words a master draws. -/
abbrev Draw := BitVec (vciParam.B * 8) × BitVec (vciParam.B * 8)

variable (cfg : MultiTopConfig)

/-- The transitions of the first `k` coprocessors. -/
def coprocTransitions (resetn : Bool) (s : MultiTop) :
    Nat → Except Halt (Nat → VciGcdCoprocessor vciParam)
  | 0 => .ok s.coprocs
  | k + 1 =>
      (coprocTransitions resetn s k).bind fun coprocs =>
        (VciGcdCoprocessor.transition (cfg.segment k) resetn (s.ports.toTarget k)
          (s.coprocs k)).map fun c => fun i => if i = k then c else coprocs i

/-- The transitions of the masters.  `rand` holds what each draws in `random`. -/
def masterTransitions (resetn : Bool) (rand : Nat → Draw) (s : MultiTop) :
    Nat → VciGcdMaster vciParam := fun i =>
  if i < cfg.n then (s.masters i).transition resetn (rand i) (s.ports.toInitiator i)
  else s.masters i

/-- The `genMoore` processes of the masters and the coprocessors. -/
def moore (s : MultiTop) : VgsbPorts vciParam where
  toInitiator i :=
    if i < cfg.n then (s.masters i).genMoore (cfg.master i) (s.ports.toInitiator i)
    else s.ports.toInitiator i
  toTarget i :=
    if i < cfg.n then (s.coprocs i).genMoore (s.ports.toTarget i) else s.ports.toTarget i

/-- The falling edge. -/
def drivePorts (s : MultiTop) : MultiTop :=
  { s with ports := VciVgsb.settle cfg.bus s.vgsb (moore cfg s) }

/-- One clock period. -/
def cycle (resetn : Bool) (rand : Nat → Draw) (s : MultiTop) :
    Except Halt MultiTop :=
  (coprocTransitions cfg resetn s cfg.n).map fun coprocs =>
    drivePorts cfg
      { masters := masterTransitions cfg resetn rand s
        coprocs := coprocs
        vgsb := VciVgsb.transition cfg.bus resetn s.ports s.vgsb
        ports := s.ports }

/-- The platform once the reset is over.  An input is what the masters draw. -/
def system : System MultiTop (Nat → Draw) where
  init s := ∃ s₀ rand, cycle cfg false rand s₀ = .ok s
  step s rand s' := cycle cfg true rand s = .ok s'

variable {cfg}

/-! ## The coprocessors of a period -/

/-- If no coprocessor halts, each has taken its transition. -/
theorem coprocTransitions_eq_ok {resetn : Bool} {s : MultiTop}
    {f : Nat → VciGcdCoprocessor vciParam} {k : Nat}
    (h : ∀ i < k, VciGcdCoprocessor.transition (cfg.segment i) resetn (s.ports.toTarget i)
      (s.coprocs i) = .ok (f i)) :
    coprocTransitions cfg resetn s k = .ok fun i => if i < k then f i else s.coprocs i := by
  induction k with
  | zero => rfl
  | succ k ih =>
      rw [coprocTransitions, ih fun i hi => h i (Nat.lt_succ_of_lt hi), h k (Nat.lt_succ_self k)]
      refine congrArg Except.ok (funext fun i => ?_)
      dsimp only
      rcases Nat.lt_trichotomy i k with hlt | rfl | hgt
      · rw [if_neg (Nat.ne_of_lt hlt), if_pos hlt, if_pos (Nat.lt_succ_of_lt hlt)]
      · rw [if_pos rfl, if_pos (Nat.lt_succ_self i)]
      · rw [if_neg (Nat.ne_of_gt hgt), if_neg (Nat.not_lt_of_gt hgt), if_neg (by omega)]

theorem coprocTransitions_ok {resetn : Bool} {s : MultiTop}
    {coprocs : Nat → VciGcdCoprocessor vciParam} {k : Nat}
    (h : coprocTransitions cfg resetn s k = .ok coprocs) :
    ∀ i < k, VciGcdCoprocessor.transition (cfg.segment i) resetn (s.ports.toTarget i)
      (s.coprocs i) = .ok (coprocs i) := by
  induction k generalizing coprocs with
  | zero => exact fun i hi => absurd hi (Nat.not_lt_zero i)
  | succ k ih =>
      intro i hi
      rw [coprocTransitions] at h
      cases hrest : coprocTransitions cfg resetn s k with
      | error e => rw [hrest] at h; cases h
      | ok rest =>
          rw [hrest] at h
          cases hlast : VciGcdCoprocessor.transition (cfg.segment k) resetn (s.ports.toTarget k)
              (s.coprocs k) with
          | error e => simp only [Except.bind, hlast, Except.map] at h; cases h
          | ok c =>
              simp only [Except.bind, hlast, Except.map, Except.ok.injEq] at h
              rcases Nat.lt_succ_iff_lt_or_eq.mp hi with hlt | rfl
              · rw [ih hrest i hlt, ← h]
                exact congrArg Except.ok (if_neg (Nat.ne_of_lt hlt)).symm
              · rw [hlast, ← h]
                exact congrArg Except.ok (if_pos rfl).symm

/-! ## The wires after a falling edge -/

/-- What the components show on their wires. -/
structure Shown (cfg : MultiTopConfig) (s : MultiTop) : Prop where
  masters : ∀ i < cfg.n, Drives (cfg.master i) (s.masters i) (s.ports.toInitiator i)
  coprocs : ∀ i < cfg.n, (s.coprocs i).Driven (s.ports.toTarget i)
  settled : VciVgsb.Settled cfg.bus s.vgsb s.ports

theorem Drives.of_same {mcfg : GcdMasterConfig vciParam} {m : VciGcdMaster vciParam}
    {sig sig' : VciSignals vciParam} (h : Drives mcfg m sig) (hcmd : VciVgsb.SameCmd sig' sig)
    (hack : sig'.rspack = sig.rspack) : Drives mcfg m sig' where
  sends c hm := by
    obtain ⟨hval, hflit, hack'⟩ := h.sends c hm
    exact ⟨hcmd.cmdval.trans hval, hcmd.cmdFlit.trans hflit, hack.trans hack'⟩
  waits c hm := ⟨hcmd.cmdval.trans (h.waits c hm).1, hack.trans (h.waits c hm).2⟩
  rests hm := ⟨hcmd.cmdval.trans (h.rests hm).1, hack.trans (h.rests hm).2⟩

theorem shown_drivePorts (s : MultiTop) : Shown cfg (drivePorts cfg s) where
  masters i hi := by
    obtain ⟨hcmd, hack⟩ := VciVgsb.settle_initiator cfg.bus s.vgsb (moore cfg s) i
    refine Drives.of_same ?_ hcmd hack
    simp only [moore, if_pos hi]
    exact drives_genMoore _ _ _
  coprocs i hi := by
    obtain ⟨hrsp, hack⟩ := VciVgsb.settle_target cfg.bus s.vgsb (moore cfg s) i
    refine VciGcdCoprocessor.Driven.of_same ?_ hrsp.rspval hrsp.rspFlit hack
    simp only [moore, if_pos hi]
    exact VciGcdCoprocessor.driven_genMoore _ _
  settled := VciVgsb.settled_settle _ _ _

/-! ## The invariant -/

/-- How the bus fits in with the masters. -/
structure Linked (cfg : MultiTopConfig) (s : MultiTop) : Prop where
  inRange : VciVgsb.InRange cfg.bus s.vgsb
  /-- The selected target is the one of the selected initiator. -/
  paired : s.vgsb.fsm ≠ .idle → s.vgsb.targetIndex = s.vgsb.initiatorIndex
  /-- The command path is open to a master that sends. -/
  cmd : s.vgsb.fsm = .cmd → ∃ c, (s.masters s.vgsb.initiatorIndex).fsm = cmdFsm c
  /-- The response path is open to a master that waits. -/
  rsp : s.vgsb.fsm = .rsp → ∃ c, (s.masters s.vgsb.initiatorIndex).fsm = rspFsm c
  /-- No other master waits. -/
  waits : ∀ i < cfg.n, ∀ c, (s.masters i).fsm = rspFsm c →
    s.vgsb.fsm = .rsp ∧ s.vgsb.initiatorIndex = i

/-- The invariant of the platform. -/
structure Inv (cfg : MultiTopConfig) (s : MultiTop) : Prop where
  pairs : ∀ i < cfg.n, Pair (s.masters i) (s.coprocs i)
  linked : Linked cfg s
  shown : Shown cfg s

/-- After the reset every master is about to draw. -/
theorem inv_init {s : MultiTop} (h : (system cfg).init s) : Inv cfg s := by
  obtain ⟨s₀, rand, h⟩ := h
  rw [cycle] at h
  cases hcoprocs : coprocTransitions cfg false s₀ cfg.n with
  | error e => rw [hcoprocs] at h; cases h
  | ok coprocs =>
      rw [hcoprocs] at h
      rw [← Except.ok.inj h]
      have hreset := coprocTransitions_ok hcoprocs
      refine ⟨fun i hi => ?_, ⟨?_, ?_, ?_, ?_, ?_⟩, shown_drivePorts _⟩
      · have hc := Except.ok.inj (hreset i hi)
        refine .random ?_ ?_ ?_
        · simp only [drivePorts, masterTransitions, if_pos hi]; rfl
        · simp only [drivePorts, ← hc]
        · simp only [drivePorts, ← hc]
      · exact ⟨fun hpos => hpos, fun hbusy => absurd rfl hbusy⟩
      · exact fun hbusy => absurd rfl hbusy
      · exact fun hfsm => nomatch hfsm
      · exact fun hfsm => nomatch hfsm
      · intro i hi c hm
        simp only [drivePorts, masterTransitions, if_pos hi] at hm
        cases c <;> cases hm

/-! ## One period -/

variable {s : MultiTop} {i : Nat} (rand : Draw)

/-- A pair that is not on the bus. -/
theorem Inv.apart (h : Inv cfg s) (hi : i < cfg.n)
    (hoff : ¬ (s.vgsb.fsm ≠ .idle ∧ s.vgsb.initiatorIndex = i)) :
    (∃ c', VciGcdCoprocessor.transition (cfg.segment i) true (s.ports.toTarget i) (s.coprocs i) =
        .ok c' ∧ Pair ((s.masters i).transition true rand (s.ports.toInitiator i)) c') ∧
      (∀ k, ((s.masters i).transition true rand (s.ports.toInitiator i)).fsm ≠ rspFsm k) ∧
      ∀ k, (s.masters i).fsm = cmdFsm k →
        ((s.masters i).transition true rand (s.ports.toInitiator i)).fsm = cmdFsm k := by
  have hwires := h.shown.settled.wires
  have hpair := h.pairs i hi
  have hnot : ∀ k, (s.masters i).fsm ≠ rspFsm k := by
    intro k hm
    obtain ⟨hrsp, hindex⟩ := h.linked.waits i hi k hm
    exact hoff ⟨by rw [hrsp]; exact VgsbFsm.noConfusion, hindex⟩
  have hack : (s.ports.toInitiator i).cmdack = false := by
    refine hwires.notCmdFrom i hi fun hopen => hoff ⟨?_, hopen.2.symm⟩
    rw [hopen.1]
    exact VgsbFsm.noConfusion
  have hval : (s.ports.toTarget i).cmdval = false := by
    refine hwires.notCmdTo i (cfg.square ▸ hi) fun hopen => hoff ?_
    have hbusy : s.vgsb.fsm ≠ .idle := by rw [hopen.1]; exact VgsbFsm.noConfusion
    exact ⟨hbusy, (h.linked.paired hbusy).symm.trans hopen.2.symm⟩
  obtain ⟨hpair', hnot', hcmd'⟩ := hpair.apart rand hnot hack
  exact ⟨⟨_, VciGcdCoprocessor.transition_wait (hpair.getCmd hnot) hval, hpair'⟩, hnot', hcmd'⟩

/-- The pair whose command is on the bus.  It passes at once. -/
theorem Inv.sends (h : Inv cfg s) (hi : i < cfg.n) (hfsm : s.vgsb.fsm = .cmd)
    (hindex : s.vgsb.initiatorIndex = i) :
    (∃ c', VciGcdCoprocessor.transition (cfg.segment i) true (s.ports.toTarget i) (s.coprocs i) =
        .ok c' ∧ Pair ((s.masters i).transition true rand (s.ports.toInitiator i)) c') ∧
      (∃ k, ((s.masters i).transition true rand (s.ports.toInitiator i)).fsm = rspFsm k) ∧
      VciVgsb.CmdEnds s.vgsb s.ports := by
  subst hindex
  obtain ⟨k, hm⟩ := h.linked.cmd hfsm
  have hbusy : s.vgsb.fsm ≠ .idle := by rw [hfsm]; exact VgsbFsm.noConfusion
  have htgt := h.linked.paired hbusy
  have hpair := h.pairs _ hi
  have hwires := h.shown.settled.wires
  have hc := hpair.getCmd fun k' hm' => Pair.cmdFsm_ne_rspFsm k k' (hm.symm.trans hm')
  obtain ⟨hval, hflit, -⟩ := (h.shown.masters _ hi).sends k hm
  obtain ⟨hval', hflit'⟩ := hwires.cmdTo _ (cfg.square ▸ hi) ⟨hfsm, htgt.symm⟩
  have hack : (s.ports.toTarget s.vgsb.initiatorIndex).cmdack = true := by
    rw [(h.shown.coprocs _ hi).cmdack, decide_eq_true_iff]
    exact hc
  have hack' := hwires.cmdFrom _ hi ⟨hfsm, rfl⟩
  rw [htgt, hack] at hack'
  have hlegal := legal_flit (cfg.mapped _ hi) (hflit'.trans hflit)
  have hdata := congrArg CmdFlit.wdata (hflit'.trans hflit)
  obtain ⟨hpair', hm'⟩ := hpair.send rand hm hack' hdata
  refine ⟨⟨_, VciGcdCoprocessor.transition_accept hc (hval'.trans hval) hlegal, hpair'⟩,
    ⟨k, hm'⟩, congrArg CmdFlit.eop hflit, hval, ?_⟩
  rw [htgt]
  exact hack

/-- The pair whose response is on the bus.  It passes at once. -/
theorem Inv.answers (h : Inv cfg s) (hi : i < cfg.n) (hfsm : s.vgsb.fsm = .rsp)
    (hindex : s.vgsb.initiatorIndex = i) :
    (∃ c', VciGcdCoprocessor.transition (cfg.segment i) true (s.ports.toTarget i) (s.coprocs i) =
        .ok c' ∧ Pair ((s.masters i).transition true rand (s.ports.toInitiator i)) c') ∧
      (∀ k, ((s.masters i).transition true rand (s.ports.toInitiator i)).fsm ≠ rspFsm k) ∧
      VciVgsb.RspEnds s.vgsb s.ports := by
  subst hindex
  obtain ⟨k, hm⟩ := h.linked.rsp hfsm
  have hbusy : s.vgsb.fsm ≠ .idle := by rw [hfsm]; exact VgsbFsm.noConfusion
  have htgt := h.linked.paired hbusy
  have hpair := h.pairs _ hi
  have hwires := h.shown.settled.wires
  have hdriven := h.shown.coprocs _ hi
  obtain ⟨hc, htaken⟩ := hpair.taken hm
  have hc' : (s.coprocs s.vgsb.initiatorIndex).vciFsm ≠ .getCmd := by
    rw [hc]
    exact Pair.getCmd_ne_rspFsm k
  have hack := ((h.shown.masters _ hi).waits k hm).2
  have hack' := hwires.rspFrom _ (cfg.square ▸ hi) ⟨hfsm, htgt.symm⟩
  have hval : (s.ports.toTarget s.vgsb.initiatorIndex).rspval = true := by
    rw [hdriven.rspval, decide_eq_true_iff]
    refine ⟨hc', fun hresult => ?_⟩
    cases k with
    | result => exact htaken.1
    | _ => cases hc.symm.trans hresult
  obtain ⟨hval', hflit'⟩ := hwires.rspTo _ hi ⟨hfsm, rfl⟩
  rw [htgt] at hval' hflit'
  obtain ⟨hpair', hnot⟩ := hpair.answer rand hm (hval'.trans hval) hdriven
    (congrArg RspFlit.rdata hflit') (by decide)
  refine ⟨⟨_, VciGcdCoprocessor.transition_release hc' (hack'.trans hack), hpair'⟩, hnot, ?_⟩
  rw [VciVgsb.RspEnds, htgt]
  exact ⟨hdriven.reop.1, hval, hack⟩

/-- Every pair makes its step. -/
theorem Inv.pair (h : Inv cfg s) (hi : i < cfg.n) :
    ∃ c', VciGcdCoprocessor.transition (cfg.segment i) true (s.ports.toTarget i) (s.coprocs i) =
      .ok c' ∧ Pair ((s.masters i).transition true rand (s.ports.toInitiator i)) c' := by
  by_cases hon : s.vgsb.fsm ≠ .idle ∧ s.vgsb.initiatorIndex = i
  · cases hfsm : s.vgsb.fsm with
    | idle => exact absurd hfsm hon.1
    | cmd => exact (h.sends rand hi hfsm hon.2).1
    | rsp => exact (h.answers rand hi hfsm hon.2).1
  · exact (h.apart rand hi hon).1

theorem masterTransitions_eq (rand : Nat → Draw) (hi : i < cfg.n) :
    masterTransitions cfg true rand s i =
      (s.masters i).transition true (rand i) (s.ports.toInitiator i) := if_pos hi

/-- Only a master that sends asks for the bus. -/
theorem Inv.cmdFsm_of_request (h : Inv cfg s) (hi : i < cfg.n)
    (hval : (s.ports.toInitiator i).cmdval = true) : ∃ k, (s.masters i).fsm = cmdFsm k := by
  have hdrives := h.shown.masters i hi
  rcases fsm_cases (s.masters i).fsm with hcmd | ⟨k, hrsp⟩ | hrest
  · exact hcmd
  · rw [(hdrives.waits k hrsp).1] at hval
    cases hval
  · rw [(hdrives.rests hrest).1] at hval
    cases hval

/-- A command is routed to the coprocessor of its master. -/
theorem Inv.routed (h : Inv cfg s) (hi : i < cfg.n) {k : GcdCommand}
    (hm : (s.masters i).fsm = cmdFsm k) :
    cfg.bus.routingTable (s.ports.toInitiator i).address = i := by
  have haddr := congrArg CmdFlit.address ((h.shown.masters i hi).sends k hm).2.1
  refine cfg.routed i hi _ ?_
  rw [show (s.ports.toInitiator i).address = _ from haddr]
  exact (cfg.mapped i hi).contains k

/-- One clock edge keeps the bus in step with the masters. -/
theorem Inv.linked_edge (h : Inv cfg s) (rand : Nat → Draw) {vgsb : VciVgsb}
    (hedge : VciVgsb.Edge cfg.bus s.ports s.vgsb vgsb) {s' : MultiTop} (hvgsb : s'.vgsb = vgsb)
    (hmasters : s'.masters = masterTransitions cfg true rand s) : Linked cfg s' := by
  have hrange : VciVgsb.InRange cfg.bus s'.vgsb := hvgsb ▸ h.linked.inRange.edge hedge
  have hindex : s.vgsb.initiatorIndex < cfg.n := h.linked.inRange.initiator cfg.pos
  -- A master that is not on the bus does not wait after the edge.
  have hapart : ∀ i < cfg.n, ¬ (s.vgsb.fsm ≠ .idle ∧ s.vgsb.initiatorIndex = i) →
      ∀ k, (s'.masters i).fsm ≠ rspFsm k := by
    intro i hi hoff
    rw [hmasters, masterTransitions_eq rand hi]
    exact (h.apart (rand i) hi hoff).2.1
  cases hedge with
  | idle hfsm hnone =>
      refine ⟨hrange, ?_, ?_, ?_, ?_⟩ <;> rw [hvgsb]
      · exact fun hbusy => absurd hfsm hbusy
      · exact fun hcmd => nomatch hfsm.symm.trans hcmd
      · exact fun hrsp => nomatch hfsm.symm.trans hrsp
      · exact fun i hi c hm => absurd hm (hapart i hi (fun hon => hon.1 hfsm) c)
  | @grant ini hfsm hsome =>
      have hini : ini < cfg.n := h.linked.inRange.of_first hsome
      have hval : (s.ports.toInitiator ini).cmdval = true := Cyclic.first_req hindex hsome
      obtain ⟨k, hm⟩ := h.cmdFsm_of_request hini hval
      refine ⟨hrange, ?_, ?_, ?_, ?_⟩ <;> rw [hvgsb]
      · exact fun _ => h.routed hini hm
      · intro _
        refine ⟨k, ?_⟩
        rw [hmasters]
        simp only [VciVgsb.granted]
        rw [masterTransitions_eq rand hini]
        exact (h.apart (rand ini) hini fun hon => hon.1 hfsm).2.2 k hm
      · exact fun hrsp => nomatch hrsp
      · exact fun i hi c hm => absurd hm (hapart i hi (fun hon => hon.1 hfsm) c)
  | cmdStay hfsm hends => exact absurd (h.sends (rand 0) hindex hfsm rfl).2.2 hends
  | cmdEnd hfsm hends =>
      have hbusy : s.vgsb.fsm ≠ .idle := by rw [hfsm]; exact VgsbFsm.noConfusion
      refine ⟨hrange, ?_, ?_, ?_, ?_⟩ <;> rw [hvgsb]
      · exact fun _ => h.linked.paired hbusy
      · exact fun hcmd => nomatch hcmd
      · intro _
        rw [hmasters, masterTransitions_eq rand hindex]
        exact (h.sends _ hindex hfsm rfl).2.1
      · intro i hi c hm
        by_cases heq : s.vgsb.initiatorIndex = i
        · exact ⟨rfl, heq⟩
        · exact absurd hm (hapart i hi (fun hon => heq hon.2) c)
  | rspStay hfsm hends => exact absurd (h.answers (rand 0) hindex hfsm rfl).2.2 hends
  | rspEnd hfsm hends =>
      refine ⟨hrange, ?_, ?_, ?_, ?_⟩ <;> rw [hvgsb]
      · exact fun hbusy => absurd rfl hbusy
      · exact fun hcmd => nomatch hcmd
      · exact fun hrsp => nomatch hrsp
      · intro i hi c hm
        by_cases heq : s.vgsb.initiatorIndex = i
        · rw [hmasters, masterTransitions_eq rand hi] at hm
          exact absurd hm ((h.answers (rand i) hi hfsm heq).2.1 c)
        · exact absurd hm (hapart i hi (fun hon => heq hon.2) c)

/-- A period from a state in which the invariant holds does not halt, and keeps it. -/
theorem Inv.cycle (h : Inv cfg s) (rand : Nat → Draw) :
    ∃ s', MultiTop.cycle cfg true rand s = .ok s' ∧ Inv cfg s' := by
  have hstep : ∀ i, ∃ c', i < cfg.n →
      VciGcdCoprocessor.transition (cfg.segment i) true (s.ports.toTarget i) (s.coprocs i) =
        .ok c' ∧
      Pair ((s.masters i).transition true (rand i) (s.ports.toInitiator i)) c' := by
    intro i
    by_cases hi : i < cfg.n
    · obtain ⟨c', hc'⟩ := h.pair (rand i) hi
      exact ⟨c', fun _ => hc'⟩
    · exact ⟨s.coprocs i, fun hi' => absurd hi' hi⟩
  choose f hf using hstep
  have hok := coprocTransitions_eq_ok fun i hi => (hf i hi).1
  refine ⟨_, by rw [MultiTop.cycle, hok]; rfl, fun i hi => ?_, ?_, shown_drivePorts _⟩
  · simp only [drivePorts, masterTransitions_eq rand hi, if_pos hi]
    exact (hf i hi).2
  · exact h.linked_edge rand (VciVgsb.transition_edge cfg.bus s.ports s.vgsb) rfl rfl

theorem reachable_inv (h : (system cfg).Reachable s) : Inv cfg s := by
  refine h.invariant (fun _ hinit => inv_init hinit) fun s rand s' hinv hstep => ?_
  obtain ⟨s'', hok, hinv'⟩ := hinv.cycle rand
  have heq : s'' = s' := Except.ok.inj (hok.symm.trans hstep)
  exact heq ▸ hinv'

/-- For every number of masters, in every reachable state: a displayed result is the
gcd of the operands of its master, and no coprocessor halts at the next edge. -/
theorem displayed_result_is_gcd (h : (system cfg).Reachable s) :
    ∀ i < cfg.n,
      ((s.masters i).fsm = .display →
        (s.masters i).res.toNat = Nat.gcd (s.masters i).opa.toNat (s.masters i).opb.toNat) ∧
      ∃ c, VciGcdCoprocessor.transition (cfg.segment i) true (s.ports.toTarget i) (s.coprocs i) =
        .ok c := by
  intro i hi
  have hinv := reachable_inv h
  refine ⟨fun hm => ?_, ?_⟩
  · cases hinv.pairs i hi with
    | random hm' _ _ => cases hm.symm.trans hm'
    | sends k hm' _ _ => cases k <;> cases hm.symm.trans hm'
    | waits k hm' _ _ => cases k <;> cases hm.symm.trans hm'
    | display _ _ _ hres => exact hres
  · obtain ⟨c, hc, -⟩ := hinv.pair (0, 0) hi
    exact ⟨c, hc⟩

/-! ## The platform with three masters -/

/-- The routing table of `tp2_multi_top`: the eight most significant bits of the address. -/
def tp2RoutingTable (a : BitVec 32) : Nat :=
  match a.toNat / 0x1000000 with
  | 0x10 => 1
  | 0x20 => 2
  | _ => 0

/-- The routing bits of an address in one of the three segments. -/
theorem tp2RoutingTable_eq {i : Nat} (hi : i < 3) (a : BitVec 32)
    (h : Segment.contains ⟨BitVec.ofNat 64 (0x10000000 * i), 16⟩ (a.setWidth 64) = true) :
    tp2RoutingTable a = i := by
  have ha := a.isLt
  simp only [Segment.contains, Bool.and_eq_true, Bool.or_eq_true, decide_eq_true_iff,
    BitVec.le_def, BitVec.lt_def, BitVec.toNat_setWidth, BitVec.toNat_add, BitVec.toNat_ofNat,
    show (16 : BitVec 64).toNat = 16 from rfl] at h
  have hdiv : a.toNat / 0x1000000 = 0x10 * i := by omega
  unfold tp2RoutingTable
  rw [hdiv]
  have hcases : i = 0 ∨ i = 1 ∨ i = 2 := by omega
  rcases hcases with rfl | rfl | rfl <;> rfl

def tp2MultiTop : MultiTopConfig where
  bus :=
    { routingTable := tp2RoutingTable
      nbInitiator := 3
      nbTarget := 3
      isAllBelow := fun a => by unfold tp2RoutingTable; split <;> decide }
  master i := ⟨BitVec.ofNat 12 i, BitVec.ofNat 32 (0x10000000 * i)⟩
  segment i := ⟨BitVec.ofNat 64 (0x10000000 * i), 16⟩
  square := rfl
  pos := by decide
  mapped i hi := by
    have hcases : i = 0 ∨ i = 1 ∨ i = 2 := by change i < 3 at hi; omega
    rcases hcases with rfl | rfl | rfl <;> exact ⟨rfl, by decide, by decide⟩
  routed _ hi a h := tp2RoutingTable_eq hi a h

/-- A period, from a state in which it does not halt. -/
def advance (cfg : MultiTopConfig) (s : MultiTop) (rand : Nat → Draw) : MultiTop :=
  (cycle cfg true rand s).toOption.getD s

theorem reachable_advance (h : (system cfg).Reachable s) (rand : Nat → Draw) :
    (system cfg).Reachable (advance cfg s rand) := by
  obtain ⟨s', hok, -⟩ := (reachable_inv h).cycle rand
  refine .step h (i := rand) ?_
  show cycle cfg true rand s = _
  rw [advance, hok]
  rfl

/-- A period under reset. -/
def reset (cfg : MultiTopConfig) (s₀ : MultiTop) : MultiTop :=
  (cycle cfg false (fun _ => (0, 0)) s₀).toOption.getD s₀

/-- No coprocessor halts under reset. -/
theorem reachable_reset (s₀ : MultiTop) : (system cfg).Reachable (reset cfg s₀) := by
  have hok := @coprocTransitions_eq_ok cfg false s₀ _ cfg.n fun _ _ => rfl
  refine .init ⟨s₀, fun _ => (0, 0), ?_⟩
  rw [reset, cycle, hok]
  rfl

/-- The first `t` periods of the platform with three masters.  The registers start
at zero, and every master draws 4 and 6. -/
def tp2State (t : Nat) : MultiTop :=
  iter (advance tp2MultiTop)
    (reset tp2MultiTop
      { masters := fun _ => ⟨.random, 0, 0, 0, 0, 0⟩
        coprocs := fun _ => ⟨.getCmd, .idle, 0, 0, 0, 0, 0⟩
        vgsb := ⟨.idle, 0, 0, fun _ _ => 0⟩
        ports := ⟨fun _ => .undriven, fun _ => .undriven⟩ })
    (fun _ _ => (4, 6)) t

theorem reachable_tp2State : ∀ t, (system tp2MultiTop).Reachable (tp2State t)
  | 0 => reachable_reset _
  | t + 1 => reachable_advance (reachable_tp2State t) _

/-- The second master displays its first result after forty periods. -/
theorem tp2State_displays :
    ((tp2State 40).masters 1).fsm = .display ∧
      ((tp2State 40).masters 1).res.toNat =
        Nat.gcd ((tp2State 40).masters 1).opa.toNat ((tp2State 40).masters 1).opb.toNat := by
  have hdisplay : ((tp2State 40).masters 1).fsm = .display := by decide +kernel
  exact ⟨hdisplay, (displayed_result_is_gcd (reachable_tp2State 40) 1 (by decide)).1 hdisplay⟩

end MultiTop

end SmcTp.Vci
