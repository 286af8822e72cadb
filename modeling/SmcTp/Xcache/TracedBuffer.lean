import SmcTp.Clocked.History
import SmcTp.Xcache.CommandEdge
import SmcTp.Xcache.ReadEdge
import SmcTp.Xcache.Reads

/-!
# The calls of the write buffer

The wrapper calls a traced write buffer as it calls any write buffer, so that the calls in its
log are those of the source, in their order.

*Erasure.*  The log is never read.  A node with a traced write buffer goes through the same
cycles as the node without its log (`erase_next`), and every state of the wrapper is that of
a traced one (`exists_traced`).
-/

namespace SmcTp.Xcache

open Vci Clocked

variable {p : VciParams} {F C W : Type}

/-! ## Traced components -/

/-- The components with a traced write buffer. -/
def Parts.traced (parts : Parts F C W) : Parts F C (Traced W) where
  fifo := parts.fifo
  cache := parts.cache
  wbuf := parts.wbuf.traced

@[simp] theorem traced_fifo (parts : Parts F C W) : parts.traced.fifo = parts.fifo := rfl

@[simp] theorem traced_cache (parts : Parts F C W) : parts.traced.cache = parts.cache := rfl

@[simp] theorem traced_wbuf (parts : Parts F C W) : parts.traced.wbuf = parts.wbuf.traced := rfl

/-! ## Erasure -/

namespace XcacheWrapper

/-- The registers without the log. -/
def erase (s : XcacheWrapper F C (Traced W)) : XcacheWrapper F C W where
  icacheFsm := s.icacheFsm
  dcacheFsm := s.dcacheFsm
  ins := s.ins
  data := s.data
  dataSave := s.dataSave
  cmdFsm := s.cmdFsm
  cmdMin := s.cmdMin
  cmdMax := s.cmdMax
  cmdCpt := s.cmdCpt
  rspFsm := s.rspFsm
  rspCpt := s.rspCpt
  wbuf := s.wbuf.wbuf
  icache := s.icache
  dcache := s.dcache

/-- The registers with an empty log. -/
def withCalls (s : XcacheWrapper F C W) : XcacheWrapper F C (Traced W) where
  icacheFsm := s.icacheFsm
  dcacheFsm := s.dcacheFsm
  ins := s.ins
  data := s.data
  dataSave := s.dataSave
  cmdFsm := s.cmdFsm
  cmdMin := s.cmdMin
  cmdMax := s.cmdMax
  cmdCpt := s.cmdCpt
  rspFsm := s.rspFsm
  rspCpt := s.rspCpt
  wbuf := ⟨s.wbuf, []⟩
  icache := s.icache
  dcache := s.dcache

end XcacheWrapper

/-- A node without the log. -/
def Node.erase (n : Node p F C (Traced W)) : Node p F C W := ⟨n.xc.erase, n.sig, n.net, n.log⟩

def DcacheOut.erase (d : DcacheOut F C (Traced W)) : DcacheOut F C W :=
  ⟨d.fsm, d.side, d.save, d.cache, d.wbuf.wbuf, d.get, d.drsp, d.raised, d.effects⟩

def CmdOut.erase (cmd : CmdOut (Traced W)) : CmdOut W :=
  ⟨cmd.fsm, cmd.min, cmd.max, cmd.cpt, cmd.wbuf.wbuf, cmd.grant⟩

def RspOut.erase (rsp : RspOut (Traced W)) : RspOut W :=
  ⟨rsp.fsm, rsp.cpt, rsp.wbuf.wbuf, rsp.error, rsp.put, rsp.writeBerr⟩

def XcacheOut.erase (out : XcacheOut F C (Traced W)) : XcacheOut F C W :=
  ⟨out.state.erase, out.irsp, out.drsp, out.writeBerr, out.raised, out.effects⟩

section Erasure

variable (cfg : XcacheConfig p) (parts : Parts F C W)

theorem erase_icacheTransition (ireq : InsRequest) (fsm : IcacheFsm) (side : Side F) (cache : C) :
    icacheTransition cfg parts.traced ireq fsm side cache =
      icacheTransition cfg parts ireq fsm side cache := by
  cases fsm with
  | idle => rfl
  | read f => cases f <;> rfl

theorem erase_dcacheRequest (dreq : DataRequest) (side : Side F) (save : DataSave) (cache : C)
    (wbuf : Traced W) :
    (dcacheRequest cfg parts.traced dreq side save cache wbuf).map DcacheOut.erase =
      dcacheRequest cfg parts dreq side save cache wbuf.wbuf := by
  cases hvalid : dreq.valid with
  | false =>
      simp only [dcacheRequest, hvalid]
      rfl
  | true =>
      cases htype : dreq.type <;> simp only [dcacheRequest, hvalid, htype, traced_cache] <;>
        split_ifs <;> rfl

theorem erase_dcacheTransition (dreq : DataRequest) (fsm : DcacheFsm) (side : Side F)
    (save : DataSave) (cache : C) (wbuf : Traced W) :
    (dcacheTransition cfg parts.traced dreq fsm side save cache wbuf).map DcacheOut.erase =
      dcacheTransition cfg parts dreq fsm side save cache wbuf.wbuf := by
  cases fsm with
  | idle => exact erase_dcacheRequest cfg parts dreq side save cache wbuf
  | writeUpdt => rfl
  | writeReq =>
      cases haccepted : (parts.wbuf.write side.addrSave save.be save.wdata true wbuf.wbuf).1 with
      | true =>
          simp only [dcacheTransition, traced_wbuf, WbufOps.traced, haccepted, if_true]
          exact erase_dcacheRequest cfg parts dreq side save cache _
      | false =>
          simp only [dcacheTransition, traced_wbuf, WbufOps.traced, haccepted, Bool.false_eq_true,
            if_false]
          rfl
  | read f => cases f <;> rfl
  | xtnHit =>
      cases hhit : (parts.cache.read save.wdata cache).1.hit <;>
        simp only [dcacheTransition, traced_cache, hhit] <;> rfl
  | xtnInval => rfl
  | xtnSync =>
      cases hempty : parts.wbuf.empty wbuf.wbuf <;>
        simp only [dcacheTransition, traced_wbuf, WbufOps.traced, hempty] <;> rfl

theorem erase_cmdTransition (cmdack : Bool) (ins data : Side F) (fsm : CmdFsm)
    (min max cpt : Nat) (wbuf : Traced W) :
    (cmdTransition parts.traced cmdack ins data fsm min max cpt wbuf).erase =
      cmdTransition parts cmdack ins data fsm min max cpt wbuf.wbuf := by
  cases fsm with
  | idle =>
      cases hdata : data.missReq && parts.wbuf.miss data.addrSave wbuf.wbuf with
      | true =>
          simp only [cmdTransition, traced_wbuf, WbufOps.traced, hdata]
          rfl
      | false =>
          cases hins : ins.missReq && parts.wbuf.miss ins.addrSave wbuf.wbuf with
          | true =>
              simp only [cmdTransition, traced_wbuf, WbufOps.traced, hdata, hins]
              rfl
          | false =>
              cases hrok : (parts.wbuf.rok wbuf.wbuf).1 with
              | some burst =>
                  simp only [cmdTransition, traced_wbuf, WbufOps.traced, hdata, hins, hrok]
                  rfl
              | none =>
                  simp only [cmdTransition, traced_wbuf, WbufOps.traced, hdata, hins, hrok]
                  cases data.uncReq <;> cases ins.uncReq <;> rfl
  | dataWrite =>
      simp only [cmdTransition, traced_wbuf, WbufOps.traced]
      split_ifs <;> rfl
  | read c k => rfl

theorem erase_rspTransition (wok : Client → Bool) (sig : VciSignals p) (fsm : RspFsm) (cpt : Nat)
    (wbuf : Traced W) :
    (rspTransition cfg parts.traced wok sig fsm cpt wbuf).map RspOut.erase =
      rspTransition cfg parts wok sig fsm cpt wbuf.wbuf := by
  cases hval : sig.rspval with
  | false =>
      simp only [rspTransition, hval]
      rfl
  | true =>
      cases fsm with
      | idle =>
          simp only [rspTransition, hval]
          rfl
      | dataWrite =>
          simp only [rspTransition, hval, traced_wbuf, WbufOps.traced]
          split_ifs <;> rfl
      | read c k =>
          cases k <;> simp only [rspTransition, hval] <;> split_ifs <;> rfl

/-- A cycle in which no automaton stops. -/
theorem transition_eq_ok {ireq : InsRequest} {dreq : DataRequest} {sig : VciSignals p}
    {s : XcacheWrapper F C W} {d : DcacheOut F C W} {rsp : RspOut W}
    (hd : dcacheTransition cfg parts dreq s.dcacheFsm s.data s.dataSave s.dcache s.wbuf = .ok d)
    (hrsp : rspTransition cfg parts (fun c => parts.fifo.wok (s.side c).fifo) sig s.rspFsm
      s.rspCpt (cmdTransition parts sig.cmdack s.ins s.data s.cmdFsm s.cmdMin s.cmdMax s.cmdCpt
        (parts.wbuf.update d.wbuf)).wbuf = .ok rsp) :
    s.transition cfg parts ireq dreq sig =
      .ok (.ofParts parts (icacheTransition cfg parts ireq s.icacheFsm s.ins s.icache) d
        (cmdTransition parts sig.cmdack s.ins s.data s.cmdFsm s.cmdMin s.cmdMax s.cmdCpt
          (parts.wbuf.update d.wbuf)) rsp) := by
  simp only [XcacheWrapper.transition, hd, bind, Except.bind, hrsp]

theorem transition_eq_error {ireq : InsRequest} {dreq : DataRequest} {sig : VciSignals p}
    {s : XcacheWrapper F C W} {halt : Halt}
    (h : dcacheTransition cfg parts dreq s.dcacheFsm s.data s.dataSave s.dcache s.wbuf =
        .error halt ∨
      ∃ d, dcacheTransition cfg parts dreq s.dcacheFsm s.data s.dataSave s.dcache s.wbuf =
          .ok d ∧
        rspTransition cfg parts (fun c => parts.fifo.wok (s.side c).fifo) sig s.rspFsm s.rspCpt
          (cmdTransition parts sig.cmdack s.ins s.data s.cmdFsm s.cmdMin s.cmdMax s.cmdCpt
            (parts.wbuf.update d.wbuf)).wbuf = .error halt) :
    s.transition cfg parts ireq dreq sig = .error halt := by
  rcases h with hd | ⟨d, hd, hrsp⟩
  · simp only [XcacheWrapper.transition, hd, bind, Except.bind]
  · simp only [XcacheWrapper.transition, hd, bind, Except.bind, hrsp]

theorem erase_transition (ireq : InsRequest) (dreq : DataRequest) (sig : VciSignals p)
    (s : XcacheWrapper F C (Traced W)) :
    (s.transition cfg parts.traced ireq dreq sig).map XcacheOut.erase =
      s.erase.transition cfg parts ireq dreq sig := by
  have hside : (fun c => parts.fifo.wok (s.erase.side c).fifo) =
      fun c => parts.fifo.wok (s.side c).fifo := by
    funext c
    cases c <;> rfl
  have hdata : (dcacheTransition cfg parts.traced dreq s.dcacheFsm s.data s.dataSave s.dcache
      s.wbuf).map DcacheOut.erase = dcacheTransition cfg parts dreq s.erase.dcacheFsm s.erase.data
        s.erase.dataSave s.erase.dcache s.erase.wbuf :=
    erase_dcacheTransition cfg parts dreq s.dcacheFsm s.data s.dataSave s.dcache s.wbuf
  cases hd : dcacheTransition cfg parts.traced dreq s.dcacheFsm s.data s.dataSave s.dcache
      s.wbuf with
  | error halt =>
      rw [hd] at hdata
      rw [transition_eq_error cfg parts.traced (.inl hd),
        transition_eq_error cfg parts (.inl hdata.symm)]
      rfl
  | ok d =>
      rw [hd] at hdata
      generalize hcmd : cmdTransition parts.traced sig.cmdack s.ins s.data s.cmdFsm s.cmdMin
        s.cmdMax s.cmdCpt (parts.traced.wbuf.update d.wbuf) = cmd
      have hcmd' : cmdTransition parts sig.cmdack s.erase.ins s.erase.data s.erase.cmdFsm
          s.erase.cmdMin s.erase.cmdMax s.erase.cmdCpt (parts.wbuf.update d.erase.wbuf) =
            cmd.erase := by
        rw [← hcmd]
        exact (erase_cmdTransition parts sig.cmdack s.ins s.data s.cmdFsm s.cmdMin s.cmdMax
          s.cmdCpt (parts.traced.wbuf.update d.wbuf)).symm
      have hrsp : rspTransition cfg parts (fun c => parts.fifo.wok (s.erase.side c).fifo) sig
          s.erase.rspFsm s.erase.rspCpt cmd.erase.wbuf =
            (rspTransition cfg parts.traced (fun c => parts.fifo.wok (s.side c).fifo) sig s.rspFsm
              s.rspCpt cmd.wbuf).map RspOut.erase := by
        rw [hside]
        exact (erase_rspTransition cfg parts _ sig s.rspFsm s.rspCpt cmd.wbuf).symm
      cases hr : rspTransition cfg parts.traced (fun c => parts.fifo.wok (s.side c).fifo) sig
          s.rspFsm s.rspCpt cmd.wbuf with
      | error halt =>
          rw [hr, ← hcmd'] at hrsp
          rw [transition_eq_error cfg parts (.inr ⟨d.erase, hdata.symm, hrsp⟩),
            transition_eq_error cfg parts.traced (.inr ⟨d, hd, hcmd ▸ hr⟩)]
          rfl
      | ok rsp =>
          rw [hr, ← hcmd'] at hrsp
          rw [transition_eq_ok cfg parts hdata.symm hrsp, hcmd',
            transition_eq_ok cfg parts.traced hd (hcmd ▸ hr), hcmd, erase_icacheTransition]
          rfl

/-- A node goes through the cycles of the node without the log. -/
theorem erase_next (i : Stimulus p) (n : Node p F C (Traced W)) :
    (n.next cfg parts.traced i).map (fun r => (r.1.erase, r.2.erase)) =
      n.erase.next cfg parts i := by
  have htransition := erase_transition cfg parts i.ireq i.dreq (n.wires cfg parts.traced i) n.xc
  have hwires : n.erase.wires cfg parts i = n.wires cfg parts.traced i := rfl
  have hxc : n.erase.xc = n.xc.erase := rfl
  have hfsm : ∀ (s : XcacheWrapper F C (Traced W)) c, s.erase.readFsm c = s.readFsm c := by
    intro s c
    cases c <;> rfl
  simp only [Node.next, hwires, hxc, ← htransition]
  cases n.xc.transition cfg parts.traced i.ireq i.dreq (n.wires cfg parts.traced i) with
  | error halt => rfl
  | ok out =>
      have hstate : ∀ c, out.erase.state.readFsm c = out.state.readFsm c := hfsm out.state
      simp only [Except.map, hfsm, hstate]
      rfl

end Erasure

/-- Every state of the wrapper is one that a wrapper with a traced write buffer reaches. -/
theorem exists_traced {cfg : XcacheConfig p} {parts : Parts F C W} {contract : Contract p}
    {n : Node p F C W} (hn : (system cfg parts contract).Reachable n) :
    ∃ m, (system cfg parts.traced contract).Reachable m ∧ m.erase = n := by
  refine System.Reachable.lift (S := system cfg parts.traced contract)
    (T := system cfg parts contract) (f := Node.erase) (fun n hstart => ?_)
    (fun m i n' hstep => ?_) hn
  · obtain ⟨⟨s, hxc⟩, hnet, hlog⟩ := hstart
    refine ⟨⟨s.withCalls.reset parts.traced, n.sig, n.net, n.log⟩,
      ⟨⟨s.withCalls, rfl⟩, hnet, hlog⟩, ?_⟩
    obtain ⟨xc, sig, net, log⟩ := n
    obtain rfl : xc = s.reset parts := hxc
    rfl
  · obtain ⟨hlegal, out, hnext⟩ := hstep
    have herase := erase_next cfg parts i m
    rw [hnext] at herase
    cases hm : m.next cfg parts.traced i with
    | error halt =>
        rw [hm] at herase
        cases herase
    | ok r =>
        rw [hm] at herase
        exact ⟨r.1, ⟨hlegal, r.2, hm⟩, congrArg Prod.fst (Except.ok.inj herase)⟩

/-- A history that is kept next to the traced states. -/
theorem exists_traced_history {τ : Type} {cfg : XcacheConfig p} {parts : Parts F C W}
    {contract : Contract p} {start : τ}
    {note : Node p F C (Traced W) → Stimulus p → Node p F C (Traced W) → τ → τ}
    {n : Node p F C W} (hn : (system cfg parts contract).Reachable n) :
    ∃ m h, ((system cfg parts.traced contract).withHistory start note).Reachable (m, h) ∧
      m.erase = n := by
  obtain ⟨m, hm, herase⟩ := exists_traced hn
  obtain ⟨h, hh⟩ := hm.exists_history
  exact ⟨m, h, hh, herase⟩

/-- The invariant of the reads does not see the log. -/
theorem traced_inv {cfg : XcacheConfig p} {parts : Parts F C W} {contents : F → List Word}
    (hfifo : FifoLaws parts.fifo contents)
    (hindex : ∀ w, parts.wbuf.getIndex w < cfg.wbufNlines) {n : Node p F C (Traced W)}
    (hn : ((system cfg parts.traced (AnyErrors cfg)).under (Shows (ErrorsLast cfg))).Reachable n) :
    Inv cfg contents n := by
  have hlaws : FifoLaws parts.traced.fifo contents := hfifo
  have hlines : ∀ w, parts.traced.wbuf.getIndex w < cfg.wbufNlines := fun w => hindex w.wbuf
  exact reachable_inv hlaws hlines (errorsLast_clean cfg) (reachable_shows_iff.mp hn)

/-! ## The calls of an edge -/

/-- What the command automaton does with a burst, and its calls. -/
inductive BurstStep (ops : WbufOps W) (cmdack : Bool) (s : XcacheWrapper F C (Traced W))
    (cmd : CmdOut (Traced W)) : List WbufCall → Prop where
  | away (hfsm : s.cmdFsm ≠ .dataWrite) (hnext : cmd.fsm ≠ .dataWrite) :
      BurstStep ops cmdack s cmd []
  | opens (first last : Nat) (w : W) (hfsm : s.cmdFsm ≠ .dataWrite)
      (hrok : (ops.rok w).1 = some (first, last)) (hnext : cmd.fsm = .dataWrite)
      (hmin : cmd.min = first) (hmax : cmd.max = last) (hcpt : cmd.cpt = first) :
      BurstStep ops cmdack s cmd [.rok first last]
  | wait (hfsm : s.cmdFsm = .dataWrite) (hack : cmdack = false) (hnext : cmd.fsm = .dataWrite)
      (hmin : cmd.min = s.cmdMin) (hmax : cmd.max = s.cmdMax) (hcpt : cmd.cpt = s.cmdCpt) :
      BurstStep ops cmdack s cmd []
  | word (hfsm : s.cmdFsm = .dataWrite) (hack : cmdack = true) (hmore : s.cmdCpt ≠ s.cmdMax)
      (hnext : cmd.fsm = .dataWrite) (hmin : cmd.min = s.cmdMin) (hmax : cmd.max = s.cmdMax)
      (hcpt : cmd.cpt = s.cmdCpt + 1) : BurstStep ops cmdack s cmd []
  | last (hfsm : s.cmdFsm = .dataWrite) (hack : cmdack = true) (hlast : s.cmdCpt = s.cmdMax)
      (hnext : cmd.fsm ≠ .dataWrite) : BurstStep ops cmdack s cmd [.sent]

theorem traced_rok {ops : WbufOps W} {w w' : Traced W} {burst : Option (Nat × Nat)}
    (h : ops.traced.rok w = (burst, w')) :
    (ops.rok w.wbuf).1 = burst ∧
      w'.calls = w.calls ++ (burst.map fun b => WbufCall.rok b.1 b.2).toList := by
  cases h
  exact ⟨rfl, rfl⟩

theorem CmdStep.traced {parts : Parts F C W} {cmdack : Bool}
    {s : XcacheWrapper F C (Traced W)} {wbuf : Traced W} {cmd : CmdOut (Traced W)}
    (h : CmdStep parts.traced cmdack s.cmdMin s.cmdMax s.cmdCpt wbuf s.cmdFsm cmd) :
    ∃ calls, cmd.wbuf.calls = wbuf.calls ++ calls ∧
      BurstStep parts.wbuf cmdack s cmd calls := by
  generalize hfsm : s.cmdFsm = fsm at h
  have hidle : fsm = .idle → s.cmdFsm ≠ .dataWrite := fun hf => by simp [hfsm, hf]
  cases h with
  | grant c k wbuf' hwbuf =>
      refine ⟨[], ?_, .away (hidle rfl) CmdFsm.noConfusion⟩
      rcases hwbuf with rfl | hwbuf
      · exact (List.append_nil _).symm
      · exact (traced_rok hwbuf).2
  | burst first last wbuf' hoffer =>
      obtain ⟨hburst, hcalls⟩ := traced_rok hoffer
      exact ⟨[.rok first last], hcalls,
        .opens first last wbuf.wbuf (hidle rfl) hburst rfl rfl rfl rfl⟩
  | rest wbuf' hnone =>
      exact ⟨[], (traced_rok hnone).2, .away (hidle rfl) CmdFsm.noConfusion⟩
  | wait hack => exact ⟨[], (List.append_nil _).symm, .wait hfsm hack rfl rfl rfl rfl⟩
  | next hack hmore =>
      exact ⟨[], (List.append_nil _).symm, .word hfsm hack hmore rfl rfl rfl rfl⟩
  | last hack hlast => exact ⟨[.sent], rfl, .last hfsm hack hlast CmdFsm.noConfusion⟩
  | send c k =>
      refine ⟨[], (List.append_nil _).symm, .away (by simp [hfsm]) ?_⟩
      dsimp only
      split <;> exact CmdFsm.noConfusion

/-- The completion of a cycle. -/
def completes (s : XcacheWrapper F C W) (i : Stimulus p) : List Nat :=
  if s.rspFsm = .dataWrite ∧ i.rspval then [i.flit.rtrdid.toNat - (1 <<< (p.T - 1))] else []

theorem RspStep.traced {cfg : XcacheConfig p} {parts : Parts F C W} {i : Stimulus p}
    {n : Node p F C (Traced W)} {wbuf : Traced W} {rsp : RspOut (Traced W)}
    (h : RspStep parts.traced (n.wires cfg parts.traced i) n.xc.rspFsm wbuf rsp) :
    rsp.wbuf.calls = wbuf.calls ++ (completes n.xc i).map .completed := by
  have hval' : (n.wires cfg parts.traced i).rspval = i.rspval := rfl
  cases h with
  | keep hquiet hwbuf =>
      have hnone : completes n.xc i = [] := by
        refine if_neg fun ⟨hfsm, hval⟩ => ?_
        cases (hquiet hfsm).symm.trans (hval'.trans hval)
      rw [hwbuf, hnone]
      exact (List.append_nil _).symm
  | complete hfsm hval hwbuf =>
      have hone : completes n.xc i = [i.flit.rtrdid.toNat - (1 <<< (p.T - 1))] :=
        if_pos ⟨hfsm, hval⟩
      rw [hwbuf, hone]
      rfl

/-- The call of the data automaton. -/
def storeCall (parts : Parts F C W) (s : XcacheWrapper F C (Traced W)) : List WbufCall :=
  if s.dcacheFsm = .writeReq then
    [.write s.data.addrSave s.dataSave.be s.dataSave.wdata true (s.stored parts.traced).1]
  else []

theorem stored_calls (parts : Parts F C W) (s : XcacheWrapper F C (Traced W)) :
    (s.stored parts.traced).2.calls = s.wbuf.calls ++ storeCall parts s := by
  unfold storeCall
  split
  next hfsm => simp only [XcacheWrapper.stored, hfsm, if_true, traced_wbuf, WbufOps.traced]
  next hfsm => simp only [XcacheWrapper.stored, hfsm, if_false, List.append_nil]

/-- The calls of an edge: those of the data, the command and the response automaton. -/
theorem next_calls {cfg : XcacheConfig p} {parts : Parts F C W} {i : Stimulus p}
    {n n' : Node p F C (Traced W)} {out : XcacheOut F C (Traced W)}
    (h : n.next cfg parts.traced i = .ok (n', out)) :
    ∃ cmd rsp calls, BusEdge cfg parts.traced i n n' cmd rsp ∧
      BurstStep parts.wbuf i.cmdack n.xc cmd calls ∧
      n'.xc.wbuf.calls = n.xc.wbuf.calls ++
        (storeCall parts n.xc ++ calls ++ (completes n.xc i).map .completed) := by
  obtain ⟨cmd, rsp, hbus⟩ := next_bus h
  obtain ⟨calls, hcalls, hstep⟩ := hbus.command.traced
  refine ⟨cmd, rsp, calls, hbus, hstep, ?_⟩
  rw [hbus.wbuf, hbus.response.traced, hcalls]
  show (n.xc.stored parts.traced).2.calls ++ calls ++ _ = _
  rw [stored_calls, List.append_assoc, List.append_assoc, List.append_assoc]

/-! ## A small wrapper -/

/-- The small wrapper with a traced write buffer, for lines of some number of words. -/
def smallTraced (words : Nat) : Node smallParam (List Word) SetCache (Traced LineBuffer) where
  xc := smallWrapper.withCalls.reset (smallParts words).traced
  sig := .undriven
  net := ⟨[], none⟩
  log _ := ⟨[], .blank⟩

theorem smallTraced_start (words : Nat) : (smallTraced words).Start (smallParts words).traced :=
  ⟨⟨smallWrapper.withCalls, rfl⟩, rfl, fun _ => rfl⟩

theorem smallTraced_start_merging (words : Nat) :
    (smallTraced words).Start (mergingParts words).traced :=
  ⟨⟨smallWrapper.withCalls, rfl⟩, rfl, fun _ => rfl⟩

/-- The command of a burst of one word. -/
def wordCommand (addr : Addr) (data : Word) : CmdFlit smallParam :=
  ⟨addr, data, 0xF, 4, 0, 4, 0, Cmd.write, true, true⟩

end SmcTp.Xcache
