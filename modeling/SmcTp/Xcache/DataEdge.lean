import SmcTp.Xcache.Memory
import SmcTp.Xcache.Reads

/-!
# What one edge does to the data cache

`DataEdge` lists what the data automaton can do in a cycle when the processor asks for
reads, writes, LL and SC to cacheable addresses only.  A request is taken in the idle
state, and in the state that writes into the write buffer if the buffer accepts
(`XcacheWrapper.Takes`).
-/

namespace SmcTp.Xcache

open Vci Clocked

variable {p : VciParams} {F C W : Type}

/-- What the data automaton can do. -/
inductive DataEdge (cfg : XcacheConfig p) (parts : Parts F C W) (q : DataRequest)
    (s : XcacheWrapper F C W) (d : DcacheOut F C W) : Prop where
  | rest (htakes : s.Takes parts) (hvalid : q.valid = false) (hnext : d.fsm = .idle)
      (hcache : d.cache = s.dcache) (hdrsp : d.drsp = .none) (hraised : d.raised = none)
  | readHit (htakes : s.Takes parts) (hvalid : q.valid = true) (htype : q.type = .read)
      (hhit : (parts.cache.read q.addr s.dcache).1.hit = true) (hnext : d.fsm = .idle)
      (hcache : d.cache = (parts.cache.read q.addr s.dcache).2)
      (hdrsp : d.drsp = .ok (parts.cache.read q.addr s.dcache).1.rdata)
      (hraised : d.raised = none)
  | readMiss (htakes : s.Takes parts) (hvalid : q.valid = true) (htype : q.type = .read)
      (hhit : (parts.cache.read q.addr s.dcache).1.hit = false)
      (hnext : d.fsm = .read .missSelect)
      (hcache : d.cache = (parts.cache.read q.addr s.dcache).2) (hdrsp : d.drsp = .none)
      (haddr : d.side.addrSave = q.addr) (hreq : d.side.missReq = true)
      (hraised : d.raised = some .miss)
  | writeHit (htakes : s.Takes parts) (hvalid : q.valid = true) (htype : q.type = .write)
      (hhit : (parts.cache.read q.addr s.dcache).1.hit = true) (hnext : d.fsm = .writeUpdt)
      (hcache : d.cache = (parts.cache.read q.addr s.dcache).2) (hdrsp : d.drsp = .ok 0)
      (haddr : d.side.addrSave = q.addr)
      (hway : d.side.waySave = (parts.cache.read q.addr s.dcache).1.way)
      (hset : d.side.setSave = (parts.cache.read q.addr s.dcache).1.set)
      (hword : d.side.wordSave = (parts.cache.read q.addr s.dcache).1.word)
      (hwdata : d.save.wdata = q.wdata) (hbe : d.save.be = q.be) (hraised : d.raised = none)
  | writeMiss (htakes : s.Takes parts) (hvalid : q.valid = true) (htype : q.type = .write)
      (hhit : (parts.cache.read q.addr s.dcache).1.hit = false) (hnext : d.fsm = .writeReq)
      (hcache : d.cache = (parts.cache.read q.addr s.dcache).2) (hdrsp : d.drsp = .ok 0)
      (haddr : d.side.addrSave = q.addr) (hwdata : d.save.wdata = q.wdata)
      (hbe : d.save.be = q.be) (hraised : d.raised = none)
  | unc (htakes : s.Takes parts) (hvalid : q.valid = true)
      (htype : q.type = .ll ∨ q.type = .sc) (hnext : d.fsm = .read .uncWait)
      (hcache : d.cache = (parts.cache.read q.addr s.dcache).2) (hdrsp : d.drsp = .none)
      (haddr : d.side.addrSave = q.addr) (hwdata : d.save.wdata = q.wdata)
      (hsave : d.save.type = q.type) (hraised : d.raised = some .unc)
  | update (hfsm : s.dcacheFsm = .writeUpdt) (hnext : d.fsm = .writeReq)
      (hcache : d.cache = parts.cache.write s.data.waySave s.data.setSave s.data.wordSave
        s.dataSave.wdata s.dataSave.be s.dcache)
      (hside : d.side = s.data) (hsave : d.save = s.dataSave) (hdrsp : d.drsp = .none)
      (hraised : d.raised = none)
  | refused (hfsm : s.dcacheFsm = .writeReq) (hstored : (s.stored parts).1 = false)
      (hnext : d.fsm = .writeReq) (hcache : d.cache = s.dcache) (hside : d.side = s.data)
      (hsave : d.save = s.dataSave) (hdrsp : d.drsp = .none) (hraised : d.raised = none)
  | read (f : ReadFsm) (hfsm : s.dcacheFsm = .read f)
      (hout : d =
        let out := readTransition parts cfg.dcacheWords
          (q.valid && q.addr == s.data.addrSave) f s.data s.dcache
        { fsm := .ofNext out.next
          side := out.side
          save := s.dataSave
          cache := out.cache
          wbuf := s.wbuf
          get := out.get
          drsp := out.response
          raised := none
          effects := out.effects })

/-- The states the data automaton is in without external accesses. -/
def DcacheFsm.Served : DcacheFsm → Prop
  | .xtnHit | .xtnInval | .xtnSync => False
  | _ => True

variable {cfg : XcacheConfig p} {parts : Parts F C W} {q : DataRequest} {s : XcacheWrapper F C W}
  {d : DcacheOut F C W}

theorem dcacheRequest_edge {wbuf : W} (htakes : s.Takes parts)
    (hrequest : q.valid = true → q.type.plain = true ∧ cfg.cacheable q.addr = true)
    (h : dcacheRequest cfg parts q s.data s.dataSave s.dcache wbuf = .ok d) :
    DataEdge cfg parts q s d := by
  cases hvalid : q.valid with
  | false =>
      simp only [dcacheRequest, hvalid] at h
      cases h
      exact .rest htakes hvalid rfl rfl rfl rfl
  | true =>
      obtain ⟨hplain, hcacheable⟩ := hrequest hvalid
      simp only [dcacheRequest, hvalid, hcacheable, if_true] at h
      cases htype : q.type with
      | read =>
          simp only [htype] at h
          split_ifs at h with hhit
          · cases h
            exact .readHit htakes hvalid htype hhit rfl rfl rfl rfl
          · cases h
            exact .readMiss htakes hvalid htype (Bool.eq_false_iff.mpr hhit) rfl rfl rfl rfl rfl rfl
      | write =>
          simp only [htype] at h
          split_ifs at h with hhit
          · cases h
            exact .writeHit htakes hvalid htype hhit rfl rfl rfl rfl rfl rfl rfl rfl rfl rfl
          · cases h
            exact .writeMiss htakes hvalid htype (Bool.eq_false_iff.mpr hhit) rfl rfl rfl rfl rfl
              rfl rfl
      | ll =>
          simp only [htype] at h
          cases h
          exact .unc htakes hvalid (.inl htype) rfl rfl rfl rfl rfl htype.symm rfl
      | sc =>
          simp only [htype] at h
          cases h
          exact .unc htakes hvalid (.inr htype) rfl rfl rfl rfl rfl htype.symm rfl
      | xtnWrite => simp [htype, DataType.plain] at hplain
      | xtnRead => simp [htype, DataType.plain] at hplain

theorem dcacheTransition_edge (hserved : s.dcacheFsm.Served)
    (hrequest : q.valid = true → q.type.plain = true ∧ cfg.cacheable q.addr = true)
    (h : dcacheTransition cfg parts q s.dcacheFsm s.data s.dataSave s.dcache s.wbuf = .ok d) :
    DataEdge cfg parts q s d := by
  cases hfsm : s.dcacheFsm with
  | idle =>
      rw [hfsm] at h
      exact dcacheRequest_edge (.inl hfsm) hrequest h
  | writeUpdt =>
      rw [hfsm] at h
      cases h
      exact .update hfsm rfl rfl rfl rfl rfl rfl
  | writeReq =>
      have hstored : s.stored parts = _ := s.stored_of_writeReq hfsm
      rw [hfsm] at h
      simp only [dcacheTransition] at h
      split_ifs at h with haccepted
      · refine dcacheRequest_edge (.inr ⟨hfsm, ?_⟩) hrequest h
        rw [hstored]
        exact haccepted
      · cases h
        refine .refused hfsm ?_ rfl rfl rfl rfl rfl rfl
        rw [hstored]
        exact Bool.eq_false_iff.mpr haccepted
  | read f =>
      rw [hfsm] at h
      cases h
      exact .read f hfsm rfl
  | xtnHit => simp [hfsm, DcacheFsm.Served] at hserved
  | xtnInval => simp [hfsm, DcacheFsm.Served] at hserved
  | xtnSync => simp [hfsm, DcacheFsm.Served] at hserved

theorem DcacheFsm.served_ofNext (next : Option ReadFsm) : (DcacheFsm.ofNext next).Served := by
  cases next <;> trivial

/-- No external access follows. -/
theorem DataEdge.served (h : DataEdge cfg parts q s d) : d.fsm.Served := by
  cases h with
  | rest _ _ hnext => rw [hnext]; trivial
  | readHit _ _ _ _ hnext => rw [hnext]; trivial
  | readMiss _ _ _ _ hnext => rw [hnext]; trivial
  | writeHit _ _ _ _ hnext => rw [hnext]; trivial
  | writeMiss _ _ _ _ hnext => rw [hnext]; trivial
  | unc _ _ _ hnext => rw [hnext]; trivial
  | update _ hnext => rw [hnext]; trivial
  | refused _ _ hnext => rw [hnext]; trivial
  | read f _ hout =>
      rw [hout]
      exact DcacheFsm.served_ofNext _

/-- One edge of a node, with what the data automaton does in it. -/
structure DataStep (cfg : XcacheConfig p) (parts : Parts F C W) (i : Stimulus p)
    (n n' : Node p F C W) (d : DcacheOut F C W) (cmd : CmdOut W) (rsp : RspOut W)
    (drsp : Response) :
    Prop where
  step : dcacheTransition cfg parts i.dreq n.xc.dcacheFsm n.xc.data n.xc.dataSave n.xc.dcache
    n.xc.wbuf = .ok d
  edge : ∃ out, out.saved = ⟨d.side.addrSave, d.save.type, d.save.be⟩ ∧ out.fsm = d.fsm.serving ∧
    out.raised = d.raised ∧ out.side = d.side ∧ Edge cfg parts i n n' .data out cmd rsp
  dcacheFsm : n'.xc.dcacheFsm = d.fsm
  dcache : n'.xc.dcache = d.cache
  dataSave : n'.xc.dataSave = d.save
  addrSave : n'.xc.data.addrSave = d.side.addrSave
  waySave : n'.xc.data.waySave = d.side.waySave
  setSave : n'.xc.data.setSave = d.side.setSave
  wordSave : n'.xc.data.wordSave = d.side.wordSave
  drsp_eq : drsp = d.drsp

theorem next_step {i : Stimulus p} {n n' : Node p F C W} {out : XcacheOut F C W}
    (h : n.next cfg parts i = .ok (n', out)) :
    ∃ (d : DcacheOut F C W) (cmd : CmdOut W) (rsp : RspOut W),
      DataStep cfg parts i n n' d cmd rsp out.drsp := by
  simp only [Node.next] at h
  split at h
  · cases h
  · rename_i out' hout
    obtain ⟨d, rsp, hd, hrsp, rfl⟩ := transition_ok hout
    cases h
    have hgrants := cmdTransition_grants parts i.cmdack n.xc n.xc.cmdFsm n.xc.cmdMin
      n.xc.cmdMax n.xc.cmdCpt (parts.wbuf.update d.wbuf)
    nth_rewrite 1 [dcacheTransition_wbuf hd] at hgrants
    refine ⟨d, cmdTransition parts i.cmdack n.xc.ins n.xc.data n.xc.cmdFsm n.xc.cmdMin
      n.xc.cmdMax n.xc.cmdCpt (parts.wbuf.update d.wbuf), rsp, hd,
      ⟨ClientOut.ofParts (icacheTransition cfg parts i.ireq n.xc.icacheFsm n.xc.ins
        n.xc.icache) d .data, rfl, rfl, rfl, rfl, ?_⟩, rfl, rfl, rfl, rfl, rfl, rfl, rfl, rfl⟩
    exact
      { serves := dcacheTransition_serves cfg parts i.ireq i.dreq hd
        grants := hgrants
        answers := hrsp
        readFsm := rfl
        side := rfl
        saved := rfl
        cache := rfl
        cmdFsm := rfl
        rspFsm := rfl
        rspCpt := rfl
        net := rfl
        log := rfl }

/-- One edge of a node, as the data cache sees it. -/
structure DataCycle (cfg : XcacheConfig p) (parts : Parts F C W) (i : Stimulus p)
    (n n' : Node p F C W) (d : DcacheOut F C W) (cmd : CmdOut W) (rsp : RspOut W)
    (drsp : Response) :
    Prop where
  edge : ∃ out, out.saved = ⟨d.side.addrSave, d.save.type, d.save.be⟩ ∧ out.fsm = d.fsm.serving ∧
    out.raised = d.raised ∧ out.side = d.side ∧ Edge cfg parts i n n' .data out cmd rsp
  data : DataEdge cfg parts i.dreq n.xc d
  dcacheFsm : n'.xc.dcacheFsm = d.fsm
  dcache : n'.xc.dcache = d.cache
  dataSave : n'.xc.dataSave = d.save
  addrSave : n'.xc.data.addrSave = d.side.addrSave
  waySave : n'.xc.data.waySave = d.side.waySave
  setSave : n'.xc.data.setSave = d.side.setSave
  wordSave : n'.xc.data.wordSave = d.side.wordSave
  drsp_eq : drsp = d.drsp

theorem next_data {i : Stimulus p} {n n' : Node p F C W} {out : XcacheOut F C W}
    (hserved : n.xc.dcacheFsm.Served)
    (hrequest : i.dreq.valid = true → i.dreq.type.plain = true ∧ cfg.cacheable i.dreq.addr = true)
    (h : n.next cfg parts i = .ok (n', out)) :
    ∃ (d : DcacheOut F C W) (cmd : CmdOut W) (rsp : RspOut W),
      DataCycle cfg parts i n n' d cmd rsp out.drsp := by
  obtain ⟨d, cmd, rsp, hd⟩ := next_step h
  exact ⟨d, cmd, rsp, hd.edge, dcacheTransition_edge hserved hrequest hd.step, hd.dcacheFsm,
    hd.dcache, hd.dataSave, hd.addrSave, hd.waySave, hd.setSave, hd.wordSave, hd.drsp_eq⟩

end SmcTp.Xcache
