import SmcTp.Xcache.Coherence

/-!
# Uncached accesses

LL and SC are uncached accesses: the data automaton keeps the request in its registers
and waits for one word.
-/

namespace SmcTp.Xcache

open Vci Clocked

variable {p : VciParams} {F C W : Type}
variable {cfg : XcacheConfig p} {parts : Parts F C W} {contents : F → List Word}
  {view : CacheView C} {i : MemStimulus p} {m m' : MemNode p F C W} {d : DcacheOut F C W}

/-- The data automaton waits for the response to LL or SC. -/
def MemNode.Uncached (m : MemNode p F C W) : Prop := m.node.xc.dcacheFsm = .read .uncWait

theorem not_uncached_of_start (h : m.node.Start parts) : ¬ m.Uncached := by
  obtain ⟨⟨s, hxc⟩, _⟩ := h
  rw [MemNode.Uncached, hxc]
  exact DcacheFsm.noConfusion

theorem readFsm_of_uncached (h : m.Uncached) : m.node.xc.readFsm .data = some .uncWait := by
  rw [MemNode.Uncached] at h
  simp [XcacheWrapper.readFsm, h, DcacheFsm.serving]

/-- At most one flit comes, after the command, and its word is in the FIFO. -/
structure UncWords (contents : F → List Word) (n : Node p F C W) (c : Client) : Prop where
  error : (n.xc.side c).error = false
  words : contents (n.xc.side c).fifo = (n.log c).current.flits.map wordOf
  length : (n.log c).current.flits.length ≤ 1
  accepted : (n.log c).current.flits ≠ [] → (n.log c).current.accepted ≠ []

theorem Channel.unc_words {n : Node p F C W} {c : Client} (hc : Channel cfg contents c n)
    (hflaw : Flawless n c) (hfsm : n.xc.readFsm c = some .uncWait) : UncWords contents n c := by
  have hnone : ∀ {k : ReadKind} {accepted : List (Head p)} {effects : List Effect},
      Buffer contents (n.xc.side c) false [] → Reading n c k accepted [] effects →
      UncWords contents n c := fun hbuf hread =>
    ⟨hbuf.error, by simp [hread.record, hbuf.fifo], by simp [hread.record],
      by simp [hread.record]⟩
  cases hc with
  | rest hf => cases hfsm.symm.trans hf
  | raised k f hf hkind hbus hbuf hread => exact hnone hbuf hread
  | sending k f hf hkind hselect hbus hbuf hread => exact hnone hbuf hread
  | waiting k t hf hbus hhead hbuf hread => exact hnone hbuf hread
  | receiving k t fs hf hbus hnet hhead hgood hlength hcpt hword hfifo hbuf hread =>
      cases k with
      | miss => cases hfsm.symm.trans hf
      | unc =>
          obtain rfl : fs = [] := List.length_eq_zero_iff.mp (Nat.lt_one_iff.mp hlength)
          exact hnone (by simpa using hbuf) hread
  | drained k fs f hf hbus hgood hfails hreop htrdid hlength hword hbuf hread =>
      cases k with
      | miss => cases hfsm.symm.trans hf
      | unc =>
          obtain rfl : fs = [] := List.length_eq_zero_iff.mp (Nat.succ.inj hlength)
          exact ⟨hbuf.error, by simp [hread.record, hbuf.fifo], by simp [hread.record],
            by simp [hread.record]⟩
  | failed k fs f hf hbus hgood hfails hreop htrdid hlength hbuf hread =>
      have hf : fails f = false := hflaw.2 f (by rw [hread.record]; simp)
      cases hfails.symm.trans hf

theorem MemInv.unc_words (hm : MemInv cfg contents view m) (hfsm : m.Uncached) :
    UncWords contents m.node .data :=
  (hm.inv.channel .data).unc_words hm.flawless (readFsm_of_uncached hfsm)

/-- What the data automaton does while it waits. -/
inductive UncEdge (i : MemStimulus p) (m m' : MemNode p F C W) (drsp : Response) : Prop where
  | wait (hflits : (m.node.log .data).current.flits = []) (hnext : m'.Uncached)
      (hdrsp : drsp = .none)
  | done (g : RspFlit p) (hflits : (m.node.log .data).current.flits = [g]) (hnext : ¬ m'.Uncached)
      (hdrsp : drsp =
        if i.base.dreq.valid && i.base.dreq.addr == m.node.xc.data.addrSave then .ok (wordOf g)
        else .none)

/-- The registers that hold the access stay, and so does the cache. -/
structure SavedSame (s s' : XcacheWrapper F C W) : Prop where
  addrSave : s'.data.addrSave = s.data.addrSave
  dataSave : s'.dataSave = s.dataSave
  dcache : s'.dcache = s.dcache

theorem MemInv.unc_edge (hfifo : FifoLaws parts.fifo contents) (hm : MemInv cfg contents view m)
    (hlegal : m.Legal cfg parts i) {out : XcacheOut F C W}
    (hnext : m.next cfg parts i = .ok (m', out)) (hfsm : m.Uncached) :
    UncEdge i m m' out.drsp ∧ SavedSame m.node.xc m'.node.xc := by
  obtain ⟨hnode, _⟩ := memNext_ok hnext
  obtain ⟨d, cmd, rsp, hd⟩ := next_data hm.shape.served hlegal.request hnode
  obtain ⟨herror, hwords, hlength, _⟩ := hm.unc_words hfsm
  replace herror : m.node.xc.data.error = false := herror
  replace hwords : contents m.node.xc.data.fifo =
    (m.node.log .data).current.flits.map wordOf := hwords
  have hnot : ¬ m.node.xc.Takes parts := fun htakes => by
    rcases htakes with h | ⟨h, _⟩ <;> cases h.symm.trans hfsm
  cases hd.data with
  | rest htakes => exact absurd htakes hnot
  | readHit htakes => exact absurd htakes hnot
  | readMiss htakes => exact absurd htakes hnot
  | writeHit htakes => exact absurd htakes hnot
  | writeMiss htakes => exact absurd htakes hnot
  | unc htakes => exact absurd htakes hnot
  | update hold => cases hold.symm.trans hfsm
  | refused hold => cases hold.symm.trans hfsm
  | read f hold hout =>
      cases hold.symm.trans hfsm
      refine ⟨?_, ⟨?_, ?_, ?_⟩⟩
      · rw [hd.drsp_eq]
        cases hflits : (m.node.log .data).current.flits with
        | nil =>
            have hrok : parts.fifo.rok m.node.xc.data.fifo = false := by
              refine hfifo.rok_of_nil ?_
              rw [hwords, hflits]
              rfl
            have hwait := readTransition_wait cfg.dcacheWords
              (i.base.dreq.valid && i.base.dreq.addr == m.node.xc.data.addrSave) .unc
              m.node.xc.dcache herror hrok
            simp only [ReadKind.wait] at hwait
            rw [hwait] at hout
            refine .wait hflits ?_ ?_
            · rw [MemNode.Uncached, hd.dcacheFsm, hout]
              rfl
            · rw [hout]
        | cons g rest =>
            obtain rfl : rest = [] := by
              rw [hflits] at hlength
              exact List.length_eq_zero_iff.mp (Nat.le_zero.mp (Nat.le_of_succ_le_succ hlength))
            have hcontents : contents m.node.xc.data.fifo = [wordOf g] := by
              rw [hwords, hflits]
              rfl
            have hrok : parts.fifo.rok m.node.xc.data.fifo = true := hfifo.rok_of_cons hcontents
            rw [readTransition_value herror hrok, hfifo.read _ _ _ hcontents] at hout
            refine .done g hflits ?_ ?_
            · rw [MemNode.Uncached, hd.dcacheFsm, hout]
              exact DcacheFsm.noConfusion
            · rw [hout]
      · rw [hd.addrSave, hout]
        exact readTransition_addrSave ..
      · rw [hd.dataSave, hout]
      · rw [hd.dcache, hout]
        simp only [readTransition]
        split_ifs <;> rfl

/-- The request an uncached access serves. -/
structure Asks (q : DataRequest) (s : XcacheWrapper F C W) : Prop where
  valid : q.valid = true
  addr : q.addr = s.data.addrSave
  type : q.type = s.dataSave.type
  wdata : q.wdata = s.dataSave.wdata
  atomic : q.type = .ll ∨ q.type = .sc

/-- An uncached access starts with a request. -/
theorem MemInv.unc_start (hfifo : FifoLaws parts.fifo contents)
    (hm : MemInv cfg contents view m) (hlegal : m.Legal cfg parts i) {out : XcacheOut F C W}
    (hnext : m.next cfg parts i = .ok (m', out)) (hfsm : ¬ m.Uncached) (hfsm' : m'.Uncached) :
    m.node.xc.Takes parts ∧ Asks i.base.dreq m'.node.xc ∧ out.drsp = .none := by
  obtain ⟨hnode, _⟩ := memNext_ok hnext
  obtain ⟨d, cmd, rsp, hd⟩ := next_data hm.shape.served hlegal.request hnode
  rw [MemNode.Uncached, hd.dcacheFsm] at hfsm'
  cases hd.data with
  | rest _ _ hfsm => cases hfsm.symm.trans hfsm'
  | readHit _ _ _ _ hfsm => cases hfsm.symm.trans hfsm'
  | readMiss _ _ _ _ hfsm => cases hfsm.symm.trans hfsm'
  | writeHit _ _ _ _ hfsm => cases hfsm.symm.trans hfsm'
  | writeMiss _ _ _ _ hfsm => cases hfsm.symm.trans hfsm'
  | unc htakes hvalid htype hnext hcache hdrsp haddr hwdata hsave =>
      refine ⟨htakes, ⟨hvalid, ?_, ?_, ?_, htype⟩, hd.drsp_eq.trans hdrsp⟩
      · rw [hd.addrSave, haddr]
      · rw [hd.dataSave, hsave]
      · rw [hd.dataSave, hwdata]
  | update _ hfsm => cases hfsm.symm.trans hfsm'
  | refused _ _ hfsm => cases hfsm.symm.trans hfsm'
  | read f hold hout =>
      cases fill_edge hfifo hm hold hout with
      | select _ hfsm => split_ifs at hfsm <;> cases hfsm.symm.trans hfsm'
      | inval _ hfsm => cases hfsm.symm.trans hfsm'
      | wait _ hfsm => cases hfsm.symm.trans hfsm'
      | word _ _ _ hfsm => cases hfsm.symm.trans hfsm'
      | last _ _ _ _ hfsm => cases hfsm.symm.trans hfsm'
      | unc hsel => exact absurd hsel hfsm

/-- What is answered elsewhere is a read or a write. -/
theorem MemInv.answer_plain (hfifo : FifoLaws parts.fifo contents)
    (hm : MemInv cfg contents view m) (hlegal : m.Legal cfg parts i) {out : XcacheOut F C W}
    (hnext : m.next cfg parts i = .ok (m', out)) (hfsm : ¬ m.Uncached)
    (hanswer : out.drsp.valid = true) :
    i.base.dreq.type = .read ∨ i.base.dreq.type = .write := by
  obtain ⟨hnode, _⟩ := memNext_ok hnext
  obtain ⟨d, cmd, rsp, hd⟩ := next_data hm.shape.served hlegal.request hnode
  have hrest : d.drsp ≠ .none := fun hnone => by
    rw [hd.drsp_eq, hnone] at hanswer
    exact Bool.false_ne_true hanswer
  cases hd.data with
  | rest _ _ _ _ hdrsp => exact absurd hdrsp hrest
  | readHit _ _ htype => exact .inl htype
  | readMiss _ _ htype => exact .inl htype
  | writeHit _ _ htype => exact .inr htype
  | writeMiss _ _ htype => exact .inr htype
  | unc _ _ _ _ _ hdrsp => exact absurd hdrsp hrest
  | update _ _ _ _ _ hdrsp => exact absurd hdrsp hrest
  | refused _ _ _ _ _ _ hdrsp => exact absurd hdrsp hrest
  | read f hold hout =>
      exact absurd ((fill_edge hfifo hm hold hout).drsp_none hfsm) hrest

/-! ## The commands of uncached accesses -/

/-- A command that waits for the answer of an uncached access of the data automaton. -/
theorem MemInv.outstanding_unc (hm : MemInv cfg contents view m) {t : CmdFlit p}
    (ht : t ∈ m.node.net.outstanding) (hclass : RspFsm.ofTrdid t.trdid = .read .data .unc) :
    m.Uncached ∧
      head t = (m.node.xc.saved .data).head cfg .data .unc ∧
      (m.node.log .data).current.flits = [] ∧ (m.node.log .data).current.accepted ≠ [] := by
  have hserving : ∀ f, m.node.xc.readFsm .data = some f → m.node.xc.dcacheFsm = .read f := by
    intro f hf
    cases hfsm : m.node.xc.dcacheFsm <;>
      simp [XcacheWrapper.readFsm, hfsm, DcacheFsm.serving] at hf
    rw [hf]
  rcases List.mem_append.mp ht with ht | ht
  · obtain ⟨⟨t', fs⟩, hcur, rfl⟩ := Option.map_eq_some_iff.mp (Option.mem_toList.mp ht)
    have hk : m.node.xc.rspFsm = .read .data .unc :=
      ((hm.inv.linked.current t' fs hcur).1).trans hclass
    cases hm.inv.channel .data with
    | receiving k t fs hf hbus hnet hhead hgood hlength hcpt hword hfifo hbuf hread =>
        obtain rfl : k = .unc := Option.some.inj ((hbus.rsp .unc).mp hk)
        cases hnet.symm.trans hcur
        obtain rfl : fs = [] := List.length_eq_zero_iff.mp (Nat.lt_one_iff.mp hlength)
        exact ⟨hserving _ hf, hhead, by rw [hread.record], by simp [hread.record]⟩
    | rest _ hbus => exact absurd hk (hbus.rsp_ne .unc)
    | raised _ _ _ _ hbus => exact absurd hk (hbus.rsp_ne .unc)
    | sending _ _ _ _ _ hbus => exact absurd hk (hbus.rsp_ne .unc)
    | waiting _ _ _ hbus => exact absurd hk (hbus.rsp_ne .unc)
    | drained _ _ _ _ hbus => exact absurd hk (hbus.rsp_ne .unc)
    | failed _ _ _ _ hbus => exact absurd hk (hbus.rsp_ne .unc)
  · have hmem : t ∈ m.node.net.waitingOf .data :=
      List.mem_filter.mpr ⟨ht, by simp [Node.clientOf, hclass]⟩
    cases hm.inv.channel .data with
    | waiting k t' hf hbus hhead hbuf hread hword =>
        rw [hbus.waiting, List.mem_singleton] at hmem
        subst hmem
        obtain rfl : k = .unc := by
          have hk : RspFsm.ofTrdid t.trdid = .read .data k := Cycle.class_of_head hhead
          cases hclass.symm.trans hk
          rfl
        exact ⟨hserving _ hf, hhead, by rw [hread.record], by simp [hread.record]⟩
    | rest _ hbus => cases (hbus.waiting ▸ hmem)
    | raised _ _ _ _ hbus => cases (hbus.waiting ▸ hmem)
    | sending _ _ _ _ _ hbus => cases (hbus.waiting ▸ hmem)
    | receiving _ _ _ _ hbus => cases (hbus.waiting ▸ hmem)
    | drained _ _ _ _ hbus => cases (hbus.waiting ▸ hmem)
    | failed _ _ _ _ hbus => cases (hbus.waiting ▸ hmem)

/-- A store conditional is performed in an uncached access only. -/
theorem MemInv.performed_none (hm : MemInv cfg contents view m)
    (hfsm : ¬ m.Uncached) : i.performed m = none := by
  have hnone : m.node.net.conditional = none := by
    refine List.find?_eq_none.mpr fun t ht hcond => ?_
    have hclass : RspFsm.ofTrdid t.trdid = .read .data .unc :=
      of_decide_eq_true (Bool.and_eq_true_iff.mp hcond).1
    exact hfsm (hm.outstanding_unc ht hclass).1
  simp [MemStimulus.performed, hnone]

/-- An uncached command leaves the address of its word. -/
theorem wordNo_aligned (a : Addr) : wordNo (a &&& ~~~(0x3 : Addr)) = wordNo a := by
  have hones : ~~~(0x3 : Addr) = BitVec.allOnes 32 <<< 2 := by decide
  have hmask : a &&& ~~~(0x3 : Addr) = a >>> 2 <<< 2 := by
    rw [hones]
    exact BitVec.shiftLeft_ushiftRight.symm
  have hle : a.toNat / 4 * 4 ≤ a.toNat := Nat.div_mul_le_self ..
  rw [hmask, wordNo, BitVec.toNat_shiftLeft, BitVec.toNat_ushiftRight, Nat.shiftRight_eq_div_pow,
    Nat.shiftLeft_eq, Nat.mod_eq_of_lt (Nat.lt_of_le_of_lt hle a.isLt),
    Nat.mul_div_cancel _ (by decide)]
  rfl

/-- A request the bus knows is sent as a store conditional if it is one. -/
theorem uncCmd_storeCond {type : DataType} (hplain : type.plain = true)
    (h : XcacheWrapper.uncCmd type = Cmd.storeCond) : type = .sc := by
  cases type with
  | sc => rfl
  | read | write | ll => exact absurd h (by decide)
  | xtnWrite | xtnRead => cases hplain

/-- A read is for a request the bus knows. -/
theorem Channel.plain {n : Node p F C W} {c : Client} (hc : Channel cfg contents c n)
    {f : ReadFsm} (hfsm : n.xc.readFsm c = some f) : (n.xc.saved c).type.plain = true := by
  cases hc with
  | rest hf => cases hfsm.symm.trans hf
  | raised _ _ _ _ _ _ hread => exact hread.plain
  | sending _ _ _ _ _ _ _ hread => exact hread.plain
  | waiting _ _ _ _ _ _ hread => exact hread.plain
  | receiving _ _ _ _ _ _ _ _ _ _ _ _ _ hread => exact hread.plain
  | drained _ _ _ _ _ _ _ _ _ _ _ _ hread => exact hread.plain
  | failed _ _ _ _ _ _ _ _ _ _ _ hread => exact hread.plain

theorem isConditional_class {t : CmdFlit p} (h : isConditional t = true) :
    RspFsm.ofTrdid t.trdid = .read .data .unc ∧ t.cmd = Cmd.storeCond := by
  obtain ⟨hclass, hcmd⟩ := Bool.and_eq_true_iff.mp h
  exact ⟨of_decide_eq_true hclass, of_decide_eq_true hcmd⟩

/-- The store conditional a memory can perform is the one in the registers. -/
theorem MemInv.outstanding_conditional (hN : 32 ≤ p.N) (hm : MemInv cfg contents view m)
    {t : CmdFlit p} (ht : t ∈ m.node.net.outstanding) (hcond : isConditional t = true) :
    m.Uncached ∧ m.node.xc.dataSave.type = .sc ∧
      targetOf t = wordNo m.node.xc.data.addrSave ∧
      (m.node.log .data).current.flits = [] ∧ (m.node.log .data).current.accepted ≠ [] := by
  obtain ⟨hclass, hcmd⟩ := isConditional_class hcond
  obtain ⟨hfsm, hhead, hrecord⟩ := hm.outstanding_unc ht hclass
  have haddr : t.address = (m.node.xc.data.addrSave &&& ~~~(0x3 : Addr)).setWidth p.N :=
    congrArg Head.address hhead
  have htype : t.cmd = XcacheWrapper.uncCmd m.node.xc.dataSave.type := congrArg Head.cmd hhead
  have hplain := (hm.inv.channel .data).plain (readFsm_of_uncached hfsm)
  refine ⟨hfsm, uncCmd_storeCond hplain (htype.symm.trans hcmd), ?_, hrecord⟩
  rw [targetOf, haddr, BitVec.setWidth_setWidth_of_le _ hN, BitVec.setWidth_eq, wordNo_aligned]

/-- The command of an uncached access is sent before anything has come for it. -/
theorem MemInv.sending_unc (hm : MemInv cfg contents view m)
    (hsend : m.node.xc.cmdFsm = .read .data .unc) :
    m.Uncached ∧ (m.node.log .data).current.accepted = [] := by
  obtain ⟨f, hf, hkind, _, hread⟩ := (hm.inv.channel .data).of_sending hsend
  obtain rfl : f = .uncWait := by
    cases f with
    | uncWait => rfl
    | missSelect | missInval | missWait => cases hkind
  refine ⟨?_, by rw [hread.record]⟩
  cases hfsm : m.node.xc.dcacheFsm <;>
    simp [XcacheWrapper.readFsm, hfsm, DcacheFsm.serving] at hf
  rw [MemNode.Uncached, hfsm, hf]

/-- A store conditional that is accepted comes from the command automaton. -/
theorem accepted_conditional (hindex : ∀ w, parts.wbuf.getIndex w < cfg.wbufNlines)
    {n : Node p F C W} {i : Stimulus p}
    (h : ((n.wires cfg parts i).cmdTransfer && (n.wires cfg parts i).eop &&
      isConditional (n.wires cfg parts i).cmdFlit) = true) :
    n.xc.cmdFsm = .read .data .unc := by
  obtain ⟨hsend, hcond⟩ := Bool.and_eq_true_iff.mp h
  obtain ⟨hclass, _⟩ := isConditional_class hcond
  have hid : (n.wires cfg parts i).cmdFlit.trdid = (n.wires cfg parts i).trdid := rfl
  rw [hid] at hclass
  have hsome : Node.accepted (n.wires cfg parts i) .data ≠ none := by
    simp [Node.accepted, hsend, Node.clientOf, hclass]
  by_contra hnot
  refine hsome (accepted_none hindex fun k hk => ?_)
  obtain ⟨_, _, htrdid, _⟩ := wires_read cfg parts i n hk
  rw [htrdid, ofTrdid_transactionType cfg] at hclass
  cases hclass
  exact hnot hk

end SmcTp.Xcache
