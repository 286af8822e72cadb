import SmcTp.Xcache.FlatMemory

/-!
# LL, SC and the data cache

LL and SC go to the memory and leave the data cache alone.  A store conditional writes
the memory some time between its command and its response.  Reads find the word it has written
as long as no slot holds the line and no store to the word is pending when it does
(`conditional_read_back`).  Otherwise a read may find the old word in the cache, or a
store that was accepted before may arrive after it (`conditional_lost`).
-/

namespace SmcTp.Xcache

open Vci Clocked

variable {p : VciParams} {F C W : Type}
variable {cfg : XcacheConfig p} {parts : Parts F C W} {contents : F → List Word}
  {view : CacheView C} {i : MemStimulus p} {m m' : MemNode p F C W} {d : DcacheOut F C W}
  {x : Nat} {v : Word}

/-- The processor holds a request until it is answered. -/
def Holds (m : MemNode p F C W) (i : MemStimulus p) : Prop :=
  ∀ q, m.asking = some q → i.base.dreq = q

/-- An edge of the wrapper and its memory under a processor that holds its requests. -/
structure MemEdge (cfg : XcacheConfig p) (parts : Parts F C W) (contents : F → List Word)
    (view : CacheView C) (i : MemStimulus p) (m m' : MemNode p F C W) (out : XcacheOut F C W) :
    Prop where
  addressBits : 32 ≤ p.N
  dataBits : 32 ≤ p.B * 8
  fifo : FifoLaws parts.fifo contents
  index : ∀ w, parts.wbuf.getIndex w < cfg.wbufNlines
  cache : CacheLaws parts.cache cfg.dcacheWords view
  inv : MemInv cfg contents view m
  inv' : MemInv cfg contents view m'
  legal : m.Legal cfg parts i
  holds : Holds m i
  next : m.next cfg parts i = .ok (m', out)

/-- What an uncached access has got. -/
abbrev MemNode.record (m : MemNode p F C W) : Record p := (m.node.log .data).current

/-- The command of a store conditional is accepted. -/
def MemNode.sendsConditional (cfg : XcacheConfig p) (parts : Parts F C W) (i : MemStimulus p)
    (m : MemNode p F C W) : Bool :=
  let sig := m.node.wires cfg parts i.base
  sig.cmdTransfer && sig.eop && isConditional sig.cmdFlit

/-! ## The registers of the memory -/

theorem memNext_asking {out : XcacheOut F C W} (h : m.next cfg parts i = .ok (m', out)) :
    m'.asking =
      if i.base.dreq.valid && !out.drsp.valid then some i.base.dreq else none := by
  simp only [MemNode.next] at h
  split at h
  · cases h
  · cases h
    rfl

theorem memNext_sc {out : XcacheOut F C W} (h : m.next cfg parts i = .ok (m', out)) :
    m'.sc = if m.sendsConditional cfg parts i then none else i.sc.or m.sc := by
  simp only [MemNode.next] at h
  split at h
  · cases h
  · cases h
    rfl

/-- The commands to be answered after an edge. -/
theorem outstanding_next {net : Net p} {i : Stimulus p} {contract : Contract p}
    (hlegal : net.Legal contract i) {sig : VciSignals p} {t : CmdFlit p}
    (ht : t ∈ (net.next i sig).outstanding) :
    t ∈ net.outstanding ∨ (sig.cmdTransfer && sig.eop) = true ∧ t = sig.cmdFlit := by
  have hmem := (outstanding_perm hlegal sig).mem_iff.mp (List.mem_append_right _ ht)
  rcases List.mem_append.mp hmem with hold | hnew
  · exact .inl hold
  · unfold sentCommand at hnew
    split at hnew
    next hsend => exact .inr ⟨hsend, List.mem_singleton.mp hnew⟩
    next => cases hnew

/-- What an uncached access has got after an edge. -/
theorem record_next {out : XcacheOut F C W} (h : m.next cfg parts i = .ok (m', out))
    (hfsm' : m'.Uncached) :
    m'.record.flits = m.record.flits ++
        (Node.taken (m.node.wires cfg parts i.base) .data).toList ∧
      m'.record.accepted = m.record.accepted ++
        (Node.accepted (m.node.wires cfg parts i.base) .data).toList := by
  obtain ⟨hnode, _⟩ := memNext_ok h
  obtain ⟨outs, cmd, rsp, hedge⟩ := next_edge hnode
  have hserving : (outs .data).fsm = some .uncWait :=
    (hedge .data).1.readFsm.symm.trans (readFsm_of_uncached hfsm')
  simp only [MemNode.record, (hedge .data).1.log, hserving, Option.isNone_some, Bool.and_false]
  exact ⟨rfl, rfl⟩

namespace MemEdge

variable {out : XcacheOut F C W}

/-- An access that starts has got nothing. -/
theorem record_start (h : MemEdge cfg parts contents view i m m' out) (hfsm : ¬ m.Uncached)
    (hfsm' : m'.Uncached) : m'.record.flits = [] ∧ m'.record.accepted = [] := by
  obtain ⟨htakes, _⟩ := h.inv.unc_start h.fifo h.legal h.next hfsm hfsm'
  have hrest : m.node.xc.readFsm .data = none := by
    rcases htakes with htakes | ⟨htakes, _⟩ <;>
      simp [XcacheWrapper.readFsm, htakes, DcacheFsm.serving]
  obtain ⟨hflits, haccepted⟩ := record_next h.next hfsm'
  obtain ⟨hbus, _, hlog⟩ := (h.inv.inv.channel .data).at_rest hrest
  have htaken := h.inv.inv.linked.taken_none cfg parts h.legal.net hbus.rsp_ne
  have hnone : Node.accepted (m.node.wires cfg parts i.base) .data = none :=
    accepted_none h.index hbus.cmd_ne
  rw [hflits, haccepted, htaken, hnone, MemNode.record, hlog]
  exact ⟨rfl, rfl⟩

/-- A store conditional is sent before anything has come for it. -/
theorem sends (h : MemEdge cfg parts contents view i m m' out)
    (hsend : m.sendsConditional cfg parts i = true) :
    m.node.xc.cmdFsm = .read .data .unc ∧ m.Uncached ∧ m.record.accepted = [] := by
  have hcmd := accepted_conditional h.index hsend
  exact ⟨hcmd, h.inv.sending_unc hcmd⟩

/-- The outcome of a store conditional stays until its access is over. -/
theorem sc_next (h : MemEdge cfg parts contents view i m m' out)
    (haccepted : m.record.accepted ≠ []) : m'.sc = i.sc.or m.sc := by
  rw [memNext_sc h.next, if_neg]
  exact fun hsend => haccepted (h.sends hsend).2.2

/-- The answer to a request that goes on is none, and its registers stay. -/
theorem stays (h : MemEdge cfg parts contents view i m m' out) (hfsm : m.Uncached)
    (hflits : m.record.flits = []) :
    m'.Uncached ∧ SavedSame m.node.xc m'.node.xc ∧ m'.answered = m.answered := by
  obtain ⟨hedge, hsame⟩ := h.inv.unc_edge h.fifo h.legal h.next hfsm
  cases hedge with
  | wait _ hnext hdrsp =>
      refine ⟨hnext, hsame, ?_⟩
      rw [(memNext_ok h.next).2.2.2.2, hdrsp]
      rfl
  | done g hg => cases hflits.symm.trans hg

/-- An access that was there and is not over has got nothing yet. -/
theorem waits (h : MemEdge cfg parts contents view i m m' out) (hfsm : m.Uncached)
    (hfsm' : m'.Uncached) : m.record.flits = [] := by
  obtain ⟨hedge, _⟩ := h.inv.unc_edge h.fifo h.legal h.next hfsm
  cases hedge with
  | wait hflits => exact hflits
  | done g hg hnot => exact absurd hfsm' hnot

end MemEdge

/-! ## LL and SC on their way -/

/-- The processor asks for what an uncached access serves. -/
def Held (m : MemNode p F C W) : Prop :=
  m.Uncached → ∃ q, m.asking = some q ∧ Asks q m.node.xc

/-- A store conditional on its way carries the word of its request. -/
def Written (m : MemNode p F C W) : Prop :=
  ∀ t ∈ m.node.net.outstanding, isConditional t = true →
    t.wdata.setWidth 32 = m.node.xc.dataSave.wdata

/-- The answer to a store conditional is its outcome. -/
def Outcome (m : MemNode p F C W) : Prop :=
  m.Uncached → m.node.xc.dataSave.type = .sc →
    ∀ g ∈ m.record.flits, m.sc.map scAnswer = some (wordOf g)

namespace MemEdge

variable {out : XcacheOut F C W}

/-- A processor that holds its request asks for what is served. -/
theorem asks (h : MemEdge cfg parts contents view i m m' out) (hheld : Held m)
    (hfsm : m.Uncached) : Asks i.base.dreq m.node.xc := by
  obtain ⟨q, hq, hasks⟩ := hheld hfsm
  rw [h.holds q hq]
  exact hasks

theorem held (h : MemEdge cfg parts contents view i m m' out) (hheld : Held m) : Held m' := by
  intro hfsm'
  by_cases hfsm : m.Uncached
  · have hasks := h.asks hheld hfsm
    obtain ⟨hedge, hsame⟩ := h.inv.unc_edge h.fifo h.legal h.next hfsm
    cases hedge with
    | wait _ _ hdrsp =>
        refine ⟨i.base.dreq, ?_, hasks.valid, ?_, ?_, ?_, hasks.atomic⟩
        · rw [memNext_asking h.next, hdrsp, hasks.valid]
          rfl
        · rw [hsame.addrSave, hasks.addr]
        · rw [hsame.dataSave, hasks.type]
        · rw [hsame.dataSave, hasks.wdata]
    | done _ _ hnot => exact absurd hfsm' hnot
  · obtain ⟨_, hasks, hdrsp⟩ := h.inv.unc_start h.fifo h.legal h.next hfsm hfsm'
    refine ⟨i.base.dreq, ?_, hasks⟩
    rw [memNext_asking h.next, hdrsp, hasks.valid]
    rfl

/-- The command of a store conditional carries the word in the registers. -/
theorem wires_wdata (cfg : XcacheConfig p) (parts : Parts F C W) (i : Stimulus p) {n : Node p F C W}
    (hsend : n.xc.cmdFsm = .read .data .unc) (htype : n.xc.dataSave.type = .sc) :
    (n.wires cfg parts i).cmdFlit.wdata = n.xc.dataSave.wdata.setWidth (p.B * 8) := by
  simp [Node.wires, XcacheWrapper.genMoore, hsend, htype, VciSignals.driveRsp,
    VciSignals.cmdFlit]

theorem written (h : MemEdge cfg parts contents view i m m' out) (hwritten : Written m) :
    Written m' := by
  intro t ht hcond
  obtain ⟨hnode, _⟩ := memNext_ok h.next
  obtain ⟨outs, cmd, rsp, hedge⟩ := next_edge hnode
  rw [(hedge .data).1.net] at ht
  rcases outstanding_next h.legal.net ht with hold | ⟨hsend, rfl⟩
  · obtain ⟨hfsm, _, _, hflits, _⟩ := h.inv.outstanding_conditional h.addressBits hold hcond
    rw [(h.stays hfsm hflits).2.1.dataSave]
    exact hwritten t hold hcond
  · obtain ⟨hcmd, hfsm, haccepted⟩ := h.sends (Bool.and_eq_true_iff.mpr ⟨hsend, hcond⟩)
    have hflits : m.record.flits = [] := by
      by_contra hne
      exact (h.inv.unc_words hfsm).accepted hne haccepted
    have hplain := (h.inv.inv.channel .data).plain (readFsm_of_uncached hfsm)
    obtain ⟨_, _, _, hhead⟩ := wires_read cfg parts i.base m.node hcmd
    have hcmdType : (m.node.wires cfg parts i.base).cmdFlit.cmd =
        XcacheWrapper.uncCmd m.node.xc.dataSave.type := congrArg Head.cmd (hhead hplain)
    have htype := uncCmd_storeCond hplain
      (hcmdType.symm.trans (isConditional_class hcond).2)
    rw [wires_wdata cfg parts i.base hcmd htype, (h.stays hfsm hflits).2.1.dataSave,
      BitVec.setWidth_setWidth_of_le _ h.dataBits, BitVec.setWidth_eq]

/-- A store conditional is performed when it is the access in the registers. -/
theorem performs (h : MemEdge cfg parts contents view i m m' out) (hwritten : Written m) {ok : Bool}
    (hsc : i.sc = some ok) :
    m.Uncached ∧ m.node.xc.dataSave.type = .sc ∧ m.sc = none ∧ m.record.flits = [] ∧
      m.record.accepted ≠ [] ∧ (ok = true →
        i.performed m = some (wordNo m.node.xc.data.addrSave, m.node.xc.dataSave.wdata)) := by
  obtain ⟨hcond, hnone⟩ := h.legal.once (by simp [hsc])
  obtain ⟨t, ht⟩ := Option.isSome_iff_exists.mp hcond
  have hmem : t ∈ m.node.net.outstanding := List.mem_of_find?_eq_some ht
  have his : isConditional t = true := List.find?_some ht
  obtain ⟨hfsm, htype, htarget, hflits, haccepted⟩ :=
    h.inv.outstanding_conditional h.addressBits hmem his
  refine ⟨hfsm, htype, hnone, hflits, haccepted, fun hok => ?_⟩
  simp [MemStimulus.performed, hsc, ht, hok, htarget, hwritten t hmem his]

/-- A flit that comes for a store conditional is its outcome, which is known. -/
theorem taken_outcome (h : MemEdge cfg parts contents view i m m' out) (hfsm : m.Uncached)
    (htype : m.node.xc.dataSave.type = .sc) {g : RspFlit p}
    (hg : Node.taken (m.node.wires cfg parts i.base) .data = some g) :
    m.sc.map scAnswer = some (wordOf g) ∧ m.record.accepted ≠ [] := by
  have hread := readFsm_of_uncached hfsm
  obtain ⟨hval, hflit⟩ := taken_flit hg
  obtain ⟨k, t, fs, hf, hnet, hhead, hrec⟩ :=
    (h.inv.inv.channel .data).receiving_of_taken h.inv.inv.linked h.legal.net hg
  obtain rfl : k = .unc := by
    cases k with
    | unc => rfl
    | miss => cases hread.symm.trans hf
  have hcmd : t.cmd = XcacheWrapper.uncCmd m.node.xc.dataSave.type := congrArg Head.cmd hhead
  have hcond : isConditional t = true := by
    rw [isConditional, Cycle.class_of_head hhead, hcmd, htype]
    rfl
  have hshown : m.node.net.shown i.base = (t, fs) := by
    rw [Net.shown, hnet]
    rfl
  have houtcome := h.legal.outcome hval (by rw [hshown]; exact hcond)
  rw [hflit]
  exact ⟨houtcome, by simp [MemNode.record, hrec.record]⟩

/-- An outcome that is known stays as it is. -/
theorem sc_known (h : MemEdge cfg parts contents view i m m' out)
    (haccepted : m.record.accepted ≠ []) (hknown : m.sc.isSome = true) : m'.sc = m.sc := by
  have hnone : i.sc = none := by
    refine Option.not_isSome_iff_eq_none.mp fun hsc => ?_
    simp [(h.legal.once hsc).2] at hknown
  rw [h.sc_next haccepted, hnone, Option.none_or]

theorem outcome (h : MemEdge cfg parts contents view i m m' out) : Outcome m' := by
  intro hfsm' htype' g hg
  by_cases hfsm : m.Uncached
  · have hflits := h.waits hfsm hfsm'
    have htype : m.node.xc.dataSave.type = .sc := by
      rw [← (h.stays hfsm hflits).2.1.dataSave]
      exact htype'
    rw [(record_next h.next hfsm').1, hflits, List.nil_append, Option.mem_toList] at hg
    obtain ⟨houtcome, haccepted⟩ := h.taken_outcome hfsm htype hg
    have hknown : m.sc.isSome = true := by
      cases hsc : m.sc with
      | none => simp [hsc] at houtcome
      | some ok => rfl
    rw [h.sc_known haccepted hknown]
    exact houtcome
  · rw [(h.record_start hfsm hfsm').1] at hg
    cases hg

end MemEdge

/-! ## The history of a store conditional -/

section History

/-- In a run the memory performed a store conditional, after the requests of `before` had been
answered. -/
def PerformedIn (steps : List (MemNode p F C W × MemStimulus p))
    (before : List (DataRequest × Response)) (x : Nat) (v : Word) : Prop :=
  ∃ e ∈ steps, e.1.answered = before ∧ e.2.performed e.1 = some (x, v)

/-- What is known of LL and SC at the end of a run. -/
structure Atomic (steps : List (MemNode p F C W × MemStimulus p)) (m : MemNode p F C W) :
    Prop where
  held : Held m
  written : Written m
  outcome : Outcome m
  /-- A store conditional that has succeeded has been performed. -/
  performed : m.Uncached → m.node.xc.dataSave.type = .sc → m.record.accepted ≠ [] →
    m.sc = some true →
    PerformedIn steps m.answered (wordNo m.node.xc.data.addrSave) m.node.xc.dataSave.wdata
  /-- So has one that has been answered as successful. -/
  answered : ∀ before s after, m.answered = before ++ (s, .ok 0) :: after → s.type = .sc →
    PerformedIn steps before (wordNo s.addr) s.wdata

variable {steps : List (MemNode p F C W × MemStimulus p)}

theorem PerformedIn.tail {before : List (DataRequest × Response)} (h : PerformedIn steps before x v)
    (e : MemNode p F C W × MemStimulus p) : PerformedIn (steps ++ [e]) before x v := by
  obtain ⟨e', he', hperformed⟩ := h
  exact ⟨e', List.mem_append_left _ he', hperformed⟩

namespace MemEdge

variable {out : XcacheOut F C W}

/-- The command of a store conditional is accepted. -/
theorem sends_of_accepted (h : MemEdge cfg parts contents view i m m' out) (hfsm : m.Uncached)
    (htype : m.node.xc.dataSave.type = .sc)
    (hacc : Node.accepted (m.node.wires cfg parts i.base) .data ≠ none) :
    m.sendsConditional cfg parts i = true := by
  have hread := readFsm_of_uncached hfsm
  obtain ⟨k, hk⟩ : ∃ k, m.node.xc.cmdFsm = .read .data k := by
    by_contra hnone
    exact hacc (accepted_none h.index fun k hk => hnone ⟨k, hk⟩)
  have hplain := (h.inv.inv.channel .data).plain hread
  obtain rfl : k = .unc := by
    obtain ⟨f, hf, hkind, _⟩ := (h.inv.inv.channel .data).of_sending hk
    cases hread.symm.trans hf
    exact hkind.symm
  obtain ⟨_, _, hid, hhead⟩ := wires_read cfg parts i.base m.node hk
  have hid' : (m.node.wires cfg parts i.base).cmdFlit.trdid =
      BitVec.ofNat p.T (transactionType .data .unc) := hid
  have hcmd : (m.node.wires cfg parts i.base).cmdFlit.cmd =
      XcacheWrapper.uncCmd m.node.xc.dataSave.type := congrArg Head.cmd (hhead hplain)
  unfold Node.accepted at hacc
  split_ifs at hacc with hcond
  · have hsend := (Bool.and_eq_true_iff.mp hcond).1
    simp [MemNode.sendsConditional, hsend, isConditional, hid', ofTrdid_transactionType cfg, hcmd,
      htype, XcacheWrapper.uncCmd]
  · exact absurd rfl hacc

theorem performed (h : MemEdge cfg parts contents view i m m' out) (ha : Atomic steps m)
    (hfsm' : m'.Uncached)
    (htype' : m'.node.xc.dataSave.type = .sc) (haccepted' : m'.record.accepted ≠ [])
    (hsc' : m'.sc = some true) :
    PerformedIn (steps ++ [(m, i)]) m'.answered (wordNo m'.node.xc.data.addrSave)
      m'.node.xc.dataSave.wdata := by
  by_cases hfsm : m.Uncached
  · have hflits := h.waits hfsm hfsm'
    obtain ⟨_, hsame, hanswered⟩ := h.stays hfsm hflits
    rw [hsame.dataSave] at htype' ⊢
    rw [hsame.addrSave, hanswered]
    by_cases haccepted : m.record.accepted = []
    · -- the command has just been accepted, so that no outcome is known
      have hacc : Node.accepted (m.node.wires cfg parts i.base) .data ≠ none := fun hnone => by
        rw [(record_next h.next hfsm').2, haccepted, hnone] at haccepted'
        exact haccepted' rfl
      rw [memNext_sc h.next, if_pos (h.sends_of_accepted hfsm htype' hacc)] at hsc'
      cases hsc'
    · rw [h.sc_next haccepted] at hsc'
      cases hsc : i.sc with
      | none =>
          rw [hsc, Option.none_or] at hsc'
          exact (ha.performed hfsm htype' haccepted hsc').tail _
      | some ok =>
          rw [hsc, Option.some_or] at hsc'
          obtain ⟨_, _, _, _, _, hperformed⟩ := h.performs ha.written hsc
          exact ⟨(m, i), by simp, rfl, hperformed (Option.some.inj hsc')⟩
  · exact absurd (h.record_start hfsm hfsm').2 haccepted'

/-- The answer to an uncached access is the word that has come. -/
theorem unc_answer (h : MemEdge cfg parts contents view i m m' out) (hheld : Held m)
    (hfsm : m.Uncached) (hanswer : out.drsp.valid = true) :
    ∃ g, m.record.flits = [g] ∧ ¬ m'.Uncached ∧ out.drsp = .ok (wordOf g) := by
  have hasks := h.asks hheld hfsm
  obtain ⟨hedge, _⟩ := h.inv.unc_edge h.fifo h.legal h.next hfsm
  cases hedge with
  | wait _ _ hdrsp => simp [hdrsp, Response.none] at hanswer
  | done g hflits hnot hdrsp =>
      rw [if_pos (by simp [hasks.valid, hasks.addr])] at hdrsp
      exact ⟨g, hflits, hnot, hdrsp⟩

/-- A store conditional that is answered as successful has succeeded. -/
theorem answered_ok (h : MemEdge cfg parts contents view i m m' out) (ha : Atomic steps m)
    (hanswer : out.drsp = .ok 0) (htype : i.base.dreq.type = .sc) :
    PerformedIn steps m.answered (wordNo i.base.dreq.addr) i.base.dreq.wdata := by
  have hvalid : out.drsp.valid = true := by
    rw [hanswer]
    rfl
  have hfsm : m.Uncached := by
    by_contra hfsm
    rcases h.inv.answer_plain h.fifo h.legal h.next hfsm hvalid with hq | hq <;>
      cases hq.symm.trans htype
  have hasks := h.asks ha.held hfsm
  have hsaved : m.node.xc.dataSave.type = .sc := hasks.type.symm.trans htype
  obtain ⟨g, hflits, _, hdrsp⟩ := h.unc_answer ha.held hfsm hvalid
  have hzero : wordOf g = 0 := congrArg Response.data (hdrsp.symm.trans hanswer)
  have haccepted : m.record.accepted ≠ [] :=
    (h.inv.unc_words hfsm).accepted fun hnil => by cases hflits.symm.trans hnil
  have houtcome := ha.outcome hfsm hsaved g (by simp [hflits])
  have hsc : m.sc = some true := by
    cases hsc : m.sc with
    | none => simp [hsc] at houtcome
    | some ok =>
        cases ok with
        | true => rfl
        | false => simp [hsc, scAnswer, hzero] at houtcome
  rw [hasks.addr, hasks.wdata]
  exact ha.performed hfsm hsaved haccepted hsc

/-- One edge keeps what is known of LL and SC. -/
theorem atomic (h : MemEdge cfg parts contents view i m m' out) (ha : Atomic steps m) :
    Atomic (steps ++ [(m, i)]) m' where
  held := h.held ha.held
  written := h.written ha.written
  outcome := h.outcome
  performed := h.performed ha
  answered before s after hsplit htype := by
    rw [(memNext_ok h.next).2.2.2.2] at hsplit
    split_ifs at hsplit with hanswer
    · rcases List.eq_nil_or_concat after with rfl | ⟨after, e, rfl⟩
      · obtain ⟨rfl, hlast⟩ := List.append_inj' hsplit rfl
        obtain ⟨rfl, hok⟩ := Prod.mk.inj (List.cons.inj hlast).1
        exact (h.answered_ok ha hok htype).tail _
      · rw [List.concat_eq_append, ← List.cons_append, ← List.append_assoc] at hsplit
        exact (ha.answered _ _ _ (List.append_inj' hsplit rfl).1 htype).tail _
    · exact (ha.answered _ _ _ hsplit htype).tail _

end MemEdge

end History

/-! ## The word a store conditional has written -/

/-- A store to a word, with the answer to it. -/
def StoresTo (x : Nat) (e : DataRequest × Response) : Prop :=
  wordNo e.1.addr = x ∧ (e.1.type = .write ∨ e.1.type = .sc ∧ e.2 = .ok 0)

/-- A word that is in the memory only. -/
structure Fresh (cfg : XcacheConfig p) (view : CacheView C) (x : Nat) (m : MemNode p F C W) :
    Prop where
  uncached : ∀ w s, view.line m.node.xc.dcache w s ≠ some (x / cfg.dcacheWords)
  arrived : ∀ w ∈ m.buf.pending, w.loc ≠ x

/-- A store conditional to a word has been performed and is not answered. -/
structure Overwritten (x : Nat) (m : MemNode p F C W) : Prop where
  uncached : m.Uncached
  type : m.node.xc.dataSave.type = .sc
  addr : wordNo m.node.xc.data.addrSave = x
  outcome : m.sc = some true
  accepted : m.record.accepted ≠ []

/-- What is known of a word since a store conditional wrote it.  The first answer in the list
is the one to the store conditional. -/
structure Tracks (cfg : XcacheConfig p) (parts : Parts F C W) (view : CacheView C) (x : Nat)
    (v : Word) (l : List (DataRequest × Response)) (m : MemNode p F C W) : Prop where
  /-- The store conditional is not answered yet. -/
  start : l = [] → m.Uncached ∧ m.sc.isSome = true ∧ m.record.accepted ≠ []
  /-- The word keeps its value, or another store conditional has overwritten it. -/
  current : (∀ e ∈ l.tail, ¬ StoresTo x e) →
    Coherent cfg parts view x v m ∨ l ≠ [] ∧ Overwritten x m
  reads : ∀ s mid q r rest, l = s :: mid ++ (q, r) :: rest → (∀ e ∈ mid, ¬ StoresTo x e) →
    q.type = .read → wordNo q.addr = x → r = .ok v

theorem performed_sc {u : Word} (h : i.performed m = some (x, u)) :
    i.sc = some true ∧ ∃ t, m.node.net.conditional = some t ∧ targetOf t = x ∧
      t.wdata.setWidth 32 = u := by
  unfold MemStimulus.performed at h
  split at h
  · rename_i t hsc ht
    obtain ⟨hx, hu⟩ := Prod.mk.inj (Option.some.inj h)
    exact ⟨hsc, t, ht, hx, hu⟩
  · cases h

namespace MemEdge

variable {out : XcacheOut F C W}

theorem accepted_next (h : MemEdge cfg parts contents view i m m' out) (hfsm' : m'.Uncached)
    (haccepted : m.record.accepted ≠ []) : m'.record.accepted ≠ [] := by
  rw [(record_next h.next hfsm').2]
  simp [haccepted]

/-- An access that is not answered goes on. -/
theorem unanswered (h : MemEdge cfg parts contents view i m m' out) (hheld : Held m)
    (hfsm : m.Uncached) (hanswer : out.drsp.valid = false) :
    m'.Uncached ∧ SavedSame m.node.xc m'.node.xc := by
  have hasks := h.asks hheld hfsm
  obtain ⟨hedge, hsame⟩ := h.inv.unc_edge h.fifo h.legal h.next hfsm
  cases hedge with
  | wait _ hnext => exact ⟨hnext, hsame⟩
  | done g _ _ hdrsp =>
      rw [if_pos (by simp [hasks.valid, hasks.addr])] at hdrsp
      simp [hdrsp, Response.ok] at hanswer

/-- A word keeps its value if it is not stored to. -/
theorem coherent_next (h : MemEdge cfg parts contents view i m m' out) (hheld : Held m)
    (hsc : ∀ u, i.performed m ≠ some (x, u))
    (hstore : out.drsp.valid = true → i.base.dreq.type = .write → wordNo i.base.dreq.addr ≠ x)
    (hco : Coherent cfg parts view x v m) : Coherent cfg parts view x v m' := by
  have hnext := hco.next h.addressBits h.fifo h.index h.cache h.inv h.inv' h.legal h.next hsc
    fun hfsm htype => by
      rcases (h.asks hheld hfsm).atomic with hq | hq <;> cases hq.symm.trans htype
  have hsame : settle (doneStores i.base.dreq out.drsp) x v = v := by
    refine settle_of_free (fun w hw hx => ?_) v
    unfold doneStores at hw
    split_ifs at hw with hanswer
    · by_cases htype : i.base.dreq.type = .write
      · simp only [storesOf, htype, List.filter_cons, decide_true, if_true, List.filter_nil,
          List.map_cons, List.map_nil, List.mem_singleton] at hw
        subst hw
        exact hstore hanswer htype hx
      · simp [storesOf, htype] at hw
    · cases hw
  rw [hsame] at hnext
  exact hnext

/-- A word that is in the memory only has the value the store conditional gives it. -/
theorem tracks_start (h : MemEdge cfg parts contents view i m m' out) (hwritten : Written m)
    (hperformed : i.performed m = some (x, v)) (hfresh : Fresh cfg view x m) :
    Tracks cfg parts view x v [] m' ∧ m'.answered = m.answered := by
  obtain ⟨hsc, t, ht, hx, hv⟩ := performed_sc hperformed
  obtain ⟨hfsm, _, _, hflits, haccepted, _⟩ := h.performs hwritten hsc
  obtain ⟨hfsm', hsame, hanswered⟩ := h.stays hfsm hflits
  have hread : m'.node.xc.dcacheFsm = .read .uncWait := hfsm'
  refine ⟨⟨fun _ => ⟨hfsm', ?_, h.accepted_next hfsm' haccepted⟩, fun _ => .inl ?_, ?_⟩, hanswered⟩
  · rw [h.sc_next haccepted, hsc]
    rfl
  · refine .of_other ?_ ?_ ?_
    · have hnone : m.accepted parts = [] :=
        accepted_of_not_writeReq fun hw => by cases hfsm.symm.trans hw
      have hmem : m'.buf.mem x = v := by
        obtain ⟨_, _, hmem, _⟩ := memNext_ok h.next
        have hloc : (store (t.address.setWidth 32) 0xF (t.wdata.setWidth 32)).loc = x := hx
        rw [hmem, ← hv]
        simp only [MemNode.perform, hsc, ht]
        exact (Write.on_self hloc _).trans (merge_full _ _)
      have hfree : m'.buf.value x = v := by
        rw [Buffer.value_of_free, hmem]
        intro w hw
        have hw := mem_pending_next h.next hw
        rw [hnone, List.append_nil] at hw
        exact hfresh.arrived w hw
      simp [MemNode.saved, hread, hfree]
    · intro w s hl
      rw [hsame.dcache] at hl
      exact absurd hl (hfresh.uncached w s)
    · rw [hread]
      rintro f ⟨⟩
      exact ReadKind.noConfusion
  · intro s mid q r rest hsplit
    cases hsplit

/-- A word keeps its value until another store conditional is performed. -/
theorem coherent_or_overwritten (h : MemEdge cfg parts contents view i m m' out)
    (hheld : Held m) (hwritten : Written m)
    (hstore : out.drsp.valid = true → i.base.dreq.type = .write → wordNo i.base.dreq.addr ≠ x)
    (hco : Coherent cfg parts view x v m) :
    Coherent cfg parts view x v m' ∨ m.sc = none ∧ Overwritten x m' := by
  by_cases hperformed : ∃ u, i.performed m = some (x, u)
  · obtain ⟨u, hu⟩ := hperformed
    obtain ⟨hsc, _⟩ := performed_sc hu
    obtain ⟨hfsm, htype, hnone, hflits, haccepted, hsome⟩ := h.performs hwritten hsc
    obtain ⟨hx, _⟩ := Prod.mk.inj (Option.some.inj ((hsome rfl).symm.trans hu))
    obtain ⟨hfsm', hsame, _⟩ := h.stays hfsm hflits
    refine .inr ⟨hnone, hfsm', ?_, ?_, ?_, h.accepted_next hfsm' haccepted⟩
    · rw [hsame.dataSave, htype]
    · rw [hsame.addrSave, hx]
    · rw [h.sc_next haccepted, hsc]
      rfl
  · exact .inl (h.coherent_next hheld (fun u hu => hperformed ⟨u, hu⟩) hstore hco)

/-- Another store conditional is overwriting the word until it is answered. -/
theorem overwritten_next (h : MemEdge cfg parts contents view i m m' out) (hheld : Held m)
    (houtcome : Outcome m) (hover : Overwritten x m) :
    if out.drsp.valid then StoresTo x (i.base.dreq, out.drsp) else Overwritten x m' := by
  obtain ⟨hfsm, htype, hx, hsc, haccepted⟩ := hover
  split_ifs with hanswer
  · have hasks := h.asks hheld hfsm
    obtain ⟨g, hflits, _, hdrsp⟩ := h.unc_answer hheld hfsm hanswer
    have hg := houtcome hfsm htype g (by simp [hflits])
    have hzero : wordOf g = 0 := by simpa [hsc, scAnswer] using hg.symm
    refine ⟨?_, .inr ⟨hasks.type.trans htype, ?_⟩⟩
    · rw [hasks.addr, hx]
    · rw [hdrsp, hzero]
  · obtain ⟨hfsm', hsame⟩ := h.unanswered hheld hfsm (Bool.eq_false_iff.mpr hanswer)
    refine ⟨hfsm', ?_, ?_, ?_, h.accepted_next hfsm' haccepted⟩
    · rw [hsame.dataSave, htype]
    · rw [hsame.addrSave, hx]
    · rw [h.sc_known haccepted (by simp [hsc]), hsc]

/-- One edge keeps what is known of the word. -/
theorem tracks (h : MemEdge cfg parts contents view i m m' out) (hheld : Held m)
    (hwritten : Written m) (houtcome : Outcome m) {l : List (DataRequest × Response)}
    (hl : Tracks cfg parts view x v l m) :
    Tracks cfg parts view x v
      (l ++ if out.drsp.valid then [(i.base.dreq, out.drsp)] else []) m' := by
  have hatomic := fun hfsm => (h.asks hheld hfsm).atomic
  have hover := fun hover => h.overwritten_next (x := x) hheld houtcome hover
  have hfirst : l = [] → m.sc ≠ none := fun hnil hnone => by
    obtain ⟨_, hknown, _⟩ := hl.start hnil
    simp [hnone] at hknown
  cases hanswer : out.drsp.valid with
  | false =>
      simp only [hanswer, Bool.false_eq_true, if_false] at hover
      rw [if_neg Bool.false_ne_true, List.append_nil]
      refine ⟨fun hnil => ?_, fun hfree => ?_, hl.reads⟩
      · obtain ⟨hfsm, hknown, haccepted⟩ := hl.start hnil
        obtain ⟨hfsm', _⟩ := h.unanswered hheld hfsm hanswer
        refine ⟨hfsm', ?_, h.accepted_next hfsm' haccepted⟩
        rw [h.sc_known haccepted hknown]
        exact hknown
      · rcases hl.current hfree with hco | ⟨hne, hold⟩
        · rcases h.coherent_or_overwritten hheld hwritten (by simp [hanswer]) hco with
            hco' | ⟨hnone, hnew⟩
          · exact .inl hco'
          · exact .inr ⟨fun hnil => hfirst hnil hnone, hnew⟩
        · exact .inr ⟨hne, hover hold⟩
  | true =>
      simp only [hanswer, if_true] at hover
      rw [if_pos rfl]
      have hstore : (∀ e ∈ (l ++ [(i.base.dreq, out.drsp)]).tail, ¬ StoresTo x e) →
          (∀ e ∈ l.tail, ¬ StoresTo x e) ∧
            (l ≠ [] → ¬ StoresTo x (i.base.dreq, out.drsp)) := by
        intro hfree
        cases l with
        | nil => exact ⟨(by simp), fun hne => absurd rfl hne⟩
        | cons a l =>
            exact ⟨fun e he => hfree e (List.mem_append_left _ he),
              fun _ => hfree _ (List.mem_append_right _ (List.mem_singleton.mpr rfl))⟩
      refine ⟨fun hnil => absurd hnil (by simp), fun hfree => ?_,
        fun s mid q r rest hsplit hmid htype hx => ?_⟩
      · obtain ⟨hfree, hlast⟩ := hstore hfree
        rcases hl.current hfree with hco | ⟨hne, hold⟩
        · have hother : out.drsp.valid = true → i.base.dreq.type = .write →
              wordNo i.base.dreq.addr ≠ x := by
            intro _ htype hx
            by_cases hnil : l = []
            · rcases hatomic (hl.start hnil).1 with hq | hq <;> cases hq.symm.trans htype
            · exact hlast hnil ⟨hx, .inl htype⟩
          rcases h.coherent_or_overwritten hheld hwritten hother hco with hco' | ⟨hnone, hnew⟩
          · exact .inl hco'
          · exact .inr ⟨by simp, hnew⟩
        · exact absurd (hover hold) (hlast hne)
      · rcases List.eq_nil_or_concat rest with rfl | ⟨rest, e, rfl⟩
        · obtain ⟨rfl, hlast⟩ := List.append_inj' hsplit rfl
          cases hlast
          have hfsm : ¬ m.Uncached := fun hfsm => by
            rcases hatomic hfsm with hq | hq <;> cases hq.symm.trans htype
          rcases hl.current hmid with hco | ⟨_, hold⟩
          · subst hx
            exact hco.read_answer h.fifo h.cache h.inv h.legal h.next hfsm htype hanswer
          · exact absurd hold.uncached hfsm
        · rw [List.concat_eq_append, ← List.cons_append, ← List.append_assoc] at hsplit
          exact hl.reads _ _ _ _ _ (List.append_inj' hsplit rfl).1 hmid htype hx

end MemEdge

/-! ## Runs -/

section Runs

variable {mem : Nat → Word} (hN : 32 ≤ p.N) (hB : 32 ≤ p.B * 8)
  (hfifo : FifoLaws parts.fifo contents) (hindex : ∀ w, parts.wbuf.getIndex w < cfg.wbufNlines)
  (hcache : CacheLaws parts.cache cfg.dcacheWords view)

include hN hB hfifo hindex hcache

theorem memEdge_of_step (hm : MemInv cfg contents view m)
    (hstep : ((memSystem cfg parts mem).under Holds).step m i m') :
    ∃ out, MemEdge cfg parts contents view i m m' out := by
  obtain ⟨hholds, hlegal, out, hnext⟩ := hstep
  exact ⟨out,
    { addressBits := hN
      dataBits := hB
      fifo := hfifo
      index := hindex
      cache := hcache
      inv := hm
      inv' := hm.next hfifo hindex hcache hlegal hnext
      legal := hlegal
      holds := hholds
      next := hnext }⟩

/-- What is known at the end of every run: of LL and SC, and of each word a store conditional
has written while it was in the memory only. -/
theorem path_tracks {steps : List (MemNode p F C W × MemStimulus p)}
    (hpath : ((memSystem cfg parts mem).under Holds).Path steps m) :
    MemInv cfg contents view m ∧ Atomic steps m ∧
      ∀ e ∈ steps, ∀ x v, e.2.performed e.1 = some (x, v) → Fresh cfg view x e.1 →
        ∃ l, m.answered = e.1.answered ++ l ∧ Tracks cfg parts view x v l m := by
  induction hpath with
  | init hstart =>
      obtain ⟨hnode, hbuf, hnone, _⟩ := hstart
      have hidle := not_uncached_of_start hnode
      refine ⟨.start hfifo hcache hnode, ⟨fun h => absurd h hidle, fun t ht => ?_,
        fun h => absurd h hidle, fun h => absurd h hidle, fun before s after hsplit => ?_⟩,
        fun e he => absurd he List.not_mem_nil⟩
      · simp [hnode.2.1, Net.outstanding] at ht
      · rw [hnone] at hsplit
        cases before <;> cases hsplit
  | @step steps m m' i hpath hstep ih =>
      obtain ⟨hinv, hatomic, htracks⟩ := ih
      obtain ⟨out, h⟩ := memEdge_of_step hN hB hfifo hindex hcache hinv hstep
      refine ⟨h.inv', h.atomic hatomic, fun e he x v hperformed hfresh => ?_⟩
      rcases List.mem_append.mp he with he | he
      · obtain ⟨l, hanswered, hl⟩ := htracks e he x v hperformed hfresh
        refine ⟨_, ?_, h.tracks hatomic.held hatomic.written hatomic.outcome hl⟩
        rw [(memNext_ok h.next).2.2.2.2, hanswered]
        split_ifs
        · rw [List.append_assoc]
        · rw [List.append_nil]
      · obtain rfl := List.mem_singleton.mp he
        obtain ⟨hl, hanswered⟩ := h.tracks_start hatomic.written hperformed hfresh
        exact ⟨[], by rw [hanswered, List.append_nil], hl⟩

end Runs

/-- In a run in which a store conditional is answered as successful, the memory has performed it
since the request before it was answered.  If its word was in the memory only at that time,
neither in the data cache nor on its way from the write buffer, every later read returns the
word it wrote, up to the next store to it. -/
theorem conditional_read_back (cfg : XcacheConfig p) (parts : Parts F C W)
    (contents : F → List Word) (view : CacheView C) (mem : Nat → Word) (hN : 32 ≤ p.N)
    (hB : 32 ≤ p.B * 8) (hfifo : FifoLaws parts.fifo contents)
    (hindex : ∀ w, parts.wbuf.getIndex w < cfg.wbufNlines)
    (hcache : CacheLaws parts.cache cfg.dcacheWords view) {m : MemNode p F C W}
    {steps : List (MemNode p F C W × MemStimulus p)}
    (hpath : ((memSystem cfg parts mem).under Holds).Path steps m)
    {before after : List (DataRequest × Response)} {s : DataRequest}
    (hanswered : m.answered = before ++ (s, .ok 0) :: after) (htype : s.type = .sc) :
    PerformedIn steps before (wordNo s.addr) s.wdata ∧
      ∀ e ∈ steps, e.1.answered = before → e.2.performed e.1 = some (wordNo s.addr, s.wdata) →
        Fresh cfg view (wordNo s.addr) e.1 →
        ∀ mid q r rest, after = mid ++ (q, r) :: rest →
          (∀ e ∈ mid, ¬ StoresTo (wordNo s.addr) e) → q.type = .read →
          wordNo q.addr = wordNo s.addr → r = .ok s.wdata := by
  obtain ⟨_, hatomic, htracks⟩ := path_tracks hN hB hfifo hindex hcache hpath
  refine ⟨hatomic.answered _ _ _ hanswered htype,
    fun e he hbefore hperformed hfresh mid q r rest hsplit hmid hread hx => ?_⟩
  obtain ⟨l, hl, hword⟩ := htracks e he _ _ hperformed hfresh
  have hlist : (s, Response.ok 0) :: after = l := by
    rw [hanswered, hbefore] at hl
    exact List.append_cancel_left hl
  refine hword.reads (s, .ok 0) mid q r rest ?_ hmid hread hx
  rw [← hlist, hsplit]
  rfl

/-! ## Small runs -/

instance (m : MemNode p F C W) (i : MemStimulus p) : Decidable (Holds m i) :=
  inferInstanceAs (Decidable (∀ q ∈ m.asking, i.base.dreq = q))

/-- A store of a word. -/
def storeWord (addr : Addr) (data : Word) : DataRequest := ⟨true, addr, .write, data, 0xF⟩

/-- A store conditional. -/
def storeCond (addr : Addr) (data : Word) : DataRequest := ⟨true, addr, .sc, data, 0xF⟩

/-- The command of a store conditional. -/
def condCommand (addr : Addr) (data : Word) : CmdFlit smallParam :=
  ⟨addr, data, 0xF, 4, 0, 0, 0, Cmd.storeCond, true, true⟩

/-- The command of a store. -/
def storeCommand (addr : Addr) (data : Word) : CmdFlit smallParam :=
  ⟨addr, data, 0xF, 4, 0, 4, 0, Cmd.write, true, true⟩

/-- The memory performs a store conditional and answers it. -/
def performCond (addr : Addr) (data : Word) : List (MemStimulus smallParam) :=
  ⟨{ quietCycle with dreq := storeCond addr data }, [], some true⟩ ::
    asking (storeCond addr data) [respond (condCommand addr data) 0 false true,
      respond (condCommand addr data) 0 false true, quietCycle]

/-- The runs of the small wrapper under a processor that holds its requests. -/
theorem exists_held {is : List (MemStimulus smallParam)}
    {answered : List (DataRequest × Response)}
    (hrun : (exec (guarded Holds (MemNode.legalNext smallConfig (smallParts 2))) is smallMem).any
      (fun m => m.answered = answered) = true) :
    ∃ m, ((memSystem smallConfig (smallParts 2) fun _ => 7).under Holds).Reachable m ∧
      m.answered = answered := by
  obtain ⟨m, hm, htest⟩ := System.exists_exec
    (S := (memSystem smallConfig (smallParts 2) fun _ => 7).under Holds)
    (guarded_step (MemNode.legalNext_step _)) smallMem_init hrun
  exact ⟨m, hm, of_decide_eq_true htest⟩

/-- A store conditional to a word that is in the memory only, while a line of the other set is
in the cache. -/
theorem storeCond_read_back : ∃ (m : MemNode smallParam (List Word) SetCache LineBuffer)
    (steps : List (MemNode smallParam (List Word) SetCache LineBuffer × MemStimulus smallParam)),
    ((memSystem smallConfig (smallParts 2) fun _ => 7).under Holds).Path steps m ∧
      (∃ e ∈ steps, Fresh smallConfig (setView 2 2) (wordNo 0x10) e.1) ∧
      ∃ r, m.answered = [(loadWord 0x18, .ok 7), (storeCond 0x10 9, .ok 0), (loadWord 0x10, r)] ∧
        r = .ok 9 := by
  -- the run up to the store conditional, and what follows
  have hrun : (exec (guarded Holds (MemNode.legalNext smallConfig (smallParts 2)))
      (readLine (loadWord 0x18) (lineCommand 0x18) 7 7 ++
        asking (storeCond 0x10 9) [quietCycle, quietCycle, takeCommand]) smallMem).any (fun m =>
        m.answered = [(loadWord 0x18, .ok 7)] ∧ m.buf.pending.length = 0 ∧
        (∀ w ∈ List.range 2, ∀ s ∈ List.range 2, m.node.xc.dcache.tag w s ≠ some 1 ∨ s = 1) ∧
        (performCond 0x10 9).head?.map (·.performed m) = some (some (wordNo 0x10, 9)) ∧
        (exec (guarded Holds (MemNode.legalNext smallConfig (smallParts 2)))
          (performCond 0x10 9 ++ readLine (loadWord 0x10) (lineCommand 0x10) 9 7) m).any (fun m =>
            m.answered.map Prod.fst = [loadWord 0x18, storeCond 0x10 9, loadWord 0x10] ∧
              m.answered.take 2 = [(loadWord 0x18, .ok 7), (storeCond 0x10 9, .ok 0)])) = true := by
    decide +kernel
  obtain ⟨m₀, hm₀, htest⟩ := System.exists_exec
    (S := (memSystem smallConfig (smallParts 2) fun _ => 7).under Holds)
    (guarded_step (MemNode.legalNext_step _)) smallMem_init hrun
  obtain ⟨hbefore, hpending, hline, hperformed, hrest⟩ := of_decide_eq_true htest
  have hfresh : Fresh smallConfig (setView 2 2) (wordNo 0x10) m₀ := by
    refine ⟨fun w s hl => ?_, fun w hw => ?_⟩
    · obtain ⟨hw, hs, hmod, htag⟩ := SetCache.line_eq_some_iff.mp hl
      rcases hline w (List.mem_range.mpr hw) s (List.mem_range.mpr hs) with hne | hone
      · exact hne htag
      · exact absurd (hone.symm.trans hmod) (by decide)
    · simp [List.length_eq_zero_iff.mp hpending] at hw
  obtain ⟨steps, hpath₀⟩ := hm₀.path
  obtain ⟨m, hexec, hanswers⟩ := (Option.any_eq_true _ _).mp hrest
  obtain ⟨steps', hpath, hmem⟩ := hpath₀.exec (guarded_step (MemNode.legalNext_step _)) hexec
  have he := List.mem_append_right steps (hmem _ rfl)
  obtain ⟨hrequests, hfirst⟩ := of_decide_eq_true hanswers
  obtain ⟨r, hanswered⟩ : ∃ r, m.answered =
      [(loadWord 0x18, .ok 7)] ++ (storeCond 0x10 9, .ok 0) :: [(loadWord 0x10, r)] := by
    have hdrop : (m.answered.drop 2).map Prod.fst = [loadWord 0x10] := by
      rw [List.map_drop, hrequests]
      rfl
    obtain ⟨⟨q, r⟩, l, hcons, rfl, hnil⟩ := List.map_eq_cons_iff.mp hdrop
    obtain rfl := List.map_eq_nil_iff.mp hnil
    refine ⟨r, ?_⟩
    rw [← List.take_append_drop 2 m.answered, hfirst, hcons]
    rfl
  obtain ⟨_, hback⟩ := conditional_read_back smallConfig (smallParts 2) id (setView 2 2)
    (fun _ => 7) (Nat.le_refl 32) (Nat.le_refl 32) listFifo_laws (fun _ => Nat.one_pos)
    (smallCache_laws 2) hpath hanswered rfl
  exact ⟨m, _, hpath, ⟨_, he, hfresh⟩, r, hanswered, hback _ he hbefore
    (Option.some.inj hperformed) hfresh [] _ _ [] rfl (by simp) rfl rfl⟩

/-- What an agreement of LL, SC and the data cache would demand. -/
def ReadsBack (answered : List (DataRequest × Response)) : Prop :=
  ∀ before s mid q r rest, answered = before ++ (s, .ok 0) :: mid ++ (q, r) :: rest →
    s.type = .sc → (∀ e ∈ mid, ¬ StoresTo (wordNo s.addr) e) → q.type = .read →
    wordNo q.addr = wordNo s.addr → r = .ok s.wdata

/-- A line that is in the cache keeps the old word, and a store that was accepted before the
store conditional arrives after it. -/
theorem conditional_lost :
    (∃ m, ((memSystem smallConfig (smallParts 2) fun _ => 7).under Holds).Reachable m ∧
      m.answered =
        [(loadWord 0x10, .ok 7), (storeCond 0x10 9, .ok 0), (loadWord 0x10, .ok 7)] ∧
      ¬ ReadsBack m.answered) ∧
    ∃ m, ((memSystem smallConfig (smallParts 2) fun _ => 7).under Holds).Reachable m ∧
      m.answered =
        [(storeWord 0x10 5, .ok 0), (storeCond 0x10 9, .ok 0), (loadWord 0x10, .ok 5)] ∧
      ¬ ReadsBack m.answered := by
  constructor
  · have hrun : (exec (guarded Holds (MemNode.legalNext smallConfig (smallParts 2)))
        (readLine (loadWord 0x10) (lineCommand 0x10) 7 7 ++
          asking (storeCond 0x10 9) [quietCycle, quietCycle, takeCommand] ++
          performCond 0x10 9 ++ asking (loadWord 0x10) [quietCycle]) smallMem).any (fun m =>
        m.answered =
          [(loadWord 0x10, .ok 7), (storeCond 0x10 9, .ok 0), (loadWord 0x10, .ok 7)]) = true := by
      decide +kernel
    obtain ⟨m, hm, hanswered⟩ := exists_held hrun
    refine ⟨m, hm, hanswered, fun hback => ?_⟩
    have hsplit : m.answered = [(loadWord 0x10, .ok 7)] ++ (storeCond 0x10 9, .ok 0) :: [] ++
      (loadWord 0x10, .ok 7) :: [] := hanswered
    exact absurd (hback _ _ _ _ _ _ hsplit rfl (by simp) rfl rfl) (by decide)
  · have hrun : (exec (guarded Holds (MemNode.legalNext smallConfig (smallParts 2)))
        (asking (storeWord 0x10 5) [quietCycle] ++
          asking (storeCond 0x10 9) [quietCycle, takeCommand, quietCycle, takeCommand] ++
          performCond 0x10 9 ++
          ⟨{ respond (storeCommand 0x10 5) 0 false true with dreq := loadWord 0x10 }, [0], none⟩ ::
          asking (loadWord 0x10) [respond (storeCommand 0x10 5) 0 false true] ++
          (readLine (loadWord 0x10) (lineCommand 0x10) 5 7).tail) smallMem).any (fun m =>
        m.answered =
          [(storeWord 0x10 5, .ok 0), (storeCond 0x10 9, .ok 0), (loadWord 0x10, .ok 5)]) =
        true := by
      decide +kernel
    obtain ⟨m, hm, hanswered⟩ := exists_held hrun
    refine ⟨m, hm, hanswered, fun hback => ?_⟩
    have hsplit : m.answered = [(storeWord 0x10 5, .ok 0)] ++ (storeCond 0x10 9, .ok 0) :: [] ++
      (loadWord 0x10, .ok 5) :: [] := hanswered
    exact absurd (hback _ _ _ _ _ _ hsplit rfl (by simp) rfl rfl) (by decide)

end SmcTp.Xcache
