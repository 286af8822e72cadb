import SmcTp.Xcache.Uncached

/-!
# The wrapper is a flat memory

`Coherent` says of one word that it has one value wherever it is found, and
`Coherent.next` that an edge keeps this.
-/

namespace SmcTp.Xcache

open Vci Clocked

variable {p : VciParams} {F C W : Type}
variable {cfg : XcacheConfig p} {parts : Parts F C W} {contents : F → List Word}
  {view : CacheView C} {i : MemStimulus p} {m m' : MemNode p F C W} {d : DcacheOut F C W}
  {x : Nat} {v : Word}

/-- A word has one value. -/
structure Coherent (cfg : XcacheConfig p) (parts : Parts F C W) (view : CacheView C) (x : Nat)
    (v : Word) (m : MemNode p F C W) : Prop where
  /-- The memory has it once the pending stores have arrived. -/
  memory : settle m.saved x (m.buf.value x) = v
  /-- Every slot with the line of the word has it. -/
  cached : ∀ w s, view.line m.node.xc.dcache w s = some (x / cfg.dcacheWords) →
    view.word (m.settled parts) w s (x % cfg.dcacheWords) = v
  /-- A slot that is being filled has it if it is among the words that are written. -/
  filled : m.node.xc.dcacheFsm = .read .missWait →
    cfg.lineNo m.node.xc.data.addrSave = x / cfg.dcacheWords →
    x % cfg.dcacheWords < m.node.xc.data.wordSave →
    view.word m.node.xc.dcache m.node.xc.data.waySave m.node.xc.data.setSave
      (x % cfg.dcacheWords) = v
  /-- The flit that carries it has come with it. -/
  arrived : ∀ f, m.node.xc.dcacheFsm = .read f → f.kind = .miss →
    cfg.lineNo m.node.xc.data.addrSave = x / cfg.dcacheWords →
    ∀ g, (m.node.log .data).current.flits[x % cfg.dcacheWords]? = some g → wordOf g = v
  /-- Since the command of its line it had no other value. -/
  visible : ∀ f, m.node.xc.dcacheFsm = .read f → f.kind = .miss →
    cfg.lineNo m.node.xc.data.addrSave = x / cfg.dcacheWords →
    (m.node.log .data).current.accepted ≠ [] → ∀ u ∈ m.seen x, u = v

/-! ## A line that is being read -/

/-- A read that is not waiting yet has got nothing. -/
theorem Channel.fresh {n : Node p F C W} {c : Client} (hc : Channel cfg contents c n)
    {f : ReadFsm} (hfsm : n.xc.readFsm c = some f) (hkind : f.kind = .miss)
    (hwait : f ≠ .missWait) :
    (n.xc.side c).wordSave = 0 ∧ (n.log c).current.flits = [] := by
  cases hc with
  | rest hf => cases hfsm.symm.trans hf
  | raised k f' hf hkind' hbus hbuf hread hword =>
      cases hfsm.symm.trans hf
      exact ⟨hword (hkind'.symm.trans hkind), by rw [hread.record]⟩
  | sending k f' hf hkind' hselect hbus hbuf hread hword =>
      cases hfsm.symm.trans hf
      exact ⟨hword (hkind'.symm.trans hkind), by rw [hread.record]⟩
  | waiting k t hf =>
      cases hfsm.symm.trans hf
      cases k with
      | miss => exact absurd rfl hwait
      | unc => cases hkind
  | receiving k t fs hf =>
      cases hfsm.symm.trans hf
      cases k with
      | miss => exact absurd rfl hwait
      | unc => cases hkind
  | drained k fs f' hf =>
      cases hfsm.symm.trans hf
      cases k with
      | miss => exact absurd rfl hwait
      | unc => cases hkind
  | failed k fs f' hf =>
      cases hfsm.symm.trans hf
      cases k with
      | miss => exact absurd rfl hwait
      | unc => cases hkind

/-- A read that has just been asked for has no command yet. -/
theorem Channel.unsent {n : Node p F C W} {c : Client} (hc : Channel cfg contents c n)
    (hfsm : n.xc.readFsm c = some .missSelect) : (n.log c).current.accepted = [] := by
  cases hc with
  | rest hf => cases hfsm.symm.trans hf
  | raised k f hf hkind hbus hbuf hread => rw [hread.record]
  | sending k f hf hkind hselect =>
      cases hfsm.symm.trans hf
      exact absurd rfl hselect
  | waiting k t hf => cases k <;> cases hfsm.symm.trans hf
  | receiving k t fs hf => cases k <;> cases hfsm.symm.trans hf
  | drained k fs f hf => cases k <;> cases hfsm.symm.trans hf
  | failed k fs f hf => cases k <;> cases hfsm.symm.trans hf

/-- The kind of a read is in the record, and its request is no longer flagged once its command
has been accepted. -/
theorem Channel.accepted_facts {n : Node p F C W} {c : Client} (hc : Channel cfg contents c n)
    {f : ReadFsm} (hfsm : n.xc.readFsm c = some f)
    (hacc : (n.log c).current.accepted ≠ []) : ∀ k, (n.xc.side c).req k = false := by
  have hclear : ∀ {cmd : Option ReadKind} {ts : List (CmdFlit p)} {rsp : Option ReadKind},
      Bus n c none cmd ts rsp → ∀ k, (n.xc.side c).req k = false := fun hbus k =>
    Bool.eq_false_iff.mpr fun hk => by cases (hbus.req k).mp hk
  cases hc with
  | rest hf => cases hfsm.symm.trans hf
  | raised k f' hf hkind' hbus hbuf hread => exact absurd (by rw [hread.record]) hacc
  | sending k f' hf hkind' hselect hbus => exact hclear hbus
  | waiting k t hf hbus => exact hclear hbus
  | receiving k t fs hf hbus => exact hclear hbus
  | drained k fs f' hf hbus => exact hclear hbus
  | failed k fs f' hf hbus => exact hclear hbus

/-- The flit that is taken of a line answers its command. -/
theorem Inv.taken_line (hN : 32 ≤ p.N) {n : Node p F C W} (hinv : Inv cfg contents n)
    {i : Stimulus p} (hlegal : n.net.Legal (ErrorFree cfg) i) {f : ReadFsm}
    (hfsm : n.xc.dcacheFsm = .read f) (hkind : f.kind = .miss) {g : RspFlit p}
    (hg : Node.taken (n.wires cfg parts i) .data = some g) :
    i.rspval = true ∧ g = i.flit ∧ isDataLine (n.net.shown i).1 = true ∧
      targetOf (n.net.shown i).1 + (n.net.shown i).2.length =
        cfg.lineNo n.xc.data.addrSave * cfg.dcacheWords + (n.log .data).current.flits.length ∧
      (n.log .data).current.accepted ≠ [] := by
  have hread : n.xc.readFsm .data = some f := by
    simp [XcacheWrapper.readFsm, hfsm, DcacheFsm.serving]
  obtain ⟨hval, hflit⟩ := taken_flit hg
  obtain ⟨k, t, fs, hf, hnet, hhead, hrec⟩ :=
    (hinv.channel .data).receiving_of_taken hinv.linked hlegal hg
  cases hread.symm.trans hf
  obtain rfl : k = .miss := by
    cases k with
    | miss => rfl
    | unc => cases hkind
  have hline : isDataLine t = true := by
    rw [isDataLine, Cycle.class_of_head hhead]
    rfl
  have hshown : n.net.shown i = (t, fs) := by
    rw [Net.shown, hnet]
    rfl
  rw [hshown, hrec.record]
  refine ⟨hval, hflit, hline, ?_, by simp⟩
  rw [targetOf_line hN hhead]
  rfl

/-- A flit of a line is one of the values its word had since the command. -/
theorem taken_word (hN : 32 ≤ p.N) (hm : MemInv cfg contents view m)
    (hlegal : m.Legal cfg parts i) {f : ReadFsm} (hfsm : m.node.xc.dcacheFsm = .read f)
    (hkind : f.kind = .miss) {g : RspFlit p}
    (hg : Node.taken (m.node.wires cfg parts i.base) .data = some g) :
    wordOf g ∈ m.seen (cfg.lineNo m.node.xc.data.addrSave * cfg.dcacheWords +
        (m.node.log .data).current.flits.length) ∧
      (m.node.log .data).current.accepted ≠ [] := by
  obtain ⟨hval, rfl, hline, haddr, hacc⟩ := hm.inv.taken_line hN hlegal.net hfsm hkind hg
  rw [← haddr]
  exact ⟨hlegal.line hval hline, hacc⟩

/-- The command of a line is on the wires as it is accepted. -/
theorem Channel.accepted_line {n : Node p F C W} {i : Stimulus p}
    (hc : Channel cfg contents .data n) (hindex : ∀ w, parts.wbuf.getIndex w < cfg.wbufNlines)
    {f : ReadFsm} (hfsm : n.xc.dcacheFsm = .read f) (hkind : f.kind = .miss)
    (hacc : Node.accepted (n.wires cfg parts i) .data ≠ none) :
    n.xc.data.missReq = false ∧
      ((n.wires cfg parts i).cmdTransfer && (n.wires cfg parts i).eop &&
        isDataLine (n.wires cfg parts i).cmdFlit) = true := by
  have hread : n.xc.readFsm .data = some f := by
    simp [XcacheWrapper.readFsm, hfsm, DcacheFsm.serving]
  have hsends : ∃ k, n.xc.cmdFsm = .read .data k := by
    by_contra hnone
    exact hacc (accepted_none hindex fun k hk => hnone ⟨k, hk⟩)
  obtain ⟨k, hk⟩ := hsends
  obtain ⟨f', hf, hkind', hbus, _⟩ := hc.of_sending hk
  cases hread.symm.trans hf
  obtain rfl : k = .miss := hkind'.symm.trans hkind
  have hclear : n.xc.data.missReq = false :=
    Bool.eq_false_iff.mpr fun hr => by cases (hbus.req .miss).mp hr
  obtain ⟨hval, heop, hid, _⟩ := wires_read cfg parts i n hk
  have hack : (n.wires cfg parts i).cmdack = true := by
    have hread := accepted_read cfg parts i hk
    have hcmdack : (n.wires cfg parts i).cmdack = i.cmdack := rfl
    rw [hcmdack]
    cases hb : i.cmdack with
    | true => rfl
    | false => exact absurd (by rw [hread, hb]; rfl) hacc
  have hline : isDataLine (n.wires cfg parts i).cmdFlit = true := by
    have hid' : (n.wires cfg parts i).cmdFlit.trdid =
        (n.wires cfg parts i).trdid := rfl
    rw [isDataLine, hid', hid, ofTrdid_transactionType cfg]
    rfl
  exact ⟨hclear, by simp [VciSignals.cmdTransfer, hval, hack, heop, hline]⟩

theorem accepted_line (hm : MemInv cfg contents view m)
    (hindex : ∀ w, parts.wbuf.getIndex w < cfg.wbufNlines) {f : ReadFsm}
    (hfsm : m.node.xc.dcacheFsm = .read f) (hkind : f.kind = .miss)
    (hacc : Node.accepted (m.node.wires cfg parts i.base) .data ≠ none) :
    m.node.xc.data.missReq = false ∧
      ((m.node.wires cfg parts i.base).cmdTransfer && (m.node.wires cfg parts i.base).eop &&
        isDataLine (m.node.wires cfg parts i.base).cmdFlit) = true :=
  (hm.inv.channel .data).accepted_line hindex hfsm hkind hacc

/-- The flits of a record after a cycle. -/
theorem Record.flit_of_note {r : Record p} {raised : Option (ReadKind × Access)}
    {accepted : Option (Head p)} {flit : Option (RspFlit p)} {effects : List Effect}
    {answers : List (Option Access × Response)} {k : Nat} {g : RspFlit p}
    (h : (r.note raised accepted flit effects answers).flits[k]? = some g) :
    r.flits[k]? = some g ∨ k = r.flits.length ∧ flit = some g := by
  simp only [Record.note] at h
  rcases Nat.lt_trichotomy k r.flits.length with hlt | heq | hgt
  · rw [List.getElem?_append_left hlt] at h
    exact .inl h
  · rw [List.getElem?_append_right (Nat.le_of_eq heq.symm), heq, Nat.sub_self] at h
    cases flit with
    | none => cases h
    | some u => exact .inr ⟨heq, by simpa using h⟩
  · have hlen : (r.flits ++ flit.toList).length ≤ k := by
      cases flit <;> simp <;> omega
    rw [List.getElem?_eq_none_iff.mpr hlen] at h
    cases h

/-- The commands of a record after a cycle. -/
theorem Record.accepted_of_note {r : Record p} {raised : Option (ReadKind × Access)}
    {accepted : Option (Head p)} {flit : Option (RspFlit p)} {effects : List Effect}
    {answers : List (Option Access × Response)}
    (h : (r.note raised accepted flit effects answers).accepted ≠ []) :
    r.accepted ≠ [] ∨ accepted ≠ none := by
  by_contra hnot
  obtain ⟨hold, hnew⟩ := not_or.mp hnot
  refine h ?_
  simp only [Record.note]
  rw [not_not.mp hold, not_not.mp hnew]
  rfl

/-- What has come of a line after an edge of a read, and what may still come. -/
theorem Coherent.fill_next (hN : 32 ≤ p.N)
    (hindex : ∀ w, parts.wbuf.getIndex w < cfg.wbufNlines) (hm : MemInv cfg contents view m)
    (hlegal : m.Legal cfg parts i) {out : XcacheOut F C W}
    (hnext : m.next cfg parts i = .ok (m', out)) {cmd : CmdOut W} {rsp : RspOut W}
    (hd : DataCycle cfg parts i.base m.node m'.node d cmd rsp out.drsp)
    (h : Coherent cfg parts view x v m) {f f' : ReadFsm}
    (hfsm : m.node.xc.dcacheFsm = .read f) (hkind : f.kind = .miss) (hfsm' : d.fsm = .read f')
    (hraised : d.raised = none) (hvalue : m'.buf.value x = v)
    (hline : cfg.lineNo m.node.xc.data.addrSave = x / cfg.dcacheWords) :
    (∀ g, (m'.node.log .data).current.flits[x % cfg.dcacheWords]? = some g → wordOf g = v) ∧
      ((m'.node.log .data).current.accepted ≠ [] → ∀ u ∈ m'.seen x, u = v) := by
  obtain ⟨o, _, ho, hor, _, he⟩ := hd.edge
  have hread : m.node.xc.readFsm .data = some f := by
    simp [XcacheWrapper.readFsm, hfsm, DcacheFsm.serving]
  have hcurrent : (m'.node.log .data).current = (m.node.log .data).current.note none
      (Node.accepted (m.node.wires cfg parts i.base) .data)
      (Node.taken (m.node.wires cfg parts i.base) .data) o.effects
      (Node.answers (m.node.xc.readFsm .data).isSome (asks i.base.ireq i.base.dreq .data)
        o.response) := by
    rw [he.log, ho, hfsm', hor, hraised]
    simp [Log.next, DcacheFsm.serving]
  have hx : cfg.lineNo m.node.xc.data.addrSave * cfg.dcacheWords + x % cfg.dcacheWords = x := by
    rw [hline, Nat.mul_comm]
    exact Nat.div_add_mod ..
  constructor
  · intro g hg
    rw [hcurrent] at hg
    rcases Record.flit_of_note hg with hg | ⟨hlast, ht⟩
    · exact h.arrived f hfsm hkind hline g hg
    · obtain ⟨hseen, hacc⟩ := taken_word hN hm hlegal hfsm hkind ht
      rw [← hlast, hx] at hseen
      exact h.visible f hfsm hkind hline hacc _ hseen
  · -- no store to the line is on its way, so that the memory has the value
    intro hacc
    have hold : m.accepted parts = [] :=
      accepted_of_not_writeReq (by rw [hfsm]; exact DcacheFsm.noConfusion)
    have hsaved : m.saved = [] := by simp [MemNode.saved, hfsm]
    have hcase : (m.node.log .data).current.accepted ≠ [] ∨
        Node.accepted (m.node.wires cfg parts i.base) .data ≠ none := by
      rw [hcurrent] at hacc
      exact Record.accepted_of_note hacc
    have hclear : m.node.xc.data.missReq = false := by
      rcases hcase with hacc' | hacc'
      · exact (hm.inv.channel .data).accepted_facts hread hacc' .miss
      · exact (accepted_line hm hindex hfsm hkind hacc').1
    have hfree : ∀ w ∈ m.buf.pending, w.loc ≠ x := by
      intro w hw hwx
      exact hm.shape.granted f hfsm hkind hclear w hw (by rw [hwx, hline])
    have hmem : m.buf.mem x = v := by
      rw [← h.memory, hsaved, settle_nil, Buffer.value_of_free hfree]
    have hmem' : m'.buf.mem x = v := by
      rw [← hvalue, Buffer.value_of_free]
      intro w hw
      have hw' := mem_pending_next hnext hw
      rw [hold, List.append_nil] at hw'
      exact hfree w hw'
    obtain ⟨_, _, _, hseen, _⟩ := memNext_ok hnext
    intro u hu
    rw [hseen] at hu
    split_ifs at hu with hsends
    · rcases List.mem_cons.mp hu with rfl | hu
      · exact hmem'
      · rw [List.mem_singleton.mp hu, hmem]
    · rcases List.mem_cons.mp hu with rfl | hu
      · exact hmem'
      · rcases hcase with hacc' | hacc'
        · exact h.visible f hfsm hkind hline hacc' u hu
        · exact absurd (accepted_line hm hindex hfsm hkind hacc').2 hsends

/-! ## One edge -/

/-- The store that is done when the processor is told so. -/
def doneStores (q : DataRequest) (drsp : Response) : List (Write Nat Word) :=
  if drsp.valid then storesOf [q] else []

theorem doneStores_write {q : DataRequest} (data : Word) (h : q.type = .write) :
    doneStores q (.ok data) = [store q.addr q.be q.wdata] := by
  simp [doneStores, Response.ok, storesOf, h]

theorem doneStores_other {q : DataRequest} (drsp : Response) (h : q.type ≠ .write) :
    doneStores q drsp = [] := by
  simp [doneStores, storesOf, h]

@[simp] theorem doneStores_none (q : DataRequest) : doneStores q .none = [] := rfl

theorem saved_next {cmd : CmdOut W} {rsp : RspOut W} {drsp : Response}
    (hd : DataCycle cfg parts i.base m.node m'.node d cmd rsp drsp) :
    m'.saved = if d.fsm = .writeUpdt ∨ d.fsm = .writeReq then
      [store d.side.addrSave d.save.be d.save.wdata] else [] := by
  simp only [MemNode.saved, hd.dcacheFsm, hd.addrSave, hd.dataSave]

theorem settled_next {cmd : CmdOut W} {rsp : RspOut W} {drsp : Response}
    (hd : DataCycle cfg parts i.base m.node m'.node d cmd rsp drsp) :
    m'.settled parts = if d.fsm = .writeUpdt then
      parts.cache.write d.side.waySave d.side.setSave d.side.wordSave d.save.wdata d.save.be
        d.cache else d.cache := by
  simp only [MemNode.settled, hd.dcacheFsm, hd.dcache, hd.waySave, hd.setSave, hd.wordSave,
    hd.dataSave]

/-- A state that reads no line. -/
theorem Coherent.of_other (hmemory : settle m.saved x (m.buf.value x) = v)
    (hcached : ∀ w s, view.line m.node.xc.dcache w s = some (x / cfg.dcacheWords) →
      view.word (m.settled parts) w s (x % cfg.dcacheWords) = v)
    (hread : ∀ f, m.node.xc.dcacheFsm = .read f → f.kind ≠ .miss) :
    Coherent cfg parts view x v m where
  memory := hmemory
  cached := hcached
  filled h := absurd rfl (hread _ h)
  arrived f h hkind := absurd hkind (hread f h)
  visible f h hkind := absurd hkind (hread f h)

/-- The slot that is being filled, after the next word. -/
theorem Coherent.filled_word (h : Coherent cfg parts view x v m)
    (hm : MemInv cfg contents view m) (hcache : CacheLaws parts.cache cfg.dcacheWords view)
    (hfsm : m.node.xc.dcacheFsm = .read .missWait) {g : RspFlit p}
    (hg : (m.node.log .data).current.flits[m.node.xc.data.wordSave]? = some g)
    (hline : cfg.lineNo m.node.xc.data.addrSave = x / cfg.dcacheWords)
    (hlt : x % cfg.dcacheWords < m.node.xc.data.wordSave + 1) :
    view.word (parts.cache.write m.node.xc.data.waySave m.node.xc.data.setSave
        m.node.xc.data.wordSave (wordOf g) 0xF m.node.xc.dcache)
      m.node.xc.data.waySave m.node.xc.data.setSave (x % cfg.dcacheWords) = v := by
  rw [hcache.write_word _ _ _ _ _ _ _ _ _ _ (hm.shape.slot _ hfsm rfl ReadFsm.noConfusion)
    (hm.inv.wordSave_lt hfsm hg)]
  rcases Nat.lt_succ_iff_lt_or_eq.mp hlt with hlt | heq
  · rw [if_neg fun hw => Nat.ne_of_lt hlt hw.2.2]
    exact h.filled hfsm hline hlt
  · rw [if_pos ⟨rfl, rfl, heq⟩, merge_full]
    exact h.arrived _ hfsm rfl hline g (heq ▸ hg)

/-- A line that is read further. -/
theorem Coherent.of_fill (hN : 32 ≤ p.N)
    (hindex : ∀ w, parts.wbuf.getIndex w < cfg.wbufNlines) (hm : MemInv cfg contents view m)
    (hlegal : m.Legal cfg parts i) {out : XcacheOut F C W}
    (hnext : m.next cfg parts i = .ok (m', out)) {cmd : CmdOut W} {rsp : RspOut W}
    (hd : DataCycle cfg parts i.base m.node m'.node d cmd rsp out.drsp)
    (h : Coherent cfg parts view x v m) {f f' : ReadFsm}
    (hold : m.node.xc.dcacheFsm = .read f) (hkind : f.kind = .miss) (hfsm : d.fsm = .read f')
    (hraised : d.raised = none) (hvalue : m'.buf.value x = v)
    (haddr : m'.node.xc.data.addrSave = m.node.xc.data.addrSave)
    (hcached : ∀ w s, view.line d.cache w s = some (x / cfg.dcacheWords) →
      view.word d.cache w s (x % cfg.dcacheWords) = v)
    (hfilled : cfg.lineNo m.node.xc.data.addrSave = x / cfg.dcacheWords →
      x % cfg.dcacheWords < d.side.wordSave →
      view.word d.cache d.side.waySave d.side.setSave (x % cfg.dcacheWords) = v) :
    Coherent cfg parts view x v m' := by
  have hfill := h.fill_next hN hindex hm hlegal hnext hd hold hkind hfsm hraised hvalue
  refine ⟨?_, ?_, ?_, ?_, ?_⟩
  · simp [saved_next hd, hfsm, hvalue]
  · simpa [settled_next hd, hfsm, hd.dcache] using hcached
  · intro _ hl hlt
    rw [hd.dcache, hd.waySave, hd.setSave]
    rw [haddr] at hl
    rw [hd.wordSave] at hlt
    exact hfilled hl hlt
  · intro _ _ _ hl
    exact (hfill (haddr ▸ hl)).1
  · intro _ _ _ hl
    exact (hfill (haddr ▸ hl)).2

/-- One edge keeps the value of a word, or stores what the processor is told is stored. -/
theorem Coherent.next (hN : 32 ≤ p.N) (hfifo : FifoLaws parts.fifo contents)
    (hindex : ∀ w, parts.wbuf.getIndex w < cfg.wbufNlines)
    (hcache : CacheLaws parts.cache cfg.dcacheWords view) (hm : MemInv cfg contents view m)
    (hm' : MemInv cfg contents view m') (hlegal : m.Legal cfg parts i) {out : XcacheOut F C W}
    (hnext : m.next cfg parts i = .ok (m', out)) (hsc : ∀ u, i.performed m ≠ some (x, u))
    (hunc : m.Uncached → i.base.dreq.type ≠ .write)
    (h : Coherent cfg parts view x v m) :
    Coherent cfg parts view x (settle (doneStores i.base.dreq out.drsp) x v) m' := by
  obtain ⟨hnode, _⟩ := memNext_ok hnext
  obtain ⟨d, cmd, rsp, hd⟩ := next_data hm.shape.served hlegal.request hnode
  have hvalue := value_next hnext hlegal.order hsc
  have hfsm' : m'.node.xc.dcacheFsm = d.fsm := hd.dcacheFsm
  have hdc' : m'.node.xc.dcache = d.cache := hd.dcache
  have hsaved' := saved_next hd
  have hsettled' := settled_next hd
  have htaken : m.node.xc.Takes parts → m'.buf.value x = v := fun htakes => by
    rw [hvalue, accepted_of_takes htakes, h.memory]
  have hfound : m.node.xc.Takes parts → ∀ w s,
      view.line m.node.xc.dcache w s = some (x / cfg.dcacheWords) →
      view.word m.node.xc.dcache w s (x % cfg.dcacheWords) = v := fun htakes => by
    have hc := h.cached
    rwa [settled_of_takes htakes] at hc
  rw [hd.drsp_eq]
  cases hd.data with
  | rest htakes hvalid hfsm hc hdrsp hraised =>
      rw [hdrsp, doneStores_none]
      refine Coherent.of_other ?_ ?_ ?_
      · simp [hsaved', hfsm, htaken htakes]
      · simpa [hsettled', hfsm, hdc', hc] using hfound htakes
      · simp [hfsm', hfsm]
  | readHit htakes hvalid htype hhit hfsm hc hdrsp hraised =>
      rw [doneStores_other _ (by simp [htype])]
      refine Coherent.of_other ?_ ?_ ?_
      · simp [hsaved', hfsm, htaken htakes]
      · simpa [hsettled', hfsm, hdc', hc, hcache.read_line, hcache.read_word] using hfound htakes
      · simp [hfsm', hfsm]
  | unc htakes hvalid htype hfsm hc hdrsp haddr hwdata hsave hraised =>
      rw [hdrsp, doneStores_none]
      refine Coherent.of_other ?_ ?_ ?_
      · simp [hsaved', hfsm, htaken htakes]
      · simpa [hsettled', hfsm, hdc', hc, hcache.read_line, hcache.read_word] using hfound htakes
      · rw [hfsm', hfsm]
        rintro f ⟨⟩
        exact ReadKind.noConfusion
  | writeMiss htakes hvalid htype hhit hfsm hc hdrsp haddr hwdata hbe hraised =>
      rw [hdrsp, doneStores_write _ htype]
      refine Coherent.of_other ?_ ?_ ?_
      · simp [hsaved', hfsm, htaken htakes, haddr, hbe, hwdata]
      · intro w s hline
        rw [hdc', hc, hcache.read_line] at hline
        have hne : wordNo i.base.dreq.addr ≠ x := by
          rintro rfl
          exact hcache.miss _ _ hhit w s hline
        have hother : (store i.base.dreq.addr i.base.dreq.be i.base.dreq.wdata).loc ≠ x := hne
        rw [settle_cons, settle_nil, Write.on_ne hother, hsettled', if_neg (by simp [hfsm]), hc,
          hcache.read_word]
        exact hfound htakes w s hline
      · simp [hfsm', hfsm]
  | writeHit htakes hvalid htype hhit hfsm hc hdrsp haddr hway hset hword hwdata hbe hraised =>
      obtain ⟨hslot, hline, hoffset, _⟩ := hcache.hit _ _ hhit
      rw [hdrsp, doneStores_write _ htype]
      refine Coherent.of_other ?_ ?_ ?_
      · simp [hsaved', hfsm, htaken htakes, haddr, hbe, hwdata]
      · intro w s hl
        rw [hdc', hc, hcache.read_line] at hl
        have hw := hfound htakes w s hl
        rw [hsettled', if_pos hfsm, hway, hset, hword, hwdata, hbe, hc,
          hcache.write_word _ _ _ _ _ _ _ _ _ _ hslot
            (hoffset ▸ Nat.mod_lt _ (cfg.words_pos .data)), hcache.read_word, hcache.read_word,
          hoffset, settle_cons, settle_nil]
        by_cases hx : wordNo i.base.dreq.addr = x
        · -- the slot with the line of the word is the one that is hit
          rw [hx] at hline
          obtain ⟨rfl, rfl⟩ := hm.shape.unique _ _ _ _ _ hl hline
          have hself : (store i.base.dreq.addr i.base.dreq.be i.base.dreq.wdata).loc = x := hx
          rw [if_pos ⟨rfl, rfl, by rw [hx]⟩, Write.on_self hself, hx, hw]
          rfl
        · have hother : (store i.base.dreq.addr i.base.dreq.be i.base.dreq.wdata).loc ≠ x := hx
          rw [Write.on_ne hother, if_neg, hw]
          rintro ⟨rfl, rfl, hmod⟩
          have hdiv : x / cfg.dcacheWords = wordNo i.base.dreq.addr / cfg.dcacheWords :=
            Option.some.inj (hl.symm.trans hline)
          refine hx ?_
          rw [← Nat.div_add_mod (wordNo i.base.dreq.addr) cfg.dcacheWords, ← hdiv, ← hmod,
            Nat.div_add_mod]
      · simp [hfsm', hfsm]
  | update hold hfsm hc hside hsave hdrsp hraised =>
      have hsaved : m'.saved = m.saved := by
        rw [hsaved', hside, hsave, MemNode.saved]
        simp [hold, hfsm]
      have hsettled : m'.settled parts = m.settled parts := by
        rw [hsettled', hc, MemNode.settled]
        simp [hold, hfsm]
      have hnone : m.accepted parts = [] :=
        accepted_of_not_writeReq (by rw [hold]; exact DcacheFsm.noConfusion)
      rw [hdrsp, doneStores_none]
      refine Coherent.of_other ?_ ?_ ?_
      · rw [hsaved, hvalue, hnone]
        exact h.memory
      · intro w s hl
        rw [hdc', hc, hcache.write_line] at hl
        rw [hsettled]
        exact h.cached w s hl
      · simp [hfsm', hfsm]
  | refused hold hstored hfsm hc hside hsave hdrsp hraised =>
      have hsaved : m'.saved = m.saved := by
        rw [hsaved', hside, hsave, MemNode.saved]
        simp [hold, hfsm]
      have hsettled : m'.settled parts = m.settled parts := by
        rw [hsettled', hc, MemNode.settled]
        simp [hold, hfsm]
      have hnone : m.accepted parts = [] := by simp [MemNode.accepted, hstored]
      rw [hdrsp, doneStores_none]
      refine Coherent.of_other ?_ ?_ ?_
      · rw [hsaved, hvalue, hnone]
        exact h.memory
      · intro w s hl
        rw [hdc', hc] at hl
        rw [hsettled]
        exact h.cached w s hl
      · simp [hfsm', hfsm]
  | readMiss htakes hvalid htype hhit hfsm hc hdrsp haddr hreq hraised =>
      have hread' : m'.node.xc.readFsm .data = some .missSelect := by
        simp [XcacheWrapper.readFsm, hfsm', hfsm, DcacheFsm.serving]
      have hchannel := hm'.inv.channel .data
      rw [hdrsp, doneStores_none]
      refine ⟨?_, ?_, ?_, ?_, ?_⟩
      · simp [hsaved', hfsm, htaken htakes]
      · simpa [hsettled', hfsm, hdc', hc, hcache.read_line, hcache.read_word] using hfound htakes
      · simp [hfsm', hfsm]
      · intro f _ _ _ g hg
        simp [(hchannel.fresh hread' rfl ReadFsm.noConfusion).2] at hg
      · intro f _ _ _ hacc
        exact absurd (hchannel.unsent hread') hacc
  | read f hold hout =>
      have hread : m.node.xc.readFsm .data = some f := by
        simp [XcacheWrapper.readFsm, hold, DcacheFsm.serving]
      have hraised : d.raised = none := by rw [hout]
      have hsaved : m.saved = [] := by simp [MemNode.saved, hold]
      have hnone : m.accepted parts = [] :=
        accepted_of_not_writeReq (by rw [hold]; exact DcacheFsm.noConfusion)
      have hmem : m'.buf.value x = v := by
        rw [hvalue, hnone, settle_nil, ← h.memory, hsaved, settle_nil]
      have haddr : m'.node.xc.data.addrSave = m.node.xc.data.addrSave := by
        rw [hd.addrSave, hout]
        exact readTransition_addrSave ..
      have hcached : ∀ w s, view.line m.node.xc.dcache w s = some (x / cfg.dcacheWords) →
          view.word m.node.xc.dcache w s (x % cfg.dcacheWords) = v := by
        have hc := h.cached
        rwa [MemNode.settled, hold, if_neg DcacheFsm.noConfusion] at hc
      cases fill_edge hfifo hm hold hout with
      | select hsel hfsm hc hway hset hword hdrsp =>
          cases hold.symm.trans hsel
          obtain ⟨hzero, _⟩ := (hm.inv.channel .data).fresh hread rfl ReadFsm.noConfusion
          rw [hdrsp, doneStores_none]
          refine h.of_fill hN hindex hm hlegal hnext hd hold rfl hfsm hraised hmem haddr ?_ ?_
          · simpa [hc, hcache.select_line, hcache.select_word] using hcached
          · intro _ hlt
            rw [hword] at hlt
            exact absurd (hlt.trans_eq hzero) (Nat.not_lt_zero _)
      | inval hsel hfsm hc hway hset hword hdrsp =>
          cases hold.symm.trans hsel
          obtain ⟨hzero, _⟩ := (hm.inv.channel .data).fresh hread rfl ReadFsm.noConfusion
          have hslot := hm.shape.slot _ hold rfl ReadFsm.noConfusion
          rw [hdrsp, doneStores_none]
          refine h.of_fill hN hindex hm hlegal hnext hd hold rfl hfsm hraised hmem haddr ?_ ?_
          · intro w s hl
            rw [hc, hcache.inval_line _ _ _ _ _ _ hslot] at hl
            split_ifs at hl
            rw [hc, hcache.inval_word]
            exact hcached w s hl
          · intro _ hlt
            rw [hword] at hlt
            exact absurd (hlt.trans_eq hzero) (Nat.not_lt_zero _)
      | wait hsel hfsm hc hway hset hword hdrsp =>
          cases hold.symm.trans hsel
          rw [hdrsp, doneStores_none]
          refine h.of_fill hN hindex hm hlegal hnext hd hold rfl hfsm hraised hmem haddr ?_ ?_
          · simpa [hc] using hcached
          · rw [hc, hway, hset, hword]
            exact h.filled hold
      | word g hsel hg hfsm hc hway hset hword hdrsp =>
          cases hold.symm.trans hsel
          have hslot := hm.shape.slot _ hold rfl ReadFsm.noConfusion
          rw [hdrsp, doneStores_none]
          refine h.of_fill hN hindex hm hlegal hnext hd hold rfl hfsm hraised hmem haddr ?_ ?_
          · intro w s hl
            rw [hc, hcache.write_line] at hl
            rw [hc, hcache.write_word _ _ _ _ _ _ _ _ _ _ hslot (hm.inv.wordSave_lt hold hg),
              if_neg]
            · exact hcached w s hl
            · rintro ⟨rfl, rfl, _⟩
              cases (hm.shape.free hold).symm.trans hl
          · rw [hc, hway, hset, hword]
            exact h.filled_word hm hcache hold hg
      | last g hsel hg hlast hfsm hc hdrsp =>
          cases hold.symm.trans hsel
          have hslot := hm.shape.slot _ hold rfl ReadFsm.noConfusion
          rw [hdrsp, doneStores_none]
          refine Coherent.of_other ?_ ?_ ?_
          · simp [hsaved', hfsm, hmem]
          · intro w s hl
            rw [hdc', hc, hcache.update_line _ _ _ _ _ _ hslot, hcache.write_line] at hl
            rw [hsettled', if_neg (by simp [hfsm]), hc, hcache.update_word]
            split_ifs at hl with hw
            · obtain ⟨rfl, rfl⟩ := hw
              refine h.filled_word hm hcache hold hg (Option.some.inj hl) ?_
              have hpos : 0 < cfg.dcacheWords := cfg.words_pos .data
              rw [hlast, Nat.sub_add_cancel hpos]
              exact Nat.mod_lt _ hpos
            · rw [hcache.write_word _ _ _ _ _ _ _ _ _ _ hslot (hm.inv.wordSave_lt hold hg),
                if_neg fun hw' => hw ⟨hw'.1, hw'.2.1⟩]
              exact hcached w s hl
          · simp [hfsm', hfsm]
      | unc hsel hfsm hc =>
          rw [doneStores_other _ (hunc hsel)]
          refine Coherent.of_other ?_ ?_ ?_
          · rcases hfsm with hfsm | hfsm <;> simp [hsaved', hfsm, hmem]
          · rcases hfsm with hfsm | hfsm <;> simpa [hsettled', hfsm, hdc', hc] using hcached
          · intro f' hf
            rcases hfsm with hfsm | hfsm
            · cases (hfsm'.trans hfsm).symm.trans hf
            · cases (hfsm'.trans hfsm).symm.trans hf
              exact ReadKind.noConfusion

/-! ## Runs -/

/-- After a reset every word has the value the memory starts with. -/
theorem Coherent.start {mem : Nat → Word} (hcache : CacheLaws parts.cache cfg.dcacheWords view)
    (hstart : m.node.Start parts) (hbuf : m.buf = ⟨mem, []⟩) (x : Nat) :
    Coherent cfg parts view x (mem x) m := by
  obtain ⟨⟨s, hxc⟩, _⟩ := hstart
  have hidle : m.node.xc.dcacheFsm = .idle := by
    rw [hxc]
    rfl
  refine .of_other ?_ ?_ ?_
  · simp [MemNode.saved, hidle, hbuf, Buffer.value]
  · intro w s hl
    rw [hxc] at hl
    cases (hcache.reset _ w s).symm.trans hl
  · simp [hidle]

/-- A read of the cache is answered with the value of its word. -/
theorem Coherent.read_answer (hfifo : FifoLaws parts.fifo contents)
    (hcache : CacheLaws parts.cache cfg.dcacheWords view) (hm : MemInv cfg contents view m)
    (hlegal : m.Legal cfg parts i) {out : XcacheOut F C W}
    (hnext : m.next cfg parts i = .ok (m', out)) (hunc : ¬ m.Uncached)
    (htype : i.base.dreq.type = .read) (hanswer : out.drsp.valid = true)
    (h : Coherent cfg parts view (wordNo i.base.dreq.addr) v m) : out.drsp = .ok v := by
  obtain ⟨hnode, _⟩ := memNext_ok hnext
  obtain ⟨d, cmd, rsp, hd⟩ := next_data hm.shape.served hlegal.request hnode
  have hrest : d.drsp ≠ .none := fun hnone => by
    rw [hd.drsp_eq, hnone] at hanswer
    exact Bool.false_ne_true hanswer
  rw [hd.drsp_eq]
  cases hd.data with
  | rest _ _ _ _ hdrsp => exact absurd hdrsp hrest
  | readHit htakes hvalid htype' hhit hfsm hc hdrsp =>
      obtain ⟨_, hline, _, hdata⟩ := hcache.hit _ _ hhit
      have hword := h.cached _ _ hline
      rw [settled_of_takes htakes] at hword
      rw [hdrsp, hdata, hword]
  | readMiss _ _ _ _ _ _ hdrsp => exact absurd hdrsp hrest
  | writeHit _ _ htype' => cases htype'.symm.trans htype
  | writeMiss _ _ htype' => cases htype'.symm.trans htype
  | unc _ _ htype' => rcases htype' with htype' | htype' <;> cases htype'.symm.trans htype
  | update _ _ _ _ _ hdrsp => exact absurd hdrsp hrest
  | refused _ _ _ _ _ _ hdrsp => exact absurd hdrsp hrest
  | read f hold hout =>
      exact absurd ((fill_edge hfifo hm hold hout).drsp_none hunc) hrest

/-! ## Reads and writes -/

/-- The processor asks for reads and writes. -/
def ReadsAndWrites (_ : MemNode p F C W) (i : MemStimulus p) : Prop :=
  i.base.dreq.valid = true → i.base.dreq.type = .read ∨ i.base.dreq.type = .write

/-- What holds in a run of reads and writes on a memory that starts with `mem`. -/
structure Flat (cfg : XcacheConfig p) (parts : Parts F C W) (contents : F → List Word)
    (view : CacheView C) (mem : Nat → Word) (m : MemNode p F C W) : Prop where
  inv : MemInv cfg contents view m
  cached : ¬ m.Uncached
  coherent : ∀ x, Coherent cfg parts view x (settle (answeredStores m.answered) x (mem x)) m
  answers : ∀ before q r after, m.answered = before ++ (q, r) :: after → q.type = .read →
    r = .ok (settle (answeredStores before) (wordNo q.addr) (mem (wordNo q.addr)))

theorem answeredStores_concat (answered : List (DataRequest × Response)) (q : DataRequest)
    (r : Response) :
    answeredStores (answered ++ [(q, r)]) = answeredStores answered ++ storesOf [q] := by
  simp [answeredStores, storesOf]

/-- The stores that have been answered after an edge. -/
theorem answeredStores_next {out : XcacheOut F C W} (h : m.next cfg parts i = .ok (m', out)) :
    answeredStores m'.answered =
      answeredStores m.answered ++ doneStores i.base.dreq out.drsp := by
  rw [(memNext_ok h).2.2.2.2, doneStores]
  split
  · exact answeredStores_concat ..
  · rw [List.append_nil]

theorem Flat.next (hN : 32 ≤ p.N) (hfifo : FifoLaws parts.fifo contents)
    (hindex : ∀ w, parts.wbuf.getIndex w < cfg.wbufNlines)
    (hcache : CacheLaws parts.cache cfg.dcacheWords view) {mem : Nat → Word}
    (h : Flat cfg parts contents view mem m) (hlegal : m.Legal cfg parts i)
    (hplain : ReadsAndWrites m i) {out : XcacheOut F C W}
    (hnext : m.next cfg parts i = .ok (m', out)) : Flat cfg parts contents view mem m' := by
  have hinv' := h.inv.next hfifo hindex hcache hlegal hnext
  refine ⟨hinv', fun hfsm' => ?_, fun x => ?_, fun before q r after hsplit htype => ?_⟩
  · obtain ⟨_, hasks, _⟩ := h.inv.unc_start hfifo hlegal hnext h.cached hfsm'
    have hatomic := hasks.atomic
    rcases hplain hasks.valid with hq | hq <;> simp [hq] at hatomic
  · rw [answeredStores_next hnext, settle_append]
    refine (h.coherent x).next hN hfifo hindex hcache h.inv hinv' hlegal hnext ?_ ?_
    · simp [h.inv.performed_none h.cached]
    · exact fun hfsm => absurd hfsm h.cached
  · rw [(memNext_ok hnext).2.2.2.2] at hsplit
    split_ifs at hsplit with hanswer
    · -- the answer is the last one, or an earlier one
      rcases List.eq_nil_or_concat after with rfl | ⟨after, e, rfl⟩
      · obtain ⟨rfl, hlast⟩ := List.append_inj' hsplit rfl
        cases hlast
        exact (h.coherent _).read_answer hfifo hcache h.inv hlegal hnext h.cached htype hanswer
      · rw [List.concat_eq_append, ← List.cons_append, ← List.append_assoc] at hsplit
        exact h.answers _ _ _ _ (List.append_inj' hsplit rfl).1 htype
    · exact h.answers _ _ _ _ hsplit htype

/-- The wrapper is a flat memory for the reads and writes of its processor: every read is
answered with the word that the writes before it, byte by byte and in order, have made of
the word the memory started with. -/
theorem reads_flat (cfg : XcacheConfig p) (parts : Parts F C W) (contents : F → List Word)
    (view : CacheView C) (mem : Nat → Word) (hN : 32 ≤ p.N)
    (hfifo : FifoLaws parts.fifo contents)
    (hindex : ∀ w, parts.wbuf.getIndex w < cfg.wbufNlines)
    (hcache : CacheLaws parts.cache cfg.dcacheWords view) {m : MemNode p F C W}
    (hm : ((memSystem cfg parts mem).under ReadsAndWrites).Reachable m)
    {before after : List (DataRequest × Response)} {q : DataRequest} {r : Response}
    (hanswered : m.answered = before ++ (q, r) :: after) (htype : q.type = .read) :
    r = .ok (settle (answeredStores before) (wordNo q.addr) (mem (wordNo q.addr))) := by
  have hflat : Flat cfg parts contents view mem m := by
    refine hm.invariant (fun m hstart => ?_) fun m i m' h hstep => ?_
    · obtain ⟨hnode, hbuf, hnone, _⟩ := hstart
      have hinv := MemInv.start hfifo hcache hnode
      refine ⟨hinv, not_uncached_of_start hnode, fun x => ?_, fun before q r after hsplit => ?_⟩
      · rw [hnone]
        exact Coherent.start hcache hnode hbuf x
      · rw [hnone] at hsplit
        cases before <;> cases hsplit
    · obtain ⟨hplain, hlegal, out, hnext⟩ := hstep
      exact h.next hN hfifo hindex hcache hlegal hplain hnext
  exact hflat.answers _ _ _ _ hanswered htype

instance (m : MemNode p F C W) (i : MemStimulus p) : Decidable (ReadsAndWrites m i) :=
  inferInstanceAs (Decidable (_ → _ ∨ _))

/-- A store of two bytes. -/
def storeHalf : DataRequest := ⟨true, 0x10, .write, 0xAABBCCDD, 0x3⟩

/-- Lines of both sets are read, two bytes of the first are stored, and both are read again. -/
theorem storeHalf_read : ∃ m : MemNode smallParam (List Word) SetCache LineBuffer,
    m.answered = [(loadWord 0x10, .ok 7), (loadWord 0x18, .ok 7), (storeHalf, .ok 0),
      (loadWord 0x10, .ok 0xCCDD), (loadWord 0x18, .ok 7)] ∧
      Response.ok 0xCCDD = .ok (settle (answeredStores
        [(loadWord 0x10, .ok 7), (loadWord 0x18, .ok 7), (storeHalf, .ok 0)]) 4 7) := by
  have hrun : (exec (guarded ReadsAndWrites (MemNode.legalNext smallConfig (smallParts 2)))
      (readLine (loadWord 0x10) (lineCommand 0x10) 7 7 ++
        readLine (loadWord 0x18) (lineCommand 0x18) 7 7 ++ asking storeHalf [quietCycle] ++
        asking (loadWord 0x10) [quietCycle, quietCycle] ++ asking (loadWord 0x18) [quietCycle])
      smallMem).any (fun m => m.answered =
      [(loadWord 0x10, .ok 7), (loadWord 0x18, .ok 7), (storeHalf, .ok 0),
        (loadWord 0x10, .ok 0xCCDD), (loadWord 0x18, .ok 7)]) = true := by
    decide +kernel
  obtain ⟨m, hm, htest⟩ := System.exists_exec
    (S := (memSystem smallConfig (smallParts 2) fun _ => 7).under ReadsAndWrites)
    (guarded_step (MemNode.legalNext_step _)) smallMem_init hrun
  have hanswered : m.answered =
      [(loadWord 0x10, .ok 7), (loadWord 0x18, .ok 7), (storeHalf, .ok 0)] ++
        (loadWord 0x10, .ok 0xCCDD) :: [(loadWord 0x18, .ok 7)] := of_decide_eq_true htest
  exact ⟨m, hanswered, reads_flat smallConfig (smallParts 2) id (setView 2 2) (fun _ => 7)
    (Nat.le_refl 32) listFifo_laws (fun _ => Nat.one_pos) (smallCache_laws 2) hm hanswered rfl⟩

end SmcTp.Xcache
