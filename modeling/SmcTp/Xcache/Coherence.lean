import SmcTp.Xcache.DataEdge

/-!
# The data cache and the memory agree

A word has one value, the one the processor has stored last.  `Coherent` says where it is
found: in the memory once the pending stores and the store in the registers of the
data automaton have arrived, in every valid slot that holds its line, and in what has come
of a line that is being read.  One edge keeps this for each word, and changes the value
only by a store the processor is told is done (`Coherent.next`).

*Shape.*  What does not depend on the values: no line is in two slots, a line that is read
is in none, and no store to it is pending once its command has been granted.
-/

namespace SmcTp.Xcache

open Vci Clocked

variable {p : VciParams} {F C W : Type}

/-! ## Lines -/

/-- The line of a data address. -/
def XcacheConfig.lineNo (cfg : XcacheConfig p) (a : Addr) : Nat := wordNo a / cfg.dcacheWords

/-- The mask of a line leaves the address of its first word. -/
theorem wordNo_yzmask (cfg : XcacheConfig p) (a : Addr) :
    wordNo (a &&& cfg.yzmask .data) = cfg.lineNo a * cfg.dcacheWords := by
  have hwords : 2 ^ (cfg.dcacheWords.log2 + 2) = 4 * cfg.dcacheWords := by
    rw [Nat.pow_add, Nat.mul_comm]
    conv_rhs => rw [cfg.dcacheLine, Nat.one_shiftLeft]
  have hmask : a &&& cfg.yzmask .data =
      a >>> (cfg.dcacheWords.log2 + 2) <<< (cfg.dcacheWords.log2 + 2) :=
    BitVec.shiftLeft_ushiftRight.symm
  have hle : a.toNat / (4 * cfg.dcacheWords) * (4 * cfg.dcacheWords) ≤ a.toNat :=
    Nat.div_mul_le_self ..
  rw [hmask, wordNo, BitVec.toNat_shiftLeft, BitVec.toNat_ushiftRight, Nat.shiftRight_eq_div_pow,
    Nat.shiftLeft_eq, hwords, Nat.mod_eq_of_lt (Nat.lt_of_le_of_lt hle a.isLt),
    XcacheConfig.lineNo, wordNo, Nat.div_div_eq_div_mul, Nat.mul_comm 4 cfg.dcacheWords,
    ← Nat.mul_assoc, Nat.mul_div_cancel _ (by decide)]

/-- The words of the command of a line. -/
theorem targetOf_line {cfg : XcacheConfig p} (hN : 32 ≤ p.N) {a : Access} {t : CmdFlit p}
    (h : head t = a.head cfg .data .miss) :
    targetOf t = cfg.lineNo a.addr * cfg.dcacheWords := by
  have haddr : t.address = (a.addr &&& cfg.yzmask .data).setWidth p.N := congrArg Head.address h
  rw [targetOf, haddr, BitVec.setWidth_setWidth_of_le _ hN, BitVec.setWidth_eq, wordNo_yzmask]

/-! ## The store in the registers -/

/-- The store that the data automaton has still to write into the write buffer. -/
def MemNode.saved (m : MemNode p F C W) : List (Write Nat Word) :=
  let xc := m.node.xc
  if xc.dcacheFsm = .writeUpdt ∨ xc.dcacheFsm = .writeReq then
    [store xc.data.addrSave xc.dataSave.be xc.dataSave.wdata]
  else []

/-- The data cache once the store in the registers is in it. -/
def MemNode.settled (parts : Parts F C W) (m : MemNode p F C W) : C :=
  let xc := m.node.xc
  if xc.dcacheFsm = .writeUpdt then
    parts.cache.write xc.data.waySave xc.data.setSave xc.data.wordSave xc.dataSave.wdata
      xc.dataSave.be xc.dcache
  else xc.dcache

section Stores

variable {parts : Parts F C W} {m : MemNode p F C W}

/-- A request is taken when the last store has been accepted. -/
theorem accepted_of_takes (h : m.node.xc.Takes parts) : m.accepted parts = m.saved := by
  rcases h with h | ⟨h, hstored⟩
  · simp [MemNode.accepted, MemNode.saved, XcacheWrapper.stored, h]
  · simp only [MemNode.accepted, MemNode.saved, hstored, h]
    simp

theorem accepted_of_not_writeReq (h : m.node.xc.dcacheFsm ≠ .writeReq) :
    m.accepted parts = [] := by
  simp [MemNode.accepted, XcacheWrapper.stored, h]

theorem settled_of_takes (h : m.node.xc.Takes parts) : m.settled parts = m.node.xc.dcache := by
  rcases h with h | ⟨h, _⟩ <;> simp [MemNode.settled, h]

end Stores

/-! ## The shape -/

/-- What holds of the data cache and the pending stores, whatever their values. -/
structure Shape (cfg : XcacheConfig p) (view : CacheView C) (m : MemNode p F C W) : Prop where
  served : m.node.xc.dcacheFsm.Served
  unique : ∀ w s w' s' l, view.line m.node.xc.dcache w s = some l →
    view.line m.node.xc.dcache w' s' = some l → w = w' ∧ s = s'
  update : m.node.xc.dcacheFsm = .writeUpdt →
    view.slot (cfg.lineNo m.node.xc.data.addrSave) m.node.xc.data.waySave
      m.node.xc.data.setSave ∧
    view.line m.node.xc.dcache m.node.xc.data.waySave m.node.xc.data.setSave =
      some (cfg.lineNo m.node.xc.data.addrSave) ∧
    m.node.xc.data.wordSave = wordNo m.node.xc.data.addrSave % cfg.dcacheWords
  missing : ∀ f, m.node.xc.dcacheFsm = .read f → f.kind = .miss →
    ∀ w s, view.line m.node.xc.dcache w s ≠ some (cfg.lineNo m.node.xc.data.addrSave)
  slot : ∀ f, m.node.xc.dcacheFsm = .read f → f.kind = .miss → f ≠ .missSelect →
    view.slot (cfg.lineNo m.node.xc.data.addrSave) m.node.xc.data.waySave m.node.xc.data.setSave
  free : m.node.xc.dcacheFsm = .read .missWait →
    view.line m.node.xc.dcache m.node.xc.data.waySave m.node.xc.data.setSave = none
  granted : ∀ f, m.node.xc.dcacheFsm = .read f → f.kind = .miss →
    m.node.xc.data.missReq = false →
    ∀ w ∈ m.buf.pending, w.loc / cfg.dcacheWords ≠ cfg.lineNo m.node.xc.data.addrSave

/-- The invariant that does not depend on the values of the memory. -/
structure MemInv (cfg : XcacheConfig p) (contents : F → List Word) (view : CacheView C)
    (m : MemNode p F C W) : Prop where
  inv : Inv cfg contents m.node
  flawless : Flawless m.node .data
  shape : Shape cfg view m

/-! ## Lines that are read -/

variable {cfg : XcacheConfig p} {parts : Parts F C W} {contents : F → List Word}
  {view : CacheView C} {i : MemStimulus p} {m m' : MemNode p F C W} {d : DcacheOut F C W}

/-- What the data automaton does in a read, where `flits` are those that have come. -/
inductive FillEdge (cfg : XcacheConfig p) (parts : Parts F C W) (flits : List (RspFlit p))
    (s : XcacheWrapper F C W) (d : DcacheOut F C W) : Prop where
  | select (hfsm : s.dcacheFsm = .read .missSelect)
      (hnext : d.fsm = .read (if (parts.cache.victimSelect s.data.addrSave s.dcache).1.valid
        then .missInval else .missWait))
      (hcache : d.cache = (parts.cache.victimSelect s.data.addrSave s.dcache).2)
      (hway : d.side.waySave = (parts.cache.victimSelect s.data.addrSave s.dcache).1.way)
      (hset : d.side.setSave = (parts.cache.victimSelect s.data.addrSave s.dcache).1.set)
      (hword : d.side.wordSave = s.data.wordSave) (hdrsp : d.drsp = .none)
  | inval (hfsm : s.dcacheFsm = .read .missInval) (hnext : d.fsm = .read .missWait)
      (hcache : d.cache = parts.cache.inval s.data.waySave s.data.setSave s.dcache)
      (hway : d.side.waySave = s.data.waySave) (hset : d.side.setSave = s.data.setSave)
      (hword : d.side.wordSave = s.data.wordSave) (hdrsp : d.drsp = .none)
  | wait (hfsm : s.dcacheFsm = .read .missWait) (hnext : d.fsm = .read .missWait)
      (hcache : d.cache = s.dcache)
      (hway : d.side.waySave = s.data.waySave) (hset : d.side.setSave = s.data.setSave)
      (hword : d.side.wordSave = s.data.wordSave) (hdrsp : d.drsp = .none)
  | word (g : RspFlit p) (hfsm : s.dcacheFsm = .read .missWait)
      (hg : flits[s.data.wordSave]? = some g) (hnext : d.fsm = .read .missWait)
      (hcache : d.cache = parts.cache.write s.data.waySave s.data.setSave s.data.wordSave
        (wordOf g) 0xF s.dcache)
      (hway : d.side.waySave = s.data.waySave) (hset : d.side.setSave = s.data.setSave)
      (hword : d.side.wordSave = s.data.wordSave + 1) (hdrsp : d.drsp = .none)
  | last (g : RspFlit p) (hfsm : s.dcacheFsm = .read .missWait)
      (hg : flits[s.data.wordSave]? = some g) (hlast : s.data.wordSave = cfg.dcacheWords - 1)
      (hnext : d.fsm = .idle)
      (hcache : d.cache = parts.cache.victimUpdateTag s.data.addrSave s.data.waySave
        s.data.setSave (parts.cache.write s.data.waySave s.data.setSave s.data.wordSave
          (wordOf g) 0xF s.dcache)) (hdrsp : d.drsp = .none)
  | unc (hfsm : s.dcacheFsm = .read .uncWait)
      (hnext : d.fsm = .idle ∨ d.fsm = .read .uncWait) (hcache : d.cache = s.dcache)

/-- A line is filled without an answer. -/
theorem FillEdge.drsp_none {flits : List (RspFlit p)} {s : XcacheWrapper F C W}
    {d : DcacheOut F C W} (h : FillEdge cfg parts flits s d)
    (hunc : s.dcacheFsm ≠ .read .uncWait) : d.drsp = .none := by
  cases h with
  | select _ _ _ _ _ _ hdrsp => exact hdrsp
  | inval _ _ _ _ _ _ hdrsp => exact hdrsp
  | wait _ _ _ _ _ _ hdrsp => exact hdrsp
  | word _ _ _ _ _ _ _ _ hdrsp => exact hdrsp
  | last _ _ _ _ _ _ hdrsp => exact hdrsp
  | unc hsel => exact absurd hsel hunc

/-- The words the data automaton finds in its FIFO are those of the flits that have come. -/
theorem Channel.waiting_words {n : Node p F C W} {c : Client} (hc : Channel cfg contents c n)
    (hflaw : Flawless n c) (hfsm : n.xc.readFsm c = some .missWait) :
    (n.xc.side c).error = false ∧ contents (n.xc.side c).fifo =
      ((n.log c).current.flits.drop (n.xc.side c).wordSave).map wordOf := by
  cases hc with
  | rest hf => cases hfsm.symm.trans hf
  | raised k f hf hkind hbus hbuf hread => exact ⟨hbuf.error, by simp [hread.record, hbuf.fifo]⟩
  | sending k f hf hkind hselect hbus hbuf hread =>
      exact ⟨hbuf.error, by simp [hread.record, hbuf.fifo]⟩
  | waiting k t hf hbus hhead hbuf hread => exact ⟨hbuf.error, by simp [hread.record, hbuf.fifo]⟩
  | receiving k t fs hf hbus hnet hhead hgood hlength hcpt hword hfifo hbuf hread =>
      exact ⟨hbuf.error, by rw [hread.record, hbuf.fifo]⟩
  | drained k fs f hf hbus hgood hfails hreop htrdid hlength hword hbuf hread =>
      have hk : k = .miss := by
        cases k with
        | miss => rfl
        | unc => cases hfsm.symm.trans hf
      refine ⟨hbuf.error, ?_⟩
      rw [hread.record, hbuf.fifo, hword hk]
      simp
  | failed k fs f hf hbus hgood hfails hreop htrdid hlength hbuf hread =>
      have hf : fails f = false := hflaw.2 f (by rw [hread.record]; simp)
      cases hfails.symm.trans hf

/-- A line has at most its words. -/
theorem Channel.flits_le {n : Node p F C W} {c : Client} (hc : Channel cfg contents c n)
    (hfsm : n.xc.readFsm c = some .missWait) :
    (n.log c).current.flits.length ≤ cfg.words c := by
  have hmiss : ∀ k : ReadKind, n.xc.readFsm c = some k.wait → k = .miss := by
    intro k hk
    cases k with
    | miss => rfl
    | unc => cases hfsm.symm.trans hk
  cases hc with
  | rest hf => cases hfsm.symm.trans hf
  | raised k f hf hkind hbus hbuf hread => simp [hread.record]
  | sending k f hf hkind hselect hbus hbuf hread => simp [hread.record]
  | waiting k t hf hbus hhead hbuf hread => simp [hread.record]
  | receiving k t fs hf hbus hnet hhead hgood hlength hcpt hword hfifo hbuf hread =>
      obtain rfl := hmiss k hf
      rw [hread.record]
      exact Nat.le_of_lt hlength
  | drained k fs f hf hbus hgood hfails hreop htrdid hlength hword hbuf hread =>
      obtain rfl := hmiss k hf
      rw [hread.record, List.length_append]
      exact Nat.le_of_eq hlength
  | failed k fs f hf hbus hgood hfails hreop htrdid hlength hbuf hread =>
      obtain rfl := hmiss k hf
      rw [hread.record, List.length_append]
      exact hlength

/-- A word that has come has its place in the line. -/
theorem Channel.wordSave_lt {n : Node p F C W} {c : Client} (hc : Channel cfg contents c n)
    (hfsm : n.xc.readFsm c = some .missWait) {g : RspFlit p}
    (hg : (n.log c).current.flits[(n.xc.side c).wordSave]? = some g) :
    (n.xc.side c).wordSave < cfg.words c :=
  Nat.lt_of_lt_of_le (List.getElem?_eq_some_iff.mp hg).1 (hc.flits_le hfsm)

/-- What a read does, whatever the memory is. -/
theorem Channel.fill_edge (hfifo : FifoLaws parts.fifo contents) {n : Node p F C W}
    (hc : Channel cfg contents .data n) (hflaw : Flawless n .data)
    {q : DataRequest} {f : ReadFsm} (hfsm : n.xc.dcacheFsm = .read f)
    (hout : d =
      let out := readTransition parts cfg.dcacheWords (q.valid && q.addr == n.xc.data.addrSave)
        f n.xc.data n.xc.dcache
      { fsm := .ofNext out.next
        side := out.side
        save := n.xc.dataSave
        cache := out.cache
        wbuf := n.xc.wbuf
        get := out.get
        drsp := out.response
        raised := none
        effects := out.effects }) :
    FillEdge cfg parts (n.log .data).current.flits n.xc d := by
  cases f with
  | missSelect =>
      rw [hout]
      refine .select hfsm ?_ rfl rfl rfl rfl rfl
      simp only [readTransition, DcacheFsm.ofNext]
  | missInval =>
      rw [hout]
      exact .inval hfsm rfl rfl rfl rfl rfl rfl
  | missWait =>
      have hread : n.xc.readFsm .data = some .missWait := by
        simp [XcacheWrapper.readFsm, hfsm, DcacheFsm.serving]
      obtain ⟨herror, hwords⟩ := hc.waiting_words hflaw hread
      replace herror : n.xc.data.error = false := herror
      replace hwords : contents n.xc.data.fifo =
        ((n.log .data).current.flits.drop n.xc.data.wordSave).map wordOf := hwords
      cases hg : (n.log .data).current.flits[n.xc.data.wordSave]? with
      | none =>
          have hrok : parts.fifo.rok n.xc.data.fifo = false := by
            refine hfifo.rok_of_nil ?_
            rw [hwords, List.drop_eq_nil_of_le (List.getElem?_eq_none_iff.mp hg)]
            rfl
          have hwait := readTransition_wait cfg.dcacheWords
            (q.valid && q.addr == n.xc.data.addrSave) .miss n.xc.dcache herror hrok
          simp only [ReadKind.wait] at hwait
          rw [hout, hwait]
          exact .wait hfsm rfl rfl rfl rfl rfl rfl
      | some g =>
          obtain ⟨hlt, hget⟩ := List.getElem?_eq_some_iff.mp hg
          have hcontents : contents n.xc.data.fifo = wordOf g ::
              ((n.log .data).current.flits.drop (n.xc.data.wordSave + 1)).map wordOf := by
            rw [hwords, List.drop_eq_getElem_cons hlt, hget]
            rfl
          have hrok : parts.fifo.rok n.xc.data.fifo = true := hfifo.rok_of_cons hcontents
          have hdata : parts.fifo.read n.xc.data.fifo = wordOf g :=
            hfifo.read _ _ _ hcontents
          by_cases hlast : n.xc.data.wordSave = cfg.dcacheWords - 1
          · rw [hout, readTransition_last herror hrok hlast, hdata]
            exact .last g hfsm hg hlast rfl rfl rfl
          · rw [hout, readTransition_word herror hrok hlast, hdata]
            exact .word g hfsm hg rfl rfl rfl rfl rfl rfl
  | uncWait =>
      rw [hout]
      refine .unc hfsm ?_ ?_
      · simp only [readTransition]
        split_ifs
        · exact .inl rfl
        · exact .inl rfl
        · exact .inl rfl
        · exact .inr rfl
      · simp only [readTransition]
        split_ifs <;> rfl

theorem fill_edge (hfifo : FifoLaws parts.fifo contents) (hm : MemInv cfg contents view m)
    {q : DataRequest} {f : ReadFsm} (hfsm : m.node.xc.dcacheFsm = .read f)
    (hout : d =
      let out := readTransition parts cfg.dcacheWords (q.valid && q.addr == m.node.xc.data.addrSave)
        f m.node.xc.data m.node.xc.dcache
      { fsm := .ofNext out.next
        side := out.side
        save := m.node.xc.dataSave
        cache := out.cache
        wbuf := m.node.xc.wbuf
        get := out.get
        drsp := out.response
        raised := none
        effects := out.effects }) :
    FillEdge cfg parts (m.node.log .data).current.flits m.node.xc d :=
  (hm.inv.channel .data).fill_edge hfifo hm.flawless hfsm hout

/-- A word of the data cache that has come has its place in the line. -/
theorem Inv.wordSave_lt {n : Node p F C W} (h : Inv cfg contents n)
    (hfsm : n.xc.dcacheFsm = .read .missWait) {g : RspFlit p}
    (hg : (n.log .data).current.flits[n.xc.data.wordSave]? = some g) :
    n.xc.data.wordSave < cfg.dcacheWords :=
  (h.channel .data).wordSave_lt (by simp [XcacheWrapper.readFsm, hfsm, DcacheFsm.serving]) hg

/-! ## The memory after an edge -/

/-- The word a store conditional writes in a cycle. -/
def MemStimulus.performed (i : MemStimulus p) (m : MemNode p F C W) : Option (Nat × Word) :=
  match i.sc, m.node.net.conditional with
  | some true, some t => some (targetOf t, t.wdata.setWidth 32)
  | _, _ => none

theorem memNext_ok {out : XcacheOut F C W} (h : m.next cfg parts i = .ok (m', out)) :
    m.node.next cfg parts i.base = .ok (m'.node, out) ∧
    m'.buf.pending = (m.buf.commits i.commits).pending ++ m.accepted parts ∧
    m'.buf.mem = (MemNode.perform i.sc m.node.net (m.buf.commits i.commits)).mem ∧
    (∀ x, m'.seen x = if (m.node.wires cfg parts i.base).cmdTransfer &&
          (m.node.wires cfg parts i.base).eop &&
          isDataLine (m.node.wires cfg parts i.base).cmdFlit
        then [m'.buf.mem x, m.buf.mem x] else m'.buf.mem x :: m.seen x) ∧
    m'.answered =
      (if out.drsp.valid then m.answered ++ [(i.base.dreq, out.drsp)] else m.answered) := by
  simp only [MemNode.next] at h
  split at h
  · cases h
  · rename_i n' out' hnext
    cases h
    refine ⟨hnext, ?_, rfl, fun _ => rfl, rfl⟩
    show (MemNode.perform i.sc m.node.net (m.buf.commits i.commits)).pending ++ _ = _
    unfold MemNode.perform
    split <;> rfl

/-- A store that is pending after an edge was pending or accepted before. -/
theorem mem_pending_next {out : XcacheOut F C W} (h : m.next cfg parts i = .ok (m', out))
    {w : Write Nat Word} (hw : w ∈ m'.buf.pending) :
    w ∈ m.buf.pending ++ m.accepted parts := by
  rw [(memNext_ok h).2.1] at hw
  rcases List.mem_append.mp hw with hw | hw
  · exact List.mem_append_left _ (Buffer.mem_commits hw)
  · exact List.mem_append_right _ hw

/-- The memory and the pending stores, where no store conditional writes. -/
theorem value_next {out : XcacheOut F C W} (h : m.next cfg parts i = .ok (m', out))
    (horder : m.buf.InOrder (· / cfg.dcacheWords) i.commits) {x : Nat}
    (hsc : ∀ v, i.performed m ≠ some (x, v)) :
    m'.buf.value x = settle (m.accepted parts) x (m.buf.value x) := by
  obtain ⟨_, hpending, hmem, _⟩ := memNext_ok h
  have hsame : m'.buf.mem x = (m.buf.commits i.commits).mem x := by
    rw [hmem]
    unfold MemNode.perform
    split
    · rename_i t hsc' ht
      have hne : targetOf t ≠ x := by
        intro hx
        refine hsc (t.wdata.setWidth 32) ?_
        simp [MemStimulus.performed, hsc', ht, hx]
      exact Write.on_ne hne _
    · rfl
  rw [Buffer.value, hpending, settle_append, hsame]
  show settle _ x ((m.buf.commits i.commits).value x) = _
  rw [Buffer.value_commits horder]

/-! ## The shape after an edge -/

/-- A read keeps its request. -/
theorem readTransition_missReq (words : Nat) (same : Bool) (f : ReadFsm) (side : Side F)
    (cache : C) :
    (readTransition parts words same f side cache).side.missReq = side.missReq := by
  cases f with
  | missSelect => rfl
  | missInval => rfl
  | missWait =>
      simp only [readTransition]
      split_ifs <;> rfl
  | uncWait =>
      simp only [readTransition]
      split_ifs <;> rfl

/-- Once the command of a line is granted, no store to the line is pending. -/
theorem pending_free {cmd : CmdOut W} {rsp : RspOut W} {drsp : Response}
    (hm : MemInv cfg contents view m) (hlegal : m.Legal cfg parts i)
    (hd : DataCycle cfg parts i.base m.node m'.node d cmd rsp drsp) {f : ReadFsm}
    (hfsm : m.node.xc.dcacheFsm = .read f) (hkind : f.kind = .miss)
    (hkeep : d.side.missReq = m.node.xc.data.missReq)
    (hclear : m'.node.xc.data.missReq = false) :
    ∀ w ∈ m.buf.pending ++ m.accepted parts,
      w.loc / cfg.dcacheWords ≠ cfg.lineNo m.node.xc.data.addrSave := by
  have hnone : m.accepted parts = [] :=
    accepted_of_not_writeReq (by rw [hfsm]; exact DcacheFsm.noConfusion)
  cases hreq : m.node.xc.data.missReq with
  | false =>
      rw [hnone, List.append_nil]
      exact hm.shape.granted f hfsm hkind hreq
  | true =>
      obtain ⟨out, _, _, _, hside, he⟩ := hd.edge
      have hgrant : cmd.grant = some (.data, .miss) := by
        by_contra hne
        have hkept := he.req .miss
        rw [if_neg hne, hside] at hkept
        exact Bool.false_ne_true (hclear.symm.trans (hkept.trans (hkeep.trans hreq)))
      cases he.grants with
      | write _ _ hnot => cases hnot.symm.trans hgrant
      | send _ _ _ _ hnot => cases hnot.symm.trans hgrant
      | grant c k _ _ hmiss _ hgrant' =>
          cases hgrant'.symm.trans hgrant
          exact hlegal.miss (hmiss rfl)

/-- A cycle that reads no line and updates no slot. -/
theorem Shape.of_other (hm : MemInv cfg contents view m)
    (hlines : ∀ w s, view.line m'.node.xc.dcache w s = view.line m.node.xc.dcache w s)
    (hserved : m'.node.xc.dcacheFsm.Served) (hupdt : m'.node.xc.dcacheFsm ≠ .writeUpdt)
    (hread : ∀ f, m'.node.xc.dcacheFsm = .read f → f.kind ≠ .miss) : Shape cfg view m' where
  served := hserved
  unique w s w' s' l h h' := by
    rw [hlines] at h h'
    exact hm.shape.unique w s w' s' l h h'
  update h := absurd h hupdt
  missing f h hkind := absurd hkind (hread f h)
  slot f h hkind := absurd hkind (hread f h)
  free h := absurd rfl (hread _ h)
  granted f h hkind := absurd hkind (hread f h)

theorem Shape.next (hfifo : FifoLaws parts.fifo contents)
    (hcache : CacheLaws parts.cache cfg.dcacheWords view) (hm : MemInv cfg contents view m)
    (hlegal : m.Legal cfg parts i) {out : XcacheOut F C W}
    (hnext : m.next cfg parts i = .ok (m', out)) (hinv' : Inv cfg contents m'.node) :
    Shape cfg view m' := by
  obtain ⟨hnode, _⟩ := memNext_ok hnext
  obtain ⟨d, cmd, rsp, hd⟩ := next_data hm.shape.served hlegal.request hnode
  have hlines : ∀ a w s, view.line (parts.cache.read a m.node.xc.dcache).2 w s =
      view.line m.node.xc.dcache w s := fun a w s => hcache.read_line a _ w s
  have hfsm' : m'.node.xc.dcacheFsm = d.fsm := hd.dcacheFsm
  have hdc' : m'.node.xc.dcache = d.cache := hd.dcache
  -- a cycle that keeps the lines and leaves no miss behind
  have hquiet (hkept : ∀ w s, view.line d.cache w s = view.line m.node.xc.dcache w s)
      (hfsm : d.fsm = .idle ∨ d.fsm = .writeReq ∨ d.fsm = .read .uncWait) : Shape cfg view m' := by
    rw [← hfsm'] at hfsm
    refine Shape.of_other hm (fun w s => hdc' ▸ hkept w s) ?_ ?_ ?_
    · rcases hfsm with h | h | h <;> simp [h, DcacheFsm.Served]
    · rcases hfsm with h | h | h <;> simp [h]
    · rintro f hf
      rcases hfsm with h | h | h <;> cases h.symm.trans hf
      exact ReadKind.noConfusion
  cases hd.data with
  | rest htakes hvalid hfsm hc hdrsp hraised => exact hquiet (fun w s => by rw [hc]) (.inl hfsm)
  | readHit htakes hvalid htype hhit hfsm hc hdrsp hraised =>
      exact hquiet (fun w s => by rw [hc, hlines]) (.inl hfsm)
  | writeMiss htakes hvalid htype hhit hfsm hc hdrsp haddr hwdata hbe hraised =>
      exact hquiet (fun w s => by rw [hc, hlines]) (.inr (.inl hfsm))
  | unc htakes hvalid htype hfsm hc hdrsp haddr hwdata hsave hraised =>
      exact hquiet (fun w s => by rw [hc, hlines]) (.inr (.inr hfsm))
  | update hold hfsm hc hside hsave hdrsp hraised =>
      exact hquiet (fun w s => by rw [hc, hcache.write_line]) (.inr (.inl hfsm))
  | refused hold hstored hfsm hc hside hsave hdrsp hraised =>
      exact hquiet (fun w s => by rw [hc]) (.inr (.inl hfsm))
  | readMiss htakes hvalid htype hhit hfsm hc hdrsp haddr hreq hraised =>
      have hsel : m'.node.xc.dcacheFsm = .read .missSelect := hfsm'.trans hfsm
      have hread : m'.node.xc.readFsm .data = some .missSelect := by
        simp [XcacheWrapper.readFsm, hsel, DcacheFsm.serving]
      refine ⟨?_, ?_, ?_, ?_, ?_, ?_, ?_⟩
      · simp [hsel, DcacheFsm.Served]
      · intro w s w' s' l h h'
        rw [hdc', hc, hlines] at h h'
        exact hm.shape.unique w s w' s' l h h'
      · simp [hsel]
      · intro f h hkind w s
        rw [hdc', hc, hlines, hd.addrSave, haddr]
        exact hcache.miss _ _ hhit w s
      · rw [hsel]
        rintro f ⟨⟩ hkind hne
        exact absurd rfl hne
      · simp [hsel]
      · -- the flag of the request has just been set
        intro f h hkind hclear
        cases hinv'.channel .data with
        | rest hf => cases hread.symm.trans hf
        | raised k f' hf hkind' hbus =>
            cases hread.symm.trans hf
            obtain rfl : k = .miss := hkind'.symm
            cases hclear.symm.trans ((hbus.req .miss).mpr rfl)
        | sending k f' hf hkind' hselect =>
            cases hread.symm.trans hf
            exact absurd rfl hselect
        | waiting k t hf => cases k <;> cases hread.symm.trans hf
        | receiving k t fs hf => cases k <;> cases hread.symm.trans hf
        | drained k fs f' hf => cases k <;> cases hread.symm.trans hf
        | failed k fs f' hf => cases k <;> cases hread.symm.trans hf
  | writeHit htakes hvalid htype hhit hfsm hc hdrsp haddr hway hset hword hwdata hbe hraised =>
      obtain ⟨hslot, hline, hindex, _⟩ := hcache.hit _ _ hhit
      have hupdt : m'.node.xc.dcacheFsm = .writeUpdt := hfsm'.trans hfsm
      refine ⟨?_, ?_, ?_, ?_, ?_, ?_, ?_⟩
      · simp [hupdt, DcacheFsm.Served]
      · intro w s w' s' l h h'
        rw [hdc', hc, hlines] at h h'
        exact hm.shape.unique w s w' s' l h h'
      · intro _
        rw [hd.waySave, hd.setSave, hd.wordSave, hd.addrSave, hway, hset, hword, haddr, hdc', hc,
          hlines]
        exact ⟨hslot, hline, hindex⟩
      · simp [hupdt]
      · simp [hupdt]
      · simp [hupdt]
      · simp [hupdt]
  | read f hold hout =>
      have haddr : m'.node.xc.data.addrSave = m.node.xc.data.addrSave := by
        rw [hd.addrSave, hout]
        exact readTransition_addrSave ..
      have hkeep : d.side.missReq = m.node.xc.data.missReq := by
        rw [hout]
        exact readTransition_missReq ..
      have hgranted : f.kind = .miss → m'.node.xc.data.missReq = false →
          ∀ w ∈ m'.buf.pending, w.loc / cfg.dcacheWords ≠ cfg.lineNo m'.node.xc.data.addrSave := by
        intro hkind hclear w hw
        rw [haddr]
        exact pending_free hm hlegal hd hold hkind hkeep hclear w (mem_pending_next hnext hw)
      cases fill_edge hfifo hm hold hout with
      | select hsel hfsm hc hway hset hword hdrsp =>
          cases hold.symm.trans hsel
          have hslot := hcache.select_slot m.node.xc.data.addrSave m.node.xc.dcache
          refine ⟨?_, ?_, ?_, ?_, ?_, ?_, ?_⟩
          · simp [hfsm', hfsm, DcacheFsm.Served]
          · intro w s w' s' l h h'
            rw [hdc', hc, hcache.select_line] at h h'
            exact hm.shape.unique w s w' s' l h h'
          · simp [hfsm', hfsm]
          · intro f h hkind w s
            rw [hdc', hc, hcache.select_line, haddr]
            exact hm.shape.missing _ hold rfl w s
          · intro f h hkind hne
            rw [hd.addrSave, hd.waySave, hd.setSave, hway, hset, hout, readTransition_addrSave]
            exact hslot
          · intro h
            rw [hfsm', hfsm] at h
            rw [hdc', hc, hcache.select_line, hd.waySave, hd.setSave, hway, hset]
            refine hcache.select_free _ _ (Bool.eq_false_iff.mpr fun hvalid => ?_)
            rw [if_pos hvalid] at h
            cases h
          · intro f h hkind
            exact hgranted rfl
      | inval hsel hfsm hc hway hset hword hdrsp =>
          cases hold.symm.trans hsel
          have hslot := hm.shape.slot _ hold rfl ReadFsm.noConfusion
          refine ⟨?_, ?_, ?_, ?_, ?_, ?_, ?_⟩
          · simp [hfsm', hfsm, DcacheFsm.Served]
          · intro w s w' s' l h h'
            rw [hdc', hc, hcache.inval_line _ _ _ _ _ _ hslot] at h h'
            split_ifs at h h'
            exact hm.shape.unique w s w' s' l h h'
          · simp [hfsm', hfsm]
          · intro f h hkind w s
            rw [hdc', hc, hcache.inval_line _ _ _ _ _ _ hslot, haddr]
            split_ifs
            · simp
            · exact hm.shape.missing _ hold rfl w s
          · intro f h hkind hne
            rw [hd.addrSave, hd.waySave, hd.setSave, hway, hset, hout, readTransition_addrSave]
            exact hslot
          · intro h
            rw [hdc', hc, hd.waySave, hd.setSave, hway, hset, hcache.inval_line _ _ _ _ _ _ hslot]
            simp
          · intro f h hkind
            exact hgranted rfl
      | wait hsel hfsm hc hway hset hword hdrsp =>
          cases hold.symm.trans hsel
          refine ⟨?_, ?_, ?_, ?_, ?_, ?_, ?_⟩
          · simp [hfsm', hfsm, DcacheFsm.Served]
          · rw [hdc', hc]
            exact hm.shape.unique
          · simp [hfsm', hfsm]
          · intro f h hkind
            rw [hdc', hc, haddr]
            exact hm.shape.missing _ hold rfl
          · intro f h hkind hne
            rw [hd.addrSave, hd.waySave, hd.setSave, hway, hset, hout, readTransition_addrSave]
            exact hm.shape.slot _ hold rfl ReadFsm.noConfusion
          · intro h
            rw [hdc', hc, hd.waySave, hd.setSave, hway, hset]
            exact hm.shape.free hold
          · intro f h hkind
            exact hgranted rfl
      | word g hsel hg hfsm hc hway hset hword hdrsp =>
          cases hold.symm.trans hsel
          refine ⟨?_, ?_, ?_, ?_, ?_, ?_, ?_⟩
          · simp [hfsm', hfsm, DcacheFsm.Served]
          · intro w s w' s' l h h'
            rw [hdc', hc, hcache.write_line] at h h'
            exact hm.shape.unique w s w' s' l h h'
          · simp [hfsm', hfsm]
          · intro f h hkind w s
            rw [hdc', hc, hcache.write_line, haddr]
            exact hm.shape.missing _ hold rfl w s
          · intro f h hkind hne
            rw [hd.addrSave, hd.waySave, hd.setSave, hway, hset, hout, readTransition_addrSave]
            exact hm.shape.slot _ hold rfl ReadFsm.noConfusion
          · intro h
            rw [hdc', hc, hcache.write_line, hd.waySave, hd.setSave, hway, hset]
            exact hm.shape.free hold
          · intro f h hkind
            exact hgranted rfl
      | last g hsel hg hlast hfsm hc hdrsp =>
          cases hold.symm.trans hsel
          have hslot := hm.shape.slot _ hold rfl ReadFsm.noConfusion
          have hmissing := hm.shape.missing _ hold rfl
          refine ⟨?_, ?_, ?_, ?_, ?_, ?_, ?_⟩
          · simp [hfsm', hfsm, DcacheFsm.Served]
          · intro w s w' s' l h h'
            rw [hdc', hc, hcache.update_line _ _ _ _ _ _ hslot, hcache.write_line] at h h'
            split_ifs at h h' with hw hw' hw'
            · exact ⟨hw.1.trans hw'.1.symm, hw.2.trans hw'.2.symm⟩
            · cases h
              exact absurd h' (hmissing w' s')
            · cases h'
              exact absurd h (hmissing w s)
            · exact hm.shape.unique w s w' s' l h h'
          · simp [hfsm', hfsm]
          · simp [hfsm', hfsm]
          · simp [hfsm', hfsm]
          · simp [hfsm', hfsm]
          · simp [hfsm', hfsm]
      | unc hsel hfsm hc =>
          refine Shape.of_other hm ?_ ?_ ?_ ?_
          · intro w s
            rw [hdc', hc]
          · rcases hfsm with hfsm | hfsm <;> simp [hfsm', hfsm, DcacheFsm.Served]
          · rcases hfsm with hfsm | hfsm <;> simp [hfsm', hfsm]
          · intro f' h
            rcases hfsm with hfsm | hfsm
            · cases (hfsm'.trans hfsm).symm.trans h
            · cases (hfsm'.trans hfsm).symm.trans h
              exact ReadKind.noConfusion

/-! ## Runs -/

theorem MemInv.start (hfifo : FifoLaws parts.fifo contents)
    (hcache : CacheLaws parts.cache cfg.dcacheWords view) (hstart : m.node.Start parts) :
    MemInv cfg contents view m := by
  have hinv : Inv cfg contents m.node := .start hfifo hstart
  obtain ⟨⟨s, hxc⟩, _, hlog⟩ := hstart
  have hidle : m.node.xc.dcacheFsm = .idle := by
    rw [hxc]
    rfl
  refine ⟨hinv, ⟨?_, ?_⟩, ?_, ?_, ?_, ?_, ?_, ?_, ?_⟩
  · simp [hlog]
  · simp [hlog, Record.blank]
  · simp [hidle, DcacheFsm.Served]
  · intro w s w' s' l hl
    rw [hxc] at hl
    cases (hcache.reset _ w s).symm.trans hl
  · simp [hidle]
  · simp [hidle]
  · simp [hidle]
  · simp [hidle]
  · simp [hidle]

theorem MemInv.next (hfifo : FifoLaws parts.fifo contents)
    (hindex : ∀ w, parts.wbuf.getIndex w < cfg.wbufNlines)
    (hcache : CacheLaws parts.cache cfg.dcacheWords view) (hm : MemInv cfg contents view m)
    (hlegal : m.Legal cfg parts i) {out : XcacheOut F C W}
    (hnext : m.next cfg parts i = .ok (m', out)) : MemInv cfg contents view m' := by
  obtain ⟨hnode, _⟩ := memNext_ok hnext
  have hinv' := hm.inv.next hfifo hindex (errorFree_clean cfg) hlegal.net hnode
  exact ⟨hinv', hm.flawless.next hlegal.net hnode, Shape.next hfifo hcache hm hlegal hnext hinv'⟩

end SmcTp.Xcache
