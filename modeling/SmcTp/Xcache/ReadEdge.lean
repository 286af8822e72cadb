import SmcTp.Xcache.Interconnect

/-!
# What one edge does to a client

The automata of the two caches do the same to the registers of their sides, so that
an edge is described once, for a client.  `Serves` says what a cache automaton can do
with a read, and `Grants` what the command automaton can do.
-/

namespace SmcTp.Xcache

open Vci

variable {p : VciParams} {F C W : Type}

/-! ## The cache automata -/

/-- What a cache automaton does in a cycle, whichever it is. -/
structure ClientOut (F C : Type) where
  fsm : Option ReadFsm
  side : Side F
  saved : Access
  cache : C
  get : Bool
  response : Response
  raised : Option ReadKind
  effects : List Effect

/-- The outputs for one client. -/
def ClientOut.ofParts (i : IcacheOut F C) (d : DcacheOut F C W) : Client → ClientOut F C
  | .ins =>
      { fsm := i.fsm.serving
        side := i.side
        saved := ⟨i.side.addrSave, .read, 0xF⟩
        cache := i.cache
        get := i.get
        response := i.irsp
        raised := i.raised
        effects := i.effects }
  | .data =>
      { fsm := d.fsm.serving
        side := d.side
        saved := ⟨d.side.addrSave, d.save.type, d.save.be⟩
        cache := d.cache
        get := d.get
        response := d.drsp
        raised := d.raised
        effects := d.effects }

/-- The flag of a request. -/
def Side.req (side : Side F) : ReadKind → Bool
  | .miss => side.missReq
  | .unc => side.uncReq

/-- Outside of a read an automaton leaves the flags and the FIFO alone. -/
structure Side.Same (a b : Side F) : Prop where
  req : ∀ k, b.req k = a.req k
  error : b.error = a.error
  fifo : b.fifo = a.fifo

/-- A cache automaton does what a cycle of a read says. -/
structure ServesRead (r : ReadOut F C) (saved : Access) (out : ClientOut F C) : Prop where
  next : out.fsm = r.next
  side : out.side = r.side
  saved : out.saved = saved
  cache : out.cache = r.cache
  get : out.get = r.get
  response : out.response = r.response
  raised : out.raised = none
  effects : out.effects = r.effects

/-- What a cache automaton can do.  `same` says that the processor still asks for the saved
address. -/
inductive Serves (parts : Parts F C W) (words : Nat) (asked : Access) (same : Bool)
    (fsm : Option ReadFsm) (side : Side F) (cache : C) (saved : Access) (out : ClientOut F C) :
    Prop where
  | rest (hfsm : fsm = none) (hnext : out.fsm = none) (hsame : side.Same out.side)
      (hget : out.get = false) (hraised : out.raised = none) (heffects : out.effects = [])
      (hresponse : out.response.error = false)
  | raise (k : ReadKind) (hfsm : fsm = none) (hnext : out.fsm = some k.start)
      (hsaved : out.saved = asked) (hplain : asked.type.plain = true)
      (hreq : ∀ k', out.side.req k' = (decide (k' = k) || side.req k'))
      (hword : k = .miss → out.side.wordSave = 0)
      (hmiss : k = .miss → (parts.cache.read asked.addr cache).1.hit = false ∧
        out.cache = (parts.cache.read asked.addr cache).2)
      (herror : out.side.error = side.error) (hfifo : out.side.fifo = side.fifo)
      (hget : out.get = false) (hraised : out.raised = some k) (heffects : out.effects = [])
      (hresponse : out.response = .none)
  | read (f : ReadFsm) (hfsm : fsm = some f)
      (hread : ServesRead (readTransition parts words same f side cache) saved out)

/-- What is left of an edge when a read is under way. -/
theorem Serves.of_read {parts : Parts F C W} {words : Nat} {asked saved : Access} {same : Bool}
    {fsm : Option ReadFsm} {side : Side F} {cache : C} {out : ClientOut F C} {f : ReadFsm}
    (h : Serves parts words asked same fsm side cache saved out) (hfsm : fsm = some f) :
    ServesRead (readTransition parts words same f side cache) saved out := by
  cases h with
  | rest hf => cases hfsm.symm.trans hf
  | raise k hf => cases hfsm.symm.trans hf
  | read f' hf hread =>
      cases hfsm.symm.trans hf
      exact hread

/-- A read keeps its address. -/
theorem readTransition_addrSave (parts : Parts F C W) (words : Nat) (same : Bool)
    (f : ReadFsm) (side : Side F) (cache : C) :
    (readTransition parts words same f side cache).side.addrSave = side.addrSave := by
  cases f with
  | missSelect => rfl
  | missInval => rfl
  | missWait =>
      simp only [readTransition]
      split_ifs <;> rfl
  | uncWait =>
      simp only [readTransition]
      split_ifs <;> rfl

section Automata

variable (cfg : XcacheConfig p) (parts : Parts F C W) (ireq : InsRequest) (dreq : DataRequest)

theorem icacheTransition_serves (d : DcacheOut F C W) (fsm : IcacheFsm) (side : Side F)
    (cache : C) :
    Serves parts cfg.icacheWords (asked ireq dreq .ins) (ireq.valid && ireq.addr == side.addrSave)
      fsm.serving side cache ⟨side.addrSave, .read, 0xF⟩
      (ClientOut.ofParts (icacheTransition cfg parts ireq fsm side cache) d .ins) := by
  cases fsm with
  | idle =>
      simp only [icacheTransition]
      split_ifs with hvalid hcacheable hhit
      · exact .rest rfl rfl ⟨fun _ => rfl, rfl, rfl⟩ rfl rfl rfl rfl
      · refine .raise .miss rfl rfl rfl rfl ?_ (fun _ => rfl)
          (fun _ => ⟨Bool.eq_false_iff.mpr hhit, rfl⟩) rfl rfl rfl rfl rfl rfl
        intro k
        cases k <;> rfl
      · refine .raise .unc rfl rfl rfl rfl ?_ (by simp) (by simp) rfl rfl rfl rfl rfl rfl
        intro k
        cases k <;> rfl
      · exact .rest rfl rfl ⟨fun _ => rfl, rfl, rfl⟩ rfl rfl rfl rfl
  | read f =>
      refine .read f rfl ⟨?_, rfl, ?_, rfl, rfl, rfl, rfl, rfl⟩
      · simp [ClientOut.ofParts, icacheTransition]
      · simp [ClientOut.ofParts, icacheTransition, readTransition_addrSave]

theorem dcacheRequest_serves {i : IcacheOut F C} {d : DcacheOut F C W} {side : Side F}
    {save : DataSave} {cache : C} {wbuf : W}
    (h : dcacheRequest cfg parts dreq side save cache wbuf = .ok d) :
    Serves parts cfg.dcacheWords (asked ireq dreq .data) (dreq.valid && dreq.addr == side.addrSave)
      none side cache ⟨side.addrSave, save.type, save.be⟩ (ClientOut.ofParts i d .data) := by
  have hunc : ∀ k, Side.req { side with uncReq := true } k =
      (decide (k = .unc) || side.req k) := by
    intro k
    cases k <;> rfl
  have hmiss : ∀ k, Side.req { side with missReq := true } k =
      (decide (k = .miss) || side.req k) := by
    intro k
    cases k <;> rfl
  cases hvalid : dreq.valid with
  | false =>
      simp only [dcacheRequest, hvalid] at h
      cases h
      exact .rest rfl rfl ⟨fun _ => rfl, rfl, rfl⟩ rfl rfl rfl rfl
  | true =>
    simp only [dcacheRequest, hvalid, if_true] at h
    cases htype : dreq.type with
    | read =>
        simp only [htype] at h
        split_ifs at h with hcacheable hhit
        · cases h
          exact .rest rfl rfl ⟨fun _ => rfl, rfl, rfl⟩ rfl rfl rfl rfl
        · cases h
          exact .raise .miss rfl rfl (by simp [ClientOut.ofParts, asked, htype])
            (by simp [asked, htype, DataType.plain]) hmiss (fun _ => rfl)
            (fun _ => ⟨Bool.eq_false_iff.mpr hhit, rfl⟩) rfl rfl rfl rfl rfl rfl
        · cases h
          exact .raise .unc rfl rfl (by simp [ClientOut.ofParts, asked, htype])
            (by simp [asked, htype, DataType.plain]) hunc (by simp) (by simp) rfl rfl rfl rfl rfl
            rfl
    | write =>
        simp only [htype] at h
        split_ifs at h with hcacheable hhit
        · cases h
          exact .rest rfl rfl ⟨fun _ => rfl, rfl, rfl⟩ rfl rfl rfl rfl
        · cases h
          exact .rest rfl rfl ⟨fun _ => rfl, rfl, rfl⟩ rfl rfl rfl rfl
        · cases h
          exact .raise .unc rfl rfl (by simp [ClientOut.ofParts, asked, htype])
            (by simp [asked, htype, DataType.plain]) hunc (by simp) (by simp) rfl rfl rfl rfl rfl
            rfl
    | ll | sc =>
        simp only [htype] at h
        cases h
        exact .raise .unc rfl rfl (by simp [ClientOut.ofParts, asked, htype])
          (by simp [asked, htype, DataType.plain]) hunc (by simp) (by simp) rfl rfl rfl rfl rfl
            rfl
    | xtnWrite | xtnRead =>
        simp only [htype] at h
        split_ifs at h <;> cases h <;>
          exact .rest rfl rfl ⟨fun _ => rfl, rfl, rfl⟩ rfl rfl rfl rfl

theorem dcacheTransition_serves {i : IcacheOut F C} {d : DcacheOut F C W} {fsm : DcacheFsm}
    {side : Side F} {save : DataSave} {cache : C} {wbuf : W}
    (h : dcacheTransition cfg parts dreq fsm side save cache wbuf = .ok d) :
    Serves parts cfg.dcacheWords (asked ireq dreq .data) (dreq.valid && dreq.addr == side.addrSave)
      fsm.serving side cache ⟨side.addrSave, save.type, save.be⟩ (ClientOut.ofParts i d .data) := by
  cases fsm with
  | idle => exact dcacheRequest_serves cfg parts ireq dreq h
  | writeUpdt =>
      cases h
      exact .rest rfl rfl ⟨fun _ => rfl, rfl, rfl⟩ rfl rfl rfl rfl
  | writeReq =>
      simp only [dcacheTransition] at h
      split_ifs at h with haccepted
      · exact dcacheRequest_serves cfg parts ireq dreq h
      · cases h
        exact .rest rfl rfl ⟨fun _ => rfl, rfl, rfl⟩ rfl rfl rfl rfl
  | read f =>
      cases h
      refine .read f rfl ⟨?_, rfl, ?_, rfl, rfl, rfl, rfl, rfl⟩
      · simp [ClientOut.ofParts]
      · simp [ClientOut.ofParts, readTransition_addrSave]
  | xtnHit =>
      simp only [dcacheTransition] at h
      split_ifs at h <;> cases h <;>
        exact .rest rfl rfl ⟨fun k => by cases k <;> rfl, rfl, rfl⟩ rfl rfl rfl rfl
  | xtnInval =>
      cases h
      exact .rest rfl rfl ⟨fun _ => rfl, rfl, rfl⟩ rfl rfl rfl rfl
  | xtnSync =>
      simp only [dcacheTransition] at h
      split_ifs at h <;> cases h <;>
        exact .rest rfl rfl ⟨fun _ => rfl, rfl, rfl⟩ rfl rfl rfl rfl

end Automata

/-! ## The write buffer -/

/-- What the write buffer says to the data automaton, and its next state. -/
def XcacheWrapper.stored (parts : Parts F C W) (s : XcacheWrapper F C W) : Bool × W :=
  if s.dcacheFsm = .writeReq then
    parts.wbuf.write s.data.addrSave s.dataSave.be s.dataSave.wdata true s.wbuf
  else (false, s.wbuf)

theorem XcacheWrapper.stored_of_writeReq {parts : Parts F C W} {s : XcacheWrapper F C W}
    (h : s.dcacheFsm = .writeReq) :
    s.stored parts =
      parts.wbuf.write s.data.addrSave s.dataSave.be s.dataSave.wdata true s.wbuf := if_pos h

/-- The data automaton takes a request in this cycle: it is idle, or the write buffer accepts the
store it hands over. -/
def XcacheWrapper.Takes (parts : Parts F C W) (s : XcacheWrapper F C W) : Prop :=
  s.dcacheFsm = .idle ∨ s.dcacheFsm = .writeReq ∧ (s.stored parts).1 = true

theorem dcacheRequest_wbuf {cfg : XcacheConfig p} {parts : Parts F C W} {dreq : DataRequest}
    {d : DcacheOut F C W} {side : Side F} {save : DataSave} {cache : C} {wbuf : W}
    (h : dcacheRequest cfg parts dreq side save cache wbuf = .ok d) : d.wbuf = wbuf := by
  cases hvalid : dreq.valid with
  | false =>
      simp only [dcacheRequest, hvalid] at h
      cases h
      rfl
  | true =>
      simp only [dcacheRequest, hvalid] at h
      cases htype : dreq.type <;> simp only [htype] at h <;> split_ifs at h <;> cases h <;> rfl

/-- Only a store changes the write buffer. -/
theorem dcacheTransition_wbuf {cfg : XcacheConfig p} {parts : Parts F C W} {dreq : DataRequest}
    {d : DcacheOut F C W} {s : XcacheWrapper F C W}
    (h : dcacheTransition cfg parts dreq s.dcacheFsm s.data s.dataSave s.dcache s.wbuf = .ok d) :
    d.wbuf = (s.stored parts).2 := by
  unfold XcacheWrapper.stored
  cases hfsm : s.dcacheFsm with
  | writeReq =>
      rw [hfsm] at h
      simp only [dcacheTransition] at h
      split_ifs at h with haccepted
      · exact dcacheRequest_wbuf h
      · cases h
        rfl
  | idle =>
      rw [hfsm] at h
      exact dcacheRequest_wbuf h
  | writeUpdt =>
      rw [hfsm] at h
      cases h
      rfl
  | read f =>
      rw [hfsm] at h
      cases h
      rfl
  | xtnHit =>
      rw [hfsm] at h
      simp only [dcacheTransition] at h
      split_ifs at h <;> cases h <;> rfl
  | xtnInval =>
      rw [hfsm] at h
      cases h
      rfl
  | xtnSync =>
      rw [hfsm] at h
      simp only [dcacheTransition] at h
      split_ifs at h <;> cases h <;> rfl

/-! ## The command automaton -/

/-- What the command automaton can do. -/
inductive Grants (parts : Parts F C W) (cmdack : Bool) (side : Client → Side F) (wbuf : W)
    (fsm : CmdFsm) (out : CmdOut W) : Prop where
  | write (hfsm : fsm = .idle ∨ fsm = .dataWrite)
      (hnext : out.fsm = .idle ∨ out.fsm = .dataWrite) (hgrant : out.grant = none)
  | grant (c : Client) (k : ReadKind) (hfsm : fsm = .idle) (hreq : (side c).req k = true)
      (hmiss : k = .miss → parts.wbuf.miss (side c).addrSave wbuf = true)
      (hnext : out.fsm = .read c k) (hgrant : out.grant = some (c, k))
  | send (c : Client) (k : ReadKind) (hfsm : fsm = .read c k)
      (hnext : out.fsm = if cmdack then .idle else .read c k) (hgrant : out.grant = none)

theorem cmdTransition_grants (parts : Parts F C W) (cmdack : Bool) (s : XcacheWrapper F C W)
    (fsm : CmdFsm) (min max cpt : Nat) (wbuf : W) :
    Grants parts cmdack s.side wbuf fsm
      (cmdTransition parts cmdack s.ins s.data fsm min max cpt wbuf) := by
  cases fsm with
  | idle =>
      simp only [cmdTransition]
      split_ifs with hdata hins hdata' hins'
      · obtain ⟨hreq, hmiss⟩ := Bool.and_eq_true_iff.mp hdata
        exact .grant .data .miss rfl hreq (fun _ => hmiss) rfl rfl
      · obtain ⟨hreq, hmiss⟩ := Bool.and_eq_true_iff.mp hins
        exact .grant .ins .miss rfl hreq (fun _ => hmiss) rfl rfl
      · split
        · exact .write (.inl rfl) (.inr rfl) rfl
        · exact .grant .data .unc rfl hdata' (by simp) rfl rfl
      · split
        · exact .write (.inl rfl) (.inr rfl) rfl
        · exact .grant .ins .unc rfl hins' (by simp) rfl rfl
      · split
        · exact .write (.inl rfl) (.inr rfl) rfl
        · exact .write (.inl rfl) (.inl rfl) rfl
  | read c k => exact .send c k rfl rfl rfl
  | dataWrite =>
      simp only [cmdTransition]
      split_ifs with hack hlast
      · exact .write (.inr rfl) (.inl rfl) rfl
      · exact .write (.inr rfl) (.inr rfl) rfl
      · exact .write (.inr rfl) (.inr rfl) rfl

/-! ## Identifiers -/

theorem transactionType_lt (c : Client) (k : ReadKind) : transactionType c k < 4 := by
  cases c <;> cases k <;> decide

/-- The identifier of a read is told apart from those of the writes. -/
theorem toNat_transactionType (cfg : XcacheConfig p) (c : Client) (k : ReadKind) :
    (BitVec.ofNat p.T (transactionType c k)).toNat = transactionType c k ∧
      transactionType c k >>> (p.T - 1) = 0 := by
  have hlt : transactionType c k < 4 := transactionType_lt c k
  have hT : 2 < p.T := cfg.trdidBits.1
  have hpow : 2 ^ 2 ≤ 2 ^ (p.T - 1) := Nat.pow_le_pow_right (by decide) (by omega)
  have hpow' : 2 ^ (p.T - 1) ≤ 2 ^ p.T := Nat.pow_le_pow_right (by decide) (by omega)
  constructor
  · rw [BitVec.toNat_ofNat, Nat.mod_eq_of_lt (by omega)]
  · rw [Nat.shiftRight_eq_div_pow, Nat.div_eq_of_lt (by omega)]

@[simp] theorem ofTrdid_transactionType (cfg : XcacheConfig p) (c : Client) (k : ReadKind) :
    RspFsm.ofTrdid (BitVec.ofNat p.T (transactionType c k)) = .read c k := by
  obtain ⟨hnat, hshift⟩ := toNat_transactionType cfg c k
  simp only [RspFsm.ofTrdid, hnat, hshift]
  cases c <;> cases k <;> rfl

/-- The identifier of a write gives its index back. -/
theorem toNat_write (cfg : XcacheConfig p) {index : Nat} (h : index < cfg.wbufNlines) :
    (BitVec.ofNat p.T (index + (1 <<< (p.T - 1)))).toNat = index + (1 <<< (p.T - 1)) := by
  obtain ⟨hT, hlines⟩ := cfg.trdidBits
  rw [Nat.one_shiftLeft] at *
  have hpow : 2 ^ (p.T - 1) + 2 ^ (p.T - 1) = 2 ^ p.T := by
    rw [← Nat.two_mul, ← Nat.pow_succ', Nat.succ_eq_add_one, Nat.sub_add_cancel (by omega)]
  rw [BitVec.toNat_ofNat, Nat.mod_eq_of_lt (by omega)]

/-- The identifier of a write has its first bit set. -/
theorem ofTrdid_write (cfg : XcacheConfig p) {index : Nat} (h : index < cfg.wbufNlines) :
    RspFsm.ofTrdid (BitVec.ofNat p.T (index + (1 <<< (p.T - 1)))) = .dataWrite := by
  have hnat := toNat_write cfg h
  have hshift : (index + (1 <<< (p.T - 1))) >>> (p.T - 1) ≠ 0 := by
    rw [Nat.one_shiftLeft, Nat.shiftRight_eq_div_pow]
    exact Nat.ne_of_gt (Nat.div_pos (Nat.le_add_left _ _) (Nat.two_pow_pos _))
  simp [RspFsm.ofTrdid, hnat, hshift]

/-! ## The wires -/

section Wires

variable (cfg : XcacheConfig p) (parts : Parts F C W) (i : Stimulus p) (n : Node p F C W)

theorem wires_rspack : (n.wires cfg parts i).rspack = decide (n.xc.rspFsm ≠ .idle) := by
  show (n.xc.genMoore cfg parts n.sig).rspack = _
  unfold XcacheWrapper.genMoore
  split
  · rfl
  · rfl
  · rfl
  · dsimp only
    split <;> rfl
  · rfl

/-- An automaton that sends a burst shows a flit of it. -/
theorem wires_write (h : n.xc.cmdFsm = .dataWrite) :
    (n.wires cfg parts i).cmdval = true ∧
      (n.wires cfg parts i).eop = decide (n.xc.cmdCpt = n.xc.cmdMax) ∧
      (n.wires cfg parts i).trdid =
        BitVec.ofNat p.T (parts.wbuf.getIndex n.xc.wbuf + (1 <<< (p.T - 1))) := by
  simp [Node.wires, XcacheWrapper.genMoore, h, VciSignals.driveRsp]

/-- An automaton that sends nothing shows no command. -/
theorem wires_idle (h : n.xc.cmdFsm = .idle) : (n.wires cfg parts i).cmdval = false := by
  simp [Node.wires, XcacheWrapper.genMoore, h, VciSignals.driveRsp]

/-- An automaton that sends a read shows its head. -/
theorem wires_read {c : Client} {k : ReadKind} (h : n.xc.cmdFsm = .read c k) :
    (n.wires cfg parts i).cmdval = true ∧ (n.wires cfg parts i).eop = true ∧
      (n.wires cfg parts i).trdid = BitVec.ofNat p.T (transactionType c k) ∧
      ((n.xc.saved c).type.plain = true →
        head (n.wires cfg parts i).cmdFlit = (n.xc.saved c).head cfg c k) := by
  cases c with
  | ins =>
      cases k with
      | miss =>
          simp [Node.wires, XcacheWrapper.genMoore, h, VciSignals.driveRsp, head, Access.head,
            VciSignals.cmdFlit, XcacheWrapper.side, XcacheWrapper.saved]
      | unc =>
          simp [Node.wires, XcacheWrapper.genMoore, h, VciSignals.driveRsp, head, Access.head,
            VciSignals.cmdFlit, XcacheWrapper.saved, XcacheWrapper.uncCmd]
          intro _
          exact BitVec.eq_of_toNat_eq (by simp)
  | data =>
      cases k with
      | miss =>
          simp [Node.wires, XcacheWrapper.genMoore, h, VciSignals.driveRsp, head, Access.head,
            VciSignals.cmdFlit, XcacheWrapper.side, XcacheWrapper.saved]
      | unc =>
          cases htype : n.xc.dataSave.type <;>
            simp [Node.wires, XcacheWrapper.genMoore, h, VciSignals.driveRsp, head, Access.head,
              VciSignals.cmdFlit, XcacheWrapper.saved, htype, XcacheWrapper.uncCmd,
              DataType.plain]

end Wires

/-! ## Nodes -/

/-- The transition of a wrapper, automaton by automaton. -/
theorem transition_ok {cfg : XcacheConfig p} {parts : Parts F C W} {ireq : InsRequest}
    {dreq : DataRequest} {sig : VciSignals p} {s : XcacheWrapper F C W} {out : XcacheOut F C W}
    (h : s.transition cfg parts ireq dreq sig = .ok out) :
    ∃ (d : DcacheOut F C W) (rsp : RspOut W),
      dcacheTransition cfg parts dreq s.dcacheFsm s.data s.dataSave s.dcache s.wbuf = .ok d ∧
      rspTransition cfg parts (fun c => parts.fifo.wok (s.side c).fifo) sig s.rspFsm s.rspCpt
        (cmdTransition parts sig.cmdack s.ins s.data s.cmdFsm s.cmdMin s.cmdMax s.cmdCpt
          (parts.wbuf.update d.wbuf)).wbuf = .ok rsp ∧
      out = .ofParts parts (icacheTransition cfg parts ireq s.icacheFsm s.ins s.icache) d
        (cmdTransition parts sig.cmdack s.ins s.data s.cmdFsm s.cmdMin s.cmdMax s.cmdCpt
          (parts.wbuf.update d.wbuf)) rsp := by
  simp only [XcacheWrapper.transition, bind, Except.bind] at h
  split at h
  · cases h
  · rename_i d hd
    split at h
    · cases h
    · rename_i rsp hrsp
      cases h
      exact ⟨d, rsp, hd, hrsp, rfl⟩

/-- One edge of a node, as a client sees it. -/
structure Edge (cfg : XcacheConfig p) (parts : Parts F C W) (i : Stimulus p)
    (n n' : Node p F C W) (c : Client) (out : ClientOut F C) (cmd : CmdOut W) (rsp : RspOut W) :
    Prop where
  serves : Serves parts (cfg.words c) (asked i.ireq i.dreq c) (n.xc.again i.ireq i.dreq c)
    (n.xc.readFsm c) (n.xc.side c) (n.xc.cache c) (n.xc.saved c) out
  grants : Grants parts i.cmdack n.xc.side (parts.wbuf.update (n.xc.stored parts).2)
    n.xc.cmdFsm cmd
  answers : rspTransition cfg parts (fun c => parts.fifo.wok (n.xc.side c).fifo)
    (n.wires cfg parts i) n.xc.rspFsm n.xc.rspCpt cmd.wbuf = .ok rsp
  readFsm : n'.xc.readFsm c = out.fsm
  side : n'.xc.side c = out.side.finish parts c out.get cmd.grant rsp.error rsp.put
  saved : n'.xc.saved c = out.saved
  cache : n'.xc.cache c = out.cache
  cmdFsm : n'.xc.cmdFsm = cmd.fsm
  rspFsm : n'.xc.rspFsm = rsp.fsm
  rspCpt : n'.xc.rspCpt = rsp.cpt
  net : n'.net = n.net.next i (n.wires cfg parts i)
  log : n'.log c = (n.log c).next ((n.xc.readFsm c).isSome && out.fsm.isNone)
    ((n.log c).current.note (out.raised.map fun k => (k, asked i.ireq i.dreq c))
      (Node.accepted (n.wires cfg parts i) c) (Node.taken (n.wires cfg parts i) c) out.effects
      (Node.answers (n.xc.readFsm c).isSome (asks i.ireq i.dreq c) out.response))

theorem next_edge {cfg : XcacheConfig p} {parts : Parts F C W} {i : Stimulus p}
    {n n' : Node p F C W} {out : XcacheOut F C W} (h : n.next cfg parts i = .ok (n', out)) :
    ∃ (outs : Client → ClientOut F C) (cmd : CmdOut W) (rsp : RspOut W),
      ∀ c, Edge cfg parts i n n' c (outs c) cmd rsp ∧ (outs c).response = out.response c := by
  simp only [Node.next] at h
  split at h
  · cases h
  · rename_i out' hout
    obtain ⟨d, rsp, hd, hrsp, rfl⟩ := transition_ok hout
    cases h
    refine ⟨ClientOut.ofParts (icacheTransition cfg parts i.ireq n.xc.icacheFsm n.xc.ins
      n.xc.icache) d, cmdTransition parts i.cmdack n.xc.ins n.xc.data n.xc.cmdFsm n.xc.cmdMin
      n.xc.cmdMax n.xc.cmdCpt (parts.wbuf.update d.wbuf), rsp, fun c => ?_⟩
    have hgrants := cmdTransition_grants parts i.cmdack n.xc n.xc.cmdFsm n.xc.cmdMin
      n.xc.cmdMax n.xc.cmdCpt (parts.wbuf.update d.wbuf)
    nth_rewrite 1 [dcacheTransition_wbuf hd] at hgrants
    cases c with
    | ins =>
        refine ⟨?_, rfl⟩
        exact
          { serves := icacheTransition_serves cfg parts i.ireq i.dreq d _ _ _
            grants := hgrants
            answers := hrsp
            readFsm := rfl
            side := rfl
            saved := rfl
            cache := rfl
            cmdFsm := rfl
            rspFsm := rfl
            rspCpt := rfl
            net := rfl
            log := rfl }
    | data =>
        refine ⟨?_, rfl⟩
        exact
          { serves := dcacheTransition_serves cfg parts i.ireq i.dreq hd
            grants := hgrants
            answers := hrsp
            readFsm := rfl
            side := rfl
            saved := rfl
            cache := rfl
            cmdFsm := rfl
            rspFsm := rfl
            rspCpt := rfl
            net := rfl
            log := rfl }

end SmcTp.Xcache
