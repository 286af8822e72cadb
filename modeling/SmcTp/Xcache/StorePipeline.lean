import SmcTp.Xcache.DataEdge
import SmcTp.Xcache.Memory
import SmcTp.Xcache.Reads
import SmcTp.Xcache.TracedBuffer

/-!
# The store pipeline

A cacheable store is answered at once, and handed to the write buffer afterwards, from the
registers that hold it.  The next request is taken in the cycle in which the write buffer
accepts the store.  `XTN_SYNC` waits until the write buffer is empty.

*History.*  A `StoreLog` is kept next to a node with a traced write buffer.  It collects the
requests that have been answered, and for each of them the reads of the data cache that were
over in the cycle of the answer.

*Errors.*  An error flag that is left of a read may answer an uncached store before its command
has been sent, and a `XTN_SYNC` that follows (`sync_before_write`).  As long as an error ends its
packet, no store is lost, and `XTN_SYNC` comes after all of them (`stores_in_order`).
-/

namespace SmcTp.Xcache

open Vci Clocked

variable {p : VciParams} {F C W : Type}

/-! ## Requests and stores -/

/-- `XTN_SYNC`. -/
def isSync (cfg : XcacheConfig p) (q : DataRequest) : Bool :=
  !q.type.plain && q.addr / 4 = cfg.xtnSync

theorem isSync_iff {cfg : XcacheConfig p} {q : DataRequest} :
    isSync cfg q = true ↔ q.type.plain = false ∧ q.addr / 4 = cfg.xtnSync := by
  rw [isSync, Bool.and_eq_true, Bool.not_eq_true', decide_eq_true_iff]

/-- The store a cacheable write hands to the write buffer. -/
def bufferedStore (cfg : XcacheConfig p) (q : DataRequest) : Option Store :=
  if q.type = .write ∧ cfg.cacheable q.addr = true then some ⟨q.addr, q.be, q.wdata⟩ else none

/-- The store of a call that is accepted. -/
def WbufCall.store : WbufCall → Option Store
  | .write addr be wdata _ true => some ⟨addr, be, wdata⟩
  | _ => none

/-- The store that has been answered and waits for the write buffer. -/
def XcacheWrapper.pendingStore (s : XcacheWrapper F C W) : List Store :=
  match s.dcacheFsm with
  | .writeUpdt | .writeReq => [⟨s.data.addrSave, s.dataSave.be, s.dataSave.wdata⟩]
  | _ => []

/-- The states in which a request has been taken and not been answered. -/
def DcacheFsm.Busy : DcacheFsm → Prop
  | .idle | .writeUpdt | .writeReq => False
  | _ => True

/-- The registers hold a request. -/
inductive Underway (cfg : XcacheConfig p) (q : DataRequest) (addr : Addr) (save : DataSave) :
    DcacheFsm → Prop where
  | miss (f : ReadFsm) (hf : f ≠ .uncWait) (htype : q.type = .read) :
      Underway cfg q addr save (.read f)
  | unc (haddr : addr = q.addr) (htype : save.type = q.type) (hbe : save.be = q.be)
      (hplain : q.type.plain = true) (hunc : q.type = .write → cfg.cacheable q.addr = false) :
      Underway cfg q addr save (.read .uncWait)
  | inval (fsm : DcacheFsm) (hfsm : fsm = .xtnHit ∨ fsm = .xtnInval)
      (haddr : q.addr / 4 = cfg.xtnDcacheInval) (hplain : q.type.plain = false) :
      Underway cfg q addr save fsm
  | sync (hsync : isSync cfg q = true) : Underway cfg q addr save .xtnSync

/-! ## What one edge does to a request -/

/-- What the data automaton can do with a request. -/
inductive StoreStep (cfg : XcacheConfig p) (parts : Parts F C W) (q : DataRequest)
    (s : XcacheWrapper F C W) (d : DcacheOut F C W) : Prop where
  | rest (htakes : s.Takes parts) (hnext : d.fsm = .idle)
      (hdrsp : d.drsp.valid = true → q.type = .read)
  | store (htakes : s.Takes parts) (htype : q.type = .write)
      (hcacheable : cfg.cacheable q.addr = true)
      (hnext : d.fsm = .writeUpdt ∨ d.fsm = .writeReq) (haddr : d.side.addrSave = q.addr)
      (hbe : d.save.be = q.be) (hwdata : d.save.wdata = q.wdata) (hdrsp : d.drsp.valid = true)
  | start (htakes : s.Takes parts) (hunder : Underway cfg q d.side.addrSave d.save d.fsm)
      (hdrsp : d.drsp.valid = false)
  | waits (hfsm : s.dcacheFsm = .writeUpdt ∨ s.dcacheFsm = .writeReq ∧ (s.stored parts).1 = false)
      (hnext : d.fsm = .writeReq) (haddr : d.side.addrSave = s.data.addrSave)
      (hsave : d.save = s.dataSave) (hdrsp : d.drsp.valid = false)
  | goes (hbusy : s.dcacheFsm.Busy)
      (hkeep : ∀ q', Underway cfg q' s.data.addrSave s.dataSave s.dcacheFsm →
        Underway cfg q' d.side.addrSave d.save d.fsm)
      (hdrsp : d.drsp.valid = false)
  | ends (hbusy : s.dcacheFsm.Busy) (hnext : d.fsm = .idle)
      (hsync : s.dcacheFsm = .xtnSync → parts.wbuf.empty s.wbuf = true)

section Edge

variable {cfg : XcacheConfig p} {parts : Parts F C W} {q : DataRequest} {s : XcacheWrapper F C W}
  {d : DcacheOut F C W}

theorem dcacheRequest_store {wbuf : W} (htakes : s.Takes parts)
    (h : dcacheRequest cfg parts q s.data s.dataSave s.dcache wbuf = .ok d) :
    StoreStep cfg parts q s d := by
  cases hvalid : q.valid with
  | false =>
      simp only [dcacheRequest, hvalid] at h
      cases h
      exact .rest htakes rfl fun hdrsp => by cases hdrsp
  | true =>
      simp only [dcacheRequest, hvalid, if_true] at h
      cases htype : q.type with
      | read =>
          simp only [htype] at h
          split_ifs at h
          · cases h
            exact .rest htakes rfl fun _ => htype
          · cases h
            exact .start htakes (.miss .missSelect ReadFsm.noConfusion htype) rfl
          · cases h
            exact .start htakes (.unc rfl htype.symm rfl (by rw [htype]; rfl)
              (by simp [htype])) rfl
      | write =>
          simp only [htype] at h
          split_ifs at h with hcacheable hhit
          · cases h
            exact .store htakes htype hcacheable (.inl rfl) rfl rfl rfl rfl
          · cases h
            exact .store htakes htype hcacheable (.inr rfl) rfl rfl rfl rfl
          · cases h
            exact .start htakes (.unc rfl htype.symm rfl (by rw [htype]; rfl)
              fun _ => Bool.eq_false_iff.mpr hcacheable) rfl
      | ll | sc =>
          simp only [htype] at h
          cases h
          exact .start htakes (.unc rfl htype.symm rfl (by rw [htype]; rfl) (by simp [htype])) rfl
      | xtnWrite | xtnRead =>
          simp only [htype] at h
          split_ifs at h with hinval hsync
          · cases h
            exact .start htakes (.inval .xtnHit (.inl rfl) hinval (by rw [htype]; rfl)) rfl
          · cases h
            exact .start htakes (.sync (isSync_iff.mpr ⟨by rw [htype]; rfl, hsync⟩)) rfl

/-- A read that goes on answers nothing. -/
theorem readTransition_goes {words : Nat} {same : Bool} {f f' : ReadFsm} {side : Side F} {cache : C}
    (h : (readTransition parts words same f side cache).next = some f') :
    (f' = .uncWait ↔ f = .uncWait) ∧
      (readTransition parts words same f side cache).response.valid = false := by
  cases f with
  | missSelect =>
      simp only [readTransition, Option.some.injEq] at h
      subst h
      refine ⟨?_, rfl⟩
      split <;> simp
  | missInval =>
      cases h
      exact ⟨by simp, rfl⟩
  | missWait =>
      simp only [readTransition] at h ⊢
      split_ifs at h ⊢ <;> cases h
      · exact ⟨by simp, rfl⟩
      · exact ⟨by simp, rfl⟩
  | uncWait =>
      simp only [readTransition] at h ⊢
      split_ifs at h ⊢
      cases h
      exact ⟨by simp, rfl⟩

theorem dcacheTransition_store
    (h : dcacheTransition cfg parts q s.dcacheFsm s.data s.dataSave s.dcache s.wbuf = .ok d) :
    StoreStep cfg parts q s d := by
  cases hfsm : s.dcacheFsm with
  | idle =>
      rw [hfsm] at h
      exact dcacheRequest_store (.inl hfsm) h
  | writeUpdt =>
      rw [hfsm] at h
      cases h
      exact .waits (.inl hfsm) rfl rfl rfl rfl
  | writeReq =>
      have hstored : s.stored parts = _ := s.stored_of_writeReq hfsm
      rw [hfsm] at h
      simp only [dcacheTransition] at h
      split_ifs at h with haccepted
      · exact dcacheRequest_store (.inr ⟨hfsm, by rw [hstored]; exact haccepted⟩) h
      · cases h
        exact .waits (.inr ⟨hfsm, by rw [hstored]; exact Bool.eq_false_iff.mpr haccepted⟩) rfl rfl
          rfl rfl
  | read f =>
      rw [hfsm] at h
      simp only [dcacheTransition] at h
      cases h
      cases hnext : (readTransition parts cfg.dcacheWords (q.valid && q.addr == s.data.addrSave) f
          s.data s.dcache).next with
      | none =>
          exact .ends (by rw [hfsm]; trivial) rfl fun hsync => by cases hfsm.symm.trans hsync
      | some f' =>
          obtain ⟨hunc, hdrsp⟩ := readTransition_goes hnext
          refine .goes (by rw [hfsm]; trivial) (fun q' hunder => ?_) hdrsp
          simp only [DcacheFsm.ofNext, readTransition_addrSave]
          rw [hfsm] at hunder
          cases hunder with
          | miss _ hf htype => exact .miss f' (fun hf' => hf (hunc.mp hf')) htype
          | unc haddr htype hbe hplain hcacheable =>
              rw [hunc.mpr rfl]
              exact .unc haddr htype hbe hplain hcacheable
          | inval _ hx => simp at hx
  | xtnHit =>
      rw [hfsm] at h
      simp only [dcacheTransition] at h
      split_ifs at h
      · cases h
        refine .goes (by rw [hfsm]; trivial) (fun q' hunder => ?_) rfl
        rw [hfsm] at hunder
        cases hunder with
        | inval _ _ haddr hplain => exact .inval .xtnInval (.inr rfl) haddr hplain
      · cases h
        exact .ends (by rw [hfsm]; trivial) rfl fun hsync => by cases hfsm.symm.trans hsync
  | xtnInval =>
      rw [hfsm] at h
      cases h
      exact .ends (by rw [hfsm]; trivial) rfl fun hsync => by cases hfsm.symm.trans hsync
  | xtnSync =>
      rw [hfsm] at h
      simp only [dcacheTransition] at h
      split_ifs at h with hempty
      · cases h
        exact .ends (by rw [hfsm]; trivial) rfl fun _ => hempty
      · cases h
        refine .goes (by rw [hfsm]; trivial) (fun q' hunder => ?_) rfl
        rw [hfsm] at hunder
        exact hunder

end Edge

/-! ## Nodes -/

/-- One edge of a node, as a request of the processor sees it. -/
structure StoreCycle (cfg : XcacheConfig p) (parts : Parts F C W) (i : Stimulus p)
    (n n' : Node p F C W) (d : DcacheOut F C W) (drsp : Response) : Prop where
  step : StoreStep cfg parts i.dreq n.xc d
  dcacheFsm : n'.xc.dcacheFsm = d.fsm
  addrSave : n'.xc.data.addrSave = d.side.addrSave
  dataSave : n'.xc.dataSave = d.save
  drsp_eq : drsp = d.drsp

theorem next_store {cfg : XcacheConfig p} {parts : Parts F C W} {i : Stimulus p}
    {n n' : Node p F C W} {out : XcacheOut F C W} (h : n.next cfg parts i = .ok (n', out)) :
    ∃ d, StoreCycle cfg parts i n n' d out.drsp := by
  simp only [Node.next] at h
  split at h
  · cases h
  · rename_i out' hout
    obtain ⟨d, rsp, hd, hrsp, rfl⟩ := transition_ok hout
    cases h
    exact ⟨d, dcacheTransition_store hd, rfl, rfl, rfl, rfl⟩

/-- The store the write buffer accepts in a cycle. -/
def XcacheWrapper.acceptedStore (parts : Parts F C W) (s : XcacheWrapper F C W) : List Store :=
  if (s.stored parts).1 then [⟨s.data.addrSave, s.dataSave.be, s.dataSave.wdata⟩] else []

theorem stored_other {parts : Parts F C W} {s : XcacheWrapper F C W}
    (h : s.dcacheFsm ≠ .writeReq) : s.stored parts = (false, s.wbuf) := if_neg h

/-- The stores that are accepted in an edge. -/
theorem next_stores {cfg : XcacheConfig p} {parts : Parts F C W} {i : Stimulus p}
    {n n' : Node p F C (Traced W)} {out : XcacheOut F C (Traced W)}
    (h : n.next cfg parts.traced i = .ok (n', out)) :
    n'.xc.wbuf.calls.filterMap WbufCall.store =
      n.xc.wbuf.calls.filterMap WbufCall.store ++ n.xc.acceptedStore parts.traced := by
  obtain ⟨cmd, rsp, calls, -, hstep, hcalls⟩ := next_calls h
  have hburst : calls.filterMap WbufCall.store = [] := by
    cases hstep <;> rfl
  have hdone : ((completes n.xc i).map WbufCall.completed).filterMap WbufCall.store = [] := by
    rw [List.filterMap_map]
    exact List.filterMap_eq_nil_iff.mpr fun _ _ => rfl
  have hstore : (storeCall parts n.xc).filterMap WbufCall.store =
      n.xc.acceptedStore parts.traced := by
    unfold storeCall XcacheWrapper.acceptedStore
    by_cases hfsm : n.xc.dcacheFsm = .writeReq
    · rw [if_pos hfsm]
      cases (n.xc.stored parts.traced).1 <;> rfl
    · rw [if_neg hfsm, stored_other hfsm]
      rfl
  rw [hcalls, List.filterMap_append, List.filterMap_append, List.filterMap_append, hburst, hdone,
    hstore, List.append_nil, List.append_nil]

section Uncompleted

variable {cfg : XcacheConfig p} {parts : Parts F C W} {uncompleted : Traced W → List Store}

/-- The call of the data automaton. -/
theorem stored_reached {s : XcacheWrapper F C (Traced W)} (h : parts.wbuf.Reached s.wbuf) :
    parts.wbuf.Reached (s.stored parts.traced).2 := by
  by_cases hfsm : s.dcacheFsm = .writeReq
  · rw [s.stored_of_writeReq hfsm]
    exact .write _ _ _ _ h
  · rw [stored_other hfsm]
    exact h

/-- The command automaton completes nothing. -/
theorem WbufLaws.command (hlaws : WbufLaws parts.wbuf uncompleted) {cmdack : Bool}
    {min max cpt : Nat} {wbuf : Traced W} {fsm : CmdFsm} {out : CmdOut (Traced W)}
    (hwbuf : parts.wbuf.Reached wbuf)
    (h : CmdStep parts.traced cmdack min max cpt wbuf fsm out) :
    parts.wbuf.Reached out.wbuf ∧ uncompleted out.wbuf = uncompleted wbuf := by
  have hoffer : ∀ {burst : Option (Nat × Nat)} {wbuf' : Traced W},
      parts.wbuf.traced.rok wbuf = (burst, wbuf') →
        parts.wbuf.Reached wbuf' ∧ uncompleted wbuf' = uncompleted wbuf := by
    intro burst wbuf' hrok
    obtain rfl : (parts.wbuf.traced.rok wbuf).2 = wbuf' := congrArg Prod.snd hrok
    exact ⟨.rok hwbuf, hlaws.rok wbuf hwbuf⟩
  cases h with
  | grant c k wbuf' hgrant =>
      rcases hgrant with rfl | hrok
      · exact ⟨hwbuf, rfl⟩
      · exact hoffer hrok
  | burst first last wbuf' hrok => exact hoffer hrok
  | rest wbuf' hrok => exact hoffer hrok
  | wait => exact ⟨hwbuf, rfl⟩
  | next => exact ⟨hwbuf, rfl⟩
  | last => exact ⟨.sent hwbuf, hlaws.sent wbuf hwbuf⟩
  | send => exact ⟨hwbuf, rfl⟩

/-- A store becomes uncompleted when it is accepted, and at no other time. -/
theorem WbufLaws.edge {i : Stimulus p} {n n' : Node p F C (Traced W)} {cmd : CmdOut (Traced W)}
    {rsp : RspOut (Traced W)} (hlaws : WbufLaws parts.wbuf uncompleted)
    (hwbuf : parts.wbuf.Reached n.xc.wbuf) (hbus : BusEdge cfg parts.traced i n n' cmd rsp) :
    parts.wbuf.Reached n'.xc.wbuf ∧
      (uncompleted n'.xc.wbuf).Sublist
        (uncompleted n.xc.wbuf ++ n.xc.acceptedStore parts.traced) := by
  have hcall := stored_reached hwbuf
  have hstored : uncompleted (n.xc.stored parts.traced).2 =
      uncompleted n.xc.wbuf ++ n.xc.acceptedStore parts.traced := by
    unfold XcacheWrapper.acceptedStore
    by_cases hfsm : n.xc.dcacheFsm = .writeReq
    · rw [n.xc.stored_of_writeReq hfsm]
      split
      next haccepted => exact hlaws.accepted _ _ _ _ _ hwbuf haccepted
      next hrefused =>
        rw [List.append_nil]
        exact hlaws.refused _ _ _ _ _ hwbuf (Bool.eq_false_iff.mpr hrefused)
    · rw [stored_other hfsm]
      exact (List.append_nil _).symm
  obtain ⟨hreached, hcommand⟩ := hlaws.command (.update hcall) hbus.command
  have hupdate : uncompleted (parts.wbuf.traced.update (n.xc.stored parts.traced).2) =
      uncompleted (n.xc.stored parts.traced).2 := hlaws.update _ hcall
  rw [hbus.wbuf, ← hstored, ← hupdate, ← hcommand]
  cases hbus.response with
  | keep _ hkeep =>
      rw [hkeep]
      exact ⟨hreached, .refl _⟩
  | complete _ _ hcomplete =>
      rw [hcomplete]
      exact ⟨.completed _ hreached, hlaws.completed _ _ hreached⟩

end Uncompleted

/-! ## Histories -/

/-- What an observer of the processor collects. -/
structure StoreLog (p : VciParams) where
  /-- The request that has been taken last. -/
  taken : Option DataRequest
  /-- The requests that have been answered, each with the reads of the data cache that were over
  in the cycle of the answer. -/
  answered : List (DataRequest × List (Record p))

instance (parts : Parts F C W) (s : XcacheWrapper F C W) : Decidable (s.Takes parts) :=
  inferInstanceAs (Decidable (_ ∨ _ ∧ _))

namespace StoreLog

/-- Nothing has happened. -/
def blank : StoreLog p := ⟨none, []⟩

/-- The request the data automaton serves: the one it takes in this cycle, or the last one it
has taken. -/
def served (parts : Parts F C W) (i : Stimulus p) (n : Node p F C W) (h : StoreLog p) :
    DataRequest :=
  if n.xc.Takes parts then i.dreq else h.taken.getD i.dreq

/-- A cycle is noted. -/
def note (cfg : XcacheConfig p) (parts : Parts F C W) (n : Node p F C W) (i : Stimulus p)
    (n' : Node p F C W) (h : StoreLog p) : StoreLog p where
  taken := some (h.served parts i n)
  answered := h.answered ++
    match n.next cfg parts i with
    | .ok (_, out) =>
        if out.drsp.valid then
          [(h.served parts i n, (n'.log .data).closed.drop (n.log .data).closed.length)]
        else []
    | .error _ => []

/-- The cacheable stores that have been answered. -/
def stores (cfg : XcacheConfig p) (h : StoreLog p) : List Store :=
  h.answered.filterMap fun x => bufferedStore cfg x.1

end StoreLog

/-- The nodes with their histories. -/
def storeSystem (cfg : XcacheConfig p) (parts : Parts F C W)
    (S : System (Node p F C (Traced W)) (Stimulus p)) :
    System (Node p F C (Traced W) × StoreLog p) (Stimulus p) :=
  S.withHistory .blank (StoreLog.note cfg parts.traced)

/-- An uncached store has been answered as its access was over: its command had been accepted,
and its response had come. -/
def UncachedOver (cfg : XcacheConfig p) (h : StoreLog p) : Prop :=
  ∀ x ∈ h.answered, x.1.type = .write → cfg.cacheable x.1.addr = false →
    ∃ r way set, x.2 = [r] ∧ r.Complete cfg .data .unc ⟨x.1.addr, .write, x.1.be⟩ way set

/-- What is demanded of the stores in a state. -/
structure StoresInOrder (cfg : XcacheConfig p) (parts : Parts F C W)
    (uncompleted : Traced W → List Store) (n : Node p F C (Traced W)) (h : StoreLog p) :
    Prop where
  /-- The stores that have been accepted, and the one that waits, are those that have been
  answered, in their order. -/
  accepted : n.xc.wbuf.calls.filterMap WbufCall.store ++ n.xc.pendingStore = h.stores cfg
  /-- What is not completed has been accepted. -/
  kept : (uncompleted n.xc.wbuf).Sublist (n.xc.wbuf.calls.filterMap WbufCall.store)
  uncached : UncachedOver cfg h
  /-- A processor that asks for its request until it is answered gets the answer to it. -/
  held : ∀ i n' out, n.next cfg parts.traced i = .ok (n', out) → out.drsp.valid = true →
    (∀ q, h.taken = some q → n.xc.dcacheFsm.Busy → i.dreq = q) →
    h.served parts.traced i n = i.dreq
  /-- When `XTN_SYNC` is answered, all stores have been accepted and completed. -/
  sync : ∀ i n' out, n.next cfg parts.traced i = .ok (n', out) → out.drsp.valid = true →
    isSync cfg (h.served parts.traced i n) = true →
    n.xc.wbuf.calls.filterMap WbufCall.store = h.stores cfg ∧ uncompleted n.xc.wbuf = []

/-! ## Reads that are over -/

/-- The record of a read says what was asked for. -/
theorem Channel.request {cfg : XcacheConfig p} {contents : F → List Word} {c : Client}
    {n : Node p F C W} (hc : Channel cfg contents c n) {f : ReadFsm}
    (hfsm : n.xc.readFsm c = some f) :
    (n.log c).current.request = some (f.kind, n.xc.saved c) := by
  have hwait : ∀ k : ReadKind, n.xc.readFsm c = some k.wait → k = f.kind := by
    intro k hk
    cases hk.symm.trans hfsm
    cases k <;> rfl
  cases hc with
  | rest hf => cases hfsm.symm.trans hf
  | raised k f' hf hkind _ _ hread =>
      cases hfsm.symm.trans hf
      rw [hread.record, hkind]
  | sending k f' hf hkind _ _ _ hread =>
      cases hfsm.symm.trans hf
      rw [hread.record, hkind]
  | waiting k _ hf _ _ _ hread => rw [hread.record, hwait k hf]
  | receiving k _ _ hf _ _ _ _ _ _ _ _ _ hread => rw [hread.record, hwait k hf]
  | drained k _ _ hf _ _ _ _ _ _ _ _ hread => rw [hread.record, hwait k hf]
  | failed k _ _ hf _ _ _ _ _ _ _ hread => rw [hread.record, hwait k hf]

/-- The end of a read closes one record, that of its request. -/
theorem closed_of_over {cfg : XcacheConfig p} {parts : Parts F C W} {contents : F → List Word}
    {i : Stimulus p} {c : Client} {n n' : Node p F C W} (hc : Channel cfg contents c n)
    {out : XcacheOut F C W} (hnext : n.next cfg parts i = .ok (n', out)) {f : ReadFsm}
    (hread : n.xc.readFsm c = some f) (hread' : n'.xc.readFsm c = none) :
    ∃ r, (n'.log c).closed = (n.log c).closed ++ [r] ∧
      r.request = some (f.kind, n.xc.saved c) := by
  obtain ⟨outs, cmd, rsp, hedge⟩ := next_edge hnext
  have hover : (outs c).fsm = none := (hedge c).1.readFsm.symm.trans hread'
  have hraised : (outs c).raised = none := by
    cases (hedge c).1.serves with
    | rest hf => cases hread.symm.trans hf
    | raise _ hf => cases hread.symm.trans hf
    | read _ _ hserves => exact hserves.raised
  refine ⟨_, by rw [(hedge c).1.log, hread, hover]; rfl, ?_⟩
  rw [hraised]
  exact hc.request hread

/-! ## One edge -/

section Invariant

variable {cfg : XcacheConfig p} {parts : Parts F C W} {i : Stimulus p} {n n' : Node p F C W}
  {h : StoreLog p} {d : DcacheOut F C W} {drsp : Response}

/-- A request that has been taken and not been answered is in the registers. -/
def StoreLog.Holds (cfg : XcacheConfig p) (n : Node p F C W) (h : StoreLog p) : Prop :=
  n.xc.dcacheFsm.Busy →
    ∃ q, h.taken = some q ∧ Underway cfg q n.xc.data.addrSave n.xc.dataSave n.xc.dcacheFsm

theorem Underway.busy {q : DataRequest} {addr : Addr} {save : DataSave} {fsm : DcacheFsm}
    (h : Underway cfg q addr save fsm) : fsm.Busy := by
  cases h with
  | inval _ hfsm => rcases hfsm with rfl | rfl <;> trivial
  | miss | unc | sync => trivial

/-- A write that the registers hold is uncached. -/
theorem Underway.of_write {q : DataRequest} {addr : Addr} {save : DataSave} {fsm : DcacheFsm}
    (h : Underway cfg q addr save fsm) (hwrite : q.type = .write) :
    fsm = .read .uncWait ∧ addr = q.addr ∧ save.type = q.type ∧ save.be = q.be ∧
      cfg.cacheable q.addr = false := by
  have hplain : q.type.plain = true := by
    rw [hwrite]
    rfl
  cases h with
  | miss _ _ htype => cases hwrite.symm.trans htype
  | unc haddr htype hbe _ hunc => exact ⟨rfl, haddr, htype, hbe, hunc hwrite⟩
  | inval _ _ _ hnot => cases hplain.symm.trans hnot
  | sync hsync => cases hplain.symm.trans (isSync_iff.mp hsync).1

/-- What the registers hold is no cacheable store. -/
theorem Underway.not_buffered {q : DataRequest} {addr : Addr} {save : DataSave} {fsm : DcacheFsm}
    (h : Underway cfg q addr save fsm) : bufferedStore cfg q = none := by
  refine if_neg fun ⟨hwrite, hcacheable⟩ => ?_
  obtain ⟨_, _, _, _, hunc⟩ := h.of_write hwrite
  cases hcacheable.symm.trans hunc

/-- A `XTN_SYNC` that the registers hold waits in its state. -/
theorem Underway.of_sync {q : DataRequest} {addr : Addr} {save : DataSave} {fsm : DcacheFsm}
    (h : Underway cfg q addr save fsm) (hxtn : cfg.xtnDcacheInval ≠ cfg.xtnSync)
    (hsync : isSync cfg q = true) : fsm = .xtnSync := by
  obtain ⟨hplain, haddr⟩ := isSync_iff.mp hsync
  cases h with
  | miss _ _ htype =>
      rw [htype] at hplain
      cases hplain
  | unc _ _ _ hplain' => cases hplain.symm.trans hplain'
  | inval _ _ hinval => exact absurd (hinval.symm.trans haddr) hxtn
  | sync => rfl

theorem not_busy_of_takes (h : n.xc.Takes parts) : ¬ n.xc.dcacheFsm.Busy := by
  rcases h with hidle | ⟨hreq, _⟩
  · rw [hidle]
    exact id
  · rw [hreq]
    exact id

/-- A state that takes a request has handed over its store. -/
theorem acceptedStore_of_takes (h : n.xc.Takes parts) :
    n.xc.acceptedStore parts = n.xc.pendingStore := by
  rcases h with hidle | ⟨hreq, haccepted⟩
  · have hother : n.xc.stored parts = (false, n.xc.wbuf) := stored_other (by simp [hidle])
    simp [XcacheWrapper.acceptedStore, XcacheWrapper.pendingStore, hother, hidle]
  · simp [XcacheWrapper.acceptedStore, XcacheWrapper.pendingStore, haccepted, hreq]

theorem pendingStore_of_busy {s : XcacheWrapper F C W} (h : s.dcacheFsm.Busy) :
    s.pendingStore = [] := by
  unfold XcacheWrapper.pendingStore
  split
  next hfsm =>
    rw [hfsm] at h
    cases h
  next hfsm =>
    rw [hfsm] at h
    cases h
  next => rfl

/-- The stores an edge answers. -/
def newStores (cfg : XcacheConfig p) (parts : Parts F C W) (i : Stimulus p) (n : Node p F C W)
    (h : StoreLog p) (drsp : Response) : List Store :=
  if drsp.valid then (bufferedStore cfg (h.served parts i n)).toList else []

theorem served_of_takes (htakes : n.xc.Takes parts) : h.served parts i n = i.dreq := if_pos htakes

theorem served_of_busy (hbusy : n.xc.dcacheFsm.Busy) {q : DataRequest} (hq : h.taken = some q) :
    h.served parts i n = q := by
  rw [StoreLog.served, if_neg fun htakes => not_busy_of_takes htakes hbusy, hq]
  rfl

/-- No store is lost or doubled in an edge. -/
theorem StoreCycle.stores (hcycle : StoreCycle cfg parts i n n' d drsp) (hholds : h.Holds cfg n) :
    n.xc.acceptedStore parts ++ n'.xc.pendingStore =
      n.xc.pendingStore ++ newStores cfg parts i n h drsp := by
  rw [newStores, hcycle.drsp_eq]
  cases hcycle.step with
  | rest htakes hnext hdrsp =>
      have hnone : n'.xc.pendingStore = [] := by
        simp [XcacheWrapper.pendingStore, hcycle.dcacheFsm, hnext]
      rw [acceptedStore_of_takes htakes, hnone, served_of_takes htakes]
      split
      next hvalid => simp [bufferedStore, hdrsp hvalid]
      next => rfl
  | store htakes htype hcacheable hnext haddr hbe hwdata hdrsp =>
      have hone : n'.xc.pendingStore = [⟨i.dreq.addr, i.dreq.be, i.dreq.wdata⟩] := by
        rcases hnext with hnext | hnext <;>
          simp [XcacheWrapper.pendingStore, hcycle.dcacheFsm, hnext, hcycle.addrSave,
            hcycle.dataSave, haddr, hbe, hwdata]
      rw [acceptedStore_of_takes htakes, hone, served_of_takes htakes, if_pos hdrsp]
      simp [bufferedStore, htype, hcacheable]
  | start htakes hunder hdrsp =>
      have hnone : n'.xc.pendingStore = [] := pendingStore_of_busy (by
        rw [hcycle.dcacheFsm]
        exact hunder.busy)
      rw [acceptedStore_of_takes htakes, hnone, hdrsp]
      rfl
  | waits hfsm hnext haddr hsave hdrsp =>
      have hrefused : (n.xc.stored parts).1 = false := by
        rcases hfsm with hfsm | ⟨_, hrefused⟩
        · rw [stored_other (by simp [hfsm])]
        · exact hrefused
      have hsame : n'.xc.pendingStore = n.xc.pendingStore := by
        rcases hfsm with hfsm | ⟨hfsm, _⟩ <;>
          simp [XcacheWrapper.pendingStore, hcycle.dcacheFsm, hnext, hfsm, hcycle.addrSave,
            hcycle.dataSave, haddr, hsave]
      rw [XcacheWrapper.acceptedStore, hrefused, hsame, hdrsp]
      simp
  | goes hbusy hkeep hdrsp =>
      obtain ⟨q, hq, hunder⟩ := hholds hbusy
      have hnone : n'.xc.pendingStore = [] := pendingStore_of_busy (by
        rw [hcycle.dcacheFsm]
        exact (hkeep q hunder).busy)
      rw [XcacheWrapper.acceptedStore, stored_other fun hf => by simp [hf, DcacheFsm.Busy] at hbusy,
        hnone, pendingStore_of_busy hbusy, hdrsp]
      rfl
  | ends hbusy hnext hsync =>
      obtain ⟨q, hq, hunder⟩ := hholds hbusy
      have hnone : n'.xc.pendingStore = [] := by
        simp [XcacheWrapper.pendingStore, hcycle.dcacheFsm, hnext]
      rw [XcacheWrapper.acceptedStore, stored_other fun hf => by simp [hf, DcacheFsm.Busy] at hbusy,
        hnone, pendingStore_of_busy hbusy, served_of_busy hbusy hq, hunder.not_buffered]
      simp

theorem StoreCycle.holds (hcycle : StoreCycle cfg parts i n n' d drsp) (hholds : h.Holds cfg n) :
    (StoreLog.note cfg parts n i n' h).Holds cfg n' := by
  intro hbusy'
  show ∃ q, some (h.served parts i n) = some q ∧ _
  rw [hcycle.dcacheFsm] at hbusy' ⊢
  rw [hcycle.addrSave, hcycle.dataSave]
  cases hcycle.step with
  | rest _ hnext =>
      rw [hnext] at hbusy'
      cases hbusy'
  | store _ _ _ hnext =>
      rcases hnext with hnext | hnext <;> rw [hnext] at hbusy' <;> cases hbusy'
  | start htakes hunder => exact ⟨_, congrArg some (served_of_takes htakes), hunder⟩
  | waits _ hnext =>
      rw [hnext] at hbusy'
      cases hbusy'
  | goes hbusy hkeep =>
      obtain ⟨q, hq, hunder⟩ := hholds hbusy
      exact ⟨q, congrArg some (served_of_busy hbusy hq), hkeep q hunder⟩
  | ends _ hnext =>
      rw [hnext] at hbusy'
      cases hbusy'

/-- What is answered has been taken in this cycle, or is in the registers until then. -/
theorem StoreCycle.answered (hcycle : StoreCycle cfg parts i n n' d drsp)
    (hvalid : drsp.valid = true) :
    (n.xc.Takes parts ∧ (i.dreq.type = .read ∨
        i.dreq.type = .write ∧ cfg.cacheable i.dreq.addr = true)) ∨
      n.xc.dcacheFsm.Busy ∧ n'.xc.dcacheFsm = .idle ∧
        (n.xc.dcacheFsm = .xtnSync → parts.wbuf.empty n.xc.wbuf = true) := by
  rw [hcycle.drsp_eq] at hvalid
  cases hcycle.step with
  | rest htakes _ hdrsp => exact .inl ⟨htakes, .inl (hdrsp hvalid)⟩
  | store htakes htype hcacheable => exact .inl ⟨htakes, .inr ⟨htype, hcacheable⟩⟩
  | start _ _ hdrsp => cases hdrsp.symm.trans hvalid
  | waits _ _ _ _ hdrsp => cases hdrsp.symm.trans hvalid
  | goes _ _ hdrsp => cases hdrsp.symm.trans hvalid
  | ends hbusy hnext hsync => exact .inr ⟨hbusy, hcycle.dcacheFsm.trans hnext, hsync⟩

/-- A processor that asks for its request until it is answered asks for the one that is served. -/
theorem StoreCycle.served_held (hcycle : StoreCycle cfg parts i n n' d drsp)
    (hholds : h.Holds cfg n)
    (hheld : ∀ q, h.taken = some q → n.xc.dcacheFsm.Busy → i.dreq = q)
    (hvalid : drsp.valid = true) : h.served parts i n = i.dreq := by
  rcases hcycle.answered hvalid with ⟨htakes, _⟩ | ⟨hbusy, _⟩
  · exact served_of_takes htakes
  · obtain ⟨q, hq, -⟩ := hholds hbusy
    rw [served_of_busy hbusy hq, hheld q hq hbusy]

/-- A store that is refused is handed over again. -/
theorem StoreCycle.hands (hcycle : StoreCycle cfg parts i n n' d drsp)
    (hpending : n.xc.pendingStore ≠ []) (hrefused : (n.xc.stored parts).1 = false) :
    n'.xc.dcacheFsm = .writeReq := by
  have hnot : ¬ n.xc.Takes parts := by
    rintro (hidle | ⟨_, haccepted⟩)
    · exact hpending (by simp [XcacheWrapper.pendingStore, hidle])
    · cases hrefused.symm.trans haccepted
  rw [hcycle.dcacheFsm]
  cases hcycle.step with
  | rest htakes => exact absurd htakes hnot
  | store htakes => exact absurd htakes hnot
  | start htakes => exact absurd htakes hnot
  | waits _ hnext => exact hnext
  | goes hbusy => exact absurd (pendingStore_of_busy hbusy) hpending
  | ends hbusy => exact absurd (pendingStore_of_busy hbusy) hpending

/-- `XTN_SYNC` is answered when the write buffer is empty. -/
theorem StoreCycle.sync (hcycle : StoreCycle cfg parts i n n' d drsp) (hholds : h.Holds cfg n)
    (hxtn : cfg.xtnDcacheInval ≠ cfg.xtnSync) (hvalid : drsp.valid = true)
    (hsync : isSync cfg (h.served parts i n) = true) :
    n.xc.dcacheFsm = .xtnSync ∧ parts.wbuf.empty n.xc.wbuf = true := by
  rcases hcycle.answered hvalid with ⟨htakes, htype⟩ | ⟨hbusy, _, hempty⟩
  · rw [served_of_takes htakes] at hsync
    have hplain := (isSync_iff.mp hsync).1
    rcases htype with htype | ⟨htype, _⟩ <;> rw [htype] at hplain <;> cases hplain
  · obtain ⟨q, hq, hunder⟩ := hholds hbusy
    rw [served_of_busy hbusy hq] at hsync
    have hfsm := hunder.of_sync hxtn hsync
    exact ⟨hfsm, hempty hfsm⟩

/-- An uncached store is answered when its access is over. -/
theorem StoreCycle.uncached {contents : F → List Word}
    (hcycle : StoreCycle cfg parts i n n' d drsp) (hholds : h.Holds cfg n)
    (hinv : Inv cfg contents n) (hinv' : Inv cfg contents n') {out : XcacheOut F C W}
    (hnext : n.next cfg parts i = .ok (n', out)) (hvalid : drsp.valid = true)
    (hwrite : (h.served parts i n).type = .write)
    (hunc : cfg.cacheable (h.served parts i n).addr = false) :
    ∃ r way set, (n'.log .data).closed.drop (n.log .data).closed.length = [r] ∧
      r.Complete cfg .data .unc
        ⟨(h.served parts i n).addr, .write, (h.served parts i n).be⟩ way set := by
  rcases hcycle.answered hvalid with ⟨htakes, htype⟩ | ⟨hbusy, hidle, _⟩
  · rw [served_of_takes htakes] at hwrite hunc
    rcases htype with htype | ⟨_, hcacheable⟩
    · cases hwrite.symm.trans htype
    · cases hunc.symm.trans hcacheable
  · obtain ⟨q, hq, hunder⟩ := hholds hbusy
    rw [served_of_busy hbusy hq] at hwrite ⊢
    obtain ⟨hfsm, haddr, htype, hbe, _⟩ := hunder.of_write hwrite
    have hread : n.xc.readFsm .data = some .uncWait := by
      rw [XcacheWrapper.readFsm, hfsm]
      rfl
    have hread' : n'.xc.readFsm .data = none := by
      rw [XcacheWrapper.readFsm, hidle]
      rfl
    obtain ⟨r, hlog, hrequest⟩ := closed_of_over (hinv.channel .data) hnext hread hread'
    have hmem : r ∈ (n'.log .data).closed := by
      rw [hlog]
      exact List.mem_append_right _ List.mem_cons_self
    obtain ⟨k, a, way, set, hcomplete⟩ := hinv'.closed .data r hmem
    obtain ⟨rfl, rfl⟩ := Prod.mk.inj (Option.some.inj (hcomplete.request.symm.trans hrequest))
    refine ⟨r, way, set, by rw [hlog, List.drop_left], ?_⟩
    rw [XcacheWrapper.saved, haddr, htype, hbe, hwrite] at hcomplete
    exact hcomplete

end Invariant

/-! ## Every store is accepted and completed -/

/-- The invariant of the history, whatever the responses are. -/
structure PipelineInv (cfg : XcacheConfig p) (parts : Parts F C W)
    (uncompleted : Traced W → List Store) (n : Node p F C (Traced W)) (h : StoreLog p) : Prop where
  reached : parts.wbuf.Reached n.xc.wbuf
  accepted : n.xc.wbuf.calls.filterMap WbufCall.store ++ n.xc.pendingStore = h.stores cfg
  kept : (uncompleted n.xc.wbuf).Sublist (n.xc.wbuf.calls.filterMap WbufCall.store)
  holds : h.Holds cfg n

section Runs

variable {cfg : XcacheConfig p} {parts : Parts F C W} {contents : F → List Word}
  {uncompleted : Traced W → List Store} {i : Stimulus p} {n n' : Node p F C (Traced W)}
  {h : StoreLog p}

theorem PipelineInv.start (hwbuf : WbufLaws parts.wbuf uncompleted)
    (hstart : n.Start parts.traced) : PipelineInv cfg parts uncompleted n .blank := by
  obtain ⟨⟨s, hxc⟩, _, _⟩ := hstart
  have hcalls : n.xc.wbuf.calls = [] := by
    rw [hxc]
    rfl
  have hnone : uncompleted n.xc.wbuf = [] := by
    rw [hxc]
    exact hwbuf.reset s.wbuf
  have hidle : n.xc.dcacheFsm = .idle := by
    rw [hxc]
    rfl
  exact
    { reached := by
        rw [hxc]
        exact .reset s.wbuf
      accepted := by
        rw [hcalls, XcacheWrapper.pendingStore, hidle]
        rfl
      kept := by
        rw [hnone]
        exact List.nil_sublist _
      holds := fun hbusy => by
        rw [hidle] at hbusy
        cases hbusy }

/-- The answer of an edge is noted. -/
theorem note_answered {out : XcacheOut F C (Traced W)}
    (hnext : n.next cfg parts.traced i = .ok (n', out)) :
    (StoreLog.note cfg parts.traced n i n' h).answered = h.answered ++
      if out.drsp.valid then
        [(h.served parts.traced i n, (n'.log .data).closed.drop (n.log .data).closed.length)]
      else [] := by
  simp only [StoreLog.note, hnext]

theorem PipelineInv.next (hwbuf : WbufLaws parts.wbuf uncompleted)
    (hinv : PipelineInv cfg parts uncompleted n h) {out : XcacheOut F C (Traced W)}
    (hnext : n.next cfg parts.traced i = .ok (n', out)) :
    PipelineInv cfg parts uncompleted n' (StoreLog.note cfg parts.traced n i n' h) := by
  obtain ⟨d, hcycle⟩ := next_store hnext
  obtain ⟨cmd, rsp, calls, hbus, _⟩ := next_calls hnext
  have hstores : (StoreLog.note cfg parts.traced n i n' h).stores cfg =
      h.stores cfg ++ newStores cfg parts.traced i n h out.drsp := by
    rw [StoreLog.stores, note_answered hnext, List.filterMap_append, newStores]
    split
    next =>
      cases hstore : bufferedStore cfg (h.served parts.traced i n) <;>
        simp [StoreLog.stores, hstore]
    next => rfl
  have hcalls := next_stores hnext
  obtain ⟨hreached, hkept⟩ := hwbuf.edge hinv.reached hbus
  exact
    { reached := hreached
      accepted := by
        rw [hcalls, hstores, ← hinv.accepted, List.append_assoc, hcycle.stores hinv.holds,
          List.append_assoc]
      kept := by
        rw [hcalls]
        exact hkept.trans (hinv.kept.append_right _)
      holds := hcycle.holds hinv.holds }

theorem UncachedOver.next (hover : UncachedOver cfg h) (hholds : h.Holds cfg n)
    (hreads : Inv cfg contents n) (hreads' : Inv cfg contents n') {out : XcacheOut F C (Traced W)}
    (hnext : n.next cfg parts.traced i = .ok (n', out)) :
    UncachedOver cfg (StoreLog.note cfg parts.traced n i n' h) := by
  intro x hx
  obtain ⟨d, hcycle⟩ := next_store hnext
  rw [note_answered hnext] at hx
  rcases List.mem_append.mp hx with hx | hx
  · exact hover x hx
  · split at hx
    next hvalid =>
      obtain rfl := List.mem_singleton.mp hx
      exact hcycle.uncached hholds hreads hreads' hnext hvalid
    next => cases hx

/-- Whatever the responses are, the stores that are answered are accepted in their order. -/
theorem stores_accepted {contract : Contract p} (hwbuf : WbufLaws parts.wbuf uncompleted)
    {x : Node p F C (Traced W) × StoreLog p}
    (hx : (storeSystem cfg parts (system cfg parts.traced contract)).Reachable x) :
    PipelineInv cfg parts uncompleted x.1 x.2 := by
  refine hx.invariant (P := fun x => PipelineInv cfg parts uncompleted x.1 x.2) (fun x hstart => ?_)
    fun x i x' hinv hstep => ?_
  · obtain ⟨hnode, hblank⟩ := hstart
    rw [hblank]
    exact .start hwbuf hnode
  · obtain ⟨⟨-, out, hnext⟩, hnote⟩ := hstep
    rw [hnote]
    exact hinv.next hwbuf hnext

theorem PipelineInv.inOrder (hwbuf : WbufLaws parts.wbuf uncompleted)
    (hxtn : cfg.xtnDcacheInval ≠ cfg.xtnSync) (hinv : PipelineInv cfg parts uncompleted n h)
    (hover : UncachedOver cfg h) : StoresInOrder cfg parts uncompleted n h where
  accepted := hinv.accepted
  kept := hinv.kept
  uncached := hover
  held i n' out hnext hvalid hheld := by
    obtain ⟨d, hcycle⟩ := next_store hnext
    exact hcycle.served_held hinv.holds hheld hvalid
  sync i n' out hnext hvalid hsync := by
    obtain ⟨d, hcycle⟩ := next_store hnext
    obtain ⟨hfsm, hempty⟩ := hcycle.sync hinv.holds hxtn hvalid hsync
    have hnone : n.xc.pendingStore = [] := pendingStore_of_busy (by
      rw [hfsm]
      trivial)
    have haccepted := hinv.accepted
    rw [hnone, List.append_nil] at haccepted
    exact ⟨haccepted, hwbuf.empty n.xc.wbuf hinv.reached hempty⟩

end Runs

/-- A store that waits is handed to the write buffer in every cycle until it is accepted. -/
theorem handed_until_accepted {parts : Parts F C W} {S : System (Node p F C W) (Stimulus p)}
    {cfg : XcacheConfig p}
    (hS : ∀ n i n', S.step n i n' → ∃ out, n.next cfg parts i = .ok (n', out)) (r : S.Run) (t : Nat)
    (hpending : (r.state t).xc.pendingStore ≠ []) :
    (∃ t', t ≤ t' ∧ ((r.state t').xc.stored parts).1 = true) ∨
      ∀ t', t < t' → (r.state t').xc.dcacheFsm = .writeReq ∧
        ((r.state t').xc.stored parts).1 = false := by
  by_cases haccepted : ∃ t', t ≤ t' ∧ ((r.state t').xc.stored parts).1 = true
  · exact .inl haccepted
  have hrefused : ∀ t', t ≤ t' → ((r.state t').xc.stored parts).1 = false := fun t' hle =>
    Bool.eq_false_iff.mpr fun h => haccepted ⟨t', hle, h⟩
  have hhands : ∀ t', t ≤ t' → (r.state t').xc.pendingStore ≠ [] →
      (r.state (t' + 1)).xc.dcacheFsm = .writeReq := by
    intro t' hle hpending'
    obtain ⟨out, hnext⟩ := hS _ _ _ (r.next t')
    obtain ⟨d, hcycle⟩ := next_store hnext
    exact hcycle.hands hpending' (hrefused t' hle)
  have hreq : ∀ k, (r.state (t + k + 1)).xc.dcacheFsm = .writeReq := by
    intro k
    induction k with
    | zero => exact hhands t (Nat.le_refl t) hpending
    | succ k ih =>
        refine hhands (t + k + 1) (by omega) ?_
        simp [XcacheWrapper.pendingStore, ih]
  refine .inr fun t' hlt => ?_
  obtain ⟨k, rfl⟩ := Nat.exists_eq_add_of_lt hlt
  exact ⟨hreq k, hrefused _ (by omega)⟩

/-- In every run in which an error is the last flit of its packet, and no packet is longer than
its line, no store is lost, doubled or exchanged with another one, and `XTN_SYNC` comes after the
stores before it are completed.  A store is handed over until it is accepted.  The condition is
about the packets of the instruction side too: their words that are left over could hold up the
response automaton, which both sides share. -/
theorem stores_in_order (cfg : XcacheConfig p) (parts : Parts F C W) (contents : F → List Word)
    (uncompleted : Traced W → List Store) (hfifo : FifoLaws parts.fifo contents)
    (hindex : ∀ w, parts.wbuf.getIndex w < cfg.wbufNlines)
    (hwbuf : WbufLaws parts.wbuf uncompleted) (hxtn : cfg.xtnDcacheInval ≠ cfg.xtnSync) :
    (∀ x, (storeSystem cfg parts
        ((system cfg parts.traced (AnyErrors cfg)).under (Shows (ErrorsLast cfg)))).Reachable x →
      StoresInOrder cfg parts uncompleted x.1 x.2) ∧
    ∀ (r : ((system cfg parts.traced (AnyErrors cfg)).under (Shows (ErrorsLast cfg))).Run) t,
      (r.state t).xc.pendingStore ≠ [] →
      (∃ t', t ≤ t' ∧ ((r.state t').xc.stored parts.traced).1 = true) ∨
        ∀ t', t < t' → (r.state t').xc.dcacheFsm = .writeReq ∧
          ((r.state t').xc.stored parts.traced).1 = false := by
  refine ⟨fun x hx => ?_, fun r t => handed_until_accepted
    (S := (system cfg parts.traced (AnyErrors cfg)).under (Shows (ErrorsLast cfg)))
    (fun _ _ _ hstep => hstep.2.2) r t⟩
  have hinv : ∀ {y}, (storeSystem cfg parts ((system cfg parts.traced (AnyErrors cfg)).under
      (Shows (ErrorsLast cfg)))).Reachable y →
        PipelineInv cfg parts uncompleted y.1 y.2 := fun hy =>
    stores_accepted hwbuf hy.drop_under
  have hover : UncachedOver cfg x.2 := by
    induction hx with
    | init hstart =>
        rw [hstart.2]
        exact nofun
    | @step y y' i hy hstep ih =>
        obtain ⟨⟨-, -, out, hnext⟩, hnote⟩ := id hstep
        rw [hnote]
        exact ih.next (hinv hy).holds (traced_inv hfifo hindex hy.forget)
          (traced_inv hfifo hindex (hy.step hstep).forget) hnext
  exact (hinv hx).inOrder hwbuf hxtn hover

/-- Every state of the wrapper has such a history. -/
theorem exists_storeLog {cfg : XcacheConfig p} {parts : Parts F C W} {contract : Contract p}
    {n : Node p F C W} (hn : (system cfg parts contract).Reachable n) :
    ∃ m h, (storeSystem cfg parts (system cfg parts.traced contract)).Reachable (m, h) ∧
      m.erase = n :=
  exists_traced_history hn

/-! ## Small runs -/

/-- Cycles in which the processor asks for data. -/
def asksFor (q : DataRequest) (bus : List (Stimulus smallParam)) : List (Stimulus smallParam) :=
  bus.map fun i => { i with dreq := q }

/-- A write of a word. -/
def writeWord (addr : Addr) (data : Word) : DataRequest := ⟨true, addr, .write, data, 0xF⟩

/-- `XTN_SYNC`. -/
def syncRequest : DataRequest := ⟨true, 20, .xtnWrite, 0, 0xF⟩

/-- The command of an uncached write. -/
def uncachedCommand (addr : Addr) (data : Word) : CmdFlit smallParam :=
  { wordCommand addr data with trdid := 0 }

/-- The last flit of the command of a burst of two words. -/
def pairCommand (addr : Addr) (data : Word) : CmdFlit smallParam :=
  { wordCommand addr data with plen := 8 }

/-- Two stores to one line, which are merged into one burst, a store to another line, which is
refused until the burst is completed, an uncached store that is taken as this store is accepted,
and `XTN_SYNC`. -/
def fourStores : List (Stimulus smallParam) :=
  asksFor (writeWord 0x20 7) [quietCycle] ++
  asksFor (writeWord 0x24 6) [quietCycle] ++
  asksFor (writeWord 0x40 8) [quietCycle] ++
  [quietCycle, takeCommand, takeCommand, respond (pairCommand 0x24 6) 0 false true,
    respond (pairCommand 0x24 6) 0 false true] ++
  asksFor (writeWord 0x2000 9) [quietCycle, quietCycle, takeCommand,
    respond (wordCommand 0x40 8) 0 false true, respond (wordCommand 0x40 8) 0 false true,
    takeCommand, respond (uncachedCommand 0x2000 9) 0 false true,
    respond (uncachedCommand 0x2000 9) 0 false true, quietCycle] ++
  asksFor syncRequest [quietCycle, quietCycle]

theorem fourStores_inOrder :
    ∃ x : Node smallParam (List Word) SetCache (Traced LineBuffer) × StoreLog smallParam,
      (x.2.answered.map fun y => y.1.type) = [.write, .write, .write, .write, .xtnWrite] ∧
        .rok 0 1 ∈ x.1.xc.wbuf.calls ∧
        StoresInOrder smallConfig (mergingParts 2) LineBuffer.uncompleted x.1 x.2 := by
  have hrun : (exec (noting (StoreLog.note smallConfig (mergingParts 2).traced)
      (guarded (Shows (ErrorsLast smallConfig))
        (Node.legalNext smallConfig (mergingParts 2).traced (AnyErrors smallConfig)))) fourStores
      (smallTraced 2, .blank)).any (fun x =>
        (x.2.answered.map fun y => y.1.type) = [.write, .write, .write, .write, .xtnWrite] ∧
          .rok 0 1 ∈ x.1.xc.wbuf.calls) = true := by
    decide +kernel
  obtain ⟨x, hx, htest⟩ := System.exists_exec
    (S := storeSystem smallConfig (mergingParts 2)
      ((system smallConfig (mergingParts 2).traced (AnyErrors smallConfig)).under
        (Shows (ErrorsLast smallConfig))))
    (s := (smallTraced 2, .blank)) (noting_step (guarded_step Node.legalNext_step))
    ⟨smallTraced_start_merging 2, rfl⟩ hrun
  obtain ⟨hanswered, hburst⟩ := of_decide_eq_true htest
  exact ⟨x, hanswered, hburst, (stores_in_order smallConfig (mergingParts 2) id
    LineBuffer.uncompleted listFifo_laws (fun _ => Nat.one_pos) (lineBuffer_laws 2 1)
    (by decide)).1 x hx⟩

/-- The response to a read has two errors, and the second one comes when the read is over. -/
def syncTooEarly : List (Stimulus smallParam) :=
  asksFor (loadWord 0x10) [quietCycle, quietCycle, takeCommand,
    respond (lineCommand 0x10) 0 true false, respond (lineCommand 0x10) 0 true false, quietCycle] ++
  [respond (lineCommand 0x10) 0 true true] ++
  asksFor (writeWord 0x2000 9) [quietCycle, quietCycle] ++
  asksFor syncRequest [quietCycle, quietCycle]

/-- The uncached store is answered by the error flag that is left, and so `XTN_SYNC` is answered
before the command of the store has been accepted. -/
theorem sync_before_write :
    ∃ x : Node smallParam (List Word) SetCache (Traced LineBuffer) × StoreLog smallParam,
      (storeSystem smallConfig (smallParts 2)
        (system smallConfig (smallParts 2).traced (AnyErrors smallConfig))).Reachable x ∧
      (x.2.answered.map fun y => y.1) = [loadWord 0x10, writeWord 0x2000 9, syncRequest] ∧
      x.1.xc.cmdFsm = .read .data .unc ∧
      ¬ StoresInOrder smallConfig (smallParts 2) LineBuffer.uncompleted x.1 x.2 := by
  have hrun : (exec (noting (StoreLog.note smallConfig (smallParts 2).traced)
      (Node.legalNext smallConfig (smallParts 2).traced (AnyErrors smallConfig))) syncTooEarly
      (smallTraced 2, .blank)).any (fun x =>
        (x.2.answered.map fun y => y.1) = [loadWord 0x10, writeWord 0x2000 9, syncRequest] ∧
          x.1.xc.cmdFsm = .read .data .unc ∧
          x.2.answered.any fun y => y.1 = writeWord 0x2000 9 ∧
            y.2.all fun r => r.accepted = []) = true := by
    decide +kernel
  obtain ⟨x, hx, htest⟩ := System.exists_exec
    (S := storeSystem smallConfig (smallParts 2)
      (system smallConfig (smallParts 2).traced (AnyErrors smallConfig)))
    (s := (smallTraced 2, .blank)) (noting_step Node.legalNext_step) ⟨smallTraced_start 2, rfl⟩ hrun
  obtain ⟨hanswered, hsending, hany⟩ := of_decide_eq_true htest
  refine ⟨x, hx, hanswered, hsending, fun horder => ?_⟩
  obtain ⟨y, hy, hcond⟩ := List.any_eq_true.mp hany
  obtain ⟨hwrite, hnone⟩ := of_decide_eq_true hcond
  obtain ⟨r, way, set, hr, hcomplete⟩ := horder.uncached y hy (by rw [hwrite]; rfl) (by
    rw [hwrite]
    decide)
  rw [hr] at hnone
  have hempty : r.accepted = [] := by simpa using hnone
  cases hempty.symm.trans hcomplete.accepted

end SmcTp.Xcache
