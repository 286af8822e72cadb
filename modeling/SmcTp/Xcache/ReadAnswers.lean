import SmcTp.Xcache.LineFill

/-!
# What a processor gets

The main results on reads.  With responses without errors every read is served
(`reads_served`): its record is complete, the line is in the cache with the words of the
response, and the processor gets the word it asks for.  With responses that have errors, the
errors are isolated (`errors_isolated`) as long as an error is the last flit of its packet and
the processor still asks for the line whose error it is told of.
-/

namespace SmcTp.Xcache

open Vci Clocked

variable {p : VciParams} {F C W : Type}
variable {cfg : XcacheConfig p} {parts : Parts F C W} {contents : F → List Word}
  {view : CacheView C} {contract : Contract p} {i : Stimulus p} {n n' : Node p F C W}
  {o : XcacheOut F C W} {c : Client}

/-! ## Requests -/

/-- The automaton of a client is idle. -/
def XcacheWrapper.Idle (s : XcacheWrapper F C W) : Client → Prop
  | .ins => s.icacheFsm = .idle
  | .data => s.dcacheFsm = .idle

/-- The automaton of a client takes a request in this cycle. -/
def XcacheWrapper.Ready (parts : Parts F C W) (s : XcacheWrapper F C W) : Client → Prop
  | .ins => s.icacheFsm = .idle
  | .data => s.Takes parts

/-- The word the processor wants to read. -/
def wants (ireq : InsRequest) (dreq : DataRequest) : Client → Option Addr
  | .ins => if ireq.valid then some ireq.addr else none
  | .data => if dreq.valid && dreq.type = .read then some dreq.addr else none

/-- The read that brings a word. -/
def XcacheConfig.kindOf (cfg : XcacheConfig p) (a : Addr) : ReadKind :=
  if cfg.cacheable a then .miss else .unc

section Requests

variable {a : Addr} {ireq : InsRequest} {dreq : DataRequest}

/-- A request for an instruction hits or starts a read. -/
theorem icacheTransition_request (cfg : XcacheConfig p) (parts : Parts F C W)
    (hvalid : ireq.valid = true) (side : Side F) (cache : C) :
    if cfg.cacheable ireq.addr = true ∧ (parts.cache.read ireq.addr cache).1.hit = true then
      (icacheTransition cfg parts ireq .idle side cache).irsp =
        .ok (parts.cache.read ireq.addr cache).1.rdata
    else (icacheTransition cfg parts ireq .idle side cache).irsp = .none ∧
      (icacheTransition cfg parts ireq .idle side cache).fsm =
        .read (cfg.kindOf ireq.addr).start ∧
      (icacheTransition cfg parts ireq .idle side cache).side.addrSave = ireq.addr := by
  simp only [icacheTransition, hvalid, if_true, XcacheConfig.kindOf]
  cases hcacheable : cfg.cacheable ireq.addr with
  | false => exact ⟨rfl, rfl, rfl⟩
  | true =>
      cases hhit : (parts.cache.read ireq.addr cache).1.hit with
      | false => exact ⟨rfl, rfl, rfl⟩
      | true => rfl

/-- A request for data hits or starts a read. -/
theorem dcacheRequest_request (hvalid : dreq.valid = true) (htype : dreq.type = .read)
    {side : Side F} {save : DataSave} {cache : C} {wbuf : W} {d : DcacheOut F C W}
    (h : dcacheRequest cfg parts dreq side save cache wbuf = .ok d) :
    if cfg.cacheable dreq.addr = true ∧ (parts.cache.read dreq.addr cache).1.hit = true then
      d.drsp = .ok (parts.cache.read dreq.addr cache).1.rdata
    else d.drsp = .none ∧ d.fsm = .read (cfg.kindOf dreq.addr).start ∧
      d.side.addrSave = dreq.addr := by
  simp only [dcacheRequest, hvalid, htype, if_true, XcacheConfig.kindOf] at h ⊢
  cases hcacheable : cfg.cacheable dreq.addr with
  | false =>
      rw [hcacheable] at h
      cases h
      exact ⟨rfl, rfl, rfl⟩
  | true =>
      rw [hcacheable] at h
      cases hhit : (parts.cache.read dreq.addr cache).1.hit with
      | false =>
          rw [hhit] at h
          cases h
          exact ⟨rfl, rfl, rfl⟩
      | true =>
          rw [hhit] at h
          cases h
          rfl

/-- What takes a request treats it as the idle state does. -/
theorem dcacheTransition_request {s : XcacheWrapper F C W} {d : DcacheOut F C W}
    (htakes : s.Takes parts)
    (h : dcacheTransition cfg parts dreq s.dcacheFsm s.data s.dataSave s.dcache s.wbuf = .ok d) :
    ∃ wbuf, dcacheRequest cfg parts dreq s.data s.dataSave s.dcache wbuf = .ok d := by
  rcases htakes with hidle | ⟨hreq, haccepted⟩
  · rw [hidle] at h
    exact ⟨s.wbuf, h⟩
  · rw [XcacheWrapper.stored_of_writeReq hreq] at haccepted
    rw [hreq] at h
    simp only [dcacheTransition, haccepted, if_true] at h
    exact ⟨_, h⟩

/-- A request for a word hits or starts a read. -/
theorem request_ok (h : n.next cfg parts i = .ok (n', o)) (hready : n.xc.Ready parts c)
    (hwants : wants i.ireq i.dreq c = some a) :
    if cfg.cacheable a = true ∧ (parts.cache.read a (n.xc.cache c)).1.hit = true then
      o.response c = .ok (parts.cache.read a (n.xc.cache c)).1.rdata
    else o.response c = .none ∧ n'.xc.readFsm c = some (cfg.kindOf a).start ∧
      (n'.xc.saved c).addr = a := by
  simp only [Node.next] at h
  split at h
  · cases h
  · rename_i out hout
    obtain ⟨d, rsp, hd, hrsp, rfl⟩ := transition_ok hout
    cases h
    cases c with
    | ins =>
        replace hready : n.xc.icacheFsm = .idle := hready
        simp only [wants] at hwants
        split_ifs at hwants with hvalid
        cases hwants
        have hrequest := icacheTransition_request cfg parts hvalid n.xc.ins n.xc.icache
        rw [← hready] at hrequest
        by_cases hhit : cfg.cacheable i.ireq.addr = true ∧
          (parts.cache.read i.ireq.addr n.xc.icache).1.hit = true
        · rw [if_pos hhit] at hrequest
          exact (if_pos hhit).mpr hrequest
        · rw [if_neg hhit] at hrequest
          obtain ⟨hirsp, hfsm, haddr⟩ := hrequest
          refine (if_neg hhit).mpr ?_
          exact ⟨hirsp, congrArg IcacheFsm.serving hfsm, haddr⟩
    | data =>
        simp only [wants] at hwants
        split_ifs at hwants with hboth
        cases hwants
        obtain ⟨hvalid, htype⟩ := Bool.and_eq_true_iff.mp hboth
        obtain ⟨wbuf, hd'⟩ := dcacheTransition_request hready hd
        have hrequest := dcacheRequest_request hvalid (of_decide_eq_true htype) hd'
        by_cases hhit : cfg.cacheable i.dreq.addr = true ∧
          (parts.cache.read i.dreq.addr n.xc.dcache).1.hit = true
        · rw [if_pos hhit] at hrequest
          exact (if_pos hhit).mpr hrequest
        · rw [if_neg hhit] at hrequest
          obtain ⟨hdrsp, hfsm, haddr⟩ := hrequest
          refine (if_neg hhit).mpr ?_
          exact ⟨hdrsp, congrArg DcacheFsm.serving hfsm, haddr⟩

/-- A client whose read is over takes the next request. -/
theorem idle_of_over (h : n.next cfg parts i = .ok (n', o)) {f : ReadFsm}
    (hfsm : n.xc.readFsm c = some f) (hover : n'.xc.readFsm c = none) : n'.xc.Idle c := by
  simp only [Node.next] at h
  split at h
  · cases h
  · rename_i out hout
    obtain ⟨d, rsp, hd, hrsp, rfl⟩ := transition_ok hout
    cases h
    cases c with
    | ins =>
        replace hover : (icacheTransition cfg parts i.ireq n.xc.icacheFsm n.xc.ins
          n.xc.icache).fsm.serving = none := hover
        show (icacheTransition cfg parts i.ireq n.xc.icacheFsm n.xc.ins n.xc.icache).fsm = .idle
        generalize (icacheTransition cfg parts i.ireq n.xc.icacheFsm n.xc.ins n.xc.icache).fsm =
          fsm at hover
        cases fsm with
        | idle => rfl
        | read f => cases hover
    | data =>
        have hread : n.xc.dcacheFsm = .read f := by
          replace hfsm : n.xc.dcacheFsm.serving = some f := hfsm
          generalize n.xc.dcacheFsm = fsm at hfsm
          cases fsm <;> cases hfsm
          rfl
        rw [hread] at hd
        cases hd
        replace hover : (DcacheFsm.ofNext (readTransition parts cfg.dcacheWords
          (i.dreq.valid && i.dreq.addr == n.xc.data.addrSave) f n.xc.data
          n.xc.dcache).next).serving =
            none := hover
        rw [DcacheFsm.serving_ofNext] at hover
        show DcacheFsm.ofNext (readTransition parts cfg.dcacheWords
          (i.dreq.valid && i.dreq.addr == n.xc.data.addrSave) f n.xc.data n.xc.dcache).next = .idle
        rw [hover]
        rfl

end Requests

/-! ## Reads without errors -/

/-- What a cycle without errors does for the processor and for the cache of a client.

A request is answered by the word of a slot that holds its line.  If there is none it starts a
read, and is told nothing while the read goes on.  The cycle that ends the read of a line leaves
the line in one slot, with the words of the response in their places, and takes the next request.
The cycle that ends an uncached read hands its word to a processor that still asks for it. -/
structure Served (cfg : XcacheConfig p) (parts : Parts F C W) (view : CacheView C)
    (i : Stimulus p) (n n' : Node p F C W) (o : XcacheOut F C W) (c : Client) : Prop where
  hit : ∀ a, n.xc.Ready parts c → wants i.ireq i.dreq c = some a → cfg.cacheable a = true →
    (∃ w s, view.line (n.xc.cache c) w s = some (cfg.line c a)) →
    ∃ w s, view.line (n.xc.cache c) w s = some (cfg.line c a) ∧
      o.response c = .ok (view.word (n.xc.cache c) w s (wordNo a % cfg.words c))
  start : ∀ a, n.xc.Ready parts c → wants i.ireq i.dreq c = some a →
    (cfg.cacheable a = true → ∀ w s, view.line (n.xc.cache c) w s ≠ some (cfg.line c a)) →
    o.response c = .none ∧ n'.xc.readFsm c = some (cfg.kindOf a).start ∧ (n'.xc.saved c).addr = a
  busy : n.xc.readFsm c ≠ none → n'.xc.readFsm c ≠ none → o.response c = .none
  line : ∀ r a, (n'.log c).closed = (n.log c).closed ++ [r] → r.request = some (.miss, a) →
    n'.xc.Idle c ∧ o.response c = .none ∧
      ∃ way set, (∀ w s, view.line (n'.xc.cache c) w s = some (cfg.line c a.addr) ↔
          w = way ∧ s = set) ∧
        ∀ j f, r.flits[j]? = some f → view.word (n'.xc.cache c) way set j = wordOf f
  value : ∀ r a, (n'.log c).closed = (n.log c).closed ++ [r] → r.request = some (.unc, a) →
    n'.xc.Idle c ∧ ∃ f, r.flits = [f] ∧
      o.response c = if n.xc.again i.ireq i.dreq c then .ok (wordOf f) else .none

/-- A read that goes on tells the processor nothing. -/
theorem readTransition_busy {words : Nat} {same : Bool} {f : ReadFsm} {side : Side F} {cache : C}
    (h : (readTransition parts words same f side cache).next ≠ none) :
    (readTransition parts words same f side cache).response = .none := by
  cases f with
  | missSelect => rfl
  | missInval => rfl
  | missWait =>
      simp only [readTransition] at h ⊢
      split_ifs at h ⊢ <;> first | rfl | exact absurd rfl h
  | uncWait =>
      simp only [readTransition] at h ⊢
      split_ifs at h ⊢ <;> first | rfl | exact absurd rfl h

/-- The record a cycle closes is that of the read it ends. -/
theorem Inv.ends (hfifo : FifoLaws parts.fifo contents)
    (hindex : ∀ w, parts.wbuf.getIndex w < cfg.wbufNlines) (hclean : contract.Clean cfg)
    (hinv : Inv cfg contents n) (hlegal : n.net.Legal contract i)
    (hnext : n.next cfg parts i = .ok (n', o)) {r : Record p}
    (hr : (n'.log c).closed = (n.log c).closed ++ [r]) :
    ∃ (out : ClientOut F C) (cmd : CmdOut W) (rsp : RspOut W) (k : ReadKind),
      Edge cfg parts i n n' c out cmd rsp ∧ out.response = o.response c ∧
        Cycle.Ends cfg i n n' c out k r := by
  obtain ⟨outs, cmd, rsp, hcycle⟩ := hinv.cycle hfifo hindex hclean hlegal hnext
  obtain ⟨hc, hresponse⟩ := hcycle c
  rcases hc.ends (hinv.channel c) with hsame | ⟨k, r', hends⟩
  · rw [hsame] at hr
    simp at hr
  · obtain rfl : r = r' := by
      have hboth := hr.symm.trans hends.closed
      exact List.singleton_inj.mp (List.append_cancel_left hboth)
    exact ⟨outs c, cmd, rsp, k, hc.toEdge, hresponse, hends⟩

/-- The cache after the read of a line is what the effects of its record have made of it. -/
theorem Filling.replay_end (h : Filling cfg parts view c n) {out : ClientOut F C} {cmd : CmdOut W}
    {rsp : RspOut W} (he : Edge cfg parts i n n' c out cmd rsp) {r : Record p}
    (hends : Cycle.Ends cfg i n n' c out .miss r) :
    ∃ cache, n'.xc.cache c = replay parts.cache r.effects cache ∧
      ∀ w s, view.line cache w s ≠ some (cfg.line c (n.xc.saved c).addr) := by
  obtain ⟨cache, hreplay, hmissing⟩ := h.replayed hends.waits
  refine ⟨cache, ?_, hmissing⟩
  have hserves := he.serves.of_read hends.waits
  rw [hends.effects, replay_append, ← hreplay, he.cache, hserves.cache, hserves.effects]
  exact (readTransition_effects parts _ _ .miss _ _).1

theorem Served.of_inv (hfifo : FifoLaws parts.fifo contents)
    (hindex : ∀ w, parts.wbuf.getIndex w < cfg.wbufNlines)
    (hcache : CacheLaws parts.cache (cfg.words c) view) (hinv : Inv cfg contents n)
    (hfill : Filling cfg parts view c n) (hflaw' : Flawless n' c)
    (hlegal : n.net.Legal (ErrorFree cfg) i) (hnext : n.next cfg parts i = .ok (n', o)) :
    Served cfg parts view i n n' o c := by
  refine ⟨fun a hready hwants hcacheable hline => ?_, fun a hready hwants hmiss => ?_,
    fun hbusy hgoes => ?_, fun r a hr hrequest => ?_, fun r a hr hrequest => ?_⟩
  · have hhit : (parts.cache.read a (n.xc.cache c)).1.hit = true := by
      by_contra hnot
      obtain ⟨w, s, hl⟩ := hline
      exact hcache.miss _ _ (Bool.eq_false_iff.mpr hnot) w s hl
    obtain ⟨_, hfound, _, hdata⟩ := hcache.hit _ _ hhit
    have hrequest := request_ok hnext hready hwants
    rw [if_pos ⟨hcacheable, hhit⟩, hdata] at hrequest
    exact ⟨_, _, hfound, hrequest⟩
  · have hrequest := request_ok hnext hready hwants
    rwa [if_neg] at hrequest
    rintro ⟨hcacheable, hhit⟩
    exact hmiss hcacheable _ _ (hcache.hit _ _ hhit).2.1
  · obtain ⟨outs, cmd, rsp, hedge⟩ := next_edge hnext
    obtain ⟨he, hresponse⟩ := hedge c
    obtain ⟨f, hfsm⟩ := Option.ne_none_iff_exists'.mp hbusy
    have hserves := he.serves.of_read hfsm
    rw [he.readFsm, hserves.next] at hgoes
    rw [← hresponse, hserves.response]
    exact readTransition_busy hgoes
  · obtain ⟨out, cmd, rsp, k, he, hresponse, hends⟩ :=
      hinv.ends hfifo hindex (errorFree_clean cfg) hlegal hnext hr
    cases hends.complete.request.symm.trans hrequest
    have hgood : ∀ f ∈ r.flits, fails f = false := hflaw'.1 r (by rw [hr]; simp)
    have hnone : r.flits.any fails = false :=
      List.any_eq_false.mpr fun f hf => by simp [hgood f hf]
    obtain ⟨_, _, _, hending⟩ := hends.good hnone
    have hover : n'.xc.readFsm c = none := he.readFsm.trans hends.finished
    refine ⟨idle_of_over hnext hends.waits hover, hresponse.symm.trans hending,
      (n.xc.side c).waySave, (n.xc.side c).setSave, ?_⟩
    obtain ⟨cache, hreplay, hmissing⟩ := hfill.replay_end he hends
    have hslot := hfill.slot _ hends.waits rfl ReadFsm.noConfusion
    obtain ⟨hlines, hwords⟩ := replay_served hcache hslot
      (Nat.le_of_eq (hends.complete.length (.inr hgood))) cache
    rw [hreplay, hends.complete.effects, answer_good _ _ _ _ hgood]
    refine ⟨fun w s => ?_, hwords⟩
    rw [hlines]
    split_ifs with hslot
    · simp only [hslot, and_self, iff_true]
      rfl
    · exact iff_of_false (hmissing w s) hslot
  · obtain ⟨out, cmd, rsp, k, he, hresponse, hends⟩ :=
      hinv.ends hfifo hindex (errorFree_clean cfg) hlegal hnext hr
    cases hends.complete.request.symm.trans hrequest
    have hgood : ∀ f ∈ r.flits, fails f = false := hflaw'.1 r (by rw [hr]; simp)
    have hnone : r.flits.any fails = false :=
      List.any_eq_false.mpr fun f hf => by simp [hgood f hf]
    obtain ⟨fs, f, hflits, hending⟩ := hends.good hnone
    have hone : r.flits.length = 1 := hends.complete.length (.inl rfl)
    rw [hflits, List.length_append] at hone
    obtain rfl : fs = [] := List.length_eq_zero_iff.mp (Nat.succ.inj hone)
    exact ⟨idle_of_over hnext hends.waits (he.readFsm.trans hends.finished), f, hflits,
      hresponse.symm.trans hending⟩

/-- Reads whose responses have no error are served.  Every read has exactly one command
accepted, the one of its request, by the time its automaton is idle again.  A line is in the
cache with the words of its response, and the processor gets the word it asks for.  No
assertion fails, and the FIFO has room for every flit that is taken. -/
theorem reads_served (cfg : XcacheConfig p) (parts : Parts F C W) (contents : F → List Word)
    (view : CacheView C) (hfifo : FifoLaws parts.fifo contents)
    (hindex : ∀ w, parts.wbuf.getIndex w < cfg.wbufNlines) {n : Node p F C W}
    (hn : (system cfg parts (ErrorFree cfg)).Reachable n) (c : Client)
    (hcache : CacheLaws parts.cache (cfg.words c) view) :
    (∀ r ∈ (n.log c).closed, ∃ k a way set, r.Complete cfg c k a way set ∧
      r.flits.length = cfg.length c k ∧
      r.effects = served way set a r.flits k) ∧
    (n.xc.readFsm c = none → (n.log c).current = .blank) ∧
    (∀ i, n.net.Legal (ErrorFree cfg) i →
      (∀ text, n.next cfg parts i ≠ .error (.assertion text)) ∧
      ∀ k, n.xc.rspFsm = .read c k → (n.wires cfg parts i).rspTransfer = true →
        parts.fifo.wok (n.xc.side c).fifo = true) ∧
    ∀ i n' o, n.net.Legal (ErrorFree cfg) i → n.next cfg parts i = .ok (n', o) →
      Served cfg parts view i n n' o c := by
  have hinv := reachable_inv hfifo hindex (errorFree_clean cfg) hn
  have hflaw := reachable_flawless hn c
  refine ⟨fun r hr => ?_, fun hfsm => ?_,
    fun i hlegal => ⟨fun text => ?_, fun k hfsm htransfer => ?_⟩, fun i n' o hlegal hnext => ?_⟩
  · obtain ⟨k, a, way, set, hr'⟩ := hinv.closed c r hr
    have hgood := hflaw.1 r hr
    exact ⟨k, a, way, set, hr', hr'.length (.inr hgood),
      hr'.effects.trans (answer_good way set a k hgood)⟩
  · exact ((hinv.channel c).at_rest hfsm).2.2
  · exact hinv.no_assertion hfifo (errorFree_clean cfg) hlegal text
  · have hval : i.rspval = true := (Bool.and_eq_true_iff.mp htransfer).1
    exact ((hinv.channel c).answers hfifo (errorFree_clean cfg) hinv.linked hlegal hfsm hval
      n.xc.wbuf).1
  · exact .of_inv hfifo hindex hcache hinv
      (reachable_filling hfifo hindex (errorFree_clean cfg) hcache hn)
      (hflaw.next hlegal hnext) hlegal hnext

/-- The processor fetches a line, which holds `first` and `second`. -/
def fetchLine (addr : Addr) (first second : Word) : List (Stimulus smallParam) :=
  [fetch addr, quietCycle, takeCommand, respond (fetchCommand addr) first false false,
    respond (fetchCommand addr) first false false, respond (fetchCommand addr) second false true,
    quietCycle]

/-- Lines of both sets are fetched, and a word of the first is fetched again. -/
theorem fetchLine_served : ∃ n : Node smallParam (List Word) SetCache LineBuffer,
    (n.log .ins).closed.length = 2 ∧
      (∀ r ∈ (n.log .ins).closed, ∃ k a way set, r.Complete smallConfig .ins k a way set ∧
        r.flits.length = smallConfig.length .ins k ∧ r.effects = served way set a r.flits k) ∧
      ∃ n' o, n.next smallConfig (smallParts 2) (fetch 0x14) = .ok (n', o) ∧
        o.response .ins = .ok 8 ∧
        Served smallConfig (smallParts 2) (setView 2 2) (fetch 0x14) n n' o .ins := by
  have hrun : (exec (Node.legalNext smallConfig (smallParts 2) (ErrorFree smallConfig))
      (fetchLine 0x10 7 8 ++ fetchLine 0x18 9 10) smallNode).any (fun n =>
        (n.log .ins).closed.length = 2 ∧
          (n.next smallConfig (smallParts 2) (fetch 0x14)).toOption.any fun out =>
            out.2.response .ins = .ok 8) = true := by
    decide +kernel
  obtain ⟨n, hn, htest⟩ := Node.exists_run smallNode_start hrun
  obtain ⟨htwo, hhit⟩ := of_decide_eq_true htest
  obtain ⟨hrecords, _, _, hserved⟩ := reads_served smallConfig (smallParts 2) id (setView 2 2)
    listFifo_laws (fun _ => Nat.one_pos) hn .ins (smallCache_laws 2)
  obtain ⟨out, hout, hword⟩ := (Option.any_eq_true _ _).mp hhit
  refine ⟨n, htwo, hrecords, out.1, out.2, ?_⟩
  cases hnext : n.next smallConfig (smallParts 2) (fetch 0x14) with
  | error halt =>
      rw [hnext] at hout
      cases hout
  | ok next =>
      rw [hnext] at hout
      cases hout
      exact ⟨rfl, of_decide_eq_true hword, hserved _ _ _ (fun hval => by cases hval) hnext⟩

/-! ## Reads with errors -/

/-- In the cycle in which the error of a line is reported the processor still makes the request
for this line. -/
def StillAsks (n : Node p F C W) (i : Stimulus p) : Prop :=
  ∀ c, n.xc.readFsm c = some .missWait → (n.xc.side c).error = true →
    asks i.ireq i.dreq c = some (n.xc.saved c)

/-- The error of a line is told to the processor once, in answer to the request of the line. -/
def Told (n : Node p F C W) (c : Client) : Prop :=
  ∀ r ∈ (n.log c).closed, r.flits.any fails = true →
    ∀ a, r.request = some (.miss, a) → r.answers = [(some a, .bad)]

/-- What the isolation of errors demands in a state.  The response to every read is reported as
it is.  An error is reported once, to the request it belongs to, and never with a valid line,
and nothing of it is left. -/
structure Isolated (cfg : XcacheConfig p) (contents : F → List Word) (n : Node p F C W)
    (c : Client) : Prop where
  complete : ∀ r ∈ (n.log c).closed, ∃ k a way set, r.Complete cfg c k a way set
  reported : ∀ r ∈ (n.log c).closed, r.flits.any fails = true →
    r.effects.count .error = 1 ∧ ∀ addr way set, .validate addr way set ∉ r.effects
  told : Told n c
  left : n.xc.readFsm c = none → (n.log c).current = .blank ∧
    (n.xc.side c).error = false ∧ contents (n.xc.side c).fifo = []
  idle : n.net.current = none → n.xc.rspFsm = .idle

/-- What it demands in a cycle: outside of a read no error is reported, and the end of a read
with an error reports it and leaves the line out of the cache. -/
structure Contained (cfg : XcacheConfig p) (view : CacheView C) (n n' : Node p F C W)
    (o : XcacheOut F C W) (c : Client) : Prop where
  rest : n.xc.readFsm c = none → (o.response c).error = false
  failed : ∀ r, (n'.log c).closed = (n.log c).closed ++ [r] → r.flits.any fails = true →
    o.response c = .bad
  unfilled : ∀ r a, (n'.log c).closed = (n.log c).closed ++ [r] → r.flits.any fails = true →
    r.request = some (.miss, a) → ∀ w s, view.line (n'.xc.cache c) w s ≠ some (cfg.line c a.addr)

/-- The writes of a line report nothing. -/
theorem not_mem_writes {way set : Nat} {fs : List (RspFlit p)} {e : Effect}
    (he : ∀ w s j d, e ≠ .write w s j d) : e ∉ writes way set fs := by
  intro hmem
  obtain ⟨j, hj, rfl⟩ := List.mem_mapIdx.mp hmem
  exact he _ _ _ _ rfl

/-- A packet has one last flit, so that an uncached answer is one flit. -/
theorem answer_reported {way set : Nat} {a : Access} {fs : List (RspFlit p)} {k : ReadKind}
    (hany : fs.any fails = true) (hone : k = .unc → fs.length = 1) :
    (answer way set a fs k).count .error = 1 ∧
      ∀ addr way' set', .validate addr way' set' ∉ answer way set a fs k := by
  cases k with
  | miss =>
      simp only [answer, hany, if_true, List.count_append, List.mem_append, List.mem_singleton]
      refine ⟨?_, fun addr way' set' hmem => ?_⟩
      · rw [List.count_eq_zero.mpr (not_mem_writes fun _ _ _ _ => Effect.noConfusion)]
        rfl
      · rcases hmem with hmem | hmem
        · exact not_mem_writes (fun _ _ _ _ => Effect.noConfusion) hmem
        · cases hmem
  | unc =>
      obtain ⟨f, rfl⟩ := List.length_eq_one_iff.mp (hone rfl)
      have hf : fails f = true := by simpa using hany
      simp [answer, hf]

theorem Told.next (h : Told n c) (hfifo : FifoLaws parts.fifo contents)
    (hindex : ∀ w, parts.wbuf.getIndex w < cfg.wbufNlines) (hclean : contract.Clean cfg)
    (hinv : Inv cfg contents n) (hlegal : n.net.Legal contract i) (hasks : StillAsks n i)
    (hnext : n.next cfg parts i = .ok (n', o)) : Told n' c := by
  obtain ⟨outs, cmd, rsp, hcycle⟩ := hinv.cycle hfifo hindex hclean hlegal hnext
  rcases (hcycle c).1.ends (hinv.channel c) with hsame | ⟨k, r', hends⟩
  · intro r hr
    exact h r (hsame ▸ hr)
  · intro r hr hany a hrequest
    rw [hends.closed] at hr
    rcases List.mem_append.mp hr with hr | hr
    · exact h r hr hany a hrequest
    · obtain rfl := List.mem_singleton.mp hr
      cases hends.complete.request.symm.trans hrequest
      obtain ⟨herror, hbad⟩ := hends.failed hany
      rw [hends.answers, hbad, hasks c hends.waits herror]
      rfl

theorem Inv.isolated (h : Inv cfg contents n) (htold : Told n c) : Isolated cfg contents n c where
  complete := h.closed c
  reported r hr hany := by
    obtain ⟨k, a, way, set, hr'⟩ := h.closed c r hr
    rw [hr'.effects]
    exact answer_reported hany fun hk => by
      simpa [hk, XcacheConfig.length] using hr'.length (.inl hk)
  told := htold
  left hfsm := by
    obtain ⟨_, hbuf, hlog⟩ := (h.channel c).at_rest hfsm
    exact ⟨hlog, hbuf.error, hbuf.fifo⟩
  idle := h.linked.idle

theorem Contained.of_inv (hfifo : FifoLaws parts.fifo contents)
    (hindex : ∀ w, parts.wbuf.getIndex w < cfg.wbufNlines) (hclean : contract.Clean cfg)
    (hinv : Inv cfg contents n) (hfill : Filling cfg parts view c n)
    (hlegal : n.net.Legal contract i) (hnext : n.next cfg parts i = .ok (n', o)) :
    Contained cfg view n n' o c where
  rest hfsm := by
    obtain ⟨outs, cmd, rsp, hedge⟩ := next_edge hnext
    obtain ⟨he, hresponse⟩ := hedge c
    rw [← hresponse]
    cases he.serves with
    | rest _ _ _ _ _ _ herror => exact herror
    | raise k _ _ _ _ _ _ _ _ _ _ _ _ hnone =>
        rw [hnone]
        rfl
    | read f hf => cases hfsm.symm.trans hf
  failed r hr hany := by
    obtain ⟨out, cmd, rsp, k, _, hresponse, hends⟩ :=
      hinv.ends hfifo hindex hclean hlegal hnext hr
    exact hresponse.symm.trans (hends.failed hany).2
  unfilled r a hr hany hrequest w s := by
    obtain ⟨out, cmd, rsp, k, he, _, hends⟩ := hinv.ends hfifo hindex hclean hlegal hnext hr
    cases hends.complete.request.symm.trans hrequest
    have hserves := he.serves.of_read hends.waits
    rw [readTransition_error (hends.failed hany).1] at hserves
    rw [he.cache, hserves.cache]
    exact hfill.missing _ hends.waits rfl w s

/-- In every run in which an error is the last flit of its packet, no packet is longer than its
line, and the processor still asks for the line whose error it is told of, errors are isolated
in every state and contained in every cycle. -/
theorem errors_isolated (cfg : XcacheConfig p) (parts : Parts F C W) (contents : F → List Word)
    (view : CacheView C) (hfifo : FifoLaws parts.fifo contents)
    (hindex : ∀ w, parts.wbuf.getIndex w < cfg.wbufNlines) {n : Node p F C W}
    (hn : ((system cfg parts (AnyErrors cfg)).under fun n i =>
      Shows (ErrorsLast cfg) n i ∧ StillAsks n i).Reachable n)
    (c : Client) (hcache : CacheLaws parts.cache (cfg.words c) view) :
    Isolated cfg contents n c ∧
      ∀ i n' o, n.net.Legal (AnyErrors cfg) i → Shows (ErrorsLast cfg) n i →
        n.next cfg parts i = .ok (n', o) → Contained cfg view n n' o c := by
  have hclean := errorsLast_clean cfg
  have hshows : ∀ m, ((system cfg parts (AnyErrors cfg)).under fun n i =>
      Shows (ErrorsLast cfg) n i ∧ StillAsks n i).Reachable m →
      (system cfg parts fun t fs f =>
        AnyErrors cfg t fs f ∧ ErrorsLast cfg t fs f).Reachable m := by
    intro m hm
    refine reachable_shows_iff.mp (hm.mono ?_ ?_)
    · intro n hstart
      exact hstart
    · intro n i n' hstep
      exact ⟨hstep.1.1, hstep.2⟩
  have hinv := reachable_inv hfifo hindex hclean (hshows n hn)
  have htold : Told n c := by
    refine (hn.invariant (P := fun m => Inv cfg contents m ∧ Told m c) (fun m hstart => ?_)
      fun m i m' hm hstep => ?_).2
    · obtain ⟨_, _, hlog⟩ := id hstart
      exact ⟨.start hfifo hstart, fun r hr => by simp [hlog] at hr⟩
    · obtain ⟨⟨hshown, hasks⟩, hlegal, o, hnext⟩ := hstep
      exact ⟨hm.1.next hfifo hindex hclean (hlegal.both hshown) hnext,
        hm.2.next hfifo hindex hclean hm.1 (hlegal.both hshown) hasks hnext⟩
  refine ⟨hinv.isolated htold, fun i n' o hlegal hshown hnext => ?_⟩
  exact .of_inv hfifo hindex hclean hinv
    (reachable_filling hfifo hindex hclean hcache (hshows n hn))
    (hlegal.both hshown) hnext

instance (n : Node p F C W) (i : Stimulus p) : Decidable (StillAsks n i) :=
  decidable_of_iff ((n.xc.readFsm .ins = some .missWait → (n.xc.side .ins).error = true →
      asks i.ireq i.dreq .ins = some (n.xc.saved .ins)) ∧
    (n.xc.readFsm .data = some .missWait → (n.xc.side .data).error = true →
      asks i.ireq i.dreq .data = some (n.xc.saved .data)))
    ⟨fun h c => by cases c with | ins => exact h.1 | data => exact h.2, fun h => ⟨h .ins, h .data⟩⟩

/-- The response to a fetch ends with an error after its first word. -/
def errorAtEnd : List (Stimulus smallParam) :=
  [fetch 0x10, quietCycle, takeCommand, respond (fetchCommand 0x10) 7 false false,
    respond (fetchCommand 0x10) 7 false false, respond (fetchCommand 0x10) 0 true true, fetch 0x10]

theorem errorAtEnd_isolated : ∃ n : Node smallParam (List Word) SetCache LineBuffer,
    (∃ r ∈ (n.log .ins).closed, r.flits.any fails = true ∧
      r.answers = [(some ⟨0x10, .read, 0xF⟩, .bad)]) ∧
      Isolated smallConfig id n .ins := by
  have hrun : (exec (guarded (fun n i => Shows (ErrorsLast smallConfig) n i ∧ StillAsks n i)
      (Node.legalNext smallConfig (smallParts 2) (AnyErrors smallConfig))) errorAtEnd
      smallNode).any (fun n => (n.log .ins).closed.any fun r => r.flits.any fails = true ∧
        r.answers = [(some ⟨0x10, .read, 0xF⟩, .bad)]) = true := by
    decide +kernel
  obtain ⟨n, hn, hany⟩ := System.exists_exec
    (S := (system smallConfig (smallParts 2) (AnyErrors smallConfig)).under fun n i =>
      Shows (ErrorsLast smallConfig) n i ∧ StillAsks n i)
    (guarded_step Node.legalNext_step) smallNode_start hrun
  obtain ⟨r, hr, htest⟩ := List.any_eq_true.mp hany
  exact ⟨n, ⟨r, hr, of_decide_eq_true htest⟩, (errors_isolated smallConfig (smallParts 2) id
    (setView 2 2) listFifo_laws (fun _ => Nat.one_pos) hn .ins (smallCache_laws 2)).1⟩

/-- Two errors in one response: the second one comes when its read is over. -/
def lateError : List (Stimulus smallParam) :=
  [fetch 0x10, quietCycle, takeCommand, respond (fetchCommand 0x10) 0 true false,
    respond (fetchCommand 0x10) 0 true false, fetch 0x10,
    respond (fetchCommand 0x10) 0 true true, fetch 0x2000, quietCycle]

/-- An error at the end of its packet, and a processor that has gone on to another line. -/
def movedFetch : List (Stimulus smallParam) :=
  [fetch 0x10, quietCycle, takeCommand, respond (fetchCommand 0x10) 0 true true,
    respond (fetchCommand 0x10) 0 true true, fetch 0x18]

/-- The error that is left is reported to the next request, before any command of that
request has been accepted.  An error also goes to a request that was made in the meantime. -/
theorem lateError_reported :
    (∃ n : Node smallParam (List Word) SetCache LineBuffer,
      (system smallConfig (smallParts 2) (AnyErrors smallConfig)).Reachable n ∧
      (∃ r ∈ (n.log .ins).closed, r.accepted = [] ∧ r.effects = [.error]) ∧
      ¬ Isolated smallConfig id n .ins) ∧
    ∃ n : Node smallParam (List Word) SetCache LineBuffer,
      (system smallConfig (smallParts 2) (AnyErrors smallConfig)).Reachable n ∧
      (∃ r ∈ (n.log .ins).closed, r.flits.any fails = true ∧
        r.request = some (.miss, ⟨0x10, .read, 0xF⟩) ∧
        r.answers = [(some ⟨0x18, .read, 0xF⟩, .bad)]) ∧
      ¬ Isolated smallConfig id n .ins := by
  constructor
  · have hrun : (exec (Node.legalNext smallConfig (smallParts 2) (AnyErrors smallConfig)) lateError
        smallNode).any (fun n => (n.log .ins).closed.any fun r =>
          r.accepted = [] ∧ r.effects = [.error]) = true := by
      decide +kernel
    obtain ⟨n, hn, hany⟩ := Node.exists_run smallNode_start hrun
    obtain ⟨r, hr, htest⟩ := List.any_eq_true.mp hany
    obtain ⟨haccepted, heffects⟩ := of_decide_eq_true htest
    refine ⟨n, hn, ⟨r, hr, haccepted, heffects⟩, fun hisolated => ?_⟩
    obtain ⟨k, a, way, set, hcomplete⟩ := hisolated.complete r hr
    cases haccepted.symm.trans hcomplete.accepted
  · have hrun : (exec (Node.legalNext smallConfig (smallParts 2) (AnyErrors smallConfig)) movedFetch
        smallNode).any (fun n => (n.log .ins).closed.any fun r => r.flits.any fails = true ∧
          r.request = some (.miss, ⟨0x10, .read, 0xF⟩) ∧
          r.answers = [(some ⟨0x18, .read, 0xF⟩, .bad)]) = true := by
      decide +kernel
    obtain ⟨n, hn, hany⟩ := Node.exists_run smallNode_start hrun
    obtain ⟨r, hr, htest⟩ := List.any_eq_true.mp hany
    obtain ⟨hfails, hrequest, hanswers⟩ := of_decide_eq_true htest
    refine ⟨n, hn, ⟨r, hr, hfails, hrequest, hanswers⟩, fun hisolated => ?_⟩
    exact absurd (hanswers.symm.trans (hisolated.told r hr hfails _ hrequest)) (by decide)

end SmcTp.Xcache
