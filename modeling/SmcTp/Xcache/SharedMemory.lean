import SmcTp.Xcache.FlatMemory
import SmcTp.Xcache.StorePipeline

/-!
# The wrapper in a shared memory

In a `SharedNode` the memory is not the wrapper's own: other processors and the DMA write it,
and so it may change in every cycle.  The data cache takes no notice.  A line is read as it is at
some time between its command and its flit, and is kept until the processor asks for
`XTN_DCACHE_INVAL`, or the slot is wanted for another line.

`SharedEdge` lists what the data automaton can do, for every type of request.

*Slots.*  What the cache and the registers of the automaton have in common does not depend on
the memory.  No line is in two slots, and so nothing is left of a line after its invalidation.
-/

namespace SmcTp.Xcache

open Vci Clocked

variable {p : VciParams} {F C W : Type}

/-! ## The memory -/

/-- A wrapper, its interconnect and a memory that others write as well. -/
structure SharedNode (p : VciParams) (F C W : Type) where
  node : Node p F C W
  /-- The memory, by words. -/
  mem : Nat → Word
  /-- The values a word had since the last command of a line. -/
  seen : Nat → List Word
  log : StoreLog p

/-- The inputs of a cycle. -/
structure SharedStimulus (p : VciParams) where
  base : Stimulus p
  /-- The memory after the cycle. -/
  mem : Nat → Word

/-- `XTN_DCACHE_INVAL`. -/
def isInval (cfg : XcacheConfig p) (q : DataRequest) : Bool :=
  !q.type.plain && q.addr / 4 = cfg.xtnDcacheInval

/-- A read of the data cache. -/
def isCachedRead (cfg : XcacheConfig p) (q : DataRequest) : Bool :=
  q.type = .read && cfg.cacheable q.addr

namespace SharedNode

/-- What the memory may do in a cycle. -/
structure Legal (cfg : XcacheConfig p) (i : SharedStimulus p) (m : SharedNode p F C W) : Prop where
  net : m.node.net.Legal (ErrorFree cfg) i.base
  /-- A line is read from the memory. -/
  line : i.base.rspval = true → isDataLine (m.node.net.shown i.base).1 = true →
    wordOf i.base.flit ∈
      m.seen (targetOf (m.node.net.shown i.base).1 + (m.node.net.shown i.base).2.length)

/-- One cycle. -/
def next (cfg : XcacheConfig p) (parts : Parts F C W) (i : SharedStimulus p)
    (m : SharedNode p F C W) : Except Halt (SharedNode p F C W × XcacheOut F C W) :=
  match m.node.next cfg parts i.base with
  | .error halt => .error halt
  | .ok (n', out) =>
      let sig := m.node.wires cfg parts i.base
      let sends := sig.cmdTransfer && sig.eop
      .ok
        ({ node := n'
           mem := i.mem
           seen := fun x =>
            if sends && isDataLine sig.cmdFlit then [i.mem x, m.mem x] else i.mem x :: m.seen x
           log := StoreLog.note cfg parts m.node i.base n' m.log },
          out)

/-- The request that is answered in a cycle, with its answer. -/
def answers (cfg : XcacheConfig p) (parts : Parts F C W) (i : SharedStimulus p)
    (m : SharedNode p F C W) : Option (DataRequest × Response) :=
  match m.node.next cfg parts i.base with
  | .ok (_, out) =>
      if out.drsp.valid then some (m.log.served parts i.base m.node, out.drsp) else none
  | .error _ => none

/-- The processor stores to a word of the data cache. -/
def storesTo (cfg : XcacheConfig p) (parts : Parts F C W) (x : Nat) (i : SharedStimulus p)
    (m : SharedNode p F C W) : Bool :=
  (m.answers cfg parts i).any fun a =>
    a.1.type = .write && cfg.cacheable a.1.addr && wordNo a.1.addr = x

end SharedNode

/-- All nodes with a shared memory. -/
def sharedSystem (cfg : XcacheConfig p) (parts : Parts F C W) :
    System (SharedNode p F C W) (SharedStimulus p) where
  init m := m.node.Start parts ∧ m.log = .blank
  step m i m' := m.Legal cfg i ∧ ∃ out, m.next cfg parts i = .ok (m', out)

/-! ## Runs of given inputs -/

instance (cfg : XcacheConfig p) (i : SharedStimulus p) (m : SharedNode p F C W) :
    Decidable (m.Legal cfg i) :=
  decidable_of_iff (m.node.net.Legal (ErrorFree cfg) i.base ∧
      (i.base.rspval = true → isDataLine (m.node.net.shown i.base).1 = true →
        (m.seen (targetOf (m.node.net.shown i.base).1 +
          (m.node.net.shown i.base).2.length)).contains (wordOf i.base.flit) = true))
    ⟨fun ⟨hnet, hline⟩ => ⟨hnet, fun hval hdata => List.contains_iff_mem.mp (hline hval hdata)⟩,
      fun ⟨hnet, hline⟩ => ⟨hnet, fun hval hdata => List.contains_iff_mem.mpr (hline hval hdata)⟩⟩

/-- The state after a cycle, if the inputs are legal and nothing stops the simulation. -/
def SharedNode.legalNext (cfg : XcacheConfig p) (parts : Parts F C W) (m : SharedNode p F C W)
    (i : SharedStimulus p) : Option (SharedNode p F C W) :=
  if m.Legal cfg i then (m.next cfg parts i).toOption.map Prod.fst else none

theorem SharedNode.legalNext_step {cfg : XcacheConfig p} {parts : Parts F C W}
    (m : SharedNode p F C W) (i : SharedStimulus p) (m' : SharedNode p F C W)
    (h : m.legalNext cfg parts i = some m') : (sharedSystem cfg parts).step m i m' := by
  unfold legalNext at h
  split_ifs at h with hlegal
  cases hnext : m.next cfg parts i with
  | error halt => simp [hnext, Except.toOption] at h
  | ok out =>
      obtain rfl : out.1 = m' := by simpa [hnext, Except.toOption] using h
      exact ⟨hlegal, out.2, hnext⟩

/-! ## One edge -/

section Next

variable {cfg : XcacheConfig p} {parts : Parts F C W} {i : SharedStimulus p}
  {m m' : SharedNode p F C W} {out : XcacheOut F C W}

theorem sharedNext_ok (h : m.next cfg parts i = .ok (m', out)) :
    m.node.next cfg parts i.base = .ok (m'.node, out) ∧ m'.mem = i.mem ∧
    (∀ x, m'.seen x = if (m.node.wires cfg parts i.base).cmdTransfer &&
          (m.node.wires cfg parts i.base).eop &&
          isDataLine (m.node.wires cfg parts i.base).cmdFlit
        then [i.mem x, m.mem x] else i.mem x :: m.seen x) ∧
    m'.log = StoreLog.note cfg parts m.node i.base m'.node m.log := by
  simp only [SharedNode.next] at h
  split at h
  · cases h
  · rename_i n' out' hnext
    cases h
    exact ⟨hnext, rfl, fun _ => rfl, rfl⟩

theorem answers_next (h : m.next cfg parts i = .ok (m', out)) :
    m.answers cfg parts i =
      if out.drsp.valid then some (m.log.served parts i.base m.node, out.drsp) else none := by
  simp only [SharedNode.answers, (sharedNext_ok h).1]

/-- What is answered is an answer of an edge. -/
theorem next_of_answers {q : DataRequest} {r : Response}
    (h : m.answers cfg parts i = some (q, r)) :
    ∃ (m' : SharedNode p F C W) (out : XcacheOut F C W), m.next cfg parts i = .ok (m', out) ∧
      out.drsp.valid = true ∧ q = m.log.served parts i.base m.node ∧ r = out.drsp := by
  cases hnode : m.node.next cfg parts i.base with
  | error halt => simp [SharedNode.answers, hnode] at h
  | ok x =>
      have hnext : ∃ m', m.next cfg parts i = .ok (m', x.2) := by
        simp only [SharedNode.next, hnode]
        exact ⟨_, rfl⟩
      obtain ⟨m', hnext⟩ := hnext
      rw [answers_next hnext] at h
      split_ifs at h with hvalid
      cases h
      exact ⟨m', x.2, hnext, hvalid, rfl, rfl⟩

end Next

/-! ## The data cache -/

/-- What the data automaton can do with any request. -/
inductive SharedEdge (cfg : XcacheConfig p) (parts : Parts F C W) (q : DataRequest)
    (s : XcacheWrapper F C W) (d : DcacheOut F C W) : Prop where
  | cached (h : DataEdge cfg parts q s d)
      (hcacheable : s.Takes parts → q.valid = true → cfg.cacheable q.addr = true)
  | unc (htakes : s.Takes parts) (hvalid : q.valid = true) (hunc : cfg.cacheable q.addr = false)
      (hnext : d.fsm = .read .uncWait) (hcache : d.cache = (parts.cache.read q.addr s.dcache).2)
      (hdrsp : d.drsp = .none)
  | xtn (htakes : s.Takes parts) (hvalid : q.valid = true)
      (hnext : d.fsm = .xtnHit ∨ d.fsm = .xtnSync)
      (hcache : d.cache = (parts.cache.read q.addr s.dcache).2) (hwdata : d.save.wdata = q.wdata)
      (hdrsp : d.drsp = .none)
  | found (hfsm : s.dcacheFsm = .xtnHit)
      (hhit : (parts.cache.read s.dataSave.wdata s.dcache).1.hit = true) (hnext : d.fsm = .xtnInval)
      (hcache : d.cache = (parts.cache.read s.dataSave.wdata s.dcache).2)
      (hway : d.side.waySave = (parts.cache.read s.dataSave.wdata s.dcache).1.way)
      (hset : d.side.setSave = (parts.cache.read s.dataSave.wdata s.dcache).1.set)
      (hsave : d.save = s.dataSave) (hdrsp : d.drsp = .none)
  | absent (hfsm : s.dcacheFsm = .xtnHit)
      (hhit : (parts.cache.read s.dataSave.wdata s.dcache).1.hit = false) (hnext : d.fsm = .idle)
      (hcache : d.cache = (parts.cache.read s.dataSave.wdata s.dcache).2)
  | inval (hfsm : s.dcacheFsm = .xtnInval) (hnext : d.fsm = .idle)
      (hcache : d.cache = parts.cache.inval s.data.waySave s.data.setSave s.dcache)
  | sync (hfsm : s.dcacheFsm = .xtnSync) (hnext : d.fsm = .idle ∨ d.fsm = .xtnSync)
      (hcache : d.cache = s.dcache)

section Edge

variable {cfg : XcacheConfig p} {parts : Parts F C W} {q : DataRequest} {s : XcacheWrapper F C W}
  {d : DcacheOut F C W}

theorem dcacheRequest_shared {wbuf : W} (htakes : s.Takes parts)
    (h : dcacheRequest cfg parts q s.data s.dataSave s.dcache wbuf = .ok d) :
    SharedEdge cfg parts q s d := by
  by_cases hrequest : q.valid = true → q.type.plain = true ∧ cfg.cacheable q.addr = true
  · exact .cached (dcacheRequest_edge htakes hrequest h) fun _ hvalid => (hrequest hvalid).2
  · obtain ⟨hvalid, hother⟩ := Classical.not_imp.mp hrequest
    simp only [dcacheRequest, hvalid, if_true] at h
    have huncached : q.type.plain = true → cfg.cacheable q.addr = false := fun hplain =>
      Bool.eq_false_iff.mpr fun hcacheable => hother ⟨hplain, hcacheable⟩
    cases htype : q.type with
    | read | write | ll | sc =>
        have hunc : cfg.cacheable q.addr = false := huncached (by rw [htype]; rfl)
        simp only [htype, hunc, Bool.false_eq_true, if_false] at h
        cases h
        exact .unc htakes hvalid hunc rfl rfl rfl
    | xtnWrite | xtnRead =>
        simp only [htype] at h
        split_ifs at h
        · cases h
          exact .xtn htakes hvalid (.inl rfl) rfl rfl rfl
        · cases h
          exact .xtn htakes hvalid (.inr rfl) rfl rfl rfl

theorem dcacheTransition_shared
    (h : dcacheTransition cfg parts q s.dcacheFsm s.data s.dataSave s.dcache s.wbuf = .ok d) :
    SharedEdge cfg parts q s d := by
  cases hfsm : s.dcacheFsm with
  | idle =>
      rw [hfsm] at h
      exact dcacheRequest_shared (.inl hfsm) h
  | writeUpdt =>
      rw [hfsm] at h
      cases h
      exact .cached (.update hfsm rfl rfl rfl rfl rfl rfl) fun htakes => by
        simp [XcacheWrapper.Takes, hfsm] at htakes
  | writeReq =>
      have hstored : s.stored parts = _ := s.stored_of_writeReq hfsm
      rw [hfsm] at h
      simp only [dcacheTransition] at h
      split_ifs at h with haccepted
      · exact dcacheRequest_shared (.inr ⟨hfsm, by rw [hstored]; exact haccepted⟩) h
      · have hrefused : (s.stored parts).1 = false := by
          rw [hstored]
          exact Bool.eq_false_iff.mpr haccepted
        cases h
        exact .cached (.refused hfsm hrefused rfl rfl rfl rfl rfl rfl) fun htakes => by
          simp [XcacheWrapper.Takes, hfsm, hrefused] at htakes
  | read f =>
      rw [hfsm] at h
      cases h
      exact .cached (.read f hfsm rfl) fun htakes => by simp [XcacheWrapper.Takes, hfsm] at htakes
  | xtnHit =>
      rw [hfsm] at h
      simp only [dcacheTransition] at h
      split_ifs at h with hhit
      · cases h
        exact .found hfsm hhit rfl rfl rfl rfl rfl rfl
      · cases h
        exact .absent hfsm (Bool.eq_false_iff.mpr hhit) rfl rfl
  | xtnInval =>
      rw [hfsm] at h
      cases h
      exact .inval hfsm rfl rfl
  | xtnSync =>
      rw [hfsm] at h
      simp only [dcacheTransition] at h
      split_ifs at h
      · cases h
        exact .sync hfsm (.inl rfl) rfl
      · cases h
        exact .sync hfsm (.inr rfl) rfl

end Edge

end SmcTp.Xcache
