import SmcTp.Clocked.PendingWrites
import SmcTp.Xcache.Interconnect
import SmcTp.Xcache.ReadEdge

/-!
# The wrapper and its memory

A `MemNode` is a node with the memory behind its interconnect.  Only the wrapper changes
the memory: the stores that its write buffer accepts are pending until they arrive, and a
store conditional is performed between its command and its response.

*The write buffer.*  Stores to one line arrive in the order in which they are accepted.
When the buffer tells the command automaton that a line misses, no store to that line is
pending.

*Reads.*  A word of a line that is sent to the data cache is a value the word had at some
time between the command and the flit.  What the instruction cache gets is left open.
-/

namespace SmcTp.Xcache

open Vci Clocked

variable {p : VciParams} {F C W : Type}

/-! ## Stores -/

/-- A store, as the write of a word. -/
def store (addr : Addr) (be : BitVec 4) (data : Word) : Write Nat Word where
  loc := wordNo addr
  update old := merge be old data

/-- The writes of a sequence of requests. -/
def storesOf (qs : List DataRequest) : List (Write Nat Word) :=
  (qs.filter fun q => q.type = .write).map fun q => store q.addr q.be q.wdata

/-- The stores among the requests that have been answered. -/
def answeredStores (answered : List (DataRequest × Response)) : List (Write Nat Word) :=
  storesOf (answered.map Prod.fst)

/-! ## The memory -/

/-- A wrapper, its interconnect and its memory. -/
structure MemNode (p : VciParams) (F C W : Type) where
  node : Node p F C W
  /-- The memory, by words, and the stores on their way to it. -/
  buf : Buffer Nat Word
  /-- The values a word had since the last command of a line. -/
  seen : Nat → List Word
  /-- The outcome of the store conditional that was performed last. -/
  sc : Option Bool
  /-- The requests of the processor that have been answered. -/
  answered : List (DataRequest × Response)
  /-- The request of the processor that has not been answered. -/
  asking : Option DataRequest

/-- The inputs of a cycle. -/
structure MemStimulus (p : VciParams) where
  base : Stimulus p
  /-- The pending stores that arrive. -/
  commits : List Nat
  /-- A store conditional is performed, with this outcome. -/
  sc : Option Bool
deriving DecidableEq, Repr

/-- A command of the data cache for a line. -/
def isDataLine (t : CmdFlit p) : Bool := RspFsm.ofTrdid t.trdid = .read .data .miss

/-- A store conditional. -/
def isConditional (t : CmdFlit p) : Bool :=
  RspFsm.ofTrdid t.trdid = .read .data .unc && t.cmd = Cmd.storeCond

/-- The number of the word a command addresses. -/
def targetOf (t : CmdFlit p) : Nat := wordNo (t.address.setWidth 32)

/-- The commands that have been accepted and not been answered in full. -/
def Net.outstanding (net : Net p) : List (CmdFlit p) :=
  (net.current.map Prod.fst).toList ++ net.waiting

/-- The command whose response ends in a cycle. -/
def Net.answered (net : Net p) (i : Stimulus p) (sig : VciSignals p) : List (CmdFlit p) :=
  if i.rspval && sig.rspack && i.flit.reop then [(net.shown i).1] else []

/-- The command that is accepted in a cycle. -/
def sentCommand (sig : VciSignals p) : List (CmdFlit p) :=
  if sig.cmdTransfer && sig.eop then [sig.cmdFlit] else []

/-- No command is lost or doubled: a cycle takes out what it answers and puts in what it
accepts. -/
theorem outstanding_perm {net : Net p} {i : Stimulus p} {contract : Contract p}
    (hlegal : net.Legal contract i) (sig : VciSignals p) :
    (net.answered i sig ++ (net.next i sig).outstanding).Perm
      (net.outstanding ++ sentCommand sig) := by
  have hnew : ∀ left : List (CmdFlit p),
      (if sig.cmdTransfer = true ∧ sig.eop = true then left ++ [sig.cmdFlit] else left) =
        left ++ sentCommand sig := by
    intro left
    simp only [sentCommand, Bool.and_eq_true]
    split
    · rfl
    · exact (List.append_nil left).symm
  cases hval : i.rspval with
  | false => simp [Net.answered, Net.next, Net.outstanding, hval, hnew]
  | true =>
      cases hnet : net.current with
      | none =>
          -- the interconnect picks the command it answers
          have hmem : i.txn ∈ net.waiting := (hlegal hval).1 hnet
          have hpick := (List.perm_cons_erase hmem).symm.append_right (sentCommand sig)
          cases hack : sig.rspack <;> cases hreop : i.flit.reop <;>
            simpa [Net.answered, Net.next, Net.outstanding, Net.shown, hval, hnet, hack, hreop,
              hnew] using hpick
      | some x =>
          cases hack : sig.rspack <;> cases hreop : i.flit.reop <;>
            simp [Net.answered, Net.next, Net.outstanding, Net.shown, hval, hnet, hack, hreop, hnew]

/-- The store conditional a memory can perform. -/
def Net.conditional (net : Net p) : Option (CmdFlit p) := net.outstanding.find? isConditional

/-- The answers to a store conditional. -/
def scAnswer (ok : Bool) : Word := if ok then 0 else 1

namespace MemNode

/-- The store the write buffer accepts in a cycle. -/
def accepted (parts : Parts F C W) (m : MemNode p F C W) : List (Write Nat Word) :=
  let xc := m.node.xc
  if (xc.stored parts).1 then [store xc.data.addrSave xc.dataSave.be xc.dataSave.wdata] else []

/-- The memory after a store conditional. -/
def perform (sc : Option Bool) (net : Net p) (buf : Buffer Nat Word) : Buffer Nat Word :=
  match sc, net.conditional with
  | some true, some t =>
      { buf with
        mem := fun x => (store (t.address.setWidth 32) 0xF (t.wdata.setWidth 32)).on x (buf.mem x) }
  | _, _ => buf

/-- What the memory and the write buffer may do in a cycle. -/
structure Legal (cfg : XcacheConfig p) (parts : Parts F C W) (i : MemStimulus p)
    (m : MemNode p F C W) : Prop where
  net : m.node.net.Legal (ErrorFree cfg) i.base
  /-- The requests are reads, writes, LL and SC to cacheable addresses. -/
  request : i.base.dreq.valid = true →
    i.base.dreq.type.plain = true ∧ cfg.cacheable i.base.dreq.addr = true
  /-- The stores to a line arrive in order. -/
  order : m.buf.InOrder (· / cfg.dcacheWords) i.commits
  /-- A line that misses in the write buffer has no pending store. -/
  miss : parts.wbuf.miss m.node.xc.data.addrSave
      (parts.wbuf.update (m.node.xc.stored parts).2) = true →
    ∀ w ∈ m.buf.pending ++ m.accepted parts,
      w.loc / cfg.dcacheWords ≠ wordNo m.node.xc.data.addrSave / cfg.dcacheWords
  /-- A line is read from the memory. -/
  line : i.base.rspval = true → isDataLine (m.node.net.shown i.base).1 = true →
    wordOf i.base.flit ∈
      m.seen (targetOf (m.node.net.shown i.base).1 + (m.node.net.shown i.base).2.length)
  /-- A store conditional is performed once. -/
  once : i.sc.isSome = true → m.node.net.conditional.isSome = true ∧ m.sc = none
  /-- A store conditional is answered by its outcome. -/
  outcome : i.base.rspval = true → isConditional (m.node.net.shown i.base).1 = true →
    (m.sc.map scAnswer) = some (wordOf i.base.flit)

/-- One cycle. -/
def next (cfg : XcacheConfig p) (parts : Parts F C W) (i : MemStimulus p) (m : MemNode p F C W) :
    Except Halt (MemNode p F C W × XcacheOut F C W) :=
  match m.node.next cfg parts i.base with
  | .error halt => .error halt
  | .ok (n', out) =>
      let sig := m.node.wires cfg parts i.base
      let sends := sig.cmdTransfer && sig.eop
      let arrived := perform i.sc m.node.net (m.buf.commits i.commits)
      .ok
        ({ node := n'
           buf := { arrived with pending := arrived.pending ++ m.accepted parts }
           seen := fun x =>
            if sends && isDataLine sig.cmdFlit then [arrived.mem x, m.buf.mem x]
            else arrived.mem x :: m.seen x
           sc := if sends && isConditional sig.cmdFlit then none else i.sc.or m.sc
           answered :=
            if out.drsp.valid then m.answered ++ [(i.base.dreq, out.drsp)] else m.answered
           asking := if i.base.dreq.valid && !out.drsp.valid then some i.base.dreq else none },
          out)

end MemNode

/-- All nodes with a memory, which starts with given values. -/
def memSystem (cfg : XcacheConfig p) (parts : Parts F C W) (mem : Nat → Word) :
    System (MemNode p F C W) (MemStimulus p) where
  init m := m.node.Start parts ∧ m.buf = ⟨mem, []⟩ ∧ m.answered = [] ∧ m.asking = none
  step m i m' := m.Legal cfg parts i ∧ ∃ out, m.next cfg parts i = .ok (m', out)

/-! ## Runs of given inputs -/

instance (cfg : XcacheConfig p) (parts : Parts F C W) (i : MemStimulus p) (m : MemNode p F C W) :
    Decidable (m.Legal cfg parts i) :=
  decidable_of_iff (m.node.net.Legal (ErrorFree cfg) i.base ∧
      (i.base.dreq.valid = true →
        i.base.dreq.type.plain = true ∧ cfg.cacheable i.base.dreq.addr = true) ∧
      m.buf.InOrder (· / cfg.dcacheWords) i.commits ∧
      (parts.wbuf.miss m.node.xc.data.addrSave
          (parts.wbuf.update (m.node.xc.stored parts).2) = true →
        ∀ w ∈ m.buf.pending ++ m.accepted parts,
          w.loc / cfg.dcacheWords ≠ wordNo m.node.xc.data.addrSave / cfg.dcacheWords) ∧
      (i.base.rspval = true → isDataLine (m.node.net.shown i.base).1 = true →
        wordOf i.base.flit ∈
          m.seen (targetOf (m.node.net.shown i.base).1 + (m.node.net.shown i.base).2.length)) ∧
      (i.sc.isSome = true → m.node.net.conditional.isSome = true ∧ m.sc = none) ∧
      (i.base.rspval = true → isConditional (m.node.net.shown i.base).1 = true →
        (m.sc.map scAnswer) = some (wordOf i.base.flit)))
    ⟨fun ⟨h1, h2, h3, h4, h5, h6, h7⟩ => ⟨h1, h2, h3, h4, h5, h6, h7⟩,
      fun ⟨h1, h2, h3, h4, h5, h6, h7⟩ => ⟨h1, h2, h3, h4, h5, h6, h7⟩⟩

namespace MemNode

/-- The state after a cycle, if the inputs are legal and nothing stops the simulation. -/
def legalNext (cfg : XcacheConfig p) (parts : Parts F C W) (m : MemNode p F C W)
    (i : MemStimulus p) : Option (MemNode p F C W) :=
  if m.Legal cfg parts i then (m.next cfg parts i).toOption.map Prod.fst else none

theorem legalNext_step {cfg : XcacheConfig p} {parts : Parts F C W} (mem : Nat → Word)
    (m : MemNode p F C W) (i : MemStimulus p) (m' : MemNode p F C W)
    (h : m.legalNext cfg parts i = some m') : (memSystem cfg parts mem).step m i m' := by
  unfold legalNext at h
  split_ifs at h with hlegal
  cases hnext : m.next cfg parts i with
  | error halt => simp [hnext, Except.toOption] at h
  | ok out =>
      obtain rfl : out.1 = m' := by simpa [hnext, Except.toOption] using h
      exact ⟨hlegal, out.2, hnext⟩

end MemNode

/-! ## A small memory -/

/-- The small wrapper with a memory in which every word is 7. -/
def smallMem : MemNode smallParam (List Word) SetCache LineBuffer where
  node := smallNode
  buf := ⟨fun _ => 7, []⟩
  seen _ := []
  sc := none
  answered := []
  asking := none

theorem smallMem_init :
    (memSystem smallConfig (smallParts 2) fun _ => 7).init smallMem :=
  ⟨smallNode_start, rfl, rfl, rfl⟩

/-- Cycles of the bus in which the processor asks for data. -/
def asking (q : DataRequest) (bus : List (Stimulus smallParam)) : List (MemStimulus smallParam) :=
  bus.map fun i => ⟨{ i with dreq := q }, [], none⟩

/-- A read of a word. -/
def loadWord (addr : Addr) : DataRequest := ⟨true, addr, .read, 0, 0xF⟩

/-- The command of a line for the data cache. -/
def lineCommand (addr : Addr) : CmdFlit smallParam :=
  ⟨addr, 0, 0xF, 8, 0, 1, 0, Cmd.read, true, true⟩

/-- The processor reads a word of a line, which misses. -/
def readLine (q : DataRequest) (txn : CmdFlit smallParam) (first second : Word) :
    List (MemStimulus smallParam) :=
  asking q [quietCycle, quietCycle, takeCommand, respond txn first false false,
    respond txn first false false, respond txn second false true, quietCycle, quietCycle]

end SmcTp.Xcache
