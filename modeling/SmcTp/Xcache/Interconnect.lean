import Mathlib.Data.List.TakeWhile
import SmcTp.Clocked.Run
import SmcTp.Xcache.Components
import SmcTp.Xcache.Wrapper

/-!
# The wrapper and its interconnect

A `Node` is a wrapper with the interconnect it is connected to.  The interconnect
keeps the commands it has accepted and has not answered, and the packet it is
sending.  It takes a command and shows a flit when it likes, and picks the next
command to answer as it likes.  A `Contract` says which flit may follow in a packet,
and `system` is the set of all nodes under a contract.

*Records.*  A node carries a log of each client.  A record collects what happens in
a read: the access that was asked for, the commands accepted under the identifiers of
this client, the flits taken from its responses, what the automaton did with them, and what
the processor was told.  A record is closed when the automaton goes back to the idle state, and
what happens outside of a read falls into the next record.
-/

namespace SmcTp.Xcache

open Vci Clocked

variable {p : VciParams} {F C W : Type}

/-! ## Requests and commands -/

/-- What a processor asks of one cache. -/
structure Access where
  addr : Addr
  type : DataType
  be : BitVec 4
deriving DecidableEq, Repr

/-- The fields of a command that identify a read. -/
structure Head (p : VciParams) where
  address : BitVec p.N
  be : BitVec p.B
  cmd : Cmd
  plen : BitVec p.K
  trdid : BitVec p.T
deriving DecidableEq, Repr

/-- The head of a command flit. -/
def head (f : CmdFlit p) : Head p where
  address := f.address
  be := f.be
  cmd := f.cmd
  plen := f.plen
  trdid := f.trdid

/-- The type of a request the bus knows. -/
def DataType.plain : DataType → Bool
  | .read | .write | .ll | .sc => true
  | .xtnWrite | .xtnRead => false

/-- The command an access needs: a miss reads the line, an uncached access reads or
writes one word. -/
def Access.head (cfg : XcacheConfig p) (c : Client) (a : Access) : ReadKind → Head p
  | .miss =>
      { address := (a.addr &&& cfg.yzmask c).setWidth p.N
        be := 0xF
        cmd := Cmd.read
        plen := BitVec.ofNat p.K (cfg.words c <<< 2)
        trdid := BitVec.ofNat p.T (transactionType c .miss) }
  | .unc =>
      { address := (a.addr &&& ~~~(0x3 : Addr)).setWidth p.N
        be := match a.type with
          | .read | .write => a.be.setWidth p.B
          | _ => 0xF
        cmd := XcacheWrapper.uncCmd a.type
        plen := 4
        trdid := BitVec.ofNat p.T (transactionType c .unc) }

/-- The requests of a cycle. -/
def asked (ireq : InsRequest) (dreq : DataRequest) : Client → Access
  | .ins => ⟨ireq.addr, .read, 0xF⟩
  | .data => ⟨dreq.addr, dreq.type, dreq.be⟩

/-- The request the processor makes of a client, if it makes one. -/
def asks (ireq : InsRequest) (dreq : DataRequest) (c : Client) : Option Access :=
  if (match c with | .ins => ireq.valid | .data => dreq.valid) then some (asked ireq dreq c)
  else none

/-- The request a client holds in its registers. -/
def XcacheWrapper.saved (s : XcacheWrapper F C W) : Client → Access
  | .ins => ⟨s.ins.addrSave, .read, 0xF⟩
  | .data => ⟨s.data.addrSave, s.dataSave.type, s.dataSave.be⟩

/-- The processor still asks for the address a client has saved. -/
def XcacheWrapper.again (s : XcacheWrapper F C W) (ireq : InsRequest) (dreq : DataRequest) :
    Client → Bool
  | .ins => ireq.valid && ireq.addr == s.ins.addrSave
  | .data => dreq.valid && dreq.addr == s.data.addrSave

/-! ## Records -/

/-- What happens in a read. -/
structure Record (p : VciParams) where
  request : Option (ReadKind × Access)
  accepted : List (Head p)
  flits : List (RspFlit p)
  effects : List Effect
  /-- The responses to the processor, with the requests it made then. -/
  answers : List (Option Access × Response)
deriving DecidableEq, Repr

/-- The records of a client. -/
structure Log (p : VciParams) where
  /-- The reads that are over. -/
  closed : List (Record p)
  /-- What happened since. -/
  current : Record p
deriving DecidableEq, Repr

/-- A record of nothing. -/
def Record.blank : Record p := ⟨none, [], [], [], []⟩

/-- What happens to a client in a cycle is noted. -/
def Record.note (raised : Option (ReadKind × Access)) (accepted : Option (Head p))
    (flit : Option (RspFlit p)) (effects : List Effect)
    (answers : List (Option Access × Response)) (r : Record p) : Record p where
  request := raised.or r.request
  accepted := r.accepted ++ accepted.toList
  flits := r.flits ++ flit.toList
  effects := r.effects ++ effects
  answers := r.answers ++ answers

/-- The current record is closed at the end of a read. -/
def Log.next (done : Bool) (r : Record p) (l : Log p) : Log p :=
  if done then ⟨l.closed ++ [r], .blank⟩ else ⟨l.closed, r⟩

/-! ## Complete records -/

/-- The error bit of a flit. -/
def fails (f : RspFlit p) : Bool := errorBit f.rerror

/-- The flits of a response without errors. -/
def XcacheConfig.length (cfg : XcacheConfig p) (c : Client) : ReadKind → Nat
  | .miss => cfg.words c
  | .unc => 1

/-- The word a flit carries. -/
def wordOf (f : RspFlit p) : Word := f.rdata.setWidth 32

/-- The writes of the first words of a line. -/
def writes (way set : Nat) (fs : List (RspFlit p)) : List Effect :=
  fs.mapIdx fun j f => .write way set j (wordOf f)

@[simp] theorem writes_nil (way set : Nat) : writes way set ([] : List (RspFlit p)) = [] := rfl

@[simp] theorem writes_concat (way set : Nat) (fs : List (RspFlit p)) (f : RspFlit p) :
    writes way set (fs ++ [f]) = writes way set fs ++ [.write way set fs.length (wordOf f)] := by
  simp [writes]

/-- What a cache automaton has to do with a response.  The words of a line are written in
order up to the first error, and the line becomes valid if there is none. -/
def answer (way set : Nat) (a : Access) (fs : List (RspFlit p)) : ReadKind → List Effect
  | .miss => writes way set (fs.takeWhile fun f => !fails f) ++
      [if fs.any fails then .error else .validate a.addr way set]
  | .unc => fs.map fun f => if fails f then .error else .value (wordOf f)

/-- What it has to do with a response without errors. -/
def served (way set : Nat) (a : Access) (fs : List (RspFlit p)) : ReadKind → List Effect
  | .miss => writes way set fs ++ [.validate a.addr way set]
  | .unc => fs.map fun f => .value (wordOf f)

theorem answer_miss_good (way set : Nat) (a : Access) {fs : List (RspFlit p)}
    (h : ∀ f ∈ fs, fails f = false) :
    answer way set a fs .miss = writes way set fs ++ [.validate a.addr way set] := by
  have hany : fs.any fails = false := List.any_eq_false.mpr fun f hf => by simp [h f hf]
  have htake : fs.takeWhile (fun f => !fails f) = fs :=
    List.takeWhile_eq_self_iff.mpr fun f hf => by simp [h f hf]
  simp only [answer, hany, htake, Bool.false_eq_true, if_false]

theorem answer_good (way set : Nat) (a : Access) {fs : List (RspFlit p)} (k : ReadKind)
    (h : ∀ f ∈ fs, fails f = false) : answer way set a fs k = served way set a fs k := by
  cases k with
  | miss => exact answer_miss_good way set a h
  | unc => exact List.map_congr_left fun f hf => by simp [h f hf]

theorem answer_miss_fails (way set : Nat) (a : Access) {fs : List (RspFlit p)} {f : RspFlit p}
    (h : ∀ g ∈ fs, fails g = false) (hf : fails f = true) :
    answer way set a (fs ++ [f]) .miss = writes way set fs ++ [.error] := by
  have hany : (fs ++ [f]).any fails = true := List.any_eq_true.mpr ⟨f, by simp, hf⟩
  have htake : (fs ++ [f]).takeWhile (fun f => !fails f) = fs := by
    rw [List.takeWhile_append_of_pos fun g hg => by simp [h g hg]]
    simp [hf]
  simp only [answer, hany, htake, if_true]

/-- The last flit of a packet has `reop`, and no other. -/
def IsPacket (fs : List (RspFlit p)) : Prop :=
  ∃ (init : List (RspFlit p)) (last : RspFlit p), fs = init ++ [last] ∧ last.reop = true ∧
    ∀ f ∈ init, f.reop = false

/-- The record of a read that has been served: one command was accepted, the one that was
asked for, and the automaton has done what the response to it demands.  The processor was told
of an error once, and otherwise of nothing but the uncached word it asked for. -/
structure Record.Complete (cfg : XcacheConfig p) (c : Client) (k : ReadKind) (a : Access)
    (way set : Nat) (r : Record p) : Prop where
  request : r.request = some (k, a)
  accepted : r.accepted = [a.head cfg c k]
  packet : IsPacket r.flits
  trdid : ∀ f ∈ r.flits, f.rtrdid = (a.head cfg c k).trdid
  length : (k = .unc ∨ ∀ f ∈ r.flits, fails f = false) → r.flits.length = cfg.length c k
  effects : r.effects = answer way set a r.flits k
  failed : r.flits.any fails = true → ∃ q, r.answers = [(q, .bad)]
  told : r.flits.any fails = false → ∀ x ∈ r.answers, k = .unc ∧
    x.1.map Access.addr = some a.addr ∧ ∃ f, r.flits = [f] ∧ x.2 = .ok (wordOf f)

/-! ## The interconnect -/

/-- The interconnect. -/
structure Net (p : VciParams) where
  /-- The commands to be answered. -/
  waiting : List (CmdFlit p)
  /-- The command that is being answered, with the flits sent so far. -/
  current : Option (CmdFlit p × List (RspFlit p))
deriving DecidableEq, Repr

/-- The inputs of a cycle. -/
structure Stimulus (p : VciParams) where
  ireq : InsRequest
  dreq : DataRequest
  cmdack : Bool
  rspval : Bool
  flit : RspFlit p
  /-- The command that is answered, at the start of a packet. -/
  txn : CmdFlit p
deriving DecidableEq, Repr

/-- Which flit may follow in the response to a command. -/
abbrev Contract (p : VciParams) := CmdFlit p → List (RspFlit p) → RspFlit p → Prop

namespace Net

/-- The packet on the wires. -/
def shown (net : Net p) (i : Stimulus p) : CmdFlit p × List (RspFlit p) :=
  net.current.getD (i.txn, [])

/-- What the interconnect may show. -/
def Legal (contract : Contract p) (net : Net p) (i : Stimulus p) : Prop :=
  i.rspval = true →
    (net.current = none → i.txn ∈ net.waiting) ∧
    i.flit.rtrdid = (net.shown i).1.trdid ∧
    contract (net.shown i).1 (net.shown i).2 i.flit

/-- One cycle of the interconnect. -/
def next (i : Stimulus p) (sig : VciSignals p) (net : Net p) : Net p :=
  let left := if i.rspval && net.current.isNone then net.waiting.erase i.txn else net.waiting
  { waiting := if sig.cmdTransfer && sig.eop then left ++ [sig.cmdFlit] else left
    current :=
      if i.rspval then
        if sig.rspack then
          if i.flit.reop then none else some ((net.shown i).1, (net.shown i).2 ++ [i.flit])
        else some (net.shown i)
      else net.current }

end Net

/-! ## Nodes -/

/-- A wrapper with its interconnect. -/
structure Node (p : VciParams) (F C W : Type) where
  xc : XcacheWrapper F C W
  /-- The wires as they were driven last. -/
  sig : VciSignals p
  net : Net p
  log : Client → Log p

namespace Node

/-- The wires of a cycle. -/
def wires (cfg : XcacheConfig p) (parts : Parts F C W) (i : Stimulus p) (n : Node p F C W) :
    VciSignals p :=
  ({ n.xc.genMoore cfg parts n.sig with cmdack := i.cmdack }).driveRsp i.rspval i.flit

/-- The client an identifier belongs to. -/
def clientOf (trdid : BitVec p.T) : Option Client :=
  match RspFsm.ofTrdid trdid with
  | .read c _ => some c
  | _ => none

/-- The command of a client that is accepted in a cycle. -/
def accepted (sig : VciSignals p) (c : Client) : Option (Head p) :=
  if sig.cmdTransfer && sig.eop && clientOf sig.trdid = some c then some (head sig.cmdFlit)
  else none

/-- The flit of a client that is taken in a cycle. -/
def taken (sig : VciSignals p) (c : Client) : Option (RspFlit p) :=
  if sig.rspTransfer && clientOf sig.rtrdid = some c then some sig.rspFlit else none

/-- The valid response of a cycle in which a read is served. -/
def answers (serving : Bool) (q : Option Access) (rsp : Response) :
    List (Option Access × Response) :=
  if serving && rsp.valid then [(q, rsp)] else []

@[simp] theorem answers_none (serving : Bool) (q : Option Access) :
    answers serving q .none = [] := by
  simp [answers, Response.none]

/-- One cycle. -/
def next (cfg : XcacheConfig p) (parts : Parts F C W) (i : Stimulus p) (n : Node p F C W) :
    Except Halt (Node p F C W × XcacheOut F C W) :=
  let sig := n.wires cfg parts i
  match n.xc.transition cfg parts i.ireq i.dreq sig with
  | .error halt => .error halt
  | .ok out => .ok
      ({ xc := out.state
         sig := sig
         net := n.net.next i sig
         log := fun c =>
          let raised := (out.raised c).map fun k => (k, asked i.ireq i.dreq c)
          let told := answers (n.xc.readFsm c).isSome (asks i.ireq i.dreq c) (out.response c)
          let r := (n.log c).current.note raised (accepted sig c) (taken sig c) (out.effects c) told
          let done := (n.xc.readFsm c).isSome && (out.state.readFsm c).isNone
          (n.log c).next done r },
        out)

/-- A node after a reset. -/
def Start (parts : Parts F C W) (n : Node p F C W) : Prop :=
  (∃ s : XcacheWrapper F C W, n.xc = s.reset parts) ∧ n.net = ⟨[], none⟩ ∧
    ∀ c, n.log c = ⟨[], .blank⟩

end Node

/-- All nodes whose interconnect keeps to a contract. -/
def system (cfg : XcacheConfig p) (parts : Parts F C W) (contract : Contract p) :
    System (Node p F C W) (Stimulus p) where
  init := Node.Start parts
  step n i n' := n.net.Legal contract i ∧ ∃ out, n.next cfg parts i = .ok (n', out)

/-! ## Contracts -/

/-- The command of a line. -/
def isMiss (t : CmdFlit p) : Bool :=
  match RspFsm.ofTrdid t.trdid with
  | .read _ .miss => true
  | _ => false

/-- The number of flits in a response without errors. -/
def flitsOf (cfg : XcacheConfig p) (t : CmdFlit p) : Nat :=
  match RspFsm.ofTrdid t.trdid with
  | .read c .miss => cfg.words c
  | _ => 1

/-- A line for a miss and one flit for any other command, without errors. -/
def ErrorFree (cfg : XcacheConfig p) : Contract p := fun t fs f =>
  fails f = false ∧ (f.reop = true ↔ fs.length + 1 = flitsOf cfg t)

/-- The response to a miss has any number of flits if it has an error. -/
def AnyErrors (cfg : XcacheConfig p) : Contract p := fun t fs f =>
  (isMiss t = false → f.reop = true) ∧
    (isMiss t = true → f.reop = true →
      fs.length + 1 = flitsOf cfg t ∨ (fs ++ [f]).any fails = true)

/-- An error ends the response to a miss, and so does the last word of the line. -/
def ErrorsLast (cfg : XcacheConfig p) : Contract p := fun t fs f =>
  isMiss t = true → fails f = true ∨ fs.length + 1 = flitsOf cfg t → f.reop = true

instance (cfg : XcacheConfig p) (t : CmdFlit p) (fs : List (RspFlit p)) (f : RspFlit p) :
    Decidable (ErrorFree cfg t fs f) :=
  inferInstanceAs (Decidable (_ ∧ _))

instance (cfg : XcacheConfig p) (t : CmdFlit p) (fs : List (RspFlit p)) (f : RspFlit p) :
    Decidable (AnyErrors cfg t fs f) :=
  inferInstanceAs (Decidable ((_ → _) ∧ (_ → _ → _ ∨ _)))

instance (cfg : XcacheConfig p) (t : CmdFlit p) (fs : List (RspFlit p)) (f : RspFlit p) :
    Decidable (ErrorsLast cfg t fs f) :=
  inferInstanceAs (Decidable (_ → _ ∨ _ → _))

instance (contract : Contract p) [∀ t fs f, Decidable (contract t fs f)] (net : Net p)
    (i : Stimulus p) : Decidable (net.Legal contract i) :=
  inferInstanceAs (Decidable (_ → (_ → _) ∧ _ ∧ _))

/-! ## Runs of given inputs -/

/-- The node after a cycle, if the inputs are legal and nothing stops the simulation. -/
def Node.legalNext (cfg : XcacheConfig p) (parts : Parts F C W) (contract : Contract p)
    [∀ t fs f, Decidable (contract t fs f)] (n : Node p F C W) (i : Stimulus p) :
    Option (Node p F C W) :=
  if n.net.Legal contract i then (n.next cfg parts i).toOption.map Prod.fst else none

theorem Node.legalNext_step {cfg : XcacheConfig p} {parts : Parts F C W} {contract : Contract p}
    [∀ t fs f, Decidable (contract t fs f)] (n : Node p F C W) (i : Stimulus p)
    (n' : Node p F C W) (h : n.legalNext cfg parts contract i = some n') :
    (system cfg parts contract).step n i n' := by
  unfold legalNext at h
  split_ifs at h with hlegal
  cases hnext : n.next cfg parts i with
  | error halt => simp [hnext, Except.toOption] at h
  | ok out =>
      obtain rfl : out.1 = n' := by simpa [hnext, Except.toOption] using h
      exact ⟨hlegal, out.2, hnext⟩

/-- A run of given inputs reaches what a test finds at its end. -/
theorem Node.exists_run {cfg : XcacheConfig p} {parts : Parts F C W} {contract : Contract p}
    [∀ t fs f, Decidable (contract t fs f)] {is : List (Stimulus p)} {n : Node p F C W}
    {test : Node p F C W → Bool} (hn : n.Start parts)
    (h : (exec (Node.legalNext cfg parts contract) is n).any test = true) :
    ∃ n', (system cfg parts contract).Reachable n' ∧ test n' = true :=
  System.exists_exec Node.legalNext_step hn h

/-! ## A small wrapper -/

/-- Bus parameters with three bits of identifiers. -/
def smallParam : VciParams := ⟨4, 8, 32, 1, 1, 1, 1, 1, 3, 1⟩

/-- Lines of two words, and the first addresses are cacheable. -/
def smallConfig : XcacheConfig smallParam where
  cacheabilityTable a := a < 0x1000
  srcid := 0
  icacheWords := 2
  dcacheWords := 2
  wbufNlines := 1
  xtnDcacheInval := 4
  xtnSync := 5
  icacheLine := by decide
  dcacheLine := by decide
  plenBits := by decide
  trdidBits := by decide

/-- The wrapper before its reset. -/
def smallWrapper : XcacheWrapper (List Word) SetCache LineBuffer :=
  let side : Side (List Word) := ⟨0, 0, 0, 0, false, false, false, []⟩
  { icacheFsm := .idle
    dcacheFsm := .idle
    ins := side
    data := side
    dataSave := ⟨0, .read, 0, false⟩
    cmdFsm := .idle
    cmdMin := 0
    cmdMax := 0
    cmdCpt := 0
    rspFsm := .idle
    rspCpt := 0
    wbuf := ⟨.empty, 0, fun _ => 0, fun _ => 0, 0, 0, Nat.le_refl 0, 0⟩
    icache := ⟨fun _ _ => none, fun _ _ _ => 0, fun _ => 0⟩
    dcache := ⟨fun _ _ => none, fun _ _ _ => 0, fun _ => 0⟩ }

/-- A node with a small wrapper. -/
def smallNode : Node smallParam (List Word) SetCache LineBuffer where
  xc := smallWrapper.reset (smallParts 2)
  sig := .undriven
  net := ⟨[], none⟩
  log _ := ⟨[], .blank⟩

theorem smallNode_start : smallNode.Start (smallParts 2) :=
  ⟨⟨smallWrapper, rfl⟩, rfl, fun _ => rfl⟩

/-- A cycle in which nobody asks for anything. -/
def quietCycle : Stimulus smallParam where
  ireq := ⟨false, 0⟩
  dreq := ⟨false, 0, .read, 0, 0⟩
  cmdack := false
  rspval := false
  flit := ⟨0, 0, 0, 0, 0, false⟩
  txn := ⟨0, 0, 0, 0, 0, 0, 0, 0, false, false⟩

/-- The processor fetches an instruction. -/
def fetch (addr : Addr) : Stimulus smallParam := { quietCycle with ireq := ⟨true, addr⟩ }

/-- The interconnect takes a command. -/
def takeCommand : Stimulus smallParam := { quietCycle with cmdack := true }

/-- The interconnect shows a flit of a response. -/
def respond (txn : CmdFlit smallParam) (data : Word) (fails last : Bool) : Stimulus smallParam :=
  { quietCycle with
    rspval := true
    flit := ⟨data, if fails then 1 else 0, 0, txn.trdid, 0, last⟩
    txn := txn }

/-- The command of a line the small processor fetches. -/
def fetchCommand (addr : Addr) : CmdFlit smallParam :=
  ⟨addr, 0, 0xF, 8, 0, 3, 0, Cmd.read, true, true⟩

end SmcTp.Xcache
