import Mathlib.Data.List.Basic
import SmcTp.Xcache.Memory
import SmcTp.Xcache.Reads
import SmcTp.Xcache.TracedBuffer

/-!
# Write bursts

The write buffer offers bursts of words.  The command automaton sends the words of a burst
one by one, and the response automaton tells the write buffer which burst is completed.

*History.*  A `BusLog` is kept next to a node with a traced write buffer.  It collects what an
observer sees: the bursts with the flits that have been accepted for them, the commands that
have been accepted, the response flits that have been taken, and the completions.

*Errors.*  A read that fails may leave words in its FIFO, and the response automaton may then
wait in the state of this read when the response to a burst arrives (`write_taken_for_read`).
As long as an error ends its packet, every burst is sent and completed exactly once
(`bursts_exact`).
-/

namespace SmcTp.Xcache

open Vci Clocked

variable {p : VciParams} {F C W : Type}

/-! ## Bursts -/

/-- A burst, and the flits accepted for it, each with the write buffer of its cycle. -/
structure Burst (p : VciParams) (W : Type) where
  first : Nat
  last : Nat
  flits : List (CmdFlit p × W)

/-- The flit of a word. -/
structure Carries (ops : WbufOps W) (first last k : Nat) (f : CmdFlit p) (w : W) : Prop where
  address : f.address = (ops.getAddress (first + k) w).setWidth p.N
  wdata : f.wdata = (ops.getData (first + k) w).setWidth (p.B * 8)
  be : f.be = (ops.getBe (first + k) w).setWidth p.B
  cmd : f.cmd = Cmd.write
  trdid : f.trdid = BitVec.ofNat p.T (ops.getIndex w + (1 <<< (p.T - 1)))
  eop : f.eop = decide (first + k = last)

namespace Burst

/-- The flits carry the words of the burst in their order. -/
def Carried (ops : WbufOps W) (b : Burst p W) : Prop :=
  ∀ k f w, b.flits[k]? = some (f, w) → Carries ops b.first b.last k f w

/-- A burst that has been sent. -/
structure Whole (ops : WbufOps W) (b : Burst p W) : Prop where
  carried : b.Carried ops
  ordered : b.first ≤ b.last
  length : b.flits.length = b.last - b.first + 1

/-- The index of the burst in the write buffer, as its last flit is accepted. -/
def index (ops : WbufOps W) (b : Burst p W) : Option Nat :=
  b.flits.getLast?.map fun f => ops.getIndex f.2

theorem Carried.concat {ops : WbufOps W} {b : Burst p W} {f : CmdFlit p} {w : W}
    (h : b.Carried ops) (hf : Carries ops b.first b.last b.flits.length f w) :
    Carried ops { b with flits := b.flits ++ [(f, w)] } := by
  intro k g v hk
  rcases Nat.lt_trichotomy k b.flits.length with hlt | rfl | hlt
  · rw [List.getElem?_append_left hlt] at hk
    exact h k g v hk
  · rw [List.getElem?_concat_length] at hk
    cases hk
    exact hf
  · rw [List.getElem?_eq_none (by simpa using Nat.succ_le_of_lt hlt)] at hk
    cases hk

end Burst

/-! ## Histories -/

/-- The state that takes the response to what a state of the command automaton sends. -/
def CmdFsm.response : CmdFsm → RspFsm
  | .idle => .idle
  | .read c k => .read c k
  | .dataWrite => .dataWrite

/-- A command that has been accepted. -/
structure Command (p : VciParams) where
  flit : CmdFlit p
  /-- The state that has sent it. -/
  fsm : CmdFsm
  /-- `getIndex` in this cycle. -/
  index : Nat

/-- The index of a burst. -/
def Command.burst (c : Command p) : Option Nat := if c.fsm = .dataWrite then some c.index else none

/-- What an observer of the bus and of the write buffer collects. -/
structure BusLog (p : VciParams) (W : Type) where
  /-- The burst that is being sent. -/
  current : Option (Burst p W)
  /-- The bursts for which `sent` has been called in the cycle of a flit. -/
  sent : List (Burst p W)
  /-- How many flits and calls belong to no burst. -/
  stray : Nat
  commands : List (Command p)
  /-- The response flits that have been taken: what they answer, and the state that takes them. -/
  taken : List (Option (Command p) × RspFsm)
  completed : List Nat

namespace BusLog

/-- Nothing has happened. -/
def blank : BusLog p W := ⟨none, [], 0, [], [], []⟩

/-- A flit of a burst is accepted. -/
def flit (f : CmdFlit p × W) (h : BusLog p W) : BusLog p W :=
  match h.current with
  | some b => { h with current := some { b with flits := b.flits ++ [f] } }
  | none => { h with stray := h.stray + 1 }

/-- The write buffer is called, in a cycle that accepts a flit of a burst or not. -/
def call (accepts : Bool) (h : BusLog p W) : WbufCall → BusLog p W
  | .write .. => h
  | .rok first last =>
      match h.current with
      | some _ => { h with stray := h.stray + 1 }
      | none => { h with current := some ⟨first, last, []⟩ }
  | .sent =>
      match h.current, accepts with
      | some b, true => { h with current := none, sent := h.sent ++ [b] }
      | _, _ => { h with stray := h.stray + 1 }
  | .completed index => { h with completed := h.completed ++ [index] }

/-- A flit of a burst is accepted in this cycle. -/
def accepts (cfg : XcacheConfig p) (parts : Parts F C W) (n : Node p F C (Traced W))
    (i : Stimulus p) : Bool :=
  (n.wires cfg parts.traced i).cmdTransfer && n.xc.cmdFsm = .dataWrite

/-- The command that is accepted in this cycle. -/
def newCommands (cfg : XcacheConfig p) (parts : Parts F C W) (n : Node p F C (Traced W))
    (i : Stimulus p) : List (Command p) :=
  (sentCommand (n.wires cfg parts.traced i)).map fun f =>
    ⟨f, n.xc.cmdFsm, parts.wbuf.getIndex n.xc.wbuf.wbuf⟩

/-- A cycle is noted: first the flit, then the calls in their order. -/
def note (cfg : XcacheConfig p) (parts : Parts F C W) (n : Node p F C (Traced W))
    (i : Stimulus p) (n' : Node p F C (Traced W)) (h : BusLog p W) : BusLog p W :=
  let sig := n.wires cfg parts.traced i
  let sends := accepts cfg parts n i
  let h := if sends then h.flit (sig.cmdFlit, n.xc.wbuf.wbuf) else h
  let h := (n'.xc.wbuf.calls.drop n.xc.wbuf.calls.length).foldl (call sends) h
  { h with
    commands := h.commands ++ newCommands cfg parts n i
    taken := h.taken ++
      if sig.rspTransfer then
        [(h.commands.find? fun c => c.flit = (n.net.shown i).1, n.xc.rspFsm)]
      else [] }

end BusLog

/-- The nodes with their histories. -/
def busSystem (cfg : XcacheConfig p) (parts : Parts F C W)
    (S : System (Node p F C (Traced W)) (Stimulus p)) :
    System (Node p F C (Traced W) × BusLog p W) (Stimulus p) :=
  S.withHistory .blank (BusLog.note cfg parts)

/-- The index a response is decoded to. -/
def writeIndex (t : CmdFlit p) : Option Nat :=
  if RspFsm.ofTrdid t.trdid = .dataWrite then some (t.trdid.toNat - (1 <<< (p.T - 1))) else none

/-- What is demanded of the bursts: each is sent and completed exactly once. -/
structure BurstsExact (cfg : XcacheConfig p) (parts : Parts F C W) (n : Node p F C (Traced W))
    (h : BusLog p W) : Prop where
  /-- A burst has one flit for each of its words. -/
  sent : ∀ b ∈ h.sent, b.Whole parts.wbuf
  /-- A burst on its way has not got all of them, and the next one is on the wires. -/
  current : ∀ b ∈ h.current, b.Carried parts.wbuf ∧ b.flits.length ≤ b.last - b.first ∧
    ∀ i, (n.wires cfg parts.traced i).cmdval = true
  /-- There is no other flit, and no other call of `rok` or `sent`. -/
  stray : h.stray = 0
  /-- The commands of the bursts have their indices. -/
  indices : h.sent.map (Burst.index parts.wbuf) = (h.commands.filterMap Command.burst).map some
  /-- A response is taken in the state of its command. -/
  taken : ∀ x ∈ h.taken, ∃ c ∈ h.commands, x = (some c, c.fsm.response)
  /-- A response that has begun finds this state. -/
  begun : ∀ t fs, n.net.current = some (t, fs) → ∃ c ∈ h.commands, c.flit = t ∧
    n.xc.rspFsm = c.fsm.response ∧ n.xc.rspFsm ≠ .idle
  /-- The response to a burst completes it, and nothing else is completed. -/
  completed : h.completed = h.taken.filterMap fun x => x.1.bind Command.burst
  /-- A burst has been completed or its command has not been answered. -/
  balance : (h.completed ++ n.net.outstanding.filterMap writeIndex).Perm
    (h.commands.filterMap Command.burst)

/-- The ranges of the bursts are not empty. -/
def RokOrdered (ops : WbufOps W) : Prop :=
  ∀ w first last w', ops.rok w = (some (first, last), w') → first ≤ last

/-! ## What is noted of an edge -/

namespace BusLog

/-- The part of a cycle that is about the burst on its way. -/
def burstPart (sends : Bool) (f : CmdFlit p × W) (calls : List WbufCall) (h : BusLog p W) :
    BusLog p W :=
  calls.foldl (call sends) (if sends then h.flit f else h)

theorem foldl_storeCall (sends : Bool) (parts : Parts F C W) (s : XcacheWrapper F C (Traced W))
    (h : BusLog p W) : (storeCall parts s).foldl (call sends) h = h := by
  unfold storeCall
  split <;> rfl

theorem foldl_completed (sends : Bool) (ks : List Nat) (h : BusLog p W) :
    (ks.map .completed).foldl (call sends) h = { h with completed := h.completed ++ ks } := by
  induction ks generalizing h with
  | nil => simp
  | cons k ks ih =>
      rw [List.map_cons, List.foldl_cons, ih]
      simp [call]

end BusLog

section Edge

variable {cfg : XcacheConfig p} {parts : Parts F C W} {i : Stimulus p}
  {n n' : Node p F C (Traced W)} {h : BusLog p W}

/-- The history after an edge. -/
theorem note_edge {out : XcacheOut F C (Traced W)}
    (hnext : n.next cfg parts.traced i = .ok (n', out)) :
    ∃ cmd rsp calls, BusEdge cfg parts.traced i n n' cmd rsp ∧
      BurstStep parts.wbuf i.cmdack n.xc cmd calls ∧
      BusLog.note cfg parts n i n' h =
        let g := h.burstPart (BusLog.accepts cfg parts n i)
          ((n.wires cfg parts.traced i).cmdFlit, n.xc.wbuf.wbuf) calls
        { g with
          completed := g.completed ++ completes n.xc i
          commands := g.commands ++ BusLog.newCommands cfg parts n i
          taken := g.taken ++
            if (n.wires cfg parts.traced i).rspTransfer then
              [(g.commands.find? fun c => c.flit = (n.net.shown i).1, n.xc.rspFsm)]
            else [] } := by
  obtain ⟨cmd, rsp, calls, hbus, hstep, hcalls⟩ := next_calls hnext
  refine ⟨cmd, rsp, calls, hbus, hstep, ?_⟩
  simp only [BusLog.note, hcalls, List.drop_left, List.foldl_append, BusLog.foldl_storeCall,
    BusLog.foldl_completed]
  rfl

end Edge

/-! ## The burst on its way -/

/-- The registers of a burst agree with what has been accepted of it. -/
inductive Sending (ops : WbufOps W) (s : XcacheWrapper F C (Traced W))
    (current : Option (Burst p W)) : Prop where
  | rest (hfsm : s.cmdFsm ≠ .dataWrite) (hcurrent : current = none)
  | burst (b : Burst p W) (hfsm : s.cmdFsm = .dataWrite) (hcurrent : current = some b)
      (hfirst : b.first = s.cmdMin) (hlast : b.last = s.cmdMax)
      (hcpt : s.cmdCpt = b.first + b.flits.length) (hle : s.cmdCpt ≤ s.cmdMax)
      (hcarried : b.Carried ops)

section Sending

variable {cfg : XcacheConfig p} {parts : Parts F C W} {i : Stimulus p}
  {n n' : Node p F C (Traced W)} {h : BusLog p W} {cmd : CmdOut (Traced W)}
  {rsp : RspOut (Traced W)} {calls : List WbufCall}

/-- The flit on the wires carries the next word. -/
theorem carries_wires (cfg : XcacheConfig p) (parts : Parts F C W) (i : Stimulus p)
    {b : Burst p W} (hfsm : n.xc.cmdFsm = .dataWrite)
    (hlast : b.last = n.xc.cmdMax) (hcpt : n.xc.cmdCpt = b.first + b.flits.length) :
    Carries parts.wbuf b.first b.last b.flits.length (n.wires cfg parts.traced i).cmdFlit
      n.xc.wbuf.wbuf := by
  rw [hlast]
  constructor <;>
    simp [Node.wires, XcacheWrapper.genMoore, hfsm, hcpt, VciSignals.driveRsp,
      VciSignals.cmdFlit, WbufOps.traced]

/-- The commands of a cycle that does not end a burst are no bursts. -/
theorem newCommands_other (cfg : XcacheConfig p) (parts : Parts F C W) (i : Stimulus p)
    (hother : n.xc.cmdFsm = .dataWrite →
    ((n.wires cfg parts.traced i).cmdTransfer && (n.wires cfg parts.traced i).eop) = false) :
    (BusLog.newCommands cfg parts n i).filterMap Command.burst = [] := by
  refine List.filterMap_eq_nil_iff.mpr fun c hc => ?_
  obtain ⟨f, hf, rfl⟩ := List.mem_map.mp hc
  refine if_neg fun hfsm => ?_
  rw [sentCommand, hother hfsm] at hf
  cases hf

theorem accepts_other (cfg : XcacheConfig p) (parts : Parts F C W) (i : Stimulus p)
    (hfsm : n.xc.cmdFsm ≠ .dataWrite) : BusLog.accepts cfg parts n i = false := by
  simp [BusLog.accepts, hfsm]

theorem accepts_write (cfg : XcacheConfig p) (parts : Parts F C W) (i : Stimulus p)
    (hfsm : n.xc.cmdFsm = .dataWrite) :
    BusLog.accepts cfg parts n i = i.cmdack := by
  obtain ⟨hval, _⟩ := wires_write cfg parts.traced i n hfsm
  have hack : (n.wires cfg parts.traced i).cmdack = i.cmdack := rfl
  simp [BusLog.accepts, VciSignals.cmdTransfer, hval, hack, hfsm]

/-- What a cycle does to the bursts. -/
structure BurstsNext (cfg : XcacheConfig p) (parts : Parts F C W) (n : Node p F C (Traced W))
    (i : Stimulus p) (n' : Node p F C (Traced W)) (current : Option (Burst p W))
    (done : List (Burst p W)) : Prop where
  sending : Sending parts.wbuf n'.xc current
  whole : ∀ b ∈ done, b.Whole parts.wbuf
  indices : done.map (Burst.index parts.wbuf) =
    ((BusLog.newCommands cfg parts n i).filterMap Command.burst).map some

theorem Sending.next (hs : Sending parts.wbuf n.xc h.current)
    (hbus : BusEdge cfg parts.traced i n n' cmd rsp)
    (hrok : RokOrdered parts.wbuf)
    (hstep : BurstStep parts.wbuf i.cmdack n.xc cmd calls) :
    ∃ current done,
      h.burstPart (BusLog.accepts cfg parts n i)
          ((n.wires cfg parts.traced i).cmdFlit, n.xc.wbuf.wbuf) calls =
        { h with current := current, sent := h.sent ++ done } ∧
      BurstsNext cfg parts n i n' current done := by
  cases hs with
  | rest hfsm hcurrent =>
      have hnone := accepts_other cfg parts i hfsm
      have hnew := newCommands_other cfg parts i fun hf => absurd hf hfsm
      cases hstep with
      | away _ hnext =>
          refine ⟨none, [], by simp [hnone, BusLog.burstPart, ← hcurrent], .rest ?_ rfl, nofun, ?_⟩
          · rw [hbus.cmdFsm]
            exact hnext
          · rw [hnew]
            rfl
      | opens first last w _ hoffer hnext hmin hmax hcpt =>
          have hle : first ≤ last := hrok w first last _ (Prod.ext hoffer rfl)
          refine ⟨some ⟨first, last, []⟩, [],
            by simp [hnone, BusLog.burstPart, BusLog.call, hcurrent],
            .burst ⟨first, last, []⟩ ?_ rfl ?_ ?_ ?_ ?_ nofun, nofun, ?_⟩
          · rw [hbus.cmdFsm, hnext]
          · rw [hbus.cmdMin, hmin]
          · rw [hbus.cmdMax, hmax]
          · rw [hbus.cmdCpt, hcpt]
            rfl
          · rw [hbus.cmdCpt, hbus.cmdMax, hcpt, hmax]
            exact hle
          · rw [hnew]
            rfl
      | wait hf => exact absurd hf hfsm
      | word hf => exact absurd hf hfsm
      | last hf => exact absurd hf hfsm
  | burst b hfsm hcurrent hfirst hlast hcpt hle hcarried =>
      have haccepts := accepts_write cfg parts i hfsm
      obtain ⟨hval, heop, _⟩ := wires_write cfg parts.traced i n hfsm
      have htransfer : (n.wires cfg parts.traced i).cmdTransfer = i.cmdack := by
        rw [VciSignals.cmdTransfer, hval]
        rfl
      have hcarries := carries_wires cfg parts i hfsm hlast hcpt
      cases hstep with
      | away hf => exact absurd hfsm hf
      | opens _ _ _ hf => exact absurd hfsm hf
      | wait _ hack hnext hmin hmax hcpt' =>
          have hnew := newCommands_other cfg parts i (n := n)
            fun _ => by rw [htransfer, hack]; rfl
          refine ⟨some b, [], by simp [haccepts, hack, BusLog.burstPart, ← hcurrent],
            .burst b ?_ rfl ?_ ?_ ?_ ?_ hcarried, nofun, ?_⟩
          · rw [hbus.cmdFsm, hnext]
          · rw [hbus.cmdMin, hmin, hfirst]
          · rw [hbus.cmdMax, hmax, hlast]
          · rw [hbus.cmdCpt, hcpt', hcpt]
          · rw [hbus.cmdCpt, hbus.cmdMax, hcpt', hmax]
            exact hle
          · rw [hnew]
            rfl
      | word _ hack hmore hnext hmin hmax hcpt' =>
          have hnew := newCommands_other cfg parts i (n := n)
            fun _ => by rw [heop, decide_eq_false hmore, Bool.and_false]
          refine ⟨_, [], by simp [haccepts, hack, BusLog.burstPart, BusLog.flit, hcurrent],
            .burst _ ?_ rfl ?_ ?_ ?_ ?_ (hcarried.concat hcarries), nofun, ?_⟩
          · rw [hbus.cmdFsm, hnext]
          · rw [hbus.cmdMin, hmin]
            exact hfirst
          · rw [hbus.cmdMax, hmax]
            exact hlast
          · rw [hbus.cmdCpt, hcpt', hcpt, List.length_append, Nat.add_assoc]
            rfl
          · rw [hbus.cmdCpt, hbus.cmdMax, hcpt', hmax]
            omega
          · rw [hnew]
            rfl
      | last _ hack hend hnext =>
          refine ⟨none, [{ b with flits := b.flits ++
              [((n.wires cfg parts.traced i).cmdFlit, n.xc.wbuf.wbuf)] }],
            by simp [haccepts, hack, BusLog.burstPart, BusLog.flit, BusLog.call, hcurrent],
            .rest ?_ rfl, fun b' hb' => ?_, ?_⟩
          · rw [hbus.cmdFsm]
            exact hnext
          · obtain rfl := List.mem_singleton.mp hb'
            refine ⟨hcarried.concat hcarries, ?_, ?_⟩
            · show b.first ≤ b.last
              omega
            · simp only [List.length_append, List.length_singleton]
              omega
          · simp [BusLog.newCommands, sentCommand, htransfer, hack, heop, hend, Command.burst, hfsm,
              Burst.index]

end Sending

/-! ## Commands and responses -/

/-- The identifier of a command tells the state that takes its response, and the index of a
burst. -/
structure Command.Sent (c : Command p) : Prop where
  response : RspFsm.ofTrdid c.flit.trdid = c.fsm.response
  index : writeIndex c.flit = c.burst

section Responses

variable {cfg : XcacheConfig p} {parts : Parts F C W} {contents : F → List Word}
  {contract : Contract p} {i : Stimulus p} {n n' : Node p F C (Traced W)} {h : BusLog p W}

theorem newCommands_sent (hindex : ∀ w, parts.wbuf.getIndex w < cfg.wbufNlines) {c : Command p}
    (hc : c ∈ BusLog.newCommands cfg parts n i) : c.Sent := by
  obtain ⟨f, hf, rfl⟩ := List.mem_map.mp hc
  unfold sentCommand at hf
  split at hf
  next hsend =>
    obtain ⟨htransfer, _⟩ := Bool.and_eq_true_iff.mp hsend
    obtain ⟨hval, _⟩ := Bool.and_eq_true_iff.mp htransfer
    obtain rfl := List.mem_singleton.mp hf
    have hid : (n.wires cfg parts.traced i).cmdFlit.trdid = (n.wires cfg parts.traced i).trdid :=
      rfl
    cases hfsm : n.xc.cmdFsm with
    | idle => cases (wires_idle cfg parts.traced i n hfsm).symm.trans hval
    | read c k =>
        obtain ⟨_, _, htrdid, _⟩ := wires_read cfg parts.traced i n hfsm
        have hclass : RspFsm.ofTrdid (n.wires cfg parts.traced i).trdid = .read c k := by
          rw [htrdid, ofTrdid_transactionType cfg]
        exact ⟨hclass, by simp [writeIndex, hid, hclass, Command.burst]⟩
    | dataWrite =>
        obtain ⟨_, _, htrdid⟩ := wires_write cfg parts.traced i n hfsm
        have hlines : parts.traced.wbuf.getIndex n.xc.wbuf < cfg.wbufNlines := hindex n.xc.wbuf.wbuf
        have hclass : RspFsm.ofTrdid (n.wires cfg parts.traced i).trdid = .dataWrite := by
          rw [htrdid, ofTrdid_write cfg hlines]
        refine ⟨hclass, ?_⟩
        simp only [writeIndex, hid, hclass, Command.burst, if_true]
        rw [htrdid, toNat_write cfg hlines, Nat.add_sub_cancel]
        rfl
  next => cases hf

/-- A response flit that is taken answers a command that has been accepted. -/
theorem answered_command (hlinked : Linked n) (hlegal : n.net.Legal contract i)
    (hsent : ∀ c ∈ h.commands, c.Sent)
    (hknown : ∀ t ∈ n.net.outstanding, ∃ c ∈ h.commands, c.flit = t)
    (htransfer : (n.wires cfg parts.traced i).rspTransfer = true) :
    ∃ c ∈ h.commands, h.commands.find? (fun c => c.flit = (n.net.shown i).1) = some c ∧
      n.xc.rspFsm = c.fsm.response ∧ n.net.current = some (c.flit, (n.net.shown i).2) ∧
      i.flit.rtrdid = c.flit.trdid := by
  obtain ⟨hval, hack⟩ := Bool.and_eq_true_iff.mp htransfer
  rw [wires_rspack] at hack
  have hfsm : n.xc.rspFsm ≠ .idle := of_decide_eq_true hack
  obtain ⟨t, fs, hcur, hstate, hid, _⟩ := hlinked.shown hlegal hval hfsm
  have hshown : n.net.shown i = (t, fs) := by
    rw [Net.shown, hcur]
    rfl
  obtain ⟨c, hc, hflit⟩ := hknown t (List.mem_append_left _ (by simp [hcur]))
  obtain ⟨c', hfind⟩ : ∃ c', h.commands.find? (fun c => c.flit = t) = some c' :=
    Option.isSome_iff_exists.mp (List.find?_isSome.mpr ⟨c, hc, decide_eq_true hflit⟩)
  have hmem : c' ∈ h.commands := List.mem_of_find?_eq_some hfind
  have hflit' : c'.flit = t :=
    of_decide_eq_true (List.find?_some (p := fun c : Command p => decide (c.flit = t)) hfind)
  refine ⟨c', hmem, by rw [hshown]; exact hfind, ?_, ?_, ?_⟩
  · rw [hstate, ← hflit', (hsent c' hmem).response]
  · rw [hcur, hflit', hshown]
  · rw [hid, hflit']

/-- The write buffer is told about the response that is taken. -/
theorem completes_taken (cfg : XcacheConfig p) (parts : Parts F C W) (hlinked : Linked n)
    (hlegal : n.net.Legal contract i)
    (hsent : ∀ c ∈ h.commands, c.Sent)
    (hknown : ∀ t ∈ n.net.outstanding, ∃ c ∈ h.commands, c.flit = t) :
    let taken : List (Option (Command p) × RspFsm) :=
      if (n.wires cfg parts.traced i).rspTransfer then
        [(h.commands.find? fun c => c.flit = (n.net.shown i).1, n.xc.rspFsm)]
      else []
    (∀ x ∈ taken, ∃ c ∈ h.commands, x = (some c, c.fsm.response)) ∧
      completes n.xc i = taken.filterMap fun x => x.1.bind Command.burst := by
  dsimp only
  split
  next htransfer =>
    obtain ⟨c, hc, hfind, hstate, _, hid⟩ := answered_command hlinked hlegal hsent hknown htransfer
    rw [hfind, hstate]
    refine ⟨fun x hx => ⟨c, hc, List.mem_singleton.mp hx⟩, ?_⟩
    have hval : i.rspval = true := (Bool.and_eq_true_iff.mp htransfer).1
    have hindex := (hsent c hc).index
    rw [writeIndex, (hsent c hc).response] at hindex
    simp only [completes, hstate, hval, and_true, hid, List.filterMap_cons, Option.bind_some,
      List.filterMap_nil]
    rw [← hindex]
    split <;> rfl
  next hnone =>
    refine ⟨nofun, if_neg fun ⟨hfsm, hval⟩ => hnone ?_⟩
    rw [VciSignals.rspTransfer, wires_rspack, hfsm]
    exact Bool.and_eq_true_iff.mpr ⟨hval, rfl⟩

/-- A burst that is completed is no longer outstanding. -/
theorem completes_answered (parts : Parts F C W) (hclean : contract.Clean cfg) (hlinked : Linked n)
    (hlegal : n.net.Legal contract i) :
    completes n.xc i =
      (n.net.answered i (n.wires cfg parts.traced i)).filterMap writeIndex := by
  cases hval : i.rspval with
  | false => simp [completes, Net.answered, hval]
  | true =>
      by_cases hfsm : n.xc.rspFsm = .idle
      · simp [completes, Net.answered, wires_rspack, hfsm]
      · obtain ⟨t, fs, hcur, hstate, hid, hcontract⟩ := hlinked.shown hlegal hval hfsm
        have hshown : (n.net.shown i).1 = t := by
          rw [Net.shown, hcur]
          rfl
        by_cases hwrite : n.xc.rspFsm = .dataWrite
        · obtain rfl : fs = [] := hlinked.write t fs hcur hwrite
          have hreop : i.flit.reop = true := hclean.write (hstate.symm.trans hwrite) hcontract
          simp [completes, Net.answered, wires_rspack, hval, hreop, hwrite, hshown, writeIndex,
            ← hstate, hid]
        · have hnone : writeIndex t = none := by
            rw [writeIndex, ← hstate, if_neg hwrite]
          simp only [completes, hwrite, false_and, if_false, Net.answered, hshown]
          split
          · simp [hnone]
          · rfl

end Responses

/-! ## Every burst is sent and completed -/

/-- The invariant of the history. -/
structure BurstInv (parts : Parts F C W) (n : Node p F C (Traced W)) (h : BusLog p W) : Prop where
  sending : Sending parts.wbuf n.xc h.current
  sent : ∀ b ∈ h.sent, b.Whole parts.wbuf
  stray : h.stray = 0
  indices : h.sent.map (Burst.index parts.wbuf) = (h.commands.filterMap Command.burst).map some
  commands : ∀ c ∈ h.commands, c.Sent
  known : ∀ t ∈ n.net.outstanding, ∃ c ∈ h.commands, c.flit = t
  taken : ∀ x ∈ h.taken, ∃ c ∈ h.commands, x = (some c, c.fsm.response)
  completed : h.completed = h.taken.filterMap fun x => x.1.bind Command.burst
  balance : (h.completed ++ n.net.outstanding.filterMap writeIndex).Perm
    (h.commands.filterMap Command.burst)

section Invariant

variable {cfg : XcacheConfig p} {parts : Parts F C W} {contents : F → List Word}
  {contract : Contract p} {i : Stimulus p} {n n' : Node p F C (Traced W)} {h : BusLog p W}

theorem BurstInv.start (hstart : n.Start parts.traced) : BurstInv parts n .blank := by
  obtain ⟨⟨s, hxc⟩, hnet, _⟩ := hstart
  have hfsm : n.xc.cmdFsm ≠ .dataWrite := by
    rw [hxc]
    exact CmdFsm.noConfusion
  have hnone : n.net.outstanding = [] := by
    rw [hnet]
    rfl
  exact
    { sending := .rest hfsm rfl
      sent := nofun
      stray := rfl
      indices := rfl
      commands := nofun
      known := fun t ht => by
        rw [hnone] at ht
        cases ht
      taken := nofun
      completed := rfl
      balance := by
        rw [hnone]
        exact .refl _ }

/-- The commands of a cycle have the indices their responses are decoded to. -/
theorem newCommands_index (n : Node p F C (Traced W)) (i : Stimulus p)
    (hindex : ∀ w, parts.wbuf.getIndex w < cfg.wbufNlines) :
    (sentCommand (n.wires cfg parts.traced i)).filterMap writeIndex =
      (BusLog.newCommands cfg parts n i).filterMap Command.burst := by
  rw [BusLog.newCommands, List.filterMap_map]
  refine List.filterMap_congr fun f hf => ?_
  exact (newCommands_sent hindex (List.mem_map_of_mem hf)).index

theorem BurstInv.next (hindex : ∀ w, parts.wbuf.getIndex w < cfg.wbufNlines)
    (hrok : RokOrdered parts.wbuf) (hclean : contract.Clean cfg) (hlinked : Linked n)
    (hlegal : n.net.Legal contract i) (hinv : BurstInv parts n h)
    {out : XcacheOut F C (Traced W)} (hnext : n.next cfg parts.traced i = .ok (n', out)) :
    BurstInv parts n' (BusLog.note cfg parts n i n' h) := by
  obtain ⟨cmd, rsp, calls, hbus, hstep, hnote⟩ := note_edge (h := h) hnext
  obtain ⟨current, done, hpart, hbursts⟩ := hinv.sending.next hbus hrok hstep
  obtain ⟨htaken, hcompletes⟩ :=
    completes_taken cfg parts hlinked hlegal hinv.commands hinv.known
  have hanswered := completes_answered parts hclean hlinked hlegal
  have hnew := newCommands_index n i hindex
  have hperm := outstanding_perm hlegal (n.wires cfg parts.traced i)
  rw [← hbus.net] at hperm
  rw [hnote, hpart]
  exact
    { sending := hbursts.sending
      sent := fun b hb => (List.mem_append.mp hb).elim (hinv.sent b) (hbursts.whole b)
      stray := hinv.stray
      indices := by
        simp only [List.map_append, List.filterMap_append, hinv.indices, hbursts.indices]
      commands := fun c hc =>
        (List.mem_append.mp hc).elim (hinv.commands c) (newCommands_sent hindex)
      known := fun t ht => by
        rcases List.mem_append.mp (hperm.mem_iff.mp (List.mem_append_right _ ht)) with ht | ht
        · obtain ⟨c, hc, hflit⟩ := hinv.known t ht
          exact ⟨c, List.mem_append_left _ hc, hflit⟩
        · exact ⟨_, List.mem_append_right _ (List.mem_map_of_mem ht), rfl⟩
      taken := fun x hx => by
        rcases List.mem_append.mp hx with hx | hx
        · obtain ⟨c, hc, heq⟩ := hinv.taken x hx
          exact ⟨c, List.mem_append_left _ hc, heq⟩
        · obtain ⟨c, hc, heq⟩ := htaken x hx
          exact ⟨c, List.mem_append_left _ hc, heq⟩
      completed := by
        simp only [List.filterMap_append, hinv.completed, hcompletes]
      balance := by
        have hmoved := (hperm.filterMap writeIndex).append_left h.completed
        rw [List.filterMap_append, List.filterMap_append, ← hanswered, hnew] at hmoved
        have hold := hinv.balance.append_right
          ((BusLog.newCommands cfg parts n i).filterMap Command.burst)
        rw [List.append_assoc] at hold
        simpa only [List.append_assoc, List.filterMap_append] using hmoved.trans hold }

theorem BurstInv.exact (hinv : BurstInv parts n h) (hlinked : Linked n) :
    BurstsExact cfg parts n h where
  sent := hinv.sent
  current b hb := by
    cases hinv.sending with
    | rest _ hcurrent =>
        rw [hcurrent] at hb
        cases hb
    | burst b' hfsm hcurrent hfirst hlast hcpt hle hcarried =>
        obtain rfl : b' = b := Option.some.inj (hcurrent.symm.trans hb)
        refine ⟨hcarried, by omega, fun i => ?_⟩
        exact (wires_write cfg parts.traced i n hfsm).1
  stray := hinv.stray
  indices := hinv.indices
  taken := hinv.taken
  begun t fs hcur := by
    obtain ⟨hstate, hidle⟩ := hlinked.current t fs hcur
    obtain ⟨c, hc, rfl⟩ := hinv.known t (List.mem_append_left _ (by simp [hcur]))
    exact ⟨c, hc, rfl, by rw [hstate, (hinv.commands c hc).response], hidle⟩
  completed := hinv.completed
  balance := hinv.balance

end Invariant

/-- In every run in which an error is the last flit of its packet, and no packet is longer
than its line, every burst is sent and completed exactly once, and no assertion fails. -/
theorem bursts_exact (cfg : XcacheConfig p) (parts : Parts F C W) (contents : F → List Word)
    (hfifo : FifoLaws parts.fifo contents)
    (hindex : ∀ w, parts.wbuf.getIndex w < cfg.wbufNlines) (hrok : RokOrdered parts.wbuf)
    {x : Node p F C (Traced W) × BusLog p W}
    (hx : (busSystem cfg parts
      ((system cfg parts.traced (AnyErrors cfg)).under (Shows (ErrorsLast cfg)))).Reachable x) :
    BurstsExact cfg parts x.1 x.2 ∧
      ∀ i, x.1.net.Legal (AnyErrors cfg) i → Shows (ErrorsLast cfg) x.1 i →
        ∀ text, x.1.next cfg parts.traced i ≠ .error (.assertion text) := by
  have hlaws : FifoLaws parts.traced.fifo contents := hfifo
  have hboth : BurstInv parts x.1 x.2 := by
    induction hx with
    | init hstart =>
        obtain ⟨hnode, hblank⟩ := hstart
        rw [hblank]
        exact .start hnode
    | @step y y' i hy hstep ih =>
        obtain ⟨⟨hshows, hlegal, out, hnext⟩, hnote⟩ := hstep
        rw [hnote]
        exact ih.next hindex hrok (errorsLast_clean cfg) (traced_inv hfifo hindex hy.forget).linked
          (hlegal.both hshows) hnext
  have hinv := traced_inv hfifo hindex hx.forget
  refine ⟨hboth.exact hinv.linked, fun i hlegal hshows => ?_⟩
  exact hinv.no_assertion hlaws (errorsLast_clean cfg) (hlegal.both hshows)

/-- Every state of the wrapper has such a history. -/
theorem exists_busLog {cfg : XcacheConfig p} {parts : Parts F C W} {contract : Contract p}
    {n : Node p F C W} (hn : (system cfg parts contract).Reachable n) :
    ∃ m h, (busSystem cfg parts (system cfg parts.traced contract)).Reachable (m, h) ∧
      m.erase = n :=
  exists_traced_history hn

/-! ## Small runs -/

/-- The small wrapper with lines of eight words. -/
def eightWords : XcacheConfig smallParam where
  cacheabilityTable a := a < 0x1000
  srcid := 0
  icacheWords := 8
  dcacheWords := 8
  wbufNlines := 2
  xtnDcacheInval := 4
  xtnSync := 5
  icacheLine := by decide
  dcacheLine := by decide
  plenBits := by decide
  trdidBits := by decide

/-- The command of the line at `0x20`. -/
def lineFetch : CmdFlit smallParam := ⟨0x20, 0, 0xF, 32, 0, 3, 0, Cmd.read, true, true⟩

/-- The processor writes a word, which is sent as a burst, and fetches a line. -/
def storeThenFetch : List (Stimulus smallParam) :=
  [{ quietCycle with dreq := ⟨true, 0x40, .write, 7, 0xF⟩ }, quietCycle, takeCommand, fetch 0x20,
    quietCycle, takeCommand]

/-- The processor writes two words of a line, which are sent as a burst with the word between
them, and fetches a line. -/
def storesThenFetch : List (Stimulus smallParam) :=
  [{ quietCycle with dreq := ⟨true, 0x40, .write, 7, 0xF⟩ },
    { quietCycle with dreq := ⟨true, 0x48, .write, 6, 0x3⟩ }, quietCycle, quietCycle, takeCommand,
    quietCycle, takeCommand, takeCommand, fetch 0x20, quietCycle, takeCommand]

/-- The last flit of the command of the burst. -/
def burstCommand : CmdFlit smallParam :=
  { wordCommand 0x48 6 with be := 0x3, plen := 12 }

/-- The line comes first.  A flit that starts a response is shown for two cycles. -/
def storesCompleted : List (Stimulus smallParam) :=
  storesThenFetch ++ ([1, 1, 2, 3, 4, 5, 6, 7].map fun d => respond lineFetch d false false) ++
    [respond lineFetch 8 false true, respond burstCommand 0 false true,
      respond burstCommand 0 false true]

theorem lineBuffer_ordered (words delay : Nat) : RokOrdered (lineBuffer words delay) := by
  intro w first last w' h
  have hrok : (lineBuffer words delay).rok w = (some (first, last), w') := h
  simp only [lineBuffer, Prod.mk.injEq] at hrok
  obtain ⟨hburst, _⟩ := hrok
  split at hburst
  · cases hburst
    exact w.ordered
  · cases hburst

theorem storesCompleted_exact :
    ∃ x : Node smallParam (List Word) SetCache (Traced LineBuffer) × BusLog smallParam LineBuffer,
      (x.2.sent.map fun b => b.flits.length) = [3] ∧ x.2.completed = [0] ∧
        BurstsExact eightWords (mergingParts 8) x.1 x.2 := by
  have hrun : (exec (noting (BusLog.note eightWords (mergingParts 8))
      (guarded (Shows (ErrorsLast eightWords))
        (Node.legalNext eightWords (mergingParts 8).traced (AnyErrors eightWords)))) storesCompleted
      (smallTraced 8, .blank)).any (fun x =>
        (x.2.sent.map fun b => b.flits.length) = [3] ∧ x.2.completed = [0]) = true := by
    decide +kernel
  obtain ⟨x, hx, htest⟩ := System.exists_exec
    (S := busSystem eightWords (mergingParts 8)
      ((system eightWords (mergingParts 8).traced (AnyErrors eightWords)).under
        (Shows (ErrorsLast eightWords))))
    (s := (smallTraced 8, .blank)) (noting_step (guarded_step Node.legalNext_step))
    ⟨smallTraced_start_merging 8, rfl⟩ hrun
  obtain ⟨hsent, hcompleted⟩ := of_decide_eq_true htest
  exact ⟨x, hsent, hcompleted, (bursts_exact eightWords (mergingParts 8) id listFifo_laws
    (fun _ => Nat.two_pos) (lineBuffer_ordered 8 1) hx).1⟩

/-- The first flit of the line is an error.  The other words follow it, and the last one finds
the FIFO full. -/
def storeSwallowed : List (Stimulus smallParam) :=
  storeThenFetch ++ [respond lineFetch 0 true false, respond lineFetch 0 true false] ++
    ([2, 3, 4, 5, 6, 7].map fun d => respond lineFetch d false false) ++
    [respond lineFetch 8 false true, respond (wordCommand 0x40 7) 0 false true]

/-- The response to the burst is taken for a word of the line, and the burst is never
completed. -/
theorem write_taken_for_read :
    ∃ x : Node smallParam (List Word) SetCache (Traced LineBuffer) × BusLog smallParam LineBuffer,
      (busSystem eightWords (smallParts 8)
        (system eightWords (smallParts 8).traced (AnyErrors eightWords))).Reachable x ∧
      (∃ c, (some c, RspFsm.read .ins .miss) ∈ x.2.taken ∧ c.fsm = .dataWrite) ∧
      x.2.completed = [] ∧ x.1.net.outstanding = [] ∧
      ¬ BurstsExact eightWords (smallParts 8) x.1 x.2 := by
  have hrun : (exec (noting (BusLog.note eightWords (smallParts 8))
      (Node.legalNext eightWords (smallParts 8).traced (AnyErrors eightWords))) storeSwallowed
      (smallTraced 8, .blank)).any
        (fun x => (x.2.taken.any fun y => y.1.any (fun c => c.fsm = .dataWrite) &&
          y.2 = .read .ins .miss) ∧ x.2.completed = [] ∧ x.1.net.outstanding = []) = true := by
    decide +kernel
  obtain ⟨x, hx, htest⟩ := System.exists_exec
    (S := busSystem eightWords (smallParts 8)
      (system eightWords (smallParts 8).traced (AnyErrors eightWords)))
    (s := (smallTraced 8, .blank)) (noting_step Node.legalNext_step) ⟨smallTraced_start 8, rfl⟩ hrun
  obtain ⟨htaken, hcompleted, hnone⟩ := of_decide_eq_true htest
  obtain ⟨⟨answered, state⟩, hmem, hcond⟩ := List.any_eq_true.mp htaken
  obtain ⟨hwrite, hread⟩ := Bool.and_eq_true_iff.mp hcond
  obtain ⟨c, rfl, hc⟩ := (Option.any_eq_true _ _).mp hwrite
  obtain rfl : state = .read .ins .miss := of_decide_eq_true hread
  have hfsm : c.fsm = .dataWrite := of_decide_eq_true hc
  refine ⟨x, hx, ⟨c, hmem, hfsm⟩, hcompleted, hnone, fun hexact => ?_⟩
  obtain ⟨c', _, heq⟩ := hexact.taken _ hmem
  obtain ⟨hsame, hresponse⟩ := Prod.mk.inj heq
  rw [← Option.some.inj hsame, hfsm] at hresponse
  cases hresponse

end SmcTp.Xcache
