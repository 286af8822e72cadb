import SmcTp.Xcache.ReadEdge

/-!
# What one edge does to the bus automata

`CmdStep` lists what the command automaton can do in a cycle, with the registers of a burst
and the write buffer it leaves.  `RspStep` says what the response automaton does with the write
buffer.  `BusEdge` is an edge of a node as the two automata see it.
-/

namespace SmcTp.Xcache

open Vci

variable {p : VciParams} {F C W : Type}

/-! ## The command automaton -/

/-- Everything the command automaton can do.  It looks for a burst after the misses. -/
inductive CmdStep (parts : Parts F C W) (cmdack : Bool) (min max cpt : Nat) (wbuf : W) :
    CmdFsm → CmdOut W → Prop where
  | grant (c : Client) (k : ReadKind) (wbuf' : W)
      (hwbuf : wbuf' = wbuf ∨ parts.wbuf.rok wbuf = (none, wbuf')) :
      CmdStep parts cmdack min max cpt wbuf .idle
        ⟨.read c k, min, max, cpt, wbuf', some (c, k)⟩
  | burst (first last : Nat) (wbuf' : W)
      (hrok : parts.wbuf.rok wbuf = (some (first, last), wbuf')) :
      CmdStep parts cmdack min max cpt wbuf .idle ⟨.dataWrite, first, last, first, wbuf', none⟩
  | rest (wbuf' : W) (hrok : parts.wbuf.rok wbuf = (none, wbuf')) :
      CmdStep parts cmdack min max cpt wbuf .idle ⟨.idle, min, max, cpt, wbuf', none⟩
  | wait (hack : cmdack = false) :
      CmdStep parts cmdack min max cpt wbuf .dataWrite ⟨.dataWrite, min, max, cpt, wbuf, none⟩
  | next (hack : cmdack = true) (hmore : cpt ≠ max) :
      CmdStep parts cmdack min max cpt wbuf .dataWrite
        ⟨.dataWrite, min, max, cpt + 1, wbuf, none⟩
  | last (hack : cmdack = true) (hlast : cpt = max) :
      CmdStep parts cmdack min max cpt wbuf .dataWrite
        ⟨.idle, min, max, cpt + 1, parts.wbuf.sent wbuf, none⟩
  | send (c : Client) (k : ReadKind) :
      CmdStep parts cmdack min max cpt wbuf (.read c k)
        ⟨if cmdack then .idle else .read c k, min, max, cpt, wbuf, none⟩

theorem cmdTransition_step (parts : Parts F C W) (cmdack : Bool) (ins data : Side F)
    (fsm : CmdFsm) (min max cpt : Nat) (wbuf : W) :
    CmdStep parts cmdack min max cpt wbuf fsm
      (cmdTransition parts cmdack ins data fsm min max cpt wbuf) := by
  cases fsm with
  | idle =>
      simp only [cmdTransition]
      split
      next => exact .grant .data .miss _ (.inl rfl)
      next =>
        split
        next => exact .grant .ins .miss _ (.inl rfl)
        next =>
          split
          next first last hburst => exact .burst first last _ (Prod.ext hburst rfl)
          next hnone =>
            have hrok : parts.wbuf.rok wbuf = (none, (parts.wbuf.rok wbuf).2) :=
              Prod.ext hnone rfl
            split
            · exact .grant .data .unc _ (.inr hrok)
            split
            · exact .grant .ins .unc _ (.inr hrok)
            · exact .rest _ hrok
  | dataWrite =>
      simp only [cmdTransition]
      split
      next hack =>
        split
        next hlast => exact .last hack hlast
        next hmore => exact .next hack hmore
      next hack => exact .wait (Bool.eq_false_iff.mpr hack)
  | read c k => exact .send c k

/-! ## The response automaton -/

/-- What the response automaton does with the write buffer. -/
inductive RspStep (parts : Parts F C W) (sig : VciSignals p) (fsm : RspFsm) (wbuf : W)
    (out : RspOut W) : Prop where
  | keep (hquiet : fsm = .dataWrite → sig.rspval = false) (hwbuf : out.wbuf = wbuf)
  | complete (hfsm : fsm = .dataWrite) (hval : sig.rspval = true)
      (hwbuf : out.wbuf = parts.wbuf.completed (sig.rtrdid.toNat - (1 <<< (p.T - 1))) wbuf)

theorem rspTransition_step {cfg : XcacheConfig p} {parts : Parts F C W} {wok : Client → Bool}
    {sig : VciSignals p} {fsm : RspFsm} {cpt : Nat} {wbuf : W} {out : RspOut W}
    (h : rspTransition cfg parts wok sig fsm cpt wbuf = .ok out) :
    RspStep parts sig fsm wbuf out := by
  cases hval : sig.rspval with
  | false =>
      simp only [rspTransition, hval] at h
      cases h
      exact .keep (fun _ => hval) rfl
  | true =>
      simp only [rspTransition, hval, if_true] at h
      cases fsm with
      | idle =>
          cases h
          exact .keep nofun rfl
      | dataWrite =>
          simp only at h
          split_ifs at h
          cases h
          exact .complete rfl hval rfl
      | read c k =>
          cases k <;> simp only at h <;> split_ifs at h <;> cases h <;> exact .keep nofun rfl

/-! ## Nodes -/

/-- One edge of a node, as the bus automata see it. -/
structure BusEdge (cfg : XcacheConfig p) (parts : Parts F C W) (i : Stimulus p)
    (n n' : Node p F C W) (cmd : CmdOut W) (rsp : RspOut W) : Prop where
  command : CmdStep parts i.cmdack n.xc.cmdMin n.xc.cmdMax n.xc.cmdCpt
    (parts.wbuf.update (n.xc.stored parts).2) n.xc.cmdFsm cmd
  response : RspStep parts (n.wires cfg parts i) n.xc.rspFsm cmd.wbuf rsp
  cmdFsm : n'.xc.cmdFsm = cmd.fsm
  cmdMin : n'.xc.cmdMin = cmd.min
  cmdMax : n'.xc.cmdMax = cmd.max
  cmdCpt : n'.xc.cmdCpt = cmd.cpt
  wbuf : n'.xc.wbuf = rsp.wbuf
  net : n'.net = n.net.next i (n.wires cfg parts i)

theorem next_bus {cfg : XcacheConfig p} {parts : Parts F C W} {i : Stimulus p}
    {n n' : Node p F C W} {out : XcacheOut F C W} (h : n.next cfg parts i = .ok (n', out)) :
    ∃ cmd rsp, BusEdge cfg parts i n n' cmd rsp := by
  simp only [Node.next] at h
  split at h
  · cases h
  · rename_i out' hout
    obtain ⟨d, rsp, hd, hrsp, rfl⟩ := transition_ok hout
    cases h
    have hcmd := cmdTransition_step parts i.cmdack n.xc.ins n.xc.data n.xc.cmdFsm n.xc.cmdMin
      n.xc.cmdMax n.xc.cmdCpt (parts.wbuf.update d.wbuf)
    nth_rewrite 1 [dcacheTransition_wbuf hd] at hcmd
    exact ⟨_, rsp, hcmd, rspTransition_step hrsp, rfl, rfl, rfl, rfl, rfl, rfl⟩

end SmcTp.Xcache
