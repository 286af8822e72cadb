import SmcTp.Xcache.ReadEdge

/-!
# The life of a read

A read of a client is raised by its automaton, granted and sent by the command
automaton, waits in the interconnect, and is answered flit by flit.  `Channel` says
where the read is and what the registers, the interconnect and the record of the client
hold there.  It is kept by every edge as long as the contract of the interconnect is
clean: an error ends its packet, and no packet is longer than its line.

*No word is lost.*  The cache automaton waits before the command is accepted and takes
a word in each cycle, so that the FIFO holds at most the last word received.
-/

namespace SmcTp.Xcache

open Vci

variable {p : VciParams} {F C W : Type}

/-! ## Packets -/

/-- An error ends its packet, and a packet is no longer than what it answers. -/
structure Contract.Clean (cfg : XcacheConfig p) (contract : Contract p) : Prop where
  read : ∀ {t : CmdFlit p} {fs : List (RspFlit p)} {f : RspFlit p} {c : Client} {k : ReadKind},
    RspFsm.ofTrdid t.trdid = .read c k → contract t fs f → (∀ g ∈ fs, fails g = false) →
    fs.length < cfg.length c k →
    (f.reop = true ↔ fails f = true ∨ fs.length + 1 = cfg.length c k)
  write : ∀ {t : CmdFlit p} {f : RspFlit p},
    RspFsm.ofTrdid t.trdid = .dataWrite → contract t [] f → f.reop = true

/-! ## Where a read is -/

/-- The commands of a client the interconnect has to answer. -/
def Net.waitingOf (net : Net p) (c : Client) : List (CmdFlit p) :=
  net.waiting.filter fun t => Node.clientOf t.trdid = some c

/-- The response automaton handles the packet on the wires. -/
structure Linked (n : Node p F C W) : Prop where
  idle : n.net.current = none → n.xc.rspFsm = .idle
  current : ∀ t fs, n.net.current = some (t, fs) →
    n.xc.rspFsm = .ofTrdid t.trdid ∧ n.xc.rspFsm ≠ .idle
  write : ∀ t fs, n.net.current = some (t, fs) → n.xc.rspFsm = .dataWrite → fs = []
  waiting : ∀ t ∈ n.net.waiting, RspFsm.ofTrdid t.trdid ≠ .idle

/-- Who has something to do for a read of the client. -/
structure Bus (n : Node p F C W) (c : Client) (req cmd : Option ReadKind)
    (waiting : List (CmdFlit p)) (rsp : Option ReadKind) : Prop where
  req : ∀ k, (n.xc.side c).req k = true ↔ req = some k
  cmd : ∀ k, n.xc.cmdFsm = .read c k ↔ cmd = some k
  waiting : n.net.waitingOf c = waiting
  rsp : ∀ k, n.xc.rspFsm = .read c k ↔ rsp = some k

/-- What the cache automaton finds. -/
structure Buffer (contents : F → List Word) (side : Side F) (error : Bool) (words : List Word) :
    Prop where
  error : side.error = error
  fifo : contents side.fifo = words

/-- The record of a read.  The processor has not been answered. -/
structure Reading (n : Node p F C W) (c : Client) (k : ReadKind) (accepted : List (Head p))
    (flits : List (RspFlit p)) (effects : List Effect) : Prop where
  plain : (n.xc.saved c).type.plain = true
  record : (n.log c).current = ⟨some (k, n.xc.saved c), accepted, flits, effects, []⟩

/-- A flit in the middle of a packet. -/
structure Good (trdid : BitVec p.T) (f : RspFlit p) : Prop where
  fails : fails f = false
  reop : f.reop = false
  trdid : f.rtrdid = trdid

/-- The kind of read a state serves. -/
def ReadFsm.kind : ReadFsm → ReadKind
  | .uncWait => .unc
  | _ => .miss

/-- Where a client stands. -/
inductive Channel (cfg : XcacheConfig p) (contents : F → List Word) (c : Client)
    (n : Node p F C W) : Prop where
  | rest (hfsm : n.xc.readFsm c = none) (hbus : Bus n c none none [] none)
      (hbuf : Buffer contents (n.xc.side c) false []) (hlog : (n.log c).current = .blank)
  | raised (k : ReadKind) (f : ReadFsm) (hfsm : n.xc.readFsm c = some f) (hkind : f.kind = k)
      (hbus : Bus n c (some k) none [] none) (hbuf : Buffer contents (n.xc.side c) false [])
      (hread : Reading n c k [] [] []) (hword : k = .miss → (n.xc.side c).wordSave = 0)
  | sending (k : ReadKind) (f : ReadFsm) (hfsm : n.xc.readFsm c = some f) (hkind : f.kind = k)
      (hselect : f ≠ .missSelect) (hbus : Bus n c none (some k) [] none)
      (hbuf : Buffer contents (n.xc.side c) false []) (hread : Reading n c k [] [] [])
      (hword : k = .miss → (n.xc.side c).wordSave = 0)
  | waiting (k : ReadKind) (t : CmdFlit p) (hfsm : n.xc.readFsm c = some k.wait)
      (hbus : Bus n c none none [t] none) (hhead : head t = (n.xc.saved c).head cfg c k)
      (hbuf : Buffer contents (n.xc.side c) false [])
      (hread : Reading n c k [(n.xc.saved c).head cfg c k] [] [])
      (hword : k = .miss → (n.xc.side c).wordSave = 0)
  | receiving (k : ReadKind) (t : CmdFlit p) (fs : List (RspFlit p))
      (hfsm : n.xc.readFsm c = some k.wait) (hbus : Bus n c none none [] (some k))
      (hnet : n.net.current = some (t, fs)) (hhead : head t = (n.xc.saved c).head cfg c k)
      (hgood : ∀ f ∈ fs, Good t.trdid f) (hlength : fs.length < cfg.length c k)
      (hcpt : k = .miss → n.xc.rspCpt = fs.length)
      (hword : k = .miss → (n.xc.side c).wordSave ≤ fs.length)
      (hfifo : fs.length ≤ (n.xc.side c).wordSave + 1)
      (hbuf : Buffer contents (n.xc.side c) false
        ((fs.drop (n.xc.side c).wordSave).map wordOf))
      (hread : Reading n c k [(n.xc.saved c).head cfg c k] fs
        (writes (n.xc.side c).waySave (n.xc.side c).setSave
          (fs.take (n.xc.side c).wordSave)))
  | drained (k : ReadKind) (fs : List (RspFlit p)) (f : RspFlit p)
      (hfsm : n.xc.readFsm c = some k.wait) (hbus : Bus n c none none [] none)
      (hgood : ∀ g ∈ fs, Good ((n.xc.saved c).head cfg c k).trdid g)
      (hfails : fails f = false) (hreop : f.reop = true)
      (htrdid : f.rtrdid = ((n.xc.saved c).head cfg c k).trdid)
      (hlength : fs.length + 1 = cfg.length c k)
      (hword : k = .miss → (n.xc.side c).wordSave = fs.length)
      (hbuf : Buffer contents (n.xc.side c) false [wordOf f])
      (hread : Reading n c k [(n.xc.saved c).head cfg c k] (fs ++ [f])
        (writes (n.xc.side c).waySave (n.xc.side c).setSave fs))
  | failed (k : ReadKind) (fs : List (RspFlit p)) (f : RspFlit p)
      (hfsm : n.xc.readFsm c = some k.wait) (hbus : Bus n c none none [] none)
      (hgood : ∀ g ∈ fs, Good ((n.xc.saved c).head cfg c k).trdid g)
      (hfails : fails f = true) (hreop : f.reop = true)
      (htrdid : f.rtrdid = ((n.xc.saved c).head cfg c k).trdid)
      (hlength : fs.length < cfg.length c k)
      (hbuf : Buffer contents (n.xc.side c) true [])
      (hread : Reading n c k [(n.xc.saved c).head cfg c k] (fs ++ [f])
        (writes (n.xc.side c).waySave (n.xc.side c).setSave fs))

/-! ## The other parties -/

section Parties

variable {cfg : XcacheConfig p} {parts : Parts F C W} {i : Stimulus p} {n n' : Node p F C W}
  {c : Client} {out : ClientOut F C} {cmd : CmdOut W} {rsp : RspOut W}

@[simp] theorem clientOf_transactionType (cfg : XcacheConfig p) (c : Client) (k : ReadKind) :
    Node.clientOf (BitVec.ofNat p.T (transactionType c k)) = some c := by
  simp [Node.clientOf, ofTrdid_transactionType cfg]

/-- The wires of a state that sends no read carry no read. -/
theorem accepted_none (hindex : ∀ w, parts.wbuf.getIndex w < cfg.wbufNlines)
    (h : ∀ k, n.xc.cmdFsm ≠ .read c k) : Node.accepted (n.wires cfg parts i) c = none := by
  cases hfsm : n.xc.cmdFsm with
  | idle => simp [Node.accepted, VciSignals.cmdTransfer, wires_idle cfg parts i n hfsm]
  | dataWrite =>
      obtain ⟨_, _, hid⟩ := wires_write cfg parts i n hfsm
      have hclient : Node.clientOf (n.wires cfg parts i).trdid = none := by
        rw [hid, Node.clientOf, ofTrdid_write cfg (hindex _)]
      simp [Node.accepted, hclient]
  | read c' k =>
      have hne : c' ≠ c := fun he => h k (he ▸ hfsm)
      obtain ⟨_, _, hid, _⟩ := wires_read cfg parts i n hfsm
      simp [Node.accepted, hid, clientOf_transactionType cfg, hne]

/-- A read that is sent is accepted as the interconnect takes it. -/
theorem accepted_read (cfg : XcacheConfig p) (parts : Parts F C W) (i : Stimulus p) {k : ReadKind}
    (h : n.xc.cmdFsm = .read c k) :
    Node.accepted (n.wires cfg parts i) c =
      if i.cmdack then some (head (n.wires cfg parts i).cmdFlit) else none := by
  obtain ⟨hval, heop, hid, _⟩ := wires_read cfg parts i n h
  have hack : (n.wires cfg parts i).cmdack = i.cmdack := rfl
  simp [Node.accepted, VciSignals.cmdTransfer, hval, heop, hid, hack,
    clientOf_transactionType cfg]

/-- The commands of a client that wait after an edge. -/
theorem waitingOf_next (sig : VciSignals p) (net : Net p) (c : Client) :
    (net.next i sig).waitingOf c =
      (if i.rspval && net.current.isNone then (net.waitingOf c).erase i.txn
        else net.waitingOf c) ++
      if (Node.accepted sig c).isSome then [sig.cmdFlit] else [] := by
  have hleft : (if i.rspval && net.current.isNone then net.waiting.erase i.txn
      else net.waiting).filter (fun t => decide (Node.clientOf t.trdid = some c)) =
      if i.rspval && net.current.isNone then (net.waitingOf c).erase i.txn
        else net.waitingOf c := by
    split
    · exact (List.erase_filter ..).symm
    · rfl
  have hid : sig.cmdFlit.trdid = sig.trdid := rfl
  simp only [Net.next, Net.waitingOf, Node.accepted] at *
  rw [← hleft]
  by_cases hsend : (sig.cmdTransfer && sig.eop) = true
  · by_cases hclient : Node.clientOf sig.trdid = some c
    · simp [hsend, hclient, hid]
    · simp [hsend, hclient, hid]
  · simp [hsend]

/-- The command automaton leaves a client alone, or grants what it asks for. -/
theorem Edge.cmd_other (he : Edge cfg parts i n n' c out cmd rsp)
    (h : ∀ k, n.xc.cmdFsm ≠ .read c k) :
    (∀ k, cmd.grant ≠ some (c, k)) ∧ (∀ k, cmd.fsm ≠ .read c k) ∨
      ∃ k, (n.xc.side c).req k = true ∧ cmd.grant = some (c, k) ∧ cmd.fsm = .read c k := by
  cases he.grants with
  | write hfsm hnext hgrant =>
      left
      refine ⟨fun k hk => (by cases hgrant.symm.trans hk), fun k hk => ?_⟩
      rcases hnext with hnext | hnext <;> cases hnext.symm.trans hk
  | grant c' k' hfsm hreq hmiss hnext hgrant =>
      by_cases hc : c' = c
      · subst hc
        exact .inr ⟨k', hreq, hgrant, hnext⟩
      · left
        constructor
        · intro k hk
          cases hgrant.symm.trans hk
          exact hc rfl
        · intro k hk
          cases hnext.symm.trans hk
          exact hc rfl
  | send c' k' hfsm hnext hgrant =>
      left
      refine ⟨fun k hk => (by cases hgrant.symm.trans hk), fun k hk => ?_⟩
      have hc : c' ≠ c := fun hc => h k' (hc ▸ hfsm)
      rw [hnext] at hk
      split_ifs at hk
      cases hk
      exact hc rfl

theorem Edge.cmd_read {k : ReadKind} (he : Edge cfg parts i n n' c out cmd rsp)
    (h : n.xc.cmdFsm = .read c k) :
    cmd.grant = none ∧ cmd.fsm = if i.cmdack then .idle else .read c k := by
  cases he.grants with
  | write hfsm hnext hgrant =>
      rcases hfsm with hfsm | hfsm <;> cases hfsm.symm.trans h
  | grant c' k' hfsm hreq hmiss hnext hgrant => cases hfsm.symm.trans h
  | send c' k' hfsm hnext hgrant =>
      cases hfsm.symm.trans h
      exact ⟨hgrant, hnext⟩

/-- A packet on the wires belongs to the state of the response automaton. -/
theorem Linked.shown {contract : Contract p} (hl : Linked n) (hlegal : n.net.Legal contract i)
    (hval : i.rspval = true) (hfsm : n.xc.rspFsm ≠ .idle) :
    ∃ t fs, n.net.current = some (t, fs) ∧ n.xc.rspFsm = .ofTrdid t.trdid ∧
      i.flit.rtrdid = t.trdid ∧ contract t fs i.flit := by
  cases hnet : n.net.current with
  | none => exact absurd (hl.idle hnet) hfsm
  | some x =>
      obtain ⟨_, hid, hcontract⟩ := hlegal hval
      simp only [Net.shown, hnet, Option.getD_some] at hid hcontract
      exact ⟨x.1, x.2, rfl, (hl.current x.1 x.2 hnet).1, hid, hcontract⟩

theorem Linked.picked {contract : Contract p} (hl : Linked n) (hlegal : n.net.Legal contract i)
    (hval : i.rspval = true) (hfsm : n.xc.rspFsm = .idle) :
    n.net.current = none ∧ i.txn ∈ n.net.waiting ∧ i.flit.rtrdid = i.txn.trdid := by
  cases hnet : n.net.current with
  | none =>
      obtain ⟨hmem, hid, _⟩ := hlegal hval
      simp only [Net.shown, hnet, Option.getD_none] at hid
      exact ⟨rfl, hmem hnet, hid⟩
  | some x => exact absurd hfsm (hl.current x.1 x.2 hnet).2

/-- No flit is taken for a client the response automaton does not serve. -/
theorem Linked.taken_none (cfg : XcacheConfig p) (parts : Parts F C W) {contract : Contract p}
    (hl : Linked n)
    (hlegal : n.net.Legal contract i) (h : ∀ k, n.xc.rspFsm ≠ .read c k) :
    Node.taken (n.wires cfg parts i) c = none := by
  have hack := wires_rspack cfg parts i n
  have hval' : (n.wires cfg parts i).rspval = i.rspval := rfl
  have hid' : (n.wires cfg parts i).rtrdid = i.flit.rtrdid := rfl
  by_cases hval : i.rspval = true
  · by_cases hfsm : n.xc.rspFsm = .idle
    · simp [Node.taken, VciSignals.rspTransfer, hack, hfsm]
    · obtain ⟨t, fs, _, hstate, hid, _⟩ := hl.shown hlegal hval hfsm
      have hclient : Node.clientOf i.flit.rtrdid ≠ some c := by
        rw [hid, Node.clientOf, ← hstate]
        intro hc
        split at hc
        · rename_i k hk
          cases hc
          exact h _ hk
        · cases hc
      simp [Node.taken, hid', hclient]
  · simp [Node.taken, VciSignals.rspTransfer, hval', hval]

/-- A flit that is taken is the one on the wires. -/
theorem taken_flit {cfg : XcacheConfig p} {parts : Parts F C W} {f : RspFlit p}
    (h : Node.taken (n.wires cfg parts i) c = some f) : i.rspval = true ∧ f = i.flit := by
  unfold Node.taken at h
  split_ifs at h with hcond
  cases h
  exact ⟨(Bool.and_eq_true_iff.mp (Bool.and_eq_true_iff.mp hcond).1).1, rfl⟩

/-- What the response automaton does for a client whose response it does not take. -/
theorem rspTransition_other {wok : Client → Bool} {sig : VciSignals p} {fsm : RspFsm}
    {cpt : Nat} {wbuf : W} (hrsp : rspTransition cfg parts wok sig fsm cpt wbuf = .ok rsp)
    (h : ∀ k, fsm ≠ .read c k) :
    rsp.error ≠ some c ∧ (∀ d, rsp.put ≠ some (c, d)) ∧
      (∀ k, rsp.fsm = .read c k → sig.rspval = true ∧ fsm = .idle ∧
        RspFsm.ofTrdid sig.rtrdid = .read c k) := by
  cases hval : sig.rspval with
  | false =>
      simp only [rspTransition, hval] at hrsp
      cases hrsp
      exact ⟨(by simp), fun _ => (by simp), fun k hk => absurd hk (h k)⟩
  | true =>
      simp only [rspTransition, hval, if_true] at hrsp
      cases fsm with
      | idle =>
          cases hrsp
          exact ⟨(by simp), fun _ => (by simp), fun k hk => ⟨rfl, rfl, hk⟩⟩
      | dataWrite =>
          simp only at hrsp
          split_ifs at hrsp
          cases hrsp
          exact ⟨(by simp), fun _ => (by simp), fun k => (by simp)⟩
      | read c' k' =>
          have hc : c' ≠ c := fun hc => h k' (hc ▸ rfl)
          cases k' with
          | miss =>
              simp only at hrsp
              split_ifs at hrsp <;> cases hrsp <;> simp [hc]
          | unc =>
              simp only at hrsp
              split_ifs at hrsp <;> cases hrsp <;> simp [hc]

/-- The response automaton leaves a client it does not serve alone. -/
theorem Edge.rsp_other {contract : Contract p} (he : Edge cfg parts i n n' c out cmd rsp)
    (hl : Linked n) (hlegal : n.net.Legal contract i) (h : ∀ k, n.xc.rspFsm ≠ .read c k) :
    rsp.error ≠ some c ∧ (∀ d, rsp.put ≠ some (c, d)) ∧
      (∀ k, rsp.fsm = .read c k → i.rspval = true ∧ n.net.current = none ∧
        i.txn ∈ n.net.waiting ∧ RspFsm.ofTrdid i.txn.trdid = .read c k) := by
  obtain ⟨herror, hput, hnext⟩ := rspTransition_other he.answers h
  refine ⟨herror, hput, fun k hk => ?_⟩
  obtain ⟨hval, hidle, hid⟩ := hnext k hk
  obtain ⟨hnet, hmem, htrdid⟩ := hl.picked hlegal hval hidle
  refine ⟨hval, hnet, hmem, ?_⟩
  rw [← htrdid]
  exact hid

/-- A flit that keeps to a clean contract is taken without an assertion. -/
theorem rspTransition_read (cfg : XcacheConfig p) (parts : Parts F C W) (wok : Client → Bool)
    (sig : VciSignals p) {k : ReadKind} {cpt m : Nat} (wbuf : W) (hval : sig.rspval = true)
    (hwok : wok c = true)
    (hcpt : k = .miss → cpt = m) (hm : m < cfg.length c k)
    (hreop : sig.reop = true ↔ errorBit sig.rerror = true ∨ m + 1 = cfg.length c k) :
    ∃ cpt', (k = .miss → errorBit sig.rerror = false → cpt' = m + 1) ∧
      rspTransition cfg parts wok sig (.read c k) cpt wbuf =
        .ok ⟨if sig.reop then .idle else .read c k, cpt', wbuf,
          if errorBit sig.rerror then some c else none,
          if errorBit sig.rerror then none else some (c, sig.rdata.setWidth 32), false⟩ := by
  cases k with
  | miss =>
      obtain rfl := hcpt rfl
      simp only [XcacheConfig.length] at hm hreop
      cases herror : errorBit sig.rerror with
      | true => exact ⟨cpt, (by simp), by simp [rspTransition, hval, herror]⟩
      | false =>
          refine ⟨cpt + 1, fun _ _ => rfl, ?_⟩
          cases hlast : sig.reop with
          | true =>
              have hlen : cpt = cfg.words c - 1 := by
                have := hreop.mp hlast
                simp only [herror, Bool.false_eq_true, false_or] at this
                omega
              have hlt : cfg.words c - 1 < cfg.words c := hlen ▸ hm
              simp [rspTransition, hval, herror, hwok, hlast, hlen, hlt]
          | false => simp [rspTransition, hval, herror, hwok, hlast, hm]
  | unc =>
      have hlast : sig.reop = true := by
        simp only [XcacheConfig.length] at hm hreop
        exact hreop.mpr (.inr (by omega))
      refine ⟨cpt, (by simp), ?_⟩
      cases herror : errorBit sig.rerror with
      | true => simp [rspTransition, hval, herror, hlast]
      | false => simp [rspTransition, hval, herror, hwok, hlast]

/-! ## The cache automaton in a read -/

/-- With nothing to take, a read goes on. -/
theorem readTransition_quiet (words : Nat) (same : Bool) (f : ReadFsm) {side : Side F} (cache : C)
    (herror : side.error = false) (hrok : parts.fifo.rok side.fifo = false) :
    (∃ f', (readTransition parts words same f side cache).next = some f' ∧ f'.kind = f.kind ∧
        f' ≠ .missSelect ∧ (f ≠ .missSelect → f' = f.kind.wait)) ∧
      side.Same (readTransition parts words same f side cache).side ∧
      (readTransition parts words same f side cache).side.wordSave = side.wordSave ∧
      (readTransition parts words same f side cache).get = false ∧
      (readTransition parts words same f side cache).response = .none ∧
      (readTransition parts words same f side cache).effects = [] := by
  cases f with
  | missSelect =>
      refine ⟨?_, ⟨fun k => ?_, rfl, rfl⟩, rfl, rfl, rfl, rfl⟩
      · simp only [readTransition]
        split_ifs
        · exact ⟨.missInval, rfl, rfl, (by simp), fun h => absurd rfl h⟩
        · exact ⟨.missWait, rfl, rfl, (by simp), fun h => absurd rfl h⟩
      · cases k <;> rfl
  | missInval =>
      exact ⟨⟨.missWait, rfl, rfl, (by simp), fun _ => rfl⟩, ⟨fun _ => rfl, rfl, rfl⟩, rfl, rfl,
        rfl,
        rfl⟩
  | missWait =>
      simp only [readTransition, herror, hrok]
      exact ⟨⟨.missWait, rfl, rfl, (by simp), fun _ => rfl⟩, ⟨fun _ => rfl, rfl, rfl⟩, rfl, rfl,
        rfl,
        rfl⟩
  | uncWait =>
      simp only [readTransition, herror, hrok]
      exact ⟨⟨.uncWait, rfl, rfl, (by simp), fun _ => rfl⟩, ⟨fun _ => rfl, rfl, rfl⟩, rfl, rfl, rfl,
        rfl⟩

/-- An error ends a read. -/
theorem readTransition_error {words : Nat} {same : Bool} {k : ReadKind} {side : Side F} {cache : C}
    (herror : side.error = true) :
    readTransition parts words same k.wait side cache =
      { next := none
        side := { side with error := false }
        cache := cache
        get := false
        response := .bad
        effects := [.error] } := by
  cases k <;> simp [readTransition, ReadKind.wait, herror]

/-- With nothing to take, a read that waits goes on to wait. -/
theorem readTransition_wait (words : Nat) (same : Bool) (k : ReadKind) {side : Side F} (cache : C)
    (herror : side.error = false) (hrok : parts.fifo.rok side.fifo = false) :
    readTransition parts words same k.wait side cache =
      { next := some k.wait
        side := side
        cache := cache
        get := false
        response := .none
        effects := [] } := by
  cases k <;> simp [readTransition, ReadKind.wait, herror, hrok]

/-- A word in the middle of a line. -/
theorem readTransition_word {words : Nat} {same : Bool} {side : Side F} {cache : C}
    (herror : side.error = false) (hrok : parts.fifo.rok side.fifo = true)
    (hword : side.wordSave ≠ words - 1) :
    readTransition parts words same .missWait side cache =
      { next := some .missWait
        side := { side with wordSave := side.wordSave + 1 }
        cache := parts.cache.write side.waySave side.setSave side.wordSave
          (parts.fifo.read side.fifo) 0xF cache
        get := true
        response := .none
        effects :=
          [.write side.waySave side.setSave side.wordSave (parts.fifo.read side.fifo)] } := by
  simp [readTransition, herror, hrok, hword]

/-- The last word of a line ends a read. -/
theorem readTransition_last {words : Nat} {same : Bool} {side : Side F} {cache : C}
    (herror : side.error = false) (hrok : parts.fifo.rok side.fifo = true)
    (hword : side.wordSave = words - 1) :
    readTransition parts words same .missWait side cache =
      { next := none
        side := { side with wordSave := side.wordSave + 1 }
        cache := parts.cache.victimUpdateTag side.addrSave side.waySave side.setSave
          (parts.cache.write side.waySave side.setSave side.wordSave
            (parts.fifo.read side.fifo) 0xF cache)
        get := true
        response := .none
        effects :=
          [.write side.waySave side.setSave side.wordSave (parts.fifo.read side.fifo),
            .validate side.addrSave side.waySave side.setSave] } := by
  simp [readTransition, herror, hrok, hword]

/-- A word ends an uncached read. -/
theorem readTransition_value {words : Nat} {same : Bool} {side : Side F} {cache : C}
    (herror : side.error = false) (hrok : parts.fifo.rok side.fifo = true) :
    readTransition parts words same .uncWait side cache =
      { next := none
        side := side
        cache := cache
        get := true
        response := if same then .ok (parts.fifo.read side.fifo) else .none
        effects := [.value (parts.fifo.read side.fifo)] } := by
  simp [readTransition, herror, hrok]

/-! ## The registers after an edge -/

theorem Edge.req (he : Edge cfg parts i n n' c out cmd rsp) (k : ReadKind) :
    (n'.xc.side c).req k = if cmd.grant = some (c, k) then false else out.side.req k := by
  rw [he.side]
  cases k <;> rfl

theorem Edge.error (he : Edge cfg parts i n n' c out cmd rsp) :
    (n'.xc.side c).error = if rsp.error = some c then true else out.side.error := by
  rw [he.side]
  rfl

theorem Edge.slot (he : Edge cfg parts i n n' c out cmd rsp) :
    (n'.xc.side c).waySave = out.side.waySave ∧ (n'.xc.side c).setSave = out.side.setSave ∧
      (n'.xc.side c).wordSave = out.side.wordSave := by
  rw [he.side]
  exact ⟨rfl, rfl, rfl⟩

/-- The FIFO after a cycle that puts nothing. -/
theorem Edge.fifo_none {contents : F → List Word} (hfifo : FifoLaws parts.fifo contents)
    (he : Edge cfg parts i n n' c out cmd rsp) (hput : ∀ d, rsp.put ≠ some (c, d))
    (hget : out.get = true → contents out.side.fifo ≠ []) :
    contents (n'.xc.side c).fifo =
      if out.get then (contents out.side.fifo).tail else contents out.side.fifo := by
  have hword : (rsp.put.bind fun w => if w.1 = c then some w.2 else none) = none := by
    cases hp : rsp.put with
    | none => rfl
    | some w =>
        have hne : w.1 ≠ c := fun hc => hput w.2 (by rw [hp, ← hc])
        simp [hne]
  rw [he.side]
  simp only [Side.finish, hword, Option.isSome_none]
  rw [hfifo.update out.side.fifo out.get false _ hget (by simp)]
  simp

/-- The FIFO after a cycle that puts a word. -/
theorem Edge.fifo_some {contents : F → List Word} (hfifo : FifoLaws parts.fifo contents)
    (he : Edge cfg parts i n n' c out cmd rsp) {d : Word} (hput : rsp.put = some (c, d))
    (hget : out.get = true → contents out.side.fifo ≠ [])
    (hlength : (contents out.side.fifo).length < 2) :
    contents (n'.xc.side c).fifo =
      (if out.get then (contents out.side.fifo).tail else contents out.side.fifo) ++ [d] := by
  rw [he.side]
  simp only [Side.finish, hput, Option.bind_some, if_true, Option.isSome_some, Option.getD_some]
  rw [hfifo.update out.side.fifo out.get true _ hget fun _ => hlength]
  simp

end Parties

end SmcTp.Xcache
