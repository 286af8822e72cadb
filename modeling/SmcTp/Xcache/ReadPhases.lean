import SmcTp.Xcache.ReadChannel

/-!
# An edge moves a read on

One lemma for each place of a read: which places an edge may take it to.  They are put
together in `Inv.next`.
-/

namespace SmcTp.Xcache

open Vci

variable {p : VciParams} {F C W : Type}
variable {cfg : XcacheConfig p} {parts : Parts F C W} {contents : F → List Word}
  {contract : Contract p} {i : Stimulus p} {n n' : Node p F C W} {c : Client}
  {out : ClientOut F C} {cmd : CmdOut W} {rsp : RspOut W}

/-- An edge in a state whose parties fit together. -/
structure Cycle (cfg : XcacheConfig p) (parts : Parts F C W) (contents : F → List Word)
    (contract : Contract p) (i : Stimulus p) (n n' : Node p F C W) (c : Client)
    (out : ClientOut F C) (cmd : CmdOut W) (rsp : RspOut W) : Prop
    extends Edge cfg parts i n n' c out cmd rsp where
  fifo : FifoLaws parts.fifo contents
  index : ∀ w, parts.wbuf.getIndex w < cfg.wbufNlines
  linked : Linked n
  clean : contract.Clean cfg
  legal : n.net.Legal contract i

/-! ## Clients that are left alone -/

theorem Bus.away {r : Option ReadKind} {ts : List (CmdFlit p)}
    (hreq : ∀ k, (n.xc.side c).req k = true ↔ r = some k) (hcmd : ∀ k, n.xc.cmdFsm ≠ .read c k)
    (hwait : n.net.waitingOf c = ts) (hrsp : ∀ k, n.xc.rspFsm ≠ .read c k) :
    Bus n c r none ts none where
  req := hreq
  cmd k := ⟨fun h => absurd h (hcmd k), (by simp)⟩
  waiting := hwait
  rsp k := ⟨fun h => absurd h (hrsp k), (by simp)⟩

theorem Bus.cmd_ne {r : Option ReadKind} {ts : List (CmdFlit p)} {s : Option ReadKind}
    (h : Bus n c r none ts s) (k : ReadKind) : n.xc.cmdFsm ≠ .read c k :=
  fun hk => by cases (h.cmd k).mp hk

theorem Bus.rsp_ne {r s : Option ReadKind} {ts : List (CmdFlit p)} (h : Bus n c r s ts none)
    (k : ReadKind) : n.xc.rspFsm ≠ .read c k :=
  fun hk => by cases (h.rsp k).mp hk

/-- A client that serves no read is left alone. -/
theorem Channel.at_rest (hc : Channel cfg contents c n) (hfsm : n.xc.readFsm c = none) :
    Bus n c none none [] none ∧ Buffer contents (n.xc.side c) false [] ∧
      (n.log c).current = .blank := by
  cases hc with
  | rest _ hbus hbuf hlog => exact ⟨hbus, hbuf, hlog⟩
  | raised _ _ hf => cases hfsm.symm.trans hf
  | sending _ _ hf => cases hfsm.symm.trans hf
  | waiting _ _ hf => cases hfsm.symm.trans hf
  | receiving _ _ _ hf => cases hfsm.symm.trans hf
  | drained _ _ _ hf => cases hfsm.symm.trans hf
  | failed _ _ _ hf => cases hfsm.symm.trans hf

/-- The command on the wires is that of the read that is served. -/
theorem Channel.of_sending (hc : Channel cfg contents c n) {k : ReadKind}
    (hk : n.xc.cmdFsm = .read c k) :
    ∃ f, n.xc.readFsm c = some f ∧ f.kind = k ∧ Bus n c none (some k) [] none ∧
      Reading n c k [] [] [] := by
  cases hc with
  | sending k' f hfsm hkind _ hbus _ hread =>
      obtain rfl : k' = k := Option.some.inj ((hbus.cmd k).mp hk)
      exact ⟨f, hfsm, hkind, hbus, hread⟩
  | rest _ hbus => exact absurd hk (hbus.cmd_ne k)
  | raised _ _ _ _ hbus => exact absurd hk (hbus.cmd_ne k)
  | waiting _ _ _ hbus => exact absurd hk (hbus.cmd_ne k)
  | receiving _ _ _ _ hbus => exact absurd hk (hbus.cmd_ne k)
  | drained _ _ _ _ hbus => exact absurd hk (hbus.cmd_ne k)
  | failed _ _ _ _ hbus => exact absurd hk (hbus.cmd_ne k)

namespace Cycle

/-- No response comes to a client that waits for none. -/
theorem rsp_away (h : Cycle cfg parts contents contract i n n' c out cmd rsp)
    (hwait : n.net.waitingOf c = []) (hrsp : ∀ k, n.xc.rspFsm ≠ .read c k) :
    (∀ k, n'.xc.rspFsm ≠ .read c k) ∧ rsp.error ≠ some c ∧ (∀ d, rsp.put ≠ some (c, d)) := by
  obtain ⟨herror, hput, hnext⟩ := h.toEdge.rsp_other h.linked h.legal hrsp
  refine ⟨fun k hk => ?_, herror, hput⟩
  obtain ⟨_, _, hmem, hid⟩ := hnext k (h.rspFsm ▸ hk)
  have : i.txn ∈ n.net.waitingOf c :=
    List.mem_filter.mpr ⟨hmem, by simp [Node.clientOf, hid]⟩
  rw [hwait] at this
  cases this

theorem waiting_away (h : Cycle cfg parts contents contract i n n' c out cmd rsp)
    (hwait : n.net.waitingOf c = []) :
    n'.net.waitingOf c =
      if (Node.accepted (n.wires cfg parts i) c).isSome then [(n.wires cfg parts i).cmdFlit]
      else [] := by
  rw [h.net, waitingOf_next, hwait]
  simp

/-- No grant goes to a client that asks for none. -/
theorem cmd_away (h : Cycle cfg parts contents contract i n n' c out cmd rsp)
    (hreq : ∀ k, (n.xc.side c).req k = true ↔ none = some k)
    (hcmd : ∀ k, n.xc.cmdFsm ≠ .read c k) :
    (∀ k, cmd.grant ≠ some (c, k)) ∧ (∀ k, n'.xc.cmdFsm ≠ .read c k) := by
  rcases h.toEdge.cmd_other hcmd with ⟨hgrant, hnext⟩ | ⟨k, hk, _, _⟩
  · exact ⟨hgrant, fun k hk => hnext k (h.cmdFsm ▸ hk)⟩
  · cases (hreq k).mp hk

/-- The registers of a client whose parties leave it alone. -/
theorem req_away (h : Cycle cfg parts contents contract i n n' c out cmd rsp)
    (hgrant : ∀ k, cmd.grant ≠ some (c, k)) (k : ReadKind) :
    (n'.xc.side c).req k = out.side.req k := by
  rw [h.req, if_neg (hgrant k)]

theorem buffer_away (h : Cycle cfg parts contents contract i n n' c out cmd rsp)
    (herror : rsp.error ≠ some c) (hput : ∀ d, rsp.put ≠ some (c, d)) (hget : out.get = false)
    {error : Bool} {words : List Word} (hbuf : Buffer contents out.side error words) :
    Buffer contents (n'.xc.side c) error words where
  error := by rw [h.error, if_neg herror, hbuf.error]
  fifo := by
    rw [h.toEdge.fifo_none h.fifo hput (by simp [hget]), hget]
    exact hbuf.fifo

/-- A client that waits for nothing and is left alone. -/
theorem bus_away (h : Cycle cfg parts contents contract i n n' c out cmd rsp)
    {r : Option ReadKind} (hbus : Bus n c none none [] none)
    (hreq : ∀ k, out.side.req k = true ↔ r = some k) :
    Bus n' c r none [] none ∧ Node.accepted (n.wires cfg parts i) c = none ∧
      Node.taken (n.wires cfg parts i) c = none ∧ rsp.error ≠ some c ∧
      (∀ d, rsp.put ≠ some (c, d)) := by
  obtain ⟨hgrant, hcmd⟩ := h.cmd_away hbus.req hbus.cmd_ne
  obtain ⟨hrsp, herror, hput⟩ := h.rsp_away hbus.waiting hbus.rsp_ne
  have hnone := accepted_none (i := i) h.index hbus.cmd_ne
  refine ⟨.away (fun k => ?_) hcmd ?_ hrsp, hnone, h.linked.taken_none _ _ h.legal hbus.rsp_ne,
    herror, hput⟩
  · rw [h.req_away hgrant]
    exact hreq k
  · rw [h.waiting_away hbus.waiting, hnone]
    rfl

/-! ## Place by place -/

theorem rest (h : Cycle cfg parts contents contract i n n' c out cmd rsp)
    (hfsm : n.xc.readFsm c = none) (hbus : Bus n c none none [] none)
    (hbuf : Buffer contents (n.xc.side c) false []) (hlog : (n.log c).current = .blank) :
    Channel cfg contents c n' := by
  have hcurrent := congrArg Log.current h.log
  simp only [hfsm, Option.isSome_none, Bool.false_and, Log.next, hlog] at hcurrent
  cases h.serves with
  | rest _ hnext hsame hget hraised heffects _ =>
      obtain ⟨hbus', hacc, htaken, herror, hput⟩ := h.bus_away (r := none) hbus fun k => by
        rw [hsame.req]
        exact hbus.req k
      refine .rest (h.readFsm.trans hnext) hbus' (h.buffer_away herror hput hget ?_) ?_
      · exact ⟨hsame.error.trans hbuf.error, by rw [hsame.fifo, hbuf.fifo]⟩
      · rw [hcurrent, hacc, htaken, hraised, heffects]
        rfl
  | raise k _ hnext hsaved hplain hreq hword _ herror' hfifo hget hraised heffects _ =>
      obtain ⟨hbus', hacc, htaken, herror, hput⟩ := h.bus_away (r := some k) hbus fun k' => by
        have hnot : (n.xc.side c).req k' = false :=
          Bool.eq_false_iff.mpr fun hk => by cases (hbus.req k').mp hk
        rw [hreq, hnot]
        simp [eq_comm]
      refine .raised k k.start (h.readFsm.trans hnext) ?_ hbus'
        (h.buffer_away herror hput hget ?_) ⟨?_, ?_⟩ fun hk => ?_
      · cases k <;> rfl
      · exact ⟨herror'.trans hbuf.error, by rw [hfifo, hbuf.fifo]⟩
      · rw [h.saved, hsaved]
        exact hplain
      · rw [hcurrent, hacc, htaken, hraised, heffects, h.saved, hsaved]
        rfl
      · rw [h.slot.2.2]
        exact hword hk
  | read f hf => cases hfsm.symm.trans hf

/-- The automaton of a read that finds nothing. -/
theorem quiet (h : Cycle cfg parts contents contract i n n' c out cmd rsp) {f : ReadFsm}
    (hfsm : n.xc.readFsm c = some f) (hbuf : Buffer contents (n.xc.side c) false []) :
    (∃ f', out.fsm = some f' ∧ f'.kind = f.kind ∧ f' ≠ .missSelect ∧
        (f ≠ .missSelect → f' = f.kind.wait)) ∧
      (n.xc.side c).Same out.side ∧ out.side.wordSave = (n.xc.side c).wordSave ∧
      out.get = false ∧ out.effects = [] ∧ out.raised = none ∧ out.saved = n.xc.saved c ∧
      out.response = .none := by
  have hrok : parts.fifo.rok (n.xc.side c).fifo = false := h.fifo.rok_of_nil hbuf.fifo
  have hread := h.serves.of_read hfsm
  obtain ⟨hnext', hsame, hword, hget', hresponse', heffects'⟩ :=
    readTransition_quiet (cfg.words c) _ f _ hbuf.error hrok
  rw [← hread.next] at hnext'
  rw [← hread.side] at hsame hword
  exact ⟨hnext', hsame, hword, hread.get.trans hget', hread.effects.trans heffects', hread.raised,
    hread.saved, hread.response.trans hresponse'⟩

/-- The record of a read that goes on. -/
theorem current_next (h : Cycle cfg parts contents contract i n n' c out cmd rsp) {f : ReadFsm}
    (hnext : out.fsm = some f) (hraised : out.raised = none) (hresponse : out.response = .none) :
    (n'.log c).current = (n.log c).current.note none (Node.accepted (n.wires cfg parts i) c)
      (Node.taken (n.wires cfg parts i) c) out.effects [] := by
  rw [h.log, hnext, hraised, hresponse]
  simp [Log.next]

theorem raised (h : Cycle cfg parts contents contract i n n' c out cmd rsp) {k : ReadKind}
    {f : ReadFsm} (hfsm : n.xc.readFsm c = some f) (hkind : f.kind = k)
    (hbus : Bus n c (some k) none [] none) (hbuf : Buffer contents (n.xc.side c) false [])
    (hread : Reading n c k [] [] []) (hword : k = .miss → (n.xc.side c).wordSave = 0) :
    Channel cfg contents c n' := by
  obtain ⟨⟨f', hnext, hkind', hselect, _⟩, hsame, hword', hget, heffects, hraised, hsaved,
    hresponse⟩ :=
    h.quiet hfsm hbuf
  obtain ⟨hrsp, herror, hput⟩ := h.rsp_away hbus.waiting hbus.rsp_ne
  have hacc := accepted_none (i := i) h.index hbus.cmd_ne
  have htaken := h.linked.taken_none cfg parts h.legal hbus.rsp_ne
  have hwait : n'.net.waitingOf c = [] := by
    rw [h.waiting_away hbus.waiting, hacc]
    rfl
  have hbuf' : Buffer contents (n'.xc.side c) false [] :=
    h.buffer_away herror hput hget
      ⟨hsame.error.trans hbuf.error, by rw [hsame.fifo, hbuf.fifo]⟩
  have hread' : Reading n' c k [] [] [] := by
    constructor
    · rw [h.saved, hsaved]
      exact hread.plain
    · rw [h.current_next hnext hraised hresponse, hacc, htaken, heffects, hread.record, h.saved,
        hsaved]
      rfl
  have hslot : k = .miss → (n'.xc.side c).wordSave = 0 := fun hk => by
    rw [h.slot.2.2, hword', hword hk]
  rcases h.toEdge.cmd_other hbus.cmd_ne with ⟨hgrant, hcmd⟩ | ⟨k', hk', hgrant, hcmd⟩
  · refine .raised k f' (h.readFsm.trans hnext) (hkind'.trans hkind) (.away (fun k' => ?_) ?_ hwait
      hrsp) hbuf' hread' hslot
    · rw [h.req_away hgrant, hsame.req]
      exact hbus.req k'
    · intro k' hk'
      exact hcmd k' (h.cmdFsm ▸ hk')
  · cases (hbus.req k').mp hk'
    refine .sending k f' (h.readFsm.trans hnext) (hkind'.trans hkind) hselect
      ⟨fun k' => ?_, fun k' => ?_, hwait, fun k' => ⟨fun hk' => absurd hk' (hrsp k'), (by simp)⟩⟩
      hbuf' hread' hslot
    · rw [h.req, hgrant, hsame.req]
      constructor
      · intro hk'
        split_ifs at hk' with heq
        cases (hbus.req k').mp hk'
        exact absurd rfl heq
      · simp
    · rw [h.cmdFsm, hcmd]
      simp

theorem sending (h : Cycle cfg parts contents contract i n n' c out cmd rsp) {k : ReadKind}
    {f : ReadFsm} (hfsm : n.xc.readFsm c = some f) (hkind : f.kind = k) (hselect : f ≠ .missSelect)
    (hbus : Bus n c none (some k) [] none) (hbuf : Buffer contents (n.xc.side c) false [])
    (hread : Reading n c k [] [] []) (hword : k = .miss → (n.xc.side c).wordSave = 0) :
    Channel cfg contents c n' := by
  obtain ⟨⟨f', hnext, hkind', hselect', hwait'⟩, hsame, hword', hget, heffects, hraised, hsaved,
    hresponse⟩ :=
    h.quiet hfsm hbuf
  obtain ⟨hrsp, herror, hput⟩ := h.rsp_away hbus.waiting hbus.rsp_ne
  have htaken := h.linked.taken_none cfg parts h.legal hbus.rsp_ne
  have hsend : n.xc.cmdFsm = .read c k := (hbus.cmd k).mpr rfl
  obtain ⟨hgrant, hcmd⟩ := h.toEdge.cmd_read hsend
  obtain ⟨_, _, _, hhead⟩ := wires_read cfg parts i n hsend
  have hacc := accepted_read cfg parts i hsend
  have hbuf' : Buffer contents (n'.xc.side c) false [] :=
    h.buffer_away herror hput hget
      ⟨hsame.error.trans hbuf.error, by rw [hsame.fifo, hbuf.fifo]⟩
  have hslot : k = .miss → (n'.xc.side c).wordSave = 0 := fun hk => by
    rw [h.slot.2.2, hword', hword hk]
  have hreq : ∀ k', (n'.xc.side c).req k' = true ↔ none = some k' := fun k' => by
    rw [h.req_away (by simp [hgrant]), hsame.req]
    exact hbus.req k'
  have hplain : (n'.xc.saved c).type.plain = true := by
    rw [h.saved, hsaved]
    exact hread.plain
  cases hack : i.cmdack with
  | false =>
      simp only [hack, Bool.false_eq_true, if_false] at hcmd hacc
      refine .sending k f' (h.readFsm.trans hnext) (hkind'.trans hkind) hselect'
        ⟨hreq, fun k' => ?_, ?_, fun k' => ⟨fun hk' => absurd hk' (hrsp k'), (by simp)⟩⟩ hbuf'
        ⟨hplain, ?_⟩ hslot
      · rw [h.cmdFsm, hcmd]
        simp
      · rw [h.waiting_away hbus.waiting, hacc]
        rfl
      · rw [h.current_next hnext hraised hresponse, hacc, htaken, heffects, hread.record, h.saved,
        hsaved]
        rfl
  | true =>
      simp only [hack, if_true] at hcmd hacc
      refine .waiting k (n.wires cfg parts i).cmdFlit (h.readFsm.trans ?_)
        (.away hreq (fun k' hk' => ?_) ?_ hrsp) ?_ hbuf' ⟨hplain, ?_⟩ hslot
      · rw [hnext, hwait' hselect, hkind]
      · cases (h.cmdFsm.trans hcmd).symm.trans hk'
      · rw [h.waiting_away hbus.waiting, hacc]
        rfl
      · rw [h.saved, hsaved]
        exact hhead hread.plain
      · rw [h.current_next hnext hraised hresponse, hacc, htaken, heffects, hread.record, h.saved,
          hsaved, hhead hread.plain]
        rfl

/-- The automaton of a read that waits finds nothing. -/
theorem quiet_wait (h : Cycle cfg parts contents contract i n n' c out cmd rsp) {k : ReadKind}
    (hfsm : n.xc.readFsm c = some k.wait) (hbuf : Buffer contents (n.xc.side c) false []) :
    out.fsm = some k.wait ∧ out.side = n.xc.side c ∧ out.get = false ∧ out.effects = [] ∧
      out.raised = none ∧ out.saved = n.xc.saved c ∧ out.response = .none := by
  have hrok : parts.fifo.rok (n.xc.side c).fifo = false := h.fifo.rok_of_nil hbuf.fifo
  have hread := h.serves.of_read hfsm
  rw [readTransition_wait _ _ _ _ hbuf.error hrok] at hread
  exact ⟨hread.next, hread.side, hread.get, hread.effects, hread.raised, hread.saved,
    hread.response⟩

/-- The kind of a read is told by the identifier of its command. -/
theorem kind_of_head {k k' : ReadKind} {a : Access} {t : CmdFlit p}
    (hhead : head t = a.head cfg c k)
    (hid : RspFsm.ofTrdid t.trdid = .read c k') : k' = k := by
  have htrdid : t.trdid = BitVec.ofNat p.T (transactionType c k) := by
    cases k <;> exact congrArg Head.trdid hhead
  rw [htrdid, ofTrdid_transactionType cfg] at hid
  cases hid
  rfl

theorem class_of_head {k : ReadKind} {a : Access} {t : CmdFlit p}
    (hhead : head t = a.head cfg c k) :
    RspFsm.ofTrdid t.trdid = .read c k := by
  have htrdid : t.trdid = BitVec.ofNat p.T (transactionType c k) := by
    cases k <;> exact congrArg Head.trdid hhead
  rw [htrdid, ofTrdid_transactionType cfg]

theorem waiting (h : Cycle cfg parts contents contract i n n' c out cmd rsp) {k : ReadKind}
    {t : CmdFlit p} (hfsm : n.xc.readFsm c = some k.wait) (hbus : Bus n c none none [t] none)
    (hhead : head t = (n.xc.saved c).head cfg c k)
    (hbuf : Buffer contents (n.xc.side c) false [])
    (hread : Reading n c k [(n.xc.saved c).head cfg c k] [] [])
    (hword : k = .miss → (n.xc.side c).wordSave = 0) : Channel cfg contents c n' := by
  obtain ⟨hnext, hside, hget, heffects, hraised, hsaved, hresponse⟩ := h.quiet_wait hfsm hbuf
  obtain ⟨hgrant, hcmd⟩ := h.cmd_away hbus.req hbus.cmd_ne
  obtain ⟨herror, hput, hpick⟩ := h.toEdge.rsp_other h.linked h.legal hbus.rsp_ne
  have hacc := accepted_none (i := i) h.index hbus.cmd_ne
  have htaken := h.linked.taken_none cfg parts h.legal hbus.rsp_ne
  have hclass := class_of_head hhead
  have hreq : ∀ k', (n'.xc.side c).req k' = true ↔ none = some k' := fun k' => by
    rw [h.req_away hgrant, hside]
    exact hbus.req k'
  have hbuf' : Buffer contents (n'.xc.side c) false [] :=
    h.buffer_away herror hput hget (by rw [hside]; exact hbuf)
  have hslot : k = .miss → (n'.xc.side c).wordSave = 0 := fun hk => by
    rw [h.slot.2.2, hside, hword hk]
  have hread' : Reading n' c k [(n'.xc.saved c).head cfg c k] [] [] := by
    constructor
    · rw [h.saved, hsaved]
      exact hread.plain
    · rw [h.current_next hnext hraised hresponse, hacc, htaken, heffects, hread.record, h.saved,
        hsaved]
      rfl
  have hhead' : head t = (n'.xc.saved c).head cfg c k := by
    rw [h.saved, hsaved]
    exact hhead
  have hleft : n'.net.waitingOf c =
      if i.rspval && n.net.current.isNone then [t].erase i.txn else [t] := by
    rw [h.net, waitingOf_next, hacc, hbus.waiting]
    simp
  by_cases hrsp : ∃ k', rsp.fsm = .read c k'
  · -- the response begins
    obtain ⟨k', hk'⟩ := hrsp
    obtain ⟨hval, hnone, hmem, hid⟩ := hpick k' hk'
    have hmem' : i.txn ∈ n.net.waitingOf c :=
      List.mem_filter.mpr ⟨hmem, by simp [Node.clientOf, hid]⟩
    rw [hbus.waiting, List.mem_singleton] at hmem'
    rw [hmem'] at hid
    obtain rfl := kind_of_head hhead hid
    have hidle : n.xc.rspFsm = .idle := h.linked.idle hnone
    have hack : (n.wires cfg parts i).rspack = false := by
      rw [wires_rspack, hidle]
      rfl
    have hnet : n'.net.current = some (t, []) := by
      rw [h.net]
      simp [Net.next, hval, hack, Net.shown, hnone, hmem']
    have hcpt : rsp.cpt = 0 := by
      have hans := h.answers
      have hval' : (n.wires cfg parts i).rspval = true := hval
      rw [hidle] at hans
      simp only [rspTransition, hval', if_true] at hans
      cases hans
      rfl
    refine .receiving k' t [] (h.readFsm.trans hnext)
      ⟨hreq, fun k => ⟨fun hk => absurd hk (hcmd k), (by simp)⟩, ?_, fun k => ?_⟩ hnet hhead'
      (by simp) ?_ (fun _ => h.rspCpt.trans hcpt) (fun hk => Nat.le_of_eq (hslot hk)) (by simp)
      (by simpa using hbuf') (by simpa using hread')
    · rw [hleft, hval, hnone, hmem']
      simp
    · rw [h.rspFsm, hk']
      simp
    · cases k' with
      | miss => exact cfg.words_pos c
      | unc => exact Nat.one_pos
  · refine .waiting k t (h.readFsm.trans hnext) (.away hreq hcmd ?_ fun k' hk' => hrsp
      ⟨k', h.rspFsm ▸ hk'⟩) hhead' hbuf' hread' hslot
    rw [hleft]
    split_ifs with hcond
    · obtain ⟨hval, hnone⟩ := Bool.and_eq_true_iff.mp hcond
      have hne : i.txn ≠ t := by
        rintro rfl
        have hnone' : n.net.current = none := Option.isNone_iff_eq_none.mp hnone
        have hidle : n.xc.rspFsm = .idle := h.linked.idle hnone'
        have hans := h.answers
        have hval' : (n.wires cfg parts i).rspval = true := hval
        have hid' : (n.wires cfg parts i).rtrdid = i.txn.trdid :=
          (h.linked.picked h.legal hval hidle).2.2
        rw [hidle] at hans
        simp only [rspTransition, hval', if_true, hid', hclass] at hans
        cases hans
        exact hrsp ⟨k, rfl⟩
      exact List.erase_of_not_mem (by simpa using hne)
    · rfl

/-- A cache automaton that receives a line takes the word that came last. -/
theorem take (h : Cycle cfg parts contents contract i n n' c out cmd rsp) {k : ReadKind}
    {fs : List (RspFlit p)} (hfsm : n.xc.readFsm c = some k.wait)
    (hlength : fs.length < cfg.length c k)
    (hword : k = .miss → (n.xc.side c).wordSave ≤ fs.length)
    (hfifo : fs.length ≤ (n.xc.side c).wordSave + 1)
    (hbuf : Buffer contents (n.xc.side c) false ((fs.drop (n.xc.side c).wordSave).map wordOf)) :
    out.fsm = some k.wait ∧ (n.xc.side c).Same out.side ∧
      out.side.waySave = (n.xc.side c).waySave ∧ out.side.setSave = (n.xc.side c).setSave ∧
      (k = .miss → out.side.wordSave = fs.length) ∧
      (k = .unc → out.side.wordSave = (n.xc.side c).wordSave) ∧
      (out.get = true → contents out.side.fifo ≠ []) ∧
      (contents out.side.fifo).length < 2 ∧
      (if out.get then (contents out.side.fifo).tail else contents out.side.fifo) = [] ∧
      writes (n.xc.side c).waySave (n.xc.side c).setSave (fs.take (n.xc.side c).wordSave) ++
          out.effects = writes (n.xc.side c).waySave (n.xc.side c).setSave fs ∧
      out.raised = none ∧ out.saved = n.xc.saved c ∧ out.response = .none := by
  by_cases hall : fs.length ≤ (n.xc.side c).wordSave
  · have hdrop : fs.drop (n.xc.side c).wordSave = [] := List.drop_eq_nil_of_le hall
    rw [hdrop] at hbuf
    obtain ⟨hnext, hside, hget, heffects, hraised, hsaved, hresponse⟩ := h.quiet_wait hfsm hbuf
    rw [hside]
    refine ⟨hnext, ⟨fun _ => rfl, rfl, rfl⟩, rfl, rfl, fun hk => Nat.le_antisymm (hword hk) hall,
      fun _ => rfl, by simp [hget], ?_, ?_, ?_, hraised, hsaved, hresponse⟩
    · simp [hbuf.fifo]
    · simp [hbuf.fifo]
    · rw [List.take_of_length_le hall, heffects, List.append_nil]
  · -- one word is there, and it is not the last of the line
    have hk : k = .miss := by
      cases k with
      | miss => rfl
      | unc =>
          simp only [XcacheConfig.length] at hlength
          omega
    subst hk
    have hlt : (n.xc.side c).wordSave < fs.length := Nat.lt_of_not_le hall
    have hdrop : fs.drop (n.xc.side c).wordSave = [fs.get ⟨_, hlt⟩] := by
      rw [List.drop_eq_getElem_cons hlt, List.drop_eq_nil_of_le (by omega)]
      rfl
    have htake : fs = fs.take (n.xc.side c).wordSave ++ [fs.get ⟨_, hlt⟩] := by
      rw [← hdrop, List.take_append_drop]
    rw [hdrop] at hbuf
    have hrok : parts.fifo.rok (n.xc.side c).fifo = true := h.fifo.rok_of_cons hbuf.fifo
    have hread : parts.fifo.read (n.xc.side c).fifo = wordOf (fs.get ⟨_, hlt⟩) :=
      h.fifo.read _ _ _ hbuf.fifo
    have hlast : (n.xc.side c).wordSave ≠ cfg.words c - 1 := by
      simp only [XcacheConfig.length] at hlength
      omega
    have hserves := h.serves.of_read hfsm
    simp only [ReadKind.wait] at hserves
    rw [readTransition_word hbuf.error hrok hlast] at hserves
    rw [hserves.next, hserves.side, hserves.get, hserves.effects, hread]
    refine ⟨rfl, ⟨fun k => ?_, rfl, rfl⟩, rfl, rfl, fun _ => ?_, (by simp), ?_, ?_, ?_, ?_,
      hserves.raised, hserves.saved, hserves.response⟩
    · cases k <;> rfl
    · show (n.xc.side c).wordSave + 1 = fs.length
      omega
    · simp [hbuf.fifo]
    · simp [hbuf.fifo]
    · simp [hbuf.fifo]
    · have hlen : (fs.take (n.xc.side c).wordSave).length = (n.xc.side c).wordSave := by
        rw [List.length_take]
        omega
      conv_rhs => rw [htake]
      rw [writes_concat, hlen]

theorem receiving (h : Cycle cfg parts contents contract i n n' c out cmd rsp) {k : ReadKind}
    {t : CmdFlit p} {fs : List (RspFlit p)} (hfsm : n.xc.readFsm c = some k.wait)
    (hbus : Bus n c none none [] (some k)) (hnet : n.net.current = some (t, fs))
    (hhead : head t = (n.xc.saved c).head cfg c k) (hgood : ∀ f ∈ fs, Good t.trdid f)
    (hlength : fs.length < cfg.length c k) (hcpt : k = .miss → n.xc.rspCpt = fs.length)
    (hword : k = .miss → (n.xc.side c).wordSave ≤ fs.length)
    (hfifo : fs.length ≤ (n.xc.side c).wordSave + 1)
    (hbuf : Buffer contents (n.xc.side c) false ((fs.drop (n.xc.side c).wordSave).map wordOf))
    (hread : Reading n c k [(n.xc.saved c).head cfg c k] fs
      (writes (n.xc.side c).waySave (n.xc.side c).setSave (fs.take (n.xc.side c).wordSave))) :
    Channel cfg contents c n' := by
  obtain ⟨hnext, hsame, hway, hset, hwordm, hwordu, hget, hroom, htaken, heffects, hraised, hsaved,
    hresponse⟩ := h.take hfsm hlength hword hfifo hbuf
  obtain ⟨hgrant, hcmd⟩ := h.cmd_away hbus.req hbus.cmd_ne
  have hacc := accepted_none (i := i) h.index hbus.cmd_ne
  have hstate : n.xc.rspFsm = .read c k := (hbus.rsp k).mpr rfl
  have hclass := class_of_head hhead
  have hrspack : (n.wires cfg parts i).rspack = true := by
    rw [wires_rspack, hstate]
    rfl
  have hreq : ∀ k', (n'.xc.side c).req k' = true ↔ none = some k' := fun k' => by
    rw [h.req_away hgrant, hsame.req]
    exact hbus.req k'
  have hwait : n'.net.waitingOf c = [] := by
    rw [h.waiting_away hbus.waiting, hacc]
    rfl
  have hplain : (n'.xc.saved c).type.plain = true := by
    rw [h.saved, hsaved]
    exact hread.plain
  have hhead' : head t = (n'.xc.saved c).head cfg c k := by
    rw [h.saved, hsaved]
    exact hhead
  have hcurrent : (n'.log c).current = ⟨some (k, n'.xc.saved c), [(n'.xc.saved c).head cfg c k],
      fs ++ (Node.taken (n.wires cfg parts i) c).toList,
      writes (n'.xc.side c).waySave (n'.xc.side c).setSave fs, []⟩ := by
    rw [h.current_next hnext hraised hresponse, hacc, hread.record, h.saved, hsaved, h.slot.1,
      h.slot.2.1, hway, hset, ← heffects]
    simp [Record.note]
  have hle : fs.length ≤ (n'.xc.side c).wordSave := by
    rw [h.slot.2.2]
    cases k with
    | miss => exact Nat.le_of_eq (hwordm rfl).symm
    | unc =>
        simp only [XcacheConfig.length] at hlength
        omega
  have hslot : k = .miss → (n'.xc.side c).wordSave = fs.length := fun hk => by
    rw [h.slot.2.2, hwordm hk]
  have herror : out.side.error = false := hsame.error.trans hbuf.error
  cases hval : i.rspval with
  | false =>
      have hrsp : rsp = ⟨.read c k, n.xc.rspCpt, cmd.wbuf, none, none, false⟩ := by
        have hans := h.answers
        have hval' : (n.wires cfg parts i).rspval = false := hval
        simp only [rspTransition, hval', hstate] at hans
        cases hans
        rfl
      have hnone : Node.taken (n.wires cfg parts i) c = none := by
        have hval' : (n.wires cfg parts i).rspval = false := hval
        simp [Node.taken, VciSignals.rspTransfer, hval']
      refine .receiving k t fs (h.readFsm.trans hnext)
        ⟨hreq, fun k' => ⟨fun hk' => absurd hk' (hcmd k'), (by simp)⟩, hwait, fun k' => ?_⟩ ?_
        hhead'
        hgood hlength (fun hk => ?_) (fun hk => Nat.le_of_eq (hslot hk)) (Nat.le_succ_of_le hle)
        ⟨?_, ?_⟩ ⟨hplain, ?_⟩
      · rw [h.rspFsm, hrsp]
        simp
      · rw [h.net]
        simp [Net.next, hval, hnet]
      · rw [h.rspCpt, hrsp]
        exact hcpt hk
      · rw [h.error, hrsp]
        simpa using herror
      · rw [h.toEdge.fifo_none h.fifo (by simp [hrsp]) hget, htaken, List.drop_eq_nil_of_le hle]
        rfl
      · rw [hcurrent, hnone, List.take_of_length_le hle]
        simp
  | true =>
      obtain ⟨t', fs', hnet', _, htrdid, hcontract⟩ :=
        h.linked.shown h.legal hval (by rw [hstate]; exact RspFsm.noConfusion)
      cases hnet.symm.trans hnet'
      have hreop := h.clean.read hclass hcontract (fun g hg => (hgood g hg).fails) hlength
      have hwok : parts.fifo.wok (n.xc.side c).fifo = true := by
        rw [h.fifo.wok, hbuf.fifo, List.length_map, List.length_drop]
        omega
      obtain ⟨cpt', hcpt', hans⟩ := rspTransition_read cfg parts
        (fun c => parts.fifo.wok (n.xc.side c).fifo) (n.wires cfg parts i) cmd.wbuf hval hwok hcpt
        hlength hreop
      have hrsp : rsp = ⟨if i.flit.reop then .idle else .read c k, cpt', cmd.wbuf,
          if fails i.flit then some c else none,
          if fails i.flit then none else some (c, wordOf i.flit), false⟩ :=
        Except.ok.inj ((hstate ▸ h.answers).symm.trans hans)
      have hsome : Node.taken (n.wires cfg parts i) c = some i.flit := by
        have hval' : (n.wires cfg parts i).rspval = true := hval
        have hid' : (n.wires cfg parts i).rtrdid = t.trdid := htrdid
        simp only [Node.taken, VciSignals.rspTransfer, hval', hrspack, hid', Node.clientOf, hclass]
        rfl
      rw [hsome] at hcurrent
      have hid : t.trdid = ((n'.xc.saved c).head cfg c k).trdid := congrArg Head.trdid hhead'
      have hidle : i.flit.reop = true → ∀ k', n'.xc.rspFsm ≠ .read c k' := fun hlast k' => by
        rw [h.rspFsm, hrsp, hlast]
        exact RspFsm.noConfusion
      cases hfails : fails i.flit with
      | true =>
          have hlast : i.flit.reop = true := hreop.mpr (.inl hfails)
          refine .failed k fs i.flit (h.readFsm.trans hnext) (.away hreq hcmd hwait (hidle hlast))
            (hid ▸ hgood) hfails hlast (htrdid.trans hid) hlength ⟨?_, ?_⟩ ⟨hplain, hcurrent⟩
          · rw [h.error, hrsp, hfails]
            simp
          · rw [h.toEdge.fifo_none h.fifo (by simp [hrsp, hfails]) hget, htaken]
      | false =>
          have hput : rsp.put = some (c, wordOf i.flit) := by
            rw [hrsp, hfails]
            rfl
          have herror' : (n'.xc.side c).error = false := by
            rw [h.error, hrsp, hfails]
            simpa using herror
          have hfifo' : contents (n'.xc.side c).fifo = [wordOf i.flit] := by
            rw [h.toEdge.fifo_some h.fifo hput hget hroom, htaken]
            rfl
          cases hlast : i.flit.reop with
          | true =>
              have hfull : fs.length + 1 = cfg.length c k :=
                (hreop.mp hlast).resolve_left (by simp [hfails])
              exact .drained k fs i.flit (h.readFsm.trans hnext)
                (.away hreq hcmd hwait (hidle hlast)) (hid ▸ hgood) hfails hlast
                (htrdid.trans hid) hfull hslot ⟨herror', hfifo'⟩ ⟨hplain, hcurrent⟩
          | false =>
              have hmore : fs.length + 1 < cfg.length c k := by
                have hne : ¬ (fs.length + 1 = cfg.length c k) := fun hfull =>
                  Bool.false_ne_true (hlast.symm.trans (hreop.mpr (.inr hfull)))
                omega
              have hk : k = .miss := by
                cases k with
                | miss => rfl
                | unc =>
                    simp only [XcacheConfig.length] at hmore
                    omega
              have hw : (n'.xc.side c).wordSave = fs.length := hslot hk
              refine .receiving k t (fs ++ [i.flit]) (h.readFsm.trans hnext)
                ⟨hreq, fun k' => ⟨fun hk' => absurd hk' (hcmd k'), (by simp)⟩, hwait,
                  fun k' => ?_⟩ ?_
                hhead' ?_ (by simpa using hmore) (fun hk => ?_) (fun _ => ?_) ?_ ⟨herror', ?_⟩
                ⟨hplain, ?_⟩
              · rw [h.rspFsm, hrsp, hlast]
                simp
              · rw [h.net]
                simp [Net.next, hval, hrspack, hlast, Net.shown, hnet]
              · intro f hf
                rcases List.mem_append.mp hf with hf | hf
                · exact hgood f hf
                · rw [List.mem_singleton.mp hf]
                  exact ⟨hfails, hlast, htrdid⟩
              · rw [h.rspCpt, hrsp, hcpt' hk hfails]
                simp
              · rw [hw]
                simp
              · rw [hw]
                simp
              · rw [hfifo', hw]
                simp
              · rw [hcurrent, hw]
                simp

/-- A read that ends is closed. -/
theorem log_over (h : Cycle cfg parts contents contract i n n' c out cmd rsp) {f : ReadFsm}
    (hfsm : n.xc.readFsm c = some f) (hnext : out.fsm = none) (hraised : out.raised = none) :
    n'.log c = ⟨(n.log c).closed ++ [(n.log c).current.note none
      (Node.accepted (n.wires cfg parts i) c) (Node.taken (n.wires cfg parts i) c) out.effects
      (Node.answers true (asks i.ireq i.dreq c) out.response)], .blank⟩ := by
  rw [h.log, hfsm, hnext, hraised]
  rfl

/-- The flits of a packet without errors. -/
theorem fails_concat {trdid : BitVec p.T} {fs : List (RspFlit p)} {f : RspFlit p}
    (hgood : ∀ g ∈ fs, Good trdid g) (hfails : fails f = false) :
    ∀ g ∈ fs ++ [f], fails g = false := by
  intro g hg
  rcases List.mem_append.mp hg with hg | hg
  · exact (hgood g hg).fails
  · rw [List.mem_singleton.mp hg, hfails]

theorem trdid_concat {trdid : BitVec p.T} {fs : List (RspFlit p)} {f : RspFlit p}
    (hgood : ∀ g ∈ fs, Good trdid g) (htrdid : f.rtrdid = trdid) :
    ∀ g ∈ fs ++ [f], g.rtrdid = trdid := by
  intro g hg
  rcases List.mem_append.mp hg with hg | hg
  · exact (hgood g hg).trdid
  · rw [List.mem_singleton.mp hg, htrdid]

/-- The response at the end of a read without errors. -/
def ending (again : Bool) (f : RspFlit p) : ReadKind → Response
  | .miss => .none
  | .unc => if again then .ok (wordOf f) else .none

/-- The last word of a response ends its read. -/
theorem drain (h : Cycle cfg parts contents contract i n n' c out cmd rsp) {k : ReadKind}
    {fs : List (RspFlit p)} {f : RspFlit p} (hfsm : n.xc.readFsm c = some k.wait)
    (hlength : fs.length + 1 = cfg.length c k)
    (hgood : ∀ g ∈ fs ++ [f], fails g = false)
    (hword : k = .miss → (n.xc.side c).wordSave = fs.length)
    (hbuf : Buffer contents (n.xc.side c) false [wordOf f]) :
    out.fsm = none ∧ (n.xc.side c).Same out.side ∧ out.get = true ∧ out.raised = none ∧
      writes (n.xc.side c).waySave (n.xc.side c).setSave fs ++ out.effects =
        answer (n.xc.side c).waySave (n.xc.side c).setSave (n.xc.saved c) (fs ++ [f]) k ∧
      out.response = ending (n.xc.again i.ireq i.dreq c) f k := by
  have hrok : parts.fifo.rok (n.xc.side c).fifo = true := h.fifo.rok_of_cons hbuf.fifo
  have hread : parts.fifo.read (n.xc.side c).fifo = wordOf f := h.fifo.read _ _ _ hbuf.fifo
  have hserves := h.serves.of_read hfsm
  cases k with
  | miss =>
      have hlast : (n.xc.side c).wordSave = cfg.words c - 1 := by
        rw [hword rfl]
        simp only [XcacheConfig.length] at hlength
        omega
      simp only [ReadKind.wait] at hserves
      rw [readTransition_last hbuf.error hrok hlast] at hserves
      rw [hserves.next, hserves.side, hserves.get, hserves.effects, hread]
      refine ⟨rfl, ⟨fun k => ?_, rfl, rfl⟩, rfl, hserves.raised, ?_, hserves.response⟩
      · cases k <;> rfl
      · have haddr : (n.xc.saved c).addr = (n.xc.side c).addrSave := by
          cases c <;> rfl
        rw [answer_miss_good _ _ _ hgood, writes_concat, hword rfl, haddr]
        simp
  | unc =>
      have hnil : fs = [] := by
        simp only [XcacheConfig.length] at hlength
        exact List.length_eq_zero_iff.mp (by omega)
      simp only [ReadKind.wait] at hserves
      rw [readTransition_value hbuf.error hrok] at hserves
      have hf : fails f = false := hgood f (by simp)
      rw [hserves.next, hserves.side, hserves.get, hserves.effects, hserves.response, hread, hnil]
      exact ⟨rfl, ⟨fun _ => rfl, rfl, rfl⟩, rfl, hserves.raised, by simp [answer, hf], rfl⟩

theorem drained (h : Cycle cfg parts contents contract i n n' c out cmd rsp) {k : ReadKind}
    {fs : List (RspFlit p)} {f : RspFlit p} (hfsm : n.xc.readFsm c = some k.wait)
    (hbus : Bus n c none none [] none) (hlength : fs.length + 1 = cfg.length c k)
    (hgood : ∀ g ∈ fs ++ [f], fails g = false)
    (hword : k = .miss → (n.xc.side c).wordSave = fs.length)
    (hbuf : Buffer contents (n.xc.side c) false [wordOf f]) : Channel cfg contents c n' := by
  obtain ⟨hnext, hsame, hget, hraised, _, _⟩ := h.drain hfsm hlength hgood hword hbuf
  obtain ⟨hbus', _, _, herror, hput⟩ := h.bus_away (r := none) hbus fun k => by
    rw [hsame.req]
    exact hbus.req k
  refine .rest (h.readFsm.trans hnext) hbus' ⟨?_, ?_⟩ ?_
  · rw [h.error, if_neg herror, hsame.error, hbuf.error]
  · rw [h.toEdge.fifo_none h.fifo hput fun _ => by simp [hsame.fifo, hbuf.fifo], hget, hsame.fifo,
      hbuf.fifo]
    rfl
  · rw [h.log_over hfsm hnext hraised]

/-- The error flag ends a read. -/
theorem fail (h : Cycle cfg parts contents contract i n n' c out cmd rsp) {k : ReadKind}
    (hfsm : n.xc.readFsm c = some k.wait) (hbuf : Buffer contents (n.xc.side c) true []) :
    out.fsm = none ∧ (∀ k, out.side.req k = (n.xc.side c).req k) ∧ out.side.error = false ∧
      out.side.fifo = (n.xc.side c).fifo ∧ out.get = false ∧ out.raised = none ∧
      out.effects = [.error] ∧ out.response = .bad := by
  have hserves := h.serves.of_read hfsm
  rw [readTransition_error hbuf.error] at hserves
  rw [hserves.next, hserves.side, hserves.get, hserves.effects, hserves.response]
  refine ⟨rfl, fun k => ?_, rfl, rfl, rfl, hserves.raised, rfl, rfl⟩
  cases k <;> rfl

theorem failed (h : Cycle cfg parts contents contract i n n' c out cmd rsp) {k : ReadKind}
    (hfsm : n.xc.readFsm c = some k.wait) (hbus : Bus n c none none [] none)
    (hbuf : Buffer contents (n.xc.side c) true []) : Channel cfg contents c n' := by
  obtain ⟨hnext, hreq, herror', hfifo, hget, hraised, _, _⟩ := h.fail hfsm hbuf
  obtain ⟨hbus', _, _, herror, hput⟩ := h.bus_away (r := none) hbus fun k => by
    rw [hreq]
    exact hbus.req k
  refine .rest (h.readFsm.trans hnext) hbus' (h.buffer_away herror hput hget ⟨herror', ?_⟩) ?_
  · rw [hfifo, hbuf.fifo]
  · rw [h.log_over hfsm hnext hraised]

/-- An edge moves a read on. -/
theorem channel (h : Cycle cfg parts contents contract i n n' c out cmd rsp)
    (hc : Channel cfg contents c n) : Channel cfg contents c n' := by
  cases hc with
  | rest hfsm hbus hbuf hlog => exact h.rest hfsm hbus hbuf hlog
  | raised k f hfsm hkind hbus hbuf hread hword => exact h.raised hfsm hkind hbus hbuf hread hword
  | sending k f hfsm hkind hselect hbus hbuf hread hword =>
      exact h.sending hfsm hkind hselect hbus hbuf hread hword
  | waiting k t hfsm hbus hhead hbuf hread hword => exact h.waiting hfsm hbus hhead hbuf hread hword
  | receiving k t fs hfsm hbus hnet hhead hgood hlength hcpt hword hfifo hbuf hread =>
      exact h.receiving hfsm hbus hnet hhead hgood hlength hcpt hword hfifo hbuf hread
  | drained k fs f hfsm hbus hgood hfails _ _ hlength hword hbuf =>
      exact h.drained hfsm hbus hlength (fails_concat hgood hfails) hword hbuf
  | failed k fs f hfsm hbus _ _ _ _ _ hbuf => exact h.failed hfsm hbus hbuf

/-- A processor that still asks for the saved address asks for it. -/
theorem addr_of_again {s : XcacheWrapper F C W} {ireq : InsRequest} {dreq : DataRequest}
    {c : Client} (h : s.again ireq dreq c = true) :
    (asks ireq dreq c).map Access.addr = some (s.saved c).addr := by
  cases c with
  | ins =>
      obtain ⟨hvalid, haddr⟩ := Bool.and_eq_true_iff.mp h
      simp only [asks, hvalid, if_true]
      exact congrArg some (beq_iff_eq.mp haddr)
  | data =>
      obtain ⟨hvalid, haddr⟩ := Bool.and_eq_true_iff.mp h
      simp only [asks, hvalid, if_true]
      exact congrArg some (beq_iff_eq.mp haddr)

/-- An edge that ends a read: its record is complete, and the response of its cycle is the one
that the flits of the record demand. -/
structure Ends (cfg : XcacheConfig p) (i : Stimulus p) (n n' : Node p F C W) (c : Client)
    (out : ClientOut F C) (k : ReadKind) (r : Record p) : Prop where
  closed : (n'.log c).closed = (n.log c).closed ++ [r]
  waits : n.xc.readFsm c = some k.wait
  finished : out.fsm = none
  complete : r.Complete cfg c k (n.xc.saved c) (n.xc.side c).waySave (n.xc.side c).setSave
  effects : r.effects = (n.log c).current.effects ++ out.effects
  answers : r.answers = Node.answers true (asks i.ireq i.dreq c) out.response
  failed : r.flits.any fails = true → (n.xc.side c).error = true ∧ out.response = .bad
  good : r.flits.any fails = false → ∃ fs f, r.flits = fs ++ [f] ∧
    out.response = ending (n.xc.again i.ireq i.dreq c) f k

/-- The last flit of an uncached answer is its only one. -/
theorem drained_told {k : ReadKind} {fs : List (RspFlit p)} {f : RspFlit p}
    (hlength : fs.length + 1 = cfg.length c k) {x : Option Access × Response}
    (hx : x ∈ Node.answers true (asks i.ireq i.dreq c) (ending (n.xc.again i.ireq i.dreq c) f k)) :
    k = .unc ∧ x.1.map Access.addr = some (n.xc.saved c).addr ∧
      ∃ g, fs ++ [f] = [g] ∧ x.2 = .ok (wordOf g) := by
  cases k with
  | miss => simp [ending] at hx
  | unc =>
      cases hagain : n.xc.again i.ireq i.dreq c with
      | false => simp [ending, hagain] at hx
      | true =>
          have hnil : fs = [] := by
            simp only [XcacheConfig.length] at hlength
            exact List.length_eq_zero_iff.mp (by omega)
          simp only [ending, hagain, if_true, Node.answers, Response.ok, Bool.and_self,
            List.mem_singleton] at hx
          rw [hx]
          exact ⟨rfl, addr_of_again hagain, f, by rw [hnil]; rfl, rfl⟩

/-- An edge ends a read or closes no record. -/
theorem ends (h : Cycle cfg parts contents contract i n n' c out cmd rsp)
    (hc : Channel cfg contents c n) :
    (n'.log c).closed = (n.log c).closed ∨ ∃ k r, Ends cfg i n n' c out k r := by
  have hopen : ((n.xc.readFsm c).isSome && out.fsm.isNone) = false →
      (n'.log c).closed = (n.log c).closed := by
    intro hover
    rw [h.log, hover]
    rfl
  cases hc with
  | rest hfsm => exact .inl (hopen (by simp [hfsm]))
  | raised k f hfsm _ _ hbuf =>
      obtain ⟨⟨f', hnext, _⟩, _⟩ := h.quiet hfsm hbuf
      exact .inl (hopen (by simp [hnext]))
  | sending k f hfsm _ _ _ hbuf =>
      obtain ⟨⟨f', hnext, _⟩, _⟩ := h.quiet hfsm hbuf
      exact .inl (hopen (by simp [hnext]))
  | waiting k t hfsm _ _ hbuf =>
      obtain ⟨hnext, _⟩ := h.quiet_wait hfsm hbuf
      exact .inl (hopen (by simp [hnext]))
  | receiving k t fs hfsm _ _ _ _ hlength _ hword hfifo hbuf =>
      obtain ⟨hnext, _⟩ := h.take hfsm hlength hword hfifo hbuf
      exact .inl (hopen (by simp [hnext]))
  | drained k fs f hfsm hbus hgood hfails hreop htrdid hlength hword hbuf hread =>
      have hall := fails_concat hgood hfails
      obtain ⟨hnext, _, _, hraised, heffects, hresponse⟩ := h.drain hfsm hlength hall hword hbuf
      have hacc := accepted_none (i := i) h.index hbus.cmd_ne
      have htaken := h.linked.taken_none cfg parts h.legal hbus.rsp_ne
      have hnone : (fs ++ [f]).any fails = false :=
        List.any_eq_false.mpr fun g hg => by simp [hall g hg]
      have hlog := h.log_over hfsm hnext hraised
      rw [hread.record, hacc, htaken] at hlog
      simp only [Record.note, Option.none_or, Option.toList_none, List.append_nil,
        List.nil_append] at hlog
      exact .inr ⟨k, _,
        { closed := congrArg Log.closed hlog
          waits := hfsm
          finished := hnext
          complete :=
            { request := rfl
              accepted := rfl
              packet := ⟨fs, f, rfl, hreop, fun g hg => (hgood g hg).reop⟩
              trdid := trdid_concat hgood htrdid
              length := fun _ => by rw [List.length_append]; exact hlength
              effects := heffects
              failed := fun hany => absurd (hnone.symm.trans hany) Bool.false_ne_true
              told := fun _ x hx => drained_told hlength (hresponse ▸ hx) }
          effects := by rw [hread.record]
          answers := rfl
          failed := fun hany => absurd (hnone.symm.trans hany) Bool.false_ne_true
          good := fun _ => ⟨fs, f, rfl, hresponse⟩ }⟩
  | failed k fs f hfsm hbus hgood hfails hreop htrdid hlength hbuf hread =>
      obtain ⟨hnext, _, _, _, _, hraised, heffects, hresponse⟩ := h.fail hfsm hbuf
      have hacc := accepted_none (i := i) h.index hbus.cmd_ne
      have htaken := h.linked.taken_none cfg parts h.legal hbus.rsp_ne
      have hany : (fs ++ [f]).any fails = true := by simp [hfails]
      have hnil : k = .unc → fs = [] := by
        rintro rfl
        simp only [XcacheConfig.length] at hlength
        exact List.length_eq_zero_iff.mp (by omega)
      have hlog := h.log_over hfsm hnext hraised
      rw [hread.record, hacc, htaken] at hlog
      simp only [Record.note, Option.none_or, Option.toList_none, List.append_nil,
        List.nil_append] at hlog
      have hanswer : writes (n.xc.side c).waySave (n.xc.side c).setSave fs ++ out.effects =
          answer (n.xc.side c).waySave (n.xc.side c).setSave (n.xc.saved c) (fs ++ [f]) k := by
        rw [heffects]
        cases k with
        | miss => rw [answer_miss_fails _ _ _ (fun g hg => (hgood g hg).fails) hfails]
        | unc =>
            rw [hnil rfl]
            simp [answer, hfails]
      exact .inr ⟨k, _,
        { closed := congrArg Log.closed hlog
          waits := hfsm
          finished := hnext
          complete :=
            { request := rfl
              accepted := rfl
              packet := ⟨fs, f, rfl, hreop, fun g hg => (hgood g hg).reop⟩
              trdid := trdid_concat hgood htrdid
              length := by
                rintro (rfl | hall)
                · rw [hnil rfl]
                  rfl
                · exact absurd (hfails.symm.trans (hall f (by simp))) Bool.true_eq_false.mp
              effects := hanswer
              failed := fun _ => ⟨_, by rw [hresponse]; rfl⟩
              told := fun hnone => absurd (hany.symm.trans hnone) Bool.true_eq_false.mp }
          effects := by rw [hread.record]
          answers := rfl
          failed := fun _ => ⟨hbuf.error, hresponse⟩
          good := fun hnone => absurd (hany.symm.trans hnone) Bool.true_eq_false.mp }⟩

end Cycle

/-! ## Responses -/

/-- A flit is taken for a read that is receiving its response. -/
theorem Channel.receiving_of_taken {f : RspFlit p}
    (h : Channel cfg contents c n) (hl : Linked n) (hlegal : n.net.Legal contract i)
    (hf : Node.taken (n.wires cfg parts i) c = some f) :
    ∃ k t fs, n.xc.readFsm c = some k.wait ∧ n.net.current = some (t, fs) ∧
      head t = (n.xc.saved c).head cfg c k ∧
      Reading n c k [(n.xc.saved c).head cfg c k] fs
        (writes (n.xc.side c).waySave (n.xc.side c).setSave (fs.take (n.xc.side c).wordSave)) := by
  have hserved : ∃ k, n.xc.rspFsm = .read c k := by
    by_contra hnone
    have hnot := hl.taken_none cfg parts hlegal fun k hk => hnone ⟨k, hk⟩
    cases hnot.symm.trans hf
  obtain ⟨k, hk⟩ := hserved
  cases h with
  | receiving k' t fs hfsm _ hnet hhead _ _ _ _ _ _ hread =>
      exact ⟨k', t, fs, hfsm, hnet, hhead, hread⟩
  | rest _ hbus => exact absurd hk (hbus.rsp_ne k)
  | raised _ _ _ _ hbus => exact absurd hk (hbus.rsp_ne k)
  | sending _ _ _ _ _ hbus => exact absurd hk (hbus.rsp_ne k)
  | waiting _ _ _ hbus => exact absurd hk (hbus.rsp_ne k)
  | drained _ _ _ _ hbus => exact absurd hk (hbus.rsp_ne k)
  | failed _ _ _ _ hbus => exact absurd hk (hbus.rsp_ne k)

/-- In a response the FIFO has room for the flit on the wires, and the response automaton
takes it without an assertion. -/
theorem Channel.answers (hfifo : FifoLaws parts.fifo contents) (hclean : contract.Clean cfg)
    (hl : Linked n) (hlegal : n.net.Legal contract i) (hc : Channel cfg contents c n)
    {k : ReadKind} (hfsm : n.xc.rspFsm = .read c k) (hval : i.rspval = true) (wbuf : W) :
    parts.fifo.wok (n.xc.side c).fifo = true ∧
      ∃ cpt', rspTransition cfg parts (fun c => parts.fifo.wok (n.xc.side c).fifo)
        (n.wires cfg parts i) n.xc.rspFsm n.xc.rspCpt wbuf =
          .ok ⟨if i.flit.reop then .idle else .read c k, cpt', wbuf,
            if fails i.flit then some c else none,
            if fails i.flit then none else some (c, wordOf i.flit), false⟩ := by
  cases hc with
  | receiving k' t fs _ hbus hnet hhead hgood hlength hcpt hword hfifo' hbuf =>
      cases (hbus.rsp k).mp hfsm
      obtain ⟨t', fs', hnet', _, htrdid, hcontract⟩ :=
        hl.shown hlegal hval (by rw [hfsm]; exact RspFsm.noConfusion)
      cases hnet.symm.trans hnet'
      have hreop := hclean.read (Cycle.class_of_head hhead) hcontract
        (fun g hg => (hgood g hg).fails) hlength
      have hwok : parts.fifo.wok (n.xc.side c).fifo = true := by
        rw [hfifo.wok, hbuf.fifo, List.length_map, List.length_drop]
        omega
      obtain ⟨cpt', _, hans⟩ := rspTransition_read cfg parts
        (fun c => parts.fifo.wok (n.xc.side c).fifo) (n.wires cfg parts i) wbuf hval hwok hcpt
        hlength hreop
      exact ⟨hwok, cpt', hfsm ▸ hans⟩
  | rest _ hbus => exact absurd hfsm (hbus.rsp_ne k)
  | raised _ _ _ _ hbus => exact absurd hfsm (hbus.rsp_ne k)
  | sending _ _ _ _ _ hbus => exact absurd hfsm (hbus.rsp_ne k)
  | waiting _ _ _ hbus => exact absurd hfsm (hbus.rsp_ne k)
  | drained _ _ _ _ hbus => exact absurd hfsm (hbus.rsp_ne k)
  | failed _ _ _ _ hbus => exact absurd hfsm (hbus.rsp_ne k)

end SmcTp.Xcache
