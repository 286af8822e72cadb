import SmcTp.Xcache.ReadPhases

/-!
# Every read is served

Under a clean contract the record of a read is complete when the cache automaton is idle
again, no flit is lost, and no assertion fails.  A contract without errors is clean, and so is
one in which an error is the last flit of its packet.
-/

namespace SmcTp.Xcache

open Vci Clocked

variable {p : VciParams} {F C W : Type}
variable {cfg : XcacheConfig p} {parts : Parts F C W} {contents : F → List Word}
  {contract : Contract p} {i : Stimulus p} {n n' : Node p F C W}

/-! ## The invariant -/

/-- The invariant of a node under a clean contract. -/
structure Inv (cfg : XcacheConfig p) (contents : F → List Word) (n : Node p F C W) : Prop where
  linked : Linked n
  channel : ∀ c, Channel cfg contents c n
  closed : ∀ c, ∀ r ∈ (n.log c).closed, ∃ k a way set, r.Complete cfg c k a way set

theorem Inv.start (hfifo : FifoLaws parts.fifo contents) (h : n.Start parts) :
    Inv cfg contents n := by
  obtain ⟨⟨s, hxc⟩, hnet, hlog⟩ := h
  refine ⟨⟨?_, ?_, ?_, ?_⟩, fun c => ?_, ?_⟩
  · intro _
    rw [hxc]
    rfl
  · simp [hnet]
  · simp [hnet]
  · simp [hnet]
  · refine .rest ?_ (.away (fun k => ?_) ?_ ?_ ?_) ⟨?_, ?_⟩ ?_
    · rw [hxc]
      cases c <;> rfl
    · rw [hxc]
      cases c <;> cases k <;> simp [XcacheWrapper.side, XcacheWrapper.reset, Side.req]
    · simp [hxc, XcacheWrapper.reset]
    · simp [hnet, Net.waitingOf]
    · simp [hxc, XcacheWrapper.reset]
    · rw [hxc]
      cases c <;> rfl
    · rw [hxc]
      cases c <;> exact hfifo.init _
    · rw [hlog]
  · simp [hlog]

/-- The command on the wires is one the response automaton knows. -/
theorem ofTrdid_wires (hindex : ∀ w, parts.wbuf.getIndex w < cfg.wbufNlines)
    (hval : (n.wires cfg parts i).cmdval = true) :
    RspFsm.ofTrdid (n.wires cfg parts i).trdid ≠ .idle := by
  cases hfsm : n.xc.cmdFsm with
  | idle => cases (wires_idle cfg parts i n hfsm).symm.trans hval
  | dataWrite =>
      obtain ⟨_, _, hid⟩ := wires_write cfg parts i n hfsm
      rw [hid, ofTrdid_write cfg (hindex _)]
      exact RspFsm.noConfusion
  | read c k =>
      obtain ⟨_, _, hid, _⟩ := wires_read cfg parts i n hfsm
      rw [hid, ofTrdid_transactionType cfg]
      exact RspFsm.noConfusion

/-- The next packet on the wires and the next state of the response automaton. -/
theorem Linked.next_current (hfifo : FifoLaws parts.fifo contents) (hclean : contract.Clean cfg)
    (hinv : Inv cfg contents n) (hlegal : n.net.Legal contract i) {c : Client}
    {out : ClientOut F C} {cmd : CmdOut W} {rsp : RspOut W}
    (he : Edge cfg parts i n n' c out cmd rsp) :
    (n'.net.current = none ∧ n'.xc.rspFsm = .idle) ∨
      ∃ t fs, n'.net.current = some (t, fs) ∧ n'.xc.rspFsm = .ofTrdid t.trdid ∧
        n'.xc.rspFsm ≠ .idle ∧ (n'.xc.rspFsm = .dataWrite → fs = []) := by
  have hl := hinv.linked
  rw [he.net, he.rspFsm]
  cases hval : i.rspval with
  | false =>
      have hfsm : rsp.fsm = n.xc.rspFsm := by
        have hans := he.answers
        have hval' : (n.wires cfg parts i).rspval = false := hval
        simp only [rspTransition, hval'] at hans
        cases hans
        rfl
      have hnet : (n.net.next i (n.wires cfg parts i)).current = n.net.current := by
        simp [Net.next, hval]
      rw [hfsm, hnet]
      cases hcur : n.net.current with
      | none => exact .inl ⟨rfl, hl.idle hcur⟩
      | some x =>
          obtain ⟨hid, hidle⟩ := hl.current x.1 x.2 hcur
          exact .inr ⟨x.1, x.2, rfl, hid, hidle, hl.write x.1 x.2 hcur⟩
  | true =>
      have hval' : (n.wires cfg parts i).rspval = true := hval
      cases hfsm : n.xc.rspFsm with
      | idle =>
          obtain ⟨hnone, hmem, htrdid⟩ := hl.picked hlegal hval hfsm
          have hack : (n.wires cfg parts i).rspack = false := by
            rw [wires_rspack, hfsm]
            rfl
          have hrsp : rsp.fsm = .ofTrdid i.txn.trdid := by
            have hans := he.answers
            have hid : (n.wires cfg parts i).rtrdid = i.txn.trdid := htrdid
            rw [hfsm] at hans
            simp only [rspTransition, hval', if_true, hid] at hans
            cases hans
            rfl
          rw [hrsp]
          refine .inr ⟨i.txn, [], ?_, rfl, hl.waiting _ hmem, fun _ => rfl⟩
          simp [Net.next, hval, hack, Net.shown, hnone]
      | dataWrite =>
          obtain ⟨t, fs, hcur, hid, _, hcontract⟩ :=
            hl.shown hlegal hval (by rw [hfsm]; exact RspFsm.noConfusion)
          obtain rfl := hl.write t fs hcur hfsm
          have hlast : i.flit.reop = true := hclean.write (hid.symm.trans hfsm) hcontract
          have hack : (n.wires cfg parts i).rspack = true := by
            rw [wires_rspack, hfsm]
            rfl
          have hrsp : rsp.fsm = .idle := by
            have hans := he.answers
            have hlast' : (n.wires cfg parts i).reop = true := hlast
            rw [hfsm] at hans
            simp only [rspTransition, hval', hlast', if_true] at hans
            cases hans
            rfl
          exact .inl ⟨by simp [Net.next, hval, hack, hlast], hrsp⟩
      | read c' k =>
          obtain ⟨_, cpt', hans⟩ :=
            (hinv.channel c').answers hfifo hclean hl hlegal hfsm hval cmd.wbuf
          obtain ⟨t, fs, hcur, hid, _, _⟩ :=
            hl.shown hlegal hval (by rw [hfsm]; exact RspFsm.noConfusion)
          have hack : (n.wires cfg parts i).rspack = true := by
            rw [wires_rspack, hfsm]
            rfl
          have hrsp := Except.ok.inj (he.answers.symm.trans hans)
          cases hlast : i.flit.reop with
          | true =>
              left
              rw [hrsp, hlast]
              exact ⟨by simp [Net.next, hval, hack, hlast], rfl⟩
          | false =>
              right
              rw [hrsp, hlast]
              refine ⟨t, fs ++ [i.flit], ?_, hfsm.symm.trans hid, RspFsm.noConfusion, (by simp)⟩
              simp [Net.next, hval, hack, hlast, Net.shown, hcur]

/-- A cycle of a node that keeps the invariant, as its clients see it. -/
theorem Inv.cycle (hfifo : FifoLaws parts.fifo contents)
    (hindex : ∀ w, parts.wbuf.getIndex w < cfg.wbufNlines) (hclean : contract.Clean cfg)
    (hinv : Inv cfg contents n) (hlegal : n.net.Legal contract i) {o : XcacheOut F C W}
    (h : n.next cfg parts i = .ok (n', o)) :
    ∃ (outs : Client → ClientOut F C) (cmd : CmdOut W) (rsp : RspOut W), ∀ c,
      Cycle cfg parts contents contract i n n' c (outs c) cmd rsp ∧
        (outs c).response = o.response c := by
  obtain ⟨outs, cmd, rsp, hedge⟩ := next_edge h
  refine ⟨outs, cmd, rsp, fun c => ⟨?_, (hedge c).2⟩⟩
  exact
    { (hedge c).1 with
      fifo := hfifo
      index := hindex
      linked := hinv.linked
      clean := hclean
      legal := hlegal }

theorem Inv.next (hfifo : FifoLaws parts.fifo contents)
    (hindex : ∀ w, parts.wbuf.getIndex w < cfg.wbufNlines) (hclean : contract.Clean cfg)
    (hinv : Inv cfg contents n) (hlegal : n.net.Legal contract i) {o : XcacheOut F C W}
    (h : n.next cfg parts i = .ok (n', o)) : Inv cfg contents n' := by
  obtain ⟨outs, cmd, rsp, hcycle'⟩ := hinv.cycle hfifo hindex hclean hlegal h
  have hcycle := fun c => (hcycle' c).1
  refine ⟨⟨?_, ?_, ?_, ?_⟩, fun c => (hcycle c).channel (hinv.channel c), fun c r hr => ?_⟩
  · intro hnone
    rcases Linked.next_current hfifo hclean hinv hlegal (hcycle .ins).toEdge with
      ⟨_, hidle⟩ | ⟨t, fs, hcur, _⟩
    · exact hidle
    · cases hnone.symm.trans hcur
  · intro t fs hsome
    rcases Linked.next_current hfifo hclean hinv hlegal (hcycle .ins).toEdge with
      ⟨hnone, _⟩ | ⟨t', fs', hcur, hid, hidle, _⟩
    · cases hnone.symm.trans hsome
    · cases hcur.symm.trans hsome
      exact ⟨hid, hidle⟩
  · intro t fs hsome hwrite
    rcases Linked.next_current hfifo hclean hinv hlegal (hcycle .ins).toEdge with
      ⟨hnone, _⟩ | ⟨t', fs', hcur, _, _, hnil⟩
    · cases hnone.symm.trans hsome
    · cases hcur.symm.trans hsome
      exact hnil hwrite
  · intro t ht
    rw [(hcycle .ins).net] at ht
    have hold : ∀ t ∈ (if i.rspval && n.net.current.isNone then n.net.waiting.erase i.txn
        else n.net.waiting), t ∈ n.net.waiting := by
      intro t ht
      split at ht
      · exact List.mem_of_mem_erase ht
      · exact ht
    simp only [Net.next] at ht
    split at ht
    · rename_i hsend
      rcases List.mem_append.mp ht with ht | ht
      · exact hinv.linked.waiting t (hold t ht)
      · rw [List.mem_singleton.mp ht]
        obtain ⟨htransfer, _⟩ := Bool.and_eq_true_iff.mp hsend
        exact ofTrdid_wires hindex (Bool.and_eq_true_iff.mp htransfer).1
    · exact hinv.linked.waiting t (hold t ht)
  · rcases (hcycle c).ends (hinv.channel c) with hclosed | ⟨k, r', hends⟩
    · exact hinv.closed c r (hclosed ▸ hr)
    · rw [hends.closed] at hr
      rcases List.mem_append.mp hr with hr | hr
      · exact hinv.closed c r hr
      · rw [List.mem_singleton.mp hr]
        exact ⟨k, _, _, _, hends.complete⟩

theorem reachable_inv (hfifo : FifoLaws parts.fifo contents)
    (hindex : ∀ w, parts.wbuf.getIndex w < cfg.wbufNlines) (hclean : contract.Clean cfg)
    (hn : (system cfg parts contract).Reachable n) : Inv cfg contents n := by
  refine hn.invariant (fun m hstart => ?_) fun m i m' hinv hstep => ?_
  · exact Inv.start (n := m) hfifo hstart
  · obtain ⟨hlegal, o, hnext⟩ := hstep
    exact hinv.next hfifo hindex hclean hlegal hnext

/-! ## Assertions -/

/-- The data automaton never fails an assertion. -/
theorem dcacheRequest_error {dreq : DataRequest} {side : Side F} {save : DataSave} {cache : C}
    {wbuf : W} {halt : Halt}
    (h : dcacheRequest cfg parts dreq side save cache wbuf = .error halt) (text : String) :
    halt ≠ .assertion text := by
  cases hvalid : dreq.valid with
  | false =>
      simp only [dcacheRequest, hvalid] at h
      cases h
  | true =>
      simp only [dcacheRequest, hvalid] at h
      cases htype : dreq.type <;> simp only [htype] at h <;> split_ifs at h <;> cases h <;>
        exact Halt.noConfusion

theorem dcacheTransition_error {dreq : DataRequest} {fsm : DcacheFsm} {side : Side F}
    {save : DataSave} {cache : C} {wbuf : W} {halt : Halt}
    (h : dcacheTransition cfg parts dreq fsm side save cache wbuf = .error halt) (text : String) :
    halt ≠ .assertion text := by
  cases fsm with
  | idle => exact dcacheRequest_error h text
  | writeUpdt => cases h
  | writeReq =>
      simp only [dcacheTransition] at h
      split_ifs at h with haccepted
      exact dcacheRequest_error h text
  | read f => cases h
  | xtnHit =>
      simp only [dcacheTransition] at h
      split_ifs at h
  | xtnInval => cases h
  | xtnSync =>
      simp only [dcacheTransition] at h
      split_ifs at h

/-- No assertion fails on a response that keeps to a clean contract. -/
theorem Inv.no_assertion (hfifo : FifoLaws parts.fifo contents) (hclean : contract.Clean cfg)
    (hinv : Inv cfg contents n) (hlegal : n.net.Legal contract i) (text : String) :
    n.next cfg parts i ≠ .error (.assertion text) := by
  have hrsp : ∀ wbuf, ∃ rsp, rspTransition cfg parts
      (fun c => parts.fifo.wok (n.xc.side c).fifo) (n.wires cfg parts i) n.xc.rspFsm
      n.xc.rspCpt wbuf = .ok rsp := by
    intro wbuf
    cases hval : i.rspval with
    | false =>
        have hval' : (n.wires cfg parts i).rspval = false := hval
        exact ⟨_, by simp only [rspTransition, hval']; rfl⟩
    | true =>
        have hval' : (n.wires cfg parts i).rspval = true := hval
        cases hfsm : n.xc.rspFsm with
        | idle => exact ⟨_, by simp only [rspTransition, hval', if_true]; rfl⟩
        | dataWrite =>
            obtain ⟨t, fs, hcur, hid, _, hcontract⟩ :=
              hinv.linked.shown hlegal hval (by rw [hfsm]; exact RspFsm.noConfusion)
            obtain rfl := hinv.linked.write t fs hcur hfsm
            have hlast : (n.wires cfg parts i).reop = true :=
              hclean.write (hid.symm.trans hfsm) hcontract
            exact ⟨_, by simp only [rspTransition, hval', hlast, if_true]; rfl⟩
        | read c k =>
            obtain ⟨_, cpt', hans⟩ :=
              (hinv.channel c).answers hfifo hclean hinv.linked hlegal hfsm hval wbuf
            exact ⟨_, hfsm ▸ hans⟩
  intro h
  simp only [Node.next] at h
  split at h
  · rename_i halt hhalt
    cases h
    simp only [XcacheWrapper.transition, bind, Except.bind] at hhalt
    split at hhalt
    · rename_i halt hd
      cases hhalt
      exact dcacheTransition_error hd text rfl
    · rename_i d hd
      split at hhalt
      · rename_i halt hr
        obtain ⟨rsp, hok⟩ := hrsp (cmdTransition parts (n.wires cfg parts i).cmdack n.xc.ins
          n.xc.data n.xc.cmdFsm n.xc.cmdMin n.xc.cmdMax n.xc.cmdCpt
          (parts.wbuf.update d.wbuf)).wbuf
        cases hok.symm.trans hr
      · cases hhalt
  · cases h

/-! ## Responses without errors -/

theorem isMiss_iff (t : CmdFlit p) :
    isMiss t = true ↔ ∃ c, RspFsm.ofTrdid t.trdid = .read c .miss := by
  unfold isMiss
  split
  · rename_i c h
    simp [h]
  · rename_i h
    simp only [Bool.false_eq_true, false_iff, not_exists]
    exact h

theorem flitsOf_read {t : CmdFlit p} {c : Client} {k : ReadKind}
    (h : RspFsm.ofTrdid t.trdid = .read c k) : flitsOf cfg t = cfg.length c k := by
  unfold flitsOf
  rw [h]
  cases k <;> rfl

theorem errorFree_clean (cfg : XcacheConfig p) : (ErrorFree cfg).Clean cfg where
  read hclass hcontract _ _ := by
    rw [hcontract.2, hcontract.1, flitsOf_read hclass]
    simp
  write hclass hcontract := by
    refine hcontract.2.mpr ?_
    simp [flitsOf, hclass]

/-- The flits a client has taken carry no error. -/
def Flawless (n : Node p F C W) (c : Client) : Prop :=
  (∀ r ∈ (n.log c).closed, ∀ f ∈ r.flits, fails f = false) ∧
    ∀ f ∈ (n.log c).current.flits, fails f = false

theorem Flawless.next {c : Client} (h : Flawless n c) (hlegal : n.net.Legal (ErrorFree cfg) i)
    {o : XcacheOut F C W} (hnext : n.next cfg parts i = .ok (n', o)) : Flawless n' c := by
  obtain ⟨outs, cmd, rsp, hedge⟩ := next_edge hnext
  have htaken : ∀ f, Node.taken (n.wires cfg parts i) c = some f → fails f = false := by
    intro f hf
    obtain ⟨hval, rfl⟩ := taken_flit hf
    exact (hlegal hval).2.2.1
  have hnote : ∀ f ∈ ((n.log c).current.note ((outs c).raised.map fun k =>
      (k, asked i.ireq i.dreq c)) (Node.accepted (n.wires cfg parts i) c)
      (Node.taken (n.wires cfg parts i) c) (outs c).effects
      (Node.answers (n.xc.readFsm c).isSome (asks i.ireq i.dreq c) (outs c).response)).flits,
      fails f = false := by
    intro f hf
    rcases List.mem_append.mp hf with hf | hf
    · exact h.2 f hf
    · exact htaken f (Option.mem_toList.mp hf)
  unfold Flawless
  rw [(hedge c).1.log]
  unfold Log.next
  split
  · refine ⟨fun r hr => ?_, by simp [Record.blank]⟩
    rcases List.mem_append.mp hr with hr | hr
    · exact h.1 r hr
    · rw [List.mem_singleton.mp hr]
      exact hnote
  · exact ⟨h.1, hnote⟩

theorem reachable_flawless (hn : (system cfg parts (ErrorFree cfg)).Reachable n) (c : Client) :
    Flawless n c := by
  refine hn.invariant (P := fun m => Flawless m c) (fun m hstart => ?_) fun m i m' hm hstep => ?_
  · obtain ⟨_, _, hlog⟩ := hstart
    simp [Flawless, hlog, Record.blank]
  · obtain ⟨hlegal, o, hnext⟩ := hstep
    exact hm.next hlegal hnext

/-! ## Responses with errors -/

/-- The interconnect shows a flit that keeps to a contract. -/
def Shows (contract : Contract p) (n : Node p F C W) (i : Stimulus p) : Prop :=
  i.rspval = true → contract (n.net.shown i).1 (n.net.shown i).2 i.flit

instance (contract : Contract p) [∀ t fs f, Decidable (contract t fs f)] (n : Node p F C W)
    (i : Stimulus p) : Decidable (Shows contract n i) :=
  inferInstanceAs (Decidable (_ → _))

theorem errorsLast_clean (cfg : XcacheConfig p) :
    Contract.Clean cfg fun t fs f => AnyErrors cfg t fs f ∧ ErrorsLast cfg t fs f where
  read := by
    intro t fs f c k hclass hcontract hgood hlength
    obtain ⟨⟨hother, hmiss⟩, hlast⟩ := hcontract
    rw [ErrorsLast, flitsOf_read hclass] at hlast
    rw [flitsOf_read hclass] at hmiss
    cases k with
    | miss =>
        have his : isMiss t = true := (isMiss_iff t).mpr ⟨c, hclass⟩
        refine ⟨fun hreop => ?_, hlast his⟩
        rcases hmiss his hreop with hfull | hany
        · exact .inr hfull
        · obtain ⟨g, hg, hfails⟩ := List.any_eq_true.mp hany
          rcases List.mem_append.mp hg with hg | hg
          · exact absurd (hfails.symm.trans (hgood g hg)) Bool.true_eq_false.mp
          · exact .inl (List.mem_singleton.mp hg ▸ hfails)
    | unc =>
        have hone : fs.length + 1 = 1 := by
          simp only [XcacheConfig.length] at hlength
          omega
        have hnot : isMiss t = false := by
          rw [isMiss, hclass]
        exact ⟨fun _ => .inr hone, fun _ => hother hnot⟩
  write := by
    intro t f hclass hcontract
    exact hcontract.1.1 (by rw [isMiss, hclass])

/-- Two contracts at once. -/
theorem Net.Legal.both {contract' : Contract p} (hlegal : n.net.Legal contract i)
    (hshows : Shows contract' n i) :
    n.net.Legal (fun t fs f => contract t fs f ∧ contract' t fs f) i := by
  intro hval
  obtain ⟨hmem, hid, hcontract⟩ := hlegal hval
  exact ⟨hmem, hid, hcontract, hshows hval⟩

theorem reachable_shows_iff {contract' : Contract p} :
    ((system cfg parts contract).under (Shows contract')).Reachable n ↔
      (system cfg parts fun t fs f => contract t fs f ∧ contract' t fs f).Reachable n := by
  constructor
  · intro hn
    refine System.Reachable.mono ?_ ?_ hn
    · intro n hstart
      exact hstart
    · intro n i n' hstep
      obtain ⟨hshows, hlegal, hnext⟩ := hstep
      exact ⟨hlegal.both hshows, hnext⟩
  · intro hn
    refine System.Reachable.mono ?_ ?_ hn
    · intro n hstart
      exact hstart
    · intro n i n' hstep
      obtain ⟨hlegal, hnext⟩ := hstep
      refine ⟨fun hval => (hlegal hval).2.2.2, fun hval => ?_, hnext⟩
      obtain ⟨hmem, hid, hcontract, _⟩ := hlegal hval
      exact ⟨hmem, hid, hcontract⟩

end SmcTp.Xcache
