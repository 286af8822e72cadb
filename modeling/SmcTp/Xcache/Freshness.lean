import SmcTp.Xcache.SharedMemory

/-!
# A line is fresh after its invalidation

GIET invalidates the lines of a buffer before it reads what the disk or the DMA has written
into it.  `Recent` follows one word from the invalidation of its line on: whatever is kept of it,
in the cache, among the words of a line that is being read, or on the way from the memory, is a
value the memory has had since.  One edge keeps this (`Recent.next`) unless the processor stores
to the word, and a read of the word is answered with such a value (`read_after_inval`).
-/

namespace SmcTp.Xcache

open Vci Clocked

variable {p : VciParams} {F C W : Type}
variable {cfg : XcacheConfig p} {parts : Parts F C W} {contents : F → List Word}
  {view : CacheView C} {i : SharedStimulus p} {m m' : SharedNode p F C W} {d : DcacheOut F C W}
  {x : Nat}

/-! ## Slots -/

/-- What the cache and the registers of the data automaton have in common. -/
structure Slots (cfg : XcacheConfig p) (view : CacheView C) (s : XcacheWrapper F C W) : Prop where
  unique : ∀ w t w' t' l, view.line s.dcache w t = some l → view.line s.dcache w' t' = some l →
    w = w' ∧ t = t'
  update : s.dcacheFsm = .writeUpdt →
    view.slot (cfg.lineNo s.data.addrSave) s.data.waySave s.data.setSave ∧
    view.line s.dcache s.data.waySave s.data.setSave = some (cfg.lineNo s.data.addrSave) ∧
    s.data.wordSave = wordNo s.data.addrSave % cfg.dcacheWords
  inval : s.dcacheFsm = .xtnInval →
    view.slot (cfg.lineNo s.dataSave.wdata) s.data.waySave s.data.setSave ∧
    view.line s.dcache s.data.waySave s.data.setSave = some (cfg.lineNo s.dataSave.wdata)
  missing : ∀ f, s.dcacheFsm = .read f → f.kind = .miss →
    ∀ w t, view.line s.dcache w t ≠ some (cfg.lineNo s.data.addrSave)
  slot : ∀ f, s.dcacheFsm = .read f → f.kind = .miss → f ≠ .missSelect →
    view.slot (cfg.lineNo s.data.addrSave) s.data.waySave s.data.setSave
  free : s.dcacheFsm = .read .missWait →
    view.line s.dcache s.data.waySave s.data.setSave = none

namespace Slots

variable {s s' : XcacheWrapper F C W}

/-- A cycle that adds no line, and has no slot in its registers. -/
theorem of_quiet (h : Slots cfg view s)
    (hlines : ∀ w t l, view.line s'.dcache w t = some l → view.line s.dcache w t = some l)
    (hfsm : s'.dcacheFsm = .idle ∨ s'.dcacheFsm = .writeReq ∨ s'.dcacheFsm = .read .uncWait ∨
      s'.dcacheFsm = .xtnHit ∨ s'.dcacheFsm = .xtnSync) : Slots cfg view s' := by
  have hread : ∀ f, s'.dcacheFsm = .read f → f.kind ≠ .miss := by
    intro f hf
    rcases hfsm with hfsm | hfsm | hfsm | hfsm | hfsm <;> cases hfsm.symm.trans hf
    exact ReadKind.noConfusion
  refine ⟨fun w t w' t' l h1 h2 => h.unique w t w' t' l (hlines _ _ _ h1) (hlines _ _ _ h2),
    fun hf => ?_, fun hf => ?_, fun f hf hkind => absurd hkind (hread f hf),
    fun f hf hkind => absurd hkind (hread f hf), fun hf => absurd rfl (hread _ hf)⟩
  · rcases hfsm with hfsm | hfsm | hfsm | hfsm | hfsm <;> cases hfsm.symm.trans hf
  · rcases hfsm with hfsm | hfsm | hfsm | hfsm | hfsm <;> cases hfsm.symm.trans hf

/-- A cycle of a read that adds no line. -/
theorem of_fill (h : Slots cfg view s) {f f' : ReadFsm} (hold : s.dcacheFsm = .read f)
    (hkind : f.kind = .miss) (hfsm : s'.dcacheFsm = .read f')
    (haddr : s'.data.addrSave = s.data.addrSave)
    (hlines : ∀ w t l, view.line s'.dcache w t = some l → view.line s.dcache w t = some l)
    (hslot : view.slot (cfg.lineNo s.data.addrSave) s'.data.waySave s'.data.setSave)
    (hfree : f' = .missWait → view.line s'.dcache s'.data.waySave s'.data.setSave = none) :
    Slots cfg view s' where
  unique w t w' t' l h1 h2 := h.unique w t w' t' l (hlines _ _ _ h1) (hlines _ _ _ h2)
  update hf := by cases hfsm.symm.trans hf
  inval hf := by cases hfsm.symm.trans hf
  missing _ _ _ w t hl := by
    rw [haddr] at hl
    exact h.missing f hold hkind w t (hlines _ _ _ hl)
  slot _ _ _ _ := haddr ▸ hslot
  free hf := by
    cases hfsm.symm.trans hf
    exact hfree rfl

/-- After a reset the cache is empty. -/
theorem start (hcache : CacheLaws parts.cache cfg.dcacheWords view) (s : XcacheWrapper F C W) :
    Slots cfg view (s.reset parts) := by
  have hempty : ∀ w t l, view.line (s.reset parts).dcache w t ≠ some l := by
    intro w t l hl
    cases (hcache.reset s.dcache w t).symm.trans hl
  exact
    { unique := fun w t _ _ l hl => absurd hl (hempty w t l)
      update := DcacheFsm.noConfusion
      inval := DcacheFsm.noConfusion
      missing := fun _ hf => DcacheFsm.noConfusion hf
      slot := fun _ hf => DcacheFsm.noConfusion hf
      free := DcacheFsm.noConfusion }

end Slots

/-! ## What does not depend on the memory -/

/-- The invariant that does not depend on the values of the memory. -/
structure SharedInv (cfg : XcacheConfig p) (contents : F → List Word) (view : CacheView C)
    (m : SharedNode p F C W) : Prop where
  inv : Inv cfg contents m.node
  flawless : Flawless m.node .data
  slots : Slots cfg view m.node.xc
  holds : m.log.Holds cfg m.node
  /-- The address that is invalidated is that of the request. -/
  wdata : m.node.xc.dcacheFsm = .xtnHit ∨ m.node.xc.dcacheFsm = .xtnInval →
    ∃ q, m.log.taken = some q ∧ m.node.xc.dataSave.wdata = q.wdata
  /-- A read that waits for an uncached access is not one of the cache. -/
  uncached : m.node.xc.dcacheFsm = .read .uncWait →
    ∃ q, m.log.taken = some q ∧ isCachedRead cfg q = false

theorem Slots.next (hfifo : FifoLaws parts.fifo contents)
    (hcache : CacheLaws parts.cache cfg.dcacheWords view) (hm : SharedInv cfg contents view m)
    {cmd : CmdOut W} {rsp : RspOut W} {drsp : Response}
    (hd : DataStep cfg parts i.base m.node m'.node d cmd rsp drsp) :
    Slots cfg view m'.node.xc := by
  have hfsm' : m'.node.xc.dcacheFsm = d.fsm := hd.dcacheFsm
  have hdc' : m'.node.xc.dcache = d.cache := hd.dcache
  -- a cycle that keeps the lines and leaves no slot behind
  have hquiet (hkept : ∀ w t, view.line d.cache w t = view.line m.node.xc.dcache w t)
      (hfsm : d.fsm = .idle ∨ d.fsm = .writeReq ∨ d.fsm = .read .uncWait ∨ d.fsm = .xtnHit ∨
        d.fsm = .xtnSync) : Slots cfg view m'.node.xc := by
    refine hm.slots.of_quiet (fun w t l hl => ?_) (by rwa [hfsm'])
    rwa [hdc', hkept] at hl
  have hlines : ∀ a w t, view.line (parts.cache.read a m.node.xc.dcache).2 w t =
      view.line m.node.xc.dcache w t := fun a w t => hcache.read_line a _ w t
  cases dcacheTransition_shared hd.step with
  | unc htakes hvalid hunc hfsm hc =>
      exact hquiet (fun w t => by rw [hc, hlines]) (.inr (.inr (.inl hfsm)))
  | xtn htakes hvalid hfsm hc =>
      refine hquiet (fun w t => by rw [hc, hlines]) ?_
      rcases hfsm with hfsm | hfsm
      · exact .inr (.inr (.inr (.inl hfsm)))
      · exact .inr (.inr (.inr (.inr hfsm)))
  | found hold hhit hfsm hc hway hset hsave =>
      obtain ⟨hslot, hline, -⟩ := hcache.hit _ _ hhit
      have hinval : m'.node.xc.dcacheFsm = .xtnInval := hfsm'.trans hfsm
      refine ⟨fun w t w' t' l h1 h2 => ?_, ?_, fun _ => ?_, ?_, ?_, ?_⟩
      · rw [hdc', hc, hlines] at h1 h2
        exact hm.slots.unique w t w' t' l h1 h2
      · simp [hinval]
      · rw [hd.waySave, hd.setSave, hway, hset, hd.dataSave, hsave, hdc', hc, hlines]
        exact ⟨hslot, hline⟩
      · simp [hinval]
      · simp [hinval]
      · simp [hinval]
  | absent hold hhit hfsm hc => exact hquiet (fun w t => by rw [hc, hlines]) (.inl hfsm)
  | inval hold hfsm hc =>
      obtain ⟨hslot, -⟩ := hm.slots.inval hold
      refine hm.slots.of_quiet (fun w t l hl => ?_) (.inl (hfsm'.trans hfsm))
      rw [hdc', hc, hcache.inval_line _ _ _ _ _ _ hslot] at hl
      split_ifs at hl
      exact hl
  | sync hold hfsm hc =>
      refine hquiet (fun w t => by rw [hc]) ?_
      rcases hfsm with hfsm | hfsm
      · exact .inl hfsm
      · exact .inr (.inr (.inr (.inr hfsm)))
  | cached hcached _ =>
      cases hcached with
      | rest htakes hvalid hfsm hc => exact hquiet (fun w t => by rw [hc]) (.inl hfsm)
      | readHit htakes hvalid htype hhit hfsm hc =>
          exact hquiet (fun w t => by rw [hc, hlines]) (.inl hfsm)
      | writeMiss htakes hvalid htype hhit hfsm hc =>
          exact hquiet (fun w t => by rw [hc, hlines]) (.inr (.inl hfsm))
      | unc htakes hvalid htype hfsm hc =>
          exact hquiet (fun w t => by rw [hc, hlines]) (.inr (.inr (.inl hfsm)))
      | update hold hfsm hc =>
          exact hquiet (fun w t => by rw [hc, hcache.write_line]) (.inr (.inl hfsm))
      | refused hold hstored hfsm hc =>
          exact hquiet (fun w t => by rw [hc]) (.inr (.inl hfsm))
      | readMiss htakes hvalid htype hhit hfsm hc hdrsp haddr =>
          have hsel : m'.node.xc.dcacheFsm = .read .missSelect := hfsm'.trans hfsm
          refine ⟨fun w t w' t' l h1 h2 => ?_, ?_, ?_, fun f hf hkind w t => ?_,
            fun f hf hkind hne => ?_, ?_⟩
          · rw [hdc', hc, hlines] at h1 h2
            exact hm.slots.unique w t w' t' l h1 h2
          · simp [hsel]
          · simp [hsel]
          · rw [hdc', hc, hlines, hd.addrSave, haddr]
            exact hcache.miss _ _ hhit w t
          · cases hsel.symm.trans hf
            exact absurd rfl hne
          · simp [hsel]
      | writeHit htakes hvalid htype hhit hfsm hc hdrsp haddr hway hset hword =>
          obtain ⟨hslot, hline, hindex, _⟩ := hcache.hit _ _ hhit
          have hupdt : m'.node.xc.dcacheFsm = .writeUpdt := hfsm'.trans hfsm
          refine ⟨fun w t w' t' l h1 h2 => ?_, fun _ => ?_, ?_, ?_, ?_, ?_⟩
          · rw [hdc', hc, hlines] at h1 h2
            exact hm.slots.unique w t w' t' l h1 h2
          · rw [hd.waySave, hd.setSave, hd.wordSave, hd.addrSave, hway, hset, hword, haddr, hdc',
              hc, hlines]
            exact ⟨hslot, hline, hindex⟩
          · simp [hupdt]
          · simp [hupdt]
          · simp [hupdt]
          · simp [hupdt]
      | read f hold hout =>
          have haddr : m'.node.xc.data.addrSave = m.node.xc.data.addrSave := by
            rw [hd.addrSave, hout]
            exact readTransition_addrSave ..
          cases (hm.inv.channel .data).fill_edge hfifo hm.flawless hold hout with
          | select hsel hfsm hc hway hset =>
              cases hold.symm.trans hsel
              refine hm.slots.of_fill hold rfl (hfsm'.trans hfsm) haddr (fun w t l hl => ?_) ?_
                fun hwait => ?_
              · rwa [hdc', hc, hcache.select_line] at hl
              · rw [hd.waySave, hd.setSave, hway, hset]
                exact hcache.select_slot _ _
              · rw [hdc', hc, hcache.select_line, hd.waySave, hd.setSave, hway, hset]
                refine hcache.select_free _ _ (Bool.eq_false_iff.mpr fun hvalid => ?_)
                rw [if_pos hvalid] at hwait
                cases hwait
          | inval hsel hfsm hc hway hset =>
              cases hold.symm.trans hsel
              have hslot := hm.slots.slot _ hold rfl ReadFsm.noConfusion
              refine hm.slots.of_fill hold rfl (hfsm'.trans hfsm) haddr (fun w t l hl => ?_) ?_
                fun _ => ?_
              · rw [hdc', hc, hcache.inval_line _ _ _ _ _ _ hslot] at hl
                split_ifs at hl
                exact hl
              · rwa [hd.waySave, hd.setSave, hway, hset]
              · rw [hdc', hc, hd.waySave, hd.setSave, hway, hset,
                  hcache.inval_line _ _ _ _ _ _ hslot, if_pos ⟨rfl, rfl⟩]
          | wait hsel hfsm hc hway hset =>
              cases hold.symm.trans hsel
              refine hm.slots.of_fill hold rfl (hfsm'.trans hfsm) haddr (fun w t l hl => ?_) ?_
                fun _ => ?_
              · rwa [hdc', hc] at hl
              · rw [hd.waySave, hd.setSave, hway, hset]
                exact hm.slots.slot _ hold rfl ReadFsm.noConfusion
              · rw [hdc', hc, hd.waySave, hd.setSave, hway, hset]
                exact hm.slots.free hold
          | word g hsel hg hfsm hc hway hset =>
              cases hold.symm.trans hsel
              refine hm.slots.of_fill hold rfl (hfsm'.trans hfsm) haddr (fun w t l hl => ?_) ?_
                fun _ => ?_
              · rwa [hdc', hc, hcache.write_line] at hl
              · rw [hd.waySave, hd.setSave, hway, hset]
                exact hm.slots.slot _ hold rfl ReadFsm.noConfusion
              · rw [hdc', hc, hcache.write_line, hd.waySave, hd.setSave, hway, hset]
                exact hm.slots.free hold
          | last g hsel hg hlast hfsm hc =>
              cases hold.symm.trans hsel
              have hidle : m'.node.xc.dcacheFsm = .idle := hfsm'.trans hfsm
              have hslot := hm.slots.slot _ hold rfl ReadFsm.noConfusion
              have hmissing := hm.slots.missing _ hold rfl
              refine ⟨fun w t w' t' l h1 h2 => ?_, ?_, ?_, ?_, ?_, ?_⟩
              · rw [hdc', hc, hcache.update_line _ _ _ _ _ _ hslot, hcache.write_line] at h1 h2
                split_ifs at h1 h2 with hw hw' hw'
                · exact ⟨hw.1.trans hw'.1.symm, hw.2.trans hw'.2.symm⟩
                · cases h1
                  exact absurd h2 (hmissing w' t')
                · cases h2
                  exact absurd h1 (hmissing w t)
                · exact hm.slots.unique w t w' t' l h1 h2
              · simp [hidle]
              · simp [hidle]
              · simp [hidle]
              · simp [hidle]
              · simp [hidle]
          | unc hsel hfsm hc =>
              refine hquiet (fun w t => by rw [hc]) ?_
              rcases hfsm with hfsm | hfsm
              · exact .inl hfsm
              · exact .inr (.inr (.inl hfsm))

/-- The address of the next invalidation is that of its request. -/
theorem SharedInv.wdata_next {cmd : CmdOut W} {rsp : RspOut W} {drsp : Response}
    (hd : DataStep cfg parts i.base m.node m'.node d cmd rsp drsp)
    (hm : SharedInv cfg contents view m)
    (hfsm : m'.node.xc.dcacheFsm = .xtnHit ∨ m'.node.xc.dcacheFsm = .xtnInval) :
    m'.node.xc.dataSave.wdata = (m.log.served parts i.base m.node).wdata := by
  rw [hd.dcacheFsm] at hfsm
  rw [hd.dataSave]
  cases dcacheTransition_shared hd.step with
  | unc _ _ _ hnext => rcases hfsm with hfsm | hfsm <;> cases hnext.symm.trans hfsm
  | xtn htakes _ _ _ hwdata => rw [hwdata, served_of_takes htakes]
  | found hold _ _ _ _ _ hsave =>
      obtain ⟨q, hq, hwdata⟩ := hm.wdata (.inl hold)
      rw [hsave, hwdata, served_of_busy (by rw [hold]; trivial) hq]
  | absent _ _ hnext => rcases hfsm with hfsm | hfsm <;> cases hnext.symm.trans hfsm
  | inval _ hnext => rcases hfsm with hfsm | hfsm <;> cases hnext.symm.trans hfsm
  | sync _ hnext =>
      rcases hnext with hnext | hnext <;> rcases hfsm with hfsm | hfsm <;>
        cases hnext.symm.trans hfsm
  | cached hcached _ =>
      have hserved := hcached.served
      rcases hfsm with hfsm | hfsm <;> rw [hfsm] at hserved <;> cases hserved

theorem SharedInv.uncached_next {cmd : CmdOut W} {rsp : RspOut W} {drsp : Response}
    (hd : DataStep cfg parts i.base m.node m'.node d cmd rsp drsp)
    (hm : SharedInv cfg contents view m) (hfsm : m'.node.xc.dcacheFsm = .read .uncWait) :
    isCachedRead cfg (m.log.served parts i.base m.node) = false := by
  rw [hd.dcacheFsm] at hfsm
  cases dcacheTransition_shared hd.step with
  | unc htakes _ hunc => simp [served_of_takes htakes, isCachedRead, hunc]
  | xtn _ _ hnext => rcases hnext with hnext | hnext <;> cases hnext.symm.trans hfsm
  | found _ _ hnext => cases hnext.symm.trans hfsm
  | absent _ _ hnext => cases hnext.symm.trans hfsm
  | inval _ hnext => cases hnext.symm.trans hfsm
  | sync _ hnext => rcases hnext with hnext | hnext <;> cases hnext.symm.trans hfsm
  | cached hcached _ =>
      cases hcached with
      | rest _ _ hnext => cases hnext.symm.trans hfsm
      | readHit _ _ _ _ hnext => cases hnext.symm.trans hfsm
      | readMiss _ _ _ _ hnext => cases hnext.symm.trans hfsm
      | writeHit _ _ _ _ hnext => cases hnext.symm.trans hfsm
      | writeMiss _ _ _ _ hnext => cases hnext.symm.trans hfsm
      | unc htakes _ htype =>
          rw [served_of_takes htakes]
          rcases htype with htype | htype <;> simp [isCachedRead, htype]
      | update _ hnext => cases hnext.symm.trans hfsm
      | refused _ _ hnext => cases hnext.symm.trans hfsm
      | read f hold hout =>
          rw [hout] at hfsm
          have hnext : (readTransition parts cfg.dcacheWords
              (i.base.dreq.valid && i.base.dreq.addr == m.node.xc.data.addrSave) f m.node.xc.data
              m.node.xc.dcache).next = some .uncWait := by
            rw [← DcacheFsm.serving_ofNext (readTransition ..).next]
            exact congrArg DcacheFsm.serving hfsm
          obtain rfl := (readTransition_goes hnext).1.mp rfl
          obtain ⟨q, hq, hother⟩ := hm.uncached hold
          rwa [served_of_busy (by rw [hold]; trivial) hq]

theorem SharedInv.start (hfifo : FifoLaws parts.fifo contents)
    (hcache : CacheLaws parts.cache cfg.dcacheWords view) (hstart : m.node.Start parts) :
    SharedInv cfg contents view m := by
  have hinv : Inv cfg contents m.node := .start hfifo hstart
  obtain ⟨⟨s, hxc⟩, _, hlog⟩ := hstart
  have hidle : m.node.xc.dcacheFsm = .idle := by
    rw [hxc]
    rfl
  refine ⟨hinv, ⟨?_, ?_⟩, ?_, ?_, ?_, ?_⟩
  · simp [hlog]
  · simp [hlog, Record.blank]
  · rw [hxc]
    exact .start hcache s
  · intro hbusy
    rw [hidle] at hbusy
    cases hbusy
  · simp [hidle]
  · simp [hidle]

theorem SharedInv.next (hfifo : FifoLaws parts.fifo contents)
    (hindex : ∀ w, parts.wbuf.getIndex w < cfg.wbufNlines)
    (hcache : CacheLaws parts.cache cfg.dcacheWords view) (hm : SharedInv cfg contents view m)
    (hlegal : m.Legal cfg i) {out : XcacheOut F C W} (hnext : m.next cfg parts i = .ok (m', out)) :
    SharedInv cfg contents view m' := by
  obtain ⟨hnode, -, -, hlog⟩ := sharedNext_ok hnext
  obtain ⟨d, cmd, rsp, hd⟩ := next_step hnode
  obtain ⟨d', hcycle⟩ := next_store hnode
  refine ⟨hm.inv.next hfifo hindex (errorFree_clean cfg) hlegal.net hnode,
    hm.flawless.next hlegal.net hnode, Slots.next hfifo hcache hm hd, ?_, fun hfsm => ?_,
    fun hfsm => ?_⟩
  · rw [hlog]
    exact hcycle.holds hm.holds
  · rw [hlog]
    exact ⟨_, rfl, hm.wdata_next hd hfsm⟩
  · rw [hlog]
    exact ⟨_, rfl, hm.uncached_next hd hfsm⟩

/-! ## One word -/

/-- What is kept of a word is one of the values `vs`. -/
structure Recent (cfg : XcacheConfig p) (view : CacheView C) (vs : List Word) (x : Nat)
    (m : SharedNode p F C W) : Prop where
  memory : m.mem x ∈ vs
  cached : ∀ w t, view.line m.node.xc.dcache w t = some (x / cfg.dcacheWords) →
    view.word m.node.xc.dcache w t (x % cfg.dcacheWords) ∈ vs
  /-- The store in the registers is to another word. -/
  update : m.node.xc.dcacheFsm = .writeUpdt → wordNo m.node.xc.data.addrSave ≠ x
  /-- A slot that is being filled has it if it is among the words that are written. -/
  filled : m.node.xc.dcacheFsm = .read .missWait →
    cfg.lineNo m.node.xc.data.addrSave = x / cfg.dcacheWords →
    x % cfg.dcacheWords < m.node.xc.data.wordSave →
    view.word m.node.xc.dcache m.node.xc.data.waySave m.node.xc.data.setSave
      (x % cfg.dcacheWords) ∈ vs
  /-- The flit that carries it has come with it. -/
  arrived : ∀ f, m.node.xc.dcacheFsm = .read f → f.kind = .miss →
    cfg.lineNo m.node.xc.data.addrSave = x / cfg.dcacheWords →
    ∀ g, (m.node.log .data).current.flits[x % cfg.dcacheWords]? = some g → wordOf g ∈ vs
  /-- Since the command of its line it had no other value. -/
  visible : ∀ f, m.node.xc.dcacheFsm = .read f → f.kind = .miss →
    cfg.lineNo m.node.xc.data.addrSave = x / cfg.dcacheWords →
    (m.node.log .data).current.accepted ≠ [] → ∀ u ∈ m.seen x, u ∈ vs

/-- A state that reads no line. -/
theorem Recent.of_other {vs : List Word} (hmemory : m.mem x ∈ vs)
    (hcached : ∀ w t, view.line m.node.xc.dcache w t = some (x / cfg.dcacheWords) →
      view.word m.node.xc.dcache w t (x % cfg.dcacheWords) ∈ vs)
    (hupdate : m.node.xc.dcacheFsm = .writeUpdt → wordNo m.node.xc.data.addrSave ≠ x)
    (hread : ∀ f, m.node.xc.dcacheFsm = .read f → f.kind ≠ .miss) : Recent cfg view vs x m where
  memory := hmemory
  cached := hcached
  update := hupdate
  filled h := absurd rfl (hread _ h)
  arrived f h hkind := absurd hkind (hread f h)
  visible f h hkind := absurd hkind (hread f h)

/-- The slot that is being filled, after the next word. -/
theorem Recent.filled_word {vs : List Word} (h : Recent cfg view vs x m)
    (hcache : CacheLaws parts.cache cfg.dcacheWords view)
    (hm : SharedInv cfg contents view m)
    (hfsm : m.node.xc.dcacheFsm = .read .missWait) {g : RspFlit p}
    (hg : (m.node.log .data).current.flits[m.node.xc.data.wordSave]? = some g)
    (hline : cfg.lineNo m.node.xc.data.addrSave = x / cfg.dcacheWords)
    (hlt : x % cfg.dcacheWords < m.node.xc.data.wordSave + 1) :
    view.word (parts.cache.write m.node.xc.data.waySave m.node.xc.data.setSave
        m.node.xc.data.wordSave (wordOf g) 0xF m.node.xc.dcache)
      m.node.xc.data.waySave m.node.xc.data.setSave (x % cfg.dcacheWords) ∈ vs := by
  rw [hcache.write_word _ _ _ _ _ _ _ _ _ _ (hm.slots.slot _ hfsm rfl ReadFsm.noConfusion)
    (hm.inv.wordSave_lt hfsm hg)]
  rcases Nat.lt_succ_iff_lt_or_eq.mp hlt with hlt | heq
  · rw [if_neg fun hw => Nat.ne_of_lt hlt hw.2.2]
    exact h.filled hfsm hline hlt
  · rw [if_pos ⟨rfl, rfl, heq⟩, merge_full]
    exact h.arrived _ hfsm rfl hline g (heq ▸ hg)

/-- A line that is read further. -/
theorem Recent.of_fill (hN : 32 ≤ p.N) (hindex : ∀ w, parts.wbuf.getIndex w < cfg.wbufNlines)
    (hm : SharedInv cfg contents view m) (hlegal : m.Legal cfg i) {out : XcacheOut F C W}
    (hnext : m.next cfg parts i = .ok (m', out)) {cmd : CmdOut W} {rsp : RspOut W}
    (hd : DataStep cfg parts i.base m.node m'.node d cmd rsp out.drsp) {vs : List Word}
    (h : Recent cfg view vs x m) {f f' : ReadFsm} (hold : m.node.xc.dcacheFsm = .read f)
    (hkind : f.kind = .miss) (hfsm : d.fsm = .read f') (hraised : d.raised = none)
    (haddr : m'.node.xc.data.addrSave = m.node.xc.data.addrSave)
    (hcached : ∀ w t, view.line d.cache w t = some (x / cfg.dcacheWords) →
      view.word d.cache w t (x % cfg.dcacheWords) ∈ vs)
    (hfilled : cfg.lineNo m.node.xc.data.addrSave = x / cfg.dcacheWords →
      x % cfg.dcacheWords < d.side.wordSave →
      view.word d.cache d.side.waySave d.side.setSave (x % cfg.dcacheWords) ∈ vs) :
    Recent cfg view (m'.mem x :: vs) x m' := by
  obtain ⟨-, hmem, hseen, -⟩ := sharedNext_ok hnext
  obtain ⟨o, _, ho, hor, _, he⟩ := hd.edge
  have hread : m.node.xc.readFsm .data = some f := by
    simp [XcacheWrapper.readFsm, hold, DcacheFsm.serving]
  have hcurrent : (m'.node.log .data).current = (m.node.log .data).current.note none
      (Node.accepted (m.node.wires cfg parts i.base) .data)
      (Node.taken (m.node.wires cfg parts i.base) .data) o.effects
      (Node.answers (m.node.xc.readFsm .data).isSome (asks i.base.ireq i.base.dreq .data)
        o.response) := by
    rw [he.log, ho, hfsm, hor, hraised]
    simp [Log.next, DcacheFsm.serving]
  have hfsm' : m'.node.xc.dcacheFsm = .read f' := hd.dcacheFsm.trans hfsm
  refine ⟨List.mem_cons_self, ?_, ?_, ?_, ?_, ?_⟩
  · intro w t hl
    rw [hd.dcache] at hl ⊢
    exact List.mem_cons_of_mem _ (hcached w t hl)
  · simp [hfsm']
  · intro _ hl hlt
    rw [hd.dcache, hd.waySave, hd.setSave]
    rw [haddr] at hl
    rw [hd.wordSave] at hlt
    exact List.mem_cons_of_mem _ (hfilled hl hlt)
  · intro _ _ _ hl g hg
    rw [haddr] at hl
    rw [hcurrent] at hg
    refine List.mem_cons_of_mem _ ?_
    rcases Record.flit_of_note hg with hg | ⟨hlast, ht⟩
    · exact h.arrived f hold hkind hl g hg
    · obtain ⟨hval, rfl, hdata, htarget, hacc⟩ :=
        hm.inv.taken_line hN hlegal.net hold hkind ht
      have hword := hlegal.line hval hdata
      have hx : cfg.lineNo m.node.xc.data.addrSave * cfg.dcacheWords +
          (m.node.log .data).current.flits.length = x := by
        rw [hl, ← hlast, Nat.mul_comm]
        exact Nat.div_add_mod ..
      rw [htarget, hx] at hword
      exact h.visible f hold hkind hl hacc _ hword
  · intro _ _ _ hl hacc u hu
    rw [haddr] at hl
    rw [hcurrent] at hacc
    rw [hseen, ← hmem] at hu
    split_ifs at hu with hsends
    · rcases List.mem_cons.mp hu with rfl | hu
      · exact List.mem_cons_self
      · rw [List.mem_singleton.mp hu]
        exact List.mem_cons_of_mem _ h.memory
    · rcases List.mem_cons.mp hu with rfl | hu
      · exact List.mem_cons_self
      · rcases Record.accepted_of_note hacc with hacc | hacc
        · exact List.mem_cons_of_mem _ (h.visible f hold hkind hl hacc u hu)
        · exact absurd ((hm.inv.channel .data).accepted_line hindex hold hkind hacc).2 hsends

/-- One edge keeps what is known of a word, unless the processor stores to it. -/
theorem Recent.next (hN : 32 ≤ p.N) (hfifo : FifoLaws parts.fifo contents)
    (hindex : ∀ w, parts.wbuf.getIndex w < cfg.wbufNlines)
    (hcache : CacheLaws parts.cache cfg.dcacheWords view) (hm : SharedInv cfg contents view m)
    (hm' : SharedInv cfg contents view m') (hlegal : m.Legal cfg i) {out : XcacheOut F C W}
    (hnext : m.next cfg parts i = .ok (m', out)) (hown : m.storesTo cfg parts x i = false)
    {vs : List Word} (h : Recent cfg view vs x m) : Recent cfg view (m'.mem x :: vs) x m' := by
  obtain ⟨hnode, -⟩ := sharedNext_ok hnext
  obtain ⟨d, cmd, rsp, hd⟩ := next_step hnode
  have hfsm' : m'.node.xc.dcacheFsm = d.fsm := hd.dcacheFsm
  have hdc' : m'.node.xc.dcache = d.cache := hd.dcache
  -- a cycle that fills no slot and leaves no store behind
  have hquiet (hcached : ∀ w t, view.line d.cache w t = some (x / cfg.dcacheWords) →
        view.word d.cache w t (x % cfg.dcacheWords) ∈ vs) (hupdt : d.fsm ≠ .writeUpdt)
      (hread : ∀ f, d.fsm = .read f → f.kind ≠ .miss) :
      Recent cfg view (m'.mem x :: vs) x m' := by
    rw [← hfsm'] at hupdt hread
    refine .of_other List.mem_cons_self (fun w t hl => ?_) (fun hf => absurd hf hupdt) hread
    rw [hdc'] at hl ⊢
    exact List.mem_cons_of_mem _ (hcached w t hl)
  have hlookup : ∀ a w t, view.line (parts.cache.read a m.node.xc.dcache).2 w t =
      some (x / cfg.dcacheWords) →
      view.word (parts.cache.read a m.node.xc.dcache).2 w t (x % cfg.dcacheWords) ∈ vs := by
    intro a w t hl
    rw [hcache.read_line] at hl
    rw [hcache.read_word]
    exact h.cached w t hl
  cases dcacheTransition_shared hd.step with
  | unc htakes hvalid hunc hfsm hc =>
      refine hquiet (by rw [hc]; exact hlookup _) (by simp [hfsm]) ?_
      rw [hfsm]
      rintro f ⟨⟩
      exact ReadKind.noConfusion
  | xtn htakes hvalid hfsm hc =>
      refine hquiet (by rw [hc]; exact hlookup _) ?_ ?_
      · rcases hfsm with hfsm | hfsm <;> simp [hfsm]
      · rcases hfsm with hfsm | hfsm <;> simp [hfsm]
  | found hold hhit hfsm hc =>
      exact hquiet (by rw [hc]; exact hlookup _) (by simp [hfsm]) (by simp [hfsm])
  | absent hold hhit hfsm hc =>
      exact hquiet (by rw [hc]; exact hlookup _) (by simp [hfsm]) (by simp [hfsm])
  | inval hold hfsm hc =>
      refine hquiet (fun w t hl => ?_) (by simp [hfsm]) (by simp [hfsm])
      rw [hc, hcache.inval_line _ _ _ _ _ _ (hm.slots.inval hold).1] at hl
      split_ifs at hl
      rw [hc, hcache.inval_word]
      exact h.cached w t hl
  | sync hold hfsm hc =>
      refine hquiet (by rw [hc]; exact h.cached) ?_ ?_
      · rcases hfsm with hfsm | hfsm <;> simp [hfsm]
      · rcases hfsm with hfsm | hfsm <;> simp [hfsm]
  | cached hcached hcacheable =>
      cases hcached with
      | rest htakes hvalid hfsm hc =>
          exact hquiet (by rw [hc]; exact h.cached) (by simp [hfsm]) (by simp [hfsm])
      | readHit htakes hvalid htype hhit hfsm hc =>
          exact hquiet (by rw [hc]; exact hlookup _) (by simp [hfsm]) (by simp [hfsm])
      | writeMiss htakes hvalid htype hhit hfsm hc =>
          exact hquiet (by rw [hc]; exact hlookup _) (by simp [hfsm]) (by simp [hfsm])
      | unc htakes hvalid htype hfsm hc =>
          refine hquiet (by rw [hc]; exact hlookup _) (by simp [hfsm]) ?_
          rw [hfsm]
          rintro f ⟨⟩
          exact ReadKind.noConfusion
      | refused hold hstored hfsm hc =>
          exact hquiet (by rw [hc]; exact h.cached) (by simp [hfsm]) (by simp [hfsm])
      | update hold hfsm hc =>
          obtain ⟨hslot, hline, hword⟩ := hm.slots.update hold
          refine hquiet (fun w t hl => ?_) (by simp [hfsm]) (by simp [hfsm])
          rw [hc, hcache.write_line] at hl
          rw [hc, hcache.write_word _ _ _ _ _ _ _ _ _ _ hslot
            (hword ▸ Nat.mod_lt _ (cfg.words_pos .data)), if_neg]
          · exact h.cached w t hl
          · -- the store is to another word of the line, or to another line
            rintro ⟨rfl, rfl, hoffset⟩
            have hdiv : x / cfg.dcacheWords = cfg.lineNo m.node.xc.data.addrSave :=
              Option.some.inj (hl.symm.trans hline)
            refine h.update hold ?_
            rw [← Nat.div_add_mod x cfg.dcacheWords, hdiv, hoffset, hword]
            exact (Nat.div_add_mod _ _).symm
      | writeHit htakes hvalid htype hhit hfsm hc hdrsp haddr =>
          have hother : wordNo i.base.dreq.addr ≠ x := fun hx => by
            have hstores : m.storesTo cfg parts x i = true := by
              rw [SharedNode.storesTo, answers_next hnext, served_of_takes htakes, hd.drsp_eq,
                hdrsp]
              simp [Response.ok, htype, hcacheable htakes hvalid, hx]
            cases hown.symm.trans hstores
          refine .of_other List.mem_cons_self (fun w t hl => ?_) (fun _ => ?_) ?_
          · rw [hdc', hc] at hl ⊢
            exact List.mem_cons_of_mem _ (hlookup _ w t hl)
          · rwa [hd.addrSave, haddr]
          · simp [hfsm', hfsm]
      | readMiss htakes hvalid htype hhit hfsm hc hdrsp haddr =>
          have hsel : m'.node.xc.dcacheFsm = .read .missSelect := hfsm'.trans hfsm
          have hread' : m'.node.xc.readFsm .data = some .missSelect := by
            simp [XcacheWrapper.readFsm, hsel, DcacheFsm.serving]
          have hchannel := hm'.inv.channel .data
          refine ⟨List.mem_cons_self, fun w t hl => ?_, ?_, ?_, fun f _ _ _ g hg => ?_,
            fun f _ _ _ hacc => absurd (hchannel.unsent hread') hacc⟩
          · rw [hdc', hc] at hl ⊢
            exact List.mem_cons_of_mem _ (hlookup _ w t hl)
          · simp [hsel]
          · simp [hsel]
          · simp [(hchannel.fresh hread' rfl ReadFsm.noConfusion).2] at hg
      | read f hold hout =>
          have hread : m.node.xc.readFsm .data = some f := by
            simp [XcacheWrapper.readFsm, hold, DcacheFsm.serving]
          have hraised : d.raised = none := by rw [hout]
          have haddr : m'.node.xc.data.addrSave = m.node.xc.data.addrSave := by
            rw [hd.addrSave, hout]
            exact readTransition_addrSave ..
          cases (hm.inv.channel .data).fill_edge hfifo hm.flawless hold hout with
          | select hsel hfsm hc hway hset hword =>
              cases hold.symm.trans hsel
              obtain ⟨hzero, _⟩ := (hm.inv.channel .data).fresh hread rfl ReadFsm.noConfusion
              refine h.of_fill hN hindex hm hlegal hnext hd hold rfl hfsm hraised haddr ?_ ?_
              · simpa [hc, hcache.select_line, hcache.select_word] using h.cached
              · intro _ hlt
                rw [hword] at hlt
                exact absurd (hlt.trans_eq hzero) (Nat.not_lt_zero _)
          | inval hsel hfsm hc hway hset hword =>
              cases hold.symm.trans hsel
              obtain ⟨hzero, _⟩ := (hm.inv.channel .data).fresh hread rfl ReadFsm.noConfusion
              have hslot := hm.slots.slot _ hold rfl ReadFsm.noConfusion
              refine h.of_fill hN hindex hm hlegal hnext hd hold rfl hfsm hraised haddr ?_ ?_
              · intro w t hl
                rw [hc, hcache.inval_line _ _ _ _ _ _ hslot] at hl
                split_ifs at hl
                rw [hc, hcache.inval_word]
                exact h.cached w t hl
              · intro _ hlt
                rw [hword] at hlt
                exact absurd (hlt.trans_eq hzero) (Nat.not_lt_zero _)
          | wait hsel hfsm hc hway hset hword =>
              cases hold.symm.trans hsel
              refine h.of_fill hN hindex hm hlegal hnext hd hold rfl hfsm hraised haddr ?_ ?_
              · simpa [hc] using h.cached
              · rw [hc, hway, hset, hword]
                exact h.filled hold
          | word g hsel hg hfsm hc hway hset hword =>
              cases hold.symm.trans hsel
              have hslot := hm.slots.slot _ hold rfl ReadFsm.noConfusion
              refine h.of_fill hN hindex hm hlegal hnext hd hold rfl hfsm hraised haddr ?_ ?_
              · intro w t hl
                rw [hc, hcache.write_line] at hl
                rw [hc, hcache.write_word _ _ _ _ _ _ _ _ _ _ hslot (hm.inv.wordSave_lt hold hg),
                  if_neg]
                · exact h.cached w t hl
                · rintro ⟨rfl, rfl, _⟩
                  cases (hm.slots.free hold).symm.trans hl
              · rw [hc, hway, hset, hword]
                exact h.filled_word hcache hm hold hg
          | last g hsel hg hlast hfsm hc =>
              cases hold.symm.trans hsel
              have hslot := hm.slots.slot _ hold rfl ReadFsm.noConfusion
              refine hquiet (fun w t hl => ?_) (by simp [hfsm]) (by simp [hfsm])
              rw [hc, hcache.update_line _ _ _ _ _ _ hslot, hcache.write_line] at hl
              rw [hc, hcache.update_word]
              split_ifs at hl with hw
              · obtain ⟨rfl, rfl⟩ := hw
                refine h.filled_word hcache hm hold hg (Option.some.inj hl) ?_
                have hpos : 0 < cfg.dcacheWords := cfg.words_pos .data
                rw [hlast, Nat.sub_add_cancel hpos]
                exact Nat.mod_lt _ hpos
              · rw [hcache.write_word _ _ _ _ _ _ _ _ _ _ hslot (hm.inv.wordSave_lt hold hg),
                  if_neg fun hw' => hw ⟨hw'.1, hw'.2.1⟩]
                exact h.cached w t hl
          | unc hsel hfsm hc =>
              refine hquiet (by rw [hc]; exact h.cached) ?_ ?_
              · rcases hfsm with hfsm | hfsm <;> simp [hfsm]
              · intro f' hf
                rcases hfsm with hfsm | hfsm
                · cases hfsm.symm.trans hf
                · cases hfsm.symm.trans hf
                  exact ReadKind.noConfusion

/-! ## Invalidations and reads -/

/-- What is answered without being taken is in the registers. -/
theorem SharedInv.answered (hm : SharedInv cfg contents view m) {out : XcacheOut F C W}
    (hnext : m.next cfg parts i = .ok (m', out)) (hvalid : out.drsp.valid = true) :
    (m.node.xc.Takes parts ∧ m.log.served parts i.base m.node = i.base.dreq ∧
        i.base.dreq.type.plain = true) ∨
      ∃ q, m.log.taken = some q ∧ m.log.served parts i.base m.node = q ∧
        Underway cfg q m.node.xc.data.addrSave m.node.xc.dataSave m.node.xc.dcacheFsm := by
  obtain ⟨d, hcycle⟩ := next_store (sharedNext_ok hnext).1
  rcases hcycle.answered hvalid with ⟨htakes, htype⟩ | ⟨hbusy, -, -⟩
  · refine .inl ⟨htakes, served_of_takes htakes, ?_⟩
    rcases htype with htype | ⟨htype, -⟩ <;> rw [htype] <;> rfl
  · obtain ⟨q, hq, hunder⟩ := hm.holds hbusy
    exact .inr ⟨q, hq, served_of_busy hbusy hq, hunder⟩

/-- After the invalidation of its line nothing is kept of a word. -/
theorem Recent.of_inval (hcache : CacheLaws parts.cache cfg.dcacheWords view)
    (hxtn : cfg.xtnDcacheInval ≠ cfg.xtnSync) (hm : SharedInv cfg contents view m)
    {out : XcacheOut F C W} (hnext : m.next cfg parts i = .ok (m', out))
    (hvalid : out.drsp.valid = true)
    (hinval : isInval cfg (m.log.served parts i.base m.node) = true)
    (hline : cfg.lineNo (m.log.served parts i.base m.node).wdata = x / cfg.dcacheWords) :
    Recent cfg view [m'.mem x, m.mem x] x m' := by
  obtain ⟨d, cmd, rsp, hd⟩ := next_step (sharedNext_ok hnext).1
  obtain ⟨hplain, haddr⟩ : (m.log.served parts i.base m.node).type.plain = false ∧
      (m.log.served parts i.base m.node).addr / 4 = cfg.xtnDcacheInval := by
    simpa [isInval] using hinval
  -- nothing is left of the line, and no line is read
  have hgone (hcached : ∀ w t, view.line d.cache w t ≠ some (x / cfg.dcacheWords))
      (hfsm : d.fsm = .idle) : Recent cfg view [m'.mem x, m.mem x] x m' := by
    have hidle : m'.node.xc.dcacheFsm = .idle := hd.dcacheFsm.trans hfsm
    refine .of_other List.mem_cons_self (fun w t hl => ?_) (by simp [hidle]) (by simp [hidle])
    rw [hd.dcache] at hl
    exact absurd hl (hcached w t)
  rcases hm.answered hnext hvalid with ⟨-, hserved, htype⟩ | ⟨q, hq, hserved, hunder⟩
  · rw [hserved, htype] at hplain
    cases hplain
  · rw [hserved] at hplain haddr hline
    have hwdata : m.node.xc.dcacheFsm = .xtnHit ∨ m.node.xc.dcacheFsm = .xtnInval →
        cfg.lineNo m.node.xc.dataSave.wdata = x / cfg.dcacheWords := by
      intro hfsm
      obtain ⟨q', hq', hsame⟩ := hm.wdata hfsm
      cases hq.symm.trans hq'
      rw [hsame, hline]
    have hstep := hd.step
    generalize hfsm : m.node.xc.dcacheFsm = fsm at hunder hstep hwdata
    cases hunder with
    | miss _ _ htype =>
        rw [htype] at hplain
        cases hplain
    | unc _ _ _ htype => cases hplain.symm.trans htype
    | sync hsync => exact absurd (haddr.symm.trans (isSync_iff.mp hsync).2) hxtn
    | inval _ hwhich =>
        rcases hwhich with rfl | rfl
        · -- the line is in no slot, or it is still to be invalidated
          simp only [dcacheTransition] at hstep
          split_ifs at hstep with hhit
          · have hnone : out.drsp = .none := by
              rw [hd.drsp_eq]
              cases hstep
              rfl
            rw [hnone] at hvalid
            cases hvalid
          · cases hstep
            refine hgone (fun w t hl => ?_) rfl
            rw [← hwdata (.inl rfl)] at hl
            exact hcache.miss _ _ (Bool.eq_false_iff.mpr hhit) w t
              ((hcache.read_line ..).symm.trans hl)
        · obtain ⟨hslot, hkept⟩ := hm.slots.inval hfsm
          simp only [dcacheTransition] at hstep
          cases hstep
          refine hgone (fun w t hl => ?_) rfl
          have hl' := (hcache.inval_line _ _ _ _ w t hslot).symm.trans hl
          split_ifs at hl' with hsame
          rw [← hwdata (.inr rfl)] at hl'
          exact hsame (hm.slots.unique _ _ _ _ _ hl' hkept)

/-- A read of the cache is answered with a value that is known. -/
theorem Recent.read_answer (hfifo : FifoLaws parts.fifo contents)
    (hcache : CacheLaws parts.cache cfg.dcacheWords view) (hm : SharedInv cfg contents view m)
    {out : XcacheOut F C W} (hnext : m.next cfg parts i = .ok (m', out))
    (hvalid : out.drsp.valid = true)
    (hread : isCachedRead cfg (m.log.served parts i.base m.node) = true) {vs : List Word}
    (h : Recent cfg view vs (wordNo (m.log.served parts i.base m.node).addr) m) :
    ∃ v ∈ vs, out.drsp = .ok v := by
  obtain ⟨d, cmd, rsp, hd⟩ := next_step (sharedNext_ok hnext).1
  obtain ⟨htype, hcacheable⟩ : (m.log.served parts i.base m.node).type = .read ∧
      cfg.cacheable (m.log.served parts i.base m.node).addr = true := by
    simpa [isCachedRead] using hread
  have hrest : d.drsp ≠ .none := fun hnone => by
    rw [hd.drsp_eq, hnone] at hvalid
    cases hvalid
  rcases hm.answered hnext hvalid with ⟨htakes, hserved, -⟩ | ⟨q, hq, hserved, hunder⟩
  · rw [hserved] at htype hcacheable h
    rw [hd.drsp_eq]
    have hnot : ∀ fsm, m.node.xc.dcacheFsm = fsm → ¬ fsm.Busy ∧ fsm ≠ .writeUpdt := by
      rintro fsm rfl
      refine ⟨not_busy_of_takes htakes, fun hf => ?_⟩
      simp [XcacheWrapper.Takes, hf] at htakes
    cases dcacheTransition_shared hd.step with
    | unc _ _ hunc => cases hunc.symm.trans hcacheable
    | xtn _ _ _ _ _ hdrsp => exact absurd hdrsp hrest
    | found hold => exact absurd trivial (hnot _ hold).1
    | absent hold => exact absurd trivial (hnot _ hold).1
    | inval hold => exact absurd trivial (hnot _ hold).1
    | sync hold => exact absurd trivial (hnot _ hold).1
    | cached hcached _ =>
        cases hcached with
        | rest _ _ _ _ hdrsp => exact absurd hdrsp hrest
        | readHit _ hvalid' htype' hhit hfsm hc hdrsp =>
            obtain ⟨_, hline, _, hdata⟩ := hcache.hit _ _ hhit
            rw [hdrsp, hdata]
            exact ⟨_, h.cached _ _ hline, rfl⟩
        | readMiss _ _ _ _ _ _ hdrsp => exact absurd hdrsp hrest
        | writeHit _ _ htype' => cases htype'.symm.trans htype
        | writeMiss _ _ htype' => cases htype'.symm.trans htype
        | unc _ _ htype' => rcases htype' with htype' | htype' <;> cases htype'.symm.trans htype
        | update _ _ _ _ _ hdrsp => exact absurd hdrsp hrest
        | refused _ _ _ _ _ _ hdrsp => exact absurd hdrsp hrest
        | read f hold => exact absurd trivial (hnot _ hold).1
  · rw [hserved] at htype hread
    generalize hfsm : m.node.xc.dcacheFsm = fsm at hunder
    cases hunder with
    | miss f hf =>
        -- a line that is read is not answered before it is in the cache
        have hstep := hd.step
        rw [hfsm] at hstep
        simp only [dcacheTransition] at hstep
        have hfill := (hm.inv.channel .data).fill_edge hfifo hm.flawless hfsm
          (Except.ok.inj hstep).symm
        refine absurd (hfill.drsp_none fun hunc => hf ?_) hrest
        cases hfsm.symm.trans hunc
        rfl
    | unc =>
        obtain ⟨q', hq', hother⟩ := hm.uncached hfsm
        cases hq.symm.trans hq'
        cases hread.symm.trans hother
    | inval _ _ _ hplain =>
        rw [htype] at hplain
        cases hplain
    | sync hsync =>
        have hplain := (isSync_iff.mp hsync).1
        rw [htype] at hplain
        cases hplain

/-! ## Runs -/

/-- The values a word has in the last state of a run and in those before. -/
def valuesOf (x : Nat) (steps : List (SharedNode p F C W × SharedStimulus p))
    (m : SharedNode p F C W) : List Word :=
  m.mem x :: steps.reverse.map fun e => e.1.mem x

theorem reachable_sharedInv (hfifo : FifoLaws parts.fifo contents)
    (hindex : ∀ w, parts.wbuf.getIndex w < cfg.wbufNlines)
    (hcache : CacheLaws parts.cache cfg.dcacheWords view)
    (hm : (sharedSystem cfg parts).Reachable m) : SharedInv cfg contents view m := by
  refine hm.invariant (fun m hstart => ?_) fun m i m' hinv hstep => ?_
  · exact .start hfifo hcache hstart.1
  · obtain ⟨hlegal, out, hnext⟩ := hstep
    exact hinv.next hfifo hindex hcache hlegal hnext

/-- Once `XTN_DCACHE_INVAL` has been answered for a line, and until the processor stores to the
word, every read of a word of the line is answered with a value that the memory has had since,
whoever writes it. -/
theorem read_after_inval (cfg : XcacheConfig p) (parts : Parts F C W) (contents : F → List Word)
    (view : CacheView C) (hN : 32 ≤ p.N) (hfifo : FifoLaws parts.fifo contents)
    (hindex : ∀ w, parts.wbuf.getIndex w < cfg.wbufNlines)
    (hcache : CacheLaws parts.cache cfg.dcacheWords view)
    (hxtn : cfg.xtnDcacheInval ≠ cfg.xtnSync) {m₀ m : SharedNode p F C W}
    {i₀ i : SharedStimulus p} {before after : List (SharedNode p F C W × SharedStimulus p)}
    (hpath : (sharedSystem cfg parts).Path (before ++ (m₀, i₀) :: after) m)
    {q₀ q : DataRequest} {r₀ r : Response} (hanswer : m₀.answers cfg parts i₀ = some (q₀, r₀))
    (hinval : isInval cfg q₀ = true) (hanswer' : m.answers cfg parts i = some (q, r))
    (hread : isCachedRead cfg q = true) (hline : cfg.lineNo q₀.wdata = cfg.lineNo q.addr)
    (hown : ∀ e ∈ after, e.1.storesTo cfg parts (wordNo q.addr) e.2 = false) :
    ∃ v ∈ valuesOf (wordNo q.addr) ((m₀, i₀) :: after) m, r = .ok v := by
  have hrecent : Recent cfg view (valuesOf (wordNo q.addr) ((m₀, i₀) :: after) m)
      (wordNo q.addr) m := by
    refine System.Path.since (P := fun steps m => Recent cfg view
      (valuesOf (wordNo q.addr) steps m) (wordNo q.addr) m)
      (A := fun m i => m.storesTo cfg parts (wordNo q.addr) i = false) (fun m' hreach hstep => ?_)
      (fun steps m i m' hreach hrecent hown hstep => ?_) hpath hown
    · obtain ⟨-, out, hnext⟩ := hstep
      rw [answers_next hnext] at hanswer
      split_ifs at hanswer with hvalid
      cases hanswer
      exact .of_inval hcache hxtn (reachable_sharedInv hfifo hindex hcache hreach) hnext hvalid
        hinval hline
    · obtain ⟨hlegal, out, hnext⟩ := id hstep
      have hvalues : valuesOf (wordNo q.addr) (steps ++ [(m, i)]) m' =
          m'.mem (wordNo q.addr) :: valuesOf (wordNo q.addr) steps m := by
        simp [valuesOf]
      rw [hvalues]
      exact hrecent.next hN hfifo hindex hcache (reachable_sharedInv hfifo hindex hcache hreach)
        (reachable_sharedInv hfifo hindex hcache (hreach.step hstep)) hlegal hnext hown
  obtain ⟨m', out, hnext, hvalid, rfl, rfl⟩ := next_of_answers hanswer'
  exact hrecent.read_answer hfifo hcache
    (reachable_sharedInv hfifo hindex hcache hpath.reachable) hnext hvalid hread

/-! ## A small run -/

/-- The small wrapper in a shared memory in which every word is 7. -/
def smallShared : SharedNode smallParam (List Word) SetCache LineBuffer where
  node := smallNode
  mem _ := 7
  seen _ := []
  log := .blank

theorem smallShared_init : (sharedSystem smallConfig (smallParts 2)).init smallShared :=
  ⟨smallNode_start, rfl⟩

/-- Cycles in which the processor asks for data, while every word of the memory is `v`. -/
def sharing (v : Word) (q : DataRequest) (bus : List (Stimulus smallParam)) :
    List (SharedStimulus smallParam) :=
  bus.map fun i => ⟨{ i with dreq := q }, fun _ => v⟩

/-- A line is read from the memory. -/
def fetching (v : Word) (q : DataRequest) : List (SharedStimulus smallParam) :=
  sharing v q [quietCycle, quietCycle, takeCommand, respond (lineCommand q.addr) v false false,
    respond (lineCommand q.addr) v false false, respond (lineCommand q.addr) v false true,
    quietCycle]

/-- `XTN_DCACHE_INVAL`. -/
def invalRequest (addr : Addr) : DataRequest := ⟨true, 16, .xtnWrite, addr, 0xF⟩

/-- Words of both sets are read, and others write the memory before a line is invalidated. -/
theorem read_after_inval_shared : ∃ (m₀ m : SharedNode smallParam (List Word) SetCache LineBuffer)
    (i₀ i : SharedStimulus smallParam)
    (before after :
      List (SharedNode smallParam (List Word) SetCache LineBuffer × SharedStimulus smallParam)),
    (sharedSystem smallConfig (smallParts 2)).Path (before ++ (m₀, i₀) :: after) m ∧
      m.answers smallConfig (smallParts 2) i = some (loadWord 0x10, .ok 9) ∧
      ∃ v ∈ valuesOf (wordNo 0x10) ((m₀, i₀) :: after) m, Response.ok 9 = .ok v := by
  let step := SharedNode.legalNext smallConfig (smallParts 2)
  let inval : SharedStimulus smallParam :=
    ⟨{ quietCycle with dreq := invalRequest 0x10 }, fun _ => 9⟩
  let read : SharedStimulus smallParam := ⟨{ quietCycle with dreq := loadWord 0x10 }, fun _ => 9⟩
  have hrun : (exec step (fetching 7 (loadWord 0x18) ++ fetching 7 (loadWord 0x10) ++
      sharing 9 (invalRequest 0x10) [quietCycle, quietCycle]) smallShared).any (fun m₀ =>
        m₀.answers smallConfig (smallParts 2) inval = some (invalRequest 0x10, .ok 0) ∧
        (step m₀ inval).any fun m₁ =>
          ((trace step (fetching 9 (loadWord 0x10)) m₁).all fun e =>
            !e.1.storesTo smallConfig (smallParts 2) (wordNo 0x10) e.2) ∧
          (exec step (fetching 9 (loadWord 0x10)) m₁).any fun m =>
            m.answers smallConfig (smallParts 2) read = some (loadWord 0x10, .ok 9)) = true := by
    decide +kernel
  obtain ⟨m₀, hm₀, htest⟩ := System.exists_exec (S := sharedSystem smallConfig (smallParts 2))
    SharedNode.legalNext_step smallShared_init hrun
  obtain ⟨hinval, hrest⟩ := of_decide_eq_true htest
  obtain ⟨m₁, hm₁, htest⟩ := (Option.any_eq_true _ _).mp hrest
  obtain ⟨hown, hrest⟩ := of_decide_eq_true htest
  obtain ⟨m, hexec, hread⟩ := (Option.any_eq_true _ _).mp hrest
  replace hread : m.answers smallConfig (smallParts 2) read = some (loadWord 0x10, .ok 9) :=
    of_decide_eq_true hread
  obtain ⟨steps, hpath⟩ := hm₀.path
  replace hpath : (sharedSystem smallConfig (smallParts 2)).Path
      (steps ++ (m₀, inval) :: trace step (fetching 9 (loadWord 0x10)) m₁) m := by
    have hstep := hpath.step (SharedNode.legalNext_step _ _ _ hm₁)
    simpa using hstep.trace SharedNode.legalNext_step hexec
  exact ⟨m₀, m, inval, read, steps, _, hpath, hread, read_after_inval smallConfig (smallParts 2) id
    (setView 2 2) (Nat.le_refl 32) listFifo_laws (fun _ => Nat.one_pos) (smallCache_laws 2)
    (by decide)
    hpath hinval rfl hread rfl rfl fun e he =>
      (Bool.not_eq_true' _).mp (List.all_eq_true.mp hown e he)⟩

end SmcTp.Xcache
