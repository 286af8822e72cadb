import Mathlib.Data.List.Induction
import SmcTp.Xcache.Reads

/-!
# The cache that a line is read into

While a line is read, the cache of the client is what the effects of the read have made of
the cache in which the slot was selected (`Filling`).  The words that have come are then in
their places, and the line is in no slot until it is validated.

The invariant holds of both clients, under every clean contract.
-/

namespace SmcTp.Xcache

open Vci Clocked

variable {p : VciParams} {F C W : Type}

/-- The line of an address in the cache of a client. -/
def XcacheConfig.line (cfg : XcacheConfig p) (c : Client) (a : Addr) : Nat :=
  wordNo a / cfg.words c

/-! ## Replayed effects -/

section Replay

variable {ops : CacheOps C} {words : Nat} {view : CacheView C} {way set : Nat}

/-- The words of a line are written without a change of the lines. -/
theorem replay_writes_line (hcache : CacheLaws ops words view) (fs : List (RspFlit p)) (cache : C)
    (w s : Nat) :
    view.line (replay ops (writes way set fs) cache) w s = view.line cache w s := by
  induction fs using List.reverseRecOn with
  | nil => rfl
  | append_singleton fs f ih =>
      rw [writes_concat, replay_append]
      exact (hcache.write_line ..).trans ih

/-- The words of a line are written to their places. -/
theorem replay_writes_word (hcache : CacheLaws ops words view) {l : Nat}
    (hslot : view.slot l way set) {fs : List (RspFlit p)} (hlength : fs.length ≤ words) (cache : C)
    {j : Nat} {f : RspFlit p} (hf : fs[j]? = some f) :
    view.word (replay ops (writes way set fs) cache) way set j = wordOf f := by
  induction fs using List.reverseRecOn with
  | nil => cases hf
  | append_singleton fs g ih =>
      rw [List.length_append] at hlength
      have hlt : fs.length < words := hlength
      rw [writes_concat, replay_append]
      refine (hcache.write_word _ _ _ _ _ _ _ _ _ _ hslot hlt).trans ?_
      by_cases hj : j = fs.length
      · rw [hj, List.getElem?_concat_length] at hf
        rw [if_pos ⟨rfl, rfl, hj⟩, merge_full, Option.some.inj hf]
      · have hold : fs[j]? = some f := by
          have hlt' : j < (fs ++ [g]).length := (List.getElem?_eq_some_iff.mp hf).1
          rw [List.length_append, List.length_singleton] at hlt'
          rwa [List.getElem?_append_left (by omega)] at hf
        rw [if_neg fun h => hj h.2.2]
        exact ih (Nat.le_of_lt hlt) hold

/-- A line that is filled is in its slot with its words, and in no slot where it was not
before. -/
theorem replay_served (hcache : CacheLaws ops words view) {a : Access}
    (hslot : view.slot (wordNo a.addr / words) way set) {fs : List (RspFlit p)}
    (hlength : fs.length ≤ words) (cache : C) :
    (∀ w s, view.line (replay ops (served way set a fs .miss) cache) w s =
      if w = way ∧ s = set then some (wordNo a.addr / words) else view.line cache w s) ∧
    ∀ j f, fs[j]? = some f →
      view.word (replay ops (served way set a fs .miss) cache) way set j = wordOf f := by
  simp only [served, replay_append]
  constructor
  · intro w s
    refine (hcache.update_line _ _ _ _ _ _ hslot).trans ?_
    rw [replay_writes_line hcache]
  · intro j f hf
    exact (hcache.update_word ..).trans (replay_writes_word hcache hslot hlength cache hf)

end Replay

/-! ## The invariant -/

variable {cfg : XcacheConfig p} {parts : Parts F C W} {contents : F → List Word}
  {view : CacheView C} {contract : Contract p} {i : Stimulus p} {n n' : Node p F C W}
  {c : Client}

/-- What holds of the cache of a client that reads a line. -/
structure Filling (cfg : XcacheConfig p) (parts : Parts F C W) (view : CacheView C) (c : Client)
    (n : Node p F C W) : Prop where
  missing : ∀ f, n.xc.readFsm c = some f → f.kind = .miss →
    ∀ w s, view.line (n.xc.cache c) w s ≠ some (cfg.line c (n.xc.saved c).addr)
  slot : ∀ f, n.xc.readFsm c = some f → f.kind = .miss → f ≠ .missSelect →
    view.slot (cfg.line c (n.xc.saved c).addr) (n.xc.side c).waySave (n.xc.side c).setSave
  replayed : n.xc.readFsm c = some .missWait → ∃ cache,
    n.xc.cache c = replay parts.cache (n.log c).current.effects cache ∧
      ∀ w s, view.line cache w s ≠ some (cfg.line c (n.xc.saved c).addr)

/-- Outside of the read of a line there is nothing to hold. -/
theorem Filling.of_other (h : ∀ f, n.xc.readFsm c = some f → f.kind = .unc) :
    Filling cfg parts view c n where
  missing f hf hkind := by cases (h f hf).symm.trans hkind
  slot f hf hkind := by cases (h f hf).symm.trans hkind
  replayed hf := by cases h _ hf

/-- Before a word has come the line is only missing. -/
theorem Filling.of_unfilled
    (hmissing : ∀ w s, view.line (n.xc.cache c) w s ≠ some (cfg.line c (n.xc.saved c).addr))
    (hslot : ∀ f, n.xc.readFsm c = some f → f ≠ .missSelect →
      view.slot (cfg.line c (n.xc.saved c).addr) (n.xc.side c).waySave (n.xc.side c).setSave)
    (heffects : n.xc.readFsm c = some .missWait → (n.log c).current.effects = []) :
    Filling cfg parts view c n where
  missing _ _ _ := hmissing
  slot f hf _ := hslot f hf
  replayed hf := ⟨n.xc.cache c, by rw [heffects hf]; rfl, hmissing⟩

/-- A read has no effects before it waits. -/
theorem Channel.no_effects (hc : Channel cfg contents c n) {f : ReadFsm}
    (hfsm : n.xc.readFsm c = some f) (hwait : f ≠ f.kind.wait) :
    (n.log c).current.effects = [] := by
  have hnot : ∀ k : ReadKind, n.xc.readFsm c ≠ some k.wait := by
    intro k hk
    cases hfsm.symm.trans hk
    cases k <;> exact hwait rfl
  cases hc with
  | rest hf => cases hfsm.symm.trans hf
  | raised k f' _ _ _ _ hread => rw [hread.record]
  | sending k f' _ _ _ _ _ hread => rw [hread.record]
  | waiting k _ hf => exact absurd hf (hnot k)
  | receiving k _ _ hf => exact absurd hf (hnot k)
  | drained k _ _ hf => exact absurd hf (hnot k)
  | failed k _ _ hf => exact absurd hf (hnot k)

/-- The address a client has saved. -/
theorem saved_addr (s : XcacheWrapper F C W) (c : Client) :
    (s.saved c).addr = (s.side c).addrSave := by
  cases c <;> rfl

/-- A read that waits keeps its slot. -/
theorem readTransition_slot (parts : Parts F C W) (words : Nat) (same : Bool) (side : Side F)
    (cache : C) :
    (readTransition parts words same .missWait side cache).side.waySave = side.waySave ∧
      (readTransition parts words same .missWait side cache).side.setSave = side.setSave := by
  simp only [readTransition]
  split_ifs <;> exact ⟨rfl, rfl⟩

theorem Filling.next (hcache : CacheLaws parts.cache (cfg.words c) view)
    (hc : Channel cfg contents c n) (h : Filling cfg parts view c n) {out : ClientOut F C}
    {cmd : CmdOut W} {rsp : RspOut W} (he : Edge cfg parts i n n' c out cmd rsp) :
    Filling cfg parts view c n' := by
  have hcache' := he.cache
  have hnext' := he.readFsm
  cases he.serves with
  | rest hf hnext =>
      refine .of_other fun f hf' => ?_
      rw [hnext', hnext] at hf'
      cases hf'
  | raise k hf hnext hsaved hplain hreq hword hmiss =>
      cases k with
      | unc =>
          refine .of_other fun f hf' => ?_
          rw [hnext', hnext] at hf'
          cases hf'
          rfl
      | miss =>
          obtain ⟨hhit, hread⟩ := hmiss rfl
          have hsel : n'.xc.readFsm c = some .missSelect := hnext'.trans hnext
          refine .of_unfilled (fun w s => ?_) (fun f hf' hne => ?_) fun hf' => ?_
          · rw [hcache', hread, hcache.read_line, he.saved, hsaved]
            exact hcache.miss _ _ hhit w s
          · cases hsel.symm.trans hf'
            exact absurd rfl hne
          · cases hsel.symm.trans hf'
  | read f hfsm hserves =>
      have hsaved' : n'.xc.saved c = n.xc.saved c := he.saved.trans hserves.saved
      have hway : (n'.xc.side c).waySave = out.side.waySave := he.slot.1
      have hset : (n'.xc.side c).setSave = out.side.setSave := he.slot.2.1
      -- an automaton that goes on keeps its record
      have hcurrent : ∀ f', out.fsm = some f' →
          (n'.log c).current.effects = (n.log c).current.effects ++ out.effects := by
        intro f' hf'
        rw [he.log, hf']
        simp [Log.next, Record.note]
      cases f with
      | missSelect =>
          refine .of_unfilled (fun w s => ?_) (fun f' _ _ => ?_) fun hf' => ?_
          · rw [hcache', hserves.cache, hsaved']
            exact (hcache.select_line ..).trans_ne (h.missing _ hfsm rfl w s)
          · rw [hway, hset, hserves.side, hsaved', saved_addr]
            exact hcache.select_slot _ _
          · rw [hcurrent _ (hnext'.symm.trans hf'), hserves.effects,
              hc.no_effects hfsm ReadFsm.noConfusion]
            rfl
      | missInval =>
          have hslot := h.slot _ hfsm rfl ReadFsm.noConfusion
          refine .of_unfilled (fun w s => ?_) (fun f' _ _ => ?_) fun hf' => ?_
          · rw [hcache', hserves.cache, hsaved']
            simp only [readTransition]
            rw [hcache.inval_line _ _ _ _ _ _ hslot]
            split_ifs
            · simp
            · exact h.missing _ hfsm rfl w s
          · rw [hway, hset, hserves.side, hsaved']
            exact hslot
          · rw [hcurrent _ (hnext'.symm.trans hf'), hserves.effects,
              hc.no_effects hfsm ReadFsm.noConfusion]
            rfl
      | missWait =>
          cases hf' : out.fsm with
          | none =>
              refine .of_other fun f hf => ?_
              rw [hnext', hf'] at hf
              cases hf
          | some f' =>
              obtain ⟨cache, hreplay, hmissing⟩ := h.replayed hfsm
              have hslot := h.slot _ hfsm rfl ReadFsm.noConfusion
              -- only the last word of a line validates it
              have hlines : ∀ w s,
                  view.line (n'.xc.cache c) w s = view.line (n.xc.cache c) w s := by
                intro w s
                have hgoes := hserves.next.symm.trans hf'
                rw [hcache', hserves.cache]
                simp only [readTransition] at hgoes ⊢
                split_ifs at hgoes ⊢
                · exact hcache.write_line ..
                · rfl
              refine ⟨fun _ _ _ w s => ?_, fun _ _ _ _ => ?_, fun _ => ⟨cache, ?_, ?_⟩⟩
              · rw [hlines, hsaved']
                exact h.missing _ hfsm rfl w s
              · obtain ⟨hway', hset'⟩ := readTransition_slot parts (cfg.words c)
                  (n.xc.again i.ireq i.dreq c) (n.xc.side c) (n.xc.cache c)
                rw [hway, hset, hserves.side, hsaved', hway', hset']
                exact hslot
              · rw [hcurrent _ hf', replay_append, ← hreplay, hcache', hserves.cache,
                  hserves.effects]
                exact (readTransition_effects parts _ _ .miss _ _).1
              · rw [hsaved']
                exact hmissing
      | uncWait =>
          refine .of_other fun f' hf' => ?_
          rw [hnext', hserves.next] at hf'
          simp only [readTransition] at hf'
          split_ifs at hf'
          cases hf'
          rfl

theorem Filling.start (h : n.Start parts) : Filling cfg parts view c n := by
  obtain ⟨⟨s, hxc⟩, _, _⟩ := h
  refine .of_other fun f hf => ?_
  rw [hxc] at hf
  cases c with
  | ins => cases hf
  | data => cases hf

theorem reachable_filling (hfifo : FifoLaws parts.fifo contents)
    (hindex : ∀ w, parts.wbuf.getIndex w < cfg.wbufNlines) (hclean : contract.Clean cfg)
    (hcache : CacheLaws parts.cache (cfg.words c) view)
    (hn : (system cfg parts contract).Reachable n) : Filling cfg parts view c n := by
  refine (hn.invariant (P := fun m => Inv cfg contents m ∧ Filling cfg parts view c m)
    (fun m hstart => ⟨.start hfifo hstart, .start hstart⟩) fun m i m' hm hstep => ?_).2
  obtain ⟨hlegal, o, hnext⟩ := hstep
  obtain ⟨outs, cmd, rsp, hedge⟩ := next_edge hnext
  exact ⟨hm.1.next hfifo hindex hclean hlegal hnext,
    hm.2.next hcache (hm.1.channel c) (hedge c).1⟩

end SmcTp.Xcache
