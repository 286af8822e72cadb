import SmcTp.Xcache.Parts

/-!
# What the library components promise

`FifoLaws`, `CacheLaws` and `WbufLaws` say how a FIFO, a cache and a write buffer behave, in
terms of an abstraction of their states: the words of the FIFO, for each slot of the cache its
line and its words, and the stores of the write buffer that are not completed.  The laws of the
write buffer are about `WbufOps.traced`, which also keeps the calls that have changed it.
Components that keep the laws are at the end: a list of two words, a set-associative cache, and
a write buffer that merges the stores to one line.
-/

namespace SmcTp.Xcache

/-! ## Words and bytes -/

/-- The number of the word at an address. -/
def wordNo (a : Addr) : Nat := a.toNat / 4

/-- The bits of the enabled bytes. -/
def byteMask (be : BitVec 4) : Word :=
  (if be.getLsbD 0 then 0x000000FF else 0) ||| (if be.getLsbD 1 then 0x0000FF00 else 0) |||
    (if be.getLsbD 2 then 0x00FF0000 else 0) ||| (if be.getLsbD 3 then 0xFF000000 else 0)

/-- The enabled bytes of a word are written. -/
def merge (be : BitVec 4) (old new : Word) : Word :=
  (byteMask be &&& new) ||| (~~~byteMask be &&& old)

@[simp] theorem merge_full (old new : Word) : merge 0xF old new = new := by
  have hmask : byteMask 0xF = BitVec.allOnes 32 := by decide
  rw [merge, hmask, BitVec.not_allOnes, BitVec.allOnes_and, BitVec.zero_and, BitVec.or_zero]

/-! ## Laws -/

/-- `GenericFifo` with two places, as a list of words. -/
structure FifoLaws {F : Type} (ops : FifoOps F) (contents : F → List Word) : Prop where
  init : ∀ f, contents (ops.init f) = []
  rok : ∀ f, ops.rok f = true ↔ contents f ≠ []
  wok : ∀ f, ops.wok f = true ↔ (contents f).length < 2
  read : ∀ f d l, contents f = d :: l → ops.read f = d
  update : ∀ f get put d, (get = true → contents f ≠ []) →
    (put = true → (contents f).length < 2) →
    contents (ops.update get put d f) =
      (if get then (contents f).tail else contents f) ++ if put then [d] else []

/-- A FIFO is read from exactly when it holds a word. -/
theorem FifoLaws.rok_of_nil {F : Type} {ops : FifoOps F} {contents : F → List Word}
    (h : FifoLaws ops contents) {f : F} (hf : contents f = []) : ops.rok f = false :=
  Bool.eq_false_iff.mpr fun hr => (h.rok f).mp hr hf

theorem FifoLaws.rok_of_cons {F : Type} {ops : FifoOps F} {contents : F → List Word}
    (h : FifoLaws ops contents) {f : F} {d : Word} {l : List Word} (hf : contents f = d :: l) :
    ops.rok f = true :=
  (h.rok f).mpr (by rw [hf]; exact List.cons_ne_nil d l)

/-- The slots of a cache: the ways and sets a line may be in, the line a slot holds when it is
valid, and the words stored in it. -/
structure CacheView (C : Type) where
  slot : (line way set : Nat) → Prop
  line : C → Nat → Nat → Option Nat
  word : C → Nat → Nat → Nat → Word

/-- `GenericCache`, with lines of `words` words.  A line is found, selected and validated in the
slots of its own set. -/
structure CacheLaws {C : Type} (ops : CacheOps C) (words : Nat) (view : CacheView C) : Prop where
  reset : ∀ c w s, view.line (ops.reset c) w s = none
  read_line : ∀ a c w s, view.line (ops.read a c).2 w s = view.line c w s
  read_word : ∀ a c w s j, view.word (ops.read a c).2 w s j = view.word c w s j
  hit : ∀ a c, (ops.read a c).1.hit = true →
    view.slot (wordNo a / words) (ops.read a c).1.way (ops.read a c).1.set ∧
      view.line c (ops.read a c).1.way (ops.read a c).1.set = some (wordNo a / words) ∧
      (ops.read a c).1.word = wordNo a % words ∧
      (ops.read a c).1.rdata =
        view.word c (ops.read a c).1.way (ops.read a c).1.set (wordNo a % words)
  miss : ∀ a c, (ops.read a c).1.hit = false → ∀ w s, view.line c w s ≠ some (wordNo a / words)
  select_line : ∀ a c w s, view.line (ops.victimSelect a c).2 w s = view.line c w s
  select_word : ∀ a c w s j, view.word (ops.victimSelect a c).2 w s j = view.word c w s j
  select_slot : ∀ a c, view.slot (wordNo a / words) (ops.victimSelect a c).1.way
    (ops.victimSelect a c).1.set
  select_free : ∀ a c, (ops.victimSelect a c).1.valid = false →
    view.line c (ops.victimSelect a c).1.way (ops.victimSelect a c).1.set = none
  inval_line : ∀ l w s c w' s', view.slot l w s → view.line (ops.inval w s c) w' s' =
    if w' = w ∧ s' = s then none else view.line c w' s'
  inval_word : ∀ w s c w' s' j, view.word (ops.inval w s c) w' s' j = view.word c w' s' j
  write_line : ∀ w s j d be c w' s', view.line (ops.write w s j d be c) w' s' = view.line c w' s'
  write_word : ∀ l w s j d be c w' s' j', view.slot l w s → j < words →
    view.word (ops.write w s j d be c) w' s' j' =
      if w' = w ∧ s' = s ∧ j' = j then merge be (view.word c w s j) d else view.word c w' s' j'
  update_line : ∀ a w s c w' s', view.slot (wordNo a / words) w s →
    view.line (ops.victimUpdateTag a w s c) w' s' =
      if w' = w ∧ s' = s then some (wordNo a / words) else view.line c w' s'
  update_word : ∀ a w s c w' s' j,
    view.word (ops.victimUpdateTag a w s c) w' s' j = view.word c w' s' j

/-! ## Write buffers -/

/-- A call of a method that changes the write buffer. -/
inductive WbufCall where
  /-- `write(addr, be, wdata, cacheable)`, and whether it is accepted. -/
  | write (addr : Addr) (be : BitVec 4) (wdata : Word) (cacheable accepted : Bool)
  /-- `rok(&min, &max)`, which has found a burst. -/
  | rok (first last : Nat)
  /-- `sent()` -/
  | sent
  /-- `completed(index)` -/
  | completed (index : Nat)
deriving DecidableEq, Repr

/-- A write buffer and its calls, oldest first. -/
structure Traced (W : Type) where
  wbuf : W
  calls : List WbufCall
deriving DecidableEq, Repr

/-- A write buffer that keeps its calls. -/
def WbufOps.traced (ops : WbufOps W) : WbufOps (Traced W) where
  reset w := ⟨ops.reset w.wbuf, []⟩
  write addr be wdata cacheable w :=
    ((ops.write addr be wdata cacheable w.wbuf).1,
      { wbuf := (ops.write addr be wdata cacheable w.wbuf).2
        calls := w.calls ++
          [.write addr be wdata cacheable (ops.write addr be wdata cacheable w.wbuf).1] })
  update w := ⟨ops.update w.wbuf, w.calls⟩
  empty w := ops.empty w.wbuf
  miss addr w := ops.miss addr w.wbuf
  rok w :=
    ((ops.rok w.wbuf).1,
      { wbuf := (ops.rok w.wbuf).2
        calls := w.calls ++ ((ops.rok w.wbuf).1.map fun burst => .rok burst.1 burst.2).toList })
  sent w := ⟨ops.sent w.wbuf, w.calls ++ [.sent]⟩
  completed index w := ⟨ops.completed index w.wbuf, w.calls ++ [.completed index]⟩
  getAddress j w := ops.getAddress j w.wbuf
  getData j w := ops.getData j w.wbuf
  getBe j w := ops.getBe j w.wbuf
  getIndex w := ops.getIndex w.wbuf

/-- The states of a write buffer after some calls. -/
inductive WbufOps.Reached {W : Type} (ops : WbufOps W) : Traced W → Prop where
  | reset (w : Traced W) : ops.Reached (ops.traced.reset w)
  | write {w : Traced W} (addr : Addr) (be : BitVec 4) (wdata : Word) (cacheable : Bool)
      (hw : ops.Reached w) : ops.Reached (ops.traced.write addr be wdata cacheable w).2
  | update {w : Traced W} (hw : ops.Reached w) : ops.Reached (ops.traced.update w)
  | rok {w : Traced W} (hw : ops.Reached w) : ops.Reached (ops.traced.rok w).2
  | sent {w : Traced W} (hw : ops.Reached w) : ops.Reached (ops.traced.sent w)
  | completed {w : Traced W} (index : Nat) (hw : ops.Reached w) :
      ops.Reached (ops.traced.completed index w)

/-- A store, as it is handed to the write buffer. -/
structure Store where
  addr : Addr
  be : BitVec 4
  wdata : Word
deriving DecidableEq, Repr

/-- `MultiWriteBuffer`, with the accepted stores that are not completed, oldest first.  Which
they are may depend on all the calls, since stores to one line are merged.  The write buffer is
empty only when there are none. -/
structure WbufLaws {W : Type} (ops : WbufOps W) (uncompleted : Traced W → List Store) : Prop where
  reset : ∀ w, uncompleted (ops.traced.reset w) = []
  accepted : ∀ w a be d c, ops.Reached w → (ops.traced.write a be d c w).1 = true →
    uncompleted (ops.traced.write a be d c w).2 = uncompleted w ++ [⟨a, be, d⟩]
  refused : ∀ w a be d c, ops.Reached w → (ops.traced.write a be d c w).1 = false →
    uncompleted (ops.traced.write a be d c w).2 = uncompleted w
  update : ∀ w, ops.Reached w → uncompleted (ops.traced.update w) = uncompleted w
  rok : ∀ w, ops.Reached w → uncompleted (ops.traced.rok w).2 = uncompleted w
  sent : ∀ w, ops.Reached w → uncompleted (ops.traced.sent w) = uncompleted w
  completed : ∀ w k, ops.Reached w →
    (uncompleted (ops.traced.completed k w)).Sublist (uncompleted w)
  empty : ∀ w, ops.Reached w → ops.traced.empty w = true → uncompleted w = []

/-! ## Components that keep the laws -/

/-- A FIFO as a list. -/
def listFifo : FifoOps (List Word) where
  init _ := []
  rok f := !f.isEmpty
  wok f := f.length < 2
  read f := f.headD 0
  update get put d f := (if get then f.tail else f) ++ if put then [d] else []

theorem listFifo_laws : FifoLaws listFifo id where
  init _ := rfl
  rok f := by simp [listFifo]
  wok f := by simp [listFifo]
  read f d l h := by
    obtain rfl : f = d :: l := h
    rfl
  update f get put d _ _ := rfl

/-- A set-associative cache. -/
structure SetCache where
  /-- The tags of the valid slots. -/
  tag : (way set : Nat) → Option Nat
  data : (way set word : Nat) → Word
  /-- How often a full set has been searched for a victim. -/
  turn : (set : Nat) → Nat

/-- The methods of a cache with `ways` ways and `sets` sets.  A line is in the set that its last
digits name, and the ways of a full set are evicted in turn. -/
def setCache (ways sets words : Nat) : CacheOps SetCache where
  reset c := { c with tag := fun _ _ => none }
  read a c :=
    let line := wordNo a / words
    let way := (List.range ways).find? fun w => c.tag w (line % sets) = some (line / sets)
    ({ hit := way.isSome
       rdata := c.data (way.getD 0) (line % sets) (wordNo a % words)
       way := way.getD 0
       set := line % sets
       word := wordNo a % words }, c)
  victimSelect a c :=
    let set := wordNo a / words % sets
    match (List.range ways).find? fun w => (c.tag w set).isNone with
    | some w => (⟨false, w, set⟩, c)
    | none => (⟨true, c.turn set % ways, set⟩,
        { c with turn := fun s => if s = set then c.turn s + 1 else c.turn s })
  inval way set c := { c with tag := fun w s => if w = way ∧ s = set then none else c.tag w s }
  write way set word d be c :=
    { c with data := fun w s j =>
      if w = way ∧ s = set ∧ j = word then merge be (c.data way set word) d else c.data w s j }
  victimUpdateTag a way set c :=
    { c with tag := fun w s =>
      if w = way ∧ s = set then some (wordNo a / words / sets) else c.tag w s }

/-- The slots of a line are the ways of its set. -/
def setView (ways sets : Nat) : CacheView SetCache where
  slot l w s := w < ways ∧ s = l % sets
  line c w s := if w < ways ∧ s < sets then (c.tag w s).map fun t => t * sets + s else none
  word c w s j := c.data w s j

namespace SetCache

variable {ways sets : Nat} {c : SetCache}

/-- A slot holds a line if it has its tag and is of its set. -/
theorem line_eq_some_iff {w s l : Nat} : (setView ways sets).line c w s = some l ↔
    w < ways ∧ s < sets ∧ s = l % sets ∧ c.tag w s = some (l / sets) := by
  simp only [setView]
  split_ifs with hslot
  · obtain ⟨hw, hs⟩ := hslot
    rw [Option.map_eq_some_iff]
    constructor
    · rintro ⟨t, ht, rfl⟩
      have hdiv : (t * sets + s) / sets = t := by
        rw [Nat.mul_comm, Nat.mul_add_div (by omega), Nat.div_eq_of_lt hs, Nat.add_zero]
      exact ⟨hw, hs, by rw [Nat.mul_add_mod_of_lt hs], by rw [hdiv, ht]⟩
    · rintro ⟨_, _, hmod, htag⟩
      refine ⟨l / sets, htag, ?_⟩
      rw [hmod, Nat.mul_comm]
      exact Nat.div_add_mod l sets
  · simp only [false_iff]
    rintro ⟨hw, hs, -⟩
    exact hslot ⟨hw, hs⟩

/-- A way that is found is one of the ways. -/
theorem of_find {test : Nat → Bool} {w : Nat} (h : (List.range ways).find? test = some w) :
    w < ways ∧ test w = true :=
  ⟨List.mem_range.mp (List.mem_of_find?_eq_some h), List.find?_some h⟩

/-- A line that is not found is in no slot. -/
theorem line_ne_of_find {l : Nat} (h : (List.range ways).find?
    (fun w => decide (c.tag w (l % sets) = some (l / sets))) = none) (w s : Nat) :
    (setView ways sets).line c w s ≠ some l := by
  intro hline
  obtain ⟨hw, _, rfl, htag⟩ := line_eq_some_iff.mp hline
  exact List.find?_eq_none.mp h w (List.mem_range.mpr hw) (decide_eq_true htag)

/-- Giving one slot a tag gives it a line. -/
theorem line_update {w s w' s' : Nat} {t : Option Nat} (hw : w < ways) (hs : s < sets) :
    (setView ways sets).line
        { c with tag := fun w' s' => if w' = w ∧ s' = s then t else c.tag w' s' } w' s' =
      if w' = w ∧ s' = s then t.map (fun t => t * sets + s)
      else (setView ways sets).line c w' s' := by
  by_cases hslot : w' = w ∧ s' = s
  · obtain ⟨rfl, rfl⟩ := hslot
    simp [setView, hw, hs]
  · simp [setView, hslot]

end SetCache

theorem setCache_laws {ways sets : Nat} (words : Nat) (hways : 0 < ways) (hsets : 0 < sets) :
    CacheLaws (setCache ways sets words) words (setView ways sets) where
  reset c w s := by simp [setCache, setView]
  read_line _ _ _ _ := rfl
  read_word _ _ _ _ _ := rfl
  hit a c h := by
    obtain ⟨w, hfind⟩ := Option.isSome_iff_exists.mp h
    obtain ⟨hw, htag⟩ := SetCache.of_find hfind
    have hset : wordNo a / words % sets < sets := Nat.mod_lt _ hsets
    have hway : ((setCache ways sets words).read a c).1.way = w := by
      simp only [setCache, hfind, Option.getD_some]
    rw [hway]
    refine ⟨⟨hw, rfl⟩, ?_, rfl, ?_⟩
    · exact SetCache.line_eq_some_iff.mpr ⟨hw, hset, rfl, of_decide_eq_true htag⟩
    · simp only [setCache, setView, hfind, Option.getD_some]
  miss a c h :=
    SetCache.line_ne_of_find (Option.isNone_iff_eq_none.mp (Option.isSome_eq_false_iff.mp h))
  select_line a c w s := by
    simp only [setCache]
    split <;> rfl
  select_word a c w s j := by
    simp only [setCache]
    split <;> rfl
  select_slot a c := by
    simp only [setCache]
    split
    · rename_i w hfind
      exact ⟨(SetCache.of_find hfind).1, rfl⟩
    · exact ⟨Nat.mod_lt _ hways, rfl⟩
  select_free a c h := by
    simp only [setCache] at h ⊢
    split at h
    · rename_i w hfind
      have hnone : c.tag w (wordNo a / words % sets) = none :=
        Option.isNone_iff_eq_none.mp (SetCache.of_find hfind).2
      simp [setView, hnone]
    · cases h
  inval_line l w s c w' s' hslot := by
    obtain ⟨hw, rfl⟩ := hslot
    exact SetCache.line_update (t := none) hw (Nat.mod_lt _ hsets)
  inval_word _ _ _ _ _ _ := rfl
  write_line _ _ _ _ _ _ _ _ := rfl
  write_word _ _ _ _ _ _ _ _ _ _ _ _ := rfl
  update_line a w s c w' s' hslot := by
    obtain ⟨hw, rfl⟩ := hslot
    have hline : wordNo a / words / sets * sets + wordNo a / words % sets = wordNo a / words := by
      rw [Nat.mul_comm]
      exact Nat.div_add_mod _ _
    refine (SetCache.line_update (t := some _) hw (Nat.mod_lt _ hsets)).trans ?_
    rw [Option.map_some, hline]
  update_word _ _ _ _ _ _ _ := rfl

/-- The states of a line of the write buffer. -/
inductive LineState where
  | empty | filling | locked | sent
deriving DecidableEq, Repr

/-- A write buffer of one line. -/
structure LineBuffer where
  state : LineState
  /-- The number of the line. -/
  line : Nat
  data : Nat → Word
  be : Nat → BitVec 4
  /-- The words that have been written are in this range. -/
  first : Nat
  last : Nat
  ordered : first ≤ last
  /-- The cycles that are left until the line is locked. -/
  timer : Nat

namespace LineBuffer

/-- A word is written to an empty line. -/
def fill (words delay : Nat) (a : Addr) (be : BitVec 4) (d : Word) : LineBuffer where
  state := .filling
  line := wordNo a / words
  data _ := d
  be j := if j = wordNo a % words then be else 0
  first := wordNo a % words
  last := wordNo a % words
  ordered := Nat.le_refl _
  timer := delay

/-- A word is written to a line that is filled. -/
def merge (words delay : Nat) (a : Addr) (be : BitVec 4) (d : Word) (w : LineBuffer) :
    LineBuffer where
  state := .filling
  line := w.line
  data j := if j = wordNo a % words then Xcache.merge be (w.data j) d else w.data j
  be j := if j = wordNo a % words then w.be j ||| be else w.be j
  first := min w.first (wordNo a % words)
  last := max w.last (wordNo a % words)
  ordered := Nat.le_trans (Nat.min_le_left _ _) (Nat.le_trans w.ordered (Nat.le_max_left _ _))
  timer := delay

end LineBuffer

/-- The methods of a write buffer with one line.  The line is locked after some cycles without
a store. -/
def lineBuffer (words delay : Nat) : WbufOps LineBuffer where
  reset w := { w with state := .empty }
  write a be d _ w :=
    match w.state with
    | .empty => (true, .fill words delay a be d)
    | .filling =>
        if w.line = wordNo a / words then (true, w.merge words delay a be d) else (false, w)
    | .locked | .sent => (false, w)
  update w :=
    match w.state, w.timer with
    | .filling, 0 => { w with state := .locked }
    | .filling, t + 1 => { w with timer := t }
    | _, _ => w
  empty w := w.state = .empty
  miss a w := w.state = .empty || w.line ≠ wordNo a / words
  rok w := (if w.state = .locked then some (w.first, w.last) else none, w)
  sent w := { w with state := .sent }
  completed _ w := { w with state := .empty }
  getAddress j w := BitVec.ofNat 32 ((w.line * words + j) * 4)
  getData j w := w.data j
  getBe j w := w.be j
  getIndex _ := 0

namespace LineBuffer

variable {words delay : Nat}

/-- The line is completed as a whole. -/
def keeps (l : List Store) : WbufCall → List Store
  | .write addr be wdata _ true => l ++ [⟨addr, be, wdata⟩]
  | .completed _ => []
  | _ => l

/-- The stores that have been merged into the line. -/
def uncompleted (w : Traced LineBuffer) : List Store := w.calls.foldl keeps []

theorem uncompleted_write (w : Traced LineBuffer) (a : Addr) (be : BitVec 4) (d : Word) (c : Bool) :
    uncompleted ((lineBuffer words delay).traced.write a be d c w).2 =
      uncompleted w ++
        if ((lineBuffer words delay).traced.write a be d c w).1 then [⟨a, be, d⟩] else [] := by
  have hcalls : ((lineBuffer words delay).traced.write a be d c w).2.calls = w.calls ++
      [.write a be d c ((lineBuffer words delay).traced.write a be d c w).1] := rfl
  rw [uncompleted, hcalls, List.foldl_append]
  cases ((lineBuffer words delay).traced.write a be d c w).1 with
  | true => rfl
  | false => exact (List.append_nil _).symm

theorem uncompleted_rok (w : Traced LineBuffer) :
    uncompleted ((lineBuffer words delay).traced.rok w).2 = uncompleted w := by
  simp only [WbufOps.traced, uncompleted, List.foldl_append]
  cases ((lineBuffer words delay).rok w.wbuf).1 <;> rfl

theorem uncompleted_sent (w : Traced LineBuffer) :
    uncompleted ((lineBuffer words delay).traced.sent w) = uncompleted w := by
  simp only [WbufOps.traced, uncompleted, List.foldl_append]
  rfl

theorem uncompleted_completed (w : Traced LineBuffer) (k : Nat) :
    uncompleted ((lineBuffer words delay).traced.completed k w) = [] := by
  simp only [WbufOps.traced, uncompleted, List.foldl_append]
  rfl

/-- A write leaves no line empty. -/
theorem state_write (words delay : Nat) (w : LineBuffer) (a : Addr) (be : BitVec 4) (d : Word)
    (c : Bool) :
    ((lineBuffer words delay).write a be d c w).2.state ≠ .empty := by
  cases hstate : w.state with
  | empty => simp [lineBuffer, hstate, fill]
  | filling =>
      simp only [lineBuffer, hstate]
      split <;> simp [merge, hstate]
  | locked | sent => simp [lineBuffer, hstate]

theorem state_update (words delay : Nat) (w : LineBuffer) :
    ((lineBuffer words delay).update w).state = .empty ↔ w.state = .empty := by
  cases hstate : w.state <;> cases htimer : w.timer <;> simp [lineBuffer, hstate, htimer]

/-- An empty line has no stores. -/
theorem uncompleted_of_empty {w : Traced LineBuffer} (h : (lineBuffer words delay).Reached w)
    (hempty : w.wbuf.state = .empty) : uncompleted w = [] := by
  induction h with
  | reset w => rfl
  | @write w a be d c hw ih => exact absurd hempty (state_write words delay w.wbuf a be d c)
  | @update w hw ih => exact ih ((state_update words delay w.wbuf).mp hempty)
  | @rok w hw ih => exact (uncompleted_rok w).trans (ih hempty)
  | sent hw ih => cases hempty
  | @completed w k hw ih => exact uncompleted_completed w k

end LineBuffer

theorem lineBuffer_laws (words delay : Nat) :
    WbufLaws (lineBuffer words delay) LineBuffer.uncompleted where
  reset _ := rfl
  accepted w a be d c _ h := by rw [LineBuffer.uncompleted_write, if_pos h]
  refused w a be d c _ h := by
    rw [LineBuffer.uncompleted_write, h]
    exact List.append_nil _
  update _ _ := rfl
  rok w _ := LineBuffer.uncompleted_rok w
  sent w _ := LineBuffer.uncompleted_sent w
  completed w k _ := by
    rw [LineBuffer.uncompleted_completed]
    exact List.nil_sublist _
  empty w hw h := LineBuffer.uncompleted_of_empty hw (of_decide_eq_true h)

/-- A small wrapper: two caches with two ways and two sets, and a write buffer that locks its
line at once. -/
def smallParts (words : Nat) : Parts (List Word) SetCache LineBuffer where
  fifo := listFifo
  cache := setCache 2 2 words
  wbuf := lineBuffer words 0

/-- A small wrapper that waits for a cycle without a store. -/
def mergingParts (words : Nat) : Parts (List Word) SetCache LineBuffer :=
  { smallParts words with wbuf := lineBuffer words 1 }

theorem smallCache_laws (words : Nat) :
    CacheLaws (smallParts words).cache words (setView 2 2) :=
  setCache_laws words Nat.two_pos Nat.two_pos

end SmcTp.Xcache
