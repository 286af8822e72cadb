import SmcTp.Vci.Signals

/-!
# What the cache wrapper is made of

The processor asks for an instruction and for a data access in each cycle, and the
wrapper answers with two responses.

*Parts.*  The FIFOs, the caches and the write buffer are library components.  `Parts`
lists their methods, one field each, over types of states that are left open.  A
method that changes its component returns the new state.

*Sides.*  The instruction cache and the data cache are served by the same registers
and the same four states of their automata.  `Side` collects the registers of one of
the two, and `ReadFsm` the states.
-/

namespace SmcTp.Xcache

/-- `data_t`. -/
abbrev Word := BitVec 32

/-- `addr_t`. -/
abbrev Addr := BitVec 32

/-! ## The processor -/

/-- `iss_t::InstructionRequest`. -/
structure InsRequest where
  valid : Bool
  addr : Addr
deriving DecidableEq, Repr

/-- The types of a data request. -/
inductive DataType where
  | read
  | write
  | ll
  | sc
  | xtnWrite
  | xtnRead
deriving DecidableEq, Repr

/-- `iss_t::DataRequest`. -/
structure DataRequest where
  valid : Bool
  addr : Addr
  type : DataType
  wdata : Word
  be : BitVec 4
deriving DecidableEq, Repr

/-- `iss_t::InstructionResponse` and `iss_t::DataResponse`. -/
structure Response where
  valid : Bool
  error : Bool
  data : Word
deriving DecidableEq, Repr

namespace Response

/-- The default values of a cycle. -/
def none : Response := ⟨false, false, 0⟩

/-- A valid response. -/
def ok (data : Word) : Response := ⟨true, false, data⟩

/-- A bus error. -/
def bad : Response := ⟨true, true, 0⟩

end Response

/-! ## The library components -/

/-- `GenericFifo`. -/
structure FifoOps (F : Type) where
  init : F → F
  rok : F → Bool
  wok : F → Bool
  read : F → Word
  update : (get put : Bool) → Word → F → F

/-- What `GenericCache::read` finds. -/
structure CacheHit where
  hit : Bool
  rdata : Word
  way : Nat
  set : Nat
  word : Nat
deriving DecidableEq, Repr

/-- What `GenericCache::victim_select` finds. -/
structure Victim where
  valid : Bool
  way : Nat
  set : Nat
deriving DecidableEq, Repr

/-- `GenericCache`. -/
structure CacheOps (C : Type) where
  reset : C → C
  read : Addr → C → CacheHit × C
  victimSelect : Addr → C → Victim × C
  inval : (way set : Nat) → C → C
  write : (way set word : Nat) → Word → BitVec 4 → C → C
  victimUpdateTag : Addr → (way set : Nat) → C → C

/-- `MultiWriteBuffer`. -/
structure WbufOps (W : Type) where
  reset : W → W
  write : Addr → BitVec 4 → Word → (cacheable : Bool) → W → Bool × W
  update : W → W
  empty : W → Bool
  miss : Addr → W → Bool
  /-- A burst to be sent, as its first and its last word. -/
  rok : W → Option (Nat × Nat) × W
  sent : W → W
  completed : Nat → W → W
  getAddress : Nat → W → Addr
  getData : Nat → W → Word
  getBe : Nat → W → BitVec 4
  getIndex : W → Nat

/-- The components of a wrapper. -/
structure Parts (F C W : Type) where
  fifo : FifoOps F
  cache : CacheOps C
  wbuf : WbufOps W

/-! ## Reads -/

/-- The two caches as clients of the bus. -/
inductive Client where
  | ins
  | data
deriving DecidableEq, Repr

/-- A read transaction fills a line or is uncached. -/
inductive ReadKind where
  | miss
  | unc
deriving DecidableEq, Repr

/-- The states of a cache automaton in which it serves a read. -/
inductive ReadFsm where
  | missSelect
  | missInval
  | missWait
  | uncWait
deriving DecidableEq, Repr

/-- The state in which a read starts. -/
def ReadKind.start : ReadKind → ReadFsm
  | .miss => .missSelect
  | .unc => .uncWait

/-- The state in which a read waits for its response. -/
def ReadKind.wait : ReadKind → ReadFsm
  | .miss => .missWait
  | .unc => .uncWait

/-- The registers that serve the reads of one cache: `r_icache_*` with
`r_vci_rsp_ins_error` and `r_vci_rsp_fifo_ins`, or `r_dcache_*` with
`r_vci_rsp_data_error` and `r_vci_rsp_fifo_data`. -/
structure Side (F : Type) where
  addrSave : Addr
  waySave : Nat
  setSave : Nat
  wordSave : Nat
  missReq : Bool
  uncReq : Bool
  error : Bool
  fifo : F

/-- What a cycle of a read does.  `readTransition_effects` says that the cache and the response
are what the effects of a cycle make of them. -/
inductive Effect where
  /-- A word is written into a slot. -/
  | write (way set word : Nat) (data : Word)
  /-- The slot becomes a valid line. -/
  | validate (addr : Addr) (way set : Nat)
  /-- An uncached word is handed to the processor, if it still asks for it. -/
  | value (data : Word)
  /-- A bus error is reported to the processor. -/
  | error
deriving DecidableEq, Repr

/-- One cycle of a cache automaton in a read. -/
structure ReadOut (F C : Type) where
  /-- The next state, or `none` for the idle state. -/
  next : Option ReadFsm
  side : Side F
  cache : C
  /-- A word is taken from the FIFO. -/
  get : Bool
  response : Response
  effects : List Effect

/-- The states `MISS_SELECT`, `MISS_INVAL`, `MISS_WAIT` and `UNC_WAIT` of both cache
automata.  `same` says that the processor still asks for the saved address. -/
def readTransition {F C W : Type} (parts : Parts F C W) (words : Nat) (same : Bool)
    (fsm : ReadFsm) (side : Side F) (cache : C) : ReadOut F C :=
  match fsm with
  | .missSelect =>
      let (victim, cache) := parts.cache.victimSelect side.addrSave cache
      { next := some (if victim.valid then .missInval else .missWait)
        side := { side with waySave := victim.way, setSave := victim.set }
        cache := cache
        get := false
        response := .none
        effects := [] }
  | .missInval =>
      { next := some .missWait
        side := side
        cache := parts.cache.inval side.waySave side.setSave cache
        get := false
        response := .none
        effects := [] }
  | .missWait =>
      if side.error then
        { next := none
          side := { side with error := false }
          cache := cache
          get := false
          response := .bad
          effects := [.error] }
      else if parts.fifo.rok side.fifo then
        let data := parts.fifo.read side.fifo
        let side' := { side with wordSave := side.wordSave + 1 }
        let cache := parts.cache.write side.waySave side.setSave side.wordSave data 0xF cache
        if side.wordSave = words - 1 then
          { next := none
            side := side'
            cache := parts.cache.victimUpdateTag side.addrSave side.waySave side.setSave cache
            get := true
            response := .none
            effects :=
            [.write side.waySave side.setSave side.wordSave data,
              .validate side.addrSave side.waySave side.setSave] }
        else
          { next := some .missWait
            side := side'
            cache := cache
            get := true
            response := .none
            effects := [.write side.waySave side.setSave side.wordSave data] }
      else
        { next := some .missWait
          side := side
          cache := cache
          get := false
          response := .none
          effects := [] }
  | .uncWait =>
      if side.error then
        { next := none
          side := { side with error := false }
          cache := cache
          get := false
          response := .bad
          effects := [.error] }
      else if parts.fifo.rok side.fifo then
        let data := parts.fifo.read side.fifo
        { next := none
          side := side
          cache := cache
          get := true
          response := if same then .ok data else .none
          effects := [.value data] }
      else
        { next := some .uncWait
          side := side
          cache := cache
          get := false
          response := .none
          effects := [] }

/-! ## Effects -/

/-- What an effect does to the cache. -/
def Effect.perform {C : Type} (ops : CacheOps C) : Effect → C → C
  | .write way set word data, cache => ops.write way set word data 0xF cache
  | .validate addr way set, cache => ops.victimUpdateTag addr way set cache
  | .value _, cache | .error, cache => cache

/-- The cache after some effects. -/
def replay {C : Type} (ops : CacheOps C) (effects : List Effect) (cache : C) : C :=
  effects.foldl (fun cache e => e.perform ops cache) cache

@[simp] theorem replay_nil {C : Type} (ops : CacheOps C) (cache : C) :
    replay ops [] cache = cache := rfl

theorem replay_append {C : Type} (ops : CacheOps C) (es es' : List Effect) (cache : C) :
    replay ops (es ++ es') cache = replay ops es' (replay ops es cache) :=
  List.foldl_append

/-- The response in a cycle with some effects. -/
def Effect.response (same : Bool) : List Effect → Response
  | [.value data] => if same then .ok data else .none
  | [.error] => .bad
  | _ => .none

/-- While a read waits, its effects are the calls of its cache and the response to the
processor. -/
theorem readTransition_effects {F C W : Type} (parts : Parts F C W) (words : Nat) (same : Bool)
    (k : ReadKind) (side : Side F) (cache : C) :
    (readTransition parts words same k.wait side cache).cache =
        replay parts.cache (readTransition parts words same k.wait side cache).effects cache ∧
      (readTransition parts words same k.wait side cache).response =
        Effect.response same (readTransition parts words same k.wait side cache).effects := by
  cases k with
  | miss =>
      simp only [ReadKind.wait, readTransition]
      split_ifs <;> exact ⟨rfl, rfl⟩
  | unc =>
      simp only [ReadKind.wait, readTransition]
      split_ifs with herror hrok hsame
      · exact ⟨rfl, rfl⟩
      · exact ⟨rfl, (if_pos hsame).symm⟩
      · exact ⟨rfl, (if_neg hsame).symm⟩
      · exact ⟨rfl, rfl⟩

end SmcTp.Xcache
