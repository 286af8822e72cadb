import SmcTp.Xcache.Parts

/-!
# The cache wrapper

`VciXcacheWrapperAdvanced` stands between a processor and the interconnect.  One
clocked process holds four automata: one for each cache, one that sends the
commands, and one that takes the responses.  They talk through flags that one of
them sets and another clears, and through two FIFOs.

*Order.*  Registers are read with their values before the edge, and of two writes to
one register in one cycle the later wins.  The write buffer and the caches are
objects, so the command automaton finds the write buffer as the data automaton left
it.  `transition` composes the automata in this order.

*Faults.*  A failed assertion and an unknown external access end the simulation, so
`transition` returns an `Except`.
-/

namespace SmcTp.Xcache

open Vci

variable {p : VciParams} {F C W : Type}

/-! ## Parameters -/

/-- The structural parameters, with the assertions of the constructor.  The caches
require a power of two for the words of a line. -/
structure XcacheConfig (p : VciParams) where
  cacheabilityTable : BitVec 64 → Bool
  srcid : BitVec 32
  icacheWords : Nat
  dcacheWords : Nat
  wbufNlines : Nat
  xtnDcacheInval : BitVec 32
  xtnSync : BitVec 32
  icacheLine : icacheWords = 1 <<< icacheWords.log2
  dcacheLine : dcacheWords = 1 <<< dcacheWords.log2
  /-- "I need more PLEN bits". -/
  plenBits : icacheWords * p.B < 1 <<< p.K
  /-- "I need more TRDID bits". -/
  trdidBits : 2 < p.T ∧ wbufNlines ≤ 1 <<< (p.T - 1)

namespace XcacheConfig

/-- `m_icache_words` and `m_dcache_words`. -/
def words (cfg : XcacheConfig p) : Client → Nat
  | .ins => cfg.icacheWords
  | .data => cfg.dcacheWords

/-- `m_icache_yzmask` and `m_dcache_yzmask`. -/
def yzmask (cfg : XcacheConfig p) (c : Client) : Addr :=
  BitVec.allOnes 32 <<< ((cfg.words c).log2 + 2)

/-- The cacheability of an address. -/
def cacheable (cfg : XcacheConfig p) (addr : Addr) : Bool :=
  cfg.cacheabilityTable (addr.setWidth 64)

theorem words_pos (cfg : XcacheConfig p) (c : Client) : 0 < cfg.words c := by
  cases c with
  | ins =>
      have h := cfg.icacheLine
      simp only [words]
      rw [h, Nat.one_shiftLeft]
      exact Nat.two_pow_pos _
  | data =>
      have h := cfg.dcacheLine
      simp only [words]
      rw [h, Nat.one_shiftLeft]
      exact Nat.two_pow_pos _

end XcacheConfig

/-! ## Registers -/

/-- `icache_fsm_state_e`. -/
inductive IcacheFsm where
  | idle
  | read (f : ReadFsm)
deriving DecidableEq, Repr

/-- `dcache_fsm_state_e`. -/
inductive DcacheFsm where
  | idle
  | writeUpdt
  | writeReq
  | read (f : ReadFsm)
  | xtnHit
  | xtnInval
  | xtnSync
deriving DecidableEq, Repr

/-- The state of a read the automaton is in. -/
def IcacheFsm.serving : IcacheFsm → Option ReadFsm
  | .read f => some f
  | .idle => none

/-- The state of a read the automaton is in. -/
def DcacheFsm.serving : DcacheFsm → Option ReadFsm
  | .read f => some f
  | _ => none

/-- The state after a cycle of a read. -/
def IcacheFsm.ofNext : Option ReadFsm → IcacheFsm
  | none => .idle
  | some f => .read f

/-- The state after a cycle of a read. -/
def DcacheFsm.ofNext : Option ReadFsm → DcacheFsm
  | none => .idle
  | some f => .read f

@[simp] theorem IcacheFsm.serving_ofNext (next : Option ReadFsm) :
    (IcacheFsm.ofNext next).serving = next := by
  cases next <;> rfl

@[simp] theorem DcacheFsm.serving_ofNext (next : Option ReadFsm) :
    (DcacheFsm.ofNext next).serving = next := by
  cases next <;> rfl

/-- `cmd_fsm_state_e`. -/
inductive CmdFsm where
  | idle
  | read (c : Client) (k : ReadKind)
  | dataWrite
deriving DecidableEq, Repr

/-- `rsp_fsm_state_e`. -/
inductive RspFsm where
  | idle
  | read (c : Client) (k : ReadKind)
  | dataWrite
deriving DecidableEq, Repr

/-- `read_transaction_type_e`. -/
def transactionType : Client → ReadKind → Nat
  | .data, .unc => 0
  | .data, .miss => 1
  | .ins, .unc => 2
  | .ins, .miss => 3

/-- The registers of the data automaton that hold the rest of a request. -/
structure DataSave where
  wdata : Word
  type : DataType
  be : BitVec 4
  cacheable : Bool
deriving DecidableEq, Repr

/-- The registers of `VciXcacheWrapperAdvanced`. -/
structure XcacheWrapper (F C W : Type) where
  icacheFsm : IcacheFsm
  dcacheFsm : DcacheFsm
  ins : Side F
  data : Side F
  dataSave : DataSave
  cmdFsm : CmdFsm
  cmdMin : Nat
  cmdMax : Nat
  cmdCpt : Nat
  rspFsm : RspFsm
  rspCpt : Nat
  wbuf : W
  icache : C
  dcache : C

namespace XcacheWrapper

/-- The registers after a reset. -/
def reset (parts : Parts F C W) (s : XcacheWrapper F C W) : XcacheWrapper F C W :=
  { s with
    dcacheFsm := .idle
    icacheFsm := .idle
    cmdFsm := .idle
    rspFsm := .idle
    wbuf := parts.wbuf.reset s.wbuf
    icache := parts.cache.reset s.icache
    dcache := parts.cache.reset s.dcache
    ins := { s.ins with
      fifo := parts.fifo.init s.ins.fifo
      missReq := false
      uncReq := false
      error := false }
    data := { s.data with
      fifo := parts.fifo.init s.data.fifo
      missReq := false
      uncReq := false
      error := false } }

/-- The registers of one client. -/
def side (s : XcacheWrapper F C W) : Client → Side F
  | .ins => s.ins
  | .data => s.data

/-- The cache of a client. -/
def cache (s : XcacheWrapper F C W) : Client → C
  | .ins => s.icache
  | .data => s.dcache

/-- The state in which the automaton of a client serves a read. -/
def readFsm (s : XcacheWrapper F C W) : Client → Option ReadFsm
  | .ins => s.icacheFsm.serving
  | .data => s.dcacheFsm.serving

end XcacheWrapper

/-! ## The instruction cache -/

/-- One cycle of the automaton `r_icache_fsm`. -/
structure IcacheOut (F C : Type) where
  fsm : IcacheFsm
  side : Side F
  cache : C
  get : Bool
  irsp : Response
  /-- The read the automaton starts. -/
  raised : Option ReadKind
  effects : List Effect

/-- The automaton `r_icache_fsm`. -/
def icacheTransition (cfg : XcacheConfig p) (parts : Parts F C W) (ireq : InsRequest)
    (fsm : IcacheFsm) (side : Side F) (cache : C) : IcacheOut F C :=
  match fsm with
  | .idle =>
      if ireq.valid then
        if cfg.cacheable ireq.addr then
          let (found, cache) := parts.cache.read ireq.addr cache
          if found.hit then
            { fsm := .idle
              side := side
              cache := cache
              get := false
              irsp := .ok found.rdata
              raised := none
              effects := [] }
          else
            { fsm := .read .missSelect
              side := { side with addrSave := ireq.addr, wordSave := 0, missReq := true }
              cache := cache
              get := false
              irsp := .none
              raised := some .miss
              effects := [] }
        else
          { fsm := .read .uncWait
            side := { side with addrSave := ireq.addr, uncReq := true }
            cache := cache
            get := false
            irsp := .none
            raised := some .unc
            effects := [] }
      else
        { fsm := .idle
          side := side
          cache := cache
          get := false
          irsp := .none
          raised := none
          effects := [] }
  | .read f =>
      let same := ireq.valid && ireq.addr == side.addrSave
      let out := readTransition parts cfg.icacheWords same f side cache
      { fsm := .ofNext out.next
        side := out.side
        cache := out.cache
        get := out.get
        irsp := out.response
        raised := none
        effects := out.effects }

/-! ## The data cache -/

/-- One cycle of the automaton `r_dcache_fsm`. -/
structure DcacheOut (F C W : Type) where
  fsm : DcacheFsm
  side : Side F
  save : DataSave
  cache : C
  wbuf : W
  get : Bool
  drsp : Response
  /-- The read the automaton starts. -/
  raised : Option ReadKind
  effects : List Effect

/-- A cycle in which the data automaton does nothing with its FIFO. -/
def DcacheOut.local (fsm : DcacheFsm) (side : Side F) (save : DataSave) (cache : C) (wbuf : W)
    (drsp : Response) : DcacheOut F C W where
  fsm := fsm
  side := side
  save := save
  cache := cache
  wbuf := wbuf
  get := false
  drsp := drsp
  raised := none
  effects := []

/-- `DCACHE_IDLE`, which `DCACHE_WRITE_REQ` falls into. -/
def dcacheRequest (cfg : XcacheConfig p) (parts : Parts F C W) (dreq : DataRequest)
    (side : Side F) (save : DataSave) (cache : C) (wbuf : W) :
    Except Halt (DcacheOut F C W) :=
  if dreq.valid then
    let cacheable := cfg.cacheable dreq.addr
    let (found, cache) := parts.cache.read dreq.addr cache
    let save : DataSave :=
      { wdata := dreq.wdata, type := dreq.type, be := dreq.be, cacheable := cacheable }
    let side : Side F :=
      { side with
        addrSave := dreq.addr
        waySave := found.way
        setSave := found.set
        wordSave := found.word }
    -- what the four uncacheable requests do
    let unc : DcacheOut F C W :=
      { fsm := .read .uncWait
        side := { side with uncReq := true }
        save := save
        cache := cache
        wbuf := wbuf
        get := false
        drsp := .none
        raised := some .unc
        effects := [] }
    match dreq.type with
    | .read =>
        if cacheable then
          if found.hit then .ok (.local .idle side save cache wbuf (.ok found.rdata))
          else .ok
            { fsm := .read .missSelect
              side := { side with wordSave := 0, missReq := true }
              save := save
              cache := cache
              wbuf := wbuf
              get := false
              drsp := .none
              raised := some .miss
              effects := [] }
        else .ok unc
    | .write =>
        if cacheable then
          if found.hit then .ok (.local .writeUpdt side save cache wbuf (.ok 0))
          else .ok (.local .writeReq side save cache wbuf (.ok 0))
        else .ok unc
    | .ll | .sc => .ok unc
    | .xtnWrite | .xtnRead =>
        if dreq.addr / 4 = cfg.xtnDcacheInval then .ok (.local .xtnHit side save cache wbuf .none)
        else if dreq.addr / 4 = cfg.xtnSync then .ok (.local .xtnSync side save cache wbuf .none)
        else .error (.exit "only XTN_DCACHE_INVAL & XTN_SYNC are supported")
  else .ok (.local .idle side save cache wbuf .none)

/-- The automaton `r_dcache_fsm`. -/
def dcacheTransition (cfg : XcacheConfig p) (parts : Parts F C W) (dreq : DataRequest)
    (fsm : DcacheFsm) (side : Side F) (save : DataSave) (cache : C) (wbuf : W) :
    Except Halt (DcacheOut F C W) :=
  match fsm with
  | .writeReq =>
      let (accepted, wbuf) := parts.wbuf.write side.addrSave save.be save.wdata true wbuf
      if accepted then dcacheRequest cfg parts dreq side save cache wbuf
      else .ok (.local .writeReq side save cache wbuf .none)
  | .idle => dcacheRequest cfg parts dreq side save cache wbuf
  | .writeUpdt =>
      let cache :=
        parts.cache.write side.waySave side.setSave side.wordSave save.wdata save.be cache
      .ok (.local .writeReq side save cache wbuf .none)
  | .read f =>
      let same := dreq.valid && dreq.addr == side.addrSave
      let out := readTransition parts cfg.dcacheWords same f side cache
      .ok
        { fsm := .ofNext out.next
          side := out.side
          save := save
          cache := out.cache
          wbuf := wbuf
          get := out.get
          drsp := out.response
          raised := none
          effects := out.effects }
  | .xtnHit =>
      let (found, cache) := parts.cache.read save.wdata cache
      if found.hit then
        let side := { side with waySave := found.way, setSave := found.set }
        .ok (.local .xtnInval side save cache wbuf .none)
      else .ok (.local .idle side save cache wbuf (.ok 0))
  | .xtnInval =>
      let cache := parts.cache.inval side.waySave side.setSave cache
      .ok (.local .idle side save cache wbuf (.ok 0))
  | .xtnSync =>
      if parts.wbuf.empty wbuf then .ok (.local .idle side save cache wbuf (.ok 0))
      else .ok (.local .xtnSync side save cache wbuf .none)

/-! ## Commands -/

/-- One cycle of the automaton `r_vci_cmd_fsm`. -/
structure CmdOut (W : Type) where
  fsm : CmdFsm
  min : Nat
  max : Nat
  cpt : Nat
  wbuf : W
  /-- The request whose flag is cleared. -/
  grant : Option (Client × ReadKind)

/-- The automaton `r_vci_cmd_fsm`. -/
def cmdTransition (parts : Parts F C W) (cmdack : Bool) (ins data : Side F) (fsm : CmdFsm)
    (min max cpt : Nat) (wbuf : W) : CmdOut W :=
  match fsm with
  | .idle =>
      if data.missReq && parts.wbuf.miss data.addrSave wbuf then
        ⟨.read .data .miss, min, max, cpt, wbuf, some (.data, .miss)⟩
      else if ins.missReq && parts.wbuf.miss ins.addrSave wbuf then
        ⟨.read .ins .miss, min, max, cpt, wbuf, some (.ins, .miss)⟩
      else
        let (burst, wbuf) := parts.wbuf.rok wbuf
        match burst with
        | some (first, last) => ⟨.dataWrite, first, last, first, wbuf, none⟩
        | none =>
            if data.uncReq then ⟨.read .data .unc, min, max, cpt, wbuf, some (.data, .unc)⟩
            else if ins.uncReq then ⟨.read .ins .unc, min, max, cpt, wbuf, some (.ins, .unc)⟩
            else ⟨.idle, min, max, cpt, wbuf, none⟩
  | .dataWrite =>
      if cmdack then
        if cpt = max then ⟨.idle, min, max, cpt + 1, parts.wbuf.sent wbuf, none⟩
        else ⟨.dataWrite, min, max, cpt + 1, wbuf, none⟩
      else ⟨.dataWrite, min, max, cpt, wbuf, none⟩
  | .read c k => ⟨if cmdack then .idle else .read c k, min, max, cpt, wbuf, none⟩

/-! ## Responses -/

/-- One cycle of the automaton `r_vci_rsp_fsm`. -/
structure RspOut (W : Type) where
  fsm : RspFsm
  cpt : Nat
  wbuf : W
  /-- The client whose error flag is set. -/
  error : Option Client
  /-- The word that goes into the FIFO of a client. -/
  put : Option (Client × Word)
  /-- `setWriteBerr`. -/
  writeBerr : Bool

namespace RspFsm

/-- The state that takes the response to a transaction. -/
def ofTrdid (rtrdid : BitVec p.T) : RspFsm :=
  if rtrdid.toNat >>> (p.T - 1) ≠ 0 then .dataWrite
  else if rtrdid.toNat = transactionType .data .miss then .read .data .miss
  else if rtrdid.toNat = transactionType .data .unc then .read .data .unc
  else if rtrdid.toNat = transactionType .ins .miss then .read .ins .miss
  else if rtrdid.toNat = transactionType .ins .unc then .read .ins .unc
  else .idle

end RspFsm

/-- The texts of the assertions on a read response.  The data automaton repeats the
second text of the instruction automaton. -/
def tooLong : Client → String
  | .ins => "The VCI response packet for instruction miss is too long"
  | .data => "The VCI response packet for data miss is too long"

/-- The second text. -/
def tooShort : Client → String
  | .ins | .data => "The VCI response packet for instruction miss is too short"

/-- The third text. -/
def illegalUncached : Client → String
  | .ins => "illegal VCI response for uncached instruction"
  | .data => "illegal VCI response for uncached data"

/-- The error bit of a response. -/
def errorBit (rerror : BitVec p.E) : Bool := rerror.getLsbD 0

/-- The automaton `r_vci_rsp_fsm`, where `wok` says which FIFOs are not full. -/
def rspTransition (cfg : XcacheConfig p) (parts : Parts F C W) (wok : Client → Bool)
    (sig : VciSignals p) (fsm : RspFsm) (cpt : Nat) (wbuf : W) : Except Halt (RspOut W) :=
  if sig.rspval then
    let rdata : Word := sig.rdata.setWidth 32
    match fsm with
    | .idle => .ok ⟨.ofTrdid sig.rtrdid, 0, wbuf, none, none, false⟩
    | .dataWrite =>
        if sig.reop then
          let index := sig.rtrdid.toNat - (1 <<< (p.T - 1))
          .ok ⟨.idle, cpt, parts.wbuf.completed index wbuf, none, none, errorBit sig.rerror⟩
        else .error (.assertion
          "A VCI response packet must contain one flit for a write transaction")
    | .read c .miss =>
        if errorBit sig.rerror then
          .ok ⟨if sig.reop then .idle else .read c .miss, cpt, wbuf, some c, none, false⟩
        else if wok c then
          if cpt < cfg.words c then
            if sig.reop then
              if cpt = cfg.words c - 1 then
                .ok ⟨.idle, cpt + 1, wbuf, none, some (c, rdata), false⟩
              else .error (.assertion (tooShort c))
            else .ok ⟨.read c .miss, cpt + 1, wbuf, none, some (c, rdata), false⟩
          else .error (.assertion (tooLong c))
        else .ok ⟨.read c .miss, cpt, wbuf, none, none, false⟩
    | .read c .unc =>
        if sig.reop then
          if errorBit sig.rerror then .ok ⟨.idle, cpt, wbuf, some c, none, false⟩
          else if wok c then .ok ⟨.idle, cpt, wbuf, none, some (c, rdata), false⟩
          else .ok ⟨.read c .unc, cpt, wbuf, none, none, false⟩
        else .error (.assertion (illegalUncached c))
  else .ok ⟨fsm, cpt, wbuf, none, none, false⟩

/-! ## The process -/

/-- The writes of the last part of a cycle to the registers of a client: the command
automaton clears the flag it granted, the response automaton sets the error flag, and
the FIFO is updated. -/
def Side.finish (parts : Parts F C W) (c : Client) (get : Bool)
    (grant : Option (Client × ReadKind)) (error : Option Client) (put : Option (Client × Word))
    (side : Side F) : Side F :=
  let word := put.bind fun w => if w.1 = c then some w.2 else none
  { side with
    missReq := if grant = some (c, .miss) then false else side.missReq
    uncReq := if grant = some (c, .unc) then false else side.uncReq
    error := if error = some c then true else side.error
    fifo := parts.fifo.update get word.isSome (word.getD 0) side.fifo }

/-- What a cycle does. -/
structure XcacheOut (F C W : Type) where
  state : XcacheWrapper F C W
  irsp : Response
  drsp : Response
  writeBerr : Bool
  /-- The reads that start. -/
  raised : Client → Option ReadKind
  /-- What the cycle does in the reads. -/
  effects : Client → List Effect

/-- The response to the processor. -/
def XcacheOut.response (out : XcacheOut F C W) : Client → Response
  | .ins => out.irsp
  | .data => out.drsp

/-- The registers after a cycle, and its outputs. -/
def XcacheOut.ofParts (parts : Parts F C W) (i : IcacheOut F C) (d : DcacheOut F C W)
    (cmd : CmdOut W) (rsp : RspOut W) : XcacheOut F C W where
  state :=
    { icacheFsm := i.fsm
      dcacheFsm := d.fsm
      ins := i.side.finish parts .ins i.get cmd.grant rsp.error rsp.put
      data := d.side.finish parts .data d.get cmd.grant rsp.error rsp.put
      dataSave := d.save
      cmdFsm := cmd.fsm
      cmdMin := cmd.min
      cmdMax := cmd.max
      cmdCpt := cmd.cpt
      rspFsm := rsp.fsm
      rspCpt := rsp.cpt
      wbuf := rsp.wbuf
      icache := i.cache
      dcache := d.cache }
  irsp := i.irsp
  drsp := d.drsp
  writeBerr := rsp.writeBerr
  raised
    | .ins => i.raised
    | .data => d.raised
  effects
    | .ins => i.effects
    | .data => d.effects

namespace XcacheWrapper

/-- `transition`, for a cycle without reset. -/
def transition (cfg : XcacheConfig p) (parts : Parts F C W) (ireq : InsRequest)
    (dreq : DataRequest) (sig : VciSignals p) (s : XcacheWrapper F C W) :
    Except Halt (XcacheOut F C W) := do
  let i := icacheTransition cfg parts ireq s.icacheFsm s.ins s.icache
  let d ← dcacheTransition cfg parts dreq s.dcacheFsm s.data s.dataSave s.dcache s.wbuf
  let wbuf := parts.wbuf.update d.wbuf
  let cmd :=
    cmdTransition parts sig.cmdack s.ins s.data s.cmdFsm s.cmdMin s.cmdMax s.cmdCpt wbuf
  let rsp ← rspTransition cfg parts (fun c => parts.fifo.wok (s.side c).fifo) sig s.rspFsm
    s.rspCpt cmd.wbuf
  .ok (.ofParts parts i d cmd rsp)

/-- The command an uncached data access needs. -/
def uncCmd : DataType → Cmd
  | .write => Cmd.write
  | .read => Cmd.read
  | .ll => Cmd.lockedRead
  | .sc => Cmd.storeCond
  | .xtnWrite | .xtnRead => Cmd.nop

/-- `genMoore`.  A miss and an instruction leave `wdata` as it was. -/
def genMoore (cfg : XcacheConfig p) (parts : Parts F C W) (s : XcacheWrapper F C W)
    (sig : VciSignals p) : VciSignals p :=
  let sig : VciSignals p :=
    { sig with
      rspack := s.rspFsm ≠ .idle
      pktid := 0
      cons := false
      wrap := false
      clen := 0
      cfixed := false }
  let srcid : BitVec p.S := cfg.srcid.setWidth p.S
  match s.cmdFsm with
  | .idle =>
      { sig with
        cmdval := false
        address := 0
        wdata := 0
        be := 0
        plen := 0
        cmd := Cmd.write
        trdid := 0
        srcid := 0
        contig := false
        eop := false }
  | .dataWrite =>
      { sig with
        cmdval := true
        address := (parts.wbuf.getAddress s.cmdCpt s.wbuf).setWidth p.N
        wdata := (parts.wbuf.getData s.cmdCpt s.wbuf).setWidth (p.B * 8)
        be := (parts.wbuf.getBe s.cmdCpt s.wbuf).setWidth p.B
        plen := ((BitVec.ofNat 64 s.cmdMax - BitVec.ofNat 64 s.cmdMin + 1) <<< 2).setWidth p.K
        cmd := Cmd.write
        trdid := BitVec.ofNat p.T (parts.wbuf.getIndex s.wbuf + (1 <<< (p.T - 1)))
        srcid := srcid
        contig := true
        eop := s.cmdCpt = s.cmdMax }
  | .read c .miss =>
      { sig with
        cmdval := true
        address := ((s.side c).addrSave &&& cfg.yzmask c).setWidth p.N
        be := 0xF
        plen := BitVec.ofNat p.K (cfg.words c <<< 2)
        cmd := Cmd.read
        trdid := BitVec.ofNat p.T (transactionType c .miss)
        srcid := srcid
        contig := true
        eop := true }
  | .read .data .unc =>
      let sig : VciSignals p :=
        { sig with
          cmdval := true
          address := (s.data.addrSave &&& ~~~(0x3 : Addr)).setWidth p.N
          plen := 4
          trdid := BitVec.ofNat p.T (transactionType .data .unc)
          srcid := srcid
          contig := true
          eop := true }
      match s.dataSave.type with
      | .write =>
          { sig with
            wdata := s.dataSave.wdata.setWidth (p.B * 8)
            be := s.dataSave.be.setWidth p.B
            cmd := Cmd.write }
      | .read =>
          { sig with
            wdata := 0
            be := s.dataSave.be.setWidth p.B
            cmd := Cmd.read }
      | .ll =>
          { sig with
            wdata := 0
            be := 0xF
            cmd := Cmd.lockedRead }
      | .sc =>
          { sig with
            wdata := s.dataSave.wdata.setWidth (p.B * 8)
            be := 0xF
            cmd := Cmd.storeCond }
      | .xtnWrite | .xtnRead => sig
  | .read .ins .unc =>
      { sig with
        cmdval := true
        address := (s.ins.addrSave &&& ~~~(0x3 : Addr)).setWidth p.N
        be := 0xF
        plen := 4
        cmd := Cmd.read
        trdid := BitVec.ofNat p.T (transactionType .ins .unc)
        srcid := srcid
        contig := true
        eop := true }

end XcacheWrapper

end SmcTp.Xcache
