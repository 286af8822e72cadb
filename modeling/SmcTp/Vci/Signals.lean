import Mathlib.Tactic.Common

/-!
# VCI parameters and signals

`VciParams` fixes the widths of the fields of the Virtual Component Interface, and
`VciSignals` is the bundle of wires between an initiator and a target.  The
initiator drives the command fields and `rspack`, the target drives `cmdack` and
the response fields.

A flit is what one transfer carries.  `cmdFlit` and `rspFlit` read it off the
wires, and a transfer takes place in a cycle where `val` and `ack` are both up.
-/

namespace SmcTp.Vci

/-- `VciParams`: the widths of the fields, under the names of the standard. -/
structure VciParams where
  /-- `cell_size`, in bytes. -/
  B : Nat
  /-- `plen_size`. -/
  K : Nat
  /-- `addr_size`. -/
  N : Nat
  /-- `rerror_size`. -/
  E : Nat
  /-- `clen_size`. -/
  Q : Nat
  /-- `rflag_size`. -/
  F : Nat
  /-- `srcid_size`. -/
  S : Nat
  /-- `pktid_size`. -/
  P : Nat
  /-- `trdid_size`. -/
  T : Nat
  /-- `wrplen_size`. -/
  W : Nat
deriving DecidableEq, Repr

/-- `vci_param`: the widths of the gcd platform. -/
def vciParam : VciParams where
  B := 4
  K := 8
  N := 32
  E := 1
  Q := 1
  F := 1
  S := 12
  P := 1
  T := 1
  W := 1

/-- The two ways a process stops the simulation. -/
inductive Halt where
  | assertion (text : String)
  | exit (text : String)
deriving DecidableEq, Repr

/-- `cmd_t`. -/
abbrev Cmd := BitVec 2

namespace Cmd

/-- `CMD_NOP`. -/
def nop : Cmd := 0
/-- `CMD_READ`. -/
def read : Cmd := 1
/-- `CMD_WRITE`. -/
def write : Cmd := 2
/-- `CMD_LOCKED_READ`. -/
def lockedRead : Cmd := 3
/-- `CMD_STORE_COND`, which shares the code of `CMD_NOP`. -/
def storeCond : Cmd := nop

end Cmd

/-- `VciSignals`: the wires between an initiator and a target. -/
structure VciSignals (p : VciParams) where
  rspack : Bool
  rspval : Bool
  rdata : BitVec (p.B * 8)
  reop : Bool
  rerror : BitVec p.E
  rsrcid : BitVec p.S
  rtrdid : BitVec p.T
  rpktid : BitVec p.P
  cmdack : Bool
  cmdval : Bool
  address : BitVec p.N
  be : BitVec p.B
  cmd : Cmd
  contig : Bool
  wdata : BitVec (p.B * 8)
  eop : Bool
  cons : Bool
  plen : BitVec p.K
  wrap : Bool
  cfixed : Bool
  clen : BitVec p.Q
  srcid : BitVec p.S
  trdid : BitVec p.T
  pktid : BitVec p.P
deriving DecidableEq, Repr

/-- The command fields a bus carries with a command flit. -/
structure CmdFlit (p : VciParams) where
  address : BitVec p.N
  wdata : BitVec (p.B * 8)
  be : BitVec p.B
  plen : BitVec p.K
  srcid : BitVec p.S
  trdid : BitVec p.T
  pktid : BitVec p.P
  cmd : Cmd
  contig : Bool
  eop : Bool
deriving DecidableEq, Repr

/-- The response fields a bus carries with a response flit. -/
structure RspFlit (p : VciParams) where
  rdata : BitVec (p.B * 8)
  rerror : BitVec p.E
  rsrcid : BitVec p.S
  rtrdid : BitVec p.T
  rpktid : BitVec p.P
  reop : Bool
deriving DecidableEq, Repr

namespace VciSignals

variable {p : VciParams}

/-- The wires before anything drives them. -/
def undriven : VciSignals p where
  rspack := false
  rspval := false
  rdata := 0
  reop := false
  rerror := 0
  rsrcid := 0
  rtrdid := 0
  rpktid := 0
  cmdack := false
  cmdval := false
  address := 0
  be := 0
  cmd := 0
  contig := false
  wdata := 0
  eop := false
  cons := false
  plen := 0
  wrap := false
  cfixed := false
  clen := 0
  srcid := 0
  trdid := 0
  pktid := 0

/-- The command flit on the wires. -/
def cmdFlit (sig : VciSignals p) : CmdFlit p where
  address := sig.address
  wdata := sig.wdata
  be := sig.be
  plen := sig.plen
  srcid := sig.srcid
  trdid := sig.trdid
  pktid := sig.pktid
  cmd := sig.cmd
  contig := sig.contig
  eop := sig.eop

/-- The response flit on the wires. -/
def rspFlit (sig : VciSignals p) : RspFlit p where
  rdata := sig.rdata
  rerror := sig.rerror
  rsrcid := sig.rsrcid
  rtrdid := sig.rtrdid
  rpktid := sig.rpktid
  reop := sig.reop

/-- A command flit is transferred in this cycle. -/
def cmdTransfer (sig : VciSignals p) : Bool := sig.cmdval && sig.cmdack

/-- A response flit is transferred in this cycle. -/
def rspTransfer (sig : VciSignals p) : Bool := sig.rspval && sig.rspack

/-- Drive `cmdval` and the fields of a command flit. -/
def driveCmd (cmdval : Bool) (f : CmdFlit p) (sig : VciSignals p) : VciSignals p :=
  { sig with
    cmdval := cmdval
    wdata := f.wdata
    address := f.address
    be := f.be
    plen := f.plen
    srcid := f.srcid
    trdid := f.trdid
    pktid := f.pktid
    cmd := f.cmd
    contig := f.contig
    eop := f.eop }

/-- Drive `rspval` and the fields of a response flit. -/
def driveRsp (rspval : Bool) (f : RspFlit p) (sig : VciSignals p) : VciSignals p :=
  { sig with
    rspval := rspval
    rdata := f.rdata
    rerror := f.rerror
    rsrcid := f.rsrcid
    rtrdid := f.rtrdid
    rpktid := f.rpktid
    reop := f.reop }

/-- Driving the wires with what they carry changes nothing. -/
theorem driveCmd_self {v : Bool} {f : CmdFlit p} {sig : VciSignals p} (hv : sig.cmdval = v)
    (hf : sig.cmdFlit = f) : sig.driveCmd v f = sig := by
  subst hv hf
  rfl

theorem driveRsp_self {v : Bool} {f : RspFlit p} {sig : VciSignals p} (hv : sig.rspval = v)
    (hf : sig.rspFlit = f) : sig.driveRsp v f = sig := by
  subst hv hf
  rfl

theorem set_cmdval_self {v : Bool} {sig : VciSignals p} (h : sig.cmdval = v) :
    { sig with cmdval := v } = sig := by
  subst h
  rfl

theorem set_cmdack_self {v : Bool} {sig : VciSignals p} (h : sig.cmdack = v) :
    { sig with cmdack := v } = sig := by
  subst h
  rfl

theorem set_rspval_self {v : Bool} {sig : VciSignals p} (h : sig.rspval = v) :
    { sig with rspval := v } = sig := by
  subst h
  rfl

theorem set_rspack_self {v : Bool} {sig : VciSignals p} (h : sig.rspack = v) :
    { sig with rspack := v } = sig := by
  subst h
  rfl

@[simp] theorem cmdFlit_driveCmd (v : Bool) (f : CmdFlit p) (sig : VciSignals p) :
    (sig.driveCmd v f).cmdFlit = f := rfl

@[simp] theorem rspFlit_driveRsp (v : Bool) (f : RspFlit p) (sig : VciSignals p) :
    (sig.driveRsp v f).rspFlit = f := rfl

end VciSignals

end SmcTp.Vci
