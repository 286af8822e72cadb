import SmcTp.Clocked.Run
import SmcTp.Mapping.Segments
import SmcTp.Programs.ConsistentFill
import SmcTp.Programs.Outcome

/-!
# The mapping table

`MappingTable` holds the segments of a platform and builds from them the tables that
decode an address: one for each cluster of the hierarchy (`getRoutingTable`), one that
says which addresses are local to a cluster (`getLocalityTable`) and one for the
cacheability.  A table decodes a field of bits of the address, `useBits` above
`dropBits`.

*Blocks.*  `add` and the three builders go through a segment in steps of `rtSize`, from
its base rounded down, on a 32-bit address that may wrap while the end of the segment
is an `unsigned long`.  The loop then stops at its start value or never.

*Integers.*  Shift counts are taken modulo 32, as the machine takes them, and a table
whose size `1 << useBits` is negative as an `int` cannot be allocated.

`Calls` is the system of the calls of `add` on one table.
-/

namespace SmcTp.Mapping

open Programs Clocked

/-- `MappingTable::addr_t`. -/
abbrev Addr := BitVec 32

/-- `1 << n` on an `int`. -/
def shl1 (n : Int) : Addr := 1#32 <<< (n % 32).toNat

/-- The exceptions, with what their text shows. -/
inductive Exn (w : Nat) where
  /-- `ValueError`: the segment is not the same level as the mapping table. -/
  | level (seg : Segment w)
  /-- `Collision`: the segment bumps in another one. -/
  | collision (seg s : Segment w)
  /-- `RunTimeError`: different cacheability with the same most significant bits. -/
  | cacheability (s seg : Segment w)
  /-- `RunTimeError`: incoherent mapping table, at this segment. -/
  | incoherent (seg : Segment w)
  /-- `ValueError`: level out of bounds. -/
  | bounds
  /-- `std::bad_array_new_length`. -/
  | badLength
  /-- A mask whose constructor does not pass its assertion. -/
  | badMask
deriving DecidableEq

/-! ## Decoding tables -/

/-- `AddressDecodingTable`. -/
structure AddressDecodingTable (α : Type) where
  useBits : Int
  dropBits : Int
  lowMask : Addr
  table : Addr → α

namespace AddressDecodingTable

variable {α : Type} {w : Nat}

/-- The entry an address falls into. -/
def id (t : AddressDecodingTable α) (val : Addr) : Addr :=
  (val >>> (t.dropBits % 32).toNat) &&& t.lowMask

/-- `operator[]`. -/
def get (t : AddressDecodingTable α) (addr : Addr) : α := t.table (t.id addr)

/-- `set`. -/
def set (t : AddressDecodingTable α) (addr : Addr) (value : α) : AddressDecodingTable α :=
  { t with table := Function.update t.table (t.id addr) value }

/-- The constructor from two bit counts, followed by `reset(value)`. -/
def ofBits (useBits dropBits : Int) (value : α) : Outcome (Exn w) (AddressDecodingTable α) :=
  if (shl1 useBits).msb then .throws .badLength
  else .returns ⟨useBits, dropBits, shl1 useBits - 1, fun _ => value⟩

end AddressDecodingTable

/-- The loop that counts the zeros at the end of a mask, with what it leaves of the
mask.  It does not end on the mask 0. -/
def countDrop : Nat → Nat → Addr → Option (Nat × Addr)
  | 0, _, _ => none
  | n + 1, drop, m => if m.getLsbD 0 then some (drop, m) else countDrop n (drop + 1) (m >>> 1)

/-- The loop that counts the ones from there. -/
def countUse (drop : Nat) : Nat → Nat → Addr → Nat
  | 0, use, _ => use
  | n + 1, use, m =>
      if m.getLsbD 0 && use + drop ≤ 32 then countUse drop n (use + 1) (m >>> 1) else use

/-- The constructors of `AddressDecodingTable` and `AddressMaskingTable` from a mask:
the two bit counts, if the loops end and the assertion that follows them holds. -/
def maskBits (mask : Addr) : Option (Nat × Nat) :=
  (countDrop 33 0 mask).bind fun (drop, m) =>
    let use := countUse drop 33 0 m
    if (shl1 use - 1) <<< drop = mask then some (use, drop) else none

/-- `AddressDecodingTable(mask)`, followed by `reset(value)`. -/
def AddressDecodingTable.ofMask {α : Type} {w : Nat} (mask : Addr) (value : α) :
    Outcome (Exn w) (AddressDecodingTable α) :=
  match maskBits mask with
  | some (use, drop) => AddressDecodingTable.ofBits use drop value
  | none => .throws .badMask

/-! ## Blocks -/

section Blocks

variable {w : Nat} {ε σ : Type}

/-- The base of a segment, rounded down to the block size. -/
def Segment.blockStart (rtSize : Addr) (s : Segment w) : BitVec w :=
  s.baseAddress &&& (~~~(rtSize - 1)).setWidth w

/-- The condition of the loops over the blocks of a segment. -/
def Segment.inBlocks (rtSize : Addr) (s : Segment w) (addr : Addr) : Bool :=
  addr.setWidth w < s.bound && s.blockStart rtSize ≤ addr.setWidth w

/-- The loop over the blocks of a segment, for at most `fuel` tests of its condition. -/
def forBlocks (fuel : Nat) (rtSize : Addr) (s : Segment w) (body : Addr → σ → Outcome ε σ) :
    σ → Outcome ε σ :=
  forLoop (s.inBlocks rtSize) (· + rtSize) body fuel ((s.blockStart rtSize).setWidth 32)

end Blocks

/-! ## The table -/

/-- `MappingTable`. -/
structure MappingTable (w : Nat) where
  segmentList : List (Segment w)
  addrWidth : Nat
  levelAddrBits : IntTab
  cacheabilityMask : Addr
  rtSize : Addr

namespace MappingTable

variable {w : Nat}

/-- The constructor.  There is none when the constructor of the masking table does not
come to an end or fails. -/
def new (addrWidth : Nat) (levelAddrBits : IntTab) (cacheabilityMask : Addr) :
    Option (MappingTable w) :=
  (maskBits cacheabilityMask).map fun (_, drop) =>
    let rtSize := shl1 (addrWidth - levelAddrBits.sum 10)
    let cmRtSize := shl1 drop
    ⟨[], addrWidth, levelAddrBits, cacheabilityMask, if rtSize < cmRtSize then rtSize else cmRtSize⟩

/-- The inner loop of `add`: a block of a registered segment and all blocks of the new
one. -/
def checkBlock (fuel : Nat) (mt : MappingTable w) (s seg : Segment w) (address : Addr) :
    Outcome (Exn w) Unit :=
  forBlocks fuel mt.rtSize seg (fun segaddress _ =>
    if mt.cacheabilityMask &&& address = mt.cacheabilityMask &&& segaddress ∧
        s.cacheable ≠ seg.cacheable then .throws (.cacheability s seg)
    else .returns ()) ()

/-- The loop of `add` over the blocks of a registered segment. -/
def checkCacheability (fuel : Nat) (mt : MappingTable w) (s seg : Segment w) :
    Outcome (Exn w) Unit :=
  forBlocks fuel mt.rtSize s (fun address _ => checkBlock fuel mt s seg address) ()

/-- What `add` checks before it changes the list. -/
def check (fuel : Nat) (mt : MappingTable w) (seg : Segment w) : Outcome (Exn w) Unit :=
  if seg.index.level ≠ mt.levelAddrBits.level then .throws (.level seg)
  else mt.segmentList.forM fun s =>
    if s.isOverlapping seg then .throws (.collision seg s) else checkCacheability fuel mt s seg

/-- `MappingTable::add`, with the table it leaves. -/
def add (fuel : Nat) (seg : Segment w) (mt : MappingTable w) :
    Outcome (Exn w) Unit × MappingTable w :=
  match mt.check fuel seg with
  | .returns () => (.returns (), { mt with segmentList := mt.segmentList ++ [seg] })
  | .throws e => (.throws e, mt)
  | .running => (.running, mt)

/-! ## The builders -/

/-- One step of the three builders: an entry that is done must hold the value already. -/
def mark {α : Type} [DecidableEq α] (seg : Segment w) (val : α) (addr : Addr)
    (t : AddressDecodingTable α × AddressDecodingTable Bool) :
    Outcome (Exn w) (AddressDecodingTable α × AddressDecodingTable Bool) :=
  if t.2.get addr = true ∧ t.1.get addr ≠ val then .throws (.incoherent seg)
  else .returns (t.1.set addr val, t.2.set addr true)

/-- The loop of the three builders over the segments, where `val` gives the value of a
segment and skips one without. -/
def fill {α : Type} [DecidableEq α] (fuel : Nat) (mt : MappingTable w)
    (val : Segment w → Option α) (adt : AddressDecodingTable α)
    (done : AddressDecodingTable Bool) : Outcome (Exn w) (AddressDecodingTable α) := do
  let t ← mt.segmentList.foldlM (fun t seg =>
    match val seg with
    | some val => forBlocks fuel mt.rtSize seg (mark seg val) t
    | none => .returns t) (adt, done)
  return t.1

/-- `MappingTable::getCacheabilityTable`. -/
def getCacheabilityTable (fuel : Nat) (mt : MappingTable w) :
    Outcome (Exn w) (AddressDecodingTable Bool) := do
  let adt ← AddressDecodingTable.ofMask mt.cacheabilityMask false
  let done ← AddressDecodingTable.ofMask mt.cacheabilityMask false
  mt.fill fuel (fun seg => some seg.cacheable) adt done

/-- `MappingTable::getLocalityTable`. -/
def getLocalityTable (fuel : Nat) (mt : MappingTable w) (index : IntTab) :
    Outcome (Exn w) (AddressDecodingTable Bool) := do
  let nbits := mt.levelAddrBits.sum index.level
  let adt ← AddressDecodingTable.ofBits nbits (mt.addrWidth - nbits) true
  let done ← AddressDecodingTable.ofBits nbits (mt.addrWidth - nbits) false
  mt.fill fuel (fun seg => some (seg.index.idMatches index)) adt done

/-- `MappingTable::getRoutingTable`. -/
def getRoutingTable (fuel : Nat) (mt : MappingTable w) (index : IntTab) (defaultIndex : Int) :
    Outcome (Exn w) (AddressDecodingTable Int) := do
  let before := mt.levelAddrBits.sum index.level
  match mt.levelAddrBits.get? index.level with
  | none => .throws .bounds
  | some bits =>
      let adt ← AddressDecodingTable.ofBits bits (mt.addrWidth - bits - before) defaultIndex
      let done ← AddressDecodingTable.ofBits bits (mt.addrWidth - bits - before) false
      -- the level is in bounds: a registered index has all levels of the table
      mt.fill fuel (fun seg =>
        if seg.index.idMatches index then some ((seg.index.get? index.level).getD (-1))
        else none) adt done

/-! ## Histories of a table -/

/-- The calls of `add` on a table, those that throw included. -/
def calls (mt : MappingTable w) : System (MappingTable w) (Segment w) where
  init s := s = mt
  step s seg s' := ∃ fuel outcome, s.add fuel seg = (outcome, s') ∧ outcome ≠ .running

end MappingTable

end SmcTp.Mapping
