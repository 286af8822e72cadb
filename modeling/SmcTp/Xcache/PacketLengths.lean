import Mathlib.Algebra.Ring.Nat
import SmcTp.Clocked.Run
import SmcTp.Xcache.Components
import SmcTp.Xcache.ReadEdge
import SmcTp.Xcache.CommandEdge

/-!
# Packet lengths

The `plen` field of a command is to give the length of the transfer in bytes, four times
its words.  The field has `K` bits.  The constructor compares `2 ^ K` with the line of the
instruction cache only, in cells of `B` bytes.

`PlenExact` is about every command the automaton can hold in its registers, a burst of up to
`wbufNwords` words included.  `BurstFits` is what the registers of a burst keep along the runs of
a wrapper whose write buffer offers such bursts (`burstFits_reachable`).  All lengths fit if and
only if each of the three sizes fits (`plenExact_iff`).
-/

namespace SmcTp.Xcache

open Vci Clocked

variable {p : VciParams} {F C W : Type}

namespace XcacheWrapper

/-- The words the command on the wires transfers. -/
def transferWords (cfg : XcacheConfig p) (s : XcacheWrapper F C W) : Option Nat :=
  match s.cmdFsm with
  | .idle => none
  | .dataWrite => some (s.cmdMax - s.cmdMin + 1)
  | .read c .miss => some (cfg.words c)
  | .read _ .unc => some 1

/-- The burst that is sent has at least one word and at most `wbufNwords`. -/
def BurstFits (wbufNwords : Nat) (s : XcacheWrapper F C W) : Prop :=
  s.cmdFsm = .dataWrite → s.cmdMin ≤ s.cmdMax ∧ s.cmdMax - s.cmdMin + 1 ≤ wbufNwords

end XcacheWrapper

open XcacheWrapper

/-- Every command has a `plen` of four times its words. -/
def PlenExact (cfg : XcacheConfig p) (wbufNwords : Nat) : Prop :=
  ∀ {F C W : Type} (parts : Parts F C W) (s : XcacheWrapper F C W) (sig : VciSignals p) (n : Nat),
    s.BurstFits wbufNwords → s.transferWords cfg = some n →
      (s.genMoore cfg parts sig).plen.toNat = 4 * n

/-! ## The registers of a burst -/

/-- A write buffer of `wbufNwords` words a line offers bursts of its words. -/
def RokFits (parts : Parts F C W) (wbufNwords : Nat) : Prop :=
  ∀ w first last w', parts.wbuf.rok w = (some (first, last), w') →
    first ≤ last ∧ last - first + 1 ≤ wbufNwords

/-- The wrapper with everything its two neighbours may do. -/
def wrapper (cfg : XcacheConfig p) (parts : Parts F C W) :
    System (XcacheWrapper F C W) (InsRequest × DataRequest × VciSignals p) where
  init s := ∃ s₀, s = XcacheWrapper.reset parts s₀
  step s i s' := ∃ out, s.transition cfg parts i.1 i.2.1 i.2.2 = .ok out ∧ s' = out.state

/-- The command automaton holds a burst the write buffer has offered. -/
theorem CmdStep.burst_fits {parts : Parts F C W} {wbufNwords : Nat}
    (hrok : RokFits parts wbufNwords) {cmdack : Bool} {min max cpt : Nat} {wbuf : W} {fsm : CmdFsm}
    {out : CmdOut W} (h : CmdStep parts cmdack min max cpt wbuf fsm out)
    (hfits : fsm = .dataWrite → min ≤ max ∧ max - min + 1 ≤ wbufNwords)
    (hout : out.fsm = .dataWrite) : out.min ≤ out.max ∧ out.max - out.min + 1 ≤ wbufNwords := by
  cases h with
  | grant c k wbuf' hwbuf => cases hout
  | burst first last wbuf' hoffer => exact hrok wbuf first last wbuf' hoffer
  | rest wbuf' hnone => cases hout
  | wait hack => exact hfits rfl
  | next hack hmore => exact hfits rfl
  | last hack hlast => cases hout
  | send c k =>
      dsimp only at hout
      split at hout <;> cases hout

/-- Along the runs of a wrapper the registers hold a burst that fits. -/
theorem burstFits_reachable {cfg : XcacheConfig p} {parts : Parts F C W} {wbufNwords : Nat}
    (hrok : RokFits parts wbufNwords) {s : XcacheWrapper F C W}
    (h : (wrapper cfg parts).Reachable s) : s.BurstFits wbufNwords := by
  refine h.invariant (fun s hstart => ?_) fun s i s' hfits hstep => ?_
  · obtain ⟨s₀, rfl⟩ := hstart
    intro hfsm
    cases hfsm
  · obtain ⟨out, hout, rfl⟩ := hstep
    obtain ⟨d, rsp, -, -, rfl⟩ := transition_ok hout
    exact (cmdTransition_step parts _ s.ins s.data s.cmdFsm _ _ _ _).burst_fits hrok hfits

/-! ## The length on the wires -/

section Lengths

variable {cfg : XcacheConfig p} {parts : Parts F C W} {s : XcacheWrapper F C W}
  {sig : VciSignals p}

/-- The length of a read, in `K` bits. -/
theorem plen_read {c : Client} {k : ReadKind} (hfsm : s.cmdFsm = .read c k) :
    (s.genMoore cfg parts sig).plen.toNat = 4 * cfg.length c k % 2 ^ p.K := by
  have hfour : (4 : BitVec p.K).toNat = 4 % 2 ^ p.K := BitVec.toNat_ofNat 4 p.K
  have hline : (BitVec.ofNat p.K (cfg.words c <<< 2)).toNat = 4 * cfg.words c % 2 ^ p.K := by
    rw [BitVec.toNat_ofNat, Nat.shiftLeft_eq, Nat.mul_comm]
  cases k with
  | miss => simpa only [genMoore, hfsm, XcacheConfig.length] using hline
  | unc =>
      cases c with
      | ins => simpa only [genMoore, hfsm, XcacheConfig.length, Nat.mul_one] using hfour
      | data =>
          cases htype : s.dataSave.type <;>
            simpa only [genMoore, hfsm, htype, XcacheConfig.length, Nat.mul_one] using hfour

/-- The length of a burst, computed in 64 bits and cut to `K`. -/
theorem plen_burst (hfsm : s.cmdFsm = .dataWrite) (hle : s.cmdMin ≤ s.cmdMax) :
    (s.genMoore cfg parts sig).plen.toNat =
      4 * (s.cmdMax - s.cmdMin + 1) % 2 ^ min p.K 64 := by
  have hwords : (BitVec.ofNat 64 s.cmdMax - BitVec.ofNat 64 s.cmdMin + 1).toNat =
      (s.cmdMax - s.cmdMin + 1) % 2 ^ 64 := by
    simp only [BitVec.toNat_add, BitVec.toNat_sub, BitVec.ofNat_eq_ofNat, BitVec.toNat_ofNat]
    omega
  have hbytes : ((BitVec.ofNat 64 s.cmdMax - BitVec.ofNat 64 s.cmdMin + 1) <<< 2).toNat =
      4 * (s.cmdMax - s.cmdMin + 1) % 2 ^ 64 := by
    rw [BitVec.toNat_shiftLeft, hwords, Nat.shiftLeft_eq]
    omega
  simp only [genMoore, hfsm]
  rw [BitVec.toNat_setWidth, hbytes]
  rcases Nat.le_total p.K 64 with hK | hK
  · rw [Nat.mod_mod_of_dvd _ (Nat.pow_dvd_pow 2 hK), Nat.min_eq_left hK]
  · have hpow : 2 ^ 64 ≤ 2 ^ p.K := Nat.pow_le_pow_right (by decide) hK
    rw [Nat.min_eq_right hK]
    exact Nat.mod_eq_of_lt (Nat.lt_of_lt_of_le (Nat.mod_lt _ (Nat.two_pow_pos 64)) hpow)

end Lengths

/-! ## When the lengths fit -/

/-- Components without a state. -/
def unitParts : Parts Unit Unit Unit where
  fifo := ⟨id, fun _ => false, fun _ => false, fun _ => 0, fun _ _ _ f => f⟩
  cache :=
    { reset := id
      read := fun _ c => (⟨false, 0, 0, 0, 0⟩, c)
      victimSelect := fun _ c => (⟨false, 0, 0⟩, c)
      inval := fun _ _ c => c
      write := fun _ _ _ _ _ c => c
      victimUpdateTag := fun _ _ _ c => c }
  wbuf :=
    { reset := id
      write := fun _ _ _ _ w => (false, w)
      update := id
      empty := fun _ => true
      miss := fun _ _ => true
      rok := fun w => (none, w)
      sent := id
      completed := fun _ w => w
      getAddress := fun _ _ => 0
      getData := fun _ _ => 0
      getBe := fun _ _ => 0
      getIndex := fun _ => 0 }

/-- The registers with a command. -/
def commanding (fsm : CmdFsm) (first last : Nat) : XcacheWrapper Unit Unit Unit :=
  let side : Side Unit := ⟨0, 0, 0, 0, false, false, false, ()⟩
  { icacheFsm := .idle
    dcacheFsm := .idle
    ins := side
    data := side
    dataSave := ⟨0, .read, 0, false⟩
    cmdFsm := fsm
    cmdMin := first
    cmdMax := last
    cmdCpt := first
    rspFsm := .idle
    rspCpt := 0
    wbuf := ()
    icache := ()
    dcache := () }

/-- The length of a line is right only if it fits. -/
theorem PlenExact.line_fits {cfg : XcacheConfig p} {wbufNwords : Nat}
    (h : PlenExact cfg wbufNwords) (c : Client) : 4 * cfg.words c < 2 ^ p.K := by
  have hplen := h unitParts (commanding (.read c .miss) 0 0) .undriven (cfg.words c)
    (fun hfsm => CmdFsm.noConfusion hfsm) rfl
  rw [plen_read (c := c) (k := .miss) rfl] at hplen
  rw [← hplen]
  exact Nat.mod_lt _ (Nat.two_pow_pos _)

/-- The length of the longest burst is right only if it fits. -/
theorem PlenExact.burst_fits {cfg : XcacheConfig p} {wbufNwords : Nat}
    (h : PlenExact cfg wbufNwords) : 4 * wbufNwords < 2 ^ min p.K 64 := by
  cases wbufNwords with
  | zero => exact Nat.two_pow_pos _
  | succ last =>
      have hplen := h unitParts (commanding .dataWrite 0 last) .undriven (last + 1)
        (fun _ => ⟨Nat.zero_le last, Nat.le_refl _⟩) rfl
      rw [plen_burst rfl (Nat.zero_le last)] at hplen
      rw [← hplen]
      exact Nat.mod_lt _ (Nat.two_pow_pos _)

/-- Every command has its length if and only if four times each of the three sizes fits into
the field, which is no wider than the 64 bits the length of a burst is computed in. -/
theorem plenExact_iff (cfg : XcacheConfig p) (wbufNwords : Nat) :
    PlenExact cfg wbufNwords ↔
      4 * cfg.icacheWords < 2 ^ p.K ∧ 4 * cfg.dcacheWords < 2 ^ p.K ∧
        4 * wbufNwords < 2 ^ min p.K 64 := by
  constructor
  · intro h
    exact ⟨h.line_fits .ins, h.line_fits .data, h.burst_fits⟩
  · rintro ⟨hins, hdata, hwbuf⟩ F C W parts s sig n hfits hn
    have hlines : ∀ c, 4 * cfg.words c < 2 ^ p.K := by
      intro c
      cases c with
      | ins => exact hins
      | data => exact hdata
    cases hfsm : s.cmdFsm with
    | idle =>
        simp only [transferWords, hfsm] at hn
        cases hn
    | dataWrite =>
        simp only [transferWords, hfsm] at hn
        cases hn
        obtain ⟨hle, hwords⟩ := hfits hfsm
        rw [plen_burst hfsm hle]
        exact Nat.mod_eq_of_lt (by omega)
    | read c k =>
        have hlength : cfg.length c k = n := by
          cases k with
          | miss =>
              simp only [transferWords, hfsm] at hn
              exact Option.some.inj hn
          | unc =>
              simp only [transferWords, hfsm] at hn
              exact Option.some.inj hn
        have hle : cfg.length c k ≤ cfg.words c := by
          cases k with
          | miss => exact Nat.le_refl _
          | unc => exact cfg.words_pos c
        have hline := hlines c
        rw [plen_read hfsm, ← hlength]
        exact Nat.mod_eq_of_lt (by omega)

/-! ## A long data line -/

/-- Four words in a line of the instruction cache and 64 in one of the data cache, with
eight bits for the length. -/
def longLineConfig : XcacheConfig smallParam where
  cacheabilityTable _ := true
  srcid := 0
  icacheWords := 4
  dcacheWords := 64
  wbufNlines := 4
  xtnDcacheInval := 4
  xtnSync := 5
  icacheLine := by decide
  dcacheLine := by decide
  plenBits := by decide
  trdidBits := by decide

/-- A miss of the data cache asks for no bytes. -/
theorem longLine_not_exact :
    ¬ ∀ (p : VciParams) (cfg : XcacheConfig p) (wbufNwords : Nat), PlenExact cfg wbufNwords := by
  intro hall
  have hexact : PlenExact longLineConfig 4 := hall smallParam longLineConfig 4
  have hline := hexact.line_fits .data
  revert hline
  decide

end SmcTp.Xcache
