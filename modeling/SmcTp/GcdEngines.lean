import SmcTp.FifoGcd.Components
import SmcTp.Vci.GcdCoprocessor

/-!
# Two gcd engines in step

`FifoGcdCoprocessor` and the automaton `exeFsm` of `VciGcdCoprocessor` were written
apart, with the comparisons in another order and another last state.  Each of them
follows `SubtractiveGcd.Engine`, one transition a step, until the engine is done.

*Time.*  `FirstAt P n` is the first time `P` holds.  Started in their comparison on the
same operands, the two automata are done at the same time or never, and hold the same
registers up to then.
-/

namespace SmcTp

open Clocked SubtractiveGcd

/-- `P` holds at `n` and not before. -/
def FirstAt (P : Nat → Prop) (n : Nat) : Prop := P n ∧ ∀ k < n, ¬ P k

theorem FirstAt.exists {P : Nat → Prop} {n : Nat} (h : P n) : ∃ k ≤ n, FirstAt P k := by
  induction n using Nat.strongRecOn with
  | ind n ih =>
    rcases Classical.em (∃ k, k < n ∧ P k) with ⟨k, hlt, hk⟩ | hnone
    · obtain ⟨j, hle, hfirst⟩ := ih k hlt hk
      exact ⟨j, Nat.le_trans hle (Nat.le_of_lt hlt), hfirst⟩
    · exact ⟨n, Nat.le_refl n, h, fun k hlt hk => hnone ⟨k, hlt, hk⟩⟩

/-- Two properties that agree until one of them holds do so first at the same time. -/
theorem FirstAt.congr {P Q : Nat → Prop} {n : Nat}
    (heq : ∀ k ≤ n, (∀ j < k, ¬ Q j) → (P k ↔ Q k)) : FirstAt P n ↔ FirstAt Q n := by
  constructor
  · rintro ⟨hn, hbefore⟩
    have hnone : ∀ k < n, ¬ Q k := by
      intro k hlt
      induction k using Nat.strongRecOn with
      | ind k ih =>
        have hk := heq k (Nat.le_of_lt hlt) fun j hj => ih j hj (Nat.lt_trans hj hlt)
        exact fun hQ => hbefore k hlt (hk.mpr hQ)
    exact ⟨(heq n (Nat.le_refl n) hnone).mp hn, hnone⟩
  · rintro ⟨hn, hbefore⟩
    refine ⟨(heq n (Nat.le_refl n) hbefore).mpr hn, fun k hlt hk => hbefore k hlt ?_⟩
    exact (heq k (Nat.le_of_lt hlt) fun j hj => hbefore j (Nat.lt_trans hj hlt)).mp hk

/-! ## The engine on the FIFO -/

namespace FifoGcd.FifoGcdCoprocessor

/-- The loop is where the engine is. -/
def Follows (e : Engine) (s : FifoGcdCoprocessor) : Prop :=
  ∃ phase, s.phase? = some phase ∧ Engine.ofWords phase s.opa s.opb = e

theorem Follows.writeRes_iff {e : Engine} {s : FifoGcdCoprocessor} (h : s.Follows e) :
    s.fsm = .writeRes ↔ e.phase = .done := by
  obtain ⟨opa, opb, fsm⟩ := s
  obtain ⟨phase, hphase, rfl⟩ := h
  cases fsm <;> cases hphase <;> simp [Engine.ofWords]

theorem Follows.operands {e : Engine} {s : FifoGcdCoprocessor} (h : s.Follows e) :
    s.opa.toNat = e.a ∧ s.opb.toNat = e.b := by
  obtain ⟨phase, -, rfl⟩ := h
  exact ⟨rfl, rfl⟩

/-- One transition of a loop that is not done, whatever the channels show. -/
theorem Follows.transition {e : Engine} {s : FifoGcdCoprocessor} (h : s.Follows e)
    (hguard : e.Guarded) (hdone : e.phase ≠ .done) (pIn pOut : FifoSignals) :
    (s.transition true pIn pOut).Follows e.step := by
  obtain ⟨opa, opb, fsm⟩ := s
  obtain ⟨phase, hphase, rfl⟩ := h
  cases fsm with
  | readOpa => cases hphase
  | readOpb => cases hphase
  | compare =>
      cases hphase
      simp only [FifoGcdCoprocessor.transition, Bool.not_true, Bool.false_eq_true, if_false,
        BitVec.lt_def, Engine.ofWords, Engine.step]
      split
      next hlt => exact ⟨.decB, rfl, rfl⟩
      next hle =>
        split
        next hlt => exact ⟨.decA, rfl, rfl⟩
        next hle' => exact ⟨.done, rfl, rfl⟩
  | decrA =>
      cases hphase
      exact ⟨.compare, rfl, Engine.ofWords_decA hguard⟩
  | decrB =>
      cases hphase
      exact ⟨.compare, rfl, Engine.ofWords_decB hguard⟩
  | writeRes =>
      cases hphase
      exact absurd rfl hdone

/-- The coprocessor, put in `compare` on two operands, after so many transitions under
what its channels show. -/
def afterCompare (a b : Word) (ports : Nat → FifoSignals × FifoSignals) :
    Nat → FifoGcdCoprocessor :=
  iter (fun s port => s.transition true port.1 port.2) ⟨a, b, .compare⟩ ports

theorem afterCompare_follows {a b : Word} {ports : Nat → FifoSignals × FifoSignals} {n : Nat}
    (hdone : ∀ k < n, (Engine.step^[k] (Engine.ofWords .compare a b)).phase ≠ .done) :
    (afterCompare a b ports n).Follows (Engine.step^[n] (Engine.ofWords .compare a b)) := by
  induction n with
  | zero => exact ⟨.compare, rfl, rfl⟩
  | succ n ih =>
      have hfollows := ih fun k hk => hdone k (Nat.lt_succ_of_lt hk)
      have hcomp := (Engine.computes_start a.toNat b.toNat).iterate n
      rw [Function.iterate_succ_apply']
      exact hfollows.transition hcomp.guarded (hdone n (Nat.lt_succ_self n)) _ _

/-- The next transition, if it is a subtraction, does not go below zero. -/
def NoUnderflow (s : FifoGcdCoprocessor) : Prop :=
  (s.fsm = .decrA → s.opb ≤ s.opa) ∧ (s.fsm = .decrB → s.opa ≤ s.opb)

theorem NoUnderflow.of_ne {s : FifoGcdCoprocessor} (hA : s.fsm ≠ .decrA) (hB : s.fsm ≠ .decrB) :
    s.NoUnderflow := ⟨fun h => absurd h hA, fun h => absurd h hB⟩

/-- Only the comparison leads to a subtraction, and it has looked at the operands. -/
theorem NoUnderflow.transition (s : FifoGcdCoprocessor) (pIn pOut : FifoSignals) :
    (s.transition true pIn pOut).NoUnderflow := by
  have hne : CoprocessorFsm.decrA ≠ .decrB := CoprocessorFsm.noConfusion
  obtain ⟨opa, opb, fsm⟩ := s
  cases fsm with
  | compare =>
      simp only [FifoGcdCoprocessor.transition, Bool.not_true, Bool.false_eq_true, if_false]
      split
      next hlt => exact ⟨fun h => absurd h.symm hne, fun _ => BitVec.le_of_lt hlt⟩
      next hle =>
        split
        next hlt => exact ⟨fun _ => BitVec.le_of_lt hlt, fun h => absurd h hne⟩
        next hle' => exact .of_ne CoprocessorFsm.noConfusion CoprocessorFsm.noConfusion
  | decrA => exact .of_ne CoprocessorFsm.noConfusion CoprocessorFsm.noConfusion
  | decrB => exact .of_ne CoprocessorFsm.noConfusion CoprocessorFsm.noConfusion
  | _ =>
      simp only [FifoGcdCoprocessor.transition, Bool.not_true, Bool.false_eq_true, if_false]
      split <;> exact .of_ne CoprocessorFsm.noConfusion CoprocessorFsm.noConfusion

end FifoGcd.FifoGcdCoprocessor

/-! ## The engine behind the VCI -/

namespace Vci.VciGcdCoprocessor

variable {p : VciParams}

/-- The loop is where the engine is. -/
def Follows (e : Engine) (s : VciGcdCoprocessor p) : Prop :=
  Engine.ofWords s.phase s.opa s.opb = e

theorem Follows.idle_iff {e : Engine} {s : VciGcdCoprocessor p} (h : s.Follows e) :
    s.exeFsm = .idle ↔ e.phase = .done := by
  subst h
  cases hfsm : s.exeFsm <;> simp [Engine.ofWords, phase, hfsm]

theorem Follows.operands {e : Engine} {s : VciGcdCoprocessor p} (h : s.Follows e) :
    s.opa.toNat = e.a ∧ s.opb.toNat = e.b := by
  subst h
  exact ⟨rfl, rfl⟩

theorem Follows.exeTransition {e : Engine} {s : VciGcdCoprocessor p} (h : s.Follows e)
    (hguard : e.Guarded) (hdone : e.phase ≠ .done) : s.exeTransition.Follows e.step := by
  obtain ⟨vciFsm, exeFsm, srcid, trdid, pktid, opa, opb⟩ := s
  subst h
  cases exeFsm with
  | idle => exact absurd rfl hdone
  | compare =>
      rcases Nat.lt_trichotomy opa.toNat opb.toNat with hlt | heq | hlt
      · simp [VciGcdCoprocessor.exeTransition, Follows, Engine.ofWords, phase, Engine.step,
          BitVec.lt_def, hlt]
      · simp [VciGcdCoprocessor.exeTransition, Follows, Engine.ofWords, phase, Engine.step,
          BitVec.lt_def, heq]
      · simp [VciGcdCoprocessor.exeTransition, Follows, Engine.ofWords, phase, Engine.step,
          BitVec.lt_def, hlt, Nat.lt_asymm hlt]
  | decA => exact Engine.ofWords_decA hguard
  | decB => exact Engine.ofWords_decB hguard

theorem Follows.accept {e : Engine} {s : VciGcdCoprocessor p} (h : s.Follows e) {c : GcdCommand}
    (hc : c ≠ .opa ∧ c ≠ .opb) (sig : VciSignals p) : (accept c sig s).Follows e := by
  cases c with
  | opa => exact absurd rfl hc.1
  | opb => exact absurd rfl hc.2
  | result => exact h
  | status => exact h
  | start => exact h

/-- The transition takes an operand from the command wires. -/
def WritesOperand (seg : Segment) (sig : VciSignals p) (s : VciGcdCoprocessor p) : Prop :=
  s.vciFsm = .getCmd ∧ sig.cmdval = true ∧ (Legal seg sig .opa ∨ Legal seg sig .opb)

/-- A transition that does not halt and takes no operand. -/
def Continues (seg : Segment) (sig : VciSignals p) (s s' : VciGcdCoprocessor p) : Prop :=
  transition seg true sig s = .ok s' ∧ ¬ WritesOperand seg sig s

theorem Follows.transition {e : Engine} {seg : Segment} {sig : VciSignals p}
    {s s' : VciGcdCoprocessor p} (h : s.Follows e) (hguard : e.Guarded)
    (hdone : e.phase ≠ .done) (hnext : Continues seg sig s s') : s'.Follows e.step := by
  obtain ⟨hok, hkeep⟩ := hnext
  have hexe := h.exeTransition hguard hdone
  cases transition_edge hok with
  | wait hfsm hval => exact hexe
  | accept c hfsm hval hlegal =>
      refine hexe.accept ⟨?_, ?_⟩ sig
      · rintro rfl
        exact hkeep ⟨hfsm, hval, .inl hlegal⟩
      · rintro rfl
        exact hkeep ⟨hfsm, hval, .inr hlegal⟩
  | hold hfsm hack => exact hexe
  | release hfsm hack => exact hexe

theorem follows_of_continues {a b : Nat} {seg : Segment} {sig : Nat → VciSignals p}
    {s : Nat → VciGcdCoprocessor p} {n : Nat} (hstart : (s 0).Follows ⟨.compare, a, b⟩)
    (hnext : ∀ k < n, Continues seg (sig k) (s k) (s (k + 1)))
    (hdone : ∀ k < n, (Engine.step^[k] ⟨.compare, a, b⟩).phase ≠ .done) :
    (s n).Follows (Engine.step^[n] ⟨.compare, a, b⟩) := by
  induction n with
  | zero => exact hstart
  | succ n ih =>
      have hfollows := ih (fun k hk => hnext k (Nat.lt_succ_of_lt hk))
        fun k hk => hdone k (Nat.lt_succ_of_lt hk)
      have hcomp := (Engine.computes_start a b).iterate n
      rw [Function.iterate_succ_apply']
      exact hfollows.transition hcomp.guarded (hdone n (Nat.lt_succ_self n))
        (hnext n (Nat.lt_succ_self n))

end Vci.VciGcdCoprocessor

/-! ## The two in step -/

open FifoGcd Vci

section Agreement

/-- The automaton is in `WRITE_RES` after `n` transitions and not before. -/
def WritesResAt (a b : Word) (ports : Nat → FifoSignals × FifoSignals) (n : Nat) : Prop :=
  FirstAt (fun k => (FifoGcdCoprocessor.afterCompare a b ports k).fsm = .writeRes) n

/-- The automaton is back in `EXE_IDLE` after `n` transitions and not before. -/
def IdleAt {p : VciParams} (s : Nat → VciGcdCoprocessor p) (n : Nat) : Prop :=
  FirstAt (fun k => (s k).exeFsm = .idle) n

/-- The engine is done after `n` steps and not before. -/
def DoneAt (a b n : Nat) : Prop :=
  FirstAt (fun k => (Engine.step^[k] ⟨.compare, a, b⟩).phase = .done) n

theorem writesResAt_iff {a b : Word} {ports : Nat → FifoSignals × FifoSignals} {n : Nat} :
    WritesResAt a b ports n ↔ DoneAt a.toNat b.toNat n :=
  FirstAt.congr fun _ _ hbefore =>
    (FifoGcdCoprocessor.afterCompare_follows hbefore).writeRes_iff

theorem idleAt_iff {p : VciParams} {a b : Nat} {seg : Segment} {sig : Nat → VciSignals p}
    {s : Nat → VciGcdCoprocessor p} {n : Nat} (hstart : (s 0).Follows ⟨.compare, a, b⟩)
    (hnext : ∀ k < n, VciGcdCoprocessor.Continues seg (sig k) (s k) (s (k + 1))) :
    IdleAt s n ↔ DoneAt a b n :=
  FirstAt.congr fun _ hk hbefore =>
    (VciGcdCoprocessor.follows_of_continues hstart
      (fun j hj => hnext j (Nat.lt_of_lt_of_le hj hk)) hbefore).idle_iff

theorem exists_writesResAt {a b : Word} (ports : Nat → FifoSignals × FifoSignals)
    (h : a = b ∨ a ≠ 0 ∧ b ≠ 0) :
    ∃ n ≤ 2 * max a.toNat b.toNat + 1, WritesResAt a b ports n := by
  have h' : a.toNat = b.toNat ∨ a.toNat ≠ 0 ∧ b.toNat ≠ 0 := by
    rcases h with rfl | ⟨ha, hb⟩
    · exact .inl rfl
    · exact .inr ⟨fun h => ha (BitVec.eq_of_toNat_eq h), fun h => hb (BitVec.eq_of_toNat_eq h)⟩
  obtain ⟨n, hn, hdone⟩ := Engine.done_within h'
  obtain ⟨k, hk, hfirst⟩ := FirstAt.exists
    (P := fun k => (Engine.step^[k] ⟨.compare, a.toNat, b.toNat⟩).phase = .done) hdone
  exact ⟨k, Nat.le_trans hk hn, writesResAt_iff.mpr hfirst⟩

theorem writes_res_iff {a b : Word} {ports : Nat → FifoSignals × FifoSignals} :
    (∃ n, (FifoGcdCoprocessor.afterCompare a b ports n).fsm = .writeRes) ↔
      a = b ∨ a ≠ 0 ∧ b ≠ 0 := by
  constructor
  · rintro ⟨n, hn⟩
    obtain ⟨k, -, hfirst⟩ := FirstAt.exists
      (P := fun k => (FifoGcdCoprocessor.afterCompare a b ports k).fsm = .writeRes) hn
    have hdone : DoneAt a.toNat b.toNat k := writesResAt_iff.mp hfirst
    rcases (Engine.halts_iff a.toNat b.toNat).mp ⟨k, hdone.1⟩ with heq | ⟨ha, hb⟩
    · exact .inl (BitVec.eq_of_toNat_eq heq)
    · refine .inr ⟨?_, ?_⟩
      · rintro rfl
        exact ha rfl
      · rintro rfl
        exact hb rfl
  · intro h
    obtain ⟨n, -, hfirst⟩ := exists_writesResAt ports h
    exact ⟨n, hfirst.1⟩

theorem WritesResAt.operands {a b : Word} {ports : Nat → FifoSignals × FifoSignals} {n : Nat}
    (h : WritesResAt a b ports n) :
    (FifoGcdCoprocessor.afterCompare a b ports n).opa.toNat = Nat.gcd a.toNat b.toNat ∧
      (FifoGcdCoprocessor.afterCompare a b ports n).opb.toNat = Nat.gcd a.toNat b.toNat := by
  have hdone : DoneAt a.toNat b.toNat n := writesResAt_iff.mp h
  have hfollows : (FifoGcdCoprocessor.afterCompare a b ports n).Follows _ :=
    FifoGcdCoprocessor.afterCompare_follows hdone.2
  obtain ⟨hopa, hopb⟩ := hfollows.operands
  obtain ⟨ha, hb⟩ := ((Engine.computes_start a.toNat b.toNat).iterate n).result hdone.1
  exact ⟨hopa.trans ha, hopb.trans hb⟩

/-- The FIFO engine reaches `WRITE_RES` on equal operands and on two non-zero ones, with
the gcd in both registers, and never subtracts the larger from the smaller.  The engine
behind the VCI, started on the same operands, is back in `EXE_IDLE` at the same
transition with the same registers. -/
theorem engines_compute_gcd_in_step (a b : Word) (ports : Nat → FifoSignals × FifoSignals) :
    ((∃ n, (FifoGcdCoprocessor.afterCompare a b ports n).fsm = .writeRes) ↔
      a = b ∨ a ≠ 0 ∧ b ≠ 0) ∧
    (a = b ∨ a ≠ 0 ∧ b ≠ 0 →
      ∃ n ≤ 2 * max a.toNat b.toNat + 1, WritesResAt a b ports n ∧
        (FifoGcdCoprocessor.afterCompare a b ports n).opa.toNat = Nat.gcd a.toNat b.toNat ∧
        (FifoGcdCoprocessor.afterCompare a b ports n).opb.toNat = Nat.gcd a.toNat b.toNat) ∧
    (∀ n, (FifoGcdCoprocessor.afterCompare a b ports n).NoUnderflow) ∧
    (∀ (p : VciParams) (seg : Segment) (sig : Nat → VciSignals p)
      (s : Nat → VciGcdCoprocessor p) (n : Nat),
      (s 0).exeFsm = .compare → (s 0).opa.toNat = a.toNat → (s 0).opb.toNat = b.toNat →
      (∀ k < n, VciGcdCoprocessor.Continues seg (sig k) (s k) (s (k + 1))) →
      (IdleAt s n ↔ WritesResAt a b ports n) ∧
      (IdleAt s n →
        (s n).opa.toNat = (FifoGcdCoprocessor.afterCompare a b ports n).opa.toNat ∧
        (s n).opb.toNat = (FifoGcdCoprocessor.afterCompare a b ports n).opb.toNat)) := by
  refine ⟨writes_res_iff, fun h => ?_, fun n => ?_, ?_⟩
  · obtain ⟨n, hn, hfirst⟩ := exists_writesResAt ports h
    exact ⟨n, hn, hfirst, hfirst.operands⟩
  · cases n with
    | zero =>
        exact .of_ne FifoGcd.CoprocessorFsm.noConfusion FifoGcd.CoprocessorFsm.noConfusion
    | succ n => exact .transition _ _ _
  · intro p seg sig s n hfsm hopa hopb hnext
    have hstart : (s 0).Follows ⟨.compare, a.toNat, b.toNat⟩ := by
      rw [VciGcdCoprocessor.Follows, Engine.ofWords, VciGcdCoprocessor.phase, hfsm, hopa, hopb]
    have hwrite : WritesResAt a b ports n ↔ DoneAt a.toNat b.toNat n := writesResAt_iff
    have hsame := (idleAt_iff hstart hnext).trans hwrite.symm
    refine ⟨hsame, fun hidle => ?_⟩
    have hdone : DoneAt a.toNat b.toNat n := (idleAt_iff hstart hnext).mp hidle
    obtain ⟨hsa, hsb⟩ :=
      (VciGcdCoprocessor.follows_of_continues hstart hnext hdone.2).operands
    obtain ⟨ha, hb⟩ := ((Engine.computes_start a.toNat b.toNat).iterate n).result hdone.1
    obtain ⟨hfa, hfb⟩ := (hsame.mp hidle).operands
    exact ⟨(hsa.trans ha).trans hfa.symm, (hsb.trans hb).trans hfb.symm⟩

/-- The engine behind the VCI on 4 and 6, without a command. -/
def quietRun : Nat → VciGcdCoprocessor vciParam :=
  iter (fun s (_ : Unit) => s.exeTransition) ⟨.getCmd, .compare, 0, 0, 0, 4, 6⟩ fun _ => ()

theorem quietRun_vciFsm (n : Nat) : (quietRun n).vciFsm = .getCmd := by
  induction n with
  | zero => rfl
  | succ n ih => exact (VciGcdCoprocessor.exeTransition_frame _).1.trans ih

theorem quietRun_continues (n : Nat) :
    VciGcdCoprocessor.Continues VciGcdCoprocessor.segmentAtZero VciSignals.undriven
      (quietRun n) (quietRun (n + 1)) :=
  ⟨VciGcdCoprocessor.transition_wait (quietRun_vciFsm n) rfl, fun h => Bool.noConfusion h.2.1⟩

theorem quietRun_idleAt : IdleAt quietRun 5 := by
  have hbusy : ∀ k < 5, (quietRun k).exeFsm ≠ .idle := by decide
  exact ⟨rfl, hbusy⟩

/-- Five transitions of either engine take 4 and 6 to 2 and 2. -/
theorem engines_in_step_on_four_six (ports : Nat → FifoSignals × FifoSignals) :
    WritesResAt 4 6 ports 5 ∧ (FifoGcdCoprocessor.afterCompare 4 6 ports 5).opa.toNat = 2 := by
  obtain ⟨-, -, -, hvci⟩ := engines_compute_gcd_in_step 4 6 ports
  obtain ⟨hsame, hregs⟩ := hvci vciParam VciGcdCoprocessor.segmentAtZero
    (fun _ => VciSignals.undriven) quietRun 5 rfl rfl rfl fun k _ => quietRun_continues k
  exact ⟨hsame.mp quietRun_idleAt, (hregs quietRun_idleAt).1.symm⟩

end Agreement

end SmcTp
