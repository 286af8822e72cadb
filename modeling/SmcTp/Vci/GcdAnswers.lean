import SmcTp.Vci.GcdCoprocessor

/-!
# How the gcd coprocessor answers commands

Between a command and the next one there should be one response, with the
identifiers of the command (`AnswersOnce`).  Each response state of `vciFsm` is
left on `rspack`.  In `rspResult` that is one test short: while the loop runs
`rspval` is down, and an initiator that holds `rspack` up early takes the state
away without having seen a response (`Drops`).

`History` says for each time what became of the last command.  From it
`answersOnce_iff` derives that the law holds exactly in the runs where no command
follows a drop.
-/

namespace SmcTp.Vci.VciGcdCoprocessor

open Clocked

variable {p : VciParams} {seg : Segment}

/-! ## The law -/

/-- What happens at none of the times between two others. -/
def NoneIn (P : Nat → Prop) (t n : Nat) : Prop := ∀ u, t < u → u < n → ¬ P u

/-- Two acceptances in a row. -/
structure NextAccept (r : (coprocessor (p := p) seg).Run) (t t' : Nat) : Prop where
  before : t < t'
  first : Accepts r t
  second : Accepts r t'
  between : NoneIn (Accepts r) t t'

/-- Before `n`, the response at `u` is the only one to the command accepted at
`t`, and carries its identifiers. -/
structure Answered (r : (coprocessor (p := p) seg).Run) (t n u : Nat) : Prop where
  after : t < u
  before : u < n
  responds : Responds r u
  only : ∀ v, t < v → v < n → Responds r v → v = u
  ids : (r.input u).rsrcid = (r.input t).srcid ∧ (r.input u).rtrdid = (r.input t).trdid ∧
    (r.input u).rpktid = (r.input t).pktid

/-- Exactly one response between a command and the next. -/
def AnswersOnce (r : (coprocessor (p := p) seg).Run) : Prop :=
  ∀ t t', NextAccept r t t' → ∃ u, Answered r t t' u

/-- The initiator is ready for a result that is still being computed. -/
def Drops (r : (coprocessor (p := p) seg).Run) (t : Nat) : Prop :=
  (r.state t).vciFsm = .rspResult ∧ (r.state t).exeFsm ≠ .idle ∧ (r.input t).rspack = true

theorem NoneIn.succ {P : Nat → Prop} {t n : Nat} (h : NoneIn P t n) (hn : ¬ P n) :
    NoneIn P t (n + 1) := by
  intro u htu hun
  rcases Nat.lt_succ_iff_lt_or_eq.mp hun with hlt | rfl
  · exact h u htu hlt
  · exact hn

theorem noneIn_next (P : Nat → Prop) (t : Nat) : NoneIn P t (t + 1) :=
  fun _ htu hut => absurd htu (Nat.not_lt.mpr (Nat.le_of_lt_succ hut))

/-! ## One cycle -/

variable {r : (coprocessor (p := p) seg).Run} {t : Nat}

/-- The identifier registers hold what the wires showed at `t`. -/
def Keeps (r : (coprocessor (p := p) seg).Run) (t n : Nat) : Prop :=
  (r.state n).srcid = (r.input t).srcid ∧ (r.state n).trdid = (r.input t).trdid ∧
    (r.state n).pktid = (r.input t).pktid

/-- After an accepted command the coprocessor is in a response state. -/
theorem Accepts.next (h : Accepts r t) :
    (r.state (t + 1)).vciFsm ≠ .getCmd ∧ Keeps r t (t + 1) := by
  obtain ⟨hfsm, hval⟩ := accepts_iff.mp h
  have hedge := run_edge r t
  rw [Keeps]
  generalize r.state (t + 1) = s' at hedge
  cases hedge with
  | wait _ hval' => rw [hval] at hval'; cases hval'
  | accept c _ _ _ =>
      refine ⟨?_, accept_ids c _ _⟩
      rw [accept_vciFsm]
      cases c <;> exact GcdVciFsm.noConfusion
  | hold hfsm' _ => exact absurd hfsm hfsm'
  | release hfsm' _ => exact absurd hfsm hfsm'

/-- Without a command nothing happens. -/
theorem getCmd_stays (hfsm : (r.state t).vciFsm = .getCmd) (hno : ¬ Accepts r t) :
    (r.state (t + 1)).vciFsm = .getCmd := by
  have hedge := run_edge r t
  generalize r.state (t + 1) = s' at hedge
  cases hedge with
  | wait _ _ => exact (exeTransition_frame _).1.trans hfsm
  | accept _ _ hval _ => exact absurd (accepts_iff.mpr ⟨hfsm, hval⟩) hno
  | hold hfsm' _ => exact absurd hfsm hfsm'
  | release hfsm' _ => exact absurd hfsm hfsm'

/-- A response state lasts until `rspack`. -/
theorem response_step (hfsm : (r.state t).vciFsm ≠ .getCmd) :
    ((r.input t).rspack = false ∧ (r.state (t + 1)).vciFsm = (r.state t).vciFsm ∧
      (∀ t₀, Keeps r t₀ t → Keeps r t₀ (t + 1))) ∨
    ((r.input t).rspack = true ∧ (r.state (t + 1)).vciFsm = .getCmd) := by
  have hedge := run_edge r t
  simp only [Keeps]
  generalize r.state (t + 1) = s' at hedge
  cases hedge with
  | wait hfsm' _ => exact absurd hfsm' hfsm
  | accept _ hfsm' _ _ => exact absurd hfsm' hfsm
  | hold _ hack =>
      obtain ⟨hvci, hsrcid, htrdid, hpktid⟩ := exeTransition_frame (r.state t)
      left
      refine ⟨hack, hvci, ?_⟩
      rw [hsrcid, htrdid, hpktid]
      exact fun _ h => h
  | release _ hack => exact .inr ⟨hack, rfl⟩

/-! ## What became of the last command -/

/-- The state at `n` and what became of the last command before it. -/
inductive History (r : (coprocessor (p := p) seg).Run) (n : Nat) : Prop where
  | fresh (hnone : ∀ t < n, ¬ Accepts r t) (hfsm : (r.state n).vciFsm = .getCmd)
  | pending (t : Nat) (ht : t < n) (haccept : Accepts r t) (hlast : NoneIn (Accepts r) t n)
      (hnone : NoneIn (Responds r) t n) (hkeeps : Keeps r t n)
      (hfsm : (r.state n).vciFsm ≠ .getCmd)
  | answered (t u : Nat) (haccept : Accepts r t) (hlast : NoneIn (Accepts r) t n)
      (hanswered : Answered r t n u) (hfsm : (r.state n).vciFsm = .getCmd)
  | dropped (t u : Nat) (ht : t < u) (hu : u < n) (haccept : Accepts r t)
      (hlast : NoneIn (Accepts r) t n) (hdrops : Drops r u) (hfsm : (r.state n).vciFsm = .getCmd)

theorem Answered.succ {n u : Nat} (h : Answered r t n u) (hno : ¬ Responds r n) :
    Answered r t (n + 1) u := by
  refine ⟨h.after, Nat.lt_succ_of_lt h.before, h.responds, ?_, h.ids⟩
  intro v htv hvn hresponds
  rcases Nat.lt_succ_iff_lt_or_eq.mp hvn with hlt | rfl
  · exact h.only v htv hlt hresponds
  · exact absurd hresponds hno

theorem History.succ {n : Nat} (h : History r n) : History r (n + 1) := by
  by_cases haccept : Accepts r n
  · obtain ⟨hfsm, hkeeps⟩ := haccept.next
    exact .pending n (Nat.lt_succ_self n) haccept (noneIn_next _ n) (noneIn_next _ n) hkeeps hfsm
  cases h with
  | fresh hnone hfsm =>
      refine .fresh (fun t htn => ?_) (getCmd_stays hfsm haccept)
      rcases Nat.lt_succ_iff_lt_or_eq.mp htn with hlt | rfl
      · exact hnone t hlt
      · exact haccept
  | pending t ht haccept' hlast hnone hkeeps hfsm =>
      rcases response_step hfsm with ⟨hack, hfsm', hkeeps'⟩ | ⟨hack, hfsm'⟩
      · -- No `rspack`, so no transfer.
        refine .pending t (Nat.lt_succ_of_lt ht) haccept' (hlast.succ haccept)
          (hnone.succ fun hresponds => ?_) (hkeeps' t hkeeps) (by rw [hfsm']; exact hfsm)
        rw [(responds_iff.mp hresponds).2.2] at hack
        cases hack
      · by_cases hdrops : Drops r n
        · exact .dropped t n ht (Nat.lt_succ_self n) haccept' (hlast.succ haccept) hdrops hfsm'
        · have hidle : (r.state n).vciFsm = .rspResult → (r.state n).exeFsm = .idle := by
            intro hresult
            by_contra hbusy
            exact hdrops ⟨hresult, hbusy, hack⟩
          have hresponds : Responds r n := responds_iff.mpr ⟨hfsm, hidle, hack⟩
          refine .answered t n haccept' (hlast.succ haccept)
            ⟨ht, Nat.lt_succ_self n, hresponds, fun v htv hvn hv => ?_, ?_⟩ hfsm'
          · rcases Nat.lt_succ_iff_lt_or_eq.mp hvn with hlt | heq
            · exact absurd hv (hnone v htv hlt)
            · exact heq
          · obtain ⟨hsrcid, htrdid, hpktid⟩ := (run_driven r n).ids
            exact ⟨hsrcid.trans hkeeps.1, htrdid.trans hkeeps.2.1, hpktid.trans hkeeps.2.2⟩
  | answered t u haccept' hlast hanswered hfsm =>
      exact .answered t u haccept' (hlast.succ haccept)
        (hanswered.succ fun hresponds => (responds_iff.mp hresponds).1 hfsm)
        (getCmd_stays hfsm haccept)
  | dropped t u ht hu haccept' hlast hdrops hfsm =>
      exact .dropped t u ht (Nat.lt_succ_of_lt hu) haccept' (hlast.succ haccept) hdrops
        (getCmd_stays hfsm haccept)

theorem history (r : (coprocessor (p := p) seg).Run) : ∀ n, History r n
  | 0 => .fresh (fun t ht => absurd ht (Nat.not_lt_zero t)) (run_start r).1
  | n + 1 => (history r n).succ

/-! ## When the law holds -/

/-- If no command follows a drop, every command is answered before the next. -/
theorem answersOnce_of_quiet
    (hquiet : ∀ u, Drops r u → ∀ t, u < t → (r.input t).cmdval = false) : AnswersOnce r := by
  intro t t' h
  obtain ⟨hfsm', hval⟩ := accepts_iff.mp h.second
  -- The last command before `t'` is the one at `t`.
  have hsame : ∀ t₀ < t', Accepts r t₀ → NoneIn (Accepts r) t₀ t' → t₀ = t := by
    intro t₀ ht₀ haccept hlast
    rcases Nat.lt_trichotomy t₀ t with hlt | heq | hlt
    · exact absurd h.first (hlast t hlt h.before)
    · exact heq
    · exact absurd haccept (h.between t₀ hlt ht₀)
  cases history r t' with
  | fresh hnone _ => exact absurd h.first (hnone t h.before)
  | pending _ _ _ _ _ _ hfsm => exact absurd hfsm' hfsm
  | answered t₀ u haccept hlast hanswered _ =>
      have heq := hsame t₀ (Nat.lt_trans hanswered.after hanswered.before) haccept hlast
      exact ⟨u, heq ▸ hanswered⟩
  | dropped t₀ u _ hu _ _ hdrops _ =>
      rw [hquiet u hdrops t' hu] at hval
      cases hval

/-- After a drop the coprocessor waits for a command. -/
theorem Drops.getCmd {u n : Nat} (h : Drops r u) (hun : u < n)
    (hno : NoneIn (fun t => (r.input t).cmdval = true) u n) :
    ∀ v, u < v → v ≤ n → (r.state v).vciFsm = .getCmd := by
  have hbusy : (r.state u).vciFsm ≠ .getCmd := by rw [h.1]; exact GcdVciFsm.noConfusion
  induction hun with
  | refl =>
      intro v huv hvu
      rw [Nat.le_antisymm hvu huv]
      rcases response_step hbusy with ⟨hack, -⟩ | ⟨-, hfsm⟩
      · rw [h.2.2] at hack
        cases hack
      · exact hfsm
  | @step n hun ih =>
      have hprev := ih fun v huv hvn => hno v huv (Nat.lt_succ_of_lt hvn)
      intro v huv hvn
      rcases Nat.le_succ_iff.mp hvn with hle | rfl
      · exact hprev v huv hle
      · refine getCmd_stays (hprev n hun (Nat.le_refl n)) fun haccept => ?_
        exact hno n hun (Nat.lt_succ_self n) (accepts_iff.mp haccept).2

/-- The first command after a drop comes before the response to the one dropped. -/
theorem AnswersOnce.quiet (h : AnswersOnce r) {u : Nat} (hdrops : Drops r u) :
    ∀ t, u < t → (r.input t).cmdval = false := by
  intro t
  induction t using Nat.strongRecOn with
  | ind t ih =>
      intro hut
      by_contra hval
      rw [Bool.not_eq_false] at hval
      have hno : NoneIn (fun t => (r.input t).cmdval = true) u t := by
        intro v huv hvt hv
        rw [ih v hvt huv] at hv
        cases hv
      have hwait := hdrops.getCmd hut hno
      have hbusy : (r.state u).vciFsm ≠ .getCmd := by rw [hdrops.1]; exact GcdVciFsm.noConfusion
      cases history r u with
      | fresh _ hfsm => exact hbusy hfsm
      | answered _ _ _ _ _ hfsm => exact hbusy hfsm
      | dropped _ _ _ _ _ _ _ hfsm => exact hbusy hfsm
      | pending t₀ ht₀ haccept hlast hnone _ _ =>
          -- Nothing is accepted between `t₀` and `t`, and nothing is transferred.
          have hnext : NextAccept r t₀ t := by
            refine ⟨Nat.lt_trans ht₀ hut, haccept,
              accepts_iff.mpr ⟨hwait t hut (Nat.le_refl t), hval⟩, fun v htv hvt hv => ?_⟩
            rcases Nat.lt_trichotomy v u with hlt | rfl | hlt
            · exact hlast v htv hlt hv
            · exact hbusy (accepts_iff.mp hv).1
            · exact hno v hlt hvt (accepts_iff.mp hv).2
          obtain ⟨v, hv⟩ := h t₀ t hnext
          obtain ⟨hfsm, hidle, -⟩ := responds_iff.mp hv.responds
          rcases Nat.lt_trichotomy v u with hlt | rfl | hlt
          · exact hnone v hv.after hlt hv.responds
          · exact hdrops.2.1 (hidle hdrops.1)
          · exact hfsm (hwait v hlt (Nat.le_of_lt hv.before))

/-- Every command is answered exactly once, in exactly the runs where no command
follows a drop. -/
theorem answersOnce_iff (r : (coprocessor (p := p) seg).Run) :
    AnswersOnce r ↔ ∀ u, Drops r u → ∀ t, u < t → (r.input t).cmdval = false := by
  constructor
  · exact fun h _ hdrops => h.quiet hdrops
  · exact answersOnce_of_quiet

/-! ## An initiator that is ready too early -/

/-- Two operands, a START, and a RESULT read while the loop runs.  `rspack` is up
all the time. -/
def eager : Nat → VciSignals vciParam
  | 0 | 1 => commandWires .opa 1
  | 2 | 3 => commandWires .opb 2
  | 4 | 5 => commandWires .start 1
  | _ => commandWires .result 0

def eagerRun : (coprocessor (p := vciParam) segmentAtZero).Run :=
  drive segmentAtZero ⟨.getCmd, .idle, 0, 0, 0, 0, 0⟩ eager fun t _ => by
    unfold eager
    split <;> exact ⟨_, commandWires_legal _ _⟩

/-- The read accepted at 6 has no response before the command accepted at 8. -/
theorem eagerRun_drops : ¬ AnswersOnce eagerRun := by
  intro h
  have hdrops : Drops eagerRun 7 := ⟨by decide, by decide, by decide⟩
  have hval := h.quiet hdrops 8 (by decide)
  revert hval
  decide

end SmcTp.Vci.VciGcdCoprocessor
