import SmcTp.Vci.GcdCoprocessor

/-!
# What a polling initiator reads

Two operands are written while the loop is idle, then the loop is started, and
from there on the initiator only reads (`Launch`).  Every result it is given is the
gcd of the two operands, however it polls and however long it holds a response
back (`polled_result_is_gcd`).

The proof follows the run in three stretches.  Up to the START command the loop is
idle and will stay so (`Quiet`), and the operands stand.  In the cycle after it
the loop is idle once more, but the response to START is pending, so no read can
see that cycle.  From the next cycle on the loop computes the gcd (`Computes`),
and a restart while the response to START is held back changes nothing.
-/

namespace SmcTp.Vci.VciGcdCoprocessor

open Clocked

variable {p : VciParams} {seg : Segment}

/-- Both operands are written while the loop is idle, then it is started, and no
write command besides these follows the first of them. -/
structure Launch (r : (coprocessor (p := p) seg).Run) (a b : BitVec (p.B * 8))
    (tA tB tS : Nat) : Prop where
  opa : Commands r tA .opa
  opaData : (r.input tA).wdata = a
  opaIdle : (r.state tA).exeFsm = .idle
  opb : Commands r tB .opb
  opbData : (r.input tB).wdata = b
  opbIdle : (r.state tB).exeFsm = .idle
  start : Commands r tS .start
  order : tA < tS ∧ tB < tS
  noOther : ∀ t c, min tA tB < t → Commands r t c → c.cmd = Cmd.write →
    t = tA ∨ t = tB ∨ t = tS

/-- A response to a RESULT read is transferred. -/
def RespondsResult (r : (coprocessor (p := p) seg).Run) (t : Nat) : Prop :=
  Responds r t ∧ (r.state t).vciFsm = .rspResult

instance (r : (coprocessor (p := p) seg).Run) (t : Nat) : Decidable (RespondsResult r t) :=
  inferInstanceAs (Decidable (_ ∧ _))

/-- A response to a STATUS read is transferred. -/
def RespondsStatus (r : (coprocessor (p := p) seg).Run) (t : Nat) : Prop :=
  Responds r t ∧ (r.state t).vciFsm = .rspStatus

variable {r : (coprocessor (p := p) seg).Run} {t : Nat}

/-! ## Commands -/

/-- A command is told by its wires. -/
theorem Legal.unique {sig : VciSignals p} {c c' : GcdCommand} (h : Legal seg sig c)
    (h' : Legal seg sig c') : c = c' := by
  have hcmd : c.cmd = c'.cmd := h.cmd.symm.trans h'.cmd
  have hcell : c.cell = c'.cell := h.cell.symm.trans h'.cell
  revert hcmd hcell
  cases c <;> cases c' <;> decide

theorem Commands.unique {c c' : GcdCommand} (h : Commands r t c) (h' : Commands r t c') :
    c = c' := h.2.unique h'.2

theorem Commands.getCmd {c : GcdCommand} (h : Commands r t c) :
    (r.state t).vciFsm = .getCmd := (accepts_iff.mp h.1).1

/-- The edge at which a command is accepted. -/
theorem Commands.next {c : GcdCommand} (h : Commands r t c) :
    r.state (t + 1) = accept c (r.input t) (r.state t).exeTransition := by
  obtain ⟨hfsm, hval⟩ := accepts_iff.mp h.1
  have hedge := run_edge r t
  generalize r.state (t + 1) = s' at hedge
  cases hedge with
  | wait _ hval' => rw [hval] at hval'; cases hval'
  | accept c' _ _ hlegal => rw [hlegal.unique h.2]
  | hold hfsm' _ => exact absurd hfsm hfsm'
  | release hfsm' _ => exact absurd hfsm hfsm'

/-! ## Before the start -/

/-- The loop is idle and nothing is about to start it. -/
structure Quiet (s : VciGcdCoprocessor p) : Prop where
  idle : s.exeFsm = .idle
  notStart : s.vciFsm ≠ .rspStart

theorem Commands.quiet {c : GcdCommand} (h : Commands r t c)
    (hidle : (r.state t).exeFsm = .idle) : Quiet (r.state t) :=
  ⟨hidle, by rw [h.getCmd]; exact GcdVciFsm.noConfusion⟩

theorem Quiet.exeTransition {s : VciGcdCoprocessor p} (h : Quiet s) : s.exeTransition = s :=
  exeTransition_of_idle h.idle h.notStart

/-- Only a START command ends the quiet, and only a write to an operand changes it. -/
theorem Quiet.next (h : Quiet (r.state t)) (hstart : ¬ Commands r t .start) :
    Quiet (r.state (t + 1)) ∧
      (¬ Commands r t .opa → (r.state (t + 1)).opa = (r.state t).opa) ∧
      (¬ Commands r t .opb → (r.state (t + 1)).opb = (r.state t).opb) := by
  have hedge := run_edge r t
  generalize r.state (t + 1) = s' at hedge
  cases hedge with
  | wait _ _ => rw [h.exeTransition]; exact ⟨h, fun _ => rfl, fun _ => rfl⟩
  | hold _ _ => rw [h.exeTransition]; exact ⟨h, fun _ => rfl, fun _ => rfl⟩
  | release _ _ =>
      rw [h.exeTransition]
      exact ⟨⟨h.idle, GcdVciFsm.noConfusion⟩, fun _ => rfl, fun _ => rfl⟩
  | accept c hfsm hval hlegal =>
      have hc : Commands r t c := ⟨accepts_iff.mpr ⟨hfsm, hval⟩, hlegal⟩
      rw [h.exeTransition]
      cases c with
      | start => exact absurd hc hstart
      | opa =>
          exact ⟨⟨h.idle, GcdVciFsm.noConfusion⟩, fun hno => absurd hc hno, fun _ => rfl⟩
      | opb =>
          exact ⟨⟨h.idle, GcdVciFsm.noConfusion⟩, fun _ => rfl, fun hno => absurd hc hno⟩
      | result => exact ⟨⟨h.idle, GcdVciFsm.noConfusion⟩, fun _ => rfl, fun _ => rfl⟩
      | status => exact ⟨⟨h.idle, GcdVciFsm.noConfusion⟩, fun _ => rfl, fun _ => rfl⟩

namespace Launch

variable {a b : BitVec (p.B * 8)} {tA tB tS : Nat}

/-- A write command between the first operand and the start writes an operand. -/
theorem only (h : Launch r a b tA tB tS) {c : GcdCommand} (hlo : min tA tB < t) (hhi : t < tS)
    (hc : Commands r t c) (hwrite : c.cmd = Cmd.write) :
    (t = tA ∧ c = .opa) ∨ (t = tB ∧ c = .opb) := by
  rcases h.noOther t c hlo hc hwrite with rfl | rfl | rfl
  · exact .inl ⟨rfl, hc.unique h.opa⟩
  · exact .inr ⟨rfl, hc.unique h.opb⟩
  · exact absurd hhi (Nat.lt_irrefl _)

theorem no_start (h : Launch r a b tA tB tS) (hlo : min tA tB < t) (hhi : t < tS) :
    ¬ Commands r t .start := by
  intro hc
  rcases h.only hlo hhi hc rfl with ⟨-, heq⟩ | ⟨-, heq⟩
  · cases heq
  · cases heq

/-- From its write to the start, the first operand stands. -/
theorem opa_stands (h : Launch r a b tA tB tS) {n : Nat} (hlo : tA < n) (hhi : n ≤ tS) :
    Quiet (r.state n) ∧ (r.state n).opa = a := by
  have hquiet := h.opa.quiet h.opaIdle
  induction hlo with
  | refl =>
      have hno : ¬ Commands r tA .start := fun hc => nomatch hc.unique h.opa
      refine ⟨(hquiet.next hno).1, ?_⟩
      rw [h.opa.next]
      exact h.opaData
  | @step n hlo ih =>
      obtain ⟨hq, hopa⟩ := ih (by omega)
      have hlt : tA < n := hlo
      have hmin : min tA tB < n := by omega
      have hno : ¬ Commands r n .start := h.no_start hmin (by omega)
      have hkeep : ¬ Commands r n .opa := by
        intro hc
        rcases h.only hmin (by omega) hc rfl with ⟨rfl, -⟩ | ⟨-, heq⟩
        · exact Nat.lt_irrefl _ hlo
        · cases heq
      exact ⟨(hq.next hno).1, ((hq.next hno).2.1 hkeep).trans hopa⟩

/-- From its write to the start, the second operand stands. -/
theorem opb_stands (h : Launch r a b tA tB tS) {n : Nat} (hlo : tB < n) (hhi : n ≤ tS) :
    Quiet (r.state n) ∧ (r.state n).opb = b := by
  have hquiet := h.opb.quiet h.opbIdle
  induction hlo with
  | refl =>
      have hno : ¬ Commands r tB .start := fun hc => nomatch hc.unique h.opb
      refine ⟨(hquiet.next hno).1, ?_⟩
      rw [h.opb.next]
      exact h.opbData
  | @step n hlo ih =>
      obtain ⟨hq, hopb⟩ := ih (by omega)
      have hlt : tB < n := hlo
      have hmin : min tA tB < n := by omega
      have hno : ¬ Commands r n .start := h.no_start hmin (by omega)
      have hkeep : ¬ Commands r n .opb := by
        intro hc
        rcases h.only hmin (by omega) hc rfl with ⟨-, heq⟩ | ⟨rfl, -⟩
        · cases heq
        · exact Nat.lt_irrefl _ hlo
      exact ⟨(hq.next hno).1, ((hq.next hno).2.2 hkeep).trans hopb⟩

/-! ## After the start -/

/-- No write command comes after the start. -/
theorem read (h : Launch r a b tA tB tS) (hlo : tS < t) {c : GcdCommand} (hc : Commands r t c) :
    c ≠ .opa ∧ c ≠ .opb ∧ c ≠ .start := by
  have horder := h.order
  have hread : c.cmd ≠ Cmd.write := by
    intro hwrite
    rcases h.noOther t c (by omega) hc hwrite with rfl | rfl | rfl <;> omega
  refine ⟨?_, ?_, ?_⟩ <;> rintro rfl <;> exact hread rfl

/-- In the cycle after the START command its response is pending, the loop is idle
and the operands are as written. -/
theorem armed (h : Launch r a b tA tB tS) :
    (r.state (tS + 1)).vciFsm = .rspStart ∧ (r.state (tS + 1)).exeFsm = .idle ∧
      (r.state (tS + 1)).opa = a ∧ (r.state (tS + 1)).opb = b := by
  obtain ⟨hquiet, hopa⟩ := h.opa_stands h.order.1 (Nat.le_refl tS)
  obtain ⟨-, hopb⟩ := h.opb_stands h.order.2 (Nat.le_refl tS)
  rw [h.start.next, hquiet.exeTransition]
  exact ⟨rfl, hquiet.idle, hopa, hopb⟩

/-- From the second cycle on the loop computes the gcd of the operands. -/
theorem computes (h : Launch r a b tA tB tS) {n : Nat} (hlo : tS + 1 < n) :
    (r.state n).Computes (Nat.gcd a.toNat b.toNat) := by
  induction hlo with
  | refl =>
      obtain ⟨hfsm, hidle, hopa, hopb⟩ := h.armed
      have hcompare : (r.state (tS + 1)).exeTransition.Computes (Nat.gcd a.toNat b.toNat) := by
        have heq := exeTransition_of_start hidle hfsm
        have hcomputes := @computes_compare _ (r.state (tS + 1)).exeTransition (by rw [heq])
        rw [heq] at hcomputes ⊢
        simpa only [hopa, hopb] using hcomputes
      have hedge := run_edge r (tS + 1)
      generalize r.state (tS + 1 + 1) = s' at hedge
      cases hedge with
      | wait hfsm' _ => exact nomatch hfsm.symm.trans hfsm'
      | accept _ hfsm' _ _ => exact nomatch hfsm.symm.trans hfsm'
      | hold _ _ => exact hcompare
      | release _ _ => exact hcompare
  | @step n hlo ih =>
      refine ih.edge (run_edge r n) fun c hfsm hval hlegal => ?_
      obtain ⟨hopa, hopb, -⟩ :=
        h.read (Nat.lt_trans (Nat.lt_succ_self tS) hlo) ⟨accepts_iff.mpr ⟨hfsm, hval⟩, hlegal⟩
      exact ⟨hopa, hopb⟩

theorem result (h : Launch r a b tA tB tS) (hlo : tS < t) (hresponds : RespondsResult r t) :
    (r.input t).rdata.toNat = Nat.gcd a.toNat b.toNat := by
  obtain ⟨hresponds, hfsm⟩ := hresponds
  have hne : t ≠ tS + 1 := by
    rintro rfl
    exact nomatch hfsm.symm.trans h.armed.1
  have hidle := (responds_iff.mp hresponds).2.1 hfsm
  rw [(run_driven r t).result hfsm]
  exact (h.computes (by omega)).opa hidle

/-- A loop that is idle after the start stays so, unless its start is pending. -/
theorem quiet_after (h : Launch r a b tA tB tS) (hlo : tS < t) (hquiet : Quiet (r.state t))
    {n : Nat} (hn : t ≤ n) : Quiet (r.state n) := by
  induction hn with
  | refl => exact hquiet
  | @step n hn ih =>
      exact (ih.next fun hc => (h.read (Nat.lt_of_lt_of_le hlo hn) hc).2.2 rfl).1

end Launch

/-- Every result read after the start is the gcd of the two operands, and once the
status is zero it stays zero. -/
theorem polled_result_is_gcd {seg : Segment} (r : (coprocessor (p := vciParam) seg).Run)
    {a b : BitVec 32} {tA tB tS : Nat} (h : Launch r a b tA tB tS) :
    (∀ t > tS, RespondsResult r t →
      (r.input t).rdata.toNat = Nat.gcd a.toNat b.toNat) ∧
    (∀ t > tS, ∀ t' ≥ t, RespondsStatus r t → (r.input t).rdata = 0 → RespondsStatus r t' →
      (r.input t').rdata = 0) := by
  refine ⟨fun t hlo hresponds => h.result hlo hresponds, ?_⟩
  intro t hlo t' ht hresponds hzero hresponds'
  have hidle : (r.state t).exeFsm = .idle := by
    by_contra hbusy
    rw [(run_driven r t).status hresponds.2, if_pos hbusy] at hzero
    cases hzero
  have hquiet : Quiet (r.state t) := ⟨hidle, by rw [hresponds.2]; exact GcdVciFsm.noConfusion⟩
  rw [(run_driven r t').status hresponds'.2,
    if_neg fun hbusy => hbusy (h.quiet_after hlo hquiet ht).idle]

/-! ## A run -/

/-- Operands 4 and 6, a START, STATUS reads and then RESULT reads. -/
def patient : Nat → VciSignals vciParam
  | 0 | 1 => commandWires .opa 4
  | 2 | 3 => commandWires .opb 6
  | 4 | 5 => commandWires .start 1
  | n + 6 => commandWires (if n < 6 then .status else .result) 0

theorem patient_legal (t : Nat) : ∃ c, Legal segmentAtZero (patient t) c := by
  unfold patient
  split <;> exact ⟨_, commandWires_legal _ _⟩

def patientRun : (coprocessor (p := vciParam) segmentAtZero).Run :=
  drive segmentAtZero ⟨.getCmd, .idle, 0, 0, 0, 0, 0⟩ patient fun t _ => patient_legal t

theorem patientRun_legal {t : Nat} {c : GcdCommand} (h : Legal segmentAtZero (patient t) c) :
    Legal segmentAtZero (patientRun.input t) c := legal_genMoore h

theorem patientRun_launch : Launch patientRun 4 6 0 2 4 where
  opa := ⟨by decide, patientRun_legal (commandWires_legal .opa 4)⟩
  opaData := by decide
  opaIdle := by decide
  opb := ⟨by decide, patientRun_legal (commandWires_legal .opb 6)⟩
  opbData := by decide
  opbIdle := by decide
  start := ⟨by decide, patientRun_legal (commandWires_legal .start 1)⟩
  order := by decide
  noOther
    | 0, _, _, _, _ => .inl rfl
    | 1, _, _, hc, _ => absurd hc.1 (by decide)
    | 2, _, _, _, _ => .inr (.inl rfl)
    | 3, _, _, hc, _ => absurd hc.1 (by decide)
    | 4, _, _, _, _ => .inr (.inr rfl)
    | 5, _, _, hc, _ => absurd hc.1 (by decide)
    | n + 6, c, _, hc, hwrite => by
        -- All later commands are reads.
        have hcmd : (patient (n + 6)).cmd = Cmd.write :=
          (cmd_genMoore _ _).symm.trans (hc.2.cmd.trans hwrite)
        simp only [patient] at hcmd
        split at hcmd <;> cases hcmd

/-- The result read at 13 is the gcd of 4 and 6. -/
theorem patientRun_result :
    RespondsResult patientRun 13 ∧ (patientRun.input 13).rdata.toNat = Nat.gcd 4 6 :=
  ⟨by decide, (polled_result_is_gcd patientRun patientRun_launch).1 13 (by decide) (by decide)⟩

end SmcTp.Vci.VciGcdCoprocessor
