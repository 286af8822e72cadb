import SmcTp.Vci.GcdMaster

/-!
# A gcd master and its coprocessor

`Pair` is the invariant of a master and the coprocessor it talks to.  While the
master sends a command the coprocessor is ready for it, while the master waits the
coprocessor is answering, and the registers of the two are in step with the place
in the sequence of commands (`Ready`, `Taken`).

A clock edge does one of three things to a pair: nothing passes between the two
(`Pair.apart`), a command does (`Pair.send`), or a response does (`Pair.answer`).
Which one it is, is up to what connects them.
-/

namespace SmcTp.Vci

open VciGcdMaster

variable {p : VciParams}

/-- The coprocessor's registers while the master sends the command. -/
def Ready (m : VciGcdMaster p) (c : VciGcdCoprocessor p) : GcdCommand → Prop
  | .opa => c.exeFsm = .idle
  | .opb => c.exeFsm = .idle ∧ c.opa = m.opa
  | .start => c.exeFsm = .idle ∧ c.opa = m.opa ∧ c.opb = m.opb
  | .status => c.Computes m.expected
  | .result => c.exeFsm = .idle ∧ c.Computes m.expected

/-- The coprocessor's registers while the master waits for the response. -/
def Taken (m : VciGcdMaster p) (c : VciGcdCoprocessor p) : GcdCommand → Prop
  | .opa => c.exeFsm = .idle ∧ c.opa = m.opa
  | .opb => c.exeFsm = .idle ∧ c.opa = m.opa ∧ c.opb = m.opb
  | .start => c.exeFsm = .idle ∧ c.opa = m.opa ∧ c.opb = m.opb
  | .status => c.Computes m.expected
  | .result => c.exeFsm = .idle ∧ c.Computes m.expected

/-- A master and its coprocessor, in step. -/
inductive Pair (m : VciGcdMaster p) (c : VciGcdCoprocessor p) : Prop where
  | random (hm : m.fsm = .random) (hc : c.vciFsm = .getCmd) (hidle : c.exeFsm = .idle)
  | sends (k : GcdCommand) (hm : m.fsm = cmdFsm k) (hc : c.vciFsm = .getCmd) (hready : Ready m c k)
  | waits (k : GcdCommand) (hm : m.fsm = rspFsm k) (hc : c.vciFsm = k.rspFsm) (htaken : Taken m c k)
  | display (hm : m.fsm = .display) (hc : c.vciFsm = .getCmd) (hidle : c.exeFsm = .idle)
      (hres : m.res.toNat = m.expected)

namespace Pair

variable {m : VciGcdMaster p} {c : VciGcdCoprocessor p} {k : GcdCommand}

/-- The states of a master are told apart. -/
theorem cmdFsm_ne_rspFsm (k k' : GcdCommand) : cmdFsm k ≠ rspFsm k' := by
  cases k <;> cases k' <;> exact GcdMasterFsm.noConfusion

theorem cmdFsm_injective {k k' : GcdCommand} (h : cmdFsm k = cmdFsm k') : k = k' := by
  revert h
  cases k <;> cases k' <;> decide

theorem rspFsm_injective {k k' : GcdCommand} (h : rspFsm k = rspFsm k') : k = k' := by
  revert h
  cases k <;> cases k' <;> decide

theorem getCmd_ne_rspFsm (k : GcdCommand) : k.rspFsm ≠ .getCmd := by
  cases k <;> exact GcdVciFsm.noConfusion

/-- A master that does not wait has a coprocessor that is ready for commands. -/
theorem getCmd (h : Pair m c) (hnot : ∀ k, m.fsm ≠ rspFsm k) : c.vciFsm = .getCmd := by
  cases h with
  | random hm hc hidle => exact hc
  | sends k hm hc hready => exact hc
  | waits k hm hc htaken => exact absurd hm (hnot k)
  | display hm hc hidle hres => exact hc

theorem ready (h : Pair m c) (hm : m.fsm = cmdFsm k) : Ready m c k := by
  cases h with
  | random hm' hc hidle => cases k <;> cases hm.symm.trans hm'
  | sends k' hm' hc hready => exact cmdFsm_injective (hm'.symm.trans hm) ▸ hready
  | waits k' hm' hc htaken => exact absurd (hm.symm.trans hm') (cmdFsm_ne_rspFsm k k')
  | display hm' hc hidle hres => cases k <;> cases hm.symm.trans hm'

theorem taken (h : Pair m c) (hm : m.fsm = rspFsm k) : c.vciFsm = k.rspFsm ∧ Taken m c k := by
  cases h with
  | random hm' hc hidle => cases k <;> cases hm.symm.trans hm'
  | sends k' hm' hc hready => exact absurd (hm'.symm.trans hm) (cmdFsm_ne_rspFsm k' k)
  | waits k' hm' hc htaken =>
      rw [← rspFsm_injective (hm'.symm.trans hm)]
      exact ⟨hc, htaken⟩
  | display hm' hc hidle hres => cases k <;> cases hm.symm.trans hm'

/-! ## The loop runs on -/

/-- What a pair has reached is kept by the loop while no start is pending. -/
theorem ready_exeTransition (h : Ready m c k) (hc : c.vciFsm = .getCmd) :
    Ready m c.exeTransition k := by
  have hstart : c.vciFsm ≠ .rspStart := by rw [hc]; exact GcdVciFsm.noConfusion
  cases k with
  | opa => rw [VciGcdCoprocessor.exeTransition_of_idle h hstart]; exact h
  | opb => rw [VciGcdCoprocessor.exeTransition_of_idle h.1 hstart]; exact h
  | start => rw [VciGcdCoprocessor.exeTransition_of_idle h.1 hstart]; exact h
  | status => exact VciGcdCoprocessor.Computes.exeTransition h
  | result => rw [VciGcdCoprocessor.exeTransition_of_idle h.1 hstart]; exact h

/-- The command that was ready is taken. -/
theorem taken_accept (h : Ready m c k) {sig : VciSignals p} (hdata : sig.wdata = m.wdata k) :
    Taken m (VciGcdCoprocessor.accept k sig c) k := by
  cases k with
  | opa => exact ⟨h, hdata⟩
  | opb => exact ⟨h.1, h.2, hdata⟩
  | start => exact h
  | status => exact h
  | result => exact h

/-! ## One edge -/

variable (rand : BitVec (p.B * 8) × BitVec (p.B * 8)) {sig : VciSignals p}

/-- Nothing passes between the two. -/
theorem apart (h : Pair m c) (hnot : ∀ k, m.fsm ≠ rspFsm k) (hack : sig.cmdack = false) :
    Pair (m.transition true rand sig) c.exeTransition ∧
      (∀ k, (m.transition true rand sig).fsm ≠ rspFsm k) ∧
      ∀ k, m.fsm = cmdFsm k → (m.transition true rand sig).fsm = cmdFsm k := by
  have hc := h.getCmd hnot
  have hc' : c.exeTransition.vciFsm = .getCmd :=
    (VciGcdCoprocessor.exeTransition_frame c).1.trans hc
  have hstart : c.vciFsm ≠ .rspStart := by rw [hc]; exact GcdVciFsm.noConfusion
  cases h with
  | waits k hm _ _ => exact absurd hm (hnot k)
  | sends k hm _ hready =>
      have hnext := transition_cmd hm rand sig
      rw [hack] at hnext
      rw [hnext]
      refine ⟨.sends k rfl hc' ?_, fun k' => cmdFsm_ne_rspFsm k k', fun k' hm' => ?_⟩
      · have hkeep := ready_exeTransition hready hc
        cases k <;> exact hkeep
      · exact hm.symm.trans hm'
  | random hm _ hidle =>
      rw [VciGcdCoprocessor.exeTransition_of_idle hidle hstart]
      obtain ⟨fsm, opa, opb, res, cycle, iter⟩ := m
      cases hm
      refine ⟨.sends .opa rfl hc hidle, fun k => ?_, fun k hk => ?_⟩
      · cases k <;> exact GcdMasterFsm.noConfusion
      · cases k <;> cases hk
  | display hm _ hidle hres =>
      rw [VciGcdCoprocessor.exeTransition_of_idle hidle hstart]
      obtain ⟨fsm, opa, opb, res, cycle, iter⟩ := m
      cases hm
      refine ⟨.random rfl hc hidle, fun k => ?_, fun k hk => ?_⟩
      · cases k <;> exact GcdMasterFsm.noConfusion
      · cases k <;> cases hk

/-- The command passes. -/
theorem send (h : Pair m c) (hm : m.fsm = cmdFsm k) (hack : sig.cmdack = true)
    {tsig : VciSignals p} (hdata : tsig.wdata = m.wdata k) :
    Pair (m.transition true rand sig) (VciGcdCoprocessor.accept k tsig c.exeTransition) ∧
      (m.transition true rand sig).fsm = rspFsm k := by
  have hc := h.getCmd fun k' hm' => cmdFsm_ne_rspFsm k k' (hm.symm.trans hm')
  have htaken := taken_accept (ready_exeTransition (h.ready hm) hc) hdata
  have hnext := transition_cmd hm rand sig
  rw [hack] at hnext
  rw [hnext]
  refine ⟨.waits k rfl (VciGcdCoprocessor.accept_vciFsm k _ _) ?_, rfl⟩
  cases k <;> exact htaken

/-- The response passes. -/
theorem answer (h : Pair m c) (hm : m.fsm = rspFsm k) (hval : sig.rspval = true)
    {tsig : VciSignals p} (hdriven : c.Driven tsig) (hdata : sig.rdata = tsig.rdata)
    (hone : (1 : BitVec (p.B * 8)) ≠ 0) :
    Pair (m.transition true rand sig) { c.exeTransition with vciFsm := .getCmd } ∧
      ∀ k, (m.transition true rand sig).fsm ≠ rspFsm k := by
  obtain ⟨hc, htaken⟩ := h.taken hm
  rw [transition_rsp hm rand hval]
  refine ⟨?_, afterRsp_ne_rspFsm _ k⟩
  have hidle_stays : k ≠ .start → c.exeFsm = .idle → c.exeTransition = c := by
    intro hk hidle
    refine VciGcdCoprocessor.exeTransition_of_idle hidle ?_
    rw [hc]
    cases k <;> first | exact absurd rfl hk | exact GcdVciFsm.noConfusion
  cases k with
  | opa =>
      rw [hidle_stays GcdCommand.noConfusion htaken.1]
      exact .sends .opb rfl rfl htaken
  | opb =>
      rw [hidle_stays GcdCommand.noConfusion htaken.1]
      exact .sends .start rfl rfl htaken
  | start =>
      -- The loop starts in the cycle in which the response passes.
      obtain ⟨hidle, hopa, hopb⟩ := htaken
      rw [VciGcdCoprocessor.exeTransition_of_start hidle hc]
      have hexpected : m.expected = Nat.gcd c.opa.toNat c.opb.toNat := by
        rw [expected, hopa, hopb]
      refine .sends .status rfl rfl (show VciGcdCoprocessor.Computes m.expected _ from ?_)
      rw [hexpected]
      exact @VciGcdCoprocessor.computes_compare _
        { c with vciFsm := .getCmd, exeFsm := .compare } rfl
  | status =>
      have hstatus := hdata.trans (hdriven.status hc)
      by_cases hidle : c.exeFsm = .idle
      · rw [if_neg (not_not.mpr hidle)] at hstatus
        rw [hidle_stays GcdCommand.noConfusion hidle]
        exact .sends .result (if_pos hstatus) rfl ⟨hidle, htaken⟩
      · rw [if_pos hidle] at hstatus
        have hbusy : sig.rdata ≠ 0 := by rw [hstatus]; exact hone
        exact .sends .status (if_neg hbusy) rfl (VciGcdCoprocessor.Computes.exeTransition htaken)
  | result =>
      rw [hidle_stays GcdCommand.noConfusion htaken.1]
      refine .display rfl rfl htaken.1 ?_
      have hresult := hdata.trans (hdriven.result hc)
      exact (congrArg BitVec.toNat hresult).trans (htaken.2.opa htaken.1)

end Pair

end SmcTp.Vci
