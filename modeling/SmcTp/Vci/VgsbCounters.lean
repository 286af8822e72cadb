import SmcTp.Vci.VgsbArbitration

/-!
# The transaction counters of the VCI bus

A register `r_vci_counter[i][j]` is there to count the transactions between an
initiator and a target.  It is incremented wherever the search loop finds a
request, so once more than announced: the search at the end of a response also
increments it, and the grant that should go with it is cancelled.

`counter_eq` is the value of the register in every run, the number of transactions
that have started plus the number of grants that have been cancelled.  The counters
are exact in the runs in which no response ends while an initiator asks for the bus
(`exact_iff_never_cancels`).
-/

namespace SmcTp.Vci.VciVgsb

open Clocked

variable {p : VciParams} {cfg : VgsbConfig p}

/-! ## What is counted -/

/-- The bus starts a transaction between `i` and `j` at this edge. -/
def Starts (r : (bus cfg).Run) (i j t : Nat) : Prop :=
  Grants r t ∧ (r.state (t + 1)).initiatorIndex = i ∧ (r.state (t + 1)).targetIndex = j

instance (r : (bus cfg).Run) (i j : Nat) : DecidablePred (Starts r i j) := fun _ =>
  inferInstanceAs (Decidable (_ ∧ _))

/-- The counters say how many transactions have started, modulo `2 ^ 32`. -/
def Exact (r : (bus cfg).Run) : Prop :=
  ∀ t, ∀ i < cfg.nbInitiator, ∀ j < cfg.nbTarget,
    (r.state t).vciCounter i j = BitVec.ofNat 32 (Nat.count (Starts r i j) t)

/-- A response ends at this edge while some initiator asks for the bus. -/
def EndsRequested (r : (bus cfg).Run) (t : Nat) : Prop :=
  Ends r t ∧ ∃ k < cfg.nbInitiator, (r.input t).requests k = true

instance (s : VciVgsb) (ports : VgsbPorts p) : Decidable (RspEnds s ports) :=
  inferInstanceAs (Decidable (_ ∧ _))

/-- The search at the end of a response grants the bus to `i` for a transaction
with `j`, and the grant is cancelled. -/
def Cancels (r : (bus cfg).Run) (i j t : Nat) : Prop :=
  Ends r t ∧ Cyclic.first cfg.nbInitiator (owner r t) (r.input t).requests = some i ∧
    cfg.routingTable ((r.input t).toInitiator i).address = j

instance (r : (bus cfg).Run) (i j : Nat) : DecidablePred (Cancels r i j) := fun t =>
  inferInstanceAs (Decidable
    (((r.state t).fsm = .rsp ∧ RspEnds (r.state t) (r.input t)) ∧ _ ∧ _))

/-! ## One edge -/

section Count

variable (vciCounter : Nat → Nat → BitVec 32) {i j ini tgt : Nat}

theorem count_self : count vciCounter i j i j = vciCounter i j + 1 := if_pos ⟨rfl, rfl⟩

theorem count_of_ne (h : ¬ (i = ini ∧ j = tgt)) :
    count vciCounter ini tgt i j = vciCounter i j := if_neg h

end Count

theorem Cancels.not_starts {r : (bus cfg).Run} {i j t : Nat} (h : Cancels r i j t) (i' j' : Nat) :
    ¬ Starts r i' j' t := by
  intro hstarts
  have hidle := hstarts.1.spec.1
  rw [h.1.1] at hidle
  cases hidle

/-- An edge that enters `cmd` counts the pair the index registers then hold. -/
theorem counter_grants {r : (bus cfg).Run} {t : Nat} (h : Grants r t) :
    (r.state (t + 1)).vciCounter =
      count (r.state t).vciCounter (r.state (t + 1)).initiatorIndex
        (r.state (t + 1)).targetIndex := by
  obtain ⟨hbefore, hafter⟩ := h
  have hedge := run_edge r t
  generalize r.state (t + 1) = s' at hedge hafter
  cases hedge with
  | idle hfsm hnone => exact absurd hafter hbefore
  | grant hfsm hsome => rfl
  | cmdStay hfsm hends => exact absurd hfsm hbefore
  | cmdEnd hfsm hends => exact absurd hfsm hbefore
  | rspStay hfsm hends => exact absurd hafter hbefore
  | rspEnd hfsm hends => cases hafter

/-- An edge that ends a response counts the pair its search finds. -/
theorem counter_ends {r : (bus cfg).Run} {t : Nat} (h : Ends r t) :
    (r.state (t + 1)).vciCounter = (allocate cfg (r.input t) (r.state t)).vciCounter := by
  obtain ⟨hfsm, hends⟩ := h
  have hedge := run_edge r t
  generalize r.state (t + 1) = s' at hedge
  cases hedge with
  | idle hfsm' _ => exact nomatch hfsm.symm.trans hfsm'
  | grant hfsm' _ => exact nomatch hfsm.symm.trans hfsm'
  | cmdStay hfsm' _ => exact nomatch hfsm.symm.trans hfsm'
  | cmdEnd hfsm' _ => exact nomatch hfsm.symm.trans hfsm'
  | rspStay _ hends' => exact absurd hends hends'
  | rspEnd _ _ => rfl

/-- The other edges count nothing. -/
theorem counter_kept {r : (bus cfg).Run} {t : Nat} (hgrants : ¬ Grants r t) (hends : ¬ Ends r t) :
    (r.state (t + 1)).vciCounter = (r.state t).vciCounter := by
  have hedge := run_edge r t
  have hnot : (r.state t).fsm = .idle → (r.state (t + 1)).fsm ≠ .cmd := by
    intro hidle hcmd
    exact hgrants ⟨by rw [hidle]; exact VgsbFsm.noConfusion, hcmd⟩
  generalize r.state (t + 1) = s' at hedge hnot
  cases hedge with
  | idle _ _ => rfl
  | grant hfsm _ => exact absurd rfl (hnot hfsm)
  | cmdStay _ _ => rfl
  | cmdEnd _ _ => rfl
  | rspStay _ _ => rfl
  | rspEnd hfsm hends' => exact absurd ⟨hfsm, hends'⟩ hends

/-- The counters a search leaves. -/
theorem allocate_counter (ports : VgsbPorts p) (s : VciVgsb) (i j : Nat) :
    (allocate cfg ports s).vciCounter i j =
      if Cyclic.first cfg.nbInitiator s.initiatorIndex ports.requests = some i ∧
          cfg.routingTable (ports.toInitiator i).address = j
        then s.vciCounter i j + 1 else s.vciCounter i j := by
  unfold allocate
  split
  next hnone =>
    rw [hnone, if_neg]
    rintro ⟨hfound, -⟩
    cases hfound
  next ini hsome =>
    rw [hsome]
    by_cases h : some ini = some i ∧ cfg.routingTable (ports.toInitiator i).address = j
    · obtain ⟨hini, rfl⟩ := h
      cases hini
      rw [if_pos ⟨rfl, rfl⟩]
      exact count_self _
    · rw [if_neg h]
      refine count_of_ne _ ?_
      rintro ⟨rfl, hj⟩
      exact h ⟨rfl, hj.symm⟩

/-- Every edge adds one for a transaction that starts and one for a grant it cancels. -/
theorem counter_succ (r : (bus cfg).Run) (i j t : Nat) :
    (r.state (t + 1)).vciCounter i j =
      (r.state t).vciCounter i j +
        BitVec.ofNat 32 ((if Starts r i j t then 1 else 0) + if Cancels r i j t then 1 else 0) := by
  by_cases hgrants : Grants r t
  · have hcancels : ¬ Cancels r i j t := by
      intro h
      exact h.not_starts _ _ ⟨hgrants, rfl, rfl⟩
    rw [counter_grants hgrants, if_neg hcancels]
    by_cases hstarts : Starts r i j t
    · rw [if_pos hstarts, hstarts.2.1, hstarts.2.2]
      exact count_self _
    · rw [if_neg hstarts]
      refine (count_of_ne _ ?_).trans (BitVec.add_zero _).symm
      rintro ⟨hi, hj⟩
      exact hstarts ⟨hgrants, hi.symm, hj.symm⟩
  · have hstarts : ¬ Starts r i j t := fun h => hgrants h.1
    rw [if_neg hstarts]
    by_cases hends : Ends r t
    · rw [counter_ends hends, allocate_counter]
      by_cases hfound : Cyclic.first cfg.nbInitiator (r.state t).initiatorIndex
          (r.input t).requests = some i ∧
          cfg.routingTable ((r.input t).toInitiator i).address = j
      · rw [if_pos hfound, if_pos (show Cancels r i j t from ⟨hends, hfound⟩)]
        rfl
      · rw [if_neg hfound, if_neg (fun h : Cancels r i j t => hfound h.2)]
        exact (BitVec.add_zero _).symm
    · rw [counter_kept hgrants hends, if_neg (fun h : Cancels r i j t => hends h.1)]
      exact (BitVec.add_zero _).symm

/-! ## Whole runs -/

theorem counter_zero (r : (bus cfg).Run) {i j : Nat} (hi : i < cfg.nbInitiator)
    (hj : j < cfg.nbTarget) : (r.state 0).vciCounter i j = 0 := by
  obtain ⟨s₀, ports, h⟩ := r.start
  rw [h]
  exact if_pos ⟨hi, hj⟩

/-- The counters of every run. -/
theorem counter_eq (r : (bus cfg).Run) {i j : Nat} (hi : i < cfg.nbInitiator)
    (hj : j < cfg.nbTarget) (t : Nat) :
    (r.state t).vciCounter i j =
      BitVec.ofNat 32 (Nat.count (Starts r i j) t + Nat.count (Cancels r i j) t) := by
  induction t with
  | zero => exact counter_zero r hi hj
  | succ t ih =>
      rw [counter_succ, ih, ← BitVec.ofNat_add, Nat.count_succ, Nat.count_succ]
      congr 1
      exact Nat.add_add_add_comm _ _ _ _

/-- A response that ends under a request has a grant cancelled. -/
theorem EndsRequested.cancels {r : (bus cfg).Run} {t : Nat} (h : EndsRequested r t) :
    ∃ i < cfg.nbInitiator, ∃ j < cfg.nbTarget, Cancels r i j t := by
  obtain ⟨hends, k, hk, hreq⟩ := h
  have hpos : 0 < cfg.nbInitiator := Nat.lt_of_le_of_lt (Nat.zero_le k) hk
  have howner : owner r t < cfg.nbInitiator := (run_inRange r t).initiator hpos
  cases hfirst : Cyclic.first cfg.nbInitiator (owner r t) (r.input t).requests with
  | none =>
      have hno := (Cyclic.first_eq_none_iff howner).mp hfirst k hk
      rw [hreq] at hno
      cases hno
  | some i =>
      exact ⟨i, Cyclic.first_lt howner hfirst, _, cfg.isAllBelow _, hends, hfirst, rfl⟩

theorem Cancels.endsRequested {r : (bus cfg).Run} {i j t : Nat} (h : Cancels r i j t) :
    EndsRequested r t := by
  obtain ⟨hends, hfirst, -⟩ := h
  have howner : owner r t < cfg.nbInitiator :=
    (run_inRange r t).initiator (Cyclic.pos_of_first hfirst)
  exact ⟨hends, i, Cyclic.first_lt howner hfirst, Cyclic.first_req howner hfirst⟩

/-- The counters are exact in the runs in which no response ends while an initiator
asks for the bus. -/
theorem exact_iff_never_cancels (r : (bus cfg).Run) : Exact r ↔ ∀ t, ¬ EndsRequested r t := by
  constructor
  · intro hexact t hends
    obtain ⟨i, hi, j, hj, hcancels⟩ := hends.cancels
    have hnow := hexact t i hi j hj
    have hthen := hexact (t + 1) i hi j hj
    rw [counter_succ, if_neg (hcancels.not_starts i j), if_pos hcancels, Nat.count_succ,
      if_neg (hcancels.not_starts i j), Nat.add_zero (Nat.count _ t), ← hnow] at hthen
    -- One more is not the same, also modulo `2 ^ 32`.
    have hone := congrArg BitVec.toNat hthen
    rw [BitVec.toNat_add] at hone
    have hlt := ((r.state t).vciCounter i j).isLt
    simp only [BitVec.toNat_ofNat] at hone
    omega
  · intro hnever t i hi j hj
    have hzero : Nat.count (Cancels r i j) t = 0 := by
      rw [Nat.count_iff_forall_not]
      intro u _ hcancels
      exact hnever u hcancels.endsRequested
    rw [counter_eq r hi hj, hzero, Nat.add_zero]

/-- Two initiators that ask all the time: the search that ends the first transaction
counts one of the first initiator, which has not had the bus. -/
theorem greedy_miscounted : ¬ Exact greedy := by
  intro hexact
  have hcount := hexact 3 0 (by decide) 0 (by decide)
  revert hcount
  decide

end SmcTp.Vci.VciVgsb
