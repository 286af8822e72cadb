import Mathlib.Data.Nat.Count
import SmcTp.Vci.Vgsb

/-!
# Arbitration of the VCI bus

`RoundRobin` is the rule the bus announces: the initiator that gets the bus is the
first one to ask for it, in cyclic order after the owner of the transaction
before.  `BoundedBypass` is what the rule is for.  An initiator that keeps asking
sees the bus go elsewhere at most `N - 1` times (`RoundRobin.boundedBypass`).

The bus does not keep the rule in every run.  In the cycle of the last response
flit the search loop moves the initiator register to the first asking initiator
`k` after the owner, and the transition to `cmd` that should go with it is lost.
The next search starts after `k`.  `History` records what the registers say about
the past, and `Overtaking` is the situation in which the second search prefers an
initiator beyond `k` to one at or before it.  The rule holds exactly in the runs
without it (`fair_iff_not_overtaking`).
-/

namespace SmcTp.Vci.VciVgsb

open Clocked

variable {p : VciParams} {cfg : VgsbConfig p}

/-! ## The rule -/

/-- The bus enters `cmd` at this edge. -/
def Grants (r : (bus cfg).Run) (t : Nat) : Prop :=
  (r.state t).fsm ≠ .cmd ∧ (r.state (t + 1)).fsm = .cmd

instance (r : (bus cfg).Run) (t : Nat) : Decidable (Grants r t) :=
  inferInstanceAs (Decidable (_ ∧ _))

/-- The initiator that has the bus after the edge. -/
def served (r : (bus cfg).Run) (t : Nat) : Nat := (r.state (t + 1)).initiatorIndex

/-- No grant in the open interval. -/
def NoGrant (r : (bus cfg).Run) (s t : Nat) : Prop := ∀ u, s < u → u < t → ¬ Grants r u

instance (r : (bus cfg).Run) (s t : Nat) : Decidable (NoGrant r s t) :=
  Nat.decidableLoHi (s + 1) t fun u => ¬ Grants r u

/-- Two grants in a row. -/
structure Consecutive (r : (bus cfg).Run) (s t : Nat) : Prop where
  before : s < t
  first : Grants r s
  second : Grants r t
  between : NoGrant r s t

/-- The bus goes to the first initiator that asks for it, in cyclic order after
the owner of the transaction before. -/
def RoundRobin (r : (bus cfg).Run) : Prop :=
  ∀ s t, Consecutive r s t →
    Cyclic.first cfg.nbInitiator (served r s) (r.input t).requests = some (served r t)

/-- As long as an initiator asks for the bus and does not get it, the others get
it at most `N - 1` times. -/
def BoundedBypass (r : (bus cfg).Run) : Prop :=
  ∀ i < cfg.nbInitiator, ∀ a n,
    (∀ u, a ≤ u → u < a + n → (r.input u).requests i = true) →
    (∀ u, a ≤ u → u < a + n → Grants r u → served r u ≠ i) →
      Nat.count (fun k => Grants r (a + k)) n ≤ cfg.nbInitiator - 1

/-! ## Grants -/

/-- A grant is the outcome of the search in `idle`. -/
theorem Grants.spec {r : (bus cfg).Run} {t : Nat} (h : Grants r t) :
    (r.state t).fsm = .idle ∧
      Cyclic.first cfg.nbInitiator (r.state t).initiatorIndex (r.input t).requests =
        some (served r t) := by
  obtain ⟨hbefore, hafter⟩ := h
  have hedge := run_edge r t
  rw [served]
  generalize r.state (t + 1) = s' at hedge hafter
  cases hedge with
  | idle hfsm hnone => exact absurd hafter hbefore
  | grant hfsm hsome => exact ⟨hfsm, hsome⟩
  | cmdStay hfsm hends => exact absurd hfsm hbefore
  | cmdEnd hfsm hends => exact absurd hfsm hbefore
  | rspStay hfsm hends => exact absurd hafter hbefore
  | rspEnd hfsm hends => cases hafter

theorem Grants.served_lt {r : (bus cfg).Run} {t : Nat} (h : Grants r t) :
    served r t < cfg.nbInitiator := (run_inRange r t).of_first h.spec.2

/-- In `idle` a request is granted. -/
theorem grants_of_request {r : (bus cfg).Run} {t i : Nat} (hfsm : (r.state t).fsm = .idle)
    (hi : i < cfg.nbInitiator) (hreq : (r.input t).requests i = true) : Grants r t := by
  have hedge := run_edge r t
  have hpos : 0 < cfg.nbInitiator := Nat.lt_of_le_of_lt (Nat.zero_le i) hi
  refine ⟨by rw [hfsm]; exact VgsbFsm.noConfusion, ?_⟩
  generalize r.state (t + 1) = s' at hedge
  cases hedge with
  | idle _ hnone =>
      have hno := (Cyclic.first_eq_none_iff ((run_inRange r t).initiator hpos)).mp hnone i hi
      rw [hreq] at hno
      cases hno
  | grant _ _ => rfl
  | cmdStay hfsm' _ => exact nomatch hfsm.symm.trans hfsm'
  | cmdEnd hfsm' _ => exact nomatch hfsm.symm.trans hfsm'
  | rspStay hfsm' _ => exact nomatch hfsm.symm.trans hfsm'
  | rspEnd hfsm' _ => exact nomatch hfsm.symm.trans hfsm'

/-! ## Bounded bypass -/

/-- Each grant to another initiator brings the one that asks nearer. -/
theorem RoundRobin.count_le {r : (bus cfg).Run} (h : RoundRobin r) {i a : Nat}
    (hi : i < cfg.nbInitiator) (n : Nat)
    (hreq : ∀ u, a ≤ u → u < a + n → (r.input u).requests i = true)
    (hother : ∀ u, a ≤ u → u < a + n → Grants r u → served r u ≠ i) :
    Nat.count (fun k => Grants r (a + k)) n = 0 ∨
      ∃ s < a + n, Grants r s ∧ NoGrant r s (a + n) ∧
        Cyclic.gap cfg.nbInitiator (served r s) i + Nat.count (fun k => Grants r (a + k)) n ≤
          cfg.nbInitiator - 1 := by
  induction n with
  | zero => exact .inl rfl
  | succ n ih =>
      have hprev := ih (fun u hau hun => hreq u hau (by omega))
        fun u hau hun => hother u hau (by omega)
      by_cases hg : Grants r (a + n)
      · right
        have hne := hother (a + n) (by omega) (by omega) hg
        have hlast : NoGrant r (a + n) (a + (n + 1)) := fun u hlo hhi => by omega
        refine ⟨a + n, by omega, hg, hlast, ?_⟩
        rw [Nat.count_succ, if_pos hg]
        rcases hprev with hzero | ⟨s, hs, hgs, hnone, hle⟩
        · -- The first grant went elsewhere, so the way to `i` is not the full circle.
          have hlt := Cyclic.gap_lt hg.served_lt hi
          have hfull : Cyclic.gap cfg.nbInitiator (served r (a + n)) i ≠ cfg.nbInitiator - 1 := by
            intro heq
            rw [← Cyclic.gap_self hg.served_lt] at heq
            exact hne (Cyclic.gap_injective hg.served_lt hi hg.served_lt heq).symm
          omega
        · have hnext := h s (a + n) ⟨hs, hgs, hg, hnone⟩
          have hlt := Cyclic.gap_lt_of_first hgs.served_lt hi hnext
            (hreq (a + n) (by omega) (by omega)) hne
          omega
      · rw [Nat.count_succ, if_neg hg]
        rcases hprev with hzero | ⟨s, hs, hgs, hnone, hle⟩
        · exact .inl hzero
        · right
          refine ⟨s, by omega, hgs, ?_, hle⟩
          intro u hsu hun
          rcases Nat.lt_succ_iff_lt_or_eq.mp hun with hlt | heq
          · exact hnone u hsu hlt
          · rw [heq]
            exact hg

theorem RoundRobin.boundedBypass {r : (bus cfg).Run} (h : RoundRobin r) : BoundedBypass r := by
  intro i hi a n hreq hother
  rcases h.count_le hi n hreq hother with hzero | ⟨s, -, -, -, hle⟩
  · omega
  · omega

/-! ## What the registers say about the past -/

/-- The last response flit of a transaction moves at this edge. -/
def Ends (r : (bus cfg).Run) (u : Nat) : Prop :=
  (r.state u).fsm = .rsp ∧ RspEnds (r.state u) (r.input u)

/-- The owner of the bus, for as long as it has one. -/
def owner (r : (bus cfg).Run) (u : Nat) : Nat := (r.state u).initiatorIndex

/-- The first initiator after the owner that asks for the bus at `u`, or else the
owner itself. -/
def candidate (r : (bus cfg).Run) (u : Nat) : Nat :=
  (Cyclic.first cfg.nbInitiator (owner r u) (r.input u).requests).getD (owner r u)

/-- `idle` ever since the edge `u`. -/
def IdleSince (r : (bus cfg).Run) (u t : Nat) : Prop :=
  ∀ v, u < v → v ≤ t → (r.state v).fsm = .idle

/-- The past of the state at `t`. -/
inductive History (r : (bus cfg).Run) (t : Nat) : Prop where
  | fresh (hnone : ∀ u < t, ¬ Grants r u) (hfsm : (r.state t).fsm = .idle)
  | busy (s : Nat) (hs : s < t) (hgrant : Grants r s) (hnone : NoGrant r s t)
      (hbusy : (r.state t).fsm ≠ .idle) (howner : owner r t = served r s)
  | ended (s u : Nat) (hs : s < u) (hu : u < t) (hgrant : Grants r s) (hnone : NoGrant r s t)
      (hends : Ends r u) (howner : owner r u = served r s) (hidle : IdleSince r u t)
      (hindex : (r.state t).initiatorIndex = candidate r u)

theorem NoGrant.succ {r : (bus cfg).Run} {s t : Nat} (h : NoGrant r s t) (ht : ¬ Grants r t) :
    NoGrant r s (t + 1) := by
  intro u hsu hut
  rcases Nat.lt_succ_iff_lt_or_eq.mp hut with hlt | rfl
  · exact h u hsu hlt
  · exact ht

theorem allocate_index (ports : VgsbPorts p) (s : VciVgsb) :
    (allocate cfg ports s).initiatorIndex =
      (Cyclic.first cfg.nbInitiator s.initiatorIndex ports.requests).getD s.initiatorIndex := by
  unfold allocate
  split
  next hnone => rw [hnone]; rfl
  next ini hsome => rw [hsome]; rfl

/-- Without a grant `idle` lasts. -/
theorem idle_stays {r : (bus cfg).Run} {t : Nat} (hfsm : (r.state t).fsm = .idle)
    (hg : ¬ Grants r t) : r.state (t + 1) = r.state t := by
  have hedge := run_edge r t
  have hnotcmd : (r.state (t + 1)).fsm ≠ .cmd := by
    intro hcmd
    exact hg ⟨by rw [hfsm]; exact VgsbFsm.noConfusion, hcmd⟩
  generalize r.state (t + 1) = s' at hedge hnotcmd
  cases hedge with
  | idle _ _ => rfl
  | grant _ _ => exact absurd rfl hnotcmd
  | cmdStay _ _ => rfl
  | cmdEnd hfsm' _ => exact nomatch hfsm.symm.trans hfsm'
  | rspStay _ _ => rfl
  | rspEnd hfsm' _ => exact nomatch hfsm.symm.trans hfsm'

/-- A transaction keeps its owner, until its last flit moves the initiator
register to the candidate. -/
theorem busy_step {r : (bus cfg).Run} {t : Nat} (hbusy : (r.state t).fsm ≠ .idle) :
    ((r.state (t + 1)).fsm ≠ .idle ∧ owner r (t + 1) = owner r t) ∨
      (Ends r t ∧ (r.state (t + 1)).fsm = .idle ∧
        (r.state (t + 1)).initiatorIndex = candidate r t) := by
  have hedge := run_edge r t
  rw [owner]
  generalize r.state (t + 1) = s' at hedge
  cases hedge with
  | idle hfsm _ => exact absurd hfsm hbusy
  | grant hfsm _ => exact absurd hfsm hbusy
  | cmdStay _ _ => exact .inl ⟨hbusy, rfl⟩
  | cmdEnd _ _ => exact .inl ⟨VgsbFsm.noConfusion, rfl⟩
  | rspStay _ _ => exact .inl ⟨hbusy, rfl⟩
  | rspEnd hfsm hends => exact .inr ⟨⟨hfsm, hends⟩, rfl, allocate_index _ _⟩

/-- One edge extends the history. -/
theorem History.succ {r : (bus cfg).Run} {t : Nat} (h : History r t) : History r (t + 1) := by
  by_cases hg : Grants r t
  · have hlast : NoGrant r t (t + 1) := fun u hlo hhi => by omega
    exact .busy t (Nat.lt_succ_self t) hg hlast (by rw [hg.2]; exact VgsbFsm.noConfusion) rfl
  cases h with
  | fresh hnone hfsm =>
      refine .fresh (fun u hut => ?_) (by rw [idle_stays hfsm hg]; exact hfsm)
      rcases Nat.lt_succ_iff_lt_or_eq.mp hut with hlt | rfl
      · exact hnone u hlt
      · exact hg
  | busy s hs hgrant hnone hbusy howner =>
      rcases busy_step hbusy with ⟨hbusy', howner'⟩ | ⟨hends, hfsm', hindex'⟩
      · exact .busy s (Nat.lt_succ_of_lt hs) hgrant (hnone.succ hg) hbusy' (howner'.trans howner)
      · refine .ended s t hs (Nat.lt_succ_self t) hgrant (hnone.succ hg) hends howner ?_ hindex'
        intro v htv hvt
        rw [Nat.le_antisymm hvt htv]
        exact hfsm'
  | ended s u hs hu hgrant hnone hends howner hidle hindex =>
      have heq := idle_stays (hidle t hu (Nat.le_refl t)) hg
      refine .ended s u hs (Nat.lt_succ_of_lt hu) hgrant (hnone.succ hg) hends howner ?_ ?_
      · intro v huv hvt
        rcases Nat.le_succ_iff.mp hvt with hle | rfl
        · exact hidle v huv hle
        · rw [heq]
          exact hidle t hu (Nat.le_refl t)
      · rw [heq]
        exact hindex

theorem history (r : (bus cfg).Run) : ∀ t, History r t
  | 0 => .fresh (fun u hu => absurd hu (Nat.not_lt_zero u)) (run_start r).1
  | t + 1 => (history r t).succ

/-- The last response flit of a transaction comes after the grant that began it. -/
theorem Ends.granted {r : (bus cfg).Run} {u : Nat} (h : Ends r u) :
    ∃ s < u, Grants r s ∧ NoGrant r s u ∧ owner r u = served r s := by
  have hbusy : (r.state u).fsm ≠ .idle := by rw [h.1]; exact VgsbFsm.noConfusion
  cases history r u with
  | fresh hnone hfsm => exact absurd hfsm hbusy
  | busy s hs hgrant hnone _ howner => exact ⟨s, hs, hgrant, hnone, howner⟩
  | ended s v _ hv _ _ _ _ hidle _ => exact absurd (hidle u hv (Nat.le_refl u)) hbusy

/-- In `idle` after a transaction the initiator register holds its candidate. -/
theorem index_of_idleSince {r : (bus cfg).Run} {u t : Nat} (hends : Ends r u) (hut : u < t)
    (hidle : IdleSince r u t) : (r.state t).initiatorIndex = candidate r u := by
  induction hut with
  | refl =>
      have hbusy : (r.state u).fsm ≠ .idle := by rw [hends.1]; exact VgsbFsm.noConfusion
      rcases busy_step hbusy with ⟨hbusy', -⟩ | ⟨-, -, hindex⟩
      · exact absurd (hidle (u + 1) (Nat.lt_succ_self u) (Nat.le_refl _)) hbusy'
      · exact hindex
  | @step t hut ih =>
      have hfsm := hidle t hut (Nat.le_succ t)
      have hg : ¬ Grants r t := by
        intro hg
        have hcmd := hidle (t + 1) (Nat.lt_succ_of_lt hut) (Nat.le_refl _)
        rw [hg.2] at hcmd
        cases hcmd
      rw [idle_stays hfsm hg]
      exact ih fun v huv hvt => hidle v huv (Nat.le_succ_of_le hvt)

/-! ## When the rule holds -/

/-- The initiators `i` and `j` ask for the bus in a cycle `t` in which it is free.
Counted from the owner of the transaction that ended at `u`, its candidate comes
at or after `i` and before `j`. -/
structure Overtaking (r : (bus cfg).Run) (u t i j : Nat) : Prop where
  ends : Ends r u
  before : u < t
  idle : IdleSince r u t
  inRange : i < cfg.nbInitiator ∧ j < cfg.nbInitiator
  requests : (r.input t).requests i = true ∧ (r.input t).requests j = true
  overtaken : Cyclic.gap cfg.nbInitiator (owner r u) i ≤
    Cyclic.gap cfg.nbInitiator (owner r u) (candidate r u)
  overtaking : Cyclic.gap cfg.nbInitiator (owner r u) (candidate r u) <
    Cyclic.gap cfg.nbInitiator (owner r u) j

theorem candidate_lt {r : (bus cfg).Run} {u : Nat} (howner : owner r u < cfg.nbInitiator) :
    candidate r u < cfg.nbInitiator := by
  unfold candidate
  cases hf : Cyclic.first cfg.nbInitiator (owner r u) (r.input u).requests with
  | none => exact howner
  | some k => exact Cyclic.first_lt howner hf

/-- The search from the candidate gives what the search from the owner gives, but
for an overtaking. -/
theorem search_eq_iff {r : (bus cfg).Run} {u t : Nat} (hends : Ends r u) (hut : u < t)
    (hidle : IdleSince r u t) :
    Cyclic.first cfg.nbInitiator (candidate r u) (r.input t).requests =
        Cyclic.first cfg.nbInitiator (owner r u) (r.input t).requests ↔
      ∀ i j, ¬ Overtaking r u t i j := by
  obtain ⟨s, -, hgrant, -, howner⟩ := hends.granted
  have hlt : owner r u < cfg.nbInitiator := howner ▸ hgrant.served_lt
  rw [Cyclic.first_eq_first_iff hlt (candidate_lt hlt)]
  constructor
  · intro hsides i j h
    exact hsides ⟨i, h.inRange.1, j, h.inRange.2, h.requests.1, h.requests.2, h.overtaken,
      h.overtaking⟩
  · rintro hnever ⟨i, hi, j, hj, hreqi, hreqj, hle, hlt⟩
    exact hnever i j ⟨hends, hut, hidle, ⟨hi, hj⟩, ⟨hreqi, hreqj⟩, hle, hlt⟩

/-- Without an overtaking the rule is kept. -/
theorem roundRobin_of_never {r : (bus cfg).Run} (hnever : ∀ u t i j, ¬ Overtaking r u t i j) :
    RoundRobin r := by
  intro s t h
  obtain ⟨hfsm, hsome⟩ := h.second.spec
  cases history r t with
  | fresh hnone _ => exact absurd h.first (hnone s h.before)
  | busy _ _ _ _ hbusy _ => exact absurd hfsm hbusy
  | ended s' u hs' hu hgrant hnone hends howner hidle hindex =>
      -- Both `s` and `s'` are the last grant before `t`.
      have heq : s = s' := by
        rcases Nat.lt_trichotomy s s' with hlt | heq | hlt
        · exact absurd hgrant (h.between s' hlt (Nat.lt_trans hs' hu))
        · exact heq
        · exact absurd h.first (hnone s hlt h.before)
      rw [hindex] at hsome
      rw [heq, ← howner, ← hsome]
      exact ((search_eq_iff hends hu hidle).mpr (hnever u t)).symm

/-- The rule excludes every overtaking. -/
theorem RoundRobin.never {r : (bus cfg).Run} (h : RoundRobin r) (u t i j : Nat) :
    ¬ Overtaking r u t i j := by
  intro hover
  have hgrant := grants_of_request (hover.idle t hover.before (Nat.le_refl t)) hover.inRange.1
    hover.requests.1
  obtain ⟨s, hs, hfirst, hnone, howner⟩ := hover.ends.granted
  have hbetween : NoGrant r s t := by
    intro v hsv hvt hg
    rcases Nat.lt_trichotomy v u with hlt | rfl | hlt
    · exact hnone v hsv hlt hg
    · exact nomatch hg.spec.1.symm.trans hover.ends.1
    · exact nomatch hg.2.symm.trans (hover.idle (v + 1) (Nat.lt_succ_of_lt hlt) hvt)
  have hrule := h s t ⟨Nat.lt_trans hs hover.before, hfirst, hgrant, hbetween⟩
  have hsome := hgrant.spec.2
  rw [index_of_idleSince hover.ends hover.before hover.idle, ← hrule, ← howner] at hsome
  exact (search_eq_iff hover.ends hover.before hover.idle).mp hsome i j hover

/-- The bus is fair exactly in the runs without an overtaking. -/
theorem fair_iff_not_overtaking (r : (bus cfg).Run) :
    (RoundRobin r ∧ BoundedBypass r) ↔ ∀ u t i j, ¬ Overtaking r u t i j := by
  constructor
  · intro h
    exact h.1.never
  · intro h
    have hrule := roundRobin_of_never h
    exact ⟨hrule, hrule.boundedBypass⟩

/-! ## A run that is not fair -/

/-- Two initiators. -/
def twoInitiators : VgsbConfig vciParam where
  routingTable _ := 0
  nbInitiator := 2
  nbTarget := 1
  isAllBelow _ := Nat.one_pos

/-- Both ask for the bus all the time, with packets of one flit, and nothing waits. -/
def greedy : (bus twoInitiators).Run :=
  drive twoInitiators fun _ =>
    { toInitiator := fun _ => { VciSignals.undriven with
        cmdval := true, eop := true, rspack := true }
      toTarget := fun _ => { VciSignals.undriven with
        cmdack := true, rspval := true, reop := true } }

/-- The bus serves the second initiator twice in a row, and the first one waits. -/
theorem greedy_unfair : ¬ RoundRobin greedy ∧ ¬ BoundedBypass greedy := by
  constructor
  · intro h
    have hnext := h 0 3 ⟨by decide, by decide, by decide, by decide⟩
    revert hnext
    decide
  · intro h
    have hle := h 0 (by decide) 0 4 (by decide) (by decide)
    revert hle
    decide

end SmcTp.Vci.VciVgsb
