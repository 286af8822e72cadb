import SmcTp.Clocked.Run
import SmcTp.FifoGcd.Components

/-!
# The FIFO gcd system

The netlist of `tp1_top`: the master's output channel is the coprocessor's input
channel and the other way round.  A cycle is a rising edge, where both components
take their transition on the wires as they stood, and a falling edge, where both
drive the wires from their new registers.

`Joint` is the invariant over pairs of automaton states.  It pairs each state of
the master with the coprocessor states it can meet, and says what the registers
of the two have in common there.  It carries both results: the coprocessor's log
of operands is the master's, and a displayed result is the gcd.
-/

namespace SmcTp.FifoGcd

open Clocked SubtractiveGcd

/-! ## The netlist -/

/-- The registers of the two components and the wires of the two channels. -/
structure Top where
  master : FifoGcdMaster
  coproc : FifoGcdCoprocessor
  /-- `signal_fifo_m2c`. -/
  m2c : FifoSignals
  /-- `signal_fifo_c2m`. -/
  c2m : FifoSignals
deriving DecidableEq, Repr

namespace Top

/-- The falling edge: both `genMoore` processes. -/
def moore (s : Top) : Top :=
  let (c2m, m2c) := s.master.genMoore s.c2m s.m2c
  let (m2c, c2m) := s.coproc.genMoore m2c c2m
  { s with m2c := m2c, c2m := c2m }

/-- One clock period: both `transition` processes, then the falling edge. -/
def cycle (resetn : Bool) (s : Top) (rand : Word × Word) : Top :=
  moore
    { s with
      master := s.master.transition resetn rand s.c2m s.m2c
      coproc := s.coproc.transition resetn s.m2c s.c2m }

/-- The states one period under reset leaves, whatever the power-up state. -/
def AfterReset (s : Top) : Prop := ∃ s₀ rand, s = cycle false s₀ rand

/-- The system of `tp1_top` once the reset is over.  An input is the pair of
words the master draws if it is in `random`. -/
def system : System Top (Word × Word) := .ofFn AfterReset (cycle true)

/-! ## What the two sides exchange -/

/-- Which operand a word is. -/
inductive Operand where
  | opa
  | opb
deriving DecidableEq, Repr

/-- The operand the master counts as sent at the next edge. -/
def sent (s : Top) : List (Operand × Word) :=
  match s.master.fsm with
  | .writeOpa => if FifoOutput.wok s.m2c then [(.opa, s.master.opa)] else []
  | .writeOpb => if FifoOutput.wok s.m2c then [(.opb, s.master.opb)] else []
  | _ => []

/-- The operand the coprocessor takes at the next edge. -/
def received (s : Top) : List (Operand × Word) :=
  match s.coproc.fsm with
  | .readOpa => if FifoInput.rok s.m2c then [(.opa, s.m2c.data)] else []
  | .readOpb => if FifoInput.rok s.m2c then [(.opb, s.m2c.data)] else []
  | _ => []

/-! ## The joint invariant -/

/-- The pairs of automaton states that occur, with the registers in step. -/
inductive Joint (m : FifoGcdMaster) (c : FifoGcdCoprocessor) : Prop where
  | random (hm : m.fsm = .random) (hc : c.fsm = .readOpa)
  | writeOpa (hm : m.fsm = .writeOpa) (hc : c.fsm = .readOpa)
  | writeOpb (hm : m.fsm = .writeOpb) (hc : c.fsm = .readOpb) (hopa : c.opa = m.opa)
  | readRes (hm : m.fsm = .readRes) (hcomp : c.Computes m.expected)
  | display (hm : m.fsm = .display) (hc : c.fsm = .readOpa) (hres : m.res.toNat = m.expected)

/-- The invariant of the system: the registers are in step and the wires are
those of the last falling edge. -/
structure Inv (s : Top) : Prop where
  joint : Joint s.master s.coproc
  settled : s.moore = s

theorem moore_moore (s : Top) : s.moore.moore = s.moore := by
  obtain ⟨⟨mfsm, _, _, _, _, _⟩, ⟨_, _, cfsm⟩, _, _⟩ := s
  cases mfsm <;> cases cfsm <;> rfl

theorem inv_moore {s : Top} (h : Joint s.master s.coproc) : Inv s.moore :=
  ⟨h, moore_moore s⟩

/-- After the reset both automata wait for the master's first operands. -/
theorem inv_afterReset {s : Top} (h : AfterReset s) : Inv s := by
  obtain ⟨s₀, rand, rfl⟩ := h
  exact inv_moore (.random rfl rfl)

/-- One clock period keeps the automata in step. -/
theorem Joint.cycle {s : Top} (h : Joint s.master s.coproc) (rand : Word × Word) :
    Joint (s.moore.cycle true rand).master (s.moore.cycle true rand).coproc := by
  obtain ⟨⟨mfsm, mopa, mopb, mres, _, _⟩, ⟨copa, copb, cfsm⟩, m2c, c2m⟩ := s
  cases h with
  | random hm hc =>
      cases hm
      cases hc
      exact .writeOpa rfl rfl
  | writeOpa hm hc =>
      cases hm
      cases hc
      exact .writeOpb rfl rfl rfl
  | writeOpb hm hc hopa =>
      cases hm
      cases hc
      cases hopa
      exact .readRes rfl ⟨.compare, rfl, Engine.computes_start _ _⟩
  | readRes hm hcomp =>
      cases hm
      by_cases hdone : cfsm = .writeRes
      · -- Both sides are ready: the result moves and the coprocessor starts over.
        cases hdone
        obtain ⟨phase, hphase, hcomp⟩ := hcomp
        cases hphase
        exact .display rfl rfl (hcomp.result rfl).1
      · -- The coprocessor is still in its loop, so the master sees no word yet.
        have hstay : ∀ pIn pOut,
            (FifoGcdCoprocessor.transition true pIn pOut ⟨copa, copb, cfsm⟩).Computes
              (Nat.gcd mopa.toNat mopb.toNat) :=
          fun pIn pOut => hcomp.transition (fun hfsm => absurd hfsm hdone)
        cases cfsm with
        | writeRes => exact absurd rfl hdone
        | readOpa => obtain ⟨_, hphase, _⟩ := hcomp; cases hphase
        | readOpb => obtain ⟨_, hphase, _⟩ := hcomp; cases hphase
        | compare => exact .readRes rfl (hstay m2c c2m)
        | decrA => exact .readRes rfl (hstay m2c c2m)
        | decrB => exact .readRes rfl (hstay m2c c2m)
  | display hm hc hres =>
      cases hm
      cases hc
      exact .random rfl rfl

theorem Inv.cycle {s : Top} (h : Inv s) (rand : Word × Word) : Inv (s.cycle true rand) := by
  have hjoint := h.joint.cycle rand
  rw [h.settled] at hjoint
  exact inv_moore hjoint

/-- At every edge the coprocessor takes the word the master sends, under the
same name, or neither moves. -/
theorem Inv.received_eq_sent {s : Top} (h : Inv s) : s.received = s.sent := by
  rw [← h.settled]
  have hjoint := h.joint
  obtain ⟨⟨mfsm, mopa, mopb, mres, _, _⟩, ⟨copa, copb, cfsm⟩, m2c, c2m⟩ := s
  cases hjoint with
  | random hm hc => cases hm; cases hc; rfl
  | writeOpa hm hc => cases hm; cases hc; rfl
  | writeOpb hm hc _ => cases hm; cases hc; rfl
  | readRes hm hcomp =>
      cases hm
      cases cfsm with
      | readOpa => obtain ⟨_, hphase, _⟩ := hcomp; cases hphase
      | readOpb => obtain ⟨_, hphase, _⟩ := hcomp; cases hphase
      | compare | decrA | decrB | writeRes => rfl
  | display hm hc _ => cases hm; cases hc; rfl

/-- The word that is taken goes to the register of its name, and with the second one the
registers hold the operands of the iteration. -/
theorem Inv.loads {s : Top} (h : Inv s) (rand : Word × Word) {w : Word} :
    ((.opa, w) ∈ s.received → (s.cycle true rand).coproc.opa = w) ∧
      ((.opb, w) ∈ s.received → (s.cycle true rand).coproc.opb = w ∧
        (s.cycle true rand).coproc.opa = s.master.opa) := by
  rw [← h.settled]
  have hjoint := h.joint
  obtain ⟨⟨mfsm, mopa, mopb, mres, _, _⟩, ⟨copa, copb, cfsm⟩, m2c, c2m⟩ := s
  cases hjoint with
  | writeOpa hm hc =>
      cases hm
      cases hc
      refine ⟨fun hmem => ?_, fun hmem => ?_⟩ <;> cases List.mem_singleton.mp hmem
      rfl
  | writeOpb hm hc hopa =>
      cases hm
      cases hc
      cases hopa
      refine ⟨fun hmem => ?_, fun hmem => ?_⟩ <;> cases List.mem_singleton.mp hmem
      exact ⟨rfl, rfl⟩
  | random hm hc | display hm hc _ =>
      cases hm
      cases hc
      exact ⟨fun hmem => absurd hmem List.not_mem_nil, fun hmem => absurd hmem List.not_mem_nil⟩
  | readRes hm hcomp =>
      cases hm
      cases cfsm with
      | readOpa => obtain ⟨_, hphase, _⟩ := hcomp; cases hphase
      | readOpb => obtain ⟨_, hphase, _⟩ := hcomp; cases hphase
      | compare | decrA | decrB | writeRes =>
          exact ⟨fun hmem => absurd hmem List.not_mem_nil,
            fun hmem => absurd hmem List.not_mem_nil⟩

/-- A displayed result is the gcd of the operands of its iteration. -/
theorem Inv.displayed {s : Top} (h : Inv s) (hm : s.master.fsm = .display) :
    s.master.res.toNat = s.master.expected := by
  cases h.joint with
  | random hm' _ => rw [hm] at hm'; cases hm'
  | writeOpa hm' _ => rw [hm] at hm'; cases hm'
  | writeOpb hm' _ _ => rw [hm] at hm'; cases hm'
  | readRes hm' _ => rw [hm] at hm'; cases hm'
  | display _ _ hres => exact hres

/-! ## Runs -/

/-- At every time of every run, the invariant holds and the two logs agree. -/
theorem run_inv (r : system.Run) (n : Nat) :
    Inv (r.state n) ∧
      r.log (fun s _ => s.received) n = r.log (fun s _ => s.sent) n := by
  have hinv : ∀ n, Inv (r.state n) :=
    r.invariant (fun _ hs => inv_afterReset hs) (fun _ rand _ hs hstep => hstep ▸ hs.cycle rand)
  refine ⟨hinv n, ?_⟩
  induction n with
  | zero => rfl
  | succ n ih => rw [System.Run.log_succ, System.Run.log_succ, ih, (hinv n).received_eq_sent]

/-- For every sequence of operand pairs, the coprocessor has received at every time exactly
the operands the master has sent, in order and each as what it was sent.  A word it takes is
in the register of its name after the edge, with the other operand of the master beside it
when it is the second one, and a displayed result is the gcd of the operands of its
iteration. -/
theorem operands_in_step_and_result_is_gcd (r : system.Run) (n : Nat) :
    r.log (fun s _ => s.received) n = r.log (fun s _ => s.sent) n ∧
      (∀ w, (.opa, w) ∈ (r.state n).received → (r.state (n + 1)).coproc.opa = w) ∧
      (∀ w, (.opb, w) ∈ (r.state n).received → (r.state (n + 1)).coproc.opb = w ∧
        (r.state (n + 1)).coproc.opa = (r.state n).master.opa) ∧
      ((r.state n).master.fsm = .display →
        (r.state n).master.res.toNat =
          Nat.gcd (r.state n).master.opa.toNat (r.state n).master.opb.toNat) := by
  obtain ⟨hinv, hlogs⟩ := run_inv r n
  have hnext : r.state (n + 1) = (r.state n).cycle true (r.input n) := r.next n
  rw [hnext]
  exact ⟨hlogs, fun w => (hinv.loads (r.input n)).1, fun w => (hinv.loads (r.input n)).2,
    hinv.displayed⟩

/-- The master always draws 4 and 6. -/
def fourAndSix : system.Run :=
  System.drive (cycle true)
    (cycle false ⟨⟨.random, 0, 0, 0, 0, 0⟩, ⟨0, 0, .readOpa⟩, ⟨0, false, false⟩, ⟨0, false, false⟩⟩
      (0, 0))
    ⟨_, _, rfl⟩ fun _ => (4, 6)

/-- The first result is displayed at 9, after two operands have moved to their registers. -/
theorem fourAndSix_displays :
    fourAndSix.log (fun s _ => s.sent) 9 = [(.opa, 4), (.opb, 6)] ∧
      fourAndSix.log (fun s _ => s.received) 9 = fourAndSix.log (fun s _ => s.sent) 9 ∧
      ((fourAndSix.state 3).coproc.opb = 6 ∧
        (fourAndSix.state 3).coproc.opa = (fourAndSix.state 2).master.opa) ∧
      (fourAndSix.state 9).master.res.toNat =
        Nat.gcd (fourAndSix.state 9).master.opa.toNat (fourAndSix.state 9).master.opb.toNat :=
  ⟨by decide, (operands_in_step_and_result_is_gcd fourAndSix 9).1,
    (operands_in_step_and_result_is_gcd fourAndSix 2).2.2.1 6 (by decide),
    (operands_in_step_and_result_is_gcd fourAndSix 9).2.2.2 (by decide)⟩

end Top

end SmcTp.FifoGcd
