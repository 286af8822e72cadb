import SmcTp.Clocked.SubtractiveGcd

/-!
# The FIFO gcd components

`FifoGcdMaster` draws two operands, writes them to its output channel, reads the
result from its input channel and displays it, for ever.  `FifoGcdCoprocessor`
reads two operands, subtracts until they are equal and writes the result.

A channel is the three wires of `FifoSignals`.  The reader drives `rWok` and the
writer drives `wRok` and `data`, so each sees the other's request and there is
no storage in between.

`transition` is the clocked process: it reads the registers and the ports as they
stood before the edge.  `genMoore` is the process of the falling edge: it drives
the output ports from the registers and leaves the other wires alone.
-/

namespace SmcTp.FifoGcd

open SubtractiveGcd

/-- `uint32_t`. -/
abbrev Word := BitVec 32

/-! ## Channels -/

/-- The wires of a channel. -/
structure FifoSignals where
  data : Word
  /-- Driven by the reader: it is ready to read. -/
  rWok : Bool
  /-- Driven by the writer: it has a word to write. -/
  wRok : Bool
deriving DecidableEq, Repr

namespace FifoInput

/-- The port `rok`, bound to the writer's wire. -/
def rok (sig : FifoSignals) : Bool := sig.wRok

/-- Drive the port `r`. -/
def setR (r : Bool) (sig : FifoSignals) : FifoSignals := { sig with rWok := r }

end FifoInput

namespace FifoOutput

/-- The port `wok`, bound to the reader's wire. -/
def wok (sig : FifoSignals) : Bool := sig.rWok

/-- Drive the ports `w` and `data`. -/
def setW (w : Bool) (data : Word) (sig : FifoSignals) : FifoSignals :=
  { sig with wRok := w, data := data }

end FifoOutput

/-! ## The coprocessor -/

/-- `coprocessor_fsm_state_e`. -/
inductive CoprocessorFsm where
  | readOpa
  | readOpb
  | compare
  | decrA
  | decrB
  | writeRes
deriving DecidableEq, Repr

/-- The registers of `FifoGcdCoprocessor`. -/
structure FifoGcdCoprocessor where
  opa : Word
  opb : Word
  fsm : CoprocessorFsm
deriving DecidableEq, Repr

namespace FifoGcdCoprocessor

/-- `FifoGcdCoprocessor::transition`.  The reset leaves the operands as they
are. -/
def transition (resetn : Bool) (pIn pOut : FifoSignals) (s : FifoGcdCoprocessor) :
    FifoGcdCoprocessor :=
  if !resetn then { s with fsm := .readOpa }
  else
    match s.fsm with
    | .readOpa =>
        if FifoInput.rok pIn then { s with opa := pIn.data, fsm := .readOpb } else s
    | .readOpb =>
        if FifoInput.rok pIn then { s with opb := pIn.data, fsm := .compare } else s
    | .compare =>
        if s.opa < s.opb then { s with fsm := .decrB }
        else if s.opb < s.opa then { s with fsm := .decrA }
        else { s with fsm := .writeRes }
    | .decrA => { s with opa := s.opa - s.opb, fsm := .compare }
    | .decrB => { s with opb := s.opb - s.opa, fsm := .compare }
    | .writeRes =>
        if FifoOutput.wok pOut then { s with fsm := .readOpa } else s

/-- `FifoGcdCoprocessor::genMoore`: the input and the output channel. -/
def genMoore (s : FifoGcdCoprocessor) (pIn pOut : FifoSignals) : FifoSignals × FifoSignals :=
  match s.fsm with
  | .readOpa | .readOpb => (FifoInput.setR true pIn, FifoOutput.setW false 0 pOut)
  | .compare | .decrA | .decrB => (FifoInput.setR false pIn, FifoOutput.setW false 0 pOut)
  | .writeRes => (FifoInput.setR false pIn, FifoOutput.setW true s.opa pOut)

/-- The phase of the subtraction loop, outside of it none. -/
def phase? (s : FifoGcdCoprocessor) : Option Phase :=
  match s.fsm with
  | .readOpa | .readOpb => none
  | .compare => some .compare
  | .decrA => some .decA
  | .decrB => some .decB
  | .writeRes => some .done

/-- The coprocessor is in its loop and the loop computes `g`. -/
def Computes (g : Nat) (s : FifoGcdCoprocessor) : Prop :=
  ∃ phase, s.phase? = some phase ∧ (Engine.ofWords phase s.opa s.opb).Computes g

/-- Inside the loop the coprocessor follows the engine, and it waits in
`writeRes` as long as the reader is not ready. -/
theorem Computes.transition {g : Nat} {s : FifoGcdCoprocessor} (h : s.Computes g)
    {pIn pOut : FifoSignals} (hwait : s.fsm = .writeRes → FifoOutput.wok pOut = false) :
    (s.transition true pIn pOut).Computes g := by
  obtain ⟨opa, opb, fsm⟩ := s
  obtain ⟨phase, hphase, hcomp⟩ := h
  cases fsm with
  | readOpa => cases hphase
  | readOpb => cases hphase
  | compare =>
      cases hphase
      have hstep := hcomp.step
      simp only [Engine.ofWords, Engine.step] at hstep
      simp only [FifoGcdCoprocessor.transition, Bool.not_true, Bool.false_eq_true, if_false,
        BitVec.lt_def]
      split
      next hlt => rw [if_pos hlt] at hstep; exact ⟨.decB, rfl, hstep⟩
      next hle =>
        rw [if_neg hle] at hstep
        split
        next hlt => rw [if_pos hlt] at hstep; exact ⟨.decA, rfl, hstep⟩
        next hle' => rw [if_neg hle'] at hstep; exact ⟨.done, rfl, hstep⟩
  | decrA =>
      cases hphase
      exact ⟨.compare, rfl, Engine.ofWords_decA hcomp.guarded ▸ hcomp.step⟩
  | decrB =>
      cases hphase
      exact ⟨.compare, rfl, Engine.ofWords_decB hcomp.guarded ▸ hcomp.step⟩
  | writeRes =>
      cases hphase
      simp only [FifoGcdCoprocessor.transition, hwait rfl]
      exact ⟨.done, rfl, hcomp⟩

end FifoGcdCoprocessor

/-! ## The master -/

/-- `fsm_state_e`. -/
inductive MasterFsm where
  | random
  | writeOpa
  | writeOpb
  | readRes
  | display
deriving DecidableEq, Repr

/-- The registers of `FifoGcdMaster`. -/
structure FifoGcdMaster where
  fsm : MasterFsm
  opa : Word
  opb : Word
  res : Word
  cyclecount : Word
  iterationcount : Word
deriving DecidableEq, Repr

namespace FifoGcdMaster

/-- `FifoGcdMaster::transition`.  `rand` holds the two words a call in the state
`random` draws. -/
def transition (resetn : Bool) (rand : Word × Word) (pIn pOut : FifoSignals)
    (s : FifoGcdMaster) : FifoGcdMaster :=
  if !resetn then { s with fsm := .random, cyclecount := 0, iterationcount := 0 }
  else
    let s' :=
      match s.fsm with
      | .random =>
          { s with
            iterationcount := s.iterationcount + 1
            opa := rand.1
            opb := rand.2
            fsm := .writeOpa }
      | .writeOpa => if FifoOutput.wok pOut then { s with fsm := .writeOpb } else s
      | .writeOpb => if FifoOutput.wok pOut then { s with fsm := .readRes } else s
      | .readRes =>
          if FifoInput.rok pIn then { s with res := pIn.data, fsm := .display } else s
      | .display => { s with fsm := .random }
    { s' with cyclecount := s.cyclecount + 1 }

/-- `FifoGcdMaster::genMoore`: the input and the output channel. -/
def genMoore (s : FifoGcdMaster) (pIn pOut : FifoSignals) : FifoSignals × FifoSignals :=
  match s.fsm with
  | .random | .display => (FifoInput.setR false pIn, FifoOutput.setW false 0 pOut)
  | .writeOpa => (FifoInput.setR false pIn, FifoOutput.setW true s.opa pOut)
  | .writeOpb => (FifoInput.setR false pIn, FifoOutput.setW true s.opb pOut)
  | .readRes => (FifoInput.setR true pIn, FifoOutput.setW false 0 pOut)

/-- The result the operands of the current iteration call for. -/
def expected (s : FifoGcdMaster) : Nat := Nat.gcd s.opa.toNat s.opb.toNat

end FifoGcdMaster

end SmcTp.FifoGcd
