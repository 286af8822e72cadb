import Mathlib.Data.Fintype.Card
import SmcTp.Clocked.Run
import SmcTp.Programs.LinkedMemory

/-!
# The barriers of the GIET

`n` tasks initialise a barrier together and then wait at it as often as they like.  The
barrier is two words: the initial value, which the first task to initialise it publishes,
and the counter, which each task decrements and the last one sets back.  One step is one
access of one task to memory.

The counter means something only once it is stored, and only as long as every task that
waits has seen it set back.  Nothing in the code makes a task that decrements wait for
either; `Careful` is the condition that it does.
-/

namespace SmcTp.Giet.Barrier

open Clocked Programs

/-! ## The program -/

/-- `unsigned int`. -/
abbrev Word := BitVec 32

/-- The shared words. -/
inductive Cell where
  /-- `_barrier_initial_value[index]` -/
  | initialValue (index : Word)
  /-- `_barrier_count[index]` -/
  | count (index : Word)
deriving DecidableEq, Repr

/-- Where a task stands. -/
inductive Pc where
  /-- Before `_barrier_init`. -/
  | init
  /-- `ll $2, 0(pinit)` and `bnez $2, _barrier_init_done` -/
  | initLl
  /-- `sc $3, 0(pinit)` and `beqz $3, _barrier_init_test` -/
  | initSc
  /-- `sw $3, 0(pcount)` -/
  | initStore
  /-- Outside the barrier. -/
  | outside
  /-- `maxcount = _barrier_initial_value[index]` -/
  | readMax
  /-- `ll %0, 0(pcount)` -/
  | ll (maxcount : Word)
  /-- `sc $3, 0(pcount)` and `beqz $3, _barrier_decrement` -/
  | sc (maxcount count : Word)
  /-- `*pcount = maxcount` -/
  | reset (maxcount : Word)
  /-- `while (*pcount != maxcount)` -/
  | spin (maxcount : Word)
  /-- The overflow exception of `addi $3, %0, -1`. -/
  | trapped
deriving DecidableEq, Repr

/-- A task, with how many waits it has begun and how many it has returned from. -/
structure Task where
  pc : Pc
  begun : Nat
  returned : Nat
deriving DecidableEq, Repr

/-- The barrier the tasks use, and the value they initialise it with. -/
structure Config where
  index : Word
  value : Word

/-- `MAX_BARRIER_COUNT`. -/
def maxBarrierCount : Word := 8

section Program

variable {ι : Type} [DecidableEq ι] (cfg : Config)

/-- An access of the task `i`.  A store-conditional may fail although the task is linked. -/
def Task.next (mem : LinkedMemory Cell Word ι) (i : ι) (fails : Bool) (t : Task) :
    LinkedMemory Cell Word ι × Task :=
  let pinit := Cell.initialValue cfg.index
  let pcount := Cell.count cfg.index
  match t.pc with
  | .init => (mem, { t with pc := if maxBarrierCount ≤ cfg.index then .outside else .initLl })
  | .initLl =>
      (mem.linkedLoad i pinit, { t with pc := if mem.word pinit ≠ 0 then .outside else .initSc })
  | .initSc =>
      if mem.link i = some pinit ∧ fails = false then
        (mem.store pinit cfg.value, { t with pc := .initStore })
      else (mem, { t with pc := .initLl })
  | .initStore => (mem.store pcount cfg.value, { t with pc := .outside })
  | .outside =>
      if maxBarrierCount ≤ cfg.index then
        (mem, { t with begun := t.begun + 1, returned := t.returned + 1 })
      else (mem, { t with pc := .readMax, begun := t.begun + 1 })
  | .readMax => (mem, { t with pc := .ll (mem.word pinit) })
  | .ll maxcount =>
      (mem.linkedLoad i pcount,
        { t with
          pc := if mem.word pcount = 0x80000000 then .trapped
            else .sc maxcount (mem.word pcount) })
  | .sc maxcount count =>
      if mem.link i = some pcount ∧ fails = false then
        (mem.store pcount (count - 1),
          { t with pc := if count = 1 then .reset maxcount else .spin maxcount })
      else (mem, { t with pc := .ll maxcount })
  | .reset maxcount =>
      (mem.store pcount maxcount, { t with pc := .outside, returned := t.returned + 1 })
  | .spin maxcount =>
      if mem.word pcount ≠ maxcount then (mem, t)
      else (mem, { t with pc := .outside, returned := t.returned + 1 })
  | .trapped => (mem, t)

/-- The memory and the tasks. -/
structure State (ι : Type) where
  mem : LinkedMemory Cell Word ι
  task : ι → Task

/-- The task `i` has its turn. -/
def State.next (s : State ι) (i : ι) (fails : Bool) : State ι where
  mem := ((s.task i).next cfg s.mem i fails).1
  task := Function.update s.task i ((s.task i).next cfg s.mem i fails).2

/-- A fresh barrier, and no task has initialised it. -/
def State.start : State ι := ⟨.fresh 0, fun _ => ⟨.init, 0, 0⟩⟩

/-- `n` tasks on a barrier which they initialise with `n`. -/
def config (n : Nat) (index : Word) : Config := ⟨index, BitVec.ofNat 32 n⟩

/-- The task of the turn has it. -/
def State.turn (cfg : Config) (s : State ι) (turn : ι × Bool) : State ι := s.next cfg turn.1 turn.2

/-- Any task may have its turn at any time. -/
def barrier (n : Nat) (index : Word) : System (State (Fin n)) (Fin n × Bool) :=
  .ofFn (· = .start) (State.turn (config n index))

end Program

/-! ## What a barrier is for -/

/-- The task waits for the counter to be set back. -/
def Pc.spinning : Pc → Bool
  | .spin _ => true
  | _ => false

/-- No task returns from a wait before every task has begun it, and there is no deadlock. -/
structure Safe {n : Nat} (index : Word) (s : State (Fin n)) : Prop where
  begun : ∀ i j, (s.task i).returned ≤ (s.task j).begun
  live : ¬((∀ i, (s.task i).pc.spinning = true) ∧
    s.mem.word (.count index) ≠ s.mem.word (.initialValue index))

/-- The step of the task decrements the counter. -/
def State.Decrements {n : Nat} (index : Word) (s : State (Fin n)) (turn : Fin n × Bool) : Prop :=
  match (s.task turn.1).pc with
  | .sc _ _ => s.mem.link turn.1 = some (.count index) ∧ turn.2 = false
  | _ => False

instance {n : Nat} (index : Word) (s : State (Fin n)) (turn : Fin n × Bool) :
    Decidable (s.Decrements index turn) := by
  unfold State.Decrements
  split <;> infer_instance

/-- The counter is decremented only when it has been stored and when no task still waits
although it is at its initial value. -/
def Careful {n : Nat} (index : Word) (s : State (Fin n)) (turn : Fin n × Bool) : Prop :=
  s.Decrements index turn →
    (∀ j, (s.task j).pc ≠ .initStore) ∧
    ((∃ j, (s.task j).pc.spinning = true) →
      s.mem.word (.count index) ≠ s.mem.word (.initialValue index))

instance {n : Nat} (index : Word) (s : State (Fin n)) (turn : Fin n × Bool) :
    Decidable (Careful index s turn) := by
  unfold Careful
  infer_instance

/-! ## What a step can do -/

/-- The accesses of a task to a barrier that exists. -/
inductive TaskMove {ι : Type} [DecidableEq ι] (cfg : Config) (mem : LinkedMemory Cell Word ι)
    (i : ι) (fails : Bool) (t : Task) : LinkedMemory Cell Word ι × Task → Prop where
  | stay : TaskMove cfg mem i fails t (mem, t)
  | initCheck : t.pc = .init → TaskMove cfg mem i fails t (mem, { t with pc := .initLl })
  | initLink : t.pc = .initLl → mem.word (.initialValue cfg.index) = 0 →
      TaskMove cfg mem i fails t
        (mem.linkedLoad i (.initialValue cfg.index), { t with pc := .initSc })
  | initDone : t.pc = .initLl → mem.word (.initialValue cfg.index) ≠ 0 →
      TaskMove cfg mem i fails t
        (mem.linkedLoad i (.initialValue cfg.index), { t with pc := .outside })
  | initRetry : t.pc = .initSc → TaskMove cfg mem i fails t (mem, { t with pc := .initLl })
  | initPublish : t.pc = .initSc → mem.link i = some (.initialValue cfg.index) →
      TaskMove cfg mem i fails t
        (mem.store (.initialValue cfg.index) cfg.value, { t with pc := .initStore })
  | initStore : t.pc = .initStore →
      TaskMove cfg mem i fails t
        (mem.store (.count cfg.index) cfg.value, { t with pc := .outside })
  | begin : t.pc = .outside →
      TaskMove cfg mem i fails t (mem, { t with pc := .readMax, begun := t.begun + 1 })
  | readMax : t.pc = .readMax →
      TaskMove cfg mem i fails t (mem, { t with pc := .ll (mem.word (.initialValue cfg.index)) })
  | trap {maxcount : Word} : t.pc = .ll maxcount →
      TaskMove cfg mem i fails t (mem.linkedLoad i (.count cfg.index), { t with pc := .trapped })
  | link {maxcount : Word} : t.pc = .ll maxcount →
      TaskMove cfg mem i fails t
        (mem.linkedLoad i (.count cfg.index),
          { t with pc := .sc maxcount (mem.word (.count cfg.index)) })
  | retry {maxcount count : Word} : t.pc = .sc maxcount count →
      TaskMove cfg mem i fails t (mem, { t with pc := .ll maxcount })
  | last {maxcount : Word} : t.pc = .sc maxcount 1 →
      mem.link i = some (.count cfg.index) → fails = false →
      TaskMove cfg mem i fails t
        (mem.store (.count cfg.index) (1 - 1), { t with pc := .reset maxcount })
  | notLast {maxcount count : Word} : t.pc = .sc maxcount count → count ≠ 1 →
      mem.link i = some (.count cfg.index) → fails = false →
      TaskMove cfg mem i fails t
        (mem.store (.count cfg.index) (count - 1), { t with pc := .spin maxcount })
  | reset {maxcount : Word} : t.pc = .reset maxcount →
      TaskMove cfg mem i fails t
        (mem.store (.count cfg.index) maxcount,
          { t with pc := .outside, returned := t.returned + 1 })
  | leave {maxcount : Word} : t.pc = .spin maxcount → mem.word (.count cfg.index) = maxcount →
      TaskMove cfg mem i fails t (mem, { t with pc := .outside, returned := t.returned + 1 })

theorem Task.next_move {ι : Type} [DecidableEq ι] {cfg : Config}
    (hindex : ¬maxBarrierCount ≤ cfg.index) (mem : LinkedMemory Cell Word ι) (i : ι) (fails : Bool)
    (t : Task) : TaskMove cfg mem i fails t (t.next cfg mem i fails) := by
  rw [Task.next]
  cases hpc : t.pc with
  | init =>
      show TaskMove cfg mem i fails t (mem, { t with pc := if _ then _ else _ })
      rw [if_neg hindex]
      exact .initCheck hpc
  | initLl =>
      show TaskMove cfg mem i fails t (_, { t with pc := if _ then _ else _ })
      split_ifs with hzero
      · exact .initDone hpc hzero
      · exact .initLink hpc (Decidable.not_not.mp hzero)
  | initSc =>
      show TaskMove cfg mem i fails t (if _ then _ else _)
      split_ifs with hlinked
      · exact .initPublish hpc hlinked.1
      · exact .initRetry hpc
  | initStore => exact .initStore hpc
  | outside =>
      show TaskMove cfg mem i fails t (if _ then _ else _)
      rw [if_neg hindex]
      exact .begin hpc
  | readMax => exact .readMax hpc
  | ll maxcount =>
      show TaskMove cfg mem i fails t (_, { t with pc := if _ then _ else _ })
      split_ifs
      · exact .trap hpc
      · exact .link hpc
  | sc maxcount count =>
      show TaskMove cfg mem i fails t (if _ then _ else _)
      split_ifs with hlinked hone
      · subst hone
        exact .last hpc hlinked.1 hlinked.2
      · exact .notLast hpc hone hlinked.1 hlinked.2
      · exact .retry hpc
  | reset maxcount => exact .reset hpc
  | spin maxcount =>
      show TaskMove cfg mem i fails t (if _ then _ else _)
      split_ifs with hcount
      · exact .stay
      · exact .leave hpc (Decidable.not_not.mp hcount)
  | trapped => exact .stay

end SmcTp.Giet.Barrier
