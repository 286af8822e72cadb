import Mathlib.Logic.Equiv.Basic
import SmcTp.Clocked.Run
import SmcTp.Giet.LineInput
import SmcTp.Programs.LossyMailbox

/-!
# Characters from the terminals

A character that is typed raises an interrupt.  `_isr_tty_get_indexed` stores it in the kernel
buffer of its terminal and sets `_tty_get_full`, and `_tty_read_irq` fetches it for a task and
resets `_tty_get_full`.  A system call can be interrupted between any two accesses, by another
character as well as by the timer, which lets another task run.

*Terminals.*  A task reads the terminal in word 34 of its context, or the one with its own
number.  `Terminals.Private` says that no two tasks read the same terminal, and that the
interrupts of a terminal go to the processor of its task.  This is so after a reset, and
`_tty_config` can exchange the terminals of two tasks of a processor (`Private.exchange`).

*Characters.*  Under this condition each kernel buffer is a lossy mailbox (`step_cell`), so every
character is read once, or lost because another one came too early.
-/

namespace SmcTp.Giet.TtyInput

open Clocked Programs LossyMailbox LineEditor

/-! ## Terminals -/

/-- A task: the processor and the number there. -/
structure Task where
  procId : Nat
  taskId : Nat
deriving DecidableEq, Repr

/-- The tasks of a platform and word 34 of their contexts. -/
structure Terminals where
  nbProcs : Nat
  nbMaxTasks : Nat
  /-- `_task_context_array[index*64 + 34]` -/
  slot : Nat → Word
  nbProcs_le : nbProcs ≤ 8
  nbMaxTasks_le : nbMaxTasks ≤ 4

namespace Terminals

variable (cfg : Terminals)

/-- `proc_id*NB_MAXTASKS + task_id` -/
def index (i : Task) : Nat := i.procId * cfg.nbMaxTasks + i.taskId

/-- `tty_id` in the functions that read and write a terminal. -/
def ttyId (i : Task) : Word :=
  if cfg.slot (cfg.index i) = 0 then BitVec.ofNat 32 (cfg.index i)
  else cfg.slot (cfg.index i) - 0x80000000

/-- A task of the platform. -/
def Valid (i : Task) : Prop := i.procId < cfg.nbProcs ∧ i.taskId < cfg.nbMaxTasks

instance (i : Task) : Decidable (cfg.Valid i) := inferInstanceAs (Decidable (_ ∧ _))

/-- `_tty_config`: the value returned, and word 34 of the contexts. -/
def ttyConfig (ttyId : Word) (i : Task) : Word × (Nat → Word) :=
  if cfg.nbMaxTasks ≤ i.taskId then (0, cfg.slot)
  else if cfg.nbProcs ≤ i.procId then (0, cfg.slot)
  else (1, Function.update cfg.slot (cfg.index i) (ttyId + 0x80000000))

/-- The platform after `_tty_config`. -/
def config (ttyId : Word) (i : Task) : Terminals := { cfg with slot := (cfg.ttyConfig ttyId i).2 }

/-- Each task has a terminal of its own, whose interrupts go to its processor. -/
structure Private : Prop where
  own : ∀ i, cfg.Valid i → (cfg.ttyId i).toNat / cfg.nbMaxTasks = i.procId
  alone : ∀ i j, cfg.Valid i → cfg.Valid j → cfg.ttyId i = cfg.ttyId j → i = j

variable {cfg} {i j : Task}

theorem index_div (h : cfg.Valid i) : cfg.index i / cfg.nbMaxTasks = i.procId := by
  rw [index, Nat.mul_comm, Nat.mul_add_div (Nat.zero_lt_of_lt h.2), Nat.div_eq_of_lt h.2,
    Nat.add_zero]

theorem index_mod (h : cfg.Valid i) : cfg.index i % cfg.nbMaxTasks = i.taskId := by
  rw [index, Nat.mul_comm, Nat.mul_add_mod, Nat.mod_eq_of_lt h.2]

theorem index_inj (hi : cfg.Valid i) (hj : cfg.Valid j) (h : cfg.index i = cfg.index j) :
    i = j := by
  cases i
  cases j
  congr 1
  · exact (index_div hi).symm.trans ((congrArg (· / cfg.nbMaxTasks) h).trans (index_div hj))
  · exact (index_mod hi).symm.trans ((congrArg (· % cfg.nbMaxTasks) h).trans (index_mod hj))

theorem index_lt (h : cfg.Valid i) : cfg.index i < 32 := by
  have hproc : i.procId ≤ 7 := by
    have := cfg.nbProcs_le
    have := h.1
    omega
  have htask := h.2
  have hmax := cfg.nbMaxTasks_le
  have hmul : i.procId * cfg.nbMaxTasks ≤ 7 * cfg.nbMaxTasks := Nat.mul_le_mul_right _ hproc
  unfold index
  omega

/-- The terminal of a task is the one it has been given. -/
theorem ttyId_config {ttyId : Word} (hi : cfg.Valid i) (hid : ttyId ≠ 0x80000000) :
    (cfg.config ttyId i).ttyId i = ttyId := by
  have hslot : (cfg.config ttyId i).slot (cfg.index i) = ttyId + 0x80000000 := by
    simp only [config, ttyConfig, if_neg (Nat.not_le.mpr hi.1), if_neg (Nat.not_le.mpr hi.2)]
    exact Function.update_self ..
  have hindex : (cfg.config ttyId i).index i = cfg.index i := rfl
  have hne : ttyId + 0x80000000 ≠ 0 := by
    intro h
    apply hid
    grind
  rw [Terminals.ttyId, hindex, hslot, if_neg hne, BitVec.add_sub_cancel]

/-- The other tasks keep theirs. -/
theorem ttyId_config_of_ne {ttyId : Word} (hi : cfg.Valid i) (hj : cfg.Valid j) (hne : j ≠ i) :
    (cfg.config ttyId i).ttyId j = cfg.ttyId j := by
  have hslot : (cfg.config ttyId i).slot (cfg.index j) = cfg.slot (cfg.index j) := by
    simp only [config, ttyConfig, if_neg (Nat.not_le.mpr hi.1), if_neg (Nat.not_le.mpr hi.2)]
    exact Function.update_of_ne (fun h => hne (index_inj hj hi h)) ..
  have hindex : (cfg.config ttyId i).index j = cfg.index j := rfl
  rw [Terminals.ttyId, Terminals.ttyId, hindex, hslot]

/-- Tasks that have not been given a terminal have private ones. -/
theorem private_of_default (h : ∀ i, cfg.Valid i → cfg.slot (cfg.index i) = 0) :
    cfg.Private := by
  have hid : ∀ i, cfg.Valid i → (cfg.ttyId i).toNat = cfg.index i := by
    intro i hi
    have hlt := index_lt hi
    rw [ttyId, if_pos (h i hi), BitVec.toNat_ofNat, Nat.mod_eq_of_lt (by omega)]
  refine ⟨fun i hi => ?_, fun i j hi hj heq => ?_⟩
  · rw [hid i hi]
    exact index_div hi
  · refine index_inj hi hj ?_
    rw [← hid i hi, ← hid j hj, heq]

/-- Private terminals have small numbers. -/
theorem Private.ttyId_lt (h : cfg.Private) (hi : cfg.Valid i) : (cfg.ttyId i).toNat < 32 := by
  have hpos : 0 < cfg.nbMaxTasks := Nat.zero_lt_of_lt hi.2
  have hproc : (cfg.ttyId i).toNat / cfg.nbMaxTasks < 8 := by
    rw [h.own i hi]
    exact Nat.lt_of_lt_of_le hi.1 cfg.nbProcs_le
  have hlt := (Nat.div_lt_iff_lt_mul hpos).mp hproc
  have hmax := cfg.nbMaxTasks_le
  omega

/-- Two calls of `_tty_config` exchange the terminals of two tasks of a processor, and every
task still has its own. -/
theorem Private.exchange (h : cfg.Private) (hi : cfg.Valid i) (hj : cfg.Valid j) (hne : j ≠ i)
    (hproc : i.procId = j.procId) :
    ((cfg.config (cfg.ttyId j) i).config (cfg.ttyId i) j).Private := by
  have hsmall : ∀ k, cfg.Valid k → cfg.ttyId k ≠ 0x80000000 := fun k hk heq => by
    have hlt := h.ttyId_lt hk
    rw [heq] at hlt
    exact absurd hlt (by decide)
  have hkept : ∀ k, cfg.Valid k → k ≠ j →
      ((cfg.config (cfg.ttyId j) i).config (cfg.ttyId i) j).ttyId k =
        (cfg.config (cfg.ttyId j) i).ttyId k := fun k hk => ttyId_config_of_ne hj hk
  have hswap : ∀ k, cfg.Valid k → cfg.Valid (Equiv.swap i j k) ∧
      (Equiv.swap i j k).procId = k.procId ∧
      ((cfg.config (cfg.ttyId j) i).config (cfg.ttyId i) j).ttyId k =
        cfg.ttyId (Equiv.swap i j k) := by
    intro k hk
    by_cases hki : k = i
    · subst hki
      rw [Equiv.swap_apply_left]
      exact ⟨hj, hproc.symm, (hkept k hk hne.symm).trans (ttyId_config hk (hsmall j hj))⟩
    · by_cases hkj : k = j
      · subst hkj
        rw [Equiv.swap_apply_right]
        exact ⟨hi, hproc, ttyId_config hk (hsmall i hi)⟩
      · rw [Equiv.swap_apply_of_ne_of_ne hki hkj]
        exact ⟨hk, rfl, (hkept k hk hkj).trans (ttyId_config_of_ne hi hk hki)⟩
  constructor
  · intro k hk
    obtain ⟨hvalid, hsame, heq⟩ := hswap k hk
    rw [heq, ← hsame]
    exact h.own _ hvalid
  · intro k l hk hl heq
    obtain ⟨hvalid, -, heqk⟩ := hswap k hk
    obtain ⟨hvalid', -, heql⟩ := hswap l hl
    rw [heqk, heql] at heq
    exact (Equiv.swap i j).injective (h.alone _ _ hvalid hvalid' heq)

end Terminals

/-! ## Readers and interrupts -/

/-- Where a task stands in `_tty_read_irq`. -/
inductive Pc where
  | outside
  /-- `_tty_get_full[tty_id] == 0` -/
  | test (ttyId : Word)
  /-- `*buffer = _tty_get_buf[tty_id]` -/
  | fetch (ttyId : Word)
  /-- `_tty_get_full[tty_id] = 0`, when this character has been fetched. -/
  | reset (ttyId : Word) (c : Byte)
deriving DecidableEq, Repr

/-- The shared variables, the interrupt routines, the tasks and the log. -/
structure State where
  ttyGetBuf : Nat → Byte
  ttyGetFull : Nat → Bool
  /-- The terminal whose character `_isr_tty_get_indexed` has stored on a processor, when it
  has not set `_tty_get_full` yet. -/
  isr : Nat → Option Nat
  /-- `_current_task_array` -/
  current : Nat → Nat
  pc : Task → Pc
  /-- The characters `_isr_tty_get_indexed` has read from each terminal. -/
  typed : Nat → List Byte
  /-- How many of them came while `_tty_get_full` was set. -/
  early : Nat → Nat
  /-- What the calls of `_tty_read_irq` have returned to each task. -/
  polls : Task → List (Option Byte)

namespace State

/-- `_isr_tty_get_indexed` stores a character. -/
def store (cfg : Terminals) (s : State) (i : Task) (c : Byte) : State :=
  { s with
    ttyGetBuf := Function.update s.ttyGetBuf (cfg.index i) c
    isr := Function.update s.isr i.procId (some (cfg.index i))
    typed := Function.update s.typed (cfg.index i) (s.typed (cfg.index i) ++ [c])
    early := Function.update s.early (cfg.index i)
      (s.early (cfg.index i) + if s.ttyGetFull (cfg.index i) then 1 else 0) }

/-- It sets `_tty_get_full`. -/
def signal (s : State) (procId ttyId : Nat) : State :=
  { s with
    ttyGetFull := Function.update s.ttyGetFull ttyId true
    isr := Function.update s.isr procId none }

/-- Another task of the processor runs. -/
def switch (s : State) (i : Task) : State :=
  { s with current := Function.update s.current i.procId i.taskId }

/-- `_tty_read_irq` returns. -/
def returns (s : State) (i : Task) (answer : Option Byte) : State :=
  { s with
    pc := Function.update s.pc i .outside
    polls := Function.update s.polls i (s.polls i ++ [answer]) }

/-- `_tty_get_full[tty_id] = 0` -/
def resetFull (s : State) (ttyId : Word) : State :=
  { s with ttyGetFull := Function.update s.ttyGetFull ttyId.toNat false }

/-- The next access of a task in `_tty_read_irq`. -/
def access (cfg : Terminals) (s : State) (i : Task) : State :=
  match s.pc i with
  | .outside => { s with pc := Function.update s.pc i (.test (cfg.ttyId i)) }
  | .test ttyId =>
      if s.ttyGetFull ttyId.toNat = false then s.returns i none
      else { s with pc := Function.update s.pc i (.fetch ttyId) }
  | .fetch ttyId =>
      { s with pc := Function.update s.pc i (.reset ttyId (s.ttyGetBuf ttyId.toNat)) }
  | .reset ttyId c => (s.resetFull ttyId).returns i (some c)

end State

/-- What happens next on a processor. -/
inductive Event where
  /-- `_isr_tty_get_task<task_id>` stores the character of its terminal. -/
  | irq (i : Task) (c : Byte)
  /-- The routine sets `_tty_get_full` and returns. -/
  | signal (procId : Nat)
  /-- `_isr_switch` gives the processor to another task. -/
  | switch (i : Task)
  /-- The current task goes on. -/
  | run (procId : Nat)
deriving DecidableEq, Repr

/-- The routines are not interrupted. -/
def next (cfg : Terminals) (s : State) : Event → Option State
  | .irq i c => if cfg.Valid i ∧ s.isr i.procId = none then some (s.store cfg i c) else none
  | .signal p => (s.isr p).map (s.signal p)
  | .switch i => if cfg.Valid i ∧ s.isr i.procId = none then some (s.switch i) else none
  | .run p =>
      if cfg.Valid ⟨p, s.current p⟩ ∧ s.isr p = none then some (s.access cfg ⟨p, s.current p⟩)
      else none

/-- The reset state: nothing has been typed, and nothing read. -/
def State.start (buf : Nat → Byte) : State where
  ttyGetBuf := buf
  ttyGetFull := fun _ => false
  isr := fun _ => none
  current := fun _ => 0
  pc := fun _ => .outside
  typed := fun _ => []
  early := fun _ => 0
  polls := fun _ => []

/-- The terminals and the tasks that read them. -/
def system (cfg : Terminals) : System State Event where
  init s := ∃ buf, s = .start buf
  step s e s' := next cfg s e = some s'

/-! ## The mailbox of a task -/

/-- What a task does with the kernel buffer. -/
def Pc.consumer : Pc → Consumer Byte
  | .outside | .test _ => .idle
  | .fetch _ => .seen
  | .reset _ c => .holds c

/-- The task is in `_tty_read_irq` for this terminal. -/
def Pc.Reads (ttyId : Word) : Pc → Prop
  | .outside => True
  | .test t | .fetch t | .reset t _ => t = ttyId

namespace State

variable (cfg : Terminals) (s : State) (i : Task)

/-- The characters a task has read. -/
def read : List Byte := (s.polls i).reduceOption

/-- The characters typed at the terminal of a task. -/
def typedAt : List Byte := s.typed (cfg.ttyId i).toNat

/-- The kernel buffer a task reads.  It is full as soon as the character has been stored, as
the task waits for the routine. -/
def cell : Cell Byte where
  item := s.ttyGetBuf (cfg.ttyId i).toNat
  full := s.ttyGetFull (cfg.ttyId i).toNat || s.isr i.procId == some (cfg.ttyId i).toNat
  consumer := (s.pc i).consumer
  put := s.typedAt cfg i
  got := s.read i
  lost := s.early (cfg.ttyId i).toNat

/-- The character a task reads next, if there is one. -/
def pending : List Byte := (s.cell cfg i).pending

end State

/-- What holds of every state in which the terminals are private. -/
structure Inv (cfg : Terminals) (s : State) : Prop where
  isr : ∀ p t, s.isr p = some t → t / cfg.nbMaxTasks = p
  reads : ∀ i, (s.pc i).Reads (cfg.ttyId i)
  cell : ∀ i, cfg.Valid i → (s.cell cfg i).Ok

section Steps

variable {cfg : Terminals} {s s' : State} {i j : Task}

theorem inv_start (buf : Nat → Byte) : Inv cfg (.start buf) :=
  ⟨nofun, fun _ => trivial, fun _ _ => Cell.ok_new _⟩

/-- An access of another task. -/
theorem cell_access_of_ne (hprivate : cfg.Private) (hreads : (s.pc i).Reads (cfg.ttyId i))
    (hi : cfg.Valid i) (hj : cfg.Valid j) (hne : j ≠ i) :
    (s.access cfg i).cell cfg j = s.cell cfg j := by
  have hid : (cfg.ttyId j).toNat ≠ (cfg.ttyId i).toNat := fun h =>
    hne (hprivate.alone j i hj hi (BitVec.eq_of_toNat_eq h))
  unfold State.access
  cases hpc : s.pc i with
  | outside => simp [State.cell, State.typedAt, State.read, Function.update_of_ne hne]
  | test t =>
      dsimp only
      split_ifs
      · simp [State.returns, State.cell, State.typedAt, State.read, Function.update_of_ne hne]
      · simp [State.cell, State.typedAt, State.read, Function.update_of_ne hne]
  | fetch t => simp [State.cell, State.typedAt, State.read, Function.update_of_ne hne]
  | reset t c =>
      rw [hpc] at hreads
      obtain rfl : t = cfg.ttyId i := hreads
      simp [State.resetFull, State.returns, State.cell, State.typedAt, State.read,
        Function.update_of_ne hne, Function.update_of_ne hid]

/-- An access of the task itself, while no routine runs. -/
theorem step_cell_access (hreads : (s.pc i).Reads (cfg.ttyId i))
    (hisr : s.isr i.procId = none) :
    Cell.Step (s.cell cfg i) ((s.access cfg i).cell cfg i) := by
  have hfull : (s.cell cfg i).full = s.ttyGetFull (cfg.ttyId i).toNat := by
    simp [State.cell, hisr]
  unfold State.access
  cases hpc : s.pc i with
  | outside =>
      have hsame : { s with pc := Function.update s.pc i (.test (cfg.ttyId i)) }.cell cfg i =
          s.cell cfg i := by
        simp [State.cell, State.typedAt, State.read, Pc.consumer, hpc]
      rw [hsame]
      exact .stay
  | test t =>
      rw [hpc] at hreads
      obtain rfl : t = cfg.ttyId i := hreads
      dsimp only
      split_ifs with hempty
      · have hsame : (s.returns i none).cell cfg i = s.cell cfg i := by
          simp [State.returns, State.cell, State.typedAt, State.read, Pc.consumer, hpc,
            List.reduceOption_append]
        rw [hsame]
        exact .stay
      · have hidle : (s.cell cfg i).consumer = .idle := by simp [State.cell, Pc.consumer, hpc]
        have hsee := Cell.Step.see hidle (hfull.trans (by simpa using hempty))
        simpa [State.cell, State.typedAt, State.read, Pc.consumer] using hsee
  | fetch t =>
      rw [hpc] at hreads
      obtain rfl : t = cfg.ttyId i := hreads
      have hseen : (s.cell cfg i).consumer = .seen := by simp [State.cell, Pc.consumer, hpc]
      simpa [State.cell, State.typedAt, State.read, Pc.consumer] using Cell.Step.fetch hseen
  | reset t c =>
      rw [hpc] at hreads
      obtain rfl : t = cfg.ttyId i := hreads
      have hholds : (s.cell cfg i).consumer = .holds c := by simp [State.cell, Pc.consumer, hpc]
      have htake : ((s.resetFull (cfg.ttyId i)).returns i (some c)).cell cfg i =
          (s.cell cfg i).take c := by
        simp [State.resetFull, State.returns, State.cell, State.typedAt, State.read, Pc.consumer,
          Cell.take, hisr, List.reduceOption_append]
      dsimp only
      rw [htake]
      exact .take hholds

/-- A character that is stored goes to the mailbox of the task that reads its terminal. -/
theorem step_cell_store (hprivate : cfg.Private) (hi : cfg.Valid i) (hj : cfg.Valid j)
    (hisr : s.isr j.procId = none) (c : Byte) :
    Cell.Step (s.cell cfg i) ((s.store cfg j c).cell cfg i) := by
  by_cases hid : (cfg.ttyId i).toNat = cfg.index j
  · have hproc : i.procId = j.procId := by
      rw [← hprivate.own i hi, hid, Terminals.index_div hj]
    have hstore : (s.store cfg j c).cell cfg i = (s.cell cfg i).store c := by
      simp [State.store, State.cell, State.typedAt, State.read, Cell.store, hid, hproc, hisr]
    rw [hstore]
    exact .store c
  · have hsame : (s.store cfg j c).cell cfg i = s.cell cfg i := by
      by_cases hproc : i.procId = j.procId
      · simp [State.store, State.cell, State.typedAt, State.read, Function.update_of_ne hid,
          hproc, hisr, Ne.symm hid]
      · simp [State.store, State.cell, State.typedAt, State.read, Function.update_of_ne hid,
          Function.update_of_ne hproc]
    rw [hsame]
    exact .stay

/-- The mailbox is full when the character has been stored, so the signal changes nothing. -/
theorem cell_signal (hprivate : cfg.Private) (hi : cfg.Valid i) {p t : Nat}
    (hisr : s.isr p = some t) (hown : t / cfg.nbMaxTasks = p) :
    (s.signal p t).cell cfg i = s.cell cfg i := by
  by_cases hid : (cfg.ttyId i).toNat = t
  · have hproc : i.procId = p := by rw [← hprivate.own i hi, hid, hown]
    simp [State.signal, State.cell, State.typedAt, State.read, hid, hproc, hisr]
  · by_cases hproc : i.procId = p
    · simp [State.signal, State.cell, State.typedAt, State.read, Function.update_of_ne hid,
        hproc, hisr, Ne.symm hid]
    · simp [State.signal, State.cell, State.typedAt, State.read, Function.update_of_ne hid,
        Function.update_of_ne hproc]

/-- What a step can be. -/
theorem next_cases {e : Event} (hstep : next cfg s e = some s') :
    (∃ j c, cfg.Valid j ∧ s.isr j.procId = none ∧ s' = s.store cfg j c) ∨
      (∃ p t, s.isr p = some t ∧ s' = s.signal p t) ∨ (∃ j, s' = s.switch j) ∨
      ∃ j, cfg.Valid j ∧ s.isr j.procId = none ∧ s' = s.access cfg j := by
  cases e with
  | irq j c =>
      simp only [next] at hstep
      split_ifs at hstep with hguard
      exact .inl ⟨j, c, hguard.1, hguard.2, (Option.some.inj hstep).symm⟩
  | signal p =>
      obtain ⟨t, ht, hs'⟩ := Option.map_eq_some_iff.mp hstep
      exact .inr (.inl ⟨p, t, ht, hs'.symm⟩)
  | switch j =>
      simp only [next] at hstep
      split_ifs at hstep
      exact .inr (.inr (.inl ⟨j, (Option.some.inj hstep).symm⟩))
  | run p =>
      simp only [next] at hstep
      split_ifs at hstep with hguard
      exact .inr (.inr (.inr ⟨_, hguard.1, hguard.2, (Option.some.inj hstep).symm⟩))

/-- Each step of the system is a step of the mailbox of each task. -/
theorem step_cell (hprivate : cfg.Private) (h : Inv cfg s) {e : Event}
    (hstep : next cfg s e = some s') (hi : cfg.Valid i) :
    Cell.Step (s.cell cfg i) (s'.cell cfg i) := by
  rcases next_cases hstep with ⟨j, c, hj, hisr, rfl⟩ | ⟨p, t, hisr, rfl⟩ | ⟨j, rfl⟩ |
    ⟨j, hj, hisr, rfl⟩
  · exact step_cell_store hprivate hi hj hisr c
  · rw [cell_signal hprivate hi hisr (h.isr p t hisr)]
    exact .stay
  · exact .stay
  · by_cases hne : i = j
    · subst hne
      exact step_cell_access (h.reads i) hisr
    · rw [cell_access_of_ne hprivate (h.reads j) hj hi hne]
      exact .stay

theorem reads_access (h : ∀ j, (s.pc j).Reads (cfg.ttyId j)) (i j : Task) :
    ((s.access cfg i).pc j).Reads (cfg.ttyId j) := by
  have hi := h i
  have hj := h j
  by_cases hne : j = i
  · subst hne
    unfold State.access
    cases hpc : s.pc j with
    | outside => simp [Pc.Reads]
    | test t =>
        rw [hpc] at hj
        dsimp only
        split_ifs
        · simp [State.returns, Pc.Reads]
        · simpa [Pc.Reads] using hj
    | fetch t =>
        rw [hpc] at hj
        simpa [Pc.Reads] using hj
    | reset t c => simp [State.resetFull, State.returns, Pc.Reads]
  · have hsame : (s.access cfg i).pc j = s.pc j := by
      unfold State.access
      cases s.pc i with
      | outside => exact Function.update_of_ne hne ..
      | test t =>
          dsimp only
          split_ifs
          · exact Function.update_of_ne hne ..
          · exact Function.update_of_ne hne ..
      | fetch t => exact Function.update_of_ne hne ..
      | reset t c => exact Function.update_of_ne hne ..
    rw [hsame]
    exact hj

theorem isr_access (i : Task) : (s.access cfg i).isr = s.isr := by
  unfold State.access
  cases s.pc i with
  | outside => rfl
  | test t =>
      dsimp only
      split_ifs <;> rfl
  | fetch t => rfl
  | reset t c => rfl

theorem Inv.next (hprivate : cfg.Private) (h : Inv cfg s) {e : Event}
    (hstep : next cfg s e = some s') : Inv cfg s' := by
  have hcell : ∀ i, cfg.Valid i → (s'.cell cfg i).Ok := fun i hi =>
    (h.cell i hi).step (step_cell hprivate h hstep hi)
  rcases next_cases hstep with ⟨j, c, hj, -, rfl⟩ | ⟨q, t, -, rfl⟩ | ⟨j, rfl⟩ | ⟨j, -, -, rfl⟩
  · refine ⟨fun p t ht => ?_, h.reads, hcell⟩
    by_cases hp : p = j.procId
    · subst hp
      obtain rfl : cfg.index j = t := by simpa [State.store] using ht
      exact Terminals.index_div hj
    · exact h.isr p t (by simpa [State.store, Function.update_of_ne hp] using ht)
  · refine ⟨fun p t' ht => ?_, h.reads, hcell⟩
    by_cases hp : p = q
    · subst hp
      simp [State.signal] at ht
    · exact h.isr p t' (by simpa [State.signal, Function.update_of_ne hp] using ht)
  · exact ⟨h.isr, h.reads, hcell⟩
  · exact ⟨by rw [isr_access]; exact h.isr, reads_access h.reads j, hcell⟩

theorem inv_of_reachable (hprivate : cfg.Private) (hs : (system cfg).Reachable s) :
    Inv cfg s := by
  refine hs.invariant ?_ fun s e s' h hstep => h.next hprivate hstep
  rintro _ ⟨buf, rfl⟩
  exact inv_start buf

end Steps

/-! ## What is read -/

section Read

variable {cfg : Terminals} {s : State} {i : Task}

/-- The characters a task has read, and the one it reads next, are characters typed at its
terminal in their order, and each other one is lost to one that came early. -/
theorem typed_read_or_lost (hprivate : cfg.Private) (hs : (system cfg).Reachable s)
    (hi : cfg.Valid i) :
    (s.read i ++ s.pending cfg i).Sublist (s.typedAt cfg i) ∧
      (s.read i).length + (s.pending cfg i).length + s.early (cfg.ttyId i).toNat =
        (s.typedAt cfg i).length := by
  have hok := (inv_of_reachable hprivate hs).cell i hi
  exact ⟨hok.order, hok.count⟩

/-- One processor with one task. -/
def single : Terminals := ⟨1, 1, fun _ => 0, by decide, by decide⟩

theorem single_private : single.Private := Terminals.private_of_default fun _ _ => rfl

/-- Two characters are typed before the task asks.  The first one is lost, and it reads the
second one. -/
theorem typed_read_or_lost_single : ∃ s, (system single).Reachable s ∧
    (s.read ⟨0, 0⟩ = [0x62] ∧ s.early 0 = 1) ∧
    (s.read ⟨0, 0⟩ ++ s.pending single ⟨0, 0⟩).Sublist (s.typedAt single ⟨0, 0⟩) ∧
      (s.read ⟨0, 0⟩).length + (s.pending single ⟨0, 0⟩).length +
        s.early (single.ttyId ⟨0, 0⟩).toNat = (s.typedAt single ⟨0, 0⟩).length := by
  have htest : (exec (next single) [.irq ⟨0, 0⟩ 0x61, .signal 0, .irq ⟨0, 0⟩ 0x62, .signal 0,
      .run 0, .run 0, .run 0, .run 0] (.start fun _ => 0)).any
      (fun s => s.read ⟨0, 0⟩ = [0x62] ∧ s.early 0 = 1) = true := by decide
  obtain ⟨s, hs, hread⟩ := System.exists_exec (S := system single) (fun _ _ _ h => h)
    ⟨_, rfl⟩ htest
  exact ⟨s, hs, of_decide_eq_true hread,
    typed_read_or_lost single_private hs (by decide)⟩

/-- A line that is closed stays as it is. -/
theorem lineOfBytes_append_of_closed {bufsize : Word} {bytes : List Byte}
    (h : (lineOfBytes bufsize bytes).Closed (bufsize.toNat - 1)) (rest : List Byte) :
    lineOfBytes bufsize (bytes ++ rest) = lineOfBytes bufsize bytes := by
  induction rest using List.reverseRecOn with
  | nil => rw [List.append_nil]
  | append_singleton rest c ih =>
      rw [← List.append_assoc, lineOfBytes_concat, ih, Line.press_of_closed h]

theorem spares_of_not_mem (limit : Nat) (l : Line Byte) {bytes : List Byte}
    (h : 0x7F ∉ bytes) : spares limit l bytes = 0 := by
  induction bytes generalizing l with
  | nil => rfl
  | cons c bytes ih =>
      rw [List.mem_cons, not_or] at h
      rw [spares, if_neg fun hspare => h.1 hspare.2.2.symm, ih _ h.2]

/-- A line in which nothing is erased. -/
theorem sparesPaired_of_not_mem {bufsize : Word} {bytes : List Byte} (h : 0x7F ∉ bytes) :
    SparesPaired bufsize bytes := by
  intro p hp hodd
  rw [spares_of_not_mem _ _ fun hmem => h (hp.subset hmem)] at hodd
  exact absurd hodd (by decide)

/-- When no character has come early, `tty_gets_irq` gets the line that has been typed since
it was called. -/
theorem line_typed_is_got (hprivate : cfg.Private) (hs : (system cfg).Reachable s)
    (hi : cfg.Valid i) (hearly : s.early (cfg.ttyId i).toNat = 0)
    {before polls : List (Option Byte)} (hpolls : s.polls i = before ++ polls)
    {typed : List Byte} (htyped : s.typedAt cfg i = before.reduceOption ++ typed)
    {bufsize : Word} (hsize : 0 < bufsize.toNat) (hpaired : SparesPaired bufsize typed)
    (buf : Nat → Byte) :
    ((ttyGetsIrq bufsize buf polls).returned = true →
        cells (ttyGetsIrq bufsize buf polls).line.buf 0
            ((lineOfBytes bufsize typed).text.length + 1) =
          (lineOfBytes bufsize typed).text ++ [0]) ∧
      ((lineOfBytes bufsize typed).Closed (bufsize.toNat - 1) → s.pending cfg i = [] →
        (ttyGetsIrq bufsize buf polls).returned = true) := by
  have hcall : ttyGetsIrq bufsize buf polls =
      polls.reduceOption.foldl (Gets.getsByte bufsize) (Gets.start bufsize buf) := foldl_poll ..
  have hread : s.read i = before.reduceOption ++ polls.reduceOption := by
    rw [State.read, hpolls, List.reduceOption_append]
  have hall : typed = polls.reduceOption ++ s.pending cfg i := by
    have heq : s.read i ++ s.pending cfg i = s.typedAt cfg i :=
      ((inv_of_reachable hprivate hs).cell i hi).eq_of_none_lost hearly
    rw [hread, htyped, List.append_assoc] at heq
    exact (List.append_cancel_left heq).symm
  generalize polls.reduceOption = bytes at hcall hall
  subst hall
  rcases tracks_or_lost hsize buf bytes with ⟨-, htracks⟩ | ⟨hunpaired, -⟩
  · rw [hcall]
    cases htracks with
    | waits hended hholds =>
        refine ⟨fun hreturned => ?_, fun hclosed hpending => ?_⟩
        · rw [hholds.returned] at hreturned
          cases hreturned
        · rw [hpending, List.append_nil] at hclosed
          exact absurd hclosed (not_closed_of_waits hended hholds)
    | done hclosed _ hheld =>
        rw [lineOfBytes_append_of_closed hclosed]
        exact ⟨fun _ => hheld.holds, fun _ _ => hheld.returned⟩
  · exact absurd (fun p hp => hpaired p (hp.trans (List.prefix_append ..))) hunpaired

/-- A line of one character, typed after a call that has returned 0. -/
theorem line_typed_is_got_single : ∃ s, (system single).Reachable s ∧
    ((ttyGetsIrq 8 (fun _ => 0) [some 0x61, some 0x0A]).returned = true →
        cells (ttyGetsIrq 8 (fun _ => 0) [some 0x61, some 0x0A]).line.buf 0
            ((lineOfBytes 8 [0x61, 0x0A]).text.length + 1) =
          (lineOfBytes 8 [0x61, 0x0A]).text ++ [0]) ∧
      ((lineOfBytes 8 [0x61, 0x0A]).Closed 7 → s.pending single ⟨0, 0⟩ = [] →
        (ttyGetsIrq 8 (fun _ => 0) [some 0x61, some 0x0A]).returned = true) := by
  have htest : (exec (next single) [.run 0, .run 0, .irq ⟨0, 0⟩ 0x61, .signal 0, .run 0, .run 0,
      .run 0, .run 0, .irq ⟨0, 0⟩ 0x0A, .signal 0, .run 0, .run 0, .run 0, .run 0]
      (.start fun _ => 0)).any
      (fun s => s.polls ⟨0, 0⟩ = [none] ++ [some 0x61, some 0x0A] ∧ s.early 0 = 0 ∧
        s.typed 0 = [none].reduceOption ++ [0x61, 0x0A]) = true := by decide
  obtain ⟨s, hs, hread⟩ := System.exists_exec (S := system single) (fun _ _ _ h => h)
    ⟨_, rfl⟩ htest
  obtain ⟨hpolls, hearly, htyped⟩ := of_decide_eq_true hread
  exact ⟨s, hs, line_typed_is_got (i := ⟨0, 0⟩) single_private hs (by decide) hearly hpolls
    htyped (by decide) (sparesPaired_of_not_mem (by decide)) _⟩

end Read

end SmcTp.Giet.TtyInput
