import SmcTp.Giet.SystemCalls

/-!
# Interrupts on a processor

`_int_handler` saves the registers a function may write in the stack of the program it
interrupts, calls `_int_demux` and brings them back.  Interrupts stay disabled meanwhile.

`Handling` says what a processor is doing that has interrupted another run.  From there
`quiet_path` follows: an interrupt is no more to a program than a moment at which `$26`, `$27`,
`EPC`, `CAUSE`, the stack below `$29` and the shared memory change.  What is said about a processor
without interrupts holds of the real one, such as what a system call does
(`system_call_returns`).
-/

namespace SmcTp.Giet.Handlers

open Boot (enabled)
open Clocked Programs

/-- A step of the processor, as a program sees it. -/
def outside (lay : Layout) (x : State × Step) : Option (Machine × Quiet) :=
  match x.1.interrupted, x.2 with
  | none, .plain e => some (x.1.machine, .plain e)
  | some b, .plain .giet =>
      if x.1.machine.instr lay = some .eret then
        (x.1.machine.giet lay).map fun m => (b, .scribble m.cpu m.mem)
      else none
  | _, _ => none

section Handling

variable {lay : Layout} {m m' b : Machine} {t : Trap} {c : Call}

/-! ## An interrupt -/

/-- The registers of an interrupted program at the entry point. -/
def Machine.masked (b : Machine) : Cpu := { b.cpu with sr := b.cpu.sr ||| 0x2, epc := b.pc }

/-- Only what is shared and the stack below the interrupted program has changed. -/
def Apart (lay : Layout) (b : Machine) (mem : Mem) : Prop :=
  ∀ a, ¬ lay.shared a → ¬ lay.Dead (b.cpu.gpr 29) a → mem a = b.mem a

/-- `_giet` has found `_int_handler`. -/
structure Taken (lay : Layout) (b : Machine) (c : Cpu) (mem : Mem) : Prop where
  target : c.gpr 26 = lay.addr 29
  same : Same b.masked c
  apart : Apart lay b mem

/-- The registers `_int_demux` is called with, or has been. -/
structure Entered (b : Machine) (gpr : Nat → Word) : Prop where
  sp : gpr 29 = b.cpu.gpr 29 - 100
  kept : ∀ r ∈ kept, gpr r = b.cpu.gpr r

/-- The registers of the program are on the stack. -/
structure Stored (lay : Layout) (b : Machine) (mem : Mem) : Prop where
  saved : Saved (b.cpu.gpr 29 - 100) b.masked mem
  apart : Apart lay b mem

/-- `_int_handler` is about to call `_int_demux`. -/
structure Called (lay : Layout) (b : Machine) (c : Cpu) (mem : Mem) : Prop where
  target : c.gpr 26 = lay.intDemux
  entered : Entered b c.gpr
  sr : c.sr = b.masked.sr
  stored : Stored lay b mem

/-- `_int_handler` is about to leave. -/
structure Resumed (lay : Layout) (b : Machine) (c : Cpu) (mem : Mem) : Prop where
  same : Same b.masked c
  apart : Apart lay b mem

/-- What a processor is doing that has interrupted `b`. -/
inductive Handling (lay : Layout) (b m : Machine) : Prop where
  /-- `_giet` -/
  | entry (hcall : m.call = none) (hrun : Running lay 0 gietEntry (Taken lay b) m)
  /-- `_int_handler` up to its `jalr` -/
  | save (hcall : m.call = none) (hrun : Running lay 29 intSave (Called lay b) m)
  /-- `_int_demux` and the service routine -/
  | demux {c : Call} (hpc : lay.index m.pc = none) (hcall : m.call = some c)
      (hret : c.ret = lay.addr 56) (hc : Entered b c.gpr) (hsr : m.cpu.sr = b.masked.sr)
      (hstored : Stored lay b m.mem)
  /-- `restore` -/
  | restore (hcall : m.call = none) (hrun : Running lay 56 intRestore (Resumed lay b) m)

theorem intSave_code : intSave <+: Handlers.giet.drop 29 := by decide
theorem intRestore_code : intRestore <+: Handlers.giet.drop 56 := by decide

theorem Apart.share {mem mem' : Mem} (h : Apart lay b mem)
    (hm : AgreeOn (fun a => ¬ lay.shared a) mem mem') : Apart lay b mem' :=
  fun a ha hdead => (hm a ha).trans (h a ha hdead)

/-- The words of `_int_handler` are on the stack. -/
theorem frame_not_shared (hlay : lay.WellPlaced) (hroom : lay.Room 100 (b.cpu.gpr 29))
    {offset : Word} (h : offset.toNat < 100) : ¬ lay.shared (b.cpu.gpr 29 - 100 + offset) :=
  hlay.stack_shared _ ((hroom.dead h).stack hroom.high)

theorem Saved.agree {base : Word} {cpu : Cpu} {mem mem' : Mem} (h : Saved base cpu mem)
    (hm : ∀ offset : Word, 16 ≤ offset.toNat → offset.toNat < 100 →
      mem' (base + offset) = mem (base + offset)) : Saved base cpu mem' := by
  have hoffsets : ∀ x ∈ saved, 16 ≤ x.2.toNat ∧ x.2.toNat < 100 := by decide
  exact ⟨fun x hx => (hm _ (hoffsets x hx).1 (hoffsets x hx).2).trans (h.regs x hx),
    (hm _ (by decide) (by decide)).trans h.lo, (hm _ (by decide) (by decide)).trans h.hi,
    (hm _ (by decide) (by decide)).trans h.epc⟩

theorem Stored.share {mem mem' : Mem} (hlay : lay.WellPlaced)
    (hroom : lay.Room 100 (b.cpu.gpr 29)) (h : Stored lay b mem)
    (hm : AgreeOn (fun a => ¬ lay.shared a) mem mem') : Stored lay b mem' :=
  ⟨h.saved.agree fun _ _ hlt => hm _ (frame_not_shared hlay hroom hlt), h.apart.share hm⟩

theorem Same.sp {c c' : Cpu} (h : Same c c') : c'.gpr 29 = c.gpr 29 :=
  h.gpr 29 (by decide) (by decide) (by decide) (by decide)

theorem Saved.of_same {base : Word} {c c' : Cpu} {mem : Mem} (h : Saved base c' mem)
    (hsame : Same c c') : Saved base c mem := by
  have hvisible : ∀ x ∈ saved, 0 < x.1 ∧ x.1 < 32 ∧ x.1 ≠ 26 ∧ x.1 ≠ 27 := by decide
  refine ⟨fun x hx => ?_, h.lo.trans hsame.lo, h.hi.trans hsame.hi, h.epc.trans hsame.epc⟩
  obtain ⟨hpos, hlt, h26, h27⟩ := hvisible x hx
  exact (h.regs x hx).trans (hsame.gpr _ hpos hlt h26 h27)

/-- The processor takes an interrupt. -/
theorem Handling.interrupt {cause : Word} (hlay : lay.WellPlaced) (hconsts : lay.Consts b.mem)
    (hcause : cause &&& 0x3c = 0) :
    Handling lay b { b.raise cause with call := none, trapped := none } := by
  refine .entry rfl (.start lay.addr_zero.symm ?_)
  refine leads_gietEntry (enabled_or _) (hlay.const_shared _ (.inl ⟨_, rfl⟩))
    (aligned_add lay.causeVector_aligned (aligned_and _)) fun g hg h26 => ?_
  have htarget : b.mem (lay.causeVector + (cause &&& 0x3c)) = lay.addr 29 := by
    rw [hconsts.cause, hcause]
    rfl
  exact ⟨h26.trans htarget, ⟨fun r _ _ h26 h27 => hg r h26 h27, rfl, rfl, rfl, rfl⟩,
    fun _ _ _ => rfl⟩

/-- Interrupts stay disabled. -/
theorem Handling.disabled (h : Handling lay b m) : enabled m.cpu.sr = false := by
  cases h with
  | entry _ hrun =>
      rcases hrun.step gietEntry_code with ⟨-, ht⟩ | ⟨hdisabled, -⟩
      · rw [ht.same.sr]
        exact enabled_or _
      · exact hdisabled
  | save _ hrun =>
      rcases hrun.step intSave_code with ⟨-, hcalled⟩ | ⟨hdisabled, -⟩
      · rw [hcalled.sr]
        exact enabled_or _
      · exact hdisabled
  | demux _ _ _ _ hsr _ =>
      rw [hsr]
      exact enabled_or _
  | restore _ hrun =>
      rcases hrun.step intRestore_code with ⟨-, hresumed⟩ | ⟨hdisabled, -⟩
      · rw [hresumed.same.sr]
        exact enabled_or _
      · exact hdisabled

/-- `_giet` comes to `_int_handler`. -/
theorem Handling.dispatch (hlay : lay.WellPlaced) (hroom : lay.Room 100 (b.cpu.gpr 29))
    (hcall : m.call = none) (ht : Taken lay b m.cpu m.mem) :
    Handling lay b { m with pc := m.cpu.reg 26 } := by
  have hsp : m.cpu.gpr 29 = b.cpu.gpr 29 := ht.same.sp
  have hroom' : lay.Room 100 (m.cpu.gpr 29) := hsp ▸ hroom
  have hsr : m.cpu.sr = b.masked.sr := ht.same.sr
  refine .save hcall (.start ht.target ?_)
  refine leads_intSave (by rw [hsr]; exact enabled_or _) hroom'
    (fun a ha => hlay.stack_shared a (ha.stack hroom'.high))
    fun c' mem' h26 h29 hkeep hsr' hsaved hmem => ?_
  rw [hsp] at h29 hsaved hmem
  refine ⟨h26, ⟨h29, fun r hr => ?_⟩, hsr'.trans hsr, ⟨hsaved.of_same ht.same,
    fun a ha hdead => (hmem a hdead).trans (ht.apart a ha hdead)⟩⟩
  obtain ⟨hpos, hlt, h26, h27⟩ := visible_of_mem (.inr hr)
  exact (hkeep r hr).trans (ht.same.gpr r hpos hlt h26 h27)

/-- `_int_handler` calls `_int_demux`. -/
theorem Handling.enter (hlay : lay.WellPlaced) (hcalled : Called lay b m.cpu m.mem) (v : Word) :
    Handling lay b { m with
      pc := m.cpu.reg 26
      cpu := m.cpu.set 31 v
      call := some ⟨m.cpu.reg 26, m.cpu.gpr, lay.addr 56⟩ } := by
  have htarget : m.cpu.reg 26 = lay.intDemux := hcalled.target
  refine .demux ?_ rfl rfl hcalled.entered hcalled.sr hcalled.stored
  rw [htarget]
  exact hlay.intDemux

/-- The `eret` of `_int_handler` goes on with the interrupted program. -/
theorem Resumed.scribbled {cpu : Cpu} {mem : Mem} (henabled : enabled b.cpu.sr = true)
    (hroom : lay.Room 100 (b.cpu.gpr 29)) (h : Resumed lay b cpu mem) :
    Scribbled lay b { cpu with sr := cpu.sr &&& ~~~0x2 } mem := by
  refine ⟨henabled, hroom.high, h.same.gpr, h.same.hi, h.same.lo, ?_, h.apart⟩
  show cpu.sr &&& ~~~0x2 = b.cpu.sr
  rw [h.same.sr]
  exact or_and_not (exl_of_enabled henabled)

/-- An instruction of `giet.s` during an interrupt. -/
theorem Handling.giet (hlay : lay.WellPlaced) (henabled : enabled b.cpu.sr = true)
    (hroom : lay.Room 100 (b.cpu.gpr 29)) (h : Handling lay b m) (hgiet : m.giet lay = some m') :
    (m.instr lay ≠ some .eret ∧ Handling lay b m') ∨
      m.instr lay = some .eret ∧ m'.pc = b.pc ∧ Scribbled lay b m'.cpu m'.mem := by
  cases h with
  | entry hcall hrun =>
      rcases hrun.step gietEntry_code with ⟨hpc, ht⟩ | ⟨-, heret, m₁, hm₁, hcall₁, -, hrun₁⟩
      · obtain ⟨hi, -⟩ := Machine.instr_at (k := 5) (by decide) hpc
        rw [Machine.giet_jr hi] at hgiet
        cases hgiet
        exact .inl ⟨by rw [hi]; decide, .dispatch hlay hroom hcall ht⟩
      · cases hm₁.symm.trans hgiet
        exact .inl ⟨heret, .entry (hcall₁.trans hcall) hrun₁⟩
  | save hcall hrun =>
      rcases hrun.step intSave_code with ⟨hpc, hcalled⟩ | ⟨-, heret, m₁, hm₁, hcall₁, -, hrun₁⟩
      · obtain ⟨hi, hsucc⟩ := Machine.instr_at (k := 55) (by decide) hpc
        rw [Machine.giet_jalr hi, hsucc] at hgiet
        cases hgiet
        exact .inl ⟨by rw [hi]; decide, .enter hlay hcalled _⟩
      · cases hm₁.symm.trans hgiet
        exact .inl ⟨heret, .save (hcall₁.trans hcall) hrun₁⟩
  | demux hpc _ _ _ _ _ =>
      rw [Machine.giet, Machine.instr_of_index hpc] at hgiet
      cases hgiet
  | restore hcall hrun =>
      rcases hrun.step intRestore_code with ⟨hpc, hresumed⟩ | ⟨-, heret, m₁, hm₁, hcall₁, -, hrun₁⟩
      · obtain ⟨hi, -⟩ := Machine.instr_at (k := 81) (by decide) hpc
        rw [Machine.giet_eret hi] at hgiet
        cases hgiet
        exact .inr ⟨hi, hresumed.same.epc, hresumed.scribbled henabled hroom⟩
      · cases hm₁.symm.trans hgiet
        exact .inl ⟨heret, .restore (hcall₁.trans hcall) hrun₁⟩

theorem Handling.exists_giet (h : Handling lay b m) (hpc : lay.index m.pc ≠ none) :
    ∃ m', m.giet lay = some m' := by
  cases h with
  | entry _ hrun =>
      rcases hrun.step gietEntry_code with ⟨hpc, -⟩ | ⟨-, -, m', hm', -⟩
      · exact ⟨_, Machine.giet_jr (Machine.instr_at (k := 5) (by decide) hpc).1⟩
      · exact ⟨m', hm'⟩
  | save _ hrun =>
      rcases hrun.step intSave_code with ⟨hpc, -⟩ | ⟨-, -, m', hm', -⟩
      · exact ⟨_, Machine.giet_jalr (Machine.instr_at (k := 55) (by decide) hpc).1⟩
      · exact ⟨m', hm'⟩
  | demux hpc' _ _ _ _ _ => exact absurd hpc' hpc
  | restore _ hrun =>
      rcases hrun.step intRestore_code with ⟨hpc, -⟩ | ⟨-, -, m', hm', -⟩
      · exact ⟨_, Machine.giet_eret (Machine.instr_at (k := 81) (by decide) hpc).1⟩
      · exact ⟨m', hm'⟩

/-- A function is called while the processor is not in `giet.s`. -/
theorem Handling.call_of_index (h : Handling lay b m) (hpc : lay.index m.pc = none) :
    ∃ c, m.call = some c := by
  cases h with
  | demux _ hcall _ _ _ _ => exact ⟨_, hcall⟩
  | entry _ hrun => exact absurd hpc (hrun.index_ne_none (by decide))
  | save _ hrun => exact absurd hpc (hrun.index_ne_none (by decide))
  | restore _ hrun => exact absurd hpc (hrun.index_ne_none (by decide))

/-- An instruction of the service routine. -/
theorem Handling.compute {pc : Word} {cpu : Cpu} {mem : Mem} (hlay : lay.WellPlaced)
    (hroom : lay.Room 100 (b.cpu.gpr 29)) (h : Handling lay b m) (hpc : lay.index m.pc = none)
    (hpc' : lay.index pc = none) (hsr' : cpu.sr = m.cpu.sr)
    (hmem : ∀ c, m.call = some c → ∀ a, ¬ lay.shared a → ¬ lay.Dead (c.gpr 29 + 16) a →
      mem a = m.mem a) :
    Handling lay b { m with pc := pc, cpu := cpu, mem := mem } := by
  cases h with
  | entry _ hrun => exact absurd hpc (hrun.index_ne_none (by decide))
  | save _ hrun => exact absurd hpc (hrun.index_ne_none (by decide))
  | restore _ hrun => exact absurd hpc (hrun.index_ne_none (by decide))
  | demux _ hcall hret hc hsr hstored =>
      have hbelow : (b.cpu.gpr 29 - 100 + 16).toNat ≤ (b.cpu.gpr 29).toNat := by
        have hlow := hroom.low
        bv_omega
      have hkeep := hmem _ hcall
      rw [hc.sp] at hkeep
      refine .demux hpc' hcall hret hc (hsr'.trans hsr)
        ⟨hstored.saved.agree fun offset hlo hlt => ?_, fun a ha hdead => ?_⟩
      · refine hkeep _ (frame_not_shared hlay hroom hlt) fun hdead => ?_
        have hlow := hroom.low
        have hlt := hdead.2
        bv_omega
      · refine (hkeep a ha fun hdead' => ?_).trans (hstored.apart a ha hdead)
        exact hdead ⟨hdead'.1, Nat.lt_of_lt_of_le hdead'.2 hbelow⟩

/-- The service routine has returned. -/
theorem Handling.ret {cpu : Cpu} (hlay : lay.WellPlaced) (hroom : lay.Room 100 (b.cpu.gpr 29))
    (h : Handling lay b m) (hcall : m.call = some c)
    (hkept : ∀ r, r = 29 ∨ r ∈ kept → cpu.gpr r = c.gpr r) (hsr' : cpu.sr = m.cpu.sr) :
    Handling lay b (m.back c cpu) := by
  cases h with
  | entry hcall' _ => cases hcall.symm.trans hcall'
  | save hcall' _ => cases hcall.symm.trans hcall'
  | restore hcall' _ => cases hcall.symm.trans hcall'
  | demux _ hcall' hret hc hsr hstored =>
      obtain rfl : c = _ := Option.some.inj (hcall.symm.trans hcall')
      have hsr₁ : (m.back c cpu).cpu.sr = b.masked.sr := hsr'.trans hsr
      refine .restore rfl (.start hret ?_)
      refine leads_intRestore (b := b.masked) (by rw [hsr₁]; exact enabled_or _) hroom
        ((hkept 29 (.inl rfl)).trans hc.sp) (fun a ha => hlay.stack_shared a (ha.stack hroom.high))
        hstored.saved (fun r hr => (hkept r (.inr hr)).trans (hc.kept r hr)) hsr₁
        fun c' hsame => ⟨hsame, hstored.apart⟩

theorem Handling.share {a v : Word} (hlay : lay.WellPlaced)
    (hroom : lay.Room 100 (b.cpu.gpr 29)) (h : Handling lay b m) (ha : lay.shared a) :
    Handling lay b { m with mem := Function.update m.mem a v } := by
  cases h with
  | entry hcall hrun =>
      exact .entry hcall (hrun.share ha fun _ _ _ hm ht => { ht with apart := ht.apart.share hm })
  | save hcall hrun =>
      exact .save hcall (hrun.share ha fun _ _ _ hm hcalled =>
        { hcalled with stored := hcalled.stored.share hlay hroom hm })
  | demux hpc hcall hret hc hsr hstored =>
      refine .demux hpc hcall hret hc hsr (hstored.share hlay hroom fun b hb => ?_)
      exact Function.update_of_ne (fun heq => by rw [heq] at hb; exact hb ha) ..
  | restore hcall hrun =>
      exact .restore hcall (hrun.share ha fun _ _ _ hm hresumed =>
        { hresumed with apart := hresumed.apart.share hm })

/-! ## The processor -/

/-- What the processor is doing. -/
inductive Inv (lay : Layout) (s : State) : Prop where
  | program (hs : s.interrupted = none) (hmode : Mode lay s.machine)
  | interrupt {b : Machine} (hs : s.interrupted = some b) (hmode : Mode lay b)
      (henabled : enabled b.cpu.sr = true) (hroom : lay.Room 100 (b.cpu.gpr 29))
      (hhandling : Handling lay b s.machine)

variable {s s' : State} {e : Step}

/-- What a program sees of a step: one of its own, or nothing, or at the end of an interrupt
what has changed meanwhile. -/
def Seen (lay : Layout) (s : State) (e : Step) (s' : State) : Prop :=
  (outside lay (s, e) = none ∧ s'.visible = s.visible) ∨
    ∃ k, outside lay (s, e) = some (s.visible, k) ∧ (quiet lay).step s.visible k s'.visible

/-- A step of a processor that is not interrupted. -/
theorem Mode.step (hlay : lay.WellPlaced) (hs : s.interrupted = none) (hmode : Mode lay s.machine)
    (hlegal : s.Legal lay e) (hnext : s.next lay e = some s') :
    Inv lay s' ∧ Seen lay s e s' := by
  have hvisible : s.visible = s.machine := by
    rw [State.visible, hs]
    rfl
  cases e with
  | plain e =>
      obtain ⟨m', hm', heq⟩ := Option.map_eq_some_iff.mp hnext
      rw [hs] at heq
      cases heq
      refine ⟨.program rfl (hmode.next hlay hlegal.1 hm'), .inr ⟨.plain e, ?_, ?_⟩⟩
      · rw [outside, hs, hvisible]
      · rw [hvisible]
        exact ⟨hlegal.1, hm'⟩
  | interrupt cause =>
      obtain ⟨henabled, heq⟩ := Option.ite_none_right_eq_some.mp hnext
      cases heq
      obtain ⟨hcause, hroom⟩ := hlegal
      refine ⟨.interrupt rfl hmode henabled hroom (.interrupt hlay
        (hmode.consts_of_enabled henabled) hcause), .inl ⟨?_, hvisible.symm⟩⟩
      rw [outside, hs]

/-- An `eret` of an interrupt, or another instruction of `giet.s`. -/
theorem Handling.stepGiet (hlay : lay.WellPlaced) (hs : s.interrupted = some b)
    (hmode : Mode lay b) (henabled : enabled b.cpu.sr = true)
    (hroom : lay.Room 100 (b.cpu.gpr 29)) (h : Handling lay b s.machine)
    (hnext : s.next lay (.plain .giet) = some s') :
    Inv lay s' ∧ Seen lay s (.plain .giet) s' := by
  have hvisible : s.visible = b := by
    rw [State.visible, hs]
    rfl
  obtain ⟨m', hm', heq⟩ := Option.map_eq_some_iff.mp hnext
  have hgiet : s.machine.giet lay = some m' := hm'
  rw [hs] at heq
  rcases h.giet hlay henabled hroom hgiet with ⟨hi, hhandling⟩ | ⟨hi, hpc, hscribbled⟩
  · have heq : ⟨m', some b⟩ = s' := (if_neg hi).symm.trans heq
    subst heq
    refine ⟨.interrupt rfl hmode henabled hroom hhandling, .inl ⟨?_, hvisible.symm⟩⟩
    rw [outside, hs]
    exact if_neg hi
  · have heq : ⟨{ m' with call := b.call, trapped := b.trapped }, none⟩ = s' :=
      (if_pos hi).symm.trans heq
    subst heq
    have hend : { m' with call := b.call, trapped := b.trapped } =
        { b with cpu := m'.cpu, mem := m'.mem } := by rw [hpc]
    refine ⟨.program rfl ?_, .inr ⟨.scribble m'.cpu m'.mem, ?_, ?_⟩⟩
    · rw [hend]
      exact hmode.scribble hlay hscribbled
    · rw [outside, hs, hvisible]
      refine (if_pos hi).trans ?_
      rw [hgiet]
      rfl
    · rw [hvisible]
      exact ⟨hscribbled, hend⟩

theorem Inv.step (hlay : lay.WellPlaced) (h : Inv lay s) (hlegal : s.Legal lay e)
    (hnext : s.next lay e = some s') : Inv lay s' ∧ Seen lay s e s' := by
  cases h with
  | program hs hmode => exact hmode.step hlay hs hlegal hnext
  | @interrupt b hs hmode henabled hroom hhandling =>
      have hseen {e : Step} {m : Machine} (hout : outside lay (s, e) = none) :
          Seen lay s e ⟨m, some b⟩ := by
        refine .inl ⟨hout, ?_⟩
        rw [State.visible, State.visible, hs]
        rfl
      have hsome : s.interrupted.isSome = true := by rw [hs]; rfl
      cases e with
      | interrupt cause =>
          obtain ⟨henabled', -⟩ := Option.ite_none_right_eq_some.mp hnext
          cases hhandling.disabled.symm.trans henabled'
      | plain e =>
          have hnext' := hnext
          obtain ⟨hplain, hroutine⟩ := hlegal
          obtain ⟨m', hm', heq⟩ := Option.map_eq_some_iff.mp hnext
          rw [hs] at heq
          cases e with
          | giet => exact hhandling.stepGiet hlay hs hmode henabled hroom hnext'
          | compute pc cpu mem =>
              obtain ⟨hpc, hm'⟩ := Option.ite_none_right_eq_some.mp hm'
              cases hm'
              cases heq
              obtain ⟨hsr, hmem⟩ := hroutine hsome
              exact ⟨.interrupt rfl hmode henabled hroom
                (hhandling.compute hlay hroom hpc hplain.1 hsr hmem), hseen (by rw [outside, hs])⟩
          | ret cpu =>
              obtain ⟨-, hm'⟩ := Option.ite_none_right_eq_some.mp hm'
              obtain ⟨c, hcall, rfl⟩ := Option.map_eq_some_iff.mp hm'
              cases heq
              exact ⟨.interrupt rfl hmode henabled hroom
                (hhandling.ret hlay hroom hcall (hplain c hcall) (hroutine hsome)),
                hseen (by rw [outside, hs])⟩
          | trap cause =>
              obtain ⟨hpc, -⟩ := Option.ite_none_right_eq_some.mp hm'
              obtain ⟨c, hcall⟩ := hhandling.call_of_index hpc
              cases hplain.1.symm.trans hcall
          | share a v =>
              cases hm'
              cases heq
              exact ⟨.interrupt rfl hmode henabled hroom (hhandling.share hlay hroom hplain),
                hseen (by rw [outside, hs])⟩

theorem inv_of_reachable (hlay : lay.WellPlaced) (h : (processor lay).Reachable s) : Inv lay s := by
  refine h.invariant (fun s hstart => ?_) fun s e s' hinv hstep => ?_
  · obtain ⟨⟨hpc, hcall, htrap, hconsts⟩, hs⟩ := hstart
    exact .program hs (.program hpc hcall hconsts fun t ht => nomatch htrap.symm.trans ht)
  · exact (hinv.step hlay hstep.1 hstep.2).1

/-! ## What a program sees -/

/-- Every run of the processor is, without its interrupts, a run of the processor without
interrupts, and the processor can always execute the instruction of the handlers it is at.  The
steps of a run are `Legal`: the stack is aligned and has room for the frames of the handlers, and
a service routine leaves the status register alone. -/
theorem quiet_path (hlay : lay.WellPlaced) {steps : List (State × Step)}
    (h : (processor lay).Path steps s) :
    (quiet lay).Path (steps.filterMap (outside lay)) s.visible ∧
      (lay.index s.machine.pc ≠ none → ∃ s', s.next lay (.plain .giet) = some s') := by
  refine ⟨h.stutter (T := quiet lay) (f := State.visible) (fun s hstart => ?_)
    fun s e s' hs hstep => ?_, fun hpc => ?_⟩
  · obtain ⟨hstart, hs⟩ := hstart
    rw [State.visible, hs]
    exact hstart
  · exact ((inv_of_reachable hlay hs).step hlay hstep.1 hstep.2).2
  · have hgiet : ∃ m', s.machine.giet lay = some m' := by
      cases inv_of_reachable hlay h.reachable with
      | program _ hmode => exact hmode.exists_giet hpc
      | interrupt _ _ _ _ hhandling => exact hhandling.exists_giet hpc
    obtain ⟨m', hm'⟩ := hgiet
    exact ⟨_, Option.map_eq_some_iff.mpr ⟨m', hm', rfl⟩⟩

/-- A system call comes back behind the `syscall`, with the result of the function of its number,
called with its arguments, and with the registers a function keeps, whatever has interrupted it. -/
theorem system_call_returns (hlay : lay.WellPlaced) (h : (processor lay).Reachable s)
    (hs : s.interrupted = none) (ht : s.machine.trapped = some t)
    (hnext : s.next lay (.plain .giet) = some s') (hback : s'.machine.trapped = none) :
    t.cause &&& 0x3c = 32 ∧ s'.machine.pc = t.pc + 4 ∧ s'.machine.cpu.sr = t.cpu.sr ∧
      (∀ r, r = 29 ∨ r ∈ kept → s'.machine.cpu.gpr r = t.cpu.gpr r) ∧
      ∃ c, t.returned = some (c, s'.machine.cpu.gpr 2) ∧
        c.f = lay.syscall (t.cpu.gpr 2 &&& 0x1F) ∧ ∀ r ∈ [4, 5, 6, 7], c.gpr r = t.cpu.gpr r := by
  have hmode : Mode lay s.machine := by
    cases inv_of_reachable hlay h with
    | program _ hmode => exact hmode
    | interrupt hs' _ _ _ _ => cases hs.symm.trans hs'
  obtain ⟨m', hm', heq⟩ := Option.map_eq_some_iff.mp hnext
  rw [hs] at heq
  cases heq
  obtain ⟨hok, hcause, c, v, hc, hreturned, hl, rfl⟩ := hmode.eret ht hm' hback
  refine ⟨hcause, hl.epc, ?_, fun r hr => ?_, c, ?_, hc.f, hc.args.args⟩
  · show s.machine.cpu.sr &&& ~~~0x2 = t.cpu.sr
    rw [hl.sr]
    exact or_and_not hok.exl
  · rcases hr with rfl | hr
    · exact hl.sp
    · exact hl.kept r hr
  · rw [hreturned, ← hl.result]

end Handling

/-! ## An interrupted system call -/

instance (lay : Layout) (n : Nat) (sp : Word) : Decidable (lay.Room n sp) :=
  decidable_of_iff (sp &&& 3 = 0 ∧ lay.low.toNat + n ≤ sp.toNat ∧ sp.toNat ≤ lay.high.toNat)
    ⟨fun ⟨h, h', h''⟩ => ⟨h, h', h''⟩, fun ⟨h, h', h''⟩ => ⟨h, h', h''⟩⟩

/-- The promises of a step in which no function computes, as far as they can be computed. -/
def lawful (lay : Layout) (s : State) : Step → Bool
  | .plain .giet => true
  | .plain (.ret cpu) =>
      cpu.sr = s.machine.cpu.sr &&
        s.machine.call.all fun c => (29 :: kept).all fun r => cpu.gpr r = c.gpr r
  | .plain (.trap cause) =>
      s.machine.call.isNone && s.machine.trapped.isNone && s.machine.cpu.sr &&& 2 = 0 &&
        cause &&& 0x3c ≠ 0 && (lay.index (s.machine.pc + 4)).isNone &&
        decide (lay.Room 24 (s.machine.cpu.gpr 29))
  | .interrupt cause => cause &&& 0x3c = 0 && decide (lay.Room 100 (s.machine.cpu.gpr 29))
  | _ => false

theorem legal_of_lawful {lay : Layout} {s : State} {e : Step} (h : lawful lay s e = true) :
    s.Legal lay e := by
  cases e with
  | interrupt cause => simpa [lawful, State.Legal] using h
  | plain e =>
      cases e with
      | giet => exact ⟨trivial, fun _ => trivial⟩
      | ret cpu =>
          obtain ⟨hsr, hall⟩ := Bool.and_eq_true_iff.mp h
          refine ⟨fun c hcall r hr => ?_, fun _ => of_decide_eq_true hsr⟩
          rw [hcall] at hall
          exact of_decide_eq_true (List.all_eq_true.mp hall r (List.mem_cons.mpr hr))
      | trap cause =>
          refine ⟨?_, fun _ => trivial⟩
          simpa [lawful, Machine.Legal, and_assoc] using h
      | compute | share => cases h

/-- A step with its promises kept. -/
def lawfulNext (lay : Layout) (s : State) (f : State → Step) : Option State :=
  if lawful lay s (f s) then s.next lay (f s) else none

theorem lawfulNext_step {lay : Layout} (s : State) (f : State → Step) (s' : State)
    (h : lawfulNext lay s f = some s') : (processor lay).step s (f s) s' := by
  obtain ⟨hlawful, hnext⟩ := Option.ite_none_right_eq_some.mp h
  exact ⟨legal_of_lawful hlawful, hnext⟩

/-- A kernel with one function for system calls, and a stack of 64 KiB. -/
def small : Layout where
  addr k := 0x80000180 + 4 * BitVec.ofNat 32 k
  addr_zero := rfl
  addr_injective := by
    intro j hj k hk h
    have hlen : giet.length = 82 := rfl
    rw [hlen] at hj hk
    bv_omega
  causeVector := 0x80010000
  syscallVector := 0x80010100
  causeVector_aligned := rfl
  syscallVector_aligned := rfl
  intDemux := 0x80020000
  syscall _ := 0x80030000
  fault _ := 0x80040000
  low := 0x02000000
  high := 0x02010000
  shared a := a = 0x80050000

theorem and_le (a b : Word) : (a &&& b).toNat ≤ b.toNat := by
  rw [BitVec.toNat_and]
  exact Nat.and_le_right

theorem small_isConst {a : Word} (h : small.IsConst a) :
    0x80010000 ≤ a.toNat ∧ a.toNat < 0x80020000 := by
  rcases h with ⟨x, rfl⟩ | ⟨n, rfl⟩
  · have hle := and_le x 0x3c
    have hbase : small.causeVector = 0x80010000 := rfl
    rw [hbase]
    bv_omega
  · have hle := and_le n 0x1F
    have hbase : small.syscallVector = 0x80010100 := rfl
    rw [hbase]
    bv_omega

theorem small_wellPlaced : small.WellPlaced where
  stack_shared a ha hshared := by
    obtain rfl : a = 0x80050000 := hshared
    exact absurd ha.2 (by decide)
  const_shared a ha hshared := by
    obtain rfl : a = 0x80050000 := hshared
    exact absurd (small_isConst ha).2 (by decide)
  const_stack a ha hstack := by
    have hlo := (small_isConst ha).1
    have hhi : a.toNat < 0x02010000 := hstack.2
    omega
  intDemux := by decide
  syscall _ := show small.index 0x80030000 = none by decide
  fault _ := show small.index 0x80040000 = none by decide

/-- A program with its stack pointer at the top, which has a number in `$2`. -/
def smallStart : State where
  machine :=
    { pc := 0x00400000
      cpu := ⟨fun r => if r = 29 then 0x02010000 else BitVec.ofNat 32 r, 7, 8, 0xFF11, 0, 0⟩
      mem a := if a.toNat < 0x80010100 then small.cause (a - 0x80010000) else 0x80030000
      call := none
      trapped := none }
  interrupted := none

theorem smallStart_init : (processor small).init smallStart := by
  refine ⟨⟨by decide, rfl, rfl, fun x => ?_, fun n => ?_⟩, rfl⟩
  · have hle := and_le x 0x3c
    have hbase : small.causeVector = 0x80010000 := rfl
    have hlt : (small.causeVector + (x &&& 0x3c)).toNat < 0x80010100 := by
      rw [hbase]
      bv_omega
    refine (if_pos hlt).trans (congrArg small.cause ?_)
    rw [hbase]
    bv_omega
  · have hle := and_le n 0x1F
    have hbase : small.syscallVector = 0x80010100 := rfl
    refine if_neg ?_
    rw [hbase]
    bv_omega

/-- A function returns at once. -/
def returns (v : Word) (s : State) : Step := .plain (.ret (s.machine.cpu.set 2 v))

/-- The program makes a system call, whose function is interrupted. -/
def smallSteps : List (State → Step) :=
  (fun _ => .plain (.trap 32)) :: List.replicate 22 (fun _ => .plain .giet) ++
    (fun _ => .interrupt 0) :: List.replicate 33 (fun _ => .plain .giet) ++
    returns 0 :: List.replicate 26 (fun _ => .plain .giet) ++
    returns 5 :: List.replicate 6 (fun _ => .plain .giet)

theorem smallRun : ∃ s, (processor small).Reachable s ∧
    (s.interrupted.isNone && s.machine.trapped.any (fun t => t.pc = 0x00400000) &&
      (s.next small (.plain .giet)).any fun s' => s'.machine.trapped.isNone) = true := by
  refine System.exists_exec_choice lawfulNext_step smallStart_init (l := smallSteps) ?_
  decide +kernel

theorem quiet_path_small : ∃ steps s, (processor small).Path steps s ∧
    s.machine.trapped.any (fun t => t.pc = 0x00400000) = true ∧
    (quiet small).Path (steps.filterMap (outside small)) s.visible ∧
      (small.index s.machine.pc ≠ none → ∃ s', s.next small (.plain .giet) = some s') := by
  obtain ⟨s, hs, htest⟩ := smallRun
  obtain ⟨steps, hpath⟩ := hs.path
  simp only [Bool.and_eq_true] at htest
  exact ⟨steps, s, hpath, htest.1.2, quiet_path small_wellPlaced hpath⟩

theorem system_call_returns_small : ∃ s s' t, (processor small).Reachable s ∧
    s.machine.trapped = some t ∧ s.next small (.plain .giet) = some s' ∧ t.pc = 0x00400000 ∧
    (t.cause &&& 0x3c = 32 ∧ s'.machine.pc = t.pc + 4 ∧ s'.machine.cpu.sr = t.cpu.sr ∧
      (∀ r, r = 29 ∨ r ∈ kept → s'.machine.cpu.gpr r = t.cpu.gpr r) ∧
      ∃ c, t.returned = some (c, s'.machine.cpu.gpr 2) ∧
        c.f = small.syscall (t.cpu.gpr 2 &&& 0x1F) ∧
        ∀ r ∈ [4, 5, 6, 7], c.gpr r = t.cpu.gpr r) := by
  obtain ⟨s, hs, htest⟩ := smallRun
  simp only [Bool.and_eq_true] at htest
  obtain ⟨⟨hint, htrap⟩, hnext⟩ := htest
  obtain ⟨t, ht, hpc⟩ := (Option.any_eq_true _ _).mp htrap
  obtain ⟨s', hs', hback⟩ := (Option.any_eq_true _ _).mp hnext
  exact ⟨s, s', t, hs, ht, hs', of_decide_eq_true hpc, system_call_returns small_wellPlaced hs
    (Option.isNone_iff_eq_none.mp hint) ht hs' (Option.isNone_iff_eq_none.mp hback)⟩

end SmcTp.Giet.Handlers
