import SmcTp.Giet.Handlers

/-!
# System calls on a processor

A system call enters the GIET at `_giet` and comes to `_sys_handler`, which saves SR and the
return address on the stack, enables interrupts and calls the function of the number in `$2`
with the arguments in `$4` to `$7`.  When the function has returned it disables interrupts and
leaves.

What an interrupt does to all this is stated without interrupts: on the processor `quiet`, `$26`,
`$27`, `EPC`, `CAUSE`, the stack below `$29` and the shared memory may change at any time
interrupts are enabled.  `Mode` says what such a processor is doing.  Interrupts may change
nothing that matters: at the two instructions of the handler at which they are enabled, `$26` and
`$27` are not in use and what the handler needs is above `$29`.
-/

namespace SmcTp.Giet.Handlers

open Boot (enabled)
open Clocked Programs

/-! ## The processor without interrupts -/

/-- What may change while a program can be interrupted. -/
structure Scribbled (lay : Layout) (m : Machine) (cpu : Cpu) (mem : Mem) : Prop where
  enabled : enabled m.cpu.sr = true
  stack : (m.cpu.gpr 29).toNat ≤ lay.high.toNat
  gpr : ∀ r, 0 < r → r < 32 → r ≠ 26 → r ≠ 27 → cpu.gpr r = m.cpu.gpr r
  hi : cpu.hi = m.cpu.hi
  lo : cpu.lo = m.cpu.lo
  sr : cpu.sr = m.cpu.sr
  mem : ∀ a, ¬ lay.shared a → ¬ lay.Dead (m.cpu.gpr 29) a → mem a = m.mem a

/-- What happens on a processor without interrupts. -/
inductive Quiet where
  | plain (e : Event)
  | scribble (cpu : Cpu) (mem : Mem)

/-- The processor without interrupts. -/
def quiet (lay : Layout) : System Machine Quiet where
  init := State.Start lay
  step m e m' :=
    match e with
    | .plain e => m.Legal lay e ∧ m.next lay e = some m'
    | .scribble cpu mem => Scribbled lay m cpu mem ∧ m' = { m with cpu := cpu, mem := mem }

/-! ## A program in the GIET -/

section Modes

variable {lay : Layout} {m m' b : Machine} {t : Trap} {c : Call}

/-- The registers at the entry point. -/
def Trap.raised (t : Trap) : Cpu :=
  { t.cpu with sr := t.cpu.sr ||| 0x2, cause := t.cause, epc := t.pc }

/-- The promises of the program were kept when it entered. -/
structure Trap.Ok (lay : Layout) (t : Trap) : Prop where
  exl : t.cpu.sr &&& 2 = 0
  cause : t.cause &&& 0x3c ≠ 0
  next : lay.index (t.pc + 4) = none
  room : lay.Room 24 (t.cpu.gpr 29)

/-- The frame of `_sys_handler`. -/
structure Frame (t : Trap) (m : Mem) : Prop where
  sr : m (t.cpu.gpr 29 - 24 + 16) = t.cpu.sr ||| 0x2
  epc : m (t.cpu.gpr 29 - 24 + 20) = t.pc + 4

/-- `_giet` has found the entry of the cause. -/
structure Dispatched (lay : Layout) (t : Trap) (c : Cpu) (m : Mem) : Prop where
  target : c.gpr 26 = lay.cause (t.cause &&& 0x3c)
  same : Same t.raised c
  consts : lay.Consts m

/-- The registers a function is called with, or has been. -/
structure Args (lay : Layout) (t : Trap) (gpr : Nat → Word) : Prop where
  args : ∀ r ∈ [4, 5, 6, 7], gpr r = t.cpu.gpr r
  sp : gpr 29 = t.cpu.gpr 29 - 24
  kept : ∀ r ∈ kept, gpr r = t.cpu.gpr r

/-- `_sys_handler` is about to call the function. -/
structure Ready (lay : Layout) (t : Trap) (c : Cpu) (m : Mem) : Prop where
  f : c.gpr 3 = lay.syscall (t.cpu.gpr 2 &&& 0x1F)
  args : Args lay t c.gpr
  frame : Frame t m
  consts : lay.Consts m

/-- The call of the function of the system call. -/
structure Served (lay : Layout) (t : Trap) (c : Call) : Prop where
  f : c.f = lay.syscall (t.cpu.gpr 2 &&& 0x1F)
  ret : c.ret = lay.addr 22
  args : Args lay t c.gpr

/-- `_sys_handler` is about to leave. -/
structure Leaving (lay : Layout) (t : Trap) (v : Word) (c : Cpu) (m : Mem) : Prop where
  sr : c.sr = t.cpu.sr ||| 0x2
  epc : c.epc = t.pc + 4
  sp : c.gpr 29 = t.cpu.gpr 29
  kept : ∀ r ∈ kept, c.gpr r = t.cpu.gpr r
  result : c.gpr 2 = v
  consts : lay.Consts m

/-- What a processor that is not interrupted is doing. -/
inductive Mode (lay : Layout) (m : Machine) : Prop where
  /-- A program, or a function that does not come back. -/
  | program (hpc : lay.index m.pc = none) (hcall : m.call = none) (hconsts : lay.Consts m.mem)
      (htrap : ∀ t, m.trapped = some t → t.cause &&& 0x3c ≠ 32)
  /-- `_giet` -/
  | entry {t : Trap} (hcall : m.call = none) (htrap : m.trapped = some t) (hok : t.Ok lay)
      (hrun : Running lay 0 gietEntry (Dispatched lay t) m)
  /-- `_sys_handler` up to its `jalr` -/
  | save {t : Trap} (hcall : m.call = none) (htrap : m.trapped = some t) (hok : t.Ok lay)
      (hcause : t.cause &&& 0x3c = 32) (hrun : Running lay 6 sysSave (Ready lay t) m)
  /-- The function. -/
  | call {t : Trap} {c : Call} (hpc : lay.index m.pc = none) (hcall : m.call = some c)
      (htrap : m.trapped = some t) (hok : t.Ok lay) (hcause : t.cause &&& 0x3c = 32)
      (hc : Served lay t c) (hsp : (m.cpu.gpr 29).toNat ≤ (c.gpr 29).toNat)
      (hframe : Frame t m.mem) (hconsts : lay.Consts m.mem)
  /-- `mtc0 $0, $12` -/
  | returned {t : Trap} {c : Call} (hpc : m.pc = lay.addr 22) (hcall : m.call = none)
      (htrap : m.trapped = some t) (hok : t.Ok lay) (hcause : t.cause &&& 0x3c = 32)
      (hc : Served lay t c) (hreturned : t.returned = some (c, m.cpu.gpr 2))
      (hkept : ∀ r, r = 29 ∨ r ∈ kept → m.cpu.gpr r = c.gpr r) (hframe : Frame t m.mem)
      (hconsts : lay.Consts m.mem)
  /-- `_sys_handler` from there on -/
  | restore {t : Trap} {c : Call} {v : Word} (hcall : m.call = none) (htrap : m.trapped = some t)
      (hok : t.Ok lay) (hcause : t.cause &&& 0x3c = 32) (hc : Served lay t c)
      (hreturned : t.returned = some (c, v)) (hrun : Running lay 23 sysRestore (Leaving lay t v) m)

/-! ## The memory -/

theorem Layout.Consts.agree {mem mem' : Mem} (h : lay.Consts mem)
    (hsame : ∀ a, lay.IsConst a → mem' a = mem a) : lay.Consts mem' :=
  ⟨fun x => (hsame _ (.inl ⟨x, rfl⟩)).trans (h.cause x),
    fun n => (hsame _ (.inr ⟨n, rfl⟩)).trans (h.syscall n)⟩

theorem Frame.agree {mem mem' : Mem} (h : Frame t mem)
    (h16 : mem' (t.cpu.gpr 29 - 24 + 16) = mem (t.cpu.gpr 29 - 24 + 16))
    (h20 : mem' (t.cpu.gpr 29 - 24 + 20) = mem (t.cpu.gpr 29 - 24 + 20)) : Frame t mem' :=
  ⟨h16.trans h.sr, h20.trans h.epc⟩

theorem Layout.Dead.stack {sp a : Word} (h : lay.Dead sp a) (hsp : sp.toNat ≤ lay.high.toNat) :
    lay.Stack a :=
  ⟨h.1, Nat.lt_of_lt_of_le h.2 hsp⟩

/-- The frame of `_sys_handler` is on the stack, above the stack of the function. -/
theorem Trap.Ok.frame (hok : t.Ok lay) {offset : Word} (hlo : 16 ≤ offset.toNat)
    (hhi : offset.toNat < 24) :
    lay.Stack (t.cpu.gpr 29 - 24 + offset) ∧
      ∀ sp : Word, sp.toNat ≤ (t.cpu.gpr 29 - 24).toNat →
        ¬ lay.Dead sp (t.cpu.gpr 29 - 24 + offset) := by
  have hroom := hok.room
  refine ⟨(hroom.dead hhi).stack hroom.high, fun sp hsp hdead => ?_⟩
  have hlow := hroom.low
  have hlt := hdead.2
  bv_omega

theorem Dispatched.agree {cpu : Cpu} {mem mem' : Mem} (hlay : lay.WellPlaced)
    (hm : AgreeOn (fun a => ¬ lay.shared a) mem mem') (h : Dispatched lay t cpu mem) :
    Dispatched lay t cpu mem' :=
  ⟨h.target, h.same, h.consts.agree fun a ha => hm a (hlay.const_shared a ha)⟩

theorem Frame.share {mem mem' : Mem} (hlay : lay.WellPlaced) (hok : t.Ok lay)
    (hm : AgreeOn (fun a => ¬ lay.shared a) mem mem') (h : Frame t mem) : Frame t mem' :=
  h.agree (hm _ (hlay.stack_shared _ (hok.frame (by decide) (by decide)).1))
    (hm _ (hlay.stack_shared _ (hok.frame (by decide) (by decide)).1))

theorem Ready.agree {cpu : Cpu} {mem mem' : Mem} (hlay : lay.WellPlaced) (hok : t.Ok lay)
    (hm : AgreeOn (fun a => ¬ lay.shared a) mem mem') (h : Ready lay t cpu mem) :
    Ready lay t cpu mem' :=
  ⟨h.f, h.args, h.frame.share hlay hok hm,
    h.consts.agree fun a ha => hm a (hlay.const_shared a ha)⟩

theorem Leaving.agree {v : Word} {cpu : Cpu} {mem mem' : Mem} (hlay : lay.WellPlaced)
    (hm : AgreeOn (fun a => ¬ lay.shared a) mem mem') (h : Leaving lay t v cpu mem) :
    Leaving lay t v cpu mem' :=
  { h with consts := h.consts.agree fun a ha => hm a (hlay.const_shared a ha) }

/-! ## One instruction of the handlers -/

theorem gietEntry_code : gietEntry <+: Handlers.giet.drop 0 := by decide
theorem sysSave_code : sysSave <+: Handlers.giet.drop 6 := by decide
theorem sysRestore_code : sysRestore <+: Handlers.giet.drop 23 := by decide

/-- `_giet` comes to the handler of the cause. -/
theorem Mode.dispatch (hlay : lay.WellPlaced) (hcall : m.call = none) (htrap : m.trapped = some t)
    (hok : t.Ok lay) (hd : Dispatched lay t m.cpu m.mem) :
    Mode lay { m with pc := m.cpu.reg 26 } := by
  have hpc : m.cpu.reg 26 = lay.cause (t.cause &&& 0x3c) := hd.target
  rw [hpc, Layout.cause, if_neg hok.cause]
  split
  next h32 =>
    refine .save hcall htrap hok h32 (.start rfl ?_)
    have hsp : m.cpu.gpr 29 = t.cpu.gpr 29 :=
      hd.same.gpr 29 (by decide) (by decide) (by decide) (by decide)
    have hnumber : m.cpu.gpr 2 = t.cpu.gpr 2 :=
      hd.same.gpr 2 (by decide) (by decide) (by decide) (by decide)
    have hsr : m.cpu.sr = t.cpu.sr ||| 0x2 := hd.same.sr
    have hepc : m.cpu.epc = t.pc := hd.same.epc
    have hroom : lay.Room 24 (m.cpu.gpr 29) := hsp ▸ hok.room
    refine leads_sysSave (by rw [hsr, enabled_or]) hroom (fun a ha => ?_)
      (hlay.const_shared _ (.inr ⟨_, rfl⟩)) ?_ fun c' mem' hf hsp' hkeep h16 h20 hmem => ?_
    · exact hlay.stack_shared a (ha.stack hroom.high)
    · exact aligned_add lay.syscallVector_aligned (aligned_shl _)
    · rw [hsp] at hsp' h16 h20
      rw [hsr] at h16
      rw [hepc] at h20
      have hconsts : lay.Consts mem' := hd.consts.agree fun a ha =>
        hmem a fun hdead => hlay.const_stack a ha (hdead.stack hroom.high)
      have hregs {r : Nat} (hr : r ∈ [4, 5, 6, 7] ∨ r ∈ kept) : c'.gpr r = t.cpu.gpr r := by
        have hall : ∀ r, r ∈ [4, 5, 6, 7] ∨ r ∈ kept →
            r ≠ 3 ∧ r ≠ 26 ∧ r ≠ 27 ∧ r ≠ 29 ∧ 0 < r ∧ r < 32 := by
          rintro r (hr | hr) <;> revert r <;> decide
        obtain ⟨h3, h26, h27, h29, hpos, hlt⟩ := hall r hr
        rw [hkeep r h3 h26 h27 h29]
        exact hd.same.gpr r hpos hlt h26 h27
      refine ⟨?_, ⟨fun r hr => hregs (.inl hr), hsp', fun r hr => hregs (.inr hr)⟩, ⟨h16, h20⟩,
        hconsts⟩
      rw [hf, hnumber]
      exact hconsts.syscall _
  next h32 =>
    refine .program (hlay.fault _) hcall hd.consts fun t' ht' => ?_
    rw [Option.some.inj (ht'.symm.trans htrap)]
    exact h32

/-- `_sys_handler` calls the function. -/
theorem Mode.enter (hlay : lay.WellPlaced) (htrap : m.trapped = some t) (hok : t.Ok lay)
    (hcause : t.cause &&& 0x3c = 32) (hready : Ready lay t m.cpu m.mem) (v : Word) :
    Mode lay { m with
      pc := m.cpu.reg 3
      cpu := m.cpu.set 31 v
      call := some ⟨m.cpu.reg 3, m.cpu.gpr, lay.addr 22⟩ } := by
  have hf : m.cpu.reg 3 = lay.syscall (t.cpu.gpr 2 &&& 0x1F) := hready.f
  refine .call (c := ⟨m.cpu.reg 3, m.cpu.gpr, lay.addr 22⟩) ?_ rfl htrap hok hcause
    ⟨hf, rfl, hready.args⟩ ?_ hready.frame hready.consts
  · rw [hf]
    exact hlay.syscall _
  · show ((m.cpu.set 31 v).gpr 29).toNat ≤ (m.cpu.gpr 29).toNat
    rw [Cpu.set_gpr_of_ne _ _ (by decide)]

/-- `_sys_handler` disables interrupts and leaves. -/
theorem Mode.leave (hlay : lay.WellPlaced) (hcall : m.call = none) (htrap : m.trapped = some t)
    (hok : t.Ok lay) (hcause : t.cause &&& 0x3c = 32) (hc : Served lay t c)
    (hreturned : t.returned = some (c, m.cpu.gpr 2))
    (hkept : ∀ r, r = 29 ∨ r ∈ kept → m.cpu.gpr r = c.gpr r) (hframe : Frame t m.mem)
    (hconsts : lay.Consts m.mem) :
    Mode lay { m with pc := lay.addr 23, cpu := { m.cpu with sr := 0 } } := by
  refine .restore hcall htrap hok hcause hc hreturned (.start rfl ?_)
  have hsr : enabled 0 = false := rfl
  refine leads_sysRestore hsr hok.room ((hkept 29 (.inl rfl)).trans hc.args.sp) (fun a ha => ?_) ?_
    fun c' hsr' hepc hsp hkeep => ⟨hsr'.trans hframe.sr, hepc.trans hframe.epc, hsp, fun r hr => ?_,
      hkeep 2 (by decide) (by decide), hconsts⟩
  · exact hlay.stack_shared a (ha.stack hok.room.high)
  · rw [hframe.sr, enabled_or]
  · have hr' : r ≠ 26 ∧ r ≠ 29 := by
      revert r
      decide
    rw [hkeep r hr'.1 hr'.2, ← hc.args.kept r hr]
    exact hkept r (.inr hr)

/-- An instruction of `giet.s`. -/
theorem Mode.giet (hlay : lay.WellPlaced) (h : Mode lay m) (hgiet : m.giet lay = some m') :
    Mode lay m' := by
  cases h with
  | program hpc _ _ _ =>
      rw [Machine.giet, Machine.instr_of_index hpc] at hgiet
      cases hgiet
  | call hpc _ _ _ _ _ _ _ _ =>
      rw [Machine.giet, Machine.instr_of_index hpc] at hgiet
      cases hgiet
  | entry hcall htrap hok hrun =>
      rcases hrun.step gietEntry_code with ⟨hpc, hd⟩ | ⟨-, -, m₁, hm₁, hcall₁, htrap₁, hrun₁⟩
      · obtain ⟨hi, -⟩ := Machine.instr_at (k := 5) (by decide) hpc
        rw [Machine.giet_jr hi] at hgiet
        cases hgiet
        exact .dispatch hlay hcall htrap hok hd
      · cases hm₁.symm.trans hgiet
        exact .entry (hcall₁.trans hcall) (htrap₁.trans htrap) hok hrun₁
  | save hcall htrap hok hcause hrun =>
      rcases hrun.step sysSave_code with ⟨hpc, hready⟩ | ⟨-, -, m₁, hm₁, hcall₁, htrap₁, hrun₁⟩
      · obtain ⟨hi, hsucc⟩ := Machine.instr_at (k := 21) (by decide) hpc
        rw [Machine.giet_jalr hi, hsucc] at hgiet
        cases hgiet
        exact .enter hlay htrap hok hcause hready _
      · cases hm₁.symm.trans hgiet
        exact .save (hcall₁.trans hcall) (htrap₁.trans htrap) hok hcause hrun₁
  | returned hpc hcall htrap hok hcause hc hreturned hkept hframe hconsts =>
      obtain ⟨hi, hsucc⟩ := Machine.instr_at (k := 22) (by decide) hpc
      rw [Machine.giet_of_effect hi rfl, hsucc] at hgiet
      cases hgiet
      exact .leave hlay hcall htrap hok hcause hc hreturned hkept hframe hconsts
  | restore hcall htrap hok hcause hc hreturned hrun =>
      rcases hrun.step sysRestore_code with ⟨hpc, hl⟩ | ⟨-, -, m₁, hm₁, hcall₁, htrap₁, hrun₁⟩
      · obtain ⟨hi, -⟩ := Machine.instr_at (k := 28) (by decide) hpc
        rw [Machine.giet_eret hi] at hgiet
        cases hgiet
        refine .program ?_ hcall hl.consts fun t ht => absurd ht.symm (Option.some_ne_none t)
        rw [hl.epc]
        exact hok.next
      · cases hm₁.symm.trans hgiet
        exact .restore (hcall₁.trans hcall) (htrap₁.trans htrap) hok hcause hc hreturned hrun₁


/-- The handlers never stop: each of their instructions can be executed. -/
theorem Mode.exists_giet (h : Mode lay m) (hpc : lay.index m.pc ≠ none) :
    ∃ m', m.giet lay = some m' := by
  cases h with
  | program hpc' _ _ _ => exact absurd hpc' hpc
  | call hpc' _ _ _ _ _ _ _ _ => exact absurd hpc' hpc
  | entry _ _ _ hrun =>
      rcases hrun.step gietEntry_code with ⟨hpc, -⟩ | ⟨-, -, m', hm', -⟩
      · exact ⟨_, Machine.giet_jr (Machine.instr_at (k := 5) (by decide) hpc).1⟩
      · exact ⟨m', hm'⟩
  | save _ _ _ _ hrun =>
      rcases hrun.step sysSave_code with ⟨hpc, -⟩ | ⟨-, -, m', hm', -⟩
      · exact ⟨_, Machine.giet_jalr (Machine.instr_at (k := 21) (by decide) hpc).1⟩
      · exact ⟨m', hm'⟩
  | returned hpc _ _ _ _ _ _ _ _ _ =>
      exact ⟨_, Machine.giet_of_effect (Machine.instr_at (k := 22) (by decide) hpc).1 rfl⟩
  | restore _ _ _ _ _ _ hrun =>
      rcases hrun.step sysRestore_code with ⟨hpc, -⟩ | ⟨-, -, m', hm', -⟩
      · exact ⟨_, Machine.giet_eret (Machine.instr_at (k := 28) (by decide) hpc).1⟩
      · exact ⟨m', hm'⟩

/-! ## Programs and functions -/

theorem Mode.compute {pc : Word} {cpu : Cpu} {mem : Mem} (h : Mode lay m)
    (hpc : lay.index m.pc = none) (hlegal : m.Legal lay (.compute pc cpu mem)) :
    Mode lay { m with pc := pc, cpu := cpu, mem := mem } := by
  obtain ⟨hpc', hconst, hcalled⟩ := hlegal
  cases h with
  | program _ hcall hconsts htrap => exact .program hpc' hcall (hconsts.agree hconst) htrap
  | call _ hcall htrap hok hcause hc hsp hframe hconsts =>
      obtain ⟨hsp', h16, h20⟩ := hcalled _ hcall
      rw [hc.args.sp] at h16 h20
      exact .call hpc' hcall htrap hok hcause hc hsp' (hframe.agree h16 h20) (hconsts.agree hconst)
  | entry _ _ _ hrun => exact absurd hpc (hrun.index_ne_none (by decide))
  | save _ _ _ _ hrun => exact absurd hpc (hrun.index_ne_none (by decide))
  | restore _ _ _ _ _ _ hrun => exact absurd hpc (hrun.index_ne_none (by decide))
  | returned hpc' _ _ _ _ _ _ _ _ _ =>
      rw [hpc', Layout.index_addr (by decide)] at hpc
      cases hpc

theorem Mode.ret {cpu : Cpu} (h : Mode lay m) (hcall : m.call = some c)
    (hlegal : m.Legal lay (.ret cpu)) : Mode lay (m.back c cpu) := by
  have hkept := hlegal c hcall
  cases h with
  | @call t _ _ hcall' htrap hok hcause hc _ hframe hconsts =>
      obtain rfl : c = _ := Option.some.inj (hcall.symm.trans hcall')
      have htrap' : (m.back c cpu).trapped = some { t with returned := some (c, cpu.gpr 2) } := by
        rw [Machine.back, htrap]
        rfl
      exact .returned hc.ret rfl htrap' ⟨hok.exl, hok.cause, hok.next, hok.room⟩ hcause
        ⟨hc.f, hc.ret, ⟨hc.args.args, hc.args.sp, hc.args.kept⟩⟩ rfl hkept ⟨hframe.sr, hframe.epc⟩
        hconsts
  | program _ hcall' _ _ => cases hcall.symm.trans hcall'
  | entry hcall' _ _ _ => cases hcall.symm.trans hcall'
  | save hcall' _ _ _ _ => cases hcall.symm.trans hcall'
  | restore hcall' _ _ _ _ _ _ => cases hcall.symm.trans hcall'
  | returned _ hcall' _ _ _ _ _ _ _ _ => cases hcall.symm.trans hcall'

/-- A program enters the GIET. -/
theorem Mode.trap {cause : Word} (hlay : lay.WellPlaced) (h : Mode lay m)
    (hpc : lay.index m.pc = none) (hlegal : m.Legal lay (.trap cause)) :
    Mode lay { m.raise cause with trapped := some ⟨m.pc, m.cpu, cause, none⟩ } := by
  obtain ⟨hcall, -, hexl, hcause, hnext, hroom⟩ := hlegal
  have hconsts : lay.Consts m.mem := by
    cases h with
    | program _ _ hconsts _ => exact hconsts
    | call _ hcall' _ _ _ _ _ _ _ => cases hcall.symm.trans hcall'
    | entry _ _ _ hrun => exact absurd hpc (hrun.index_ne_none (by decide))
    | save _ _ _ _ hrun => exact absurd hpc (hrun.index_ne_none (by decide))
    | restore _ _ _ _ _ _ hrun => exact absurd hpc (hrun.index_ne_none (by decide))
    | returned _ _ _ _ _ _ _ _ _ hconsts => exact hconsts
  refine .entry hcall rfl ⟨hexl, hcause, hnext, hroom⟩ (.start lay.addr_zero.symm ?_)
  refine leads_gietEntry (enabled_or _) (hlay.const_shared _ (.inl ⟨_, rfl⟩))
    (aligned_add lay.causeVector_aligned (aligned_and _)) fun g hg h26 => ?_
  exact ⟨h26.trans (hconsts.cause _), ⟨fun r _ _ h26 h27 => hg r h26 h27, rfl, rfl, rfl, rfl⟩,
    hconsts⟩

theorem Mode.share {a v : Word} (hlay : lay.WellPlaced) (h : Mode lay m) (ha : lay.shared a) :
    Mode lay { m with mem := Function.update m.mem a v } := by
  have hm : AgreeOn (fun a => ¬ lay.shared a) m.mem (Function.update m.mem a v) := fun b hb =>
    Function.update_of_ne (fun heq => by rw [heq] at hb; exact hb ha) ..
  have hconsts' (h : lay.Consts m.mem) : lay.Consts (Function.update m.mem a v) :=
    h.agree fun b hb => hm b (hlay.const_shared b hb)
  cases h with
  | program hpc hcall hconsts htrap => exact .program hpc hcall (hconsts' hconsts) htrap
  | entry hcall htrap hok hrun =>
      exact .entry hcall htrap hok (hrun.share ha fun _ _ _ hm => .agree hlay hm)
  | save hcall htrap hok hcause hrun =>
      exact .save hcall htrap hok hcause (hrun.share ha fun _ _ _ hm => .agree hlay hok hm)
  | call hpc hcall htrap hok hcause hc hsp hframe hconsts =>
      exact .call hpc hcall htrap hok hcause hc hsp (hframe.share hlay hok hm) (hconsts' hconsts)
  | returned hpc hcall htrap hok hcause hc hreturned hkept hframe hconsts =>
      exact .returned hpc hcall htrap hok hcause hc hreturned hkept (hframe.share hlay hok hm)
        (hconsts' hconsts)
  | restore hcall htrap hok hcause hc hreturned hrun =>
      exact .restore hcall htrap hok hcause hc hreturned
        (hrun.share ha fun _ _ _ hm => .agree hlay hm)

/-! ## Interruptions -/

section Scribbled

variable {cpu : Cpu} {mem : Mem}

theorem Scribbled.consts (hlay : lay.WellPlaced) (hs : Scribbled lay m cpu mem)
    (h : lay.Consts m.mem) : lay.Consts mem :=
  h.agree fun a ha => hs.mem a (hlay.const_shared a ha) fun hdead =>
    hlay.const_stack a ha (hdead.stack hs.stack)

theorem Scribbled.frame (hlay : lay.WellPlaced) (hs : Scribbled lay m cpu mem) (hok : t.Ok lay)
    (hsp : (m.cpu.gpr 29).toNat ≤ (t.cpu.gpr 29 - 24).toNat) (h : Frame t m.mem) : Frame t mem := by
  have hword {offset : Word} (hlo : 16 ≤ offset.toNat) (hhi : offset.toNat < 24) :
      mem (t.cpu.gpr 29 - 24 + offset) = m.mem (t.cpu.gpr 29 - 24 + offset) := by
    obtain ⟨hstack, hdead⟩ := hok.frame hlo hhi
    exact hs.mem _ (hlay.stack_shared _ hstack) (hdead _ hsp)
  exact h.agree (hword (by decide) (by decide)) (hword (by decide) (by decide))

theorem Scribbled.sp (hs : Scribbled lay m cpu mem) : cpu.gpr 29 = m.cpu.gpr 29 :=
  hs.gpr 29 (by decide) (by decide) (by decide) (by decide)

/-- The registers a function keeps, and those of its arguments and its result. -/
theorem visible_of_mem {r : Nat} (hr : r ∈ [2, 3, 4, 5, 6, 7] ∨ r ∈ kept) :
    0 < r ∧ r < 32 ∧ r ≠ 26 ∧ r ≠ 27 := by
  rcases hr with hr | hr <;> revert r <;> decide

theorem Scribbled.mem_visible (hs : Scribbled lay m cpu mem) {r : Nat}
    (hr : r ∈ [2, 3, 4, 5, 6, 7] ∨ r ∈ kept) : cpu.gpr r = m.cpu.gpr r := by
  obtain ⟨hpos, hlt, h26, h27⟩ := visible_of_mem hr
  exact hs.gpr r hpos hlt h26 h27

/-- What changes while interrupts are enabled is nothing to the program or the handler. -/
theorem Mode.scribble (hlay : lay.WellPlaced) (h : Mode lay m) (hs : Scribbled lay m cpu mem) :
    Mode lay { m with cpu := cpu, mem := mem } := by
  cases h with
  | program hpc hcall hconsts htrap => exact .program hpc hcall (hs.consts hlay hconsts) htrap
  | entry hcall htrap hok hrun =>
      rcases hrun.step gietEntry_code with ⟨-, hd⟩ | ⟨hdisabled, -⟩
      · have henabled := hs.enabled
        rw [hd.same.sr] at henabled
        cases (enabled_or _).symm.trans henabled
      · cases hdisabled.symm.trans hs.enabled
  | save hcall htrap hok hcause hrun =>
      rcases hrun.step sysSave_code with ⟨hpc, hready⟩ | ⟨hdisabled, -⟩
      · refine .save hcall htrap hok hcause (.done hpc ⟨?_, ⟨fun r hr => ?_, ?_, fun r hr => ?_⟩,
          ?_, hs.consts hlay hready.consts⟩)
        · exact (hs.mem_visible (.inl (by decide))).trans hready.f
        · refine (hs.mem_visible (.inl ?_)).trans (hready.args.args r hr)
          exact List.mem_cons_of_mem _ (List.mem_cons_of_mem _ hr)
        · exact hs.sp.trans hready.args.sp
        · exact (hs.mem_visible (.inr hr)).trans (hready.args.kept r hr)
        · exact hs.frame hlay hok (Nat.le_of_eq (congrArg _ hready.args.sp)) hready.frame
      · cases hdisabled.symm.trans hs.enabled
  | call hpc hcall htrap hok hcause hc hsp hframe hconsts =>
      refine .call hpc hcall htrap hok hcause hc ?_ (hs.frame hlay hok ?_ hframe)
        (hs.consts hlay hconsts)
      · show (cpu.gpr 29).toNat ≤ _
        rw [hs.sp]
        exact hsp
      · rw [← hc.args.sp]
        exact hsp
  | @returned t c hpc hcall htrap hok hcause hc hreturned hkept hframe hconsts =>
      have hsp : m.cpu.gpr 29 = t.cpu.gpr 29 - 24 := (hkept 29 (.inl rfl)).trans hc.args.sp
      refine .returned hpc hcall htrap hok hcause hc ?_ (fun r hr => ?_)
        (hs.frame hlay hok (Nat.le_of_eq (congrArg _ hsp)) hframe) (hs.consts hlay hconsts)
      · show _ = some (c, cpu.gpr 2)
        rw [hs.mem_visible (.inl (by decide)), hreturned]
      · refine Eq.trans ?_ (hkept r hr)
        rcases hr with rfl | hr
        · exact hs.sp
        · exact hs.mem_visible (.inr hr)
  | restore hcall htrap hok hcause hc hreturned hrun =>
      rcases hrun.step sysRestore_code with ⟨-, hl⟩ | ⟨hdisabled, -⟩
      · have henabled := hs.enabled
        rw [hl.sr] at henabled
        cases (enabled_or _).symm.trans henabled
      · cases hdisabled.symm.trans hs.enabled

/-- The vectors are there whenever an interrupt may come. -/
theorem Mode.consts_of_enabled (h : Mode lay m) (henabled : enabled m.cpu.sr = true) :
    lay.Consts m.mem := by
  cases h with
  | program _ _ hconsts _ => exact hconsts
  | call _ _ _ _ _ _ _ _ hconsts => exact hconsts
  | returned _ _ _ _ _ _ _ _ _ hconsts => exact hconsts
  | entry _ _ _ hrun =>
      rcases hrun.step gietEntry_code with ⟨-, hd⟩ | ⟨hdisabled, -⟩
      · exact hd.consts
      · cases hdisabled.symm.trans henabled
  | save _ _ _ _ hrun =>
      rcases hrun.step sysSave_code with ⟨-, hready⟩ | ⟨hdisabled, -⟩
      · exact hready.consts
      · cases hdisabled.symm.trans henabled
  | restore _ _ _ _ _ _ hrun =>
      rcases hrun.step sysRestore_code with ⟨-, hl⟩ | ⟨hdisabled, -⟩
      · exact hl.consts
      · cases hdisabled.symm.trans henabled

end Scribbled

/-- A step of a processor that is not interrupted. -/
theorem Mode.next {e : Event} (hlay : lay.WellPlaced) (h : Mode lay m) (hlegal : m.Legal lay e)
    (hnext : m.next lay e = some m') : Mode lay m' := by
  cases e with
  | giet => exact h.giet hlay hnext
  | compute pc cpu mem =>
      obtain ⟨hpc, heq⟩ := Option.ite_none_right_eq_some.mp hnext
      cases heq
      exact h.compute hpc hlegal
  | ret cpu =>
      obtain ⟨-, heq⟩ := Option.ite_none_right_eq_some.mp hnext
      obtain ⟨c, hcall, rfl⟩ := Option.map_eq_some_iff.mp heq
      exact h.ret hcall hlegal
  | trap cause =>
      obtain ⟨hpc, heq⟩ := Option.ite_none_right_eq_some.mp hnext
      cases heq
      exact h.trap hlay hpc hlegal
  | share a v =>
      cases hnext
      exact h.share hlay hlegal

/-- Only the `eret` of `_sys_handler` goes back to the program. -/
theorem Mode.eret (h : Mode lay m) (ht : m.trapped = some t) (hgiet : m.giet lay = some m')
    (hback : m'.trapped = none) :
    t.Ok lay ∧ t.cause &&& 0x3c = 32 ∧ ∃ c v, Served lay t c ∧ t.returned = some (c, v) ∧
      Leaving lay t v m.cpu m.mem ∧
      m' = { m with
        pc := m.cpu.epc
        cpu := { m.cpu with sr := m.cpu.sr &&& ~~~0x2 }
        trapped := none } := by
  have hin {m₁ : Machine} (hm₁ : m.giet lay = some m₁) (ht₁ : m₁.trapped = m.trapped) : False := by
    cases hm₁.symm.trans hgiet
    cases (ht₁.trans ht).symm.trans hback
  cases h with
  | program hpc _ _ _ =>
      rw [Machine.giet, Machine.instr_of_index hpc] at hgiet
      cases hgiet
  | call hpc _ _ _ _ _ _ _ _ =>
      rw [Machine.giet, Machine.instr_of_index hpc] at hgiet
      cases hgiet
  | entry _ _ _ hrun =>
      rcases hrun.step gietEntry_code with ⟨hpc, -⟩ | ⟨-, -, m₁, hm₁, -, ht₁, -⟩
      · exact (hin (Machine.giet_jr (Machine.instr_at (k := 5) (by decide) hpc).1) rfl).elim
      · exact (hin hm₁ ht₁).elim
  | save _ _ _ _ hrun =>
      rcases hrun.step sysSave_code with ⟨hpc, -⟩ | ⟨-, -, m₁, hm₁, -, ht₁, -⟩
      · exact (hin (Machine.giet_jalr (Machine.instr_at (k := 21) (by decide) hpc).1) rfl).elim
      · exact (hin hm₁ ht₁).elim
  | returned hpc _ _ _ _ _ _ _ _ _ =>
      obtain ⟨hi, -⟩ := Machine.instr_at (k := 22) (by decide) hpc
      exact (hin (Machine.giet_of_effect hi rfl) rfl).elim
  | restore _ ht' hok hcause hc hreturned hrun =>
      obtain rfl : t = _ := Option.some.inj (ht.symm.trans ht')
      rcases hrun.step sysRestore_code with ⟨hpc, hl⟩ | ⟨-, -, m₁, hm₁, -, ht₁, -⟩
      · obtain ⟨hi, -⟩ := Machine.instr_at (k := 28) (by decide) hpc
        rw [Machine.giet_eret hi] at hgiet
        cases hgiet
        exact ⟨hok, hcause, _, _, hc, hreturned, hl, rfl⟩
      · exact (hin hm₁ ht₁).elim

end Modes

end SmcTp.Giet.Handlers
