import Mathlib.Logic.Function.Basic
import SmcTp.Programs.StraightLine

/-!
# Saving and restoring the registers of a task

`_task_switch` of the GIET stores the registers of the running task in the context `$4`
points to, loads those of the next one from the context `$5` points to, and returns to the
`$31` it has loaded.  It is straight-line code over the processor's registers and
`_task_context_array`, which all processors share.

Registers hold words, and the addresses of code, of contexts and of stacks.  Only what an
address is of matters here, so the three kinds are kept apart.
-/

namespace SmcTp.Giet.TaskSwitch

open Programs

/-! ## Registers -/

/-- `unsigned int`. -/
abbrev Word := BitVec 32

/-- The places in the code a processor may be at. -/
inductive Pos where
  /-- User code, at an address. -/
  | user (pc : Word)
  /-- `jalr $3` in `_sys_handler`, for the system call `ctx_switch` or for another one. -/
  | jalr (ctxSwitch : Bool)
  /-- The first instruction of another system call. -/
  | callEntry
  /-- Inside another system call. -/
  | call
  /-- `_sys_handler` after `jalr $3`. -/
  | sysReturn
  /-- `_int_demux` and `_isr_switch`, up to the call of `_ctx_switch`. -/
  | isr
  /-- `_isr_switch` and `_int_demux` after that call, and `restore` in `_int_handler`. -/
  | isrReturn
  /-- The first instruction of `_ctx_switch`. -/
  | ctxEntry
  /-- `curr_task_index = _current_task_array[proc_id]` -/
  | ctxRead
  /-- `_current_task_array[proc_id] = next_task_index` -/
  | ctxStore (curr : Nat)
  /-- `_task_switch(curr_task_context, next_task_context)` -/
  | ctxCall (curr next : Nat)
  /-- An instruction of `_task_switch`. -/
  | switch (k : Nat)
  /-- `_ctx_switch` after the call of `_task_switch`. -/
  | ctxReturn
  /-- The `eret` which leaves the GIET. -/
  | eret
deriving DecidableEq, Repr

/-- What a register or a word of memory holds. -/
inductive Val where
  | word (w : Word)
  /-- An address in the code. -/
  | code (pos : Pos)
  /-- The address of the word `base` of `_task_context_array`. -/
  | context (base : Nat)
  /-- An address in the stack of a task, with as many frames above it. -/
  | stack (task depth : Nat)
deriving DecidableEq, Repr

/-- The coprocessor registers a switch handles. -/
inductive Cop0 where
  | sr
  | epc
  | cr
deriving DecidableEq, Repr

/-- The registers of a processor. -/
structure Regs where
  gpr : Nat → Val
  cop0 : Cop0 → Val

/-- A general register is written. -/
def Regs.set (r : Regs) (n : Nat) (v : Val) : Regs := { r with gpr := Function.update r.gpr n v }

/-- A coprocessor register is written. -/
def Regs.setCop0 (r : Regs) (c : Cop0) (v : Val) : Regs :=
  { r with cop0 := Function.update r.cop0 c v }

@[simp] theorem Regs.set_gpr (r : Regs) (n : Nat) (v : Val) : (r.set n v).gpr n = v :=
  Function.update_self ..

@[simp] theorem Regs.set_cop0 (r : Regs) (n : Nat) (v : Val) : (r.set n v).cop0 = r.cop0 := rfl

@[simp] theorem Regs.setCop0_gpr (r : Regs) (c : Cop0) (v : Val) : (r.setCop0 c v).gpr = r.gpr :=
  rfl

@[simp] theorem Regs.setCop0_cop0 (r : Regs) (c : Cop0) (v : Val) : (r.setCop0 c v).cop0 c = v :=
  Function.update_self ..

@[simp] theorem Regs.set_gpr_of_ne (r : Regs) {n k : Nat} (v : Val) (h : k ≠ n) :
    (r.set n v).gpr k = r.gpr k :=
  Function.update_of_ne h ..

@[simp] theorem Regs.setCop0_cop0_of_ne (r : Regs) {c d : Cop0} (v : Val) (h : d ≠ c) :
    (r.setCop0 c v).cop0 d = r.cop0 d :=
  Function.update_of_ne h ..

/-! ## Contexts -/

/-- The registers saved under their own number: all but `$0`, `$26` and `$27`. -/
def general : List Nat := (List.range 26).tail ++ [28, 29, 30, 31]

/-- The words of a context that hold registers. -/
def slots : List Nat := 0 :: general ++ [32, 33]

/-- The register a word of a context is for. -/
def Regs.slot (r : Regs) (n : Nat) : Val :=
  if n = 0 then r.cop0 .sr else if n = 32 then r.cop0 .epc else if n = 33 then r.cop0 .cr
  else r.gpr n

@[simp] theorem Regs.slot_sr (r : Regs) : r.slot 0 = r.cop0 .sr := rfl
@[simp] theorem Regs.slot_epc (r : Regs) : r.slot 32 = r.cop0 .epc := rfl
@[simp] theorem Regs.slot_cr (r : Regs) : r.slot 33 = r.cop0 .cr := rfl

theorem ne_of_mem_general {n : Nat} (h : n ∈ general) :
    n ≠ 0 ∧ n ≠ 26 ∧ n ≠ 27 ∧ n ≠ 32 ∧ n ≠ 33 := by
  revert n
  decide

theorem Regs.slot_general (r : Regs) {n : Nat} (h : n ∈ general) : r.slot n = r.gpr n := by
  obtain ⟨h0, _, _, h32, h33⟩ := ne_of_mem_general h
  unfold Regs.slot
  rw [if_neg h0, if_neg h32, if_neg h33]

theorem mem_slots {n : Nat} : n ∈ slots ↔ n = 0 ∨ n ∈ general ∨ n = 32 ∨ n = 33 := by
  simp [slots]

/-- A context has 64 words, and the one with the number of its terminal is none of these. -/
theorem lt_of_mem_slots {n : Nat} (h : n ∈ slots) : n < 64 ∧ n ≠ 34 := by
  revert n
  decide

/-! ## The code -/

/-- The instructions of `_task_switch`.  The offset of a load or a store counts words. -/
inductive Instr where
  /-- `add $d, $s, $0` -/
  | move (d s : Nat)
  /-- `mfc0 $d, c` -/
  | mfc0 (d : Nat) (c : Cop0)
  /-- `mtc0 $s, c` -/
  | mtc0 (s : Nat) (c : Cop0)
  /-- `sw $s, offset*4($b)` -/
  | sw (s offset b : Nat)
  /-- `lw $d, offset*4($b)` -/
  | lw (d offset b : Nat)
deriving DecidableEq, Repr

/-- `save _current task context` -/
def saveContext : List Instr :=
  .move 27 4 :: .mfc0 26 .sr :: .sw 26 0 27 :: (general.map (fun n => .sw n n 27) ++
    [.mfc0 26 .epc, .sw 26 32 27, .mfc0 26 .cr, .sw 26 33 27])

/-- `restore next task context` -/
def restoreContext : List Instr :=
  .move 27 5 :: .lw 26 0 27 :: .mtc0 26 .sr :: (general.map (fun n => .lw n n 27) ++
    [.lw 26 32 27, .mtc0 26 .epc, .lw 26 33 27, .mtc0 26 .cr])

/-- `_task_switch`, up to its `jr $31`. -/
def taskSwitch : List Instr := saveContext ++ restoreContext

/-- `_task_context_array`. -/
abbrev Table := Nat → Val

/-- The word of the array an address is of. -/
def Val.base : Val → Option Nat
  | .context base => some base
  | _ => none

/-- An instruction is executed.  A load or store elsewhere is not. -/
def Instr.exec : Instr → Regs → Table → Option (Regs × Table)
  | .move d s, r, m => some (r.set d (r.gpr s), m)
  | .mfc0 d c, r, m => some (r.set d (r.cop0 c), m)
  | .mtc0 s c, r, m => some (r.setCop0 c (r.gpr s), m)
  | .sw s offset b, r, m =>
      (r.gpr b).base.map fun base => (r, Function.update m (base + offset) (r.gpr s))
  | .lw d offset b, r, m => (r.gpr b).base.map fun base => (r.set d (m (base + offset)), m)

/-- The word a load or store accesses. -/
def Instr.Accesses (i : Instr) (r : Regs) (a : Nat) : Prop :=
  match i with
  | .sw _ offset b | .lw _ offset b => ∃ base, (r.gpr b).base = some base ∧ a = base + offset
  | _ => False

/-- The instructions, and the words of `_task_context_array` they access. -/
def mips : Isa Instr Regs Nat Val where
  exec := Instr.exec
  Accesses := Instr.Accesses
  frame := by
    intro i r r' m m' a hexec hacc
    cases i with
    | move d s =>
        cases hexec
        rfl
    | mfc0 d c =>
        cases hexec
        rfl
    | mtc0 s c =>
        cases hexec
        rfl
    | sw s offset b =>
        obtain ⟨base, hbase, heq⟩ := Option.map_eq_some_iff.mp hexec
        cases heq
        have hne : a ≠ base + offset := fun h => hacc ⟨base, hbase, h⟩
        exact Function.update_of_ne hne ..
    | lw d offset b =>
        obtain ⟨base, _, heq⟩ := Option.map_eq_some_iff.mp hexec
        cases heq
        rfl
  exec_agree := by
    intro i r r' m m' m₂ hexec hsame
    cases i with
    | move d s =>
        cases hexec
        exact ⟨m₂, rfl, hsame⟩
    | mfc0 d c =>
        cases hexec
        exact ⟨m₂, rfl, hsame⟩
    | mtc0 s c =>
        cases hexec
        exact ⟨m₂, rfl, hsame⟩
    | sw s offset b =>
        obtain ⟨base, hbase, heq⟩ := Option.map_eq_some_iff.mp hexec
        cases heq
        refine ⟨_, Option.map_eq_some_iff.mpr ⟨base, hbase, rfl⟩, ?_⟩
        rintro a ⟨base', hbase', rfl⟩
        rw [hbase] at hbase'
        cases hbase'
        rw [Function.update_self, Function.update_self]
    | lw d offset b =>
        obtain ⟨base, hbase, heq⟩ := Option.map_eq_some_iff.mp hexec
        cases heq
        refine ⟨m₂, Option.map_eq_some_iff.mpr ⟨base, hbase, ?_⟩, hsame⟩
        rw [hsame _ ⟨base, hbase, rfl⟩]

/-! ## What it does -/

section Leads

variable {A : Nat → Prop} {Q : Regs → Table → Prop} {l : List Instr} {ns : List Nat} {r : Regs}
  {m : Table} {b d s n base : Nat} {c : Cop0}

theorem leads_move (h : mips.Leads A Q l (r.set d (r.gpr s)) m) :
    mips.Leads A Q (.move d s :: l) r m :=
  ⟨_, _, rfl, fun _ hacc => hacc.elim, h⟩

theorem leads_mfc0 (h : mips.Leads A Q l (r.set d (r.cop0 c)) m) :
    mips.Leads A Q (.mfc0 d c :: l) r m :=
  ⟨_, _, rfl, fun _ hacc => hacc.elim, h⟩

theorem leads_mtc0 (h : mips.Leads A Q l (r.setCop0 c (r.gpr s)) m) :
    mips.Leads A Q (.mtc0 s c :: l) r m :=
  ⟨_, _, rfl, fun _ hacc => hacc.elim, h⟩

theorem accesses_within (hb : r.gpr b = .context base) (hA : A (base + n)) {a : Nat}
    (h : ∃ base', (r.gpr b).base = some base' ∧ a = base' + n) : A a := by
  obtain ⟨base', hbase, rfl⟩ := h
  rw [hb] at hbase
  cases hbase
  exact hA

theorem leads_sw (hb : r.gpr b = .context base) (hA : A (base + n))
    (h : mips.Leads A Q l r (Function.update m (base + n) (r.gpr s))) :
    mips.Leads A Q (.sw s n b :: l) r m := by
  refine ⟨_, _, ?_, fun a hacc => accesses_within hb hA hacc, h⟩
  show ((r.gpr b).base.map _) = _
  rw [hb]
  rfl

theorem leads_lw (hb : r.gpr b = .context base) (hA : A (base + n))
    (h : mips.Leads A Q l (r.set d (m (base + n))) m) :
    mips.Leads A Q (.lw d n b :: l) r m := by
  refine ⟨_, _, ?_, fun a hacc => accesses_within hb hA hacc, h⟩
  show ((r.gpr b).base.map _) = _
  rw [hb]
  rfl

/-- A row of stores puts each register under its own number. -/
theorem leads_stores (hb : r.gpr 27 = .context base) (hA : ∀ n ∈ ns, A (base + n))
    (h : ∀ m', (∀ n ∈ ns, m' (base + n) = r.gpr n) →
      (∀ a, (∀ n ∈ ns, a ≠ base + n) → m' a = m a) → mips.Leads A Q l r m') :
    mips.Leads A Q (ns.map (fun n => Instr.sw n n 27) ++ l) r m := by
  induction ns generalizing m with
  | nil => exact h m (fun _ hn => absurd hn List.not_mem_nil) fun _ _ => rfl
  | cons n ns ih =>
      have hA' : ∀ k ∈ ns, A (base + k) := fun k hk => hA k (List.mem_cons_of_mem _ hk)
      refine leads_sw hb (hA n List.mem_cons_self) (ih hA' ?_)
      intro m' hstored hkept
      refine h m' ?_ ?_
      · intro k hk
        by_cases hmem : k ∈ ns
        · exact hstored k hmem
        · obtain rfl : k = n := (List.mem_cons.mp hk).resolve_right hmem
          rw [hkept, Function.update_self]
          intro j hj heq
          exact hmem (Nat.add_left_cancel heq ▸ hj)
      · intro a ha
        rw [hkept a fun k hk => ha k (List.mem_cons_of_mem _ hk)]
        exact Function.update_of_ne (ha n List.mem_cons_self) ..

/-- A row of loads takes each register from under its own number. -/
theorem leads_loads (hb : r.gpr 27 = .context base) (hA : ∀ n ∈ ns, A (base + n)) (h27 : 27 ∉ ns)
    (h : ∀ r', (∀ n ∈ ns, r'.gpr n = m (base + n)) → (∀ n, n ∉ ns → r'.gpr n = r.gpr n) →
      r'.cop0 = r.cop0 → mips.Leads A Q l r' m) :
    mips.Leads A Q (ns.map (fun n => Instr.lw n n 27) ++ l) r m := by
  induction ns generalizing r with
  | nil => exact h r (fun _ hn => absurd hn List.not_mem_nil) (fun _ _ => rfl) rfl
  | cons n ns ih =>
      have hne : 27 ≠ n := fun heq => h27 (heq ▸ List.mem_cons_self)
      have hA' : ∀ k ∈ ns, A (base + k) := fun k hk => hA k (List.mem_cons_of_mem _ hk)
      have h27' : 27 ∉ ns := fun hmem => h27 (List.mem_cons_of_mem _ hmem)
      refine leads_lw hb (hA n List.mem_cons_self) (ih ?_ hA' h27' ?_)
      · rw [Regs.set_gpr_of_ne _ _ hne, hb]
      · intro r' hloaded hkept hcop
        refine h r' ?_ ?_ hcop
        · intro k hk
          by_cases hmem : k ∈ ns
          · exact hloaded k hmem
          · obtain rfl : k = n := (List.mem_cons.mp hk).resolve_right hmem
            rw [hkept k hmem, Regs.set_gpr]
        · intro k hk
          have hkn : k ≠ n := fun heq => hk (heq ▸ List.mem_cons_self)
          rw [hkept k fun hmem => hk (List.mem_cons_of_mem _ hmem), Regs.set_gpr_of_ne _ _ hkn]

/-- Saving stores each register in its word, and keeps all but `$26` and `$27`. -/
theorem leads_saveContext (h4 : r.gpr 4 = .context base) (hA : ∀ n ∈ slots, A (base + n))
    (h : ∀ r' m', (∀ k, k ≠ 26 → k ≠ 27 → r'.gpr k = r.gpr k) →
      (∀ n ∈ slots, m' (base + n) = r.slot n) →
      (∀ a, (∀ n ∈ slots, a ≠ base + n) → m' a = m a) → mips.Leads A Q l r' m') :
    mips.Leads A Q (saveContext ++ l) r m := by
  have hmem {n : Nat} (hn : n = 0 ∨ n ∈ general ∨ n = 32 ∨ n = 33) : n ∈ slots := mem_slots.mpr hn
  have hword {n k : Nat} (hne : n ≠ k) : base + n ≠ base + k := fun heq =>
    hne (Nat.add_left_cancel heq)
  unfold saveContext
  rw [List.cons_append, List.cons_append, List.cons_append, List.append_assoc]
  refine leads_move (leads_mfc0 ?_)
  generalize hr₁ : (r.set 27 (r.gpr 4)).set 26 ((r.set 27 (r.gpr 4)).cop0 .sr) = r₁
  have hsr : r₁.gpr 26 = r.slot 0 := by
    rw [← hr₁, Regs.set_gpr]
    rfl
  have hepc : r₁.cop0 .epc = r.slot 32 := by
    rw [← hr₁]
    rfl
  have hcr : r₁.cop0 .cr = r.slot 33 := by
    rw [← hr₁]
    rfl
  have hgpr {k : Nat} (h26 : k ≠ 26) (h27 : k ≠ 27) : r₁.gpr k = r.gpr k := by
    rw [← hr₁, Regs.set_gpr_of_ne _ _ h26, Regs.set_gpr_of_ne _ _ h27]
  have h27 : r₁.gpr 27 = .context base := by
    simp [← hr₁, h4]
  refine leads_sw h27 (hA 0 (hmem (.inl rfl))) ?_
  refine leads_stores h27 (fun n hn => hA n (hmem (.inr (.inl hn)))) fun m₂ hstored hkept => ?_
  have h27₂ : (r₁.set 26 (r₁.cop0 .epc)).gpr 27 = .context base := by simp [h27]
  refine leads_mfc0 (leads_sw h27₂ (hA 32 (hmem (.inr (.inr (.inl rfl))))) ?_)
  have h27₃ (v : Val) : ((r₁.set 26 (r₁.cop0 .epc)).set 26 v).gpr 27 = .context base := by
    simp [h27]
  refine leads_mfc0 (leads_sw (h27₃ _) (hA 33 (hmem (.inr (.inr (.inr rfl))))) ?_)
  refine h _ _ ?_ ?_ ?_
  · intro k h26 h27
    rw [Regs.set_gpr_of_ne _ _ h26, Regs.set_gpr_of_ne _ _ h26, hgpr h26 h27]
  · intro n hn
    rcases mem_slots.mp hn with rfl | hgen | rfl | rfl
    · rw [Function.update_of_ne (hword (by decide)), Function.update_of_ne (hword (by decide)),
        hkept _ fun k hk => hword (ne_of_mem_general hk).1.symm, Function.update_self, hsr]
    · obtain ⟨_, h26, h27, h32, h33⟩ := ne_of_mem_general hgen
      rw [Function.update_of_ne (hword h33), Function.update_of_ne (hword h32), hstored n hgen,
        hgpr h26 h27, Regs.slot_general _ hgen]
    · rw [Function.update_of_ne (hword (by decide)), Function.update_self, Regs.set_gpr, hepc]
    · rw [Function.update_self, Regs.set_gpr, Regs.set_cop0, hcr]
  · intro a ha
    have hother {n : Nat} (hn : n = 0 ∨ n ∈ general ∨ n = 32 ∨ n = 33) : a ≠ base + n :=
      ha n (hmem hn)
    rw [Function.update_of_ne (hother (.inr (.inr (.inr rfl)))),
      Function.update_of_ne (hother (.inr (.inr (.inl rfl)))),
      hkept a fun n hn => hother (.inr (.inl hn)), Function.update_of_ne (hother (.inl rfl))]

/-- Restoring loads each register from its word. -/
theorem leads_restoreContext (h5 : r.gpr 5 = .context base) (hA : ∀ n ∈ slots, A (base + n))
    (h : ∀ r', r'.gpr 27 = .context base → (∀ n ∈ slots, r'.slot n = m (base + n)) →
      mips.Leads A Q l r' m) :
    mips.Leads A Q (restoreContext ++ l) r m := by
  have hmem {n : Nat} (hn : n = 0 ∨ n ∈ general ∨ n = 32 ∨ n = 33) : n ∈ slots := mem_slots.mpr hn
  unfold restoreContext
  rw [List.cons_append, List.cons_append, List.cons_append, List.append_assoc]
  let r₁ := r.set 27 (r.gpr 5)
  have h27 : r₁.gpr 27 = .context base := by rw [Regs.set_gpr, h5]
  let r₂ := (r₁.set 26 (m (base + 0))).setCop0 .sr ((r₁.set 26 (m (base + 0))).gpr 26)
  have h27₂ : r₂.gpr 27 = .context base := by
    simp [r₂, h27]
  refine leads_move (leads_lw h27 (hA 0 (hmem (.inl rfl))) (leads_mtc0 ?_))
  refine leads_loads h27₂ (fun n hn => hA n (hmem (.inr (.inl hn)))) (by decide) ?_
  intro r₃ hloaded hkept hcop
  have h27₃ : r₃.gpr 27 = .context base := by rw [hkept 27 (by decide), h27₂]
  refine leads_lw h27₃ (hA 32 (hmem (.inr (.inr (.inl rfl))))) (leads_mtc0 ?_)
  have h27₄ (v w : Val) : ((r₃.set 26 v).setCop0 .epc w).gpr 27 = .context base := by simp [h27₃]
  refine leads_lw (h27₄ _ _) (hA 33 (hmem (.inr (.inr (.inr rfl))))) (leads_mtc0 ?_)
  refine h _ ?_ ?_
  · simp [h27₃]
  · intro n hn
    rcases mem_slots.mp hn with rfl | hgen | rfl | rfl
    · simp [hcop]
    · have h26 : n ≠ 26 := (ne_of_mem_general hgen).2.1
      rw [Regs.slot_general _ hgen, Regs.setCop0_gpr, Regs.set_gpr_of_ne _ _ h26, Regs.setCop0_gpr,
        Regs.set_gpr_of_ne _ _ h26, hloaded n hgen]
    · simp
    · simp

/-- `_task_switch` stores the registers in the one context and loads them from the other. -/
theorem taskSwitch_leads {curr next : Nat} (h4 : r.gpr 4 = .context curr)
    (h5 : r.gpr 5 = .context next) (hcurr : ∀ n ∈ slots, A (curr + n))
    (hnext : ∀ n ∈ slots, A (next + n))
    (hdisjoint : ∀ n ∈ slots, ∀ k ∈ slots, next + n ≠ curr + k)
    (h : ∀ r' m', r'.gpr 27 = .context next → (∀ n ∈ slots, m' (curr + n) = r.slot n) →
      (∀ a, (∀ n ∈ slots, a ≠ curr + n) → m' a = m a) →
      (∀ n ∈ slots, r'.slot n = m (next + n)) → Q r' m') :
    mips.Leads A Q taskSwitch r m := by
  refine leads_saveContext h4 hcurr fun r₁ m₁ hkept hstored hothers => ?_
  rw [← List.append_nil restoreContext]
  have h5₁ : r₁.gpr 5 = .context next := by rw [hkept 5 (by decide) (by decide), h5]
  refine leads_restoreContext h5₁ hnext fun r₂ h27 hloaded => ?_
  refine h r₂ m₁ h27 hstored hothers fun n hn => ?_
  rw [hloaded n hn, hothers _ (hdisjoint n hn)]

end Leads

end SmcTp.Giet.TaskSwitch
