import SmcTp.Giet.TaskStacks

/-!
# Context switches preserve tasks

The invariant of a processor says where each of its tasks stands: the one that runs anywhere in
its code, the others at the end of `_task_switch`, with their registers in their contexts.

In the middle of a switch neither task has its registers in one place.  All the invariant says
then is that the rest of `_task_switch` leads to a state in which they are: nobody but the
processor writes the contexts it works on.
-/

namespace SmcTp.Giet.TaskSwitch

open Clocked Programs

/-! ## The contexts of a processor -/

section Contexts

variable {cfg : Config} {p p' t t' n n' : Nat}

/-- Each word of each context is a word of its own. -/
theorem Config.context_inj (ht : t < cfg.nbMaxTasks) (ht' : t' < cfg.nbMaxTasks) (hn : n < 64)
    (hn' : n' < 64) (h : cfg.context p t + n = cfg.context p' t' + n') :
    p = p' ∧ t = t' ∧ n = n' := by
  unfold Config.context at h
  have htask : p * cfg.nbMaxTasks + t = p' * cfg.nbMaxTasks + t' := by omega
  have hword : n = n' := by omega
  have hpos : 0 < cfg.nbMaxTasks := Nat.zero_lt_of_lt ht
  have hproc : (p * cfg.nbMaxTasks + t) / cfg.nbMaxTasks = p := by
    rw [Nat.mul_comm, Nat.mul_add_div hpos, Nat.div_eq_of_lt ht, Nat.add_zero]
  have hproc' : (p' * cfg.nbMaxTasks + t') / cfg.nbMaxTasks = p' := by
    rw [Nat.mul_comm, Nat.mul_add_div hpos, Nat.div_eq_of_lt ht', Nat.add_zero]
  have hp : p = p' := by rw [← hproc, htask, hproc']
  subst hp
  exact ⟨rfl, Nat.add_left_cancel htask, hword⟩

theorem Config.taskOf_context (ht : t < cfg.nbMaxTasks) : cfg.taskOf (cfg.context p t) = t := by
  unfold Config.taskOf Config.context
  rw [Nat.mul_div_cancel _ (by decide), Nat.mul_comm, Nat.mul_add_mod, Nat.mod_eq_of_lt ht]

/-- The words that hold registers of tasks of the processor `p`. -/
def Config.Own (cfg : Config) (p a : Nat) : Prop :=
  ∃ t < cfg.number p, ∃ n ∈ slots, a = cfg.context p t + n

theorem Config.own_context (ht : t < cfg.number p) (hn : n ∈ slots) :
    cfg.Own p (cfg.context p t + n) :=
  ⟨t, ht, n, hn, rfl⟩

/-- No word is of two processors. -/
theorem Config.Own.disjoint {a : Nat} (h : cfg.Own p a) (hne : p' ≠ p) : ¬ cfg.Own p' a := by
  rintro ⟨t', ht', n', hn', rfl⟩
  obtain ⟨t, ht, n, hn, heq⟩ := h
  have hlt := Nat.lt_of_lt_of_le ht (cfg.number_le p)
  have hlt' := Nat.lt_of_lt_of_le ht' (cfg.number_le p')
  exact hne (context_inj hlt' hlt (lt_of_mem_slots hn').1 (lt_of_mem_slots hn).1 heq).1

theorem Config.context_ne (ht : t < cfg.number p) (ht' : t' < cfg.number p) (hne : t ≠ t')
    (hn : n ∈ slots) (hn' : n' ∈ slots) : cfg.context p t + n ≠ cfg.context p t' + n' := by
  intro heq
  have hlt := Nat.lt_of_lt_of_le ht (cfg.number_le p)
  have hlt' := Nat.lt_of_lt_of_le ht' (cfg.number_le p)
  exact hne (context_inj hlt hlt' (lt_of_mem_slots hn).1 (lt_of_mem_slots hn').1 heq).2.1

end Contexts

/-! ## The invariant -/

section Invariant

variable (cfg : Config) (p : Nat) (m : Table) (l : Local)

/-- The contexts of the tasks other than `t` hold their registers. -/
def Saved (suspended : Nat → Nat → Val) (t : Nat) : Prop :=
  ∀ t' < cfg.number p, t' ≠ t → ∀ n ∈ slots, m (cfg.context p t' + n) = suspended t' n

/-- The registers of the task `t` are loaded, and those of the others are in their contexts. -/
def Restored (suspended : Nat → Nat → Val) (t : Nat) (r : Regs) (m : Table) : Prop :=
  r.gpr 27 = .context (cfg.context p t) ∧ (∀ n ∈ slots, r.slot n = suspended t n) ∧
    Saved cfg p m suspended t

/-- A task that does not run is at the end of `_task_switch`. -/
def Waiting (t : Nat) : Prop :=
  Placed (cfg.number p) t (l.stack t) (l.interrupted t) (l.suspended t) (.switch taskSwitch.length)

/-- The task whose registers are loaded runs, and is at `pos` or may as well be. -/
structure Running (pos : Pos) : Prop where
  saved : Saved cfg p m l.suspended l.loaded
  placed :
    Placed (cfg.number p) l.loaded (l.stack l.loaded) (l.interrupted l.loaded) l.regs.slot pos

/-- How far the processor is with a switch. -/
inductive Phase : Prop where
  /-- There is none. -/
  | running : l.current = l.loaded → Running cfg p m l l.pos → Phase
  /-- `_ctx_switch` has stored the next task, and would return if it did not call
  `_task_switch`. -/
  | calling : 1 < cfg.number p → l.current = (l.loaded + 1) % cfg.number p →
      l.pos = .ctxCall l.loaded l.current → Running cfg p m l .ctxReturn → Phase
  /-- `_task_switch` is under way. -/
  | switching (k : Nat) : k < taskSwitch.length → l.pos = .switch k →
      l.current < cfg.number p → l.current ≠ l.loaded → Waiting cfg p l l.loaded →
      mips.Leads (cfg.Own p) (Restored cfg p l.suspended l.current) (taskSwitch.drop k) l.regs m →
      Phase

/-- What holds of a processor in every run in which it is careful. -/
structure Local.Inv : Prop where
  loaded : 1 < cfg.number p → l.loaded < cfg.number p
  waiting : ∀ t < cfg.number p, t ≠ l.loaded → Waiting cfg p l t
  phase : Phase cfg p m l

end Invariant
section Steps

variable {cfg : Config} {p : Nat} {m m' : Table} {l l' : Local} {pos : Pos} {t : Nat} {r : Regs}
  {values : Nat → Word} {pc : Word}

/-! ### Steps of other processors -/

theorem Saved.agree {suspended : Nat → Nat → Val} (h : Saved cfg p m suspended t)
    (hm : AgreeOn (cfg.Own p) m m') : Saved cfg p m' suspended t := by
  intro t' ht' hne n hn
  rw [hm _ (Config.own_context ht' hn)]
  exact h t' ht' hne n hn

theorem Running.agree (h : Running cfg p m l pos) (hm : AgreeOn (cfg.Own p) m m') :
    Running cfg p m' l pos :=
  ⟨h.saved.agree hm, h.placed⟩

/-- A processor does not depend on the contexts of the others. -/
theorem Local.Inv.agree (h : l.Inv cfg p m) (hm : AgreeOn (cfg.Own p) m m') : l.Inv cfg p m' where
  loaded := h.loaded
  waiting := h.waiting
  phase := by
    cases h.phase with
    | running hcurrent hrun => exact .running hcurrent (hrun.agree hm)
    | calling hnumber hcurrent hpos hrun => exact .calling hnumber hcurrent hpos (hrun.agree hm)
    | switching k hk hpos hcurrent hne hwait hleads =>
        have hstable : ∀ r m m₂, AgreeOn (cfg.Own p) m m₂ →
            Restored cfg p l.suspended l.current r m →
            Restored cfg p l.suspended l.current r m₂ := by
          rintro r m m₂ hagree ⟨h27, hslots, hsaved⟩
          exact ⟨h27, hslots, hsaved.agree hagree⟩
        exact .switching k hk hpos hcurrent hne hwait (hleads.agree hstable hm)

/-! ### Steps of the processor -/

/-- The task that runs goes on. -/
theorem Local.Inv.goes (h : l.Inv cfg p m) (hcurrent : l.current = l.loaded)
    (hrun : Running cfg p m l pos) (hgoes : Goes (cfg.number p) l l') : l'.Inv cfg p m where
  loaded := by
    rw [hgoes.loaded]
    exact h.loaded
  waiting := by
    intro t ht hne
    rw [hgoes.loaded] at hne
    unfold Waiting
    rw [hgoes.suspended, hgoes.stack t hne, hgoes.interrupted t hne]
    exact h.waiting t ht hne
  phase := by
    refine .running (hgoes.current.trans (hcurrent.trans hgoes.loaded.symm)) ⟨?_, ?_⟩
    · rw [hgoes.suspended, hgoes.loaded]
      exact hrun.saved
    · rw [hgoes.loaded]
      exact hgoes.placed

/-- `_ctx_switch` stores the next task. -/
theorem Local.Inv.store {curr : Nat} (h : l.Inv cfg p m)
    (hrun : Running cfg p m l l.pos) (hpos : l.pos = .ctxStore curr)
    (hstep : l.code cfg p values pc = some l') : l'.Inv cfg p m := by
  obtain ⟨hsaved, d, h29, hat, hkept⟩ := hrun
  rw [hpos] at hat
  cases hat with
  | sound hs =>
      obtain ⟨k, q, rfl, ⟨rfl, hnumber⟩, hF, hq⟩ := hs.inv
      unfold Local.code at hstep
      rw [hpos] at hstep
      cases hstep
      have hkept' := hkept.scratch values
      refine ⟨h.loaded, h.waiting,
        .calling hnumber rfl rfl ⟨hsaved, k + 1, ?_, .sound ?_, hkept'⟩⟩
      · show (l.regs.scratch values).gpr 29 = _
        rw [Regs.scratch_gpr (by decide)]
        exact h29
      · exact .body rfl trivial hF hq

theorem succ_mod_ne {n k : Nat} (hn : 1 < n) (hk : k < n) : (k + 1) % n ≠ k := by
  by_cases hlast : k + 1 = n
  · rw [hlast, Nat.mod_self]
    omega
  · rw [Nat.mod_eq_of_lt (by omega)]
    omega

section Call

variable {curr next : Nat}

theorem Local.ctxCall_suspended :
    (l.ctxCall cfg p values curr next).suspended l.loaded =
      (l.ctxCall cfg p values curr next).regs.slot :=
  Function.update_self ..

theorem Local.ctxCall_suspended_of_ne (h : t ≠ l.loaded) :
    (l.ctxCall cfg p values curr next).suspended t = l.suspended t :=
  Function.update_of_ne h ..

theorem Local.ctxCall_gpr_4 :
    (l.ctxCall cfg p values curr next).regs.gpr 4 = .context (cfg.context p curr) := by
  simp [Local.ctxCall]

theorem Local.ctxCall_gpr_5 :
    (l.ctxCall cfg p values curr next).regs.gpr 5 = .context (cfg.context p next) := by
  simp [Local.ctxCall]

theorem Local.ctxCall_gpr_29 :
    (l.ctxCall cfg p values curr next).regs.gpr 29 = l.regs.gpr 29 := by
  have hkept : 29 ∉ temporaries := by decide
  simp [Local.ctxCall, Regs.scratch_gpr hkept]

theorem Kept.ctxCall {U : Option (Pos × Regs)} (h : Kept U l.regs.slot) :
    Kept U (l.ctxCall cfg p values curr next).regs.slot := by
  have hcall : 4 ∉ preserved ∧ 5 ∉ preserved ∧ 31 ∉ preserved := by decide
  exact (((h.scratch values).set hcall.1).set hcall.2.1).set hcall.2.2

end Call

/-- `_ctx_switch` calls `_task_switch`. -/
theorem Local.Inv.call (h : l.Inv cfg p m) (hnumber : 1 < cfg.number p)
    (hcurrent : l.current = (l.loaded + 1) % cfg.number p) (hrun : Running cfg p m l .ctxReturn) :
    (l.ctxCall cfg p values l.loaded l.current).Inv cfg p m := by
  have hloaded := h.loaded hnumber
  have hne : l.current ≠ l.loaded := hcurrent ▸ succ_mod_ne hnumber hloaded
  have hlt : l.current < cfg.number p := hcurrent ▸ Nat.mod_lt _ (Nat.zero_lt_of_lt hnumber)
  obtain ⟨hsaved, d, h29, hat, hkept⟩ := hrun
  refine ⟨h.loaded, ?_, .switching 0 (by decide) rfl hlt hne ?_ ?_⟩
  · intro t ht hother
    have hother : t ≠ l.loaded := hother
    show Placed _ t (l.stack t) (l.interrupted t)
      ((l.ctxCall cfg p values l.loaded l.current).suspended t) _
    rw [Local.ctxCall_suspended_of_ne hother]
    exact h.waiting t ht hother
  · show Placed _ l.loaded (l.stack l.loaded) (l.interrupted l.loaded)
      ((l.ctxCall cfg p values l.loaded l.current).suspended l.loaded) _
    rw [Local.ctxCall_suspended]
    cases hat with
    | sound hs =>
        obtain ⟨k, q, rfl, hfits, hF, hq⟩ := hs.inv
        refine ⟨k + 1, Local.ctxCall_gpr_29.trans h29, .sound ?_, hkept.ctxCall⟩
        exact .jump Pos.kind_switch_end (.body rfl hfits hF hq)
  · have hown {t : Nat} (ht : t < cfg.number p) : ∀ n ∈ slots, cfg.Own p (cfg.context p t + n) :=
      fun n hn => Config.own_context ht hn
    have hdisjoint : ∀ n ∈ slots, ∀ k ∈ slots,
        cfg.context p l.current + n ≠ cfg.context p l.loaded + k :=
      fun n hn k hk => Config.context_ne hlt hloaded hne hn hk
    refine taskSwitch_leads Local.ctxCall_gpr_4 Local.ctxCall_gpr_5 (hown hloaded) (hown hlt)
      hdisjoint ?_
    intro r' m' h27 hstored hkept hslots
    refine ⟨h27, ?_, ?_⟩
    · intro n hn
      show r'.slot n = (l.ctxCall cfg p values l.loaded l.current).suspended l.current n
      rw [hslots n hn, Local.ctxCall_suspended_of_ne hne]
      exact hsaved _ hlt hne n hn
    · intro t ht hother n hn
      by_cases hold : t = l.loaded
      · rw [hold, Local.ctxCall_suspended]
        exact hstored n hn
      · rw [hkept _ fun k hk => Config.context_ne ht hloaded hold hn hk,
          Local.ctxCall_suspended_of_ne hold]
        exact hsaved t ht hold n hn

/-- An instruction of `_task_switch`. -/
theorem Local.Inv.instr {k : Nat} {i : Instr} (h : l.Inv cfg p m) (hpos : l.pos = .switch k)
    (hi : taskSwitch[k]? = some i) (hexec : i.exec l.regs m = some (r, m')) :
    (l.executed cfg k r).Inv cfg p m' ∧ (∀ a, ¬ cfg.Own p a → m' a = m a) ∧
      (k + 1 = taskSwitch.length →
        ∀ n ∈ slots, r.slot n = l.suspended (l.executed cfg k r).loaded n) := by
  obtain ⟨hklt, hget⟩ := List.getElem?_eq_some_iff.mp hi
  cases h.phase with
  | running _ hrun =>
      -- a task that runs is not in the middle of the code
      obtain ⟨_, d, _, hat, _⟩ := hrun
      rw [hpos] at hat
      exact absurd hat.switch_end (Nat.ne_of_lt hklt)
  | calling _ _ hpos' _ =>
      rw [hpos] at hpos'
      cases hpos'
  | switching k' hk' hpos' hlt hne hwait hleads =>
      rw [hpos] at hpos'
      cases hpos'
      rw [List.drop_eq_getElem_cons hklt, hget] at hleads
      have hrest := hleads.step hexec
      have hframe : ∀ a, ¬ cfg.Own p a → m' a = m a := fun a ha => hleads.frame hexec ha
      by_cases hend : k + 1 = taskSwitch.length
      · rw [hend, List.drop_length] at hrest
        obtain ⟨h27, hslots, hsaved⟩ := hrest
        have hresumed : (r.gpr 27).base.elim l.loaded cfg.taskOf = l.current := by
          rw [h27]
          exact Config.taskOf_context (Nat.lt_of_lt_of_le hlt (cfg.number_le p))
        unfold Local.executed
        rw [if_pos hend, hresumed]
        refine ⟨⟨fun _ => hlt, ?_, ?_⟩, hframe, fun _ => hslots⟩
        · intro t ht hother
          by_cases hold : t = l.loaded
          · exact hold ▸ hwait
          · exact h.waiting t ht hold
        · have hplaced := (h.waiting l.current hlt hne).congr hslots
          rw [← hend] at hplaced
          exact .running rfl ⟨hsaved, hplaced⟩
      · unfold Local.executed
        rw [if_neg hend]
        refine ⟨⟨h.loaded, h.waiting, ?_⟩, hframe, fun h => absurd h hend⟩
        exact .switching (k + 1) (by omega) rfl hlt hne hwait hrest

/-- Code other than `_task_switch`. -/
theorem Local.Inv.code (h : l.Inv cfg p m)
    (hno : ∀ k, l.pos = .switch k → taskSwitch.length ≤ k)
    (hstep : l.code cfg p values pc = some l') : l'.Inv cfg p m := by
  cases h.phase with
  | running hcurrent hrun =>
      by_cases hstore : ∃ curr, l.pos = .ctxStore curr
      · obtain ⟨curr, hpos⟩ := hstore
        exact h.store hrun hpos hstep
      · obtain ⟨d, h29, hat, hkept⟩ := hrun.placed
        have hother : ∀ curr, l.pos ≠ .ctxStore curr := fun curr hpos => hstore ⟨curr, hpos⟩
        exact h.goes hcurrent hrun (Goes.code rfl hkept hcurrent h29 hat hother hstep)
  | calling hnumber hcurrent hpos hrun =>
      unfold Local.code at hstep
      rw [hpos] at hstep
      cases hstep
      exact h.call hnumber hcurrent hrun
  | switching k hk hpos _ _ _ _ => exact absurd (hno k hpos) (Nat.not_le_of_lt hk)

/-- A task that runs. -/
theorem Local.Inv.running (h : l.Inv cfg p m) (hno : ¬ l.pos.switching) :
    l.current = l.loaded ∧ Running cfg p m l l.pos := by
  cases h.phase with
  | running hcurrent hrun => exact ⟨hcurrent, hrun⟩
  | calling _ _ hpos _ =>
      rw [hpos] at hno
      exact absurd trivial hno
  | switching k hk hpos _ _ _ _ =>
      rw [hpos] at hno
      exact absurd hk hno

/-- An instruction of `_task_switch` is executed. -/
theorem Local.next_switch {k : Nat} {i : Instr} (hpos : l.pos = .switch k)
    (hi : taskSwitch[k]? = some i) (hstep : l.next cfg p m (.run values pc) = some (l', m')) :
    ∃ r, i.exec l.regs m = some (r, m') ∧ l' = l.executed cfg k r := by
  unfold Local.next at hstep
  simp only [hpos, hi] at hstep
  obtain ⟨⟨r, m₁⟩, hexec, heq⟩ := Option.map_eq_some_iff.mp hstep
  cases heq
  exact ⟨r, hexec, rfl⟩

/-- Other code is. -/
theorem Local.next_code (hno : ∀ k, l.pos = .switch k → taskSwitch.length ≤ k)
    (hstep : l.next cfg p m (.run values pc) = some (l', m')) :
    l.code cfg p values pc = some l' ∧ m' = m := by
  have hcode : (l.code cfg p values pc).map (·, m) = some (l', m') := by
    unfold Local.next at hstep
    cases hpos : l.pos with
    | switch k =>
        simp only [hpos, List.getElem?_eq_none (hno k hpos)] at hstep
        exact hstep
    | _ =>
        simp only [hpos] at hstep
        exact hstep
  obtain ⟨l₁, hl₁, heq⟩ := Option.map_eq_some_iff.mp hcode
  cases heq
  exact ⟨hl₁, rfl⟩

/-- A step of a careful processor keeps the invariant, and writes its own contexts only. -/
theorem Local.Inv.next {e : Event} (h : l.Inv cfg p m)
    (hcareful : e = .interrupt → ¬ l.pos.switching) (hstep : l.next cfg p m e = some (l', m')) :
    l'.Inv cfg p m' ∧ ∀ a, ¬ cfg.Own p a → m' a = m a := by
  cases e with
  | run values pc =>
      by_cases hno : ∀ k, l.pos = .switch k → taskSwitch.length ≤ k
      · obtain ⟨hcode, rfl⟩ := Local.next_code hno hstep
        exact ⟨h.code hno hcode, fun _ _ => rfl⟩
      · obtain ⟨k, hpos, hk⟩ : ∃ k, l.pos = .switch k ∧ k < taskSwitch.length := by
          by_contra hall
          refine hno fun k hpos => Nat.le_of_not_lt fun hk => hall ⟨k, hpos, hk⟩
        obtain ⟨r, hexec, rfl⟩ := Local.next_switch hpos (List.getElem?_eq_getElem hk) hstep
        obtain ⟨hinv, hframe, _⟩ := h.instr hpos (List.getElem?_eq_getElem hk) hexec
        exact ⟨hinv, hframe⟩
  | syscall ctxSwitch =>
      unfold Local.next at hstep
      cases hpos : l.pos with
      | user pc =>
          have hno : ¬ l.pos.switching := by
            rw [hpos]
            exact id
          obtain ⟨hcurrent, hrun⟩ := h.running hno
          simp only [hpos] at hstep
          obtain ⟨l₁, hl₁, heq⟩ := Option.map_eq_some_iff.mp hstep
          cases heq
          obtain ⟨d, h29, hat, _⟩ := hrun.placed
          rw [hpos] at hat
          cases hat with
          | sound hs =>
              exact ⟨h.goes hcurrent hrun (Goes.sysEnter hs.inv h29 hl₁), fun _ _ => rfl⟩
      | _ =>
          simp only [hpos] at hstep
          cases hstep
  | leave =>
      unfold Local.next at hstep
      dsimp only at hstep
      split_ifs at hstep with hpos
      have hno : ¬ l.pos.switching := by
        rw [hpos]
        exact id
      obtain ⟨hcurrent, hrun⟩ := h.running hno
      obtain ⟨l₁, hl₁, heq⟩ := Option.map_eq_some_iff.mp hstep
      cases heq
      obtain ⟨d, h29, hat, hkept⟩ := hrun.placed
      rw [hpos] at hat
      cases hat with
      | sound hs =>
          obtain ⟨k, q, rfl, _, hF, hq⟩ := hs.inv
          exact ⟨h.goes hcurrent hrun (Goes.return rfl hkept h29 hF hq hl₁), fun _ _ => rfl⟩
  | interrupt =>
      obtain ⟨hcurrent, hrun⟩ := h.running (hcareful rfl)
      obtain ⟨l₁, hl₁, heq⟩ := Option.map_eq_some_iff.mp hstep
      cases heq
      obtain ⟨d, h29, hat, _⟩ := hrun.placed
      exact ⟨h.goes hcurrent hrun (Goes.interrupt rfl h29 hat hl₁), fun _ _ => rfl⟩

/-- The last instruction of `_task_switch` resumes a task with the registers it was suspended
with. -/
theorem Local.Inv.resumed {e : Event} (h : l.Inv cfg p m) (hresumes : l.resumes e)
    (hstep : l.next cfg p m e = some (l', m')) :
    ∀ n ∈ slots, l'.regs.slot n = l'.suspended l'.loaded n := by
  obtain ⟨hpos, values, pc, rfl⟩ := hresumes
  have hlast : taskSwitch.length - 1 + 1 = taskSwitch.length := rfl
  have hi := List.getElem?_eq_getElem (Nat.lt_of_succ_le (Nat.le_of_eq hlast))
  obtain ⟨r, hexec, rfl⟩ := Local.next_switch hpos hi hstep
  exact (h.instr hpos hi hexec).2.2 hlast

/-- The `eret` of `_int_handler` resumes a task where it was interrupted, with the registers it
had there. -/
theorem Local.Inv.returned {e : Event} {q : Pos} {u : Regs} (h : l.Inv cfg p m)
    (hreturns : l.returns e) (hU : l.interrupted l.loaded = some (q, u))
    (hstep : l.next cfg p m e = some (l', m')) :
    l'.pos = q ∧ ∀ n ∈ 0 :: general, l'.regs.slot n = u.slot n := by
  obtain ⟨hpos, values, pc, rfl⟩ := hreturns
  have hno : ¬ l.pos.switching := by
    rw [hpos]
    exact id
  obtain ⟨d, h29, hat, hkept⟩ := (h.running hno).2.placed
  rw [hU] at hat hkept
  rw [hpos] at hat
  have hcode : ∀ k, l.pos = .switch k → taskSwitch.length ≤ k := by
    intro k hk
    rw [hpos] at hk
    cases hk
  have heret : l.eret = some l' := by
    obtain ⟨hl', _⟩ := Local.next_code hcode hstep
    unfold Local.code at hl'
    rw [hpos] at hl'
    exact hl'
  exact Local.eret_returns hkept h29 hat heret

end Steps

/-! ## Runs -/

section Runs

variable {cfg : Config} {s s' : State} {p : Nat} {e : Event}

/-- A step of a processor. -/
theorem State.next_some (hstep : s.next cfg (p, e) = some s') :
    ∃ l', (s.proc p).next cfg p s.table e = some (l', s'.table) ∧
      s'.proc = Function.update s.proc p l' := by
  obtain ⟨⟨l', m'⟩, hnext, heq⟩ := Option.map_eq_some_iff.mp hstep
  cases heq
  exact ⟨l', hnext, rfl⟩

/-- After the boot. -/
theorem Local.Start.inv {m : Table} {l : Local} (h : l.Start cfg p m) : l.Inv cfg p m where
  loaded := by
    intro hnumber
    rw [h.loaded]
    exact Nat.zero_lt_of_lt hnumber
  waiting := by
    intro t ht hne
    rw [h.loaded] at hne
    obtain ⟨hexl, ⟨d, h29⟩, h31, pc, h32⟩ := h.context t ht hne
    rw [Waiting, h.interrupted t]
    exact ⟨d, h29, .start hexl h32 h31 rfl, .none⟩
  phase := by
    obtain ⟨pc, hpos⟩ := h.pos
    obtain ⟨d, h29⟩ := h.stack
    refine .running (h.current.trans h.loaded.symm) ⟨?_, d, ?_, ?_, ?_⟩
    · intro t ht _ n hn
      exact (h.suspended t ht n hn).symm
    · rw [h.loaded]
      exact h29
    · rw [hpos, h.interrupted]
      exact .sound (.user rfl)
    · rw [h.interrupted]
      exact .none

/-- The invariant of all processors in a careful run. -/
theorem State.inv (h : ((scheduling cfg).under Careful).Reachable s) :
    ∀ p, (s.proc p).Inv cfg p s.table := by
  refine h.invariant (fun _ hinit p => (hinit p).inv) ?_
  rintro s ⟨p, e⟩ s' hinv ⟨hcareful, hstep⟩ p'
  obtain ⟨l', hnext, hproc⟩ := State.next_some hstep
  obtain ⟨hkeep, hframe⟩ := (hinv p).next hcareful hnext
  rw [hproc]
  rcases eq_or_ne p' p with rfl | hne
  · rw [Function.update_self]
    exact hkeep
  · rw [Function.update_of_ne hne]
    refine (hinv p').agree fun a ha => hframe a fun ha' => ?_
    exact ha.disjoint hne.symm ha'

/-- In a run in which no processor takes an interrupt between its store to
`_current_task_array` and the end of `_task_switch`, context switches preserve tasks. -/
theorem preserves_of_careful (cfg : Config) (s : State)
    (h : ((scheduling cfg).under Careful).Reachable s) :
    Preserves ((scheduling cfg).under Careful) cfg s where
  current := by
    intro p pc hpos
    have hno : ¬ (s.proc p).pos.switching := by
      rw [hpos]
      exact id
    exact ((State.inv h p).running hno).1
  resumed := by
    rintro p e s' ⟨_, hstep⟩ hresumes
    obtain ⟨l', hnext, hproc⟩ := State.next_some hstep
    rw [hproc, Function.update_self]
    exact (State.inv h p).resumed hresumes hnext
  returned := by
    rintro p e s' ⟨_, hstep⟩ hreturns pos r hU
    obtain ⟨l', hnext, hproc⟩ := State.next_some hstep
    rw [hproc, Function.update_self]
    exact (State.inv h p).returned hreturns hU hnext
  table := by
    rintro p e s' ⟨hcareful, hstep⟩ a hne
    obtain ⟨l', hnext, _⟩ := State.next_some hstep
    by_contra hnot
    refine hne (((State.inv h p).next hcareful hnext).2 a fun hown => ?_)
    obtain ⟨t, ht, n, hn, rfl⟩ := hown
    exact hnot ⟨t, ht, n, (lt_of_mem_slots hn).1, (lt_of_mem_slots hn).2, rfl⟩

end Runs

/-! ## Two runs -/

/-- A context the boot code may have set up for a task. -/
def bootContext (t n : Nat) : Val :=
  if n = 0 then .word 0xFF13
  else if n = 29 then .stack t 0
  else if n = 31 then .code .eret
  else if n = 32 then .code (.user 0x400000)
  else .word 0

/-- A processor that has left the boot code. -/
def Local.boot : Local where
  pos := .user 0x400000
  regs := ⟨fun n => if n = 29 then .stack 0 0 else .word 0, fun _ => .word 0xFF11⟩
  current := 0
  stack _ _ := .ret (.word 0)
  loaded := 0
  suspended := bootContext
  interrupted _ := none

def State.boot (cfg : Config) : State :=
  ⟨fun _ => .boot, fun a => bootContext (a / 64 % cfg.nbMaxTasks) (a % 64)⟩

theorem State.boot_start (cfg : Config) : (scheduling cfg).init (.boot cfg) := by
  intro p
  have hexl : (Val.word 0xFF13).exl = true := by decide
  refine ⟨⟨_, rfl⟩, ⟨_, rfl⟩, rfl, rfl, ?_, fun _ => rfl,
    fun t _ _ => ⟨hexl, ⟨_, rfl⟩, rfl, _, rfl⟩⟩
  intro t ht n hn
  have hlt := Nat.lt_of_lt_of_le ht (cfg.number_le p)
  have hn64 := (lt_of_mem_slots hn).1
  have hword : (cfg.context p t + n) % 64 = n := by
    unfold Config.context
    omega
  have htask : (cfg.context p t + n) / 64 = p * cfg.nbMaxTasks + t := by
    unfold Config.context
    omega
  show bootContext t n = bootContext ((cfg.context p t + n) / 64 % cfg.nbMaxTasks) _
  rw [hword, htask, Nat.mul_comm, Nat.mul_add_mod, Nat.mod_eq_of_lt hlt]

/-- Two tasks on each processor. -/
def twoTasks : Config := ⟨4, fun _ => 2, fun _ => by decide⟩

/-- The processor 0 goes on for some steps, and computes nothing but 7. -/
def go (steps : Nat) : List (Nat × Event) := List.replicate steps (0, .run (fun _ => 7) 0x400004)

/-- The next instruction of the processor 0 is the last one of `_task_switch`. -/
def lastInstr (s : State) : Bool := (s.proc 0).pos = .switch (taskSwitch.length - 1)

/-- It leaves a task with another `$16` than the task was suspended with. -/
def resumesWrong (s : State) : Bool :=
  (s.next twoTasks (0, .run (fun _ => 7) 0x400004)).any fun s' =>
    (s'.proc 0).regs.slot 16 ≠ (s'.proc 0).suspended (s'.proc 0).loaded 16

/-- It is about to go back to an interrupted task. -/
def goesBack (s : State) : Bool :=
  (s.proc 0).pos = .eret ∧ ((s.proc 0).interrupted (s.proc 0).loaded).isSome

/-- A task that is interrupted by the timer gives way to the other one, and goes on when that one
is interrupted. -/
theorem preserves_of_careful_timer :
    ∃ s, ((scheduling twoTasks).under Careful).Reachable s ∧
      ((s.proc 0).pos = .eret ∧ ((s.proc 0).interrupted (s.proc 0).loaded).isSome) ∧
      Preserves ((scheduling twoTasks).under Careful) twoTasks s := by
  have hrun : (exec (guarded Careful (State.next twoTasks))
      (go 1 ++ [(0, .interrupt)] ++ go 80 ++ [(0, .interrupt)] ++ go 80)
      (.boot twoTasks)).any goesBack = true := by
    decide +kernel
  obtain ⟨s, hs, htest⟩ := System.exists_exec (S := (scheduling twoTasks).under Careful)
    (guarded_step fun _ _ _ h => h) (State.boot_start twoTasks) hrun
  exact ⟨s, hs, of_decide_eq_true htest, preserves_of_careful twoTasks s hs⟩

/-- A task calls `ctx_switch`, and is interrupted when `_ctx_switch` has stored the other task.
The interrupt routine saves the registers as those of the other task, and loads an old state of
the task itself. -/
theorem not_preserves :
    ¬ ∀ cfg s, (scheduling cfg).Reachable s → Preserves (scheduling cfg) cfg s := by
  intro hall
  have hrun : (exec (State.next twoTasks)
      (go 1 ++ [(0, .syscall true)] ++ go 4 ++ [(0, .interrupt)] ++ go 5 ++ go 71)
      (.boot twoTasks)).any (fun s => lastInstr s && resumesWrong s) = true := by
    decide +kernel
  obtain ⟨s, hs, htest⟩ := System.exists_exec (S := scheduling twoTasks)
    (fun _ _ _ h => h) (State.boot_start twoTasks) hrun
  obtain ⟨hlast, hwrong⟩ := Bool.and_eq_true_iff.mp htest
  obtain ⟨s', hstep, hne⟩ := (Option.any_eq_true _ _).mp hwrong
  have hresumes : (s.proc 0).resumes (.run (fun _ => 7) 0x400004) :=
    ⟨of_decide_eq_true hlast, _, _, rfl⟩
  exact of_decide_eq_true hne ((hall twoTasks s hs).resumed 0 _ s' hstep hresumes 16 (by decide))

end SmcTp.Giet.TaskSwitch
