import SmcTp.Giet.ContextSwitch

/-!
# How a task gets back to its code

A task that does not run is where `_task_switch` has left it, and its stack says how it gets
back to its code: from a function by the return address on the stack, from a handler by an
`eret`.  `Sound` is that chain.  It says the same of the task that runs, wherever it is, so
that an interrupt only adds a link to it.

What an interrupted task gets back comes from two places: the frame of `_int_handler`, which is
a link of the chain, and the registers no handler or function changes, of which `Kept` is.

`Goes` is what a step of the task that runs keeps, with a lemma for each piece of code.
-/

namespace SmcTp.Giet.TaskSwitch

open Clocked Programs

/-! ## Where a task stands -/

/-- What a position needs on the stack. -/
inductive Kind where
  /-- Nothing. -/
  | user
  /-- The frame of `_sys_handler`. -/
  | sys
  /-- The frame of `_int_handler`. -/
  | int
  /-- Nothing, but the return address is in `$31`. -/
  | jump
  /-- The frame of a function. -/
  | body
  /-- It is no place a task is interrupted at. -/
  | other
deriving DecidableEq

def Pos.kind : Pos → Kind
  | .user _ => .user
  | .jalr _ | .sysReturn => .sys
  | .isr | .isrReturn => .int
  | .callEntry | .ctxEntry => .jump
  | .switch k => if k = taskSwitch.length then .jump else .other
  | .call | .ctxRead | .ctxStore _ | .ctxReturn => .body
  | .ctxCall _ _ | .eret => .other

/-- What `_ctx_switch` has found out about the task it was called from, one of `number`. -/
def Pos.Fits (number t : Nat) : Pos → Prop
  | .ctxRead => 1 < number
  | .ctxStore curr => curr = t ∧ 1 < number
  | _ => True

/-! ## What an interrupted task gets back -/

/-- The registers a function preserves, other than its stack pointer. -/
def preserved : List Nat := [16, 17, 18, 19, 20, 21, 22, 23, 28, 30]

/-- The registers in a context are those `_int_handler` saves, the preserved ones and the stack
pointer. -/
theorem mem_general {n : Nat} (h : n ∈ general) :
    n ∈ 31 :: temporaries ∨ n ∈ preserved ∨ n = 29 := by
  revert n
  decide

theorem mem_general_of_mem_temporaries {n : Nat} (h : n ∈ 31 :: temporaries) : n ∈ general := by
  revert n
  decide

theorem mem_slots_of_mem_preserved {n : Nat} (h : n ∈ preserved) :
    n ∈ slots ∧ n ∈ general ∧ n ∉ 31 :: temporaries ∧ n ≠ 29 := by
  revert n
  decide

/-- The registers `_int_handler` saves are those of `u`, whose stack is `d` frames deep. -/
def Framed (t d : Nat) (gpr : Nat → Val) (u : Regs) : Prop :=
  u.gpr 29 = .stack t d ∧ ∀ n ∈ 31 :: temporaries, gpr n = u.gpr n

/-- The status register and the preserved registers are those of the interrupted task, with the
bit `EXL` set. -/
def Kept (U : Option (Pos × Regs)) (r : Nat → Val) : Prop :=
  ∀ q u, U = some (q, u) →
    (∃ w, u.cop0 .sr = .word w ∧ w.getLsbD 1 = false ∧ r 0 = .word (w ||| 2)) ∧
      ∀ n ∈ preserved, r n = u.gpr n

section Kept

variable {U : Option (Pos × Regs)} {q : Pos} {r u : Regs} {v : Val}

theorem Kept.none {r : Nat → Val} : Kept none r := by
  intro q u hU
  cases hU

theorem Kept.congr {r r' : Nat → Val} (h : Kept U r) (h0 : r' 0 = r 0)
    (hr : ∀ n ∈ preserved, r' n = r n) : Kept U r' := by
  intro q u hU
  obtain ⟨hsr, hgpr⟩ := h q u hU
  rw [h0]
  exact ⟨hsr, fun n hn => (hr n hn).trans (hgpr n hn)⟩

theorem Kept.regs {r' : Regs} (h : Kept U r.slot) (hsr : r'.cop0 .sr = r.cop0 .sr)
    (hgpr : ∀ n ∈ preserved, r'.gpr n = r.gpr n) : Kept U r'.slot := by
  refine h.congr hsr fun n hn => ?_
  have hgen := (mem_slots_of_mem_preserved hn).2.1
  rw [Regs.slot_general _ hgen, Regs.slot_general _ hgen, hgpr n hn]

theorem Kept.set {k : Nat} (h : Kept U r.slot) (hk : k ∉ preserved) : Kept U (r.set k v).slot :=
  h.regs rfl fun _ hn => Regs.set_gpr_of_ne _ _ fun heq => hk (heq ▸ hn)

theorem Kept.scratch (h : Kept U r.slot) (values : Nat → Word) :
    Kept U (r.scratch values).slot := by
  refine h.regs rfl fun n hn => if_neg fun htemp => ?_
  exact (mem_slots_of_mem_preserved hn).2.2.1 (List.mem_cons_of_mem _ htemp)

end Kept

section Sound

variable (number t : Nat)

/-- The task `t` gets back to its code from `pos`, where the stack `F` is `d` frames deep, `x`
is the bit `EXL`, and `$31` holds `ra`.  If the timer has interrupted it, it gets back to the
interrupted code with the registers in `U`. -/
inductive Sound (F : Nat → Frame) : Option (Pos × Regs) → Nat → Bool → Pos → Val → Prop where
  | user {d : Nat} {x : Bool} {pos : Pos} {ra : Val} : pos.kind = .user → Sound F none d x pos ra
  | sys {d : Nat} {x : Bool} {pos : Pos} {ra sr : Val} {pc : Word} :
      pos.kind = .sys → F d = .sys sr (.code (.user pc)) → sr.exl = true →
      Sound F none (d + 1) x pos ra
  | int {d : Nat} {pos q : Pos} {ra : Val} {gpr : Nat → Val} {u : Regs} :
      pos.kind = .int → F d = .int gpr (.code q) → Framed t d gpr u →
      Sound F none d false q (gpr 31) → Sound F (some (q, u)) (d + 1) true pos ra
  | jump {U : Option (Pos × Regs)} {d : Nat} {x : Bool} {pos q : Pos} :
      pos.kind = .jump → Sound F U d x q (.code q) → Sound F U d x pos (.code q)
  | body {U : Option (Pos × Regs)} {d : Nat} {x : Bool} {pos q : Pos} {ra : Val} :
      pos.kind = .body → pos.Fits number t → F d = .ret (.code q) → Sound F U d x q (.code q) →
      Sound F U (d + 1) x pos ra

/-- What is on the stack, by the kind of the position. -/
def Below (F : Nat → Frame) (U : Option (Pos × Regs)) (d : Nat) (x : Bool) (pos : Pos) (ra : Val) :
    Kind → Prop
  | .user => U = none
  | .sys => ∃ k sr pc, U = none ∧ d = k + 1 ∧ F k = .sys sr (.code (.user pc)) ∧ sr.exl = true
  | .int => ∃ k gpr q u, U = some (q, u) ∧ d = k + 1 ∧ x = true ∧ F k = .int gpr (.code q) ∧
      Framed t k gpr u ∧ Sound number t F none k false q (gpr 31)
  | .jump => ∃ q, ra = .code q ∧ Sound number t F U d x q (.code q)
  | .body => ∃ k q, d = k + 1 ∧ pos.Fits number t ∧ F k = .ret (.code q) ∧
      Sound number t F U k x q (.code q)
  | .other => False

/-- The task gets back to its code from `pos`, with what the switches and the handlers leave in
the registers. -/
inductive At (F : Nat → Frame) (U : Option (Pos × Regs)) (d : Nat) (r : Nat → Val) :
    Pos → Prop where
  | sound {pos : Pos} : Sound number t F U d (r 0).exl pos (r 31) → At F U d r pos
  | eret {q : Pos} :
      (r 0).exl = true → r 32 = .code q → Sound number t F none d false q (r 31) →
      (∀ q' u, U = some (q', u) → q = q' ∧ Framed t d r u) → At F U d r .eret
  | start {pc : Word} :
      (r 0).exl = true → r 32 = .code (.user pc) → r 31 = .code .eret → U = none →
      At F U d r (.switch taskSwitch.length)

/-- The registers `r` are those of the task `t` at `pos`. -/
def Placed (F : Nat → Frame) (U : Option (Pos × Regs)) (r : Nat → Val) (pos : Pos) : Prop :=
  ∃ d, r 29 = .stack t d ∧ At number t F U d r pos ∧ Kept U r

end Sound

section SoundLemmas

variable {number t d : Nat} {F F' : Nat → Frame} {U : Option (Pos × Regs)} {x : Bool} {pos q : Pos}
  {ra : Val}

theorem Sound.inv (h : Sound number t F U d x pos ra) :
    Below number t F U d x pos ra pos.kind := by
  cases h with
  | user hkind =>
      rw [hkind]
      rfl
  | sys hkind hF hsr =>
      rw [hkind]
      exact ⟨_, _, _, rfl, rfl, hF, hsr⟩
  | int hkind hF hu hq =>
      rw [hkind]
      exact ⟨_, _, _, _, rfl, rfl, rfl, hF, hu, hq⟩
  | jump hkind hq =>
      rw [hkind]
      exact ⟨_, rfl, hq⟩
  | body hkind hfits hF hq =>
      rw [hkind]
      exact ⟨_, _, rfl, hfits, hF, hq⟩

/-- A task that allows interrupts is not in the handler of one. -/
theorem Sound.not_interrupted (h : Sound number t F U d false pos ra) : U = none := by
  generalize hx : false = x at h
  induction h with
  | user _ => rfl
  | sys _ _ _ => rfl
  | int _ _ _ _ _ => cases hx
  | jump _ _ ih => exact ih hx
  | body _ _ _ _ ih => exact ih hx

/-- What is pushed further down the stack makes no difference. -/
theorem Sound.congr (h : Sound number t F U d x pos ra) (hF : ∀ k < d, F' k = F k) :
    Sound number t F' U d x pos ra := by
  induction h with
  | user hkind => exact .user hkind
  | sys hkind hframe hsr => exact .sys hkind ((hF _ (Nat.lt_succ_self _)).trans hframe) hsr
  | int hkind hframe hu _ ih =>
      have hlow := ih fun k hk => hF k (Nat.lt_succ_of_lt hk)
      exact .int hkind ((hF _ (Nat.lt_succ_self _)).trans hframe) hu hlow
  | jump hkind _ ih => exact .jump hkind (ih hF)
  | body hkind hfits hframe _ ih =>
      have hlow := ih fun k hk => hF k (Nat.lt_succ_of_lt hk)
      exact .body hkind hfits ((hF _ (Nat.lt_succ_self _)).trans hframe) hlow

theorem Sound.push (h : Sound number t F U d x pos ra) (f : Frame) :
    Sound number t (Function.update F d f) U d x pos ra :=
  h.congr fun _ hk => Function.update_of_ne (Nat.ne_of_lt hk) ..

theorem Pos.kind_switch_end : (Pos.switch taskSwitch.length).kind = .jump := by
  unfold Pos.kind
  exact if_pos rfl

end SoundLemmas

/-- A task is in `_task_switch` only at its end. -/
theorem At.switch_end {F : Nat → Frame} {U : Option (Pos × Regs)} {number t d k : Nat}
    {r : Nat → Val} (h : At number t F U d r (.switch k)) : k = taskSwitch.length := by
  by_contra hk
  cases h with
  | sound hs =>
      have hkind : (Pos.switch k).kind = .other := by
        unfold Pos.kind
        exact if_neg hk
      have hno := hs.inv
      rw [hkind] at hno
      exact hno
  | start _ _ _ _ => exact hk rfl

/-- Only the registers in a context matter. -/
theorem Placed.congr {F : Nat → Frame} {U : Option (Pos × Regs)} {number t : Nat} {r r' : Nat → Val}
    (h : Placed number t F U r (.switch taskSwitch.length)) (hr : ∀ n ∈ slots, r' n = r n) :
    Placed number t F U r' (.switch taskSwitch.length) := by
  obtain ⟨d, h29, hat, hkept⟩ := h
  have h0 : r' 0 = r 0 := hr 0 (by decide)
  have h31 : r' 31 = r 31 := hr 31 (by decide)
  have h32 : r' 32 = r 32 := hr 32 (by decide)
  refine ⟨d, (hr 29 (by decide)).trans h29, ?_, ?_⟩
  · generalize hpos : Pos.switch taskSwitch.length = pos at hat ⊢
    cases hat with
    | sound hs =>
        rw [← h0, ← h31] at hs
        exact .sound hs
    | eret _ _ _ _ => cases hpos
    | start hx hepc hra hU => exact .start (h0 ▸ hx) (h32.trans hepc) (h31.trans hra) hU
  · exact hkept.congr h0 fun n hn => hr n (mem_slots_of_mem_preserved hn).1

/-! ## Steps of the task that runs -/

/-- A step of the task that runs: it leaves the tasks that wait alone, and gets back to its
code from where it is then. -/
structure Goes (number : Nat) (l l' : Local) : Prop where
  loaded : l'.loaded = l.loaded
  suspended : l'.suspended = l.suspended
  stack : ∀ t, t ≠ l.loaded → l'.stack t = l.stack t
  interrupted : ∀ t, t ≠ l.loaded → l'.interrupted t = l.interrupted t
  current : l'.current = l.current
  placed : Placed number l.loaded (l'.stack l.loaded) (l'.interrupted l.loaded) l'.regs.slot l'.pos

section Goes

variable {cfg : Config} {p : Nat} {l l' : Local} {pos : Pos} {t d : Nat} {U : Option (Pos × Regs)}
variable {number : Nat} {r u : Regs} {sr ra : Val} {f : Frame} {values : Nat → Word} {pc : Word}

/-- A step which leaves the stack. -/
theorem Goes.moved (hU : l.interrupted l.loaded = U) (h29 : r.gpr 29 = .stack l.loaded d)
    (hkept : Kept U r.slot) (hat : At number l.loaded (l.stack l.loaded) U d r.slot pos) :
    Goes number l { l with pos := pos, regs := r } := by
  subst hU
  exact ⟨rfl, rfl, fun _ _ => rfl, fun _ _ => rfl, rfl, d, h29, hat, hkept⟩

theorem Goes.computed (hU : l.interrupted l.loaded = U) (h29 : r.gpr 29 = .stack l.loaded d)
    (hkept : Kept U r.slot) (hsr : r.cop0 .sr = sr) (hra : r.gpr 31 = ra)
    (hs : Sound number l.loaded (l.stack l.loaded) U d sr.exl pos ra) :
    Goes number l { l with pos := pos, regs := r } := by
  subst hsr hra
  exact .moved hU h29 hkept (.sound hs)

theorem Goes.of_regs (h : Goes number { l with pos := pos, regs := r } l') : Goes number l l' :=
  ⟨h.loaded, h.suspended, h.stack, h.interrupted, h.current, h.placed⟩

/-- A step which pushes a frame. -/
theorem Goes.pushed (hU : l.interrupted l.loaded = U) (h29 : r.gpr 29 = .stack l.loaded (d + 1))
    (hkept : Kept U r.slot) (hsr : r.cop0 .sr = sr) (hra : r.gpr 31 = ra)
    (hs : Sound number l.loaded (Function.update (l.stack l.loaded) d f) U (d + 1) sr.exl pos ra) :
    Goes number l
      { l with
        pos := pos
        regs := r
        stack := Function.update l.stack l.loaded (Function.update (l.stack l.loaded) d f) } := by
  subst hsr hra hU
  refine ⟨rfl, rfl, fun t hne => Function.update_of_ne hne .., fun _ _ => rfl, rfl, d + 1, h29, ?_,
    hkept⟩
  show At number l.loaded (Function.update l.stack l.loaded _ l.loaded) _ (d + 1) r.slot pos
  rw [Function.update_self]
  exact .sound hs

theorem Local.push_eq (h29 : l.regs.gpr 29 = .stack t d) (f : Frame) :
    l.push f = some { l with
      stack := Function.update l.stack t (Function.update (l.stack t) d f)
      regs := l.regs.set 29 (.stack t (d + 1)) } := by
  unfold Local.push
  rw [h29]

theorem Local.pop_eq (h29 : l.regs.gpr 29 = .stack t (d + 1)) :
    l.pop = some (l.stack t d, { l with regs := l.regs.set 29 (.stack t d) }) := by
  unfold Local.pop
  rw [h29]

theorem Regs.scratch_gpr {n : Nat} (h : n ∉ temporaries) : (r.scratch values).gpr n = r.gpr n :=
  if_neg h

theorem Regs.compute_gpr_29 (h29 : r.gpr 29 = .stack t d) :
    (r.compute values).gpr 29 = .stack t (values 29).toNat := by
  simp [Regs.compute, h29]

theorem exl_or (w : Word) : (Val.word (w ||| 2)).exl = true := by
  show (w ||| 2).getLsbD 1 = true
  simp

theorem exl_and (w : Word) : (Val.word (w &&& 0xFFFFFFFD)).exl = false := by
  show (w &&& 0xFFFFFFFD).getLsbD 1 = false
  simp

/-- A return from a function to the address in its frame. -/
theorem Goes.return {q : Pos} {k : Nat} (hU : l.interrupted l.loaded = U)
    (hkept : Kept U l.regs.slot) (h29 : l.regs.gpr 29 = .stack l.loaded (k + 1))
    (hF : l.stack l.loaded k = .ret (.code q))
    (hq : Sound number l.loaded (l.stack l.loaded) U k l.regs.exl q (.code q))
    (hstep : l.return = some l') : Goes number l l' := by
  unfold Local.return at hstep
  rw [Local.pop_eq h29, hF] at hstep
  cases hstep
  have hkept' := (hkept.set (k := 29) (v := .stack l.loaded k) (by decide)).set (k := 31)
    (v := .code q) (by decide)
  refine Goes.computed (d := k) hU ?_ hkept' rfl (Regs.set_gpr ..) hq
  simp

/-- A jump to the address in `$31`. -/
theorem Goes.jr {q : Pos} (hU : l.interrupted l.loaded = U) (hkept : Kept U l.regs.slot)
    (h29 : l.regs.gpr 29 = .stack l.loaded d) (h31 : l.regs.gpr 31 = .code q)
    (hq : Sound number l.loaded (l.stack l.loaded) U d l.regs.exl q (.code q))
    (hstep : l.jr = some l') : Goes number l l' := by
  unfold Local.jr at hstep
  rw [h31] at hstep
  cases hstep
  exact Goes.computed hU h29 hkept rfl h31 hq

/-- `_sys_handler` goes back to the user code. -/
theorem Goes.sysReturn {k : Nat} {pc' : Word} (hU : l.interrupted l.loaded = none)
    (h29 : l.regs.gpr 29 = .stack l.loaded (k + 1))
    (hF : l.stack l.loaded k = .sys sr (.code (.user pc'))) (hsr : sr.exl = true)
    (hstep : l.sysReturn = some l') : Goes number l l' := by
  unfold Local.sysReturn at hstep
  rw [Local.pop_eq h29, hF] at hstep
  cases hstep
  refine Goes.moved (d := k) hU ?_ .none (.eret hsr rfl (.user rfl) fun q u hU => ?_)
  · simp
  · cases hU

/-- `_int_handler` restores the registers. -/
theorem Goes.restore {k : Nat} {gpr : Nat → Val} {q : Pos}
    (hU : l.interrupted l.loaded = some (q, u)) (hkept : Kept (some (q, u)) l.regs.slot)
    (h29 : l.regs.gpr 29 = .stack l.loaded (k + 1))
    (hF : l.stack l.loaded k = .int gpr (.code q)) (hu : Framed l.loaded k gpr u)
    (hq : Sound number l.loaded (l.stack l.loaded) none k false q (gpr 31))
    (hx : l.regs.exl = true) (hstep : l.restore = some l') : Goes number l l' := by
  unfold Local.restore at hstep
  rw [Local.pop_eq h29, hF] at hstep
  cases hstep
  refine Goes.moved (d := k) hU ?_ (hkept.regs rfl ?_) (.eret hx rfl hq ?_)
  · have hother : 29 ∉ temporaries := by decide
    simp [hother]
  · intro n hn
    obtain ⟨_, hgen, hother, h29⟩ := mem_slots_of_mem_preserved hn
    have h27 : n ≠ 27 := (ne_of_mem_general hgen).2.2.1
    rw [Regs.setCop0_gpr, Regs.set_gpr_of_ne _ _ h27]
    exact (if_neg hother).trans (Regs.set_gpr_of_ne _ _ h29)
  · rintro q' u' heq
    cases heq
    refine ⟨rfl, hu.1, fun n hn => ?_⟩
    have hgen := mem_general_of_mem_temporaries hn
    have h27 : n ≠ 27 := (ne_of_mem_general hgen).2.2.1
    rw [Regs.slot_general _ hgen, Regs.setCop0_gpr, Regs.set_gpr_of_ne _ _ h27, ← hu.2 n hn]
    exact if_pos hn

/-- `eret` goes back to the position in `EPC`. -/
theorem Goes.eret {q : Pos} (h29 : l.regs.gpr 29 = .stack l.loaded d)
    (hepc : l.regs.cop0 .epc = .code q)
    (hq : Sound number l.loaded (l.stack l.loaded) none d false q (l.regs.gpr 31))
    (hstep : l.eret = some l') : Goes number l l' := by
  unfold Local.eret at hstep
  rw [hepc] at hstep
  cases hstep
  refine ⟨rfl, rfl, fun _ _ => rfl, fun t hne => Function.update_of_ne hne .., rfl, ?_⟩
  show Placed number l.loaded (l.stack l.loaded)
    (Function.update l.interrupted l.loaded none l.loaded)
    (l.regs.setStatus (· &&& 0xFFFFFFFD)).slot q
  rw [Function.update_self]
  refine ⟨d, h29, .sound ?_, .none⟩
  rw [Regs.slot_sr, Regs.setStatus, Regs.setCop0_cop0, exl_and]
  exact hq

/-- The code of the task that runs, up to the store of the next one. -/
theorem Goes.code (hU : l.interrupted l.loaded = U) (hkept : Kept U l.regs.slot)
    (hcurrent : l.current = l.loaded) (h29 : l.regs.gpr 29 = .stack l.loaded d)
    (hat : At (cfg.number p) l.loaded (l.stack l.loaded) U d l.regs.slot l.pos)
    (hstore : ∀ curr, l.pos ≠ .ctxStore curr) (hstep : l.code cfg p values pc = some l') :
    Goes (cfg.number p) l l' := by
  have h29' : (l.regs.scratch values).gpr 29 = .stack l.loaded d := by
    rw [Regs.scratch_gpr (by decide), h29]
  have h31' : (l.regs.scratch values).gpr 31 = l.regs.gpr 31 := Regs.scratch_gpr (by decide)
  have hkept' := hkept.scratch values
  have hnot : 29 ∉ preserved ∧ 31 ∉ preserved := by decide
  unfold Local.code at hstep
  generalize hpos : l.pos = pos at hat hstep hstore
  cases hat with
  | eret _ hepc hq _ => exact .eret h29 hepc hq hstep
  | start hx hepc hra hnone =>
      subst hnone
      have hjr : l.jr = some l' := hstep
      unfold Local.jr at hjr
      rw [show l.regs.gpr 31 = _ from hra] at hjr
      cases hjr
      refine .moved hU h29 .none (.eret hx hepc (.user rfl) fun q u heq => ?_)
      cases heq
  | sound hs =>
      cases pos with
      | user pc' =>
          obtain rfl : U = none := hs.inv
          cases hstep
          exact .computed hU (Regs.compute_gpr_29 h29) .none rfl rfl (.user rfl)
      | jalr ctxSwitch =>
          obtain ⟨k, sr, pc', rfl, rfl, hF, hsr⟩ := hs.inv
          cases hstep
          have hkind : (if ctxSwitch then Pos.ctxEntry else .callEntry).kind = .jump := by
            cases ctxSwitch <;> rfl
          refine Goes.computed hU ?_ .none rfl (Regs.set_gpr ..) (.jump hkind (.sys rfl hF hsr))
          simp [h29]
      | callEntry =>
          obtain ⟨q, hra, hq⟩ := hs.inv
          rw [Local.push_eq h29, show l.regs.gpr 31 = _ from hra] at hstep
          cases hstep
          refine Goes.pushed hU (Regs.set_gpr ..) (hkept.set hnot.1) rfl rfl ?_
          exact .body rfl trivial (Function.update_self ..) (hq.push _)
      | call =>
          cases hstep
          exact .computed hU h29' hkept' rfl h31' hs
      | sysReturn =>
          obtain ⟨k, sr, pc', rfl, rfl, hF, hsr⟩ := hs.inv
          exact .sysReturn hU h29 hF hsr hstep
      | isr =>
          obtain ⟨k, gpr, q, u, rfl, rfl, hx, hF, hu, hq⟩ := hs.inv
          cases hstep
          refine Goes.computed (d := k + 1) hU ?_ (hkept'.set hnot.2) rfl (Regs.set_gpr ..) ?_
          · simp [h29']
          · show Sound _ _ _ _ _ (l.regs.cop0 .sr).exl _ _
            rw [show (l.regs.cop0 .sr).exl = true from hx]
            exact .jump rfl (.int rfl hF hu hq)
      | isrReturn =>
          obtain ⟨k, gpr, q, u, rfl, rfl, hx, hF, hu, hq⟩ := hs.inv
          exact .restore hU hkept h29 hF hu hq hx hstep
      | ctxEntry =>
          obtain ⟨q, hra, hq⟩ := hs.inv
          have hra : l.regs.gpr 31 = .code q := hra
          change (if cfg.number p ≤ 1 then _ else _) = _ at hstep
          by_cases hnumber : cfg.number p ≤ 1
          · rw [if_pos hnumber] at hstep
            have hgoes := Goes.jr (l := { l with regs := l.regs.scratch values, pos := .ctxEntry })
              hU hkept' h29' (h31'.trans hra) hq hstep
            exact hgoes.of_regs
          · rw [if_neg hnumber,
              Local.push_eq (l := { l with regs := l.regs.scratch values, pos := _ }) h29',
              hra] at hstep
            cases hstep
            refine Goes.pushed hU (Regs.set_gpr ..) (hkept'.set hnot.1) rfl rfl ?_
            exact .body rfl (Nat.lt_of_not_le hnumber) (Function.update_self ..) (hq.push _)
      | ctxRead =>
          obtain ⟨k, q, rfl, hfits, hF, hq⟩ := hs.inv
          cases hstep
          exact .computed hU h29' hkept' rfl rfl (.body rfl ⟨hcurrent, hfits⟩ hF hq)
      | ctxStore curr => exact absurd rfl (hstore curr)
      | ctxCall curr next => exact hs.inv.elim
      | switch k =>
          have hat : At _ l.loaded (l.stack l.loaded) U d l.regs.slot _ := .sound hs
          have hjump := hs.inv
          rw [hat.switch_end, Pos.kind_switch_end] at hjump
          obtain ⟨q, hra, hq⟩ := hjump
          exact .jr hU hkept h29 hra hq hstep
      | ctxReturn =>
          obtain ⟨k, q, rfl, _, hF, hq⟩ := hs.inv
          have hgoes := Goes.return
            (l := { l with regs := l.regs.scratch values, pos := .ctxReturn })
            hU hkept' h29' hF hq hstep
          exact hgoes.of_regs
      | eret => exact hs.inv.elim

/-- A system call. -/
theorem Goes.sysEnter {pc' : Word} {ctxSwitch : Bool} (hU : l.interrupted l.loaded = none)
    (h29 : l.regs.gpr 29 = .stack l.loaded d) (hstep : l.sysEnter pc' ctxSwitch = some l') :
    Goes number l l' := by
  unfold Local.sysEnter at hstep
  dsimp only at hstep
  rw [Local.push_eq h29] at hstep
  cases hstep
  refine Goes.pushed hU ?_ .none rfl rfl (.sys rfl (Function.update_self ..) (exl_or _))
  simp

/-- The status register of a task that allows interrupts. -/
theorem Regs.enabled_sr (h : r.enabled = true) :
    ∃ w, r.cop0 .sr = .word w ∧ w.getLsbD 1 = false := by
  obtain ⟨hie, hexl⟩ := Bool.and_eq_true_iff.mp h
  have hexl : r.exl = false := by simpa using hexl
  unfold Regs.exl at hexl
  cases hsr : r.cop0 .sr with
  | word w =>
      rw [hsr] at hexl
      exact ⟨w, rfl, hexl⟩
  | _ =>
      rw [hsr] at hie
      simp [Val.status] at hie

/-- An interrupt. -/
theorem Goes.interrupt (hU : l.interrupted l.loaded = U) (h29 : l.regs.gpr 29 = .stack l.loaded d)
    (hat : At number l.loaded (l.stack l.loaded) U d l.regs.slot l.pos)
    (hstep : l.interrupt = some l') : Goes number l l' := by
  unfold Local.interrupt at hstep
  split_ifs at hstep with henabled
  obtain ⟨w, hw, hclear⟩ := Regs.enabled_sr henabled
  have hexl : (l.regs.slot 0).exl = false := by
    rw [Regs.slot_sr, hw]
    exact hclear
  rw [Local.push_eq h29] at hstep
  cases hstep
  have hsound : Sound number l.loaded (l.stack l.loaded) none d false l.pos (l.regs.gpr 31) := by
    generalize l.pos = pos at hat ⊢
    cases hat with
    | sound hs =>
        rw [hexl] at hs
        obtain rfl := hs.not_interrupted
        exact hs
    | eret hx _ _ _ => exact absurd hx (hexl ▸ Bool.false_ne_true)
    | start hx _ _ _ => exact absurd hx (hexl ▸ Bool.false_ne_true)
  refine ⟨rfl, rfl, fun t hne => Function.update_of_ne hne ..,
    fun t hne => Function.update_of_ne hne .., rfl, ?_⟩
  let r := (((((l.regs.set 29 (.stack l.loaded (d + 1))).setStatus (· ||| 2)).setCop0 .epc
    (.code l.pos)).set 27 (.code l.pos)).set 31 (.code .isrReturn))
  show Placed number l.loaded (Function.update l.stack l.loaded _ l.loaded)
    (Function.update l.interrupted l.loaded (some (l.pos, l.regs)) l.loaded) r.slot .isr
  have hsr : r.slot 0 = .word (w ||| 2) := by simp [r, Regs.setStatus, hw, Val.status]
  have hgpr {n : Nat} (h27 : n ≠ 27) (h29 : n ≠ 29) (h31 : n ≠ 31) : r.gpr n = l.regs.gpr n := by
    simp [r, Regs.setStatus, h27, h29, h31]
  rw [Function.update_self, Function.update_self]
  refine ⟨d + 1, ?_, .sound ?_, ?_⟩
  · show r.gpr 29 = _
    simp [r, Regs.setStatus]
  · rw [hsr, exl_or]
    exact .int rfl (Function.update_self ..) ⟨h29, fun _ _ => rfl⟩ (hsound.push _)
  · rintro q u heq
    cases heq
    refine ⟨⟨w, hw, hclear, hsr⟩, fun n hn => ?_⟩
    obtain ⟨_, hgen, hother, h29⟩ := mem_slots_of_mem_preserved hn
    have h31 : n ≠ 31 := fun heq => hother (heq ▸ List.mem_cons_self)
    rw [Regs.slot_general _ hgen, hgpr (ne_of_mem_general hgen).2.2.1 h29 h31]

/-! ## The `eret` of `_int_handler` -/

/-- Setting the bit `EXL` and clearing it again changes nothing. -/
theorem and_or_of_clear {w : Word} (h : w.getLsbD 1 = false) : (w ||| 2) &&& 0xFFFFFFFD = w := by
  have hbit : (2 : Word) = BitVec.twoPow 32 1 := by decide
  have hmask : (0xFFFFFFFD : Word) = ~~~BitVec.twoPow 32 1 := by decide
  rw [hmask, hbit]
  ext i hi
  by_cases hone : i = 1
  · subst hone
    have hw : w[1] = false := h
    simp [hw]
  · simp [BitVec.getElem_twoPow, hone]

/-- An interrupted task is back at its code with all its registers. -/
theorem Local.eret_returns {q : Pos} (hkept : Kept (some (q, u)) l.regs.slot)
    (h29 : l.regs.gpr 29 = .stack l.loaded d)
    (hat : At number l.loaded (l.stack l.loaded) (some (q, u)) d l.regs.slot .eret)
    (hstep : l.eret = some l') : l'.pos = q ∧ ∀ n ∈ 0 :: general, l'.regs.slot n = u.slot n := by
  cases hat with
  | sound hs => exact hs.inv.elim
  | eret _ hepc _ hu =>
      obtain ⟨rfl, hu29, hframed⟩ := hu _ _ rfl
      obtain ⟨⟨w, hw, hclear, hsr⟩, hpreserved⟩ := hkept _ _ rfl
      rw [Regs.slot_epc] at hepc
      rw [Regs.slot_sr] at hsr
      unfold Local.eret at hstep
      rw [hepc] at hstep
      cases hstep
      refine ⟨rfl, fun n hn => ?_⟩
      rcases List.mem_cons.mp hn with rfl | hgen
      · rw [Regs.slot_sr, Regs.slot_sr, Regs.setStatus, Regs.setCop0_cop0, hsr, hw, Val.status,
          and_or_of_clear hclear]
      · rw [Regs.slot_general _ hgen, Regs.slot_general _ hgen, Regs.setStatus, Regs.setCop0_gpr]
        rcases mem_general hgen with htemp | hpres | rfl
        · rw [← hframed n htemp, Regs.slot_general _ hgen]
        · rw [← hpreserved n hpres, Regs.slot_general _ hgen]
        · rw [hu29, h29]

end Goes

end SmcTp.Giet.TaskSwitch
