import Mathlib.Tactic.Common

/-!
# Clocked systems and their runs

A clocked system is a set of states a reset may leave it in and a step relation,
one step per clock edge under one input.  A component of a synchronous circuit
is the deterministic case, an environment with free choices is the general one.

*Reachability.*  `System.Reachable` collects the states of all finite runs, and
`System.Reachable.invariant` is the rule by which a property of every reachable
state is proved.  `System.Path` is a finite run with its steps.

*Runs.*  `System.Run` is an infinite run with its input sequence, `Run.invariant` the rule
for its states, and `Run.log` what its first steps have logged.  `exec` computes a finite run
of given inputs.

*Restriction.*  `System.under` keeps the steps whose input meets a condition, so
that an assumption about the environment is part of the system and not a
hypothesis of each theorem.
-/

namespace Clocked

universe u v w x

/-! ## Systems -/

/-- A clocked system over states `σ` and inputs `ι`. -/
structure System (σ : Type u) (ι : Type v) where
  /-- The states the reset may leave the system in. -/
  init : σ → Prop
  /-- One clock edge under an input. -/
  step : σ → ι → σ → Prop

variable {σ : Type u} {ι : Type v}

/-- The states of the finite runs. -/
inductive System.Reachable (S : System σ ι) : σ → Prop where
  | init {s : σ} : S.init s → S.Reachable s
  | step {s s' : σ} {i : ι} : S.Reachable s → S.step s i s' → S.Reachable s'

/-- What holds after the reset and is kept by every step holds in every
reachable state. -/
theorem System.Reachable.invariant {S : System σ ι} {P : σ → Prop}
    (start : ∀ s, S.init s → P s) (keep : ∀ s i s', P s → S.step s i s' → P s') {s : σ}
    (h : S.Reachable s) : P s := by
  induction h with
  | init h => exact start _ h
  | step _ hstep ih => exact keep _ _ _ ih hstep

/-- The system with the steps whose input meets `A`. -/
def System.under (S : System σ ι) (A : σ → ι → Prop) : System σ ι where
  init := S.init
  step s i s' := A s i ∧ S.step s i s'

/-- A system with fewer steps reaches no new state. -/
theorem System.Reachable.mono {S T : System σ ι} (start : ∀ s, S.init s → T.init s)
    (keep : ∀ s i s', S.step s i s' → T.step s i s') {s : σ} (h : S.Reachable s) :
    T.Reachable s := by
  induction h with
  | init h => exact .init (start _ h)
  | step _ hstep ih => exact .step ih (keep _ _ _ hstep)

/-- The finite runs, each with its steps and its last state. -/
inductive System.Path (S : System σ ι) : List (σ × ι) → σ → Prop where
  | init {s : σ} : S.init s → S.Path [] s
  | step {steps : List (σ × ι)} {s s' : σ} {i : ι} :
      S.Path steps s → S.step s i s' → S.Path (steps ++ [(s, i)]) s'

/-- A reachable state is the last one of a run. -/
theorem System.Reachable.path {S : System σ ι} {s : σ} (h : S.Reachable s) :
    ∃ steps, S.Path steps s := by
  induction h with
  | init h => exact ⟨[], .init h⟩
  | step _ hstep ih =>
      obtain ⟨steps, hpath⟩ := ih
      exact ⟨_, hpath.step hstep⟩

theorem System.Path.reachable {S : System σ ι} {steps : List (σ × ι)} {s : σ}
    (h : S.Path steps s) : S.Reachable s := by
  induction h with
  | init h => exact .init h
  | step _ hstep ih => exact .step ih hstep

/-- A system is seen as another one: every run of it is a run of the other. -/
theorem System.Path.map {τ : Type w} {κ : Type x} {S : System σ ι} {T : System τ κ} {f : σ → τ}
    {g : σ → ι → κ} (start : ∀ s, S.init s → T.init (f s))
    (keep : ∀ s i s', S.Reachable s → S.step s i s' → T.step (f s) (g s i) (f s'))
    {steps : List (σ × ι)} {s : σ} (h : S.Path steps s) :
    T.Path (steps.map fun e => (f e.1, g e.1 e.2)) (f s) := by
  induction h with
  | init h => exact .init (start _ h)
  | step hpath hstep ih =>
      rw [List.map_append]
      exact ih.step (keep _ _ _ hpath.reachable hstep)

/-- A system refines another one: each of its steps is one of the other, or none. -/
theorem System.Path.stutter {τ : Type w} {κ : Type x} {S : System σ ι} {T : System τ κ}
    {f : σ → τ} {g : σ × ι → Option (τ × κ)} (start : ∀ s, S.init s → T.init (f s))
    (keep : ∀ s i s', S.Reachable s → S.step s i s' → (g (s, i) = none ∧ f s' = f s) ∨
      ∃ k, g (s, i) = some (f s, k) ∧ T.step (f s) k (f s'))
    {steps : List (σ × ι)} {s : σ} (h : S.Path steps s) : T.Path (steps.filterMap g) (f s) := by
  induction h with
  | init h => exact .init (start _ h)
  | step hpath hstep ih =>
      rw [List.filterMap_append]
      rcases keep _ _ _ hpath.reachable hstep with ⟨hnone, hsame⟩ | ⟨k, hsome, hstep'⟩
      · rw [List.filterMap_cons_none hnone, List.filterMap_nil, List.append_nil, hsame]
        exact ih
      · rw [List.filterMap_cons_some hsome, List.filterMap_nil]
        exact ih.step hstep'

/-- What a step establishes and every step after it keeps. -/
theorem System.Path.since {S : System σ ι} {P : List (σ × ι) → σ → Prop} {A : σ → ι → Prop}
    {s₀ : σ} {i₀ : ι} (start : ∀ s', S.Reachable s₀ → S.step s₀ i₀ s' → P [(s₀, i₀)] s')
    (keep : ∀ steps s i s', S.Reachable s → P steps s → A s i → S.step s i s' →
      P (steps ++ [(s, i)]) s')
    {before after : List (σ × ι)} {s : σ} (h : S.Path (before ++ (s₀, i₀) :: after) s)
    (hafter : ∀ e ∈ after, A e.1 e.2) : P ((s₀, i₀) :: after) s := by
  generalize hsteps : before ++ (s₀, i₀) :: after = steps at h
  induction h generalizing after with
  | init _ => simp at hsteps
  | step hpath hstep ih =>
      rcases List.eq_nil_or_concat after with rfl | ⟨after, e, rfl⟩
      · obtain ⟨rfl, hlast⟩ := List.append_inj' hsteps rfl
        cases hlast
        exact start _ hpath.reachable hstep
      · rw [List.concat_eq_append] at hsteps hafter ⊢
        rw [← List.cons_append, ← List.append_assoc] at hsteps
        obtain ⟨hinit, hlast⟩ := List.append_inj' hsteps rfl
        cases hlast
        have hkept := ih (fun e he => hafter e (List.mem_append_left _ he)) hinit
        exact keep _ _ _ _ hpath.reachable hkept
          (hafter _ (List.mem_append_right _ List.mem_cons_self)) hstep

/-! ## Runs -/

/-- An infinite run: a state and an input at every time. -/
structure System.Run (S : System σ ι) where
  /-- The state before the edge at time `t`. -/
  state : Nat → σ
  /-- The input of the edge at time `t`. -/
  input : Nat → ι
  /-- The run starts after the reset. -/
  start : S.init (state 0)
  /-- Each state follows from the one before. -/
  next : ∀ t, S.step (state t) (input t) (state (t + 1))

namespace System.Run

variable {S : System σ ι}

theorem reachable (r : S.Run) : ∀ t, S.Reachable (r.state t)
  | 0 => .init r.start
  | t + 1 => .step (r.reachable t) (r.next t)

/-- The invariant rule along a run. -/
theorem invariant (r : S.Run) {P : σ → Prop} (start : ∀ s, S.init s → P s)
    (keep : ∀ s i s', P s → S.step s i s' → P s') (t : Nat) : P (r.state t) :=
  (r.reachable t).invariant start keep

end System.Run

/-! ## Deterministic systems -/

/-- The system of a transition function. -/
def System.ofFn (init : σ → Prop) (f : σ → ι → σ) : System σ ι where
  init := init
  step s i s' := s' = f s i

/-- The state a transition function reaches after the first `t` inputs. -/
def iter (f : σ → ι → σ) (s : σ) (input : Nat → ι) : Nat → σ
  | 0 => s
  | t + 1 => f (iter f s input t) (input t)

/-- Every input sequence drives a deterministic system along a run. -/
def System.drive {init : σ → Prop} (f : σ → ι → σ) (s : σ) (hs : init s) (input : Nat → ι) :
    (System.ofFn init f).Run where
  state := iter f s input
  input := input
  start := hs
  next _ := rfl

/-! ## Runs of given inputs -/

/-- The state after the inputs of a list, where `next` computes a step if there is one. -/
def exec (next : σ → ι → Option σ) : List ι → σ → Option σ
  | [], s => some s
  | i :: is, s => (next s i).bind (exec next is)

theorem System.Reachable.exec {S : System σ ι} {next : σ → ι → Option σ}
    (sound : ∀ s i s', next s i = some s' → S.step s i s') {is : List ι} {s s' : σ}
    (hs : S.Reachable s) (h : exec next is s = some s') : S.Reachable s' := by
  induction is generalizing s with
  | nil =>
      cases h
      exact hs
  | cons i is ih =>
      obtain ⟨u, hu, h⟩ := Option.bind_eq_some_iff.mp h
      exact ih (.step hs (sound _ _ _ hu)) h

/-- Given inputs reach what a test finds at their end. -/
theorem System.exists_exec {S : System σ ι} {next : σ → ι → Option σ}
    (sound : ∀ s i s', next s i = some s' → S.step s i s') {s : σ} (start : S.init s)
    {is : List ι} {test : σ → Bool} (h : (Clocked.exec next is s).any test = true) :
    ∃ s', S.Reachable s' ∧ test s' = true := by
  obtain ⟨s', hs', htest⟩ := (Option.any_eq_true _ _).mp h
  exact ⟨s', System.Reachable.exec sound (.init start) hs', htest⟩

/-- The same with inputs that are chosen in each state. -/
theorem System.exists_exec_choice {S : System σ ι} {next : σ → (σ → ι) → Option σ}
    (sound : ∀ s f s', next s f = some s' → S.step s (f s) s') {s : σ} (start : S.init s)
    {l : List (σ → ι)} {test : σ → Bool} (h : (Clocked.exec next l s).any test = true) :
    ∃ s', S.Reachable s' ∧ test s' = true := by
  obtain ⟨s', hs', htest⟩ := System.exists_exec
    (S := ⟨S.init, fun s f s' => S.step s (f s) s'⟩) sound start h
  exact ⟨s', hs'.invariant (fun _ hinit => .init hinit) fun _ _ _ hs hstep => hs.step hstep, htest⟩

/-- Given inputs go on with a run. -/
theorem System.Path.exec {S : System σ ι} {next : σ → ι → Option σ}
    (sound : ∀ s i s', next s i = some s' → S.step s i s') {is : List ι} {steps : List (σ × ι)}
    {s s' : σ} (hpath : S.Path steps s) (h : Clocked.exec next is s = some s') :
    ∃ steps', S.Path (steps ++ steps') s' ∧ ∀ i, is.head? = some i → (s, i) ∈ steps' := by
  induction is generalizing s steps with
  | nil =>
      cases h
      exact ⟨[], by rwa [List.append_nil], nofun⟩
  | cons i is ih =>
      obtain ⟨u, hu, h⟩ := Option.bind_eq_some_iff.mp h
      obtain ⟨steps', hpath', _⟩ := ih (hpath.step (sound _ _ _ hu)) h
      refine ⟨(s, i) :: steps', by simpa using hpath', fun i' hi => ?_⟩
      obtain rfl : i = i' := Option.some.inj hi
      exact List.mem_cons_self

/-- The steps under given inputs. -/
def trace (next : σ → ι → Option σ) : List ι → σ → List (σ × ι)
  | [], _ => []
  | i :: is, s => (s, i) :: ((next s i).map (trace next is)).getD []

/-- Given inputs go on with a run by their steps. -/
theorem System.Path.trace {S : System σ ι} {next : σ → ι → Option σ}
    (sound : ∀ s i s', next s i = some s' → S.step s i s') {is : List ι} {steps : List (σ × ι)}
    {s s' : σ} (hpath : S.Path steps s) (h : Clocked.exec next is s = some s') :
    S.Path (steps ++ Clocked.trace next is s) s' := by
  induction is generalizing s steps with
  | nil =>
      cases h
      rwa [Clocked.trace, List.append_nil]
  | cons i is ih =>
      obtain ⟨u, hu, h⟩ := Option.bind_eq_some_iff.mp h
      rw [Clocked.trace, hu, List.append_cons]
      exact ih (hpath.step (sound _ _ _ hu)) h

/-- Steps whose input meets `A`. -/
def guarded (A : σ → ι → Prop) [∀ s i, Decidable (A s i)] (next : σ → ι → Option σ) (s : σ)
    (i : ι) : Option σ :=
  if A s i then next s i else none

theorem guarded_step {S : System σ ι} {A : σ → ι → Prop} [∀ s i, Decidable (A s i)]
    {next : σ → ι → Option σ} (sound : ∀ s i s', next s i = some s' → S.step s i s') (s : σ)
    (i : ι) (s' : σ) (h : guarded A next s i = some s') : (S.under A).step s i s' := by
  unfold guarded at h
  split_ifs at h with hA
  exact ⟨hA, sound s i s' h⟩

/-! ## Logs -/

variable {ε : Type w}

/-- The events of the first `n` steps, oldest first, where `ev s i` lists the
events of a step from `s` under `i`. -/
def System.Run.log {S : System σ ι} (r : S.Run) (ev : σ → ι → List ε) : Nat → List ε
  | 0 => []
  | n + 1 => r.log ev n ++ ev (r.state n) (r.input n)

namespace System.Run

variable {S : System σ ι}

theorem log_succ (r : S.Run) (ev : σ → ι → List ε) (n : Nat) :
    r.log ev (n + 1) = r.log ev n ++ ev (r.state n) (r.input n) := rfl

end System.Run

end Clocked
