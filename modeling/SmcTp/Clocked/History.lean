import SmcTp.Clocked.Run

/-!
# Histories and refinement maps

A history is a value that is kept next to the states of a system and noted down at each
step, for statements about what has happened.  The system does not read it, so that every
state that is reachable is reachable with some history (`Reachable.exists_history`).

A map from the states of one system to those of another that takes steps to steps takes
reachable states to reachable states (`Reachable.map`).  If it also covers all steps, every
reachable state of the second system is the image of one of the first (`Reachable.lift`).
-/

namespace Clocked

universe u v w

variable {σ : Type u} {ι : Type v} {τ : Type w}

/-! ## Refinement maps -/

section Maps

variable {σ' : Type w} {S : System σ ι} {T : System σ' ι} {f : σ → σ'}

theorem System.Reachable.map (start : ∀ s, S.init s → T.init (f s))
    (keep : ∀ s i s', S.step s i s' → T.step (f s) i (f s')) {s : σ} (h : S.Reachable s) :
    T.Reachable (f s) := by
  induction h with
  | init h => exact .init (start _ h)
  | step _ hstep ih => exact .step ih (keep _ _ _ hstep)

theorem System.Reachable.lift (start : ∀ t, T.init t → ∃ s, S.init s ∧ f s = t)
    (cover : ∀ s i t', T.step (f s) i t' → ∃ s', S.step s i s' ∧ f s' = t') {t : σ'}
    (h : T.Reachable t) : ∃ s, S.Reachable s ∧ f s = t := by
  induction h with
  | init h =>
      obtain ⟨s, hs, hst⟩ := start _ h
      exact ⟨s, .init hs, hst⟩
  | step _ hstep ih =>
      obtain ⟨s, hs, rfl⟩ := ih
      obtain ⟨s', hs', hst⟩ := cover s _ _ hstep
      exact ⟨s', hs.step hs', hst⟩

end Maps

/-! ## Histories -/

/-- The system with a history, which starts as `start`. -/
def System.withHistory (S : System σ ι) (start : τ) (note : σ → ι → σ → τ → τ) :
    System (σ × τ) ι where
  init x := S.init x.1 ∧ x.2 = start
  step x i x' := S.step x.1 i x'.1 ∧ x'.2 = note x.1 i x'.1 x.2

section History

variable {S : System σ ι} {start : τ} {note : σ → ι → σ → τ → τ}

/-- The states with a history are those of the system. -/
theorem System.Reachable.forget {x : σ × τ} (h : (S.withHistory start note).Reachable x) :
    S.Reachable x.1 :=
  System.Reachable.map (S := S.withHistory start note) (T := S) (f := Prod.fst)
    (fun _ hinit => hinit.1) (fun _ _ _ hstep => hstep.1) h

/-- Every state of the system has a history. -/
theorem System.Reachable.exists_history {s : σ} (h : S.Reachable s) :
    ∃ t, (S.withHistory start note).Reachable (s, t) := by
  have hlift : ∃ x, (S.withHistory start note).Reachable x ∧ x.1 = s :=
    System.Reachable.lift (S := S.withHistory start note) (T := S) (f := Prod.fst)
      (fun s hs => ⟨(s, start), ⟨hs, rfl⟩, rfl⟩)
      (fun x i s' hstep => ⟨(s', note x.1 i s' x.2), ⟨hstep, rfl⟩, rfl⟩) h
  obtain ⟨⟨s', t⟩, hx, rfl⟩ := hlift
  exact ⟨t, hx⟩

/-- A condition on the inputs can be dropped. -/
theorem System.Reachable.drop_under {A : σ → ι → Prop} {x : σ × τ}
    (h : ((S.under A).withHistory start note).Reachable x) :
    (S.withHistory start note).Reachable x :=
  System.Reachable.mono (S := (S.under A).withHistory start note)
    (T := S.withHistory start note) (fun _ hinit => hinit)
    (fun _ _ _ hstep => ⟨hstep.1.2, hstep.2⟩) h

/-- A computed step, with what is noted of it. -/
def noting (note : σ → ι → σ → τ → τ) (next : σ → ι → Option σ) (x : σ × τ) (i : ι) :
    Option (σ × τ) :=
  (next x.1 i).map fun s' => (s', note x.1 i s' x.2)

theorem noting_step {next : σ → ι → Option σ}
    (sound : ∀ s i s', next s i = some s' → S.step s i s') (x : σ × τ) (i : ι) (x' : σ × τ)
    (h : noting note next x i = some x') : (S.withHistory start note).step x i x' := by
  obtain ⟨s', hs', rfl⟩ := Option.map_eq_some_iff.mp h
  exact ⟨sound _ _ _ hs', rfl⟩

end History

end Clocked
