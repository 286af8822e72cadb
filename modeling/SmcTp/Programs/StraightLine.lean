import Mathlib.Logic.Function.Basic
import Mathlib.Tactic.Common

/-!
# Straight-line code over a shared memory

A processor runs a list of instructions, one after the other, over registers of its own and a
memory it shares.  Between two of them other parties may write the memory.

`Isa.Leads A Q` says that the rest of the code runs to its end within the words `A` and ends
in `Q`.  It is all an invariant has to say of code that is half done: `Leads.step` takes one
instruction off, and `Leads.agree` lets other parties write what is not in `A`.

*Effects.*  `Isa.ofEffects` is the case of a processor with loads and stores, where an
instruction accesses one word at most.
-/

namespace Programs

universe u v w x

/-- Instructions over registers and a memory, with the words each one accesses. -/
structure Isa (ι : Type u) (ρ : Type v) (κ : Type w) (ω : Type x) where
  /-- The registers and the memory after an instruction, if it can be executed. -/
  exec : ι → ρ → (κ → ω) → Option (ρ × (κ → ω))
  /-- The instruction reads or writes the word. -/
  Accesses : ι → ρ → κ → Prop
  /-- It writes no other word. -/
  frame {i : ι} {r r' : ρ} {m m' : κ → ω} {a : κ} :
    exec i r m = some (r', m') → ¬ Accesses i r a → m' a = m a
  /-- It does the same over another memory with the same words there. -/
  exec_agree {i : ι} {r r' : ρ} {m m' m₂ : κ → ω} :
    exec i r m = some (r', m') → (∀ a, Accesses i r a → m₂ a = m a) →
      ∃ m₂', exec i r m₂ = some (r', m₂') ∧ ∀ a, Accesses i r a → m₂' a = m' a

/-- Two memories hold the same in the words of `A`. -/
def AgreeOn {κ : Type w} {ω : Type x} (A : κ → Prop) (m m' : κ → ω) : Prop :=
  ∀ a, A a → m' a = m a

namespace Isa

variable {ι : Type u} {ρ : Type v} {κ : Type w} {ω : Type x} {isa : Isa ι ρ κ ω}
  {A : κ → Prop} {Q : ρ → (κ → ω) → Prop} {i : ι} {l : List ι} {r r' : ρ}
  {m m' m₂ : κ → ω}

/-- The code runs to its end within `A` and ends in `Q`. -/
def Leads (isa : Isa ι ρ κ ω) (A : κ → Prop) (Q : ρ → (κ → ω) → Prop) :
    List ι → ρ → (κ → ω) → Prop
  | [], r, m => Q r m
  | i :: l, r, m =>
      ∃ r' m', isa.exec i r m = some (r', m') ∧ (∀ a, isa.Accesses i r a → A a) ∧
        Leads isa A Q l r' m'

/-- The rest of the code leads to the same end. -/
theorem Leads.step (h : isa.Leads A Q (i :: l) r m) (hexec : isa.exec i r m = some (r', m')) :
    isa.Leads A Q l r' m' := by
  obtain ⟨r₁, m₁, hexec₁, _, hrest⟩ := h
  rw [hexec] at hexec₁
  cases hexec₁
  exact hrest

/-- The next instruction writes within `A`. -/
theorem Leads.frame (h : isa.Leads A Q (i :: l) r m) (hexec : isa.exec i r m = some (r', m'))
    {a : κ} (ha : ¬ A a) : m' a = m a := by
  obtain ⟨_, _, _, hwithin, _⟩ := h
  exact isa.frame hexec fun hacc => ha (hwithin a hacc)

/-- Other parties may write outside `A` while the code is under way. -/
theorem Leads.agree (hQ : ∀ r m m₂, AgreeOn A m m₂ → Q r m → Q r m₂) (hm : AgreeOn A m m₂)
    (h : isa.Leads A Q l r m) : isa.Leads A Q l r m₂ := by
  induction l generalizing r m m₂ with
  | nil => exact hQ _ _ _ hm h
  | cons i l ih =>
      obtain ⟨r₁, m₁, hexec, hwithin, hrest⟩ := h
      have hread : ∀ a, isa.Accesses i r a → m₂ a = m a := fun a ha => hm a (hwithin a ha)
      obtain ⟨m₃, hexec₃, hsame⟩ := isa.exec_agree hexec hread
      refine ⟨r₁, m₃, hexec₃, hwithin, ih ?_ hrest⟩
      intro a ha
      by_cases hacc : isa.Accesses i r a
      · exact hsame a hacc
      · rw [isa.frame hexec hacc, isa.frame hexec₃ hacc]
        exact hm a ha

/-! ## Loads and stores -/

/-- What an instruction does. -/
inductive Effect (ρ : Type v) (κ : Type w) (ω : Type x) where
  /-- Registers are written. -/
  | regs (r : ρ)
  /-- A word is loaded. -/
  | load (a : κ) (r : ω → ρ)
  /-- A word is stored. -/
  | store (a : κ) (v : ω) (r : ρ)

/-- The word that is accessed. -/
def Effect.access : Effect ρ κ ω → Option κ
  | .regs _ => none
  | .load a _ | .store a _ _ => some a

variable [DecidableEq κ]

/-- What an instruction does is done. -/
def Effect.perform (m : κ → ω) : Effect ρ κ ω → ρ × (κ → ω)
  | .regs r => (r, m)
  | .load a r => (r (m a), m)
  | .store a v r => (r, Function.update m a v)

/-- The instructions with these effects. -/
def ofEffects (effect : ι → ρ → Option (Effect ρ κ ω)) : Isa ι ρ κ ω where
  exec i r m := (effect i r).map (Effect.perform m)
  Accesses i r a := (effect i r).bind Effect.access = some a
  frame := by
    intro i r r' m m' a hexec hacc
    obtain ⟨e, he, hperform⟩ := Option.map_eq_some_iff.mp hexec
    rw [he] at hacc
    cases e with
    | regs r => cases hperform; rfl
    | load a r => cases hperform; rfl
    | store a' v r =>
        cases hperform
        exact Function.update_of_ne (fun h => hacc (congrArg some h.symm)) ..
  exec_agree := by
    intro i r r' m m' m₂ hexec hsame
    obtain ⟨e, he, hperform⟩ := Option.map_eq_some_iff.mp hexec
    rw [he] at hsame ⊢
    cases e with
    | regs r =>
        cases hperform
        exact ⟨_, rfl, nofun⟩
    | load a r =>
        cases hperform
        have ha : m₂ a = m a := hsame a rfl
        refine ⟨m₂, ?_, hsame⟩
        rw [Option.map_some, Effect.perform, ha]
    | store a v r =>
        cases hperform
        refine ⟨_, rfl, ?_⟩
        rintro _ ⟨⟩
        rw [Function.update_self, Function.update_self]

section Effects

variable {effect : ι → ρ → Option (Effect ρ κ ω)} {e : Effect ρ κ ω}

theorem exec_ofEffects (effect : ι → ρ → Option (Effect ρ κ ω)) (i : ι) (r : ρ) (m : κ → ω) :
    (ofEffects effect).exec i r m = (effect i r).map (Effect.perform m) := rfl

/-- One instruction. -/
theorem Leads.perform (he : effect i r = some e) (hacc : ∀ a, e.access = some a → A a)
    (h : (ofEffects effect).Leads A Q l (e.perform m).1 (e.perform m).2) :
    (ofEffects effect).Leads A Q (i :: l) r m := by
  refine ⟨_, _, ?_, fun a ha => hacc a ?_, h⟩
  · rw [exec_ofEffects, he]
    rfl
  · have ha : (effect i r).bind Effect.access = some a := ha
    rwa [he] at ha

theorem Leads.regs (he : effect i r = some (.regs r')) (h : (ofEffects effect).Leads A Q l r' m) :
    (ofEffects effect).Leads A Q (i :: l) r m :=
  .perform he nofun h

theorem Leads.load {a : κ} {f : ω → ρ} (he : effect i r = some (.load a f)) (ha : A a)
    (h : (ofEffects effect).Leads A Q l (f (m a)) m) :
    (ofEffects effect).Leads A Q (i :: l) r m :=
  .perform he (fun _ heq => Option.some.inj heq ▸ ha) h

theorem Leads.store {a : κ} {v : ω} (he : effect i r = some (.store a v r')) (ha : A a)
    (h : (ofEffects effect).Leads A Q l r' (Function.update m a v)) :
    (ofEffects effect).Leads A Q (i :: l) r m :=
  .perform he (fun _ heq => Option.some.inj heq ▸ ha) h

end Effects

end Isa

end Programs
