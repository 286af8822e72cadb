import Mathlib.Tactic.Common

/-!
# A memory behind pending writes

A `Write` changes the value of one location.  A `Buffer` is a memory with the writes that
have been accepted for it and have not reached it yet, oldest first.  Writes may reach
the memory out of order, as long as no two writes to one location are exchanged.

*Values.*  `Buffer.value` is the value a location has once every pending write has
arrived.  It does not change when a write arrives (`value_commits`), and it is the value
in the memory when no pending write is to the location (`value_of_free`).
-/

namespace Clocked

universe u v

/-- A write to a location. -/
structure Write (α : Type u) (β : Type v) where
  loc : α
  update : β → β

variable {α : Type u} {β : Type v} [DecidableEq α]

/-- What a write does to the value of a location. -/
def Write.on (w : Write α β) (x : α) (v : β) : β := if w.loc = x then w.update v else v

theorem Write.on_ne {w : Write α β} {x : α} (h : w.loc ≠ x) (v : β) : w.on x v = v := if_neg h

theorem Write.on_self {w : Write α β} {x : α} (h : w.loc = x) (v : β) : w.on x v = w.update v :=
  if_pos h

/-- The value of a location after the writes of a list. -/
def settle (ws : List (Write α β)) (x : α) (v : β) : β := ws.foldl (fun v w => w.on x v) v

@[simp] theorem settle_nil (x : α) (v : β) : settle ([] : List (Write α β)) x v = v := rfl

@[simp] theorem settle_cons (w : Write α β) (ws : List (Write α β)) (x : α) (v : β) :
    settle (w :: ws) x v = settle ws x (w.on x v) := rfl

theorem settle_append (ws us : List (Write α β)) (x : α) (v : β) :
    settle (ws ++ us) x v = settle us x (settle ws x v) := List.foldl_append ..

/-- Writes to other locations change nothing. -/
theorem settle_of_free {ws : List (Write α β)} {x : α} (h : ∀ w ∈ ws, w.loc ≠ x) (v : β) :
    settle ws x v = v := by
  induction ws with
  | nil => rfl
  | cons w ws ih =>
      rw [settle_cons, Write.on_ne (h w List.mem_cons_self)]
      exact ih fun w hw => h w (List.mem_cons_of_mem _ hw)

/-- A write may go first if it is the oldest of its location. -/
theorem settle_eraseIdx {ws : List (Write α β)} {k : Nat} {w : Write α β}
    (hk : ws[k]? = some w) (hfirst : ∀ u ∈ ws.take k, u.loc ≠ w.loc) (x : α) (v : β) :
    settle (ws.eraseIdx k) x (w.on x v) = settle ws x v := by
  induction ws generalizing k v with
  | nil => simp at hk
  | cons u ws ih =>
      cases k with
      | zero =>
          obtain rfl : u = w := by simpa using hk
          rfl
      | succ k =>
          have hu : u.loc ≠ w.loc := hfirst u (by simp)
          have hswap : u.on x (w.on x v) = w.on x (u.on x v) := by
            by_cases hx : w.loc = x
            · have hux : u.loc ≠ x := hx ▸ hu
              rw [Write.on_ne hux, Write.on_ne hux]
            · rw [Write.on_ne hx, Write.on_ne hx]
          rw [List.eraseIdx_cons_succ, settle_cons, settle_cons, hswap]
          refine ih (by simpa using hk) (fun u' hu' => hfirst u' ?_) _
          simp [hu']

/-- A memory and the writes on their way to it. -/
structure Buffer (α : Type u) (β : Type v) where
  mem : α → β
  pending : List (Write α β)

namespace Buffer

/-- The value a location has once all writes have arrived. -/
def value (b : Buffer α β) (x : α) : β := settle b.pending x (b.mem x)

/-- A pending write arrives. -/
def commit (b : Buffer α β) (k : Nat) : Buffer α β :=
  match b.pending[k]? with
  | some w => ⟨fun x => w.on x (b.mem x), b.pending.eraseIdx k⟩
  | none => b

/-- Writes arrive one after another. -/
def commits (b : Buffer α β) (ks : List Nat) : Buffer α β := ks.foldl commit b

variable {κ : Type u}

/-- The next write to arrive is the oldest of its class. -/
def Oldest (cls : α → κ) (b : Buffer α β) (k : Nat) : Prop :=
  ∀ w ∈ b.pending[k]?, ∀ u ∈ b.pending.take k, cls u.loc ≠ cls w.loc

/-- Writes of one class arrive in order. -/
def InOrder (cls : α → κ) : Buffer α β → List Nat → Prop
  | _, [] => True
  | b, k :: ks => b.Oldest cls k ∧ InOrder cls (b.commit k) ks

instance [DecidableEq κ] (cls : α → κ) (b : Buffer α β) (k : Nat) : Decidable (b.Oldest cls k) :=
  match h : b.pending[k]? with
  | none => isTrue fun w hw => by simp [h] at hw
  | some w =>
      decidable_of_iff (∀ u ∈ b.pending.take k, cls u.loc ≠ cls w.loc) (by simp [Oldest, h])

instance decidableInOrder [DecidableEq κ] (cls : α → κ) :
    (b : Buffer α β) → (ks : List Nat) → Decidable (b.InOrder cls ks)
  | _, [] => isTrue trivial
  | b, k :: ks =>
      have : Decidable ((b.commit k).InOrder cls ks) := decidableInOrder cls (b.commit k) ks
      inferInstanceAs (Decidable (b.Oldest cls k ∧ (b.commit k).InOrder cls ks))

theorem value_commit {cls : α → κ} {b : Buffer α β} {k : Nat} (h : b.Oldest cls k) (x : α) :
    (b.commit k).value x = b.value x := by
  unfold commit
  split
  · rename_i w hw
    exact settle_eraseIdx hw (fun u hu he => h w hw u hu (congrArg cls he)) x _
  · rfl

/-- A write that arrives changes no value. -/
theorem value_commits {cls : α → κ} {b : Buffer α β} {ks : List Nat} (h : b.InOrder cls ks)
    (x : α) : (b.commits ks).value x = b.value x := by
  induction ks generalizing b with
  | nil => rfl
  | cons k ks ih =>
      obtain ⟨hk, hks⟩ := h
      exact (ih hks).trans (value_commit hk x)

theorem mem_commit {b : Buffer α β} {k : Nat} {w : Write α β} (h : w ∈ (b.commit k).pending) :
    w ∈ b.pending := by
  unfold commit at h
  split at h
  · exact List.mem_of_mem_eraseIdx h
  · exact h

/-- No write becomes pending by another's arrival. -/
theorem mem_commits {b : Buffer α β} {ks : List Nat} {w : Write α β}
    (h : w ∈ (b.commits ks).pending) : w ∈ b.pending := by
  induction ks generalizing b with
  | nil => exact h
  | cons k ks ih => exact mem_commit (ih h)

/-- A location without pending writes has its value in the memory. -/
theorem value_of_free {b : Buffer α β} {x : α} (h : ∀ w ∈ b.pending, w.loc ≠ x) :
    b.value x = b.mem x :=
  settle_of_free h _

end Buffer

end Clocked
