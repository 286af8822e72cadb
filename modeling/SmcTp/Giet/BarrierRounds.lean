import SmcTp.Giet.Barrier

/-!
# The rounds of a barrier

In a careful run the tasks go through the barrier in rounds: `Phase` says how far they are.
Before the barrier is set up nobody waits.  In a round some tasks have arrived, and the
counter says how many are missing; the last one to arrive sets the counter back, which is
the next round.  A task that has not seen this yet is in the next round already.
-/

namespace SmcTp.Giet.Barrier

open Clocked Programs

/-! ## Where the tasks are -/

section Tasks

variable {n : Nat} {cfg : Config} {mem : LinkedMemory Cell Word (Fin n)} {i j : Fin n}
  {fails : Bool} {t : Task} {p : LinkedMemory Cell Word (Fin n) × Task} {v : Word} {e : Nat}
  {quiet : Prop}

/-- What a task has read with its load-linked, the word holds while the task is linked. -/
def ReadOk (cfg : Config) (mem : LinkedMemory Cell Word (Fin n)) (i : Fin n) : Pc → Prop
  | .initSc => mem.Holds i (.initialValue cfg.index) 0
  | .sc _ count => mem.Holds i (.count cfg.index) count
  | _ => True

/-- A task which has not arrived in the round `e`, and has not left the one before only if
that is `quiet`. -/
def Pending (v : Word) (e : Nat) (quiet : Prop) (t : Task) : Prop :=
  match t.pc with
  | .init | .initLl | .initSc => e = 0 ∧ t.begun = 0 ∧ t.returned = 0
  | .outside => t.begun = e ∧ t.returned = e
  | .readMax | .trapped => t.begun = e + 1 ∧ t.returned = e
  | .ll maxcount | .sc maxcount _ => maxcount = v ∧ t.begun = e + 1 ∧ t.returned = e
  | .spin maxcount => maxcount = v ∧ t.begun = e ∧ t.returned + 1 = e ∧ quiet
  | .initStore | .reset _ => False

/-- A task which has arrived in the round `e` and waits for the others. -/
def Arrived (v : Word) (e : Nat) (t : Task) : Prop :=
  t.pc = .spin v ∧ t.begun = e + 1 ∧ t.returned = e

/-- A task which has not begun to set the barrier up. -/
def Unset (t : Task) : Prop :=
  (t.pc = .init ∨ t.pc = .initLl ∨ t.pc = .initSc) ∧ t.begun = 0 ∧ t.returned = 0

theorem Pending.bounds (h : Pending v e quiet t) : t.returned ≤ e ∧ e ≤ t.begun := by
  rw [Pending] at h
  cases hpc : t.pc <;> rw [hpc] at h <;> dsimp only at h <;> omega

theorem Pending.quiet_of_spinning (h : Pending v e quiet t) (hspin : t.pc.spinning = true) :
    quiet := by
  rw [Pending] at h
  cases hpc : t.pc with
  | spin maxcount =>
      rw [hpc] at h
      exact h.2.2.2
  | _ => exact absurd hspin (by simp [hpc, Pc.spinning])

theorem TaskMove.access (h : TaskMove cfg mem i fails t p) : mem.Access i p.1 := by
  cases h with
  | initLink | initDone | trap | link => exact .linkedLoad
  | initPublish | initStore | last | notLast | reset => exact .store
  | _ => exact .none

theorem TaskMove.readOk (h : TaskMove cfg mem i fails t p) (hread : ReadOk cfg mem i t.pc) :
    ReadOk cfg p.1 i p.2.pc := by
  cases h with
  | stay => exact hread
  | initLink hpc hzero => exact fun _ => hzero
  | link hpc => exact fun _ => rfl
  | _ => trivial

theorem ReadOk.access (hread : ReadOk cfg mem j t.pc) (hne : j ≠ i)
    {mem' : LinkedMemory Cell Word (Fin n)} (haccess : mem.Access i mem') :
    ReadOk cfg mem' j t.pc := by
  rw [ReadOk.eq_def] at hread ⊢
  cases hpc : t.pc with
  | initSc =>
      rw [hpc] at hread
      exact hread.access hne haccess
  | sc maxcount count =>
      rw [hpc] at hread
      exact hread.access hne haccess
  | _ => trivial

/-- A pending task decrements the counter, or stays pending and writes nothing. -/
theorem TaskMove.pending (h : TaskMove cfg mem i fails t p) (hp : Pending v e quiet t)
    (hv : v ≠ 0) (hinit : mem.word (.initialValue cfg.index) = v)
    (hread : ReadOk cfg mem i t.pc) :
    (p.1.word = mem.word ∧ Pending v e quiet p.2) ∨
    (t.pc = .sc v (mem.word (.count cfg.index)) ∧ mem.link i = some (.count cfg.index) ∧
      fails = false ∧ t.begun = e + 1 ∧ t.returned = e ∧
      p = (mem.store (.count cfg.index) (mem.word (.count cfg.index) - 1),
        { t with pc := if mem.word (.count cfg.index) = 1 then .reset v else .spin v })) := by
  rw [Pending] at hp
  cases h with
  | stay => exact .inl ⟨rfl, hp⟩
  | initCheck hpc => rw [hpc] at hp; exact .inl ⟨rfl, hp⟩
  | initLink hpc hzero => exact absurd (hinit.symm.trans hzero) hv
  | initDone hpc hset =>
      rw [hpc] at hp
      exact .inl ⟨rfl, hp.2.1.trans hp.1.symm, hp.2.2.trans hp.1.symm⟩
  | initRetry hpc => rw [hpc] at hp; exact .inl ⟨rfl, hp⟩
  | initPublish hpc hlink =>
      rw [hpc] at hread
      exact absurd (hinit.symm.trans (hread hlink)) hv
  | initStore hpc => rw [hpc] at hp; exact hp.elim
  | begin hpc => rw [hpc] at hp; exact .inl ⟨rfl, congrArg (· + 1) hp.1, hp.2⟩
  | readMax hpc => rw [hpc] at hp; exact .inl ⟨rfl, hinit, hp⟩
  | trap hpc => rw [hpc] at hp; exact .inl ⟨rfl, hp.2⟩
  | link hpc => rw [hpc] at hp; exact .inl ⟨rfl, hp⟩
  | retry hpc => rw [hpc] at hp; exact .inl ⟨rfl, hp⟩
  | last hpc hlink hfails =>
      rw [hpc] at hp hread
      have hone := hread hlink
      rw [hone, if_pos rfl]
      exact .inr ⟨hp.1 ▸ hpc, hlink, hfails, hp.2.1, hp.2.2, by rw [hp.1]⟩
  | notLast hpc hone hlink hfails =>
      rw [hpc] at hp hread
      obtain rfl := hread hlink
      rw [if_neg hone]
      exact .inr ⟨hp.1 ▸ hpc, hlink, hfails, hp.2.1, hp.2.2, by rw [hp.1]⟩
  | reset hpc => rw [hpc] at hp; exact hp.elim
  | leave hpc hcount =>
      rw [hpc] at hp
      exact .inl ⟨rfl, hp.2.1, hp.2.2.1⟩

/-- A task which has arrived stays while the counter is not set back. -/
theorem TaskMove.arrived (h : TaskMove cfg mem i fails t p) (ha : Arrived v e t)
    (hcount : mem.word (.count cfg.index) ≠ v) : p = (mem, t) := by
  have hspin := ha.1
  cases h with
  | stay => rfl
  | leave hpc hleave =>
      cases hspin.symm.trans hpc
      exact absurd hleave hcount
  | initCheck hpc | initLink hpc _ | initDone hpc _ | initRetry hpc | initPublish hpc _
  | initStore hpc | begin hpc | readMax hpc | trap hpc | link hpc | retry hpc | last hpc _ _
  | notLast hpc _ _ _ | reset hpc => exact absurd (hspin.symm.trans hpc) (by simp)

/-- A task which has not begun to set the barrier up does not, or publishes its value. -/
theorem TaskMove.unset (h : TaskMove cfg mem i fails t p) (hu : Unset t)
    (hinit : mem.word (.initialValue cfg.index) = 0) :
    (p.1.word = mem.word ∧ Unset p.2) ∨
    p = (mem.store (.initialValue cfg.index) cfg.value, { t with pc := .initStore }) := by
  obtain ⟨hpcs, hcounts⟩ := hu
  cases h with
  | stay => exact .inl ⟨rfl, hpcs, hcounts⟩
  | initCheck hpc => exact .inl ⟨rfl, .inr (.inl rfl), hcounts⟩
  | initLink hpc hzero => exact .inl ⟨rfl, .inr (.inr rfl), hcounts⟩
  | initDone hpc hset => exact absurd hinit hset
  | initRetry hpc => exact .inl ⟨rfl, .inr (.inl rfl), hcounts⟩
  | initPublish hpc hlink => exact .inr rfl
  | initStore hpc | begin hpc | readMax hpc | trap hpc | link hpc | retry hpc | last hpc _ _
  | notLast hpc _ _ _ | reset hpc | leave hpc _ =>
      rcases hpcs with hu | hu | hu <;> exact absurd (hu.symm.trans hpc) (by simp)

theorem TaskMove.storing (h : TaskMove cfg mem i fails t p) (hpc : t.pc = .initStore) :
    p = (mem, t) ∨ p = (mem.store (.count cfg.index) cfg.value, { t with pc := .outside }) := by
  cases h with
  | stay => exact .inl rfl
  | initStore _ => exact .inr rfl
  | initCheck hpc' | initLink hpc' _ | initDone hpc' _ | initRetry hpc' | initPublish hpc' _
  | begin hpc' | readMax hpc' | trap hpc' | link hpc' | retry hpc' | last hpc' _ _
  | notLast hpc' _ _ _ | reset hpc' | leave hpc' _ =>
      exact absurd (hpc.symm.trans hpc') (by simp)

theorem TaskMove.resetting (h : TaskMove cfg mem i fails t p) (hpc : t.pc = .reset v) :
    p = (mem, t) ∨
    p = (mem.store (.count cfg.index) v,
      { t with pc := .outside, returned := t.returned + 1 }) := by
  cases h with
  | stay => exact .inl rfl
  | reset hpc' =>
      cases hpc.symm.trans hpc'
      exact .inr rfl
  | initCheck hpc' | initLink hpc' _ | initDone hpc' _ | initRetry hpc' | initPublish hpc' _
  | initStore hpc' | begin hpc' | readMax hpc' | trap hpc' | link hpc' | retry hpc'
  | last hpc' _ _ | notLast hpc' _ _ _ | leave hpc' _ =>
      exact absurd (hpc.symm.trans hpc') (by simp)

theorem Unset.pending (h : Unset t) : Pending v 0 quiet t := by
  obtain ⟨hpcs, hcounts⟩ := h
  rw [Pending]
  rcases hpcs with hpc | hpc | hpc <;> rw [hpc] <;> exact ⟨rfl, hcounts⟩

/-- A task which has left the round before does not depend on how it is. -/
theorem Pending.of_spinning {quiet' : Prop} (h : Pending v e quiet t)
    (hquiet : t.pc.spinning = true → quiet') : Pending v e quiet' t := by
  rw [Pending] at h ⊢
  cases hpc : t.pc with
  | spin maxcount =>
      rw [hpc] at h
      exact ⟨h.1, h.2.1, h.2.2.1, hquiet (by rw [hpc]; rfl)⟩
  | _ => rwa [hpc] at h

/-- When the counter has been set back, a task which has arrived is in the next round. -/
theorem Arrived.pending_succ (h : Arrived v e t) : Pending v (e + 1) True t := by
  obtain ⟨hpc, hbegun, hreturned⟩ := h
  rw [Pending, hpc]
  exact ⟨rfl, hbegun, congrArg (· + 1) hreturned, trivial⟩

end Tasks

/-! ## Where the barrier is -/

section Phases

variable {n : Nat} {index : Word} {s : State (Fin n)}

/-- How far the tasks are. -/
inductive Phase (n : Nat) (index : Word) (s : State (Fin n)) : Prop where
  /-- Nobody has published the initial value. -/
  | unset (hinit : s.mem.word (.initialValue index) = 0) (htask : ∀ i, Unset (s.task i))
  /-- The task `k` has published the initial value and will store the counter. -/
  | storing (k : Fin n) (hinit : s.mem.word (.initialValue index) = BitVec.ofNat 32 n)
      (hk : (s.task k).pc = .initStore ∧ (s.task k).begun = 0 ∧ (s.task k).returned = 0)
      (htask : ∀ i ≠ k, Pending (BitVec.ofNat 32 n) 0 False (s.task i))
  /-- The tasks in `D` have arrived in the round `e`. -/
  | round (e : Nat) (D : Finset (Fin n))
      (hinit : s.mem.word (.initialValue index) = BitVec.ofNat 32 n)
      (hcount : (s.mem.word (.count index)).toNat + D.card = n) (hlt : D.card < n)
      (hin : ∀ i ∈ D, Arrived (BitVec.ofNat 32 n) e (s.task i))
      (hout : ∀ i ∉ D, Pending (BitVec.ofNat 32 n) e (D = ∅) (s.task i))
  /-- The task `k` was the last to arrive in the round `e` and will set the counter back. -/
  | resetting (e : Nat) (k : Fin n)
      (hinit : s.mem.word (.initialValue index) = BitVec.ofNat 32 n)
      (hcount : s.mem.word (.count index) = 0)
      (hk : (s.task k).pc = .reset (BitVec.ofNat 32 n) ∧ (s.task k).begun = e + 1 ∧
        (s.task k).returned = e)
      (htask : ∀ i ≠ k, Arrived (BitVec.ofNat 32 n) e (s.task i))

theorem toNat_value (hmax : n < 0x100000000) : (BitVec.ofNat 32 n).toNat = n :=
  Nat.mod_eq_of_lt hmax

theorem value_ne_zero (hn : 0 < n) (hmax : n < 0x100000000) : BitVec.ofNat 32 n ≠ 0 := by
  intro hzero
  have hval := toNat_value hmax
  rw [hzero] at hval
  exact Nat.ne_of_gt hn hval.symm

/-- When nobody has arrived the counter is at the initial value. -/
theorem count_eq_initialValue (hmax : n < 0x100000000) {D : Finset (Fin n)}
    (hinit : s.mem.word (.initialValue index) = BitVec.ofNat 32 n)
    (hcount : (s.mem.word (.count index)).toNat + D.card = n) (hempty : D = ∅) :
    s.mem.word (.count index) = s.mem.word (.initialValue index) := by
  rw [hempty, Finset.card_empty, Nat.add_zero] at hcount
  rw [hinit]
  exact BitVec.eq_of_toNat_eq (hcount.trans (toNat_value hmax).symm)

theorem toNat_sub_one {count : Word} (hpos : 0 < count.toNat) :
    (count - 1).toNat = count.toNat - 1 :=
  BitVec.toNat_sub_of_le (BitVec.le_def.mpr hpos)

theorem Phase.safe (hn : 0 < n) (hmax : n < 0x100000000) (h : Phase n index s) : Safe index s := by
  cases h with
  | unset hinit htask =>
      refine ⟨fun i j => ?_, fun hstuck => ?_⟩
      · rw [(htask i).2.2]
        exact Nat.zero_le _
      · have hspin := hstuck.1 ⟨0, hn⟩
        rcases (htask ⟨0, hn⟩).1 with hpc | hpc | hpc <;> rw [hpc] at hspin <;> cases hspin
  | storing k hinit hk htask =>
      refine ⟨fun i j => ?_, fun hstuck => ?_⟩
      · have hzero : (s.task i).returned ≤ 0 := by
          rcases eq_or_ne i k with rfl | hne
          · exact Nat.le_of_eq hk.2.2
          · exact (htask i hne).bounds.1
        exact hzero.trans (Nat.zero_le _)
      · have hspin := hstuck.1 k
        rw [hk.1] at hspin
        cases hspin
  | round e D hinit hcount hlt hin hout =>
      refine ⟨fun i j => ?_, fun hstuck => ?_⟩
      · have hi : (s.task i).returned ≤ e := by
          by_cases hD : i ∈ D
          · exact Nat.le_of_eq (hin i hD).2.2
          · exact (hout i hD).bounds.1
        have hj : e ≤ (s.task j).begun := by
          by_cases hD : j ∈ D
          · exact (hin j hD).2.1 ▸ Nat.le_succ e
          · exact (hout j hD).bounds.2
        exact hi.trans hj
      · -- a task that has not arrived waits only while the counter is at its initial value
        obtain ⟨i, hi⟩ : ∃ i, i ∉ D := by
          by_contra hall
          have hall := not_exists_not.mp hall
          rw [Finset.eq_univ_of_forall hall, Finset.card_univ, Fintype.card_fin] at hlt
          exact Nat.lt_irrefl n hlt
        have hempty := (hout i hi).quiet_of_spinning (hstuck.1 i)
        exact hstuck.2 (count_eq_initialValue hmax hinit hcount hempty)
  | resetting e k hinit hcount hk htask =>
      refine ⟨fun i j => ?_, fun hstuck => ?_⟩
      · have hi : (s.task i).returned ≤ e := by
          rcases eq_or_ne i k with rfl | hne
          · exact Nat.le_of_eq hk.2.2
          · exact Nat.le_of_eq (htask i hne).2.2
        have hj : e ≤ (s.task j).begun := by
          rcases eq_or_ne j k with rfl | hne
          · exact hk.2.1 ▸ Nat.le_succ e
          · exact (htask j hne).2.1 ▸ Nat.le_succ e
        exact hi.trans hj
      · have hspin := hstuck.1 k
        rw [hk.1] at hspin
        cases hspin

/-- What the task `i` is now, and the others were, all tasks are. -/
theorem forall_update {Q : Fin n → Task → Prop} {task : Fin n → Task} {i : Fin n} {t : Task}
    (hi : Q i t) (hrest : ∀ j ≠ i, Q j (task j)) (j : Fin n) :
    Q j (Function.update task i t j) := by
  rcases eq_or_ne j i with rfl | hne
  · rwa [Function.update_self]
  · rw [Function.update_of_ne hne]
    exact hrest j hne

theorem Phase.stay {i : Fin n} (h : Phase n index s) :
    Phase n index ⟨s.mem, Function.update s.task i (s.task i)⟩ := by
  rwa [Function.update_eq_self]

/-- With the counter at the initial value a round begins. -/
theorem Phase.begin_round (hn : 0 < n) (hmax : n < 0x100000000) (e : Nat)
    {mem : LinkedMemory Cell Word (Fin n)} {task : Fin n → Task}
    (hinit : mem.word (.initialValue index) = BitVec.ofNat 32 n)
    (htask : ∀ i, Pending (BitVec.ofNat 32 n) e True (task i)) :
    Phase n index ⟨mem.store (.count index) (BitVec.ofNat 32 n), task⟩ := by
  refine .round e ∅ ?_ ?_ hn (by simp) fun i _ => (htask i).of_spinning fun _ => rfl
  · exact (LinkedMemory.store_word_of_ne (by simp)).trans hinit
  · show ((mem.store (.count index) (BitVec.ofNat 32 n)).word (.count index)).toNat + 0 = n
    rw [LinkedMemory.store_word_self]
    exact toNat_value hmax

/-- In a round the task `i` arrives. -/
theorem Phase.arrive (hmax : n < 0x100000000) {e : Nat} {D : Finset (Fin n)} {i : Fin n}
    (hinit : s.mem.word (.initialValue index) = BitVec.ofNat 32 n)
    (hcount : (s.mem.word (.count index)).toNat + D.card = n) (hlt : D.card < n)
    (hin : ∀ j ∈ D, Arrived (BitVec.ofNat 32 n) e (s.task j))
    (hout : ∀ j ∉ D, Pending (BitVec.ofNat 32 n) e (D = ∅) (s.task j)) (hD : i ∉ D)
    (hbegun : (s.task i).begun = e + 1) (hreturned : (s.task i).returned = e)
    (hquiet : (∃ j, (s.task j).pc.spinning = true) →
      s.mem.word (.count index) ≠ s.mem.word (.initialValue index)) :
    Phase n index ⟨s.mem.store (.count index) (s.mem.word (.count index) - 1),
      Function.update s.task i { s.task i with
        pc := if s.mem.word (.count index) = 1 then .reset (BitVec.ofNat 32 n)
          else .spin (BitVec.ofNat 32 n) }⟩ := by
  have hinit' : (s.mem.store (.count index) (s.mem.word (.count index) - 1)).word
      (.initialValue index) = BitVec.ofNat 32 n :=
    (LinkedMemory.store_word_of_ne (by simp)).trans hinit
  have hcard : (insert i D).card = D.card + 1 := Finset.card_insert_of_notMem hD
  by_cases hone : s.mem.word (.count index) = 1
  · -- all others have arrived
    have huniv : insert i D = Finset.univ := by
      rw [← Finset.card_eq_iff_eq_univ, hcard, Fintype.card_fin]
      rw [hone] at hcount
      exact (Nat.add_comm _ _).trans hcount
    refine .resetting e i hinit' ?_ ?_ fun j hne => ?_
    · show (s.mem.store (.count index) (s.mem.word (.count index) - 1)).word (.count index) = 0
      rw [LinkedMemory.store_word_self, hone]
      rfl
    · simp only [Function.update_self]
      exact ⟨if_pos hone, hbegun, hreturned⟩
    · simp only [Function.update_of_ne hne]
      exact hin j (Finset.mem_of_mem_insert_of_ne (huniv ▸ Finset.mem_univ j) hne)
  · have hpos : 0 < (s.mem.word (.count index)).toNat := by omega
    have htwo : (s.mem.word (.count index)).toNat ≠ 1 := fun h => hone (BitVec.eq_of_toNat_eq h)
    refine .round e (insert i D) hinit' ?_ (by omega) ?_ ?_
    · show ((s.mem.store (.count index) (s.mem.word (.count index) - 1)).word
        (.count index)).toNat + (insert i D).card = n
      rw [LinkedMemory.store_word_self, toNat_sub_one hpos]
      omega
    · refine forall_update (Q := fun j t => j ∈ insert i D → Arrived _ e t)
        (fun _ => ⟨if_neg hone, hbegun, hreturned⟩) fun j hne hj => ?_
      exact hin j (Finset.mem_of_mem_insert_of_ne hj hne)
    · refine forall_update (Q := fun j t => j ∉ insert i D → Pending _ e _ t)
        (fun hi => absurd (Finset.mem_insert_self i D) hi) fun j _ hj => ?_
      -- nobody is left of the round before, as the counter would be at its initial value
      have hpending := hout j fun hj' => hj (Finset.mem_insert_of_mem hj')
      refine hpending.of_spinning fun hspin => ?_
      have hempty := hpending.quiet_of_spinning hspin
      exact absurd (count_eq_initialValue hmax hinit hcount hempty) (hquiet ⟨j, hspin⟩)

theorem Phase.move (hn : 0 < n) (hmax : n < 0x100000000) (h : Phase n index s) {i : Fin n}
    {fails : Bool}
    (hread : ReadOk (config n index) s.mem i (s.task i).pc) (hcareful : Careful index s (i, fails))
    {p : LinkedMemory Cell Word (Fin n) × Task}
    (hmove : TaskMove (config n index) s.mem i fails (s.task i) p) :
    Phase n index ⟨p.1, Function.update s.task i p.2⟩ := by
  have hv := value_ne_zero hn hmax
  have hsame := h.stay (i := i)
  cases h with
  | unset hinit htask =>
      rcases hmove.unset (htask i) hinit with ⟨hword, hu⟩ | rfl
      · exact .unset (hword ▸ hinit) (forall_update hu fun j _ => htask j)
      · refine .storing i LinkedMemory.store_word_self ?_ fun j hne => ?_
        · simp only [Function.update_self]
          exact ⟨trivial, (htask i).2⟩
        · simp only [Function.update_of_ne hne]
          exact (htask j).pending
  | storing k hinit hk htask =>
      rcases eq_or_ne i k with rfl | hik
      · rcases hmove.storing hk.1 with rfl | rfl
        · exact hsame
        · exact .begin_round hn hmax 0 hinit (forall_update (Q := fun _ => Pending _ 0 True) hk.2
            fun j hne => (htask j hne).of_spinning fun _ => trivial)
      · rcases hmove.pending (htask i hik) hv hinit hread with ⟨hword, hp⟩ | ⟨hpc, hlink, hfails, -⟩
        · refine .storing k (hword ▸ hinit) ?_
            (forall_update (Q := fun j t => j ≠ k → Pending _ 0 False t) (fun _ => hp)
              fun j _ => htask j)
          simp only [Function.update_of_ne (Ne.symm hik)]
          exact hk
        · have hdec : s.Decrements index (i, fails) := by
            rw [State.Decrements, hpc]
            exact ⟨hlink, hfails⟩
          exact absurd hk.1 ((hcareful hdec).1 k)
  | round e D hinit hcount hlt hin hout =>
      by_cases hD : i ∈ D
      · have hne : s.mem.word (.count (config n index).index) ≠ BitVec.ofNat 32 n := by
          intro hfull
          have hpos : 0 < D.card := Finset.card_pos.mpr ⟨i, hD⟩
          rw [show (config n index).index = index from rfl] at hfull
          rw [hfull, toNat_value hmax] at hcount
          omega
        rw [hmove.arrived (hin i hD) hne]
        exact hsame
      rcases hmove.pending (hout i hD) hv hinit hread with
        ⟨hword, hp⟩ | ⟨hpc, hlink, hfails, hbegun, hreturned, rfl⟩
      · refine .round e D (hword ▸ hinit) (hword ▸ hcount) hlt ?_ ?_
        · exact forall_update (Q := fun j t => j ∈ D → Arrived _ e t)
            (fun hin => absurd hin hD) fun j _ => hin j
        · exact forall_update (Q := fun j t => j ∉ D → Pending _ e (D = ∅) t)
            (fun _ => hp) fun j _ => hout j
      · have hdec : s.Decrements index (i, fails) := by
          rw [State.Decrements, hpc]
          exact ⟨hlink, hfails⟩
        exact .arrive hmax hinit hcount hlt hin hout hD hbegun hreturned (hcareful hdec).2
  | resetting e k hinit hcount hk htask =>
      rcases eq_or_ne i k with rfl | hik
      · rcases hmove.resetting hk.1 with rfl | rfl
        · exact hsame
        · exact .begin_round hn hmax (e + 1) hinit
            (forall_update (Q := fun _ => Pending _ (e + 1) True)
              ⟨hk.2.1, congrArg (· + 1) hk.2.2⟩ fun j hne => (htask j hne).pending_succ)
      · have hne : s.mem.word (.count (config n index).index) ≠ BitVec.ofNat 32 n := by
          rw [show (config n index).index = index from rfl, hcount]
          exact hv.symm
        rw [hmove.arrived (htask i hik) hne]
        exact hsame

/-- The invariant of the careful runs. -/
structure Inv (n : Nat) (index : Word) (s : State (Fin n)) : Prop where
  read : ∀ i, ReadOk (config n index) s.mem i (s.task i).pc
  phase : Phase n index s

theorem Inv.next (hn : 0 < n) (hmax : n < 0x100000000) (hindex : ¬maxBarrierCount ≤ index)
    (h : Inv n index s) (turn : Fin n × Bool) (hcareful : Careful index s turn) :
    Inv n index (s.next (config n index) turn.1 turn.2) := by
  have hmove : TaskMove (config n index) s.mem turn.1 turn.2 (s.task turn.1) _ :=
    Task.next_move hindex s.mem turn.1 turn.2 (s.task turn.1)
  exact {
    read := forall_update (Q := fun j t => ReadOk (config n index) _ j t.pc)
      (hmove.readOk (h.read turn.1)) fun j hne => (h.read j).access hne hmove.access
    phase := h.phase.move hn hmax (h.read turn.1) hcareful hmove }

theorem Inv.start : Inv n index .start where
  read _ := trivial
  phase := .unset rfl fun _ => ⟨.inl rfl, rfl, rfl⟩

end Phases

/-! ## Safety -/

/-- The accesses of the tasks in the order given, none of which fails. -/
def accesses {n : Nat} (l : List (Fin n × Nat)) : List (Fin n × Bool) :=
  l.flatMap fun x => List.replicate x.2 (x.1, false)

theorem barrier_step {n : Nat} {index : Word} (s : State (Fin n)) (turn : Fin n × Bool)
    (s' : State (Fin n)) (h : some (s.turn (config n index) turn) = some s') :
    (barrier n index).step s turn s' :=
  (Option.some.inj h).symm

/-- As long as no task decrements the counter before it has been stored, or while another
task still waits although it is at its initial value, the barrier works. -/
theorem safe_of_careful {n : Nat} {index : Word} (hn : 0 < n) (hmax : n < 0x100000000)
    (hindex : index < maxBarrierCount) {s : State (Fin n)}
    (h : ((barrier n index).under (Careful index)).Reachable s) : Safe index s := by
  have hinv : Inv n index s := h.invariant (fun s hs => hs ▸ .start) fun s turn s' hinv hstep =>
    hstep.2 ▸ hinv.next hn hmax (BitVec.not_le.mpr hindex) turn hstep.1
  exact hinv.phase.safe hn hmax

/-- Two tasks go through the barrier once. -/
def orderly : List (Fin 2 × Bool) := accesses [(0, 4), (1, 2), (0, 4), (1, 5), (0, 1)]

/-- Two tasks that go through the barrier once are safe on the way. -/
theorem safe_of_careful_orderly : ∃ s : State (Fin 2),
    ((∀ i, (s.task i).returned = 1) ∧ ((barrier 2 0).under (Careful 0)).Reachable s) ∧
      Safe 0 s := by
  have htest : (exec (guarded (Careful 0) fun s turn => some (State.turn (config 2 0) s turn))
      orderly .start).any (fun s => decide (∀ i, (s.task i).returned = 1)) = true := by decide
  obtain ⟨s, hs, hout⟩ := System.exists_exec (S := (barrier 2 0).under (Careful 0))
    (guarded_step barrier_step) rfl htest
  exact ⟨s, ⟨of_decide_eq_true hout, hs⟩,
    safe_of_careful (by decide) (by decide) (by decide) hs⟩

/-- A task has published the initial value and not stored the counter when the other one
decrements it, and is let out by the first when that stores the counter. -/
def early : List (Fin 2 × Bool) := accesses [(0, 3), (1, 6), (0, 1), (1, 1)]

/-- A task goes through the barrier and decrements the counter again, before the other has
seen that it was set back. -/
def overtaken : List (Fin 2 × Bool) := accesses [(0, 4), (1, 2), (0, 4), (1, 5), (1, 4)]

/-- Two tasks at a barrier: one returns from a wait which the other has not begun, and both
wait for ever with the counter at one. -/
theorem not_safe :
    ¬(∀ n, 0 < n → ∀ index < maxBarrierCount, ∀ s, (barrier n index).Reachable s →
      ∀ i j, (s.task i).returned ≤ (s.task j).begun) ∧
    ¬(∀ n, 0 < n → ∀ index < maxBarrierCount, ∀ s, (barrier n index).Reachable s →
      ¬((∀ i, (s.task i).pc.spinning = true) ∧
        s.mem.word (.count index) ≠ s.mem.word (.initialValue index))) := by
  constructor
  · intro hbegun
    have htest : (exec (fun s turn => some (State.turn (config 2 0) s turn)) early .start).any
        (fun s => !decide ((s.task 1).returned ≤ (s.task 0).begun)) = true := by decide
    obtain ⟨s, hs, hout⟩ := System.exists_exec (S := barrier 2 0) barrier_step rfl htest
    have hle := hbegun 2 (by decide) 0 (by decide) s hs 1 0
    rw [decide_eq_true hle] at hout
    cases hout
  · intro hlive
    have htest : (exec (fun s turn => some (State.turn (config 2 0) s turn)) overtaken .start).any
        (fun s => decide ((∀ i, (s.task i).pc.spinning = true) ∧
          s.mem.word (.count 0) ≠ s.mem.word (.initialValue 0))) = true := by decide
    obtain ⟨s, hs, hstuck⟩ := System.exists_exec (S := barrier 2 0) barrier_step rfl htest
    exact hlive 2 (by decide) 0 (by decide) s hs (of_decide_eq_true hstuck)

end SmcTp.Giet.Barrier
