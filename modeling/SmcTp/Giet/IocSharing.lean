import SmcTp.Giet.BlockDevice

/-!
# What the lock of the block device protects

At most one task has the lock, and only that task deals with the device: it programs a
transfer while the device is idle, the transfer ends and is reported, and the task reads the
report and releases the lock.  `Stage` says how far this is, `Flight` how far the transfer
itself is.
-/

namespace SmcTp.Giet.BlockDevice

open Clocked Programs

/-! ## The actions of a call -/

/-- The registers after the writes among the actions. -/
def writes : List Action → (IocReg → Word) → IocReg → Word
  | [], regs => regs
  | .setIoc reg value :: actions, regs => writes actions (Function.update regs reg value)
  | _ :: actions, regs => writes actions regs

/-- The actions program a transfer and start it last. -/
inductive Programs : List Action → Prop where
  | start {value : Word} : Programs [.setIoc .op value]
  | invalidate {buffer size : Word} {actions : List Action} :
      Programs actions → Programs (.invalidate buffer size :: actions)
  | setIoc {reg : IocReg} {value : Word} {actions : List Action} :
      reg ≠ .op → Programs actions → Programs (.setIoc reg value :: actions)

/-- The actions left of the call start the transfer it asks for, with its interrupt. -/
structure Ready (call : IocCall) (actions : List Action) (regs : IocReg → Word) : Prop where
  programs : Programs actions
  programmed : call.Programmed (writes actions regs)
  irqEnable : writes actions regs .irqEnable = 1

/-- A call that passes its check takes the lock and programs its transfer. -/
theorem run_eq_lock {plat : Platform} {call : IocCall} (h : (call.run plat).1 = 0) :
    ∃ actions, (call.run plat).2 = .getIocLock :: actions ∧ ∀ regs, Ready call actions regs := by
  cases call with
  | read lba buffer count =>
      rw [IocCall.run, iocRead, checked] at h ⊢
      split_ifs at h ⊢ with hcheck hcc
      · cases h
      · exact ⟨_, rfl, fun regs => ⟨.invalidate (.setIoc (by decide) (.setIoc (by decide)
          (.setIoc (by decide) (.setIoc (by decide) .start)))), ⟨rfl, rfl, rfl, rfl⟩, rfl⟩⟩
      · exact ⟨_, rfl, fun regs => ⟨.setIoc (by decide) (.setIoc (by decide)
          (.setIoc (by decide) (.setIoc (by decide) .start))), ⟨rfl, rfl, rfl, rfl⟩, rfl⟩⟩
  | write lba buffer count =>
      rw [IocCall.run, iocWrite, checked] at h ⊢
      split_ifs at h ⊢ with hcheck
      · cases h
      · exact ⟨_, rfl, fun regs => ⟨.setIoc (by decide) (.setIoc (by decide)
          (.setIoc (by decide) (.setIoc (by decide) .start))), ⟨rfl, rfl, rfl, rfl⟩, rfl⟩⟩

/-! ## The invariant -/

section Invariant

variable {ι : Type}

/-- A task that does not have the lock. -/
def Waiting (mem : LinkedMemory Cell Word ι) (i : ι) : Pc → Prop
  | .outside => True
  | .acting call (.getIocLock :: actions) => ∀ regs, Ready call actions regs
  | .lockSc call actions => (∀ regs, Ready call actions regs) ∧ mem.Holds i .lock 0
  | _ => False

/-- What `_ioc_completed` returns to the task that started the transfer. -/
def result (job : Job ι) (status : Status) : ι × Word := (job.owner, status.returned)

/-- The log, with a transfer whose result has not been returned: the results returned are
those of the other transfers, and all transfers are as asked for. -/
def Log (s : State ι) (job : Option (Job ι)) (status : Option Status) : Prop :=
  (∃ jobs statuses, jobs.length = statuses.length ∧ s.jobs = jobs ++ job.toList ∧
    s.statuses = statuses ++ status.toList ∧ s.returns = List.zipWith result jobs statuses) ∧
  ∀ job ∈ s.jobs, job.call.Programmed job.regs

/-- How far a transfer of the device is. -/
inductive Flight (s : State ι) (job : Job ι) : Prop where
  | running (hirq : s.regs .irqEnable = 1) (hdevice : s.device = .running) (hisr : s.isr = .idle)
      (hlog : Log s (some job) none)
  | ended (status : Status) (hirq : s.regs .irqEnable = 1) (hdevice : s.device = .ended status)
      (hisr : s.isr = .idle ∨ s.isr = .load) (hlog : Log s (some job) (some status))
  | saving (status : Status) (hdevice : s.device = .idle) (hisr : s.isr = .save status.code)
      (hlog : Log s (some job) (some status))
  | signalling (status : Status) (hdevice : s.device = .idle) (hisr : s.isr = .signal)
      (hstatus : s.mem.word .status = status.code) (hlog : Log s (some job) (some status))

/-- Where the owner of a transfer is when its end has been reported. -/
def Reading (status : Status) : Pc → Prop
  | .started | .waitDone | .testRead => True
  | .testWrite => status ≠ .readSuccess
  | .clearDone ret => ret = status.returned
  | _ => False

/-- How far the task `i`, which has the lock, is. -/
inductive Stage (s : State ι) (i : ι) : Prop where
  | programming (call : IocCall) (actions : List Action) (hpc : s.pc i = .acting call actions)
      (hready : Ready call actions s.regs) (hdone : s.mem.word .done = 0)
      (hdevice : s.device = .idle) (hisr : s.isr = .idle) (hlog : Log s none none)
  | inFlight (job : Job ι) (howner : job.owner = i) (hpc : s.pc i = .started ∨ s.pc i = .waitDone)
      (hdone : s.mem.word .done = 0) (hflight : Flight s job)
  | reported (job : Job ι) (howner : job.owner = i) (status : Status)
      (hpc : Reading status (s.pc i)) (hdone : s.mem.word .done = 1)
      (hstatus : s.mem.word .status = status.code) (hdevice : s.device = .idle)
      (hisr : s.isr = .idle) (hlog : Log s (some job) (some status))
  | releasing (job : Job ι) (howner : job.owner = i) (status : Status)
      (hpc : s.pc i = .clearLock status.returned) (hdone : s.mem.word .done = 0)
      (hdevice : s.device = .idle) (hisr : s.isr = .idle) (hlog : Log s (some job) (some status))

/-- The lock is free, or one task has it. -/
inductive Inv (s : State ι) : Prop where
  | free (hlock : s.mem.word .lock = 0) (hdone : s.mem.word .done = 0) (hdevice : s.device = .idle)
      (hisr : s.isr = .idle) (hwaiting : ∀ i, Waiting s.mem i (s.pc i)) (hlog : Log s none none)
  | held (i : ι) (hlock : s.mem.word .lock = 1) (hwaiting : ∀ j ≠ i, Waiting s.mem j (s.pc j))
      (hstage : Stage s i)

variable {s s' : State ι} {i j : ι} {job : Job ι} {status : Status} {plat : Platform}

theorem Log.start (h : Log s none none) (hasked : job.call.Programmed job.regs)
    (hjobs : s'.jobs = s.jobs ++ [job]) (hstatuses : s'.statuses = s.statuses)
    (hreturns : s'.returns = s.returns) : Log s' (some job) none := by
  obtain ⟨⟨jobs, statuses, hlen, hj, hs, hr⟩, hall⟩ := h
  refine ⟨⟨jobs, statuses, hlen, ?_, hstatuses.trans hs, hreturns.trans hr⟩, fun job' hmem => ?_⟩
  · rw [hjobs, hj]
    simp
  · rw [hjobs] at hmem
    rcases List.mem_append.mp hmem with hold | hnew
    · exact hall job' hold
    · exact List.mem_singleton.mp hnew ▸ hasked

theorem Log.ended (h : Log s (some job) none) (hjobs : s'.jobs = s.jobs)
    (hstatuses : s'.statuses = s.statuses ++ [status]) (hreturns : s'.returns = s.returns) :
    Log s' (some job) (some status) := by
  obtain ⟨⟨jobs, statuses, hlen, hj, hs, hr⟩, hall⟩ := h
  refine ⟨⟨jobs, statuses, hlen, hjobs.trans hj, ?_, hreturns.trans hr⟩, hjobs ▸ hall⟩
  rw [hstatuses, hs]
  simp

theorem Log.returned (h : Log s (some job) (some status)) (hjobs : s'.jobs = s.jobs)
    (hstatuses : s'.statuses = s.statuses)
    (hreturns : s'.returns = s.returns ++ [(job.owner, status.returned)]) : Log s' none none := by
  obtain ⟨⟨jobs, statuses, hlen, hj, hs, hr⟩, hall⟩ := h
  refine ⟨⟨jobs ++ [job], statuses ++ [status], ?_, ?_, ?_, ?_⟩, hjobs ▸ hall⟩
  · rw [List.length_append, List.length_append, hlen]
    rfl
  · rw [hjobs, hj]
    simp
  · rw [hstatuses, hs]
    simp
  · rw [hreturns, hr, List.zipWith_append hlen]
    rfl

theorem Flight.congr (h : Flight s job) (hregs : s'.regs = s.regs) (hdevice : s'.device = s.device)
    (hisr : s'.isr = s.isr) (hstatus : s'.mem.word .status = s.mem.word .status)
    (hlog : ∀ job status, Log s job status → Log s' job status) : Flight s' job := by
  cases h with
  | running hirq hd hi hl =>
      exact .running (hregs ▸ hirq) (hdevice.trans hd) (hisr.trans hi) (hlog _ _ hl)
  | ended status hirq hd hi hl =>
      exact .ended status (hregs ▸ hirq) (hdevice.trans hd) (hisr ▸ hi) (hlog _ _ hl)
  | saving status hd hi hl => exact .saving status (hdevice.trans hd) (hisr.trans hi) (hlog _ _ hl)
  | signalling status hd hi hs hl =>
      exact .signalling status (hdevice.trans hd) (hisr.trans hi) (hstatus.trans hs) (hlog _ _ hl)

theorem Inv.start (h : Start s) : Inv s := by
  obtain ⟨hlock, hdone, hdevice, hisr, hpc, hjobs, hstatuses, hreturns⟩ := h
  refine .free hlock hdone hdevice hisr (fun i => by rw [hpc]; trivial) ⟨⟨[], [], rfl, ?_⟩, ?_⟩
  · exact ⟨hjobs, hstatuses, hreturns⟩
  · rw [hjobs]
    intro job hmem
    cases hmem

/-! ## The tasks that wait -/

variable [DecidableEq ι]

theorem setPc_of_ne {pc : Pc} (hne : j ≠ i) : (s.setPc i pc).pc j = s.pc j :=
  Function.update_of_ne hne ..

theorem setPc_self {pc : Pc} : (s.setPc i pc).pc i = pc := Function.update_self ..

/-- The steps of a task that does not have the lock. -/
inductive WaitMove (s : State ι) (j : ι) : State ι → Prop where
  | stay : WaitMove s j s
  | wait (mem : LinkedMemory Cell Word ι) (pc : Pc) : s.mem.Access j mem → mem.word = s.mem.word →
      Waiting mem j pc → WaitMove s j ({ s with mem := mem }.setPc j pc)
  | take (call : IocCall) (actions : List Action) : s.mem.word .lock = 0 →
      (∀ regs, Ready call actions regs) →
      WaitMove s j ({ s with mem := s.mem.store .lock 1 }.setPc j (.acting call actions))

theorem Programs.after {call : IocCall} {actions : List Action} (h : Programs actions) :
    Pc.after call actions = .acting call actions := by
  cases h <;> rfl

theorem Waiting.move (h : Waiting s.mem j (s.pc j)) (newCall : IocCall) (fails : Bool) :
    WaitMove s j (s.taskNext plat j newCall fails) := by
  rw [State.taskNext]
  cases hpc : s.pc j with
  | outside =>
      show WaitMove s j (if _ then _ else _)
      split_ifs with hrun
      · obtain ⟨actions, hactions, hready⟩ := run_eq_lock hrun
        rw [hactions]
        exact .wait s.mem _ .none rfl hready
      · exact .stay
  | acting call actions =>
      rw [hpc] at h
      cases actions with
      | nil => exact h.elim
      | cons action actions =>
          cases action with
          | getIocLock =>
              refine .wait (s.mem.linkedLoad j .lock) _ .linkedLoad rfl ?_
              split_ifs with hlock
              · exact h
              · refine ⟨h, ?_⟩
                rw [← Decidable.not_not.mp hlock]
                exact LinkedMemory.holds_linkedLoad
          | _ => exact h.elim
  | lockSc call actions =>
      rw [hpc] at h
      obtain ⟨hready, hholds⟩ := h
      show WaitMove s j (if _ then _ else _)
      split_ifs with hlink
      · rw [(hready s.regs).programs.after]
        exact .take call actions (hholds hlink.1) hready
      · exact .wait s.mem _ .none rfl hready
  | _ =>
      rw [hpc] at h
      exact h.elim

theorem Waiting.access (h : Waiting s.mem i (s.pc i)) (hne : i ≠ j)
    {mem : LinkedMemory Cell Word ι} (haccess : s.mem.Access j mem) : Waiting mem i (s.pc i) := by
  rw [Waiting.eq_def] at h ⊢
  split at h
  · trivial
  · exact h
  · exact ⟨h.1, h.2.access hne haccess⟩
  · exact h.elim

/-- A step of another task which writes no word leaves the task with the lock where it is. -/
theorem Stage.wait (h : Stage s i) (hne : i ≠ j) {mem : LinkedMemory Cell Word ι} {pc : Pc}
    (hword : mem.word = s.mem.word) : Stage ({ s with mem := mem }.setPc j pc) i := by
  have hsame : ({ s with mem := mem }.setPc j pc).pc i = s.pc i := Function.update_of_ne hne ..
  have hat : ∀ k, ({ s with mem := mem }.setPc j pc).mem.word k = s.mem.word k := fun k =>
    congrFun hword k
  cases h with
  | programming call actions hpc hready hdone hdevice hisr hlog =>
      exact .programming call actions (hsame.trans hpc) hready ((hat _).trans hdone) hdevice hisr
        hlog
  | inFlight job howner hpc hdone hflight =>
      exact .inFlight job howner (hsame ▸ hpc) ((hat _).trans hdone)
        (hflight.congr rfl rfl rfl (hat _) fun _ _ hlog => hlog)
  | reported job howner status hpc hdone hstatus hdevice hisr hlog =>
      exact .reported job howner status (hsame ▸ hpc) ((hat _).trans hdone)
        ((hat _).trans hstatus) hdevice hisr hlog
  | releasing job howner status hpc hdone hdevice hisr hlog =>
      exact .releasing job howner status (hsame.trans hpc) ((hat _).trans hdone) hdevice hisr hlog

/-! ## The task that has the lock -/

/-- A step of the task with the lock, of the device or of the interrupt routine. -/
theorem Stage.inv (h : Stage s' i) (hrest : ∀ j ≠ i, Waiting s.mem j (s.pc j))
    (hpc : ∀ j ≠ i, s'.pc j = s.pc j) (haccess : s.mem.Access i s'.mem)
    (hlock : s'.mem.word .lock = 1) : Inv s' := by
  refine .held i hlock (fun j hne => ?_) h
  rw [hpc j hne]
  exact (hrest j hne).access hne haccess

/-- A task takes the lock, or waits while it is free. -/
theorem WaitMove.of_free (h : WaitMove s j s') (hlock : s.mem.word .lock = 0)
    (hdone : s.mem.word .done = 0) (hdevice : s.device = .idle) (hisr : s.isr = .idle)
    (hwaiting : ∀ i, Waiting s.mem i (s.pc i)) (hlog : Log s none none) : Inv s' := by
  cases h with
  | stay => exact .free hlock hdone hdevice hisr hwaiting hlog
  | wait mem pc haccess hword hpc =>
      refine .free (hword ▸ hlock) (hword ▸ hdone) hdevice hisr (fun k => ?_) hlog
      rcases eq_or_ne k j with rfl | hne
      · rwa [setPc_self]
      · rw [setPc_of_ne hne]
        exact (hwaiting k).access hne haccess
  | take call actions _ hready =>
      refine Stage.inv ?_ (fun k _ => hwaiting k) (fun k hne => setPc_of_ne hne) .store
        LinkedMemory.store_word_self
      exact .programming call actions setPc_self (hready s.regs)
        ((LinkedMemory.store_word_of_ne (by decide)).trans hdone) hdevice hisr hlog

/-- A task waits while another one has the lock. -/
theorem WaitMove.of_held (h : WaitMove s j s') (hne : j ≠ i) (hlock : s.mem.word .lock = 1)
    (hrest : ∀ k ≠ i, Waiting s.mem k (s.pc k)) (hstage : Stage s i) : Inv s' := by
  cases h with
  | stay => exact .held i hlock hrest hstage
  | wait mem pc haccess hword hpc =>
      refine .held i (hword ▸ hlock) (fun k hki => ?_) (hstage.wait hne.symm hword)
      rcases eq_or_ne k j with rfl | hkj
      · rwa [setPc_self]
      · rw [setPc_of_ne hkj]
        exact (hrest k hki).access hkj haccess
  | take call actions hfree _ => exact absurd (hfree.symm.trans hlock) (by decide)

section Task

variable (newCall : IocCall) (fails : Bool)

/-- The task with the lock programs the device. -/
theorem Stage.program {call : IocCall} {actions : List Action} (hlock : s.mem.word .lock = 1)
    (hrest : ∀ j ≠ i, Waiting s.mem j (s.pc j)) (hpc : s.pc i = .acting call actions)
    (hready : Ready call actions s.regs) (hdone : s.mem.word .done = 0)
    (hdevice : s.device = .idle) (hisr : s.isr = .idle) (hlog : Log s none none) :
    Inv (s.taskNext plat i newCall fails) := by
  rw [State.taskNext, hpc]
  obtain ⟨hprograms, hprogrammed, hirq⟩ := hready
  cases hprograms with
  | @start value =>
      show Inv ((s.writeReg i call .op value).setPc i .started)
      rw [State.writeReg, if_pos ⟨rfl, hdevice⟩]
      refine Stage.inv ?_ hrest (fun j hne => setPc_of_ne hne) .none hlock
      refine .inFlight ⟨i, call, Function.update s.regs .op value⟩ rfl (.inl setPc_self) hdone ?_
      exact .running hirq rfl hisr (hlog.start hprogrammed rfl rfl rfl)
  | @invalidate _ _ actions hprograms =>
      show Inv (s.setPc i (.after call actions))
      rw [hprograms.after]
      refine Stage.inv ?_ hrest (fun j hne => setPc_of_ne hne) .none hlock
      exact .programming call _ setPc_self ⟨hprograms, hprogrammed, hirq⟩ hdone hdevice hisr hlog
  | @setIoc reg value actions hreg hprograms =>
      show Inv ((s.writeReg i call reg value).setPc i (.after call actions))
      rw [State.writeReg, if_neg (fun hop => hreg hop.1), hprograms.after]
      refine Stage.inv ?_ hrest (fun j hne => setPc_of_ne hne) .none hlock
      exact .programming call _ setPc_self ⟨hprograms, hprogrammed, hirq⟩ hdone hdevice hisr hlog

/-- The task with the lock waits for its transfer. -/
theorem Stage.await (hlock : s.mem.word .lock = 1) (hrest : ∀ j ≠ i, Waiting s.mem j (s.pc j))
    (howner : job.owner = i) (hpc : s.pc i = .started ∨ s.pc i = .waitDone)
    (hdone : s.mem.word .done = 0) (hflight : Flight s job) :
    Inv (s.taskNext plat i newCall fails) := by
  rw [State.taskNext]
  rcases hpc with hpc | hpc
  · rw [hpc]
    refine Stage.inv ?_ hrest (fun j hne => setPc_of_ne hne) .none hlock
    exact .inFlight job howner (.inr setPc_self) hdone
      (hflight.congr rfl rfl rfl rfl fun _ _ hlog => hlog)
  · rw [hpc]
    show Inv (if _ then _ else _)
    rw [if_pos hdone]
    exact .held i hlock hrest (.inFlight job howner (.inr hpc) hdone hflight)

/-- The task with the lock reads how its transfer ended. -/
theorem Stage.read (hlock : s.mem.word .lock = 1) (hrest : ∀ j ≠ i, Waiting s.mem j (s.pc j))
    (howner : job.owner = i) (hpc : Reading status (s.pc i)) (hdone : s.mem.word .done = 1)
    (hstatus : s.mem.word .status = status.code) (hdevice : s.device = .idle)
    (hisr : s.isr = .idle) (hlog : Log s (some job) (some status)) :
    Inv (s.taskNext plat i newCall fails) := by
  have hstep : ∀ pc, Reading status pc → Inv (s.setPc i pc) := by
    intro pc hread
    refine Stage.inv ?_ hrest (fun j hne => setPc_of_ne hne) .none hlock
    exact .reported job howner status (by rwa [setPc_self]) hdone hstatus hdevice hisr hlog
  rw [State.taskNext]
  cases hat : s.pc i with
  | started => exact hstep _ trivial
  | waitDone =>
      show Inv (if _ then _ else _)
      rw [if_neg (by rw [hdone]; decide)]
      exact hstep _ trivial
  | testRead =>
      refine hstep _ ?_
      rw [hstatus]
      cases status with
      | readSuccess => rfl
      | writeSuccess | readError | writeError | error =>
          intro h
          cases h
  | testWrite =>
      rw [hat] at hpc
      refine hstep _ ?_
      rw [hstatus]
      cases status with
      | readSuccess => exact absurd rfl hpc
      | writeSuccess | readError | writeError | error => rfl
  | clearDone ret =>
      rw [hat] at hpc
      obtain rfl := hpc
      refine Stage.inv ?_ hrest (fun j hne => setPc_of_ne hne) .store ?_
      · exact .releasing job howner status setPc_self LinkedMemory.store_word_self hdevice hisr hlog
      · exact (LinkedMemory.store_word_of_ne (by decide)).trans hlock
  | _ =>
      rw [hat] at hpc
      exact hpc.elim

/-- The task with the lock releases it. -/
theorem Stage.release (hrest : ∀ j ≠ i, Waiting s.mem j (s.pc j)) (howner : job.owner = i)
    (hpc : s.pc i = .clearLock status.returned) (hdone : s.mem.word .done = 0)
    (hdevice : s.device = .idle) (hisr : s.isr = .idle) (hlog : Log s (some job) (some status)) :
    Inv (s.taskNext plat i newCall fails) := by
  rw [State.taskNext, hpc]
  refine .free LinkedMemory.store_word_self ?_ hdevice hisr (fun j => ?_)
    (hlog.returned rfl rfl (by rw [howner]; rfl))
  · exact (LinkedMemory.store_word_of_ne (by decide)).trans hdone
  · rcases eq_or_ne j i with rfl | hne
    · rw [setPc_self]
      trivial
    · rw [setPc_of_ne hne]
      exact (hrest j hne).access hne .store

theorem Inv.task (h : Inv s) (j : ι) : Inv (s.taskNext plat j newCall fails) := by
  cases h with
  | free hlock hdone hdevice hisr hwaiting hlog =>
      exact ((hwaiting j).move newCall fails).of_free hlock hdone hdevice hisr hwaiting hlog
  | held i hlock hrest hstage =>
      rcases eq_or_ne j i with rfl | hne
      · cases hstage with
        | programming call actions hpc hready hdone hdevice hisr hlog =>
            exact Stage.program newCall fails hlock hrest hpc hready hdone hdevice hisr hlog
        | inFlight job howner hpc hdone hflight =>
            exact Stage.await newCall fails hlock hrest howner hpc hdone hflight
        | reported job howner status hpc hdone hstatus hdevice hisr hlog =>
            exact Stage.read newCall fails hlock hrest howner hpc hdone hstatus hdevice hisr hlog
        | releasing job howner status hpc hdone hdevice hisr hlog =>
            exact Stage.release newCall fails hrest howner hpc hdone hdevice hisr hlog
      · exact ((hrest j hne).move newCall fails).of_held hne hlock hrest hstage

end Task

/-! ## The device and the interrupt routine -/

theorem Inv.deviceNext (h : Inv s) (status : Status) : Inv (s.deviceNext status) := by
  rw [State.deviceNext]
  cases h with
  | free hlock hdone hdevice hisr hwaiting hlog =>
      rw [hdevice]
      exact .free hlock hdone hdevice hisr hwaiting hlog
  | held i hlock hrest hstage =>
      cases hdev : s.device with
      | idle => exact .held i hlock hrest hstage
      | ended status => exact .held i hlock hrest hstage
      | running =>
          cases hstage with
          | inFlight job howner hpc hdone hflight =>
              cases hflight with
              | running hirq _ hisr hlog =>
                  refine Stage.inv ?_ hrest (fun _ _ => rfl) .none hlock
                  exact .inFlight job howner hpc hdone
                    (.ended status hirq rfl (.inl hisr) (hlog.ended rfl rfl rfl))
              | ended _ _ hdevice => exact absurd (hdev.symm.trans hdevice) (by simp)
              | saving _ hdevice | signalling _ hdevice =>
                  exact absurd (hdev.symm.trans hdevice) (by simp)
          | programming _ _ _ _ _ hdevice | reported _ _ _ _ _ _ hdevice
          | releasing _ _ _ _ _ hdevice => exact absurd (hdev.symm.trans hdevice) (by simp)

theorem Status.code_byte : status.code &&& 0xff = status.code := by
  cases status <;> decide

/-- The interrupt routine reports the transfer. -/
theorem Flight.isrNext (hflight : Flight s job) (hlock : s.mem.word .lock = 1)
    (hrest : ∀ j ≠ i, Waiting s.mem j (s.pc j)) (howner : job.owner = i)
    (hpc : s.pc i = .started ∨ s.pc i = .waitDone) (hdone : s.mem.word .done = 0) :
    Inv s.isrNext := by
  rw [State.isrNext]
  cases hflight with
  | running hirq hdevice hisr hlog =>
      rw [hisr, hdevice]
      exact .held i hlock hrest (.inFlight job howner hpc hdone (.running hirq hdevice hisr hlog))
  | ended status hirq hdevice hisr hlog =>
      rcases hisr with hisr | hisr
      · rw [hisr, hdevice]
        show Inv (if _ then _ else _)
        rw [if_pos (by rw [hirq]; decide)]
        refine Stage.inv ?_ hrest (fun _ _ => rfl) .none hlock
        exact .inFlight job howner hpc hdone (.ended status hirq rfl (.inr rfl) hlog)
      · rw [hisr, hdevice]
        refine Stage.inv ?_ hrest (fun _ _ => rfl) .none hlock
        exact .inFlight job howner hpc hdone (.saving status rfl rfl hlog)
  | saving status hdevice hisr hlog =>
      rw [hisr]
      refine Stage.inv ?_ hrest (fun _ _ => rfl) .store
        ((LinkedMemory.store_word_of_ne (by decide)).trans hlock)
      refine .inFlight job howner hpc ((LinkedMemory.store_word_of_ne (by decide)).trans hdone) ?_
      exact .signalling status hdevice rfl (LinkedMemory.store_word_self.trans status.code_byte)
        hlog
  | signalling status hdevice hisr hstatus hlog =>
      rw [hisr]
      have hread : Reading status (s.pc i) := by
        rcases hpc with hpc | hpc <;> rw [hpc] <;> trivial
      refine Stage.inv ?_ hrest (fun _ _ => rfl) .store
        ((LinkedMemory.store_word_of_ne (by decide)).trans hlock)
      exact .reported job howner status hread LinkedMemory.store_word_self
        ((LinkedMemory.store_word_of_ne (by decide)).trans hstatus) hdevice rfl hlog

theorem Inv.isrNext (h : Inv s) : Inv s.isrNext := by
  rw [State.isrNext]
  cases h with
  | free hlock hdone hdevice hisr hwaiting hlog =>
      rw [hisr, hdevice]
      exact .free hlock hdone hdevice hisr hwaiting hlog
  | held i hlock hrest hstage =>
      have hsame : Inv s := .held i hlock hrest hstage
      cases hstage with
      | programming call actions hpc hready hdone hdevice hisr hlog =>
          rw [hisr, hdevice]
          exact hsame
      | inFlight job howner hpc hdone hflight => exact hflight.isrNext hlock hrest howner hpc hdone
      | reported job howner status hpc hdone hstatus hdevice hisr hlog =>
          rw [hisr, hdevice]
          exact hsame
      | releasing job howner status hpc hdone hdevice hisr hlog =>
          rw [hisr, hdevice]
          exact hsame

theorem Inv.next (h : Inv s) (turn : Turn ι) : Inv (s.next plat turn) := by
  cases turn with
  | task i newCall fails => exact h.task newCall fails i
  | device status => exact h.deviceNext status
  | isr => exact h.isrNext

end Invariant

/-! ## The protocol -/

section Protocol

variable {ι : Type} {s : State ι} {i : ι} {job : Option (Job ι)} {status : Option Status}

theorem Waiting.not_holds {mem : LinkedMemory Cell Word ι} {pc : Pc} (h : Waiting mem i pc) :
    pc.holds = false := by
  rw [Waiting.eq_def] at h
  split at h
  · rfl
  · rfl
  · rfl
  · exact h.elim

theorem Pc.holds_of_writesDevice {pc : Pc} (h : pc.writesDevice = true) : pc.holds = true := by
  rw [Pc.writesDevice.eq_def] at h
  split at h
  · rfl
  · cases h

theorem Log.returns_prefix (h : Log s job status) (hle : status.toList.length ≤ job.toList.length) :
    s.returns <+: List.zipWith result s.jobs s.statuses ∧
    s.statuses.length ≤ s.jobs.length ∧ s.jobs.length ≤ s.returns.length + 1 := by
  obtain ⟨⟨jobs, statuses, hlen, hjobs, hstatuses, hreturns⟩, -⟩ := h
  have hone : job.toList.length ≤ 1 := by cases job <;> simp
  refine ⟨?_, ?_, ?_⟩
  · rw [hjobs, hstatuses, List.zipWith_append hlen, hreturns]
    exact List.prefix_append _ _
  · rw [hjobs, hstatuses, List.length_append, List.length_append, hlen]
    exact Nat.add_le_add_left hle _
  · rw [hjobs, hreturns, List.length_append, List.length_zipWith, hlen, Nat.min_self]
    exact Nat.add_le_add_left hone _

theorem Flight.log {job : Job ι} (h : Flight s job) :
    ∃ status, Log s (some job) status ∧ status.toList.length ≤ 1 := by
  cases h with
  | running _ _ _ hlog => exact ⟨none, hlog, Nat.zero_le 1⟩
  | ended status _ _ _ hlog | saving status _ _ hlog | signalling status _ _ _ hlog =>
      exact ⟨some status, hlog, Nat.le_refl 1⟩

theorem Inv.log (h : Inv s) :
    ∃ job status, Log s job status ∧ status.toList.length ≤ job.toList.length := by
  cases h with
  | free _ _ _ _ _ hlog => exact ⟨none, none, hlog, Nat.le_refl 0⟩
  | held i _ _ hstage =>
      cases hstage with
      | programming _ _ _ _ _ _ _ hlog => exact ⟨none, none, hlog, Nat.le_refl 0⟩
      | inFlight job _ _ _ hflight => exact ⟨some job, hflight.log⟩
      | reported job _ status _ _ _ _ _ hlog | releasing job _ status _ _ _ _ hlog =>
          exact ⟨some job, some status, hlog, Nat.le_refl 1⟩

/-- The task with the lock writes to the device only while that is idle. -/
theorem Stage.device_idle (h : Stage s i) (hwrites : (s.pc i).writesDevice = true) :
    s.device = .idle := by
  cases h with
  | programming _ _ _ _ _ hdevice | reported _ _ _ _ _ _ hdevice
  | releasing _ _ _ _ _ hdevice => exact hdevice
  | inFlight _ _ hpc => rcases hpc with hpc | hpc <;> rw [hpc] at hwrites <;> cases hwrites

theorem owner_of_holds {k : ι} (hrest : ∀ j ≠ k, Waiting s.mem j (s.pc j))
    (hi : (s.pc i).holds = true) : i = k := by
  by_contra hne
  exact absurd hi (by rw [(hrest i hne).not_holds]; decide)

theorem Inv.exclusive (h : Inv s) {i j : ι} (hi : (s.pc i).holds = true)
    (hj : (s.pc j).holds = true) : i = j := by
  cases h with
  | free _ _ _ _ hwaiting _ => exact absurd hi (by rw [(hwaiting i).not_holds]; decide)
  | held k _ hrest _ => exact (owner_of_holds hrest hi).trans (owner_of_holds hrest hj).symm

theorem Inv.device_idle (h : Inv s) (hwrites : (s.pc i).writesDevice = true) :
    s.device = .idle := by
  cases h with
  | free _ _ hdevice => exact hdevice
  | held k _ hrest hstage =>
      obtain rfl : i = k := owner_of_holds hrest (Pc.holds_of_writesDevice hwrites)
      exact hstage.device_idle hwrites

variable [DecidableEq ι] {plat : Platform}

theorem taskNext_regs (newCall : IocCall) (fails : Bool) (h : (s.pc i).writesDevice = false) :
    (s.taskNext plat i newCall fails).regs = s.regs := by
  rw [State.taskNext]
  cases hpc : s.pc i with
  | outside =>
      show State.regs (if _ then _ else _) = _
      split_ifs <;> rfl
  | acting call actions =>
      cases actions with
      | nil => rfl
      | cons action actions =>
          cases action with
          | setIoc reg value =>
              rw [hpc] at h
              cases h
          | _ => rfl
  | lockSc call actions =>
      show State.regs (if _ then _ else _) = _
      split_ifs <;> rfl
  | waitDone =>
      show State.regs (if _ then _ else _) = _
      split_ifs <;> rfl
  | _ => rfl

/-- Only a task writes the registers of the device. -/
theorem writesDevice_of_regs_ne {turn : Turn ι} (h : (s.next plat turn).regs ≠ s.regs) :
    ∃ i newCall fails, turn = .task i newCall fails ∧ (s.pc i).writesDevice = true := by
  cases turn with
  | task i newCall fails =>
      refine ⟨i, newCall, fails, rfl, ?_⟩
      by_contra hwrites
      exact h (taskNext_regs newCall fails (eq_false_of_ne_true hwrites))
  | device status =>
      refine absurd ?_ h
      rw [State.next, State.deviceNext]
      split <;> rfl
  | isr =>
      refine absurd ?_ h
      rw [State.next, State.isrNext]
      cases s.isr with
      | idle =>
          cases s.device with
          | ended status =>
              show State.regs (if _ then _ else _) = _
              split_ifs <;> rfl
          | _ => rfl
      | load => cases s.device <;> rfl
      | _ => rfl

end Protocol

/-- At most one task is between taking the lock and releasing it.  Only that task writes the
registers of the device, while the device is idle.  The transfers are those that the tasks
have asked for, and each call of `_ioc_completed` returns how the transfer of its own task
ended, one call for each transfer that ended and in their order. -/
theorem sharing_exclusive {ι : Type} [DecidableEq ι] {plat : Platform} {s : State ι}
    (h : (sharing ι plat).Reachable s) :
    (∀ i j, (s.pc i).holds = true → (s.pc j).holds = true → i = j) ∧
    (∀ i, (s.pc i).writesDevice = true → (s.pc i).holds = true ∧ s.device = .idle) ∧
    (∀ turn, (s.next plat turn).regs ≠ s.regs →
      ∃ i newCall fails, turn = .task i newCall fails ∧ (s.pc i).writesDevice = true) ∧
    (∀ job ∈ s.jobs, job.call.Programmed job.regs) ∧
    s.returns <+: List.zipWith result s.jobs s.statuses ∧
    s.statuses.length ≤ s.jobs.length ∧ s.jobs.length ≤ s.returns.length + 1 := by
  have hinv : Inv s := h.invariant (fun _ hstart => .start hstart) fun _ turn _ hinv hstep =>
    hstep ▸ hinv.next turn
  obtain ⟨job, status, hlog, hle⟩ := hinv.log
  exact ⟨fun i j hi hj => hinv.exclusive hi hj,
    fun i hwrites => ⟨Pc.holds_of_writesDevice hwrites, hinv.device_idle hwrites⟩,
    fun turn => writesDevice_of_regs_ne, hlog.2, hlog.returns_prefix hle⟩

/-- The task `i` has `n` turns in a row. -/
def turns (n : Nat) (i : Bool) : List (Turn Bool) :=
  List.replicate n (.task i (.write 0 0x1000 1) false)

/-- A task writes a block, while another one waits for the lock. -/
def oneWrite : List (Turn Bool) :=
  turns 3 false ++ turns 2 true ++ turns 6 false ++ [.device .writeSuccess] ++
    List.replicate 4 .isr ++
    turns 1 true ++ turns 5 false

/-- The task that has written the block knows, and the other one can take the lock. -/
theorem sharing_exclusive_oneWrite : ∃ s : State Bool,
    (sharing Bool ⟨false, 0x96000000, 512⟩).Reachable s ∧ s.returns = [(false, 0)] ∧
      s.returns <+: List.zipWith result s.jobs s.statuses := by
  have htest : (exec (fun s turn => some (State.next ⟨false, 0x96000000, 512⟩ s turn)) oneWrite
      ⟨.fresh 0, fun _ => 0, .idle, .idle, fun _ => .outside, [], [], []⟩).any
      (fun s => s.returns = [(false, 0)]) = true := by decide
  obtain ⟨s, hs, hreturns⟩ := System.exists_exec
    (S := sharing Bool ⟨false, 0x96000000, 512⟩) (fun _ _ _ h => (Option.some.inj h).symm)
    ⟨rfl, rfl, rfl, rfl, fun _ => rfl, rfl, rfl, rfl⟩ htest
  exact ⟨s, hs, of_decide_eq_true hreturns, (sharing_exclusive hs).2.2.2.2.1⟩

end SmcTp.Giet.BlockDevice
