import SmcTp.Clocked.Run
import SmcTp.Programs.Transfer

/-!
# Displaying images on demand

On a key `main_display` has the disk read the next image into `tab`, waits for the end, and
has the DMA copy `tab` to the frame buffer.  It does not wait for the end of that: only the
next call of `fb_write` does, and by then the disk may have written the next image into
`tab`.  `ReadsIdle` says that each call of `ioc_read` finds the DMA idle, and then each frame
is one image of the disk (`untorn_of_readsIdle`).

One step is one call of the program, one byte moved or one transfer ended by the disk or the
DMA.
-/

namespace SmcTp.Soft.MainDisplay

open Clocked Programs

/-! ## The program -/

/-- The buffer, or an image, by the offset of the byte. -/
abbrev Image := Nat → BitVec 8

/-- The constants of the program, and the disk.  The length given to `fb_write` is that of the
blocks given to `ioc_read`: the program has 32 blocks of 512 bytes, 16384 bytes and 21
images. -/
structure Config where
  blockSize : Nat
  count : Nat
  length : Nat
  nimages : Nat
  /-- The bytes of the disk. -/
  disk : Nat → BitVec 8
  length_eq : length = count * blockSize
  nimages_pos : 0 < nimages

/-- The image that starts at a block of the disk. -/
def Config.image (cfg : Config) (block : Nat) : Image := fun a =>
  cfg.disk (block * cfg.blockSize + a)

/-- Where the program stands. -/
inductive Pc where
  /-- `tty_getc_irq(&c)`, and the test of `c` -/
  | getc
  /-- `ioc_read(index_block, &tab, 32)` -/
  | read
  /-- `ioc_completed()` -/
  | completed
  /-- `fb_write(0, &tab, 16384)` -/
  | write
  /-- `index_block += 32; ++index_img;` and the restart from the first image -/
  | next
deriving DecidableEq, Repr

/-- The program and the devices. -/
structure State where
  pc : Pc
  indexBlock : Nat
  indexImg : Nat
  tab : Image
  /-- The block of the image in `tab`, if the disk has read it without an error. -/
  loaded : Option Nat
  /-- The disk has reported an error. -/
  failed : Bool
  /-- The block device, whose job is the first block to read. -/
  disk : Transfer Nat
  /-- The DMA, whose job is the block of the image in `tab`. -/
  dma : Transfer (Option Nat)
  /-- The frame buffer. -/
  fb : Image
  /-- What the frame buffer held at the end of each transfer without an error, and the job. -/
  frames : List (Option Nat × Image)

/-- A step: of the program, with the key it reads or with the outcome of the check of the
buffer, or of a device. -/
inductive Turn where
  | program (c : BitVec 8) (refused : Bool)
  | diskMove
  | diskFinish (ok : Bool)
  | dmaMove
  | dmaFinish (ok : Bool)
deriving DecidableEq, Repr

namespace State

variable (cfg : Config)

/-- A call of the program.  The variable `c` is a `char`, which is signed.  A call of
`ioc_read` or `fb_write` that is `refused` starts nothing, and `ioc_completed` then waits for
ever; `fb_write` waits for the end of a transfer of the DMA. -/
def programNext (c : BitVec 8) (refused : Bool) (s : State) : State :=
  match s.pc with
  | .getc => { s with pc := if 0 < c.toInt then .read else .next }
  | .read =>
      if refused then { s with pc := .completed }
      else
        match s.disk with
        | .idle => { s with pc := .completed, disk := .busy s.indexBlock 0 }
        | _ => s
  | .completed =>
      match s.disk with
      | .done ok =>
          { s with
            pc := .write, loaded := if ok then some s.indexBlock else none
            failed := s.failed || !ok, disk := .idle }
      | _ => s
  | .write =>
      if refused then { s with pc := .next }
      else if s.dma.Busy then s
      else { s with pc := .next, dma := .busy s.loaded 0 }
  | .next =>
      if s.indexImg + 1 = cfg.nimages then { s with pc := .getc, indexBlock := 0, indexImg := 0 }
      else
        { s with
          pc := .getc, indexBlock := s.indexBlock + cfg.count, indexImg := s.indexImg + 1 }

/-- The disk writes a byte to `tab`. -/
def diskMove (s : State) : State :=
  { s with
    disk := (s.disk.move cfg.length cfg.image s.tab).1
    tab := (s.disk.move cfg.length cfg.image s.tab).2 }

/-- The DMA copies a byte of `tab` to the frame buffer. -/
def dmaMove (s : State) : State :=
  { s with
    dma := (s.dma.move cfg.length (fun _ => s.tab) s.fb).1
    fb := (s.dma.move cfg.length (fun _ => s.tab) s.fb).2 }

/-- The DMA ends a transfer, and a frame has reached the frame buffer if there was no
error. -/
def dmaFinish (ok : Bool) (s : State) : State :=
  match s.dma with
  | .busy job moved =>
      if ok = false then { s with dma := .done false }
      else if moved = cfg.length then
        { s with dma := .done true, frames := s.frames ++ [(job, s.fb)] }
      else s
  | _ => s

def next (s : State) : Turn → State
  | .program c refused => s.programNext cfg c refused
  | .diskMove => s.diskMove cfg
  | .diskFinish ok => { s with disk := s.disk.finish cfg.length ok }
  | .dmaMove => s.dmaMove cfg
  | .dmaFinish ok => s.dmaFinish cfg ok

end State

/-- The first image is next, and the devices are idle; `tab` and the frame buffer hold
anything. -/
structure Start (s : State) : Prop where
  pc : s.pc = .getc
  indexBlock : s.indexBlock = 0
  indexImg : s.indexImg = 0
  failed : s.failed = false
  disk : s.disk = .idle
  dma : s.dma = .idle
  frames : s.frames = []

/-- The program and the devices may have their turn at any time. -/
def mainDisplay (cfg : Config) : System State Turn := .ofFn Start (State.next cfg)

/-! ## Frames without a tear -/

/-- The buffer `tab` holds the image that starts at the block, or the disk has reported an
error. -/
def Shows (cfg : Config) (failed : Bool) (tab : Image) : Option Nat → Prop
  | none => failed = true
  | some block =>
      (∃ k < cfg.nimages, block = k * cfg.count) ∧ Agree cfg.length tab (cfg.image block)

/-- The disk does not write `tab` while the DMA reads it, and each frame is one image of the
disk, unless the disk has reported an error for it. -/
structure Untorn (cfg : Config) (s : State) : Prop where
  apart : ¬(s.disk.Busy ∧ s.dma.Busy)
  whole : ∀ frame ∈ s.frames, Shows cfg s.failed frame.2 frame.1

/-- A call of `ioc_read` which starts a transfer finds the DMA idle. -/
def ReadsIdle (s : State) : Turn → Prop
  | .program _ refused => s.pc = .read → refused = false → ¬s.dma.Busy
  | _ => True

instance : ∀ (s : State) (turn : Turn), Decidable (ReadsIdle s turn)
  | s, .program _ refused =>
      inferInstanceAs (Decidable (s.pc = .read → refused = false → ¬s.dma.Busy))
  | _, .diskMove => .isTrue trivial
  | _, .diskFinish _ => .isTrue trivial
  | _, .dmaMove => .isTrue trivial
  | _, .dmaFinish _ => .isTrue trivial

/-- The steps of the program, which does not start a read while the DMA works. -/
inductive ProgramMove (cfg : Config) (s : State) : State → Prop where
  | wait : ProgramMove cfg s s
  | key : s.pc = .getc → ProgramMove cfg s { s with pc := .read }
  | noKey : s.pc = .getc → ProgramMove cfg s { s with pc := .next }
  | refuse : s.pc = .read → ProgramMove cfg s { s with pc := .completed }
  | read : s.pc = .read → ¬s.dma.Busy →
      ProgramMove cfg s { s with pc := .completed, disk := .busy s.indexBlock 0 }
  | fail : s.pc = .completed → s.disk = .done false →
      ProgramMove cfg s { s with pc := .write, loaded := none, failed := true, disk := .idle }
  | succeed : s.pc = .completed → s.disk = .done true →
      ProgramMove cfg s { s with pc := .write, loaded := some s.indexBlock, disk := .idle }
  | noWrite : s.pc = .write → ProgramMove cfg s { s with pc := .next }
  | write : s.pc = .write → ProgramMove cfg s { s with pc := .next, dma := .busy s.loaded 0 }
  | restart : s.pc = .next →
      ProgramMove cfg s { s with pc := .getc, indexBlock := 0, indexImg := 0 }
  | next : s.pc = .next → s.indexImg + 1 ≠ cfg.nimages →
      ProgramMove cfg s
        { s with pc := .getc, indexBlock := s.indexBlock + cfg.count, indexImg := s.indexImg + 1 }

theorem programNext_move (cfg : Config) {s : State} {c : BitVec 8} {refused : Bool}
    (hidle : ReadsIdle s (.program c refused)) :
    ProgramMove cfg s (s.programNext cfg c refused) := by
  rw [State.programNext]
  cases hpc : s.pc with
  | getc =>
      show ProgramMove cfg s { s with pc := if _ then _ else _ }
      split_ifs
      · exact .key hpc
      · exact .noKey hpc
  | read =>
      cases refused with
      | true => exact .refuse hpc
      | false =>
          cases s.disk with
          | idle => exact .read hpc (hidle hpc rfl)
          | busy job moved => exact .wait
          | done ok => exact .wait
  | completed =>
      cases hdisk : s.disk with
      | idle => exact .wait
      | busy job moved => exact .wait
      | done ok =>
          cases ok with
          | false =>
              show ProgramMove cfg s { s with
                pc := .write, loaded := none, failed := s.failed || true, disk := .idle }
              rw [Bool.or_true]
              exact .fail hpc hdisk
          | true =>
              show ProgramMove cfg s { s with
                pc := .write, loaded := some s.indexBlock, failed := s.failed || false
                disk := .idle }
              rw [Bool.or_false]
              exact .succeed hpc hdisk
  | write =>
      show ProgramMove cfg s (if _ then _ else if _ then _ else _)
      split_ifs
      · exact .noWrite hpc
      · exact .wait
      · exact .write hpc
  | next =>
      show ProgramMove cfg s (if _ then _ else _)
      split_ifs with hend
      · exact .restart hpc
      · exact .next hpc hend

/-- The invariant of the runs in which each read finds the DMA idle. -/
structure Inv (cfg : Config) (s : State) : Prop where
  block : s.indexBlock = s.indexImg * cfg.count
  img : s.indexImg < cfg.nimages
  apart : ¬(s.disk.Busy ∧ s.dma.Busy)
  disk : s.disk = .idle ∨ s.pc = .completed ∧
    s.disk.Carries cfg.length s.indexBlock (cfg.image s.indexBlock) s.tab
  loaded : s.pc = .write → Shows cfg s.failed s.tab s.loaded
  dma : s.dma.Busy →
    ∃ job, s.dma.Carries cfg.length job s.tab s.fb ∧ Shows cfg s.failed s.tab job
  frames : ∀ frame ∈ s.frames, Shows cfg s.failed frame.2 frame.1

section Invariant

variable {cfg : Config} {s s' : State}

theorem Shows.fail {failed : Bool} {tab : Image} {block : Option Nat}
    (h : Shows cfg failed tab block) : Shows cfg true tab block := by
  cases block with
  | none => rfl
  | some block => exact h

/-- The buffer shows in the frame buffer what it held. -/
theorem Shows.agree {failed : Bool} {tab fb : Image} {block : Option Nat}
    (h : Shows cfg failed tab block) (hagree : Agree cfg.length fb tab) :
    Shows cfg failed fb block := by
  cases block with
  | none => exact h
  | some block => exact ⟨h.1, hagree.trans h.2⟩

theorem Inv.program_move (h : Inv cfg s) (hmove : ProgramMove cfg s s') : Inv cfg s' := by
  have hdisk : s.pc ≠ .completed → s.disk = .idle := fun hne =>
    h.disk.resolve_right fun hbusy => hne hbusy.1
  cases hmove with
  | wait => exact h
  | key hpc => exact { h with disk := .inl (hdisk (by simp [hpc])), loaded := by simp }
  | noKey hpc => exact { h with disk := .inl (hdisk (by simp [hpc])), loaded := by simp }
  | refuse hpc => exact { h with disk := .inl (hdisk (by simp [hpc])), loaded := by simp }
  | read hpc hidle =>
      exact { h with
        apart := fun hbusy => hidle hbusy.2
        disk := .inr ⟨rfl, Transfer.carries_start⟩
        loaded := by simp }
  | fail hpc hend =>
      exact { h with
        apart := fun hbusy => hbusy.1
        disk := .inl rfl
        loaded := fun _ => rfl
        dma := fun hbusy => by
          obtain ⟨job, hcarries, hshows⟩ := h.dma hbusy
          exact ⟨job, hcarries, hshows.fail⟩
        frames := fun frame hmem => (h.frames frame hmem).fail }
  | succeed hpc hend =>
      obtain ⟨-, hcarries⟩ := h.disk.resolve_left (by rw [hend]; simp)
      rw [hend] at hcarries
      exact { h with
        apart := fun hbusy => hbusy.1
        disk := .inl rfl
        loaded := fun _ => ⟨⟨s.indexImg, h.img, h.block⟩, hcarries rfl⟩ }
  | noWrite hpc => exact { h with disk := .inl (hdisk (by simp [hpc])), loaded := by simp }
  | write hpc =>
      have hidle := hdisk (by simp [hpc])
      refine { h with
        apart := fun hbusy => ?_, disk := .inl hidle, loaded := by simp
        dma := fun _ => ⟨s.loaded, Transfer.carries_start, h.loaded hpc⟩ }
      rw [show s.disk = .idle from hidle] at hbusy
      exact hbusy.1
  | restart hpc =>
      exact { h with
        block := (Nat.zero_mul _).symm, img := cfg.nimages_pos
        disk := .inl (hdisk (by simp [hpc])), loaded := by simp }
  | next hpc hne =>
      exact { h with
        block := by rw [h.block, Nat.succ_mul]
        img := Nat.lt_of_le_of_ne h.img hne
        disk := .inl (hdisk (by simp [hpc])), loaded := by simp }

theorem Inv.diskMove (h : Inv cfg s) : Inv cfg (s.diskMove cfg) := by
  by_cases hbusy : s.disk.Busy
  · obtain ⟨hpc, hcarries⟩ := h.disk.resolve_left hbusy.ne_idle
    have hidle : ¬s.dma.Busy := fun hdma => h.apart ⟨hbusy, hdma⟩
    exact { h with
      apart := fun hboth => hidle hboth.2
      disk := .inr ⟨hpc, hcarries.move⟩
      loaded := fun hwrite => absurd (hpc.symm.trans hwrite) (by decide)
      dma := fun hdma => absurd hdma hidle }
  · rw [State.diskMove, Transfer.move_of_not_busy hbusy]
    exact h

theorem Inv.diskFinish (h : Inv cfg s) (ok : Bool) : Inv cfg (s.next cfg (.diskFinish ok)) := by
  by_cases hbusy : s.disk.Busy
  · obtain ⟨hpc, hcarries⟩ := h.disk.resolve_left hbusy.ne_idle
    have hidle : ¬s.dma.Busy := fun hdma => h.apart ⟨hbusy, hdma⟩
    exact { h with
      apart := fun hboth => hidle hboth.2
      disk := .inr ⟨hpc, hcarries.finish ok⟩ }
  · rw [State.next, Transfer.finish_of_not_busy hbusy]
    exact h

theorem Inv.dmaMove (h : Inv cfg s) : Inv cfg (s.dmaMove cfg) := by
  by_cases hbusy : s.dma.Busy
  · obtain ⟨job, hcarries, hshows⟩ := h.dma hbusy
    exact { h with
      apart := fun hboth => h.apart ⟨hboth.1, hbusy⟩
      dma := fun _ => ⟨job, hcarries.move, hshows⟩ }
  · rw [State.dmaMove, Transfer.move_of_not_busy hbusy]
    exact h

theorem Inv.dmaFinish (h : Inv cfg s) (ok : Bool) : Inv cfg (s.dmaFinish cfg ok) := by
  rw [State.dmaFinish]
  cases hdma : s.dma with
  | idle => exact h
  | done ok => exact h
  | busy job moved =>
      obtain ⟨job', hcarries, hshows⟩ := h.dma (by rw [hdma]; trivial)
      rw [hdma] at hcarries
      obtain ⟨rfl, -, hagree⟩ := hcarries
      show Inv cfg (if _ then _ else if _ then _ else _)
      split_ifs with herror hend
      · exact { h with apart := fun hboth => hboth.2, dma := fun hbusy => hbusy.elim }
      · refine { h with
          apart := fun hboth => hboth.2, dma := fun hbusy => hbusy.elim
          frames := fun frame hmem => ?_ }
        rcases List.mem_append.mp hmem with hold | hnew
        · exact h.frames frame hold
        · rw [List.mem_singleton.mp hnew]
          exact hshows.agree (hend ▸ hagree)
      · exact h

theorem Inv.next (h : Inv cfg s) (turn : Turn) (hidle : ReadsIdle s turn) :
    Inv cfg (s.next cfg turn) := by
  cases turn with
  | program c refused => exact h.program_move (programNext_move cfg hidle)
  | diskMove => exact h.diskMove
  | diskFinish ok => exact h.diskFinish ok
  | dmaMove => exact h.dmaMove
  | dmaFinish ok => exact h.dmaFinish ok

theorem Inv.start (h : Start s) : Inv cfg s where
  block := by rw [h.indexBlock, h.indexImg, Nat.zero_mul]
  img := by rw [h.indexImg]; exact cfg.nimages_pos
  apart := by rw [h.disk]; exact fun hboth => hboth.1
  disk := .inl h.disk
  loaded := fun hwrite => absurd (h.pc.symm.trans hwrite) (by decide)
  dma := by rw [h.dma]; exact fun hbusy => hbusy.elim
  frames := by simp [h.frames]

end Invariant

/-- As long as each call of `ioc_read` finds the DMA idle, the disk does not write `tab`
while the DMA reads it, and each frame is one image of the disk, or the disk has reported an
error for it. -/
theorem untorn_of_readsIdle {cfg : Config} {s : State}
    (h : ((mainDisplay cfg).under ReadsIdle).Reachable s) : Untorn cfg s := by
  have hinv : Inv cfg s := h.invariant (fun _ hstart => .start hstart) fun _ turn _ hinv hstep =>
    hstep.2 ▸ hinv.next turn hstep.1
  exact ⟨hinv.apart, hinv.frames⟩

/-! ## A fast user -/

/-- Two images of two bytes. -/
def small : Config := ⟨2, 1, 2, 2, fun a => BitVec.ofNat 8 a, rfl, by decide⟩

def booted : State :=
  ⟨.getc, 0, 0, fun _ => 0, none, false, .idle, .idle, fun _ => 0, []⟩

theorem booted_start : Start booted := ⟨rfl, rfl, rfl, rfl, rfl, rfl, rfl⟩

theorem mainDisplay_step {cfg : Config} (s : State) (turn : Turn) (s' : State)
    (h : some (s.next cfg turn) = some s') : (mainDisplay cfg).step s turn s' :=
  (Option.some.inj h).symm

/-- A key, and the image is read into `tab`. -/
def load : List Turn :=
  List.replicate 2 (.program 32 false) ++ List.replicate 2 .diskMove ++ [.diskFinish true]

/-- The user waits until the image is displayed. -/
def slow : List Turn :=
  load ++ List.replicate 2 (.program 32 false) ++ List.replicate 2 .dmaMove ++ [.dmaFinish true]

/-- Two images of a slow user are displayed. -/
theorem untorn_of_readsIdle_slow : ∃ s,
    (((mainDisplay small).under ReadsIdle).Reachable s ∧
      s.frames.map Prod.fst = [some 0, some 1]) ∧ Untorn small s := by
  have htest : (exec (guarded ReadsIdle fun s turn => some (s.next small turn))
      (slow ++ .program 32 false :: slow) booted).any
      (fun s => s.frames.map Prod.fst = [some 0, some 1]) = true := by decide
  obtain ⟨s, hs, hframes⟩ := System.exists_exec (S := (mainDisplay small).under ReadsIdle)
    (guarded_step mainDisplay_step) booted_start htest
  exact ⟨s, ⟨hs, of_decide_eq_true hframes⟩, untorn_of_readsIdle hs⟩

/-- The user presses a key when the DMA has copied one byte, and the disk starts to read the
next image. -/
def tooFast : List Turn :=
  load ++ List.replicate 2 (.program 32 false) ++ [.dmaMove] ++ List.replicate 3 (.program 32 false)

/-- The next image is in `tab` before the DMA goes on. -/
def torn : List Turn :=
  tooFast ++ List.replicate 2 .diskMove ++ [.dmaMove, .dmaFinish true]

/-- A fast user has the disk and the DMA work on `tab` at the same time, and gets a frame
which is none of the images. -/
theorem not_untorn :
    ¬(∀ cfg s, (mainDisplay cfg).Reachable s → ¬(s.disk.Busy ∧ s.dma.Busy)) ∧
    ¬(∀ cfg s, (mainDisplay cfg).Reachable s → ∀ frame ∈ s.frames,
      ∃ k < cfg.nimages, Agree cfg.length frame.2 (cfg.image (k * cfg.count))) := by
  constructor
  · intro hapart
    have htest : (exec (fun s turn => some (State.next small s turn)) tooFast booted).any
        (fun s => s.disk.Busy ∧ s.dma.Busy) = true := by decide
    obtain ⟨s, hs, hbusy⟩ := System.exists_exec (S := mainDisplay small) mainDisplay_step
      booted_start htest
    exact hapart small s hs (of_decide_eq_true hbusy)
  · intro hwhole
    have htest : (exec (fun s turn => some (State.next small s turn)) torn booted).any
        (fun s => s.frames.any fun frame => frame.2 0 = 0 ∧ frame.2 1 = 3) = true := by decide
    obtain ⟨s, hs, hframe⟩ := System.exists_exec (S := mainDisplay small) mainDisplay_step
      booted_start htest
    obtain ⟨frame, hmem, hbytes⟩ := List.any_eq_true.mp hframe
    obtain ⟨h0, h1⟩ := of_decide_eq_true hbytes
    obtain ⟨k, hk, hagree⟩ := hwhole small s hs frame hmem
    have hfirst : frame.2 0 = BitVec.ofNat 8 (k * 1 * 2 + 0) := hagree 0 (by decide)
    have hsecond : frame.2 1 = BitVec.ofNat 8 (k * 1 * 2 + 1) := hagree 1 (by decide)
    rw [h0] at hfirst
    rw [h1] at hsecond
    have hlt : k < 2 := hk
    have hcases : k = 0 ∨ k = 1 := by omega
    rcases hcases with rfl | rfl
    · exact absurd hsecond (by decide)
    · exact absurd hfirst (by decide)

end SmcTp.Soft.MainDisplay
