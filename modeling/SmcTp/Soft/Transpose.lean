import SmcTp.Clocked.Run
import SmcTp.Programs.Mailbox
import SmcTp.Programs.Transfer

/-!
# The image pipeline

Three tasks run on three processors.  `load` reads the images of the disk one after the
other into `buf_in`, `transpose` copies each one transposed into `buf_out`, and `display`
has the DMA copy that to the frame buffer.  They share the two buffers and two flags, and
one step of the system is one memory operation of one of them, or one byte moved or one
transfer ended by the disk or the DMA.

Each buffer with its flag is a mailbox, `inBox` and `outBox`.  The task `transpose` is the
consumer of the one and the producer of the other, and releases the former before it
publishes in the latter.
-/

namespace SmcTp.Soft.Transpose

open Clocked Programs

/-! ## The program -/

/-- A buffer, or an image, by the offset of the byte: `[l][p]` is at `l * n + p`. -/
abbrev Image := Nat → BitVec 8

/-- Where `load()` stands. -/
inductive LoadPc where
  /-- `while (image < NIMAGES)` -/
  | loop
  /-- `while (buf_in_empty == FALSE)` -/
  | wait
  /-- `ioc_read(image*NBLOCKS, buf_in, NBLOCKS)` -/
  | read
  /-- `ioc_completed()` -/
  | completed
  /-- `buf_in_empty = FALSE` and `image++` -/
  | publish
  /-- After the loop. -/
  | exit
  /-- The `exit()` of a failed system call. -/
  | echec
deriving DecidableEq, Repr

/-- Where `transpose()` stands. -/
inductive TransposePc where
  /-- `while (image < NIMAGES)` -/
  | loop
  /-- `buf_in_empty == TRUE` -/
  | waitIn
  /-- `buf_out_empty == FALSE` -/
  | waitOut
  /-- `l < NLINES` -/
  | line (l : Nat)
  /-- `p < NPIXELS`, and the load of `buf_in[p][l]` -/
  | pixel (l p : Nat)
  /-- The store to `buf_out[l][p]` -/
  | store (l p : Nat) (value : BitVec 8)
  /-- `buf_in_empty = TRUE` -/
  | release
  /-- `buf_out_empty = FALSE` and `image++` -/
  | publish
  | exit
deriving DecidableEq, Repr

/-- Where `display()` stands. -/
inductive DisplayPc where
  /-- `while (image < NIMAGES)` -/
  | loop
  /-- `while (buf_out_empty == TRUE)` -/
  | wait
  /-- `fb_write(0, buf_out, NLINES*NPIXELS)` -/
  | write
  /-- `fb_completed()` -/
  | completed
  /-- `buf_out_empty = TRUE` and `image++` -/
  | release
  | exit
  | echec
deriving DecidableEq, Repr

/-- The program and its platform. -/
structure Config where
  /-- `NLINES` and `NPIXELS`, which are the same. -/
  n : Nat
  /-- `NIMAGES`. -/
  nimages : Nat
  /-- The bytes of a block of the disk. -/
  blockSize : Nat
  /-- The bytes of the disk. -/
  disk : Nat → BitVec 8
  blockSize_dvd : blockSize ∣ n * n

namespace Config

variable (cfg : Config)

/-- The bytes of an image. -/
def size : Nat := cfg.n * cfg.n

/-- `NBLOCKS` -/
def nblocks : Nat := cfg.n * cfg.n / cfg.blockSize

/-- `image*NBLOCKS`, as the macro expands. -/
def firstBlock (image : Nat) : Nat := image * cfg.n * cfg.n / cfg.blockSize

/-- The bytes from a block of the disk on. -/
def blocks (first : Nat) : Image := fun a => cfg.disk (first * cfg.blockSize + a)

/-- An image of the disk. -/
def image (k : Nat) : Image := fun a => cfg.disk (k * cfg.size + a)

/-- The blocks of an image are its bytes. -/
theorem nblocks_mul : cfg.nblocks * cfg.blockSize = cfg.size :=
  Nat.div_mul_cancel cfg.blockSize_dvd

theorem blocks_firstBlock (k : Nat) : cfg.blocks (cfg.firstBlock k) = cfg.image k := by
  have hdvd : cfg.blockSize ∣ k * (cfg.n * cfg.n) := Nat.dvd_mul_left_of_dvd cfg.blockSize_dvd k
  funext a
  rw [blocks, image, firstBlock, size, Nat.mul_assoc, Nat.div_mul_cancel hdvd]

end Config

/-- The shared memory, the tasks with their image counters, and the devices. -/
structure State where
  bufInEmpty : Bool
  bufOutEmpty : Bool
  bufIn : Image
  bufOut : Image
  load : LoadPc
  loadImage : Nat
  transpose : TransposePc
  transposeImage : Nat
  display : DisplayPc
  displayImage : Nat
  /-- The block device, whose job is the first block to read. -/
  disk : Transfer Nat
  dma : Transfer Unit
  /-- The frame buffer. -/
  fb : Image
  /-- What the frame buffer held at the end of each transfer without an error. -/
  frames : List Image

namespace State

variable (cfg : Config)

/-- A memory operation of `load()`.  The call of `ioc_read` may be `refused`, which is the
check of its buffer. -/
def loadNext (refused : Bool) (s : State) : State :=
  match s.load with
  | .loop => { s with load := if s.loadImage < cfg.nimages then .wait else .exit }
  | .wait => { s with load := if s.bufInEmpty = false then .wait else .read }
  | .read =>
      if refused then { s with load := .echec }
      else
        match s.disk with
        | .idle => { s with load := .completed, disk := .busy (cfg.firstBlock s.loadImage) 0 }
        | _ => s
  | .completed =>
      match s.disk with
      | .done ok => { s with load := if ok then .publish else .echec, disk := .idle }
      | _ => s
  | .publish => { s with bufInEmpty := false, loadImage := s.loadImage + 1, load := .loop }
  | .exit => s
  | .echec => s

/-- A memory operation of `transpose()`. -/
def transposeNext (s : State) : State :=
  match s.transpose with
  | .loop => { s with transpose := if s.transposeImage < cfg.nimages then .waitIn else .exit }
  | .waitIn => { s with transpose := if s.bufInEmpty then .waitIn else .waitOut }
  | .waitOut => { s with transpose := if s.bufOutEmpty = false then .waitIn else .line 0 }
  | .line l => { s with transpose := if l < cfg.n then .pixel l 0 else .release }
  | .pixel l p =>
      { s with
        transpose := if p < cfg.n then .store l p (s.bufIn (p * cfg.n + l)) else .line (l + 1) }
  | .store l p value =>
      { s with
        bufOut := Function.update s.bufOut (l * cfg.n + p) value, transpose := .pixel l (p + 1) }
  | .release => { s with bufInEmpty := true, transpose := .publish }
  | .publish =>
      { s with bufOutEmpty := false, transposeImage := s.transposeImage + 1, transpose := .loop }
  | .exit => s

/-- A memory operation of `display()`.  The call of `fb_write` may be `refused`. -/
def displayNext (refused : Bool) (s : State) : State :=
  match s.display with
  | .loop => { s with display := if s.displayImage < cfg.nimages then .wait else .exit }
  | .wait => { s with display := if s.bufOutEmpty then .wait else .write }
  | .write =>
      if refused then { s with display := .echec }
      else
        match s.dma with
        | .idle => { s with display := .completed, dma := .busy () 0 }
        | _ => s
  | .completed =>
      match s.dma with
      | .done ok => { s with display := if ok then .release else .echec, dma := .idle }
      | _ => s
  | .release => { s with bufOutEmpty := true, displayImage := s.displayImage + 1, display := .loop }
  | .exit => s
  | .echec => s

/-- The disk writes a byte to `buf_in`. -/
def diskMove (s : State) : State :=
  { s with
    disk := (s.disk.move (cfg.nblocks * cfg.blockSize) cfg.blocks s.bufIn).1
    bufIn := (s.disk.move (cfg.nblocks * cfg.blockSize) cfg.blocks s.bufIn).2 }

/-- The disk ends a transfer, and the interrupt routine reports it. -/
def diskFinish (ok : Bool) (s : State) : State :=
  { s with disk := s.disk.finish (cfg.nblocks * cfg.blockSize) ok }

/-- The DMA copies a byte of `buf_out` to the frame buffer. -/
def dmaMove (s : State) : State :=
  { s with
    dma := (s.dma.move cfg.size (fun _ => s.bufOut) s.fb).1
    fb := (s.dma.move cfg.size (fun _ => s.bufOut) s.fb).2 }

/-- The DMA ends a transfer, which displays a frame if there was no error. -/
def dmaFinish (ok : Bool) (s : State) : State :=
  { s with
    dma := s.dma.finish cfg.size ok
    frames := if s.dma.Busy ∧ s.dma.finish cfg.size ok = .done true then s.frames ++ [s.fb]
      else s.frames }

end State

/-- Whose turn it is. -/
inductive Turn where
  | load (refused : Bool)
  | transpose
  | display (refused : Bool)
  | diskMove
  | diskFinish (ok : Bool)
  | dmaMove
  | dmaFinish (ok : Bool)
deriving DecidableEq, Repr

def State.next (cfg : Config) (s : State) : Turn → State
  | .load refused => s.loadNext cfg refused
  | .transpose => s.transposeNext cfg
  | .display refused => s.displayNext cfg refused
  | .diskMove => s.diskMove cfg
  | .diskFinish ok => s.diskFinish cfg ok
  | .dmaMove => s.dmaMove cfg
  | .dmaFinish ok => s.dmaFinish cfg ok

/-- Both flags are set and each task is at its beginning; the buffers hold anything. -/
structure Start (s : State) : Prop where
  bufInEmpty : s.bufInEmpty = true
  bufOutEmpty : s.bufOutEmpty = true
  load : s.load = .loop ∧ s.loadImage = 0
  transpose : s.transpose = .loop ∧ s.transposeImage = 0
  display : s.display = .loop ∧ s.displayImage = 0
  disk : s.disk = .idle
  dma : s.dma = .idle
  frames : s.frames = []

/-- Any task or device may have its turn at any time. -/
def pipeline (cfg : Config) : System State Turn := .ofFn Start (State.next cfg)

/-! ## What a step can do -/

/-- The steps of `load()`. -/
inductive LoadMove (cfg : Config) (s : State) : State → Prop where
  | spin : LoadMove cfg s s
  | enter : s.load = .loop → LoadMove cfg s { s with load := .wait }
  | leave : s.load = .loop → LoadMove cfg s { s with load := .exit }
  | see : s.load = .wait → s.bufInEmpty = true → LoadMove cfg s { s with load := .read }
  | refuse : s.load = .read → LoadMove cfg s { s with load := .echec }
  | read : s.load = .read → s.disk = .idle →
      LoadMove cfg s { s with load := .completed, disk := .busy (cfg.firstBlock s.loadImage) 0 }
  | fail : s.load = .completed → s.disk = .done false →
      LoadMove cfg s { s with load := .echec, disk := .idle }
  | succeed : s.load = .completed → s.disk = .done true →
      LoadMove cfg s { s with load := .publish, disk := .idle }
  | publish : s.load = .publish →
      LoadMove cfg s { s with bufInEmpty := false, loadImage := s.loadImage + 1, load := .loop }

/-- The steps of `transpose()`. -/
inductive TransposeMove (cfg : Config) (s : State) : State → Prop where
  | spin : TransposeMove cfg s s
  | enter : s.transpose = .loop → TransposeMove cfg s { s with transpose := .waitIn }
  | leave : s.transpose = .loop → TransposeMove cfg s { s with transpose := .exit }
  | seeIn : s.transpose = .waitIn → s.bufInEmpty = false →
      TransposeMove cfg s { s with transpose := .waitOut }
  | retry : s.transpose = .waitOut → TransposeMove cfg s { s with transpose := .waitIn }
  | seeOut : s.transpose = .waitOut → s.bufOutEmpty = true →
      TransposeMove cfg s { s with transpose := .line 0 }
  | line {l : Nat} : s.transpose = .line l → l < cfg.n →
      TransposeMove cfg s { s with transpose := .pixel l 0 }
  | lastLine {l : Nat} : s.transpose = .line l → ¬l < cfg.n →
      TransposeMove cfg s { s with transpose := .release }
  | pixel {l p : Nat} : s.transpose = .pixel l p → p < cfg.n →
      TransposeMove cfg s { s with transpose := .store l p (s.bufIn (p * cfg.n + l)) }
  | lastPixel {l p : Nat} : s.transpose = .pixel l p → ¬p < cfg.n →
      TransposeMove cfg s { s with transpose := .line (l + 1) }
  | store {l p : Nat} {value : BitVec 8} : s.transpose = .store l p value →
      TransposeMove cfg s
        { s with
          bufOut := Function.update s.bufOut (l * cfg.n + p) value, transpose := .pixel l (p + 1) }
  | release : s.transpose = .release →
      TransposeMove cfg s { s with bufInEmpty := true, transpose := .publish }
  | publish : s.transpose = .publish →
      TransposeMove cfg s
        { s with
          bufOutEmpty := false, transposeImage := s.transposeImage + 1, transpose := .loop }

/-- The steps of `display()`. -/
inductive DisplayMove (cfg : Config) (s : State) : State → Prop where
  | spin : DisplayMove cfg s s
  | enter : s.display = .loop → s.displayImage < cfg.nimages →
      DisplayMove cfg s { s with display := .wait }
  | leave : s.display = .loop → ¬s.displayImage < cfg.nimages →
      DisplayMove cfg s { s with display := .exit }
  | see : s.display = .wait → s.bufOutEmpty = false →
      DisplayMove cfg s { s with display := .write }
  | refuse : s.display = .write → DisplayMove cfg s { s with display := .echec }
  | write : s.display = .write → s.dma = .idle →
      DisplayMove cfg s { s with display := .completed, dma := .busy () 0 }
  | fail : s.display = .completed → s.dma = .done false →
      DisplayMove cfg s { s with display := .echec, dma := .idle }
  | succeed : s.display = .completed → s.dma = .done true →
      DisplayMove cfg s { s with display := .release, dma := .idle }
  | release : s.display = .release →
      DisplayMove cfg s
        { s with bufOutEmpty := true, displayImage := s.displayImage + 1, display := .loop }

theorem loadNext_move (cfg : Config) (refused : Bool) (s : State) :
    LoadMove cfg s (s.loadNext cfg refused) := by
  rw [State.loadNext]
  cases hpc : s.load with
  | loop =>
      show LoadMove cfg s { s with load := if _ then _ else _ }
      split_ifs
      · exact .enter hpc
      · exact .leave hpc
  | wait =>
      show LoadMove cfg s { s with load := if _ then _ else _ }
      split_ifs with hempty
      · rw [← hpc]
        exact .spin
      · exact .see hpc (eq_true_of_ne_false hempty)
  | read =>
      show LoadMove cfg s (if _ then _ else _)
      split_ifs
      · exact .refuse hpc
      · cases hdisk : s.disk with
        | idle => exact .read hpc hdisk
        | busy job moved => exact .spin
        | done ok => exact .spin
  | completed =>
      cases hdisk : s.disk with
      | idle => exact .spin
      | busy job moved => exact .spin
      | done ok =>
          cases ok with
          | false => exact .fail hpc hdisk
          | true => exact .succeed hpc hdisk
  | publish => exact .publish hpc
  | exit => exact .spin
  | echec => exact .spin

theorem transposeNext_move (cfg : Config) (s : State) :
    TransposeMove cfg s (s.transposeNext cfg) := by
  rw [State.transposeNext]
  cases hpc : s.transpose with
  | loop =>
      show TransposeMove cfg s { s with transpose := if _ then _ else _ }
      split_ifs
      · exact .enter hpc
      · exact .leave hpc
  | waitIn =>
      show TransposeMove cfg s { s with transpose := if _ then _ else _ }
      split_ifs with hempty
      · rw [← hpc]
        exact .spin
      · exact .seeIn hpc (eq_false_of_ne_true hempty)
  | waitOut =>
      show TransposeMove cfg s { s with transpose := if _ then _ else _ }
      split_ifs with hempty
      · exact .retry hpc
      · exact .seeOut hpc (eq_true_of_ne_false hempty)
  | line l =>
      show TransposeMove cfg s { s with transpose := if _ then _ else _ }
      split_ifs with hl
      · exact .line hpc hl
      · exact .lastLine hpc hl
  | pixel l p =>
      show TransposeMove cfg s { s with transpose := if _ then _ else _ }
      split_ifs with hp
      · exact .pixel hpc hp
      · exact .lastPixel hpc hp
  | store l p value => exact .store hpc
  | release => exact .release hpc
  | publish => exact .publish hpc
  | exit => exact .spin

theorem displayNext_move (cfg : Config) (refused : Bool) (s : State) :
    DisplayMove cfg s (s.displayNext cfg refused) := by
  rw [State.displayNext]
  cases hpc : s.display with
  | loop =>
      show DisplayMove cfg s { s with display := if _ then _ else _ }
      split_ifs with hlt
      · exact .enter hpc hlt
      · exact .leave hpc hlt
  | wait =>
      show DisplayMove cfg s { s with display := if _ then _ else _ }
      split_ifs with hempty
      · rw [← hpc]
        exact .spin
      · exact .see hpc (eq_false_of_ne_true hempty)
  | write =>
      show DisplayMove cfg s (if _ then _ else _)
      split_ifs
      · exact .refuse hpc
      · cases hdma : s.dma with
        | idle => exact .write hpc hdma
        | busy job moved => exact .spin
        | done ok => exact .spin
  | completed =>
      cases hdma : s.dma with
      | idle => exact .spin
      | busy job moved => exact .spin
      | done ok =>
          cases ok with
          | false => exact .fail hpc hdma
          | true => exact .succeed hpc hdma
  | release => exact .release hpc
  | exit => exact .spin
  | echec => exact .spin

/-! ## The flags -/

/-- `load()` has seen `buf_in` empty. -/
def LoadPc.filling : LoadPc → Bool
  | .read | .completed | .publish => true
  | _ => false

/-- `transpose()` has seen `buf_in` full. -/
def TransposePc.draining : TransposePc → Bool
  | .waitOut | .line _ | .pixel _ _ | .store _ _ _ | .release => true
  | _ => false

/-- `transpose()` has seen `buf_out` empty. -/
def TransposePc.filling : TransposePc → Bool
  | .line _ | .pixel _ _ | .store _ _ _ | .release | .publish => true
  | _ => false

/-- `display()` has seen `buf_out` full. -/
def DisplayPc.draining : DisplayPc → Bool
  | .write | .completed | .release => true
  | _ => false

namespace State

variable {cfg : Config} {s s' : State}

/-- The images `transpose()` has released. -/
def released (s : State) : Nat :=
  match s.transpose with
  | .publish => s.transposeImage + 1
  | _ => s.transposeImage

/-- `buf_in` and its flag. -/
def inBox (s : State) : Mailbox :=
  ⟨s.bufInEmpty, s.load.filling, s.transpose.draining, s.loadImage, s.released⟩

/-- `buf_out` and its flag. -/
def outBox (s : State) : Mailbox :=
  ⟨s.bufOutEmpty, s.transpose.filling, s.display.draining, s.transposeImage, s.displayImage⟩

end State

section Flags

variable {cfg : Config} {s s' : State}

theorem LoadMove.inBox (h : LoadMove cfg s s') : Mailbox.Step s.inBox s'.inBox := by
  rw [State.inBox]
  cases h with
  | spin => exact .stay
  | enter hpc => rw [hpc]; exact .stay
  | leave hpc => rw [hpc]; exact .stay
  | see hpc hempty => exact .beginFill hempty
  | refuse hpc => exact .abandonFill
  | read hpc hdisk => rw [hpc]; exact .stay
  | fail hpc hdisk => exact .abandonFill
  | succeed hpc hdisk => rw [hpc]; exact .stay
  | publish hpc => rw [hpc]; exact .publish rfl

theorem LoadMove.outBox (h : LoadMove cfg s s') : s'.outBox = s.outBox := by
  cases h <;> rfl

theorem TransposeMove.inBox (h : TransposeMove cfg s s') : Mailbox.Step s.inBox s'.inBox := by
  rw [State.inBox, State.released]
  cases h with
  | spin => exact .stay
  | enter hpc => rw [hpc]; exact .stay
  | leave hpc => rw [hpc]; exact .stay
  | seeIn hpc hfull => rw [hpc]; exact .beginDrain hfull
  | retry hpc => rw [hpc]; exact .abandonDrain
  | seeOut hpc hempty => rw [hpc]; exact .stay
  | line hpc hl => rw [hpc]; exact .stay
  | lastLine hpc hl => rw [hpc]; exact .stay
  | pixel hpc hp => rw [hpc]; exact .stay
  | lastPixel hpc hp => rw [hpc]; exact .stay
  | store hpc => rw [hpc]; exact .stay
  | release hpc => rw [hpc]; exact .release rfl
  | publish hpc => rw [hpc]; exact .stay

theorem TransposeMove.outBox (h : TransposeMove cfg s s') : Mailbox.Step s.outBox s'.outBox := by
  rw [State.outBox]
  cases h with
  | spin => exact .stay
  | enter hpc => rw [hpc]; exact .stay
  | leave hpc => rw [hpc]; exact .stay
  | seeIn hpc hfull => rw [hpc]; exact .stay
  | retry hpc => rw [hpc]; exact .stay
  | seeOut hpc hempty => exact .beginFill hempty
  | line hpc hl => rw [hpc]; exact .stay
  | lastLine hpc hl => rw [hpc]; exact .stay
  | pixel hpc hp => rw [hpc]; exact .stay
  | lastPixel hpc hp => rw [hpc]; exact .stay
  | store hpc => rw [hpc]; exact .stay
  | release hpc => rw [hpc]; exact .stay
  | publish hpc => rw [hpc]; exact .publish rfl

theorem DisplayMove.inBox (h : DisplayMove cfg s s') : s'.inBox = s.inBox := by
  cases h <;> rfl

theorem DisplayMove.outBox (h : DisplayMove cfg s s') : Mailbox.Step s.outBox s'.outBox := by
  rw [State.outBox]
  cases h with
  | spin => exact .stay
  | enter hpc hlt => rw [hpc]; exact .stay
  | leave hpc hlt => rw [hpc]; exact .stay
  | see hpc hfull => exact .beginDrain hfull
  | refuse hpc => exact .abandonDrain
  | write hpc hdma => rw [hpc]; exact .stay
  | fail hpc hdma => exact .abandonDrain
  | succeed hpc hdma => rw [hpc]; exact .stay
  | release hpc => rw [hpc]; exact .release rfl

end Flags

end SmcTp.Soft.Transpose
