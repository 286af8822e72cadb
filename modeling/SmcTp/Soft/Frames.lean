import Mathlib.Data.List.Basic
import SmcTp.Soft.Transpose

/-!
# The frames of the image pipeline

What a buffer holds depends on where its users stand: `LoadOk`, `TransposeOk` and
`DisplayOk` say what.  With the mailboxes this is kept by every step (`Inv.next`), and so the
frames displayed are the images of the disk, transposed, in order (`displayed_in_order`).
-/

namespace SmcTp.Soft.Transpose

open Clocked Programs

/-! ## The data -/

/-- The image of the disk with its lines and columns exchanged. -/
def Config.transposed (cfg : Config) (k : Nat) : Image := fun a =>
  cfg.image k (a % cfg.n * cfg.n + a / cfg.n)

theorem Config.transposed_at (cfg : Config) (k : Nat) {l p : Nat} (hp : p < cfg.n) :
    cfg.transposed k (l * cfg.n + p) = cfg.image k (p * cfg.n + l) := by
  have hn : 0 < cfg.n := Nat.lt_of_le_of_lt (Nat.zero_le p) hp
  have hmod : (l * cfg.n + p) % cfg.n = p := by
    rw [Nat.mul_add_mod_self_right, Nat.mod_eq_of_lt hp]
  have hdiv : (l * cfg.n + p) / cfg.n = l := by
    rw [Nat.mul_comm, Nat.mul_add_div hn, Nat.div_eq_of_lt hp, Nat.add_zero]
  rw [transposed, hmod, hdiv]

theorem Config.offset_lt (cfg : Config) {l p : Nat} (hl : l < cfg.n) (hp : p < cfg.n) :
    l * cfg.n + p < cfg.size := by
  have hle : (l + 1) * cfg.n ≤ cfg.n * cfg.n := Nat.mul_le_mul_right _ hl
  rw [Nat.succ_mul] at hle
  exact Nat.lt_of_lt_of_le (Nat.add_lt_add_left hp _) hle

/-- What `load()` and the disk have put in `buf_in`. -/
def LoadOk (cfg : Config) (image : Nat) (disk : Transfer Nat) (bufIn : Image) : LoadPc → Prop
  | .completed =>
      disk.Carries (cfg.nblocks * cfg.blockSize) (cfg.firstBlock image)
        (cfg.blocks (cfg.firstBlock image)) bufIn
  | .publish => disk = .idle ∧ Agree cfg.size bufIn (cfg.image image)
  | _ => disk = .idle

/-- What `transpose()` has put in `buf_out`. -/
def TransposeOk (cfg : Config) (image : Nat) (bufOut : Image) : TransposePc → Prop
  | .line l => l ≤ cfg.n ∧ Agree (l * cfg.n) bufOut (cfg.transposed image)
  | .pixel l p => l < cfg.n ∧ p ≤ cfg.n ∧ Agree (l * cfg.n + p) bufOut (cfg.transposed image)
  | .store l p value =>
      l < cfg.n ∧ p < cfg.n ∧ Agree (l * cfg.n + p) bufOut (cfg.transposed image) ∧
        value = cfg.transposed image (l * cfg.n + p)
  | .release | .publish => Agree cfg.size bufOut (cfg.transposed image)
  | _ => True

/-- The frame of a transfer that has ended without an error counts as displayed. -/
def succeeded (dma : Transfer Unit) : Nat := if dma = .done true then 1 else 0

/-- What `display()` and the DMA have put in the frame buffer, and the frames displayed. -/
def DisplayOk (cfg : Config) (image : Nat) (dma : Transfer Unit) (bufOut fb : Image)
    (count : Nat) : DisplayPc → Prop
  | .loop => dma = .idle ∧ count = image ∧ image ≤ cfg.nimages
  | .wait | .write => dma = .idle ∧ count = image ∧ image < cfg.nimages
  | .completed =>
      dma.Carries cfg.size () bufOut fb ∧ count = image + succeeded dma ∧ image < cfg.nimages
  | .release => dma = .idle ∧ count = image + 1 ∧ image < cfg.nimages
  | .exit => dma = .idle ∧ count = image ∧ image = cfg.nimages
  | .echec => dma = .idle ∧ count = image ∧ image < cfg.nimages

/-- The invariant of the pipeline. -/
structure Inv (cfg : Config) (s : State) : Prop where
  inBox : s.inBox.Ok
  outBox : s.outBox.Ok
  load : LoadOk cfg s.loadImage s.disk s.bufIn s.load
  bufIn : s.bufInEmpty = false → Agree cfg.size s.bufIn (cfg.image s.released)
  transpose : TransposeOk cfg s.transposeImage s.bufOut s.transpose
  bufOut : s.bufOutEmpty = false → Agree cfg.size s.bufOut (cfg.transposed s.displayImage)
  display : DisplayOk cfg s.displayImage s.dma s.bufOut s.fb s.frames.length s.display
  frames : ∀ k frame, s.frames[k]? = some frame → Agree cfg.size frame (cfg.transposed k)

section Data

variable {cfg : Config} {s s' : State}

/-- A busy disk works for `load()`. -/
theorem LoadOk.completed_of_busy {image : Nat} {disk : Transfer Nat} {bufIn : Image} {pc : LoadPc}
    (h : LoadOk cfg image disk bufIn pc) (hbusy : disk.Busy) : pc = .completed := by
  cases pc with
  | completed => rfl
  | publish => exact absurd hbusy (by rw [h.1]; exact id)
  | loop | wait | read | exit | echec => exact absurd hbusy (by rw [h]; exact id)

theorem DisplayOk.completed_of_busy {image count : Nat} {dma : Transfer Unit} {bufOut fb : Image}
    {pc : DisplayPc} (h : DisplayOk cfg image dma bufOut fb count pc) (hbusy : dma.Busy) :
    pc = .completed := by
  cases pc with
  | completed => rfl
  | loop | wait | write | release | exit | echec => exact absurd hbusy (by rw [h.1]; exact id)

/-- Only a transfer depends on the source of the frame. -/
theorem DisplayOk.write {image count : Nat} {dma : Transfer Unit} {bufOut bufOut' fb : Image}
    {pc : DisplayPc} (h : DisplayOk cfg image dma bufOut fb count pc)
    (hdraining : pc.draining = false) : DisplayOk cfg image dma bufOut' fb count pc := by
  cases pc with
  | completed => exact absurd hdraining (by decide)
  | loop | wait | write | release | exit | echec => exact h

namespace Inv

/-- While `transpose()` copies, `buf_in` holds its image. -/
theorem bufIn_of_draining (h : Inv cfg s) (hdraining : s.transpose.draining = true) :
    Agree cfg.size s.bufIn (cfg.image s.released) :=
  h.bufIn (h.inBox.draining hdraining)

theorem load_move (h : Inv cfg s) (hmove : LoadMove cfg s s') : Inv cfg s' := by
  have hin := h.inBox.step hmove.inBox
  have hout : s'.outBox.Ok := hmove.outBox ▸ h.outBox
  have hload := h.load
  cases hmove with
  | spin => exact h
  | see hpc hempty =>
      rw [hpc] at hload
      exact { h with inBox := hin, outBox := hout, load := hload }
  | enter hpc | leave hpc | refuse hpc =>
      rw [hpc] at hload
      exact { h with inBox := hin, outBox := hout, load := hload }
  | read hpc hdisk =>
      exact { h with inBox := hin, outBox := hout, load := Transfer.carries_start }
  | fail hpc hdisk => exact { h with inBox := hin, outBox := hout, load := rfl }
  | succeed hpc hdisk =>
      rw [hpc, hdisk] at hload
      have hall : Agree (cfg.nblocks * cfg.blockSize) s.bufIn _ := hload rfl
      rw [cfg.nblocks_mul, cfg.blocks_firstBlock] at hall
      exact { h with inBox := hin, outBox := hout, load := ⟨rfl, hall⟩ }
  | publish hpc =>
      rw [hpc] at hload
      have heq : s.loadImage = s.released :=
        h.inBox.put_of_filling (show s.load.filling = true by rw [hpc]; rfl)
      exact { h with
        inBox := hin, outBox := hout, load := hload.1, bufIn := fun _ => heq ▸ hload.2 }

theorem transpose_move (h : Inv cfg s) (hmove : TransposeMove cfg s s') : Inv cfg s' := by
  have hin := h.inBox.step hmove.inBox
  have hout := h.outBox.step hmove.outBox
  have hpast := h.transpose
  have hbuf := h.bufIn
  rw [State.released] at hbuf
  cases hmove with
  | spin => exact h
  | seeIn hpc hfull =>
      rw [hpc] at hbuf
      exact { h with inBox := hin, outBox := hout, transpose := trivial, bufIn := hbuf }
  | enter hpc | leave hpc | retry hpc =>
      rw [hpc] at hbuf
      exact { h with inBox := hin, outBox := hout, transpose := trivial, bufIn := hbuf }
  | seeOut hpc hempty =>
      rw [hpc] at hbuf
      have hstart : Agree (0 * cfg.n) s.bufOut (cfg.transposed s.transposeImage) := by
        rw [Nat.zero_mul]
        exact .zero
      exact { h with
        inBox := hin, outBox := hout, transpose := ⟨Nat.zero_le _, hstart⟩, bufIn := hbuf }
  | line hpc hl =>
      rw [hpc] at hbuf hpast
      exact { h with
        inBox := hin, outBox := hout, transpose := ⟨hl, Nat.zero_le _, hpast.2⟩, bufIn := hbuf }
  | lastLine hpc hl =>
      rw [hpc] at hbuf hpast
      have hall := hpast.2
      rw [Nat.le_antisymm hpast.1 (Nat.le_of_not_lt hl)] at hall
      exact { h with inBox := hin, outBox := hout, transpose := hall, bufIn := hbuf }
  | pixel hpc hp =>
      have hfull := h.bufIn_of_draining (by rw [hpc]; rfl)
      rw [State.released, hpc] at hfull
      rw [hpc] at hbuf hpast
      have hvalue := (hfull _ (cfg.offset_lt hp hpast.1)).trans (cfg.transposed_at _ hp).symm
      exact { h with
        inBox := hin, outBox := hout, transpose := ⟨hpast.1, hp, hpast.2.2, hvalue⟩, bufIn := hbuf }
  | lastPixel hpc hp =>
      rw [hpc] at hbuf hpast
      have hline := hpast.2.2
      rw [Nat.le_antisymm hpast.2.1 (Nat.le_of_not_lt hp), ← Nat.succ_mul] at hline
      exact { h with inBox := hin, outBox := hout, transpose := ⟨hpast.1, hline⟩, bufIn := hbuf }
  | store hpc =>
      have hfilling : s.transpose.filling = true := by rw [hpc]; rfl
      have hempty : s.bufOutEmpty = true := h.outBox.filling hfilling
      have hfree : s.display.draining = false :=
        eq_false_of_ne_true (h.outBox.exclusive hfilling)
      rw [hpc] at hbuf hpast
      obtain ⟨hl, hp, hdone, hvalue⟩ := hpast
      exact { h with
        inBox := hin, outBox := hout, transpose := ⟨hl, hp, hdone.succ hvalue⟩, bufIn := hbuf
        bufOut := fun hfull => absurd (hempty.symm.trans hfull) (by decide)
        display := h.display.write hfree }
  | release hpc =>
      rw [hpc] at hpast
      exact { h with inBox := hin, outBox := hout, transpose := hpast, bufIn := by simp }
  | publish hpc =>
      rw [hpc] at hbuf hpast
      have heq : s.transposeImage = s.displayImage :=
        h.outBox.put_of_filling (show s.transpose.filling = true by rw [hpc]; rfl)
      exact { h with
        inBox := hin, outBox := hout, transpose := trivial, bufIn := hbuf
        bufOut := fun _ => heq ▸ hpast }

theorem display_move (h : Inv cfg s) (hmove : DisplayMove cfg s s') : Inv cfg s' := by
  have hin : s'.inBox.Ok := hmove.inBox ▸ h.inBox
  have hout := h.outBox.step hmove.outBox
  have hpast := h.display
  cases hmove with
  | spin => exact h
  | enter hpc hlt =>
      rw [hpc] at hpast
      exact { h with inBox := hin, outBox := hout, display := ⟨hpast.1, hpast.2.1, hlt⟩ }
  | leave hpc hlt =>
      rw [hpc] at hpast
      have hend := Nat.le_antisymm hpast.2.2 (Nat.le_of_not_lt hlt)
      exact { h with inBox := hin, outBox := hout, display := ⟨hpast.1, hpast.2.1, hend⟩ }
  | see hpc hfull =>
      rw [hpc] at hpast
      exact { h with inBox := hin, outBox := hout, display := hpast }
  | refuse hpc =>
      rw [hpc] at hpast
      exact { h with inBox := hin, outBox := hout, display := hpast }
  | write hpc hdma =>
      rw [hpc] at hpast
      exact { h with
        inBox := hin, outBox := hout, display := ⟨Transfer.carries_start, hpast.2⟩ }
  | fail hpc hdma =>
      rw [hpc, hdma] at hpast
      exact { h with inBox := hin, outBox := hout, display := ⟨rfl, hpast.2⟩ }
  | succeed hpc hdma =>
      rw [hpc, hdma] at hpast
      exact { h with inBox := hin, outBox := hout, display := ⟨rfl, hpast.2⟩ }
  | release hpc =>
      rw [hpc] at hpast
      exact { h with inBox := hin, outBox := hout, display := hpast, bufOut := by simp }

theorem load_of_busy (h : Inv cfg s) (hbusy : s.disk.Busy) :
    s.load = .completed ∧ s.bufInEmpty = true := by
  have hpc := h.load.completed_of_busy hbusy
  exact ⟨hpc, h.inBox.filling (show s.load.filling = true by rw [hpc]; rfl)⟩

theorem diskMove (h : Inv cfg s) : Inv cfg (s.diskMove cfg) := by
  by_cases hbusy : s.disk.Busy
  · obtain ⟨hpc, hempty⟩ := h.load_of_busy hbusy
    have hload := h.load
    rw [hpc] at hload
    exact { h with
      load := show LoadOk cfg s.loadImage _ _ s.load by rw [hpc]; exact hload.move
      bufIn := fun hfull => absurd (hempty.symm.trans hfull) (by decide) }
  · rw [State.diskMove, Transfer.move_of_not_busy hbusy]
    exact h

theorem diskFinish (h : Inv cfg s) (ok : Bool) : Inv cfg (s.diskFinish cfg ok) := by
  by_cases hbusy : s.disk.Busy
  · obtain ⟨hpc, -⟩ := h.load_of_busy hbusy
    have hload := h.load
    rw [hpc] at hload
    exact { h with
      load := show LoadOk cfg s.loadImage _ _ s.load by rw [hpc]; exact hload.finish ok }
  · rw [State.diskFinish, Transfer.finish_of_not_busy hbusy]
    exact h

/-- While the DMA works, `display()` waits for it. -/
theorem display_of_busy (h : Inv cfg s) (hbusy : s.dma.Busy) :
    s.display = .completed ∧ s.dma.Carries cfg.size () s.bufOut s.fb ∧
      s.frames.length = s.displayImage ∧ s.displayImage < cfg.nimages := by
  have hpc := h.display.completed_of_busy hbusy
  have hdisplay := h.display
  rw [hpc] at hdisplay
  obtain ⟨hcarries, hcount, hlt⟩ := hdisplay
  rw [succeeded, if_neg hbusy.ne_done] at hcount
  exact ⟨hpc, hcarries, hcount, hlt⟩

theorem dmaMove (h : Inv cfg s) : Inv cfg (s.dmaMove cfg) := by
  by_cases hbusy : s.dma.Busy
  · obtain ⟨hpc, hcarries, hcount, hlt⟩ := h.display_of_busy hbusy
    have hstill : (s.dmaMove cfg).dma.Busy := hbusy.move
    refine { h with display := ?_ }
    show DisplayOk cfg s.displayImage _ s.bufOut _ s.frames.length s.display
    rw [hpc]
    refine ⟨hcarries.move, ?_, hlt⟩
    rw [succeeded, if_neg hstill.ne_done]
    exact hcount
  · rw [State.dmaMove, Transfer.move_of_not_busy hbusy]
    exact h

theorem dmaFinish (h : Inv cfg s) (ok : Bool) : Inv cfg (s.dmaFinish cfg ok) := by
  by_cases hbusy : s.dma.Busy
  · obtain ⟨hpc, hcarries, hcount, hlt⟩ := h.display_of_busy hbusy
    have hend := hcarries.finish ok
    by_cases hdone : s.dma.finish cfg.size ok = .done true
    · -- the frame buffer is a copy of `buf_out`, which nobody has touched meanwhile
      have hdraining : s.display.draining = true := by rw [hpc]; rfl
      have hshown : Agree cfg.size s.fb (cfg.transposed s.displayImage) :=
        ((hdone ▸ hend) rfl : Agree cfg.size s.fb s.bufOut).trans
          (h.bufOut (h.outBox.draining hdraining))
      rw [State.dmaFinish, if_pos ⟨hbusy, hdone⟩]
      refine { h with display := ?_, frames := fun k frame hk => ?_ }
      · show DisplayOk cfg s.displayImage _ s.bufOut s.fb (s.frames ++ [s.fb]).length s.display
        rw [hpc, List.length_append, hcount]
        exact ⟨hend, by rw [succeeded, if_pos hdone]; rfl, hlt⟩
      · rcases Nat.lt_or_ge k s.frames.length with hold | hnew
        · exact h.frames k frame (by rwa [List.getElem?_append_left hold] at hk)
        · rw [List.getElem?_append_right hnew, List.getElem?_singleton] at hk
          split_ifs at hk with hzero
          have heq : k = s.displayImage := by omega
          cases hk
          exact heq ▸ hshown
    · rw [State.dmaFinish, if_neg (fun hend => hdone hend.2)]
      refine { h with display := ?_ }
      show DisplayOk cfg s.displayImage _ s.bufOut s.fb s.frames.length s.display
      rw [hpc]
      exact ⟨hend, by rw [succeeded, if_neg hdone]; exact hcount, hlt⟩
  · rw [State.dmaFinish, Transfer.finish_of_not_busy hbusy, if_neg (fun hend => hbusy hend.1)]
    exact h

theorem next (h : Inv cfg s) (turn : Turn) : Inv cfg (s.next cfg turn) := by
  cases turn with
  | load refused => exact h.load_move (loadNext_move cfg refused s)
  | transpose => exact h.transpose_move (transposeNext_move cfg s)
  | display refused => exact h.display_move (displayNext_move cfg refused s)
  | diskMove => exact h.diskMove
  | diskFinish ok => exact h.diskFinish ok
  | dmaMove => exact h.dmaMove
  | dmaFinish ok => exact h.dmaFinish ok

theorem start (h : Start s) : Inv cfg s := by
  obtain ⟨hin, hout, ⟨hload, hloads⟩, ⟨htr, htrs⟩, ⟨hdisp, hdisps⟩, hdisk, hdma, hframes⟩ := h
  exact {
    inBox := by
      rw [State.inBox, State.released, hin, hload, hloads, htr, htrs]
      exact Mailbox.ok_new
    outBox := by
      rw [State.outBox, hout, htr, htrs, hdisp, hdisps]
      exact Mailbox.ok_new
    load := by rw [hload]; exact hdisk
    bufIn := fun hfull => absurd (hin.symm.trans hfull) (by decide)
    transpose := by rw [htr]; trivial
    bufOut := fun hfull => absurd (hout.symm.trans hfull) (by decide)
    display := by
      rw [hdisp, hdisps, hframes]
      exact ⟨hdma, rfl, Nat.zero_le _⟩
    frames := by simp [hframes] }

end Inv

/-- The invariant holds after any number of steps in any order. -/
theorem inv_of_reachable (h : (pipeline cfg).Reachable s) : Inv cfg s :=
  h.invariant (fun _ hstart => .start hstart) fun _ turn _ hinv hstep => hstep ▸ hinv.next turn

end Data

/-! ## What is displayed -/

/-- `transpose()` is in its two loops over the pixels, in which it reads `buf_in` and writes
`buf_out`. -/
def TransposePc.Copying : TransposePc → Prop
  | .line _ | .pixel _ _ | .store _ _ _ => True
  | _ => False

section Exclusion

variable {cfg : Config} {s s' : State}

theorem TransposePc.Copying.draining {pc : TransposePc} (h : pc.Copying) : pc.draining = true := by
  cases pc with
  | line | pixel | store => rfl
  | loop | waitIn | waitOut | release | publish | exit => exact h.elim

theorem TransposePc.Copying.filling {pc : TransposePc} (h : pc.Copying) : pc.filling = true := by
  cases pc with
  | line | pixel | store => rfl
  | loop | waitIn | waitOut | release | publish | exit => exact h.elim

theorem Inv.not_disk_busy (h : Inv cfg s) (hcopy : s.transpose.Copying) : ¬s.disk.Busy := by
  intro hbusy
  obtain ⟨hpc, -⟩ := h.load_of_busy hbusy
  exact h.inBox.exclusive (show s.load.filling = true by rw [hpc]; rfl) hcopy.draining

theorem Inv.not_copying (h : Inv cfg s) (hbusy : s.dma.Busy) : ¬s.transpose.Copying := by
  intro hcopy
  obtain ⟨hpc, -⟩ := h.display_of_busy hbusy
  exact h.outBox.exclusive hcopy.filling (show s.display.draining = true by rw [hpc]; rfl)

theorem LoadMove.buffers (h : LoadMove cfg s s') : s'.bufIn = s.bufIn ∧ s'.bufOut = s.bufOut := by
  cases h <;> exact ⟨rfl, rfl⟩

theorem DisplayMove.buffers (h : DisplayMove cfg s s') :
    s'.bufIn = s.bufIn ∧ s'.bufOut = s.bufOut := by
  cases h <;> exact ⟨rfl, rfl⟩

theorem TransposeMove.bufIn (h : TransposeMove cfg s s') : s'.bufIn = s.bufIn := by
  cases h <;> rfl

theorem TransposeMove.bufOut (h : TransposeMove cfg s s') (hidle : ¬s.transpose.Copying) :
    s'.bufOut = s.bufOut := by
  cases h with
  | store hpc => exact absurd (by rw [hpc]; trivial) hidle
  | _ => rfl

/-- Only the disk writes `buf_in`. -/
theorem next_bufIn (turn : Turn) (hbusy : ¬s.disk.Busy) : (s.next cfg turn).bufIn = s.bufIn := by
  cases turn with
  | load refused => exact (loadNext_move cfg refused s).buffers.1
  | transpose => exact (transposeNext_move cfg s).bufIn
  | display refused => exact (displayNext_move cfg refused s).buffers.1
  | diskMove =>
      show (s.disk.move (cfg.nblocks * cfg.blockSize) cfg.blocks s.bufIn).2 = s.bufIn
      rw [Transfer.move_of_not_busy hbusy]
  | diskFinish ok => rfl
  | dmaMove => rfl
  | dmaFinish ok => rfl

/-- Only `transpose()` writes `buf_out`. -/
theorem next_bufOut (turn : Turn) (hidle : ¬s.transpose.Copying) :
    (s.next cfg turn).bufOut = s.bufOut := by
  cases turn with
  | load refused => exact (loadNext_move cfg refused s).buffers.2
  | transpose => exact (transposeNext_move cfg s).bufOut hidle
  | display refused => exact (displayNext_move cfg refused s).buffers.2
  | diskMove => rfl
  | diskFinish ok => rfl
  | dmaMove => rfl
  | dmaFinish ok => rfl

theorem DisplayOk.frames {image count : Nat} {dma : Transfer Unit} {bufOut fb : Image}
    {pc : DisplayPc} (h : DisplayOk cfg image dma bufOut fb count pc) :
    count ≤ cfg.nimages ∧ (pc = .exit → count = cfg.nimages) := by
  cases pc with
  | loop => exact ⟨h.2.1 ▸ h.2.2, by simp⟩
  | wait | write | echec => exact ⟨h.2.1 ▸ Nat.le_of_lt h.2.2, by simp⟩
  | completed =>
      obtain ⟨-, hcount, hlt⟩ := h
      refine ⟨?_, by simp⟩
      rw [hcount, succeeded]
      split_ifs <;> omega
  | release => exact ⟨h.2.1 ▸ h.2.2, by simp⟩
  | exit => exact ⟨Nat.le_of_eq (h.2.1.trans h.2.2), fun _ => h.2.1.trans h.2.2⟩

end Exclusion

/-- The frames displayed are the images of the disk, transposed, in order and without a gap,
and all of them once `display()` has left its loop.  While `transpose()` copies, the disk
does not write `buf_in`; while the DMA works, `transpose()` does not write `buf_out`. -/
theorem displayed_in_order {cfg : Config} {s : State} (h : (pipeline cfg).Reachable s) :
    (∀ k frame, s.frames[k]? = some frame →
      ∀ l < cfg.n, ∀ p < cfg.n, frame (l * cfg.n + p) = cfg.image k (p * cfg.n + l)) ∧
    s.frames.length ≤ cfg.nimages ∧
    (s.display = .exit → s.frames.length = cfg.nimages) ∧
    (s.transpose.Copying → ¬s.disk.Busy ∧ ∀ turn, (s.next cfg turn).bufIn = s.bufIn) ∧
    (s.dma.Busy → ¬s.transpose.Copying ∧ ∀ turn, (s.next cfg turn).bufOut = s.bufOut) := by
  have hinv := inv_of_reachable h
  obtain ⟨hle, hall⟩ := hinv.display.frames
  refine ⟨fun k frame hk l hl p hp => ?_, hle, hall, fun hcopy => ?_, fun hbusy => ?_⟩
  · rw [hinv.frames k frame hk _ (cfg.offset_lt hl hp), cfg.transposed_at k hp]
  · have hidle := hinv.not_disk_busy hcopy
    exact ⟨hidle, fun turn => next_bufIn turn hidle⟩
  · have hidle := hinv.not_copying hbusy
    exact ⟨hidle, fun turn => next_bufOut turn hidle⟩

/-- Two images of four pixels, in blocks of two bytes. -/
def small : Config := ⟨2, 2, 2, fun a => BitVec.ofNat 8 a, by decide⟩

/-- The disk fills `buf_in` for `load()`. -/
def loaded : List Turn :=
  List.replicate 3 (.load false) ++ List.replicate 4 .diskMove ++
    (.diskFinish true :: List.replicate 2 (.load false))

/-- The DMA displays `buf_out` for `display()`. -/
def displayed : List Turn :=
  List.replicate 3 (.display false) ++ List.replicate 4 .dmaMove ++
    (.dmaFinish true :: List.replicate 2 (.display false))

/-- The second image is loaded before the first one is displayed, and `transpose()` waits until
it is. -/
def overlapped : List Turn :=
  loaded ++ List.replicate 18 .transpose ++ loaded ++ List.replicate 5 .transpose ++ displayed ++
    List.replicate 18 .transpose ++ displayed ++ [.display false]

def booted : State :=
  ⟨true, true, fun _ => 0, fun _ => 0, .loop, 0, .loop, 0, .loop, 0, .idle, .idle, fun _ => 0, []⟩

theorem booted_start : Start booted :=
  ⟨rfl, rfl, ⟨rfl, rfl⟩, ⟨rfl, rfl⟩, ⟨rfl, rfl⟩, rfl, rfl, rfl⟩

/-- Both images come out transposed. -/
theorem displayed_in_order_small : ∃ s first second, (pipeline small).Reachable s ∧
    s.frames = [first, second] ∧ (first 1 = 2 ∧ first 2 = 1) ∧ second 1 = 6 ∧ second 2 = 5 := by
  have htest : (exec (fun s turn => some (s.next small turn)) overlapped booted).any
      (fun s => s.display = .exit) = true := by decide
  obtain ⟨s, hs, hexit⟩ := System.exists_exec (S := pipeline small)
    (fun _ _ _ h => (Option.some.inj h).symm) booted_start htest
  obtain ⟨hframes, -, hall, -⟩ := displayed_in_order hs
  obtain ⟨first, second, heq⟩ := List.length_eq_two.mp (hall (of_decide_eq_true hexit))
  have hfirst := hframes 0 first (by rw [heq]; rfl)
  have hsecond := hframes 1 second (by rw [heq]; rfl)
  exact ⟨s, first, second, hs, heq,
    ⟨hfirst 0 (by decide) 1 (by decide), hfirst 1 (by decide) 0 (by decide)⟩,
    hsecond 0 (by decide) 1 (by decide), hsecond 1 (by decide) 0 (by decide)⟩

end SmcTp.Soft.Transpose
