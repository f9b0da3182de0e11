import Armboard.DataFlash.Init
import Armboard.DataFlash.Read
import Armboard.DataFlash.WritePlan

/-! # Requests to a device that was not recognised

With a zero geometry every request either fails the range test or divides by the
page size. Neither way does the chip see a command besides the status reads.
-/

namespace Armboard.DataFlash
open Exec Storage

structure Blank (b : Board) : Prop where
  device : b.device = blankFeatures
  idle : b.desc.state = idle

/-- The two boards agree in everything but the status polling. -/
structure Untouched (b t : Board) : Prop where
  blank : Blank t
  flash : t.chip.flash = b.chip.flash
  programmed : t.chip.programmed = b.chip.programmed
  mem : t.mem = b.mem

theorem Untouched.of_kept {b t : Board} (hb : Blank b) (h : Kept b t) : Untouched b t :=
  ⟨⟨h.device.trans hb.device, h.idle⟩, h.flash, h.programmed, h.mem⟩

theorem dataFlashContinuousRead_blank {b : Board} (hb : Blank b) (src buffer size : Word) :
    wp (dataFlashContinuousRead src buffer size)
      (fun r t => r = dataflashMemoryOverflow ∧ rangeError blankFeatures src size = true ∧ t = b)
      (fun _ t => Untouched b t ∧ rangeError blankFeatures src size = false) b := by
  have hz : blankFeatures.pagesSize = 0 := rfl
  simp only [dataFlashContinuousRead, wp_bind, wp_get, hb.device]
  by_cases hr : rangeError blankFeatures src size = true
  · rw [if_pos hr]
    exact ⟨rfl, hr, rfl⟩
  · rw [if_neg hr]
    simp only [wp_bind, wp_modify, dataFlashSendCommand, wp_get, hb.idle, divisor, hb.device, ne_eq,
      not_true_eq_false, if_false, hz, if_true, wp_throw]
    exact ⟨⟨⟨rfl, rfl⟩, rfl, rfl, rfl⟩, Bool.eq_false_of_not_eq_true hr⟩

/-- A read returns without asking the chip for data: at once when it is empty, else with an error
when the range test fails. Behind a passed range test it hangs. -/
theorem readDataflash_blank_outcome {b : Board} (hb : Blank b) (addr size buffer : Word) :
    wp (readDataflash addr size buffer)
      (fun r t => Untouched b t ∧ t.chip.log = b.chip.log ∧
        (size = 0 ∨ r = -1 ∧ rangeError blankFeatures addr (chunkSize size) = true))
      (fun _ t => Untouched b t ∧ size ≠ 0 ∧
        rangeError blankFeatures addr (chunkSize size) = false) b := by
  rw [readDataflash, dataFlashRead, wp_bind]
  apply wp_total (dataFlashWaitReady_spec b hb.idle)
  rintro _ b₁ ⟨rfl, hk₁⟩
  rw [if_neg (not_not.mpr rfl), readChunks]
  by_cases h0 : size = 0
  · rw [if_pos h0]
    exact ⟨Untouched.of_kept hb hk₁, hk₁.log, Or.inl h0⟩
  rw [if_neg h0, wp_bind]
  apply wp_total (dataFlashWaitReady_spec b₁ hk₁.idle)
  rintro _ b₂ ⟨rfl, hk₂⟩
  have hk := hk₁.trans hk₂
  have h₂ := Untouched.of_kept hb hk
  rw [if_neg (not_not.mpr rfl), wp_bind]
  apply wp_mono (dataFlashContinuousRead_blank h₂.blank addr buffer (chunkSize size))
  · rintro _ b₃ ⟨rfl, hr, rfl⟩
    rw [if_pos (by decide)]
    exact ⟨h₂, hk.log, Or.inr ⟨rfl, hr⟩⟩
  · rintro _ t ⟨ht, hr⟩
    exact ⟨⟨ht.blank, ht.flash.trans h₂.flash, ht.programmed.trans h₂.programmed,
      ht.mem.trans h₂.mem⟩, h0, hr⟩

theorem readDataflash_blank {b : Board} (hb : Blank b) (addr size buffer : Word) :
    wp (readDataflash addr size buffer) (fun _ t => Untouched b t)
      (fun _ t => Untouched b t ∧ rangeError blankFeatures addr (chunkSize size) = false) b :=
  wp_mono (readDataflash_blank_outcome hb addr size buffer) (fun _ _ h => h.1)
    (fun _ _ h => ⟨h.1, h.2.2⟩)

/-- A write fails the range test or divides by zero behind it. -/
theorem writeDataflash_blank_outcome {b : Board} (hb : Blank b) (addr src size : Word) :
    wp (writeDataflash addr src size)
      (fun r t => t = b ∧ r = dataflashMemoryOverflow ∧ rangeError blankFeatures addr size = true)
      (fun _ t => t = b ∧ rangeError blankFeatures addr size = false) b := by
  have hz : blankFeatures.pagesSize = 0 := rfl
  simp only [writeDataflash, dataFlashWrite, wp_bind, wp_get, hb.device]
  by_cases hr : rangeError blankFeatures addr size = true
  · rw [if_pos hr]
    exact ⟨rfl, rfl, hr⟩
  · rw [if_neg hr]
    simp only [divisor, wp_bind, wp_get, hb.device, hz, if_true, wp_throw]
    exact ⟨trivial, Bool.eq_false_of_not_eq_true hr⟩

theorem writeDataflash_blank {b : Board} (hb : Blank b) (addr src size : Word) :
    wp (writeDataflash addr src size) (fun _ t => t = b) (fun _ t => t = b) b :=
  wp_mono (writeDataflash_blank_outcome hb addr src size) (fun _ _ h => h.1) (fun _ _ h => h.1)

/-! ## Either way -/

/-- What probing leaves: the AT45DB041 is installed, or nothing is. -/
def Probed (b : Board) : Prop := Installed b ∨ Blank b

theorem dataflashInit_probed {b : Board} (hb : b.device = blankFeatures) :
    wp dataflashInit (fun _ t => Probed t ∧ t.chip.flash = b.chip.flash ∧ t.mem = b.mem) never b := by
  apply wp_post (dataflashInit_spec b)
  rintro _ t ⟨hf, hm, hi, -, hd⟩
  refine ⟨?_, hf, hm⟩
  by_cases hrec : Recognised b.chip.status
  · rw [if_pos hrec] at hd
    exact Or.inl ⟨hd, hi⟩
  · rw [if_neg hrec, hb] at hd
    exact Or.inr ⟨hd, hi⟩

theorem readDataflash_probed {b : Board} (hb : Probed b) (addr size buffer : Word) :
    wp (readDataflash addr size buffer) (fun _ t => Probed t ∧ t.chip.flash = b.chip.flash)
      (fun _ t => Probed t ∧ t.chip.flash = b.chip.flash) b := by
  rcases hb with hb | hb
  · apply wp_total (readDataflash_spec hb addr size buffer)
    intro _ t h
    exact ⟨Or.inl h.2.installed, h.2.flash⟩
  · exact wp_mono (readDataflash_blank hb addr size buffer)
      (fun _ _ h => ⟨Or.inr h.blank, h.flash⟩) (fun _ _ h => ⟨Or.inr h.1.blank, h.1.flash⟩)

/-- After a write the flash is as the plan of the request says, or as before. -/
theorem writeDataflash_probed {b : Board} (hb : Probed b) (addr src size : Word) :
    wp (writeDataflash addr src size)
      (fun _ t => Probed t ∧ (t.chip.flash = b.chip.flash ∨
        rangeError at45db041Features addr size = false ∧
          t.chip.flash = patchAll 264 (view b.mem src) (writePlan addr size) b.chip.flash))
      (fun _ t => Probed t ∧ t.chip.flash = b.chip.flash) b := by
  rcases hb with hb | hb
  · by_cases hr : rangeError at45db041Features addr size = true
    · rw [writeDataflash, wp, dataFlashWrite_rejected hb hr]
      exact ⟨Or.inl hb, Or.inl rfl⟩
    · have hr' := Bool.eq_false_of_not_eq_true hr
      apply wp_total (dataFlashWrite_spec dataFlashWaitReady_spec.waits hb _ hr')
      intro _ t h
      exact ⟨Or.inl h.2.installed, Or.inr ⟨hr', h.2.flash⟩⟩
  · apply wp_mono (writeDataflash_blank hb addr src size)
    · rintro _ t rfl
      exact ⟨Or.inr hb, Or.inl rfl⟩
    · rintro _ t rfl
      exact ⟨Or.inr hb, rfl⟩

/-! ## Requests that are refused -/

/-- The call returns without a command to the chip, and without success unless nothing was asked
for. -/
def RefusedBy (call : Driver Word) (size : Word) (b : Board) : Prop :=
  ∃ r t, call b = .ok r t ∧ t.chip.log = b.chip.log ∧ (0 < size.toNat → r ≠ dataflashOk)

def Refused (b : Board) (addr size src buffer : Word) : Prop :=
  RefusedBy (readDataflash addr size buffer) size b ∧
    RefusedBy (writeDataflash addr src size) size b

theorem rangeError_blank_iff (a s : Word) :
    rangeError blankFeatures a s = true ↔ 0 < (a + s).toInt := by
  have hz : (blankFeatures.pagesSize * blankFeatures.pagesNumber).toInt = 0 := by decide
  rw [rangeError, BitVec.slt, hz, decide_eq_true_iff]

/-- A call that returns met its normal postcondition, one that stopped the other. -/
theorem refusedBy_iff {call : Driver Word} {size : Word} {b : Board} {good : Prop}
    (h : wp call (fun r t => t.chip.log = b.chip.log ∧ (0 < size.toNat → r ≠ dataflashOk) ∧ good)
      (fun _ _ => ¬ good) b) : RefusedBy call size b ↔ good := by
  unfold wp at h
  constructor
  · rintro ⟨r, t, hrun, -⟩
    rw [hrun] at h
    exact h.2.2
  · intro hg
    cases hrun : call b with
    | ok r t =>
      rw [hrun] at h
      exact ⟨r, t, hrun, h.1, h.2.1⟩
    | error e t =>
      rw [hrun] at h
      exact absurd hg h

theorem readDataflash_refused_iff {b : Board} (hb : Blank b) (addr size buffer : Word) :
    RefusedBy (readDataflash addr size buffer) size b ↔
      size = 0 ∨ 0 < (addr + chunkSize size).toInt := by
  rw [← rangeError_blank_iff]
  apply refusedBy_iff
  apply wp_mono (readDataflash_blank_outcome hb addr size buffer)
  · rintro r t ⟨-, hlog, h0 | ⟨rfl, hr⟩⟩
    · refine ⟨hlog, fun hpos => ?_, Or.inl h0⟩
      rw [h0] at hpos
      exact absurd hpos (by decide)
    · exact ⟨hlog, fun _ => by decide, Or.inr hr⟩
  · rintro _ t ⟨-, h0, hr⟩ (hz | ht)
    · exact h0 hz
    · rw [hr] at ht
      exact absurd ht (by decide)

theorem writeDataflash_refused_iff {b : Board} (hb : Blank b) (addr src size : Word) :
    RefusedBy (writeDataflash addr src size) size b ↔ 0 < (addr + size).toInt := by
  rw [← rangeError_blank_iff]
  apply refusedBy_iff
  apply wp_mono (writeDataflash_blank_outcome hb addr src size)
  · rintro r t ⟨rfl, rfl, hr⟩
    exact ⟨rfl, fun _ => by decide, hr⟩
  · rintro _ t ⟨-, hr⟩ ht
    rw [hr] at ht
    exact absurd ht (by decide)

theorem dataflashInit_blank {b : Board} (hb : b.device = blankFeatures)
    (hs : ¬ Recognised b.chip.status) : wp dataflashInit (fun _ t => Blank t) never b := by
  apply wp_post (dataflashInit_spec b)
  rintro _ t ⟨-, -, hi, -, hd⟩
  rw [if_neg hs, hb] at hd
  exact ⟨hd, hi⟩

/-- After a probe that installs no geometry a request is refused if and only if both signed sums, of
the whole request and of the first chunk of its read, are positive; an empty read needs no sum. -/
theorem refused_iff {b : Board} (hb : b.device = blankFeatures) (hs : ¬ Recognised b.chip.status) :
    wp dataflashInit (fun _ t => ∀ addr size src buffer : Word,
      Refused t addr size src buffer ↔
        (size = 0 ∨ 0 < (addr + chunkSize size).toInt) ∧ 0 < (addr + size).toInt) never b := by
  apply wp_post (dataflashInit_blank hb hs)
  intro _ t ht addr size src buffer
  rw [Refused, readDataflash_refused_iff ht, writeDataflash_refused_iff ht]

def unknownBoard : Board := powerUp (Chip.ready 0x2C (fun _ => 0)) (fun _ => 0)

theorem refused_iff_unknown :
    wp dataflashInit (fun _ t => ∀ addr size src buffer : Word,
      Refused t addr size src buffer ↔
        (size = 0 ∨ 0 < (addr + chunkSize size).toInt) ∧ 0 < (addr + size).toInt)
      never unknownBoard :=
  refused_iff rfl (by decide)

/-- A write of no bytes at address 0 never returns. -/
theorem not_refused_unknown :
    ¬ ∀ b : Board, b.device = blankFeatures → ¬ Recognised b.chip.status →
      wp dataflashInit (fun _ t => ∀ addr size src buffer : Word,
        Refused t addr size src buffer) never b := by
  intro h
  obtain ⟨_, t, hrun, hall⟩ := wp_never.mp (h unknownBoard rfl (by decide))
  have ht := wp_of_ok (dataflashInit_blank (b := unknownBoard) rfl (by decide)) hrun
  have hw := (writeDataflash_refused_iff ht 0 0 0).mp (hall 0 0 0 0).2
  exact absurd hw (by decide)

end Armboard.DataFlash
