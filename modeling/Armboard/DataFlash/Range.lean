import Armboard.DataFlash.Init
import Armboard.DataFlash.Read
import Armboard.DataFlash.Write

/-! # Requests outside the array

The range test adds address and size as signed 32-bit integers, and the read path
makes it once per chunk. So a request that does not fit the array is refused
without any effect exactly when the wrapped sums of the whole request and of its
first chunk both come out above the size of the array.
-/

namespace Armboard.DataFlash
open Exec Storage

def flashAfter (addr size : Word) (data f : ℕ → Byte) : ℕ → Byte :=
  if rangeError at45db041Features addr size = true then f
  else patchAll 264 data (writePlan addr size) f

theorem writeDataflash_spec {b : Board} (hb : Installed b) (addr src size : Word) :
    wp (writeDataflash addr src size) (fun _ t => Installed t ∧
      t.chip.flash = flashAfter addr size (view b.mem src) b.chip.flash) never b := by
  unfold flashAfter
  by_cases hr : rangeError at45db041Features addr size = true
  · rw [if_pos hr, writeDataflash, wp, dataFlashWrite_rejected hb hr]
    exact ⟨hb, rfl⟩
  · rw [if_neg hr]
    exact wp_post (dataFlashWrite_spec dataFlashWaitReady_spec.waits hb src
      (Bool.eq_false_of_not_eq_true hr)) (fun _ _ h => ⟨h.2.installed, h.2.flash⟩)

theorem flashAfter_inside {addr size : Word} (h : addr.toNat + size.toNat ≤ arraySize)
    (data f : ℕ → Byte) {i : ℕ} (hi : i < size.toNat) :
    flashAfter addr size data f (addr.toNat + i) = data i := by
  rw [flashAfter, rangeError_eq_false h, if_neg (by decide), patch_writePlan h, if_pos (by omega),
    Nat.add_sub_cancel_left]

/-- A request is refused atomically: the write reports the overflow and leaves the flash alone,
the read reports a failure and leaves the caller's buffer alone. -/
def RejectsAtomically (a s : Word) : Prop :=
  ∀ (b : Board) (src buffer : Word), Installed b →
    (∃ t, writeDataflash a src s b = .ok dataflashMemoryOverflow t ∧
      t.chip.flash = b.chip.flash) ∧
    (∃ r t, readDataflash a s buffer b = .ok r t ∧ r ≠ dataflashOk ∧
      ∀ i < s.toNat, view t.mem buffer i = view b.mem buffer i)

theorem delivered_zero {a s : Word} (h : rangeError at45db041Features a (chunkSize s) = true)
    (fuel : ℕ) : delivered fuel a s = 0 := by
  cases fuel with
  | zero => rfl
  | succ fuel => rw [delivered, if_pos (Or.inr h)]

theorem chunkSize_le_delivered {a s : Word} (h0 : s ≠ 0)
    (h : ¬ rangeError at45db041Features a (chunkSize s) = true) (fuel : ℕ) :
    (chunkSize s).toNat ≤ delivered (fuel + 1) a s := by
  rw [delivered, if_neg (not_or.mpr ⟨h0, h⟩)]
  exact Nat.le_add_right _ _

/-- An atomic refusal needs the wrapped sum of the whole request above the array. -/
theorem RejectsAtomically.write {a s : Word} (h : RejectsAtomically a s) :
    rangeError at45db041Features a s = true := by
  by_contra hr
  have hb := freshBoard_installed (fun _ => 0xFF) (fun _ => 0)
  obtain ⟨⟨t, hrun, -⟩, -⟩ := h _ 0 0 hb
  have hw := wp_of_ok (dataFlashWrite_spec dataFlashWaitReady_spec.waits hb 0
    (Bool.eq_false_of_not_eq_true hr)) hrun
  exact absurd hw.1 (by decide)

theorem RejectsAtomically.size {a s : Word} (h : RejectsAtomically a s) : s ≠ 0 := by
  rintro rfl
  have hb := freshBoard_installed (fun _ => 0xFF) (fun _ => 0)
  obtain ⟨-, r, t, hrun, hne, -⟩ := h _ 0 0 hb
  exact hne (wp_of_ok (readDataflash_spec hb a 0 0) hrun).1

/-- The first byte of an accepted first chunk gives the read away: it is 0xFF in the flash and 0 in
the buffer. -/
theorem RejectsAtomically.chunk {a s : Word} (h : RejectsAtomically a s) :
    rangeError at45db041Features a (chunkSize s) = true := by
  by_contra hr
  have h0 := h.size
  have hb := freshBoard_installed (fun _ => 0xFF) (fun _ => 0)
  obtain ⟨-, r, t, hrun, -, hmem⟩ := h _ 0 0 hb
  have hf := (wp_of_ok (readDataflash_spec hb a s 0) hrun).2
  have hle := chunkSize_le_delivered h0 hr s.toNat
  have hsize : 0 < s.toNat := Nat.pos_of_ne_zero (fun hz => h0 (BitVec.eq_of_toNat_eq hz))
  have hchunk := chunkSize_toNat s
  have hfirst := hmem 0 hsize
  rw [hf.mem, view_store_lt _ _ _ (by omega) (by decide)] at hfirst
  exact absurd (show (0xFF : Byte) = 0 from hfirst) (by decide)

theorem rejectsAtomically_of_sums {a s : Word} (h0 : s ≠ 0)
    (hw : rangeError at45db041Features a s = true)
    (hr : rangeError at45db041Features a (chunkSize s) = true) : RejectsAtomically a s := by
  intro b src buffer hb
  constructor
  · exact ⟨b, dataFlashWrite_rejected hb hw, rfl⟩
  · obtain ⟨r, t, hrun, hret, hf⟩ := wp_never.mp (readDataflash_spec hb a s buffer)
    rw [delivered_zero hr, if_neg (fun hz => h0 (BitVec.eq_of_toNat_eq hz.symm))] at hret
    refine ⟨r, t, hrun, by rw [hret]; decide, ?_⟩
    intro i _
    rw [hf.mem, delivered_zero hr, store_zero]

/-- A request that does not fit the array is refused atomically if and only if it is not empty and
both signed sums, of the whole request and of its first chunk, lie above the array. -/
theorem rejected_beyond_iff (a s : Word) :
    (arraySize < a.toNat + s.toNat → RejectsAtomically a s) ↔
      a.toNat + s.toNat ≤ arraySize ∨
        s ≠ 0 ∧ 540672 < (a + s).toInt ∧ 540672 < (a + chunkSize s).toInt := by
  rw [← rangeError_iff, ← rangeError_iff]
  constructor
  · intro h
    rcases Nat.lt_or_ge arraySize (a.toNat + s.toNat) with hlt | hge
    · exact Or.inr ⟨(h hlt).size, (h hlt).write, (h hlt).chunk⟩
    · exact Or.inl hge
  · rintro (hle | ⟨h0, hw, hr⟩) hlt
    · exact absurd hlt (Nat.not_lt.mpr hle)
    · exact rejectsAtomically_of_sums h0 hw hr

/-- Two bytes at the last address: the sum wraps to 1 and the write goes ahead. -/
theorem not_rejectsAtomically_wrapped :
    ¬ ∀ a s : Word, arraySize < a.toNat + s.toNat → RejectsAtomically a s := by
  intro h
  have hr := (h 0xFFFFFFFF 2 (by decide)).write
  exact absurd hr (by decide)

end Armboard.DataFlash
