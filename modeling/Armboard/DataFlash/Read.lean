import Armboard.DataFlash.Init

/-! # What a read delivers

`AT91F_DataFlashRead` fetches chunks of up to 0x8000 bytes and tests the range of
each chunk by itself, so a read can fail behind chunks that were delivered.
`delivered` counts the bytes that reach the buffer and `readCell` names the flash
byte behind each of them; the driver refines the two for every 32-bit request.
-/

namespace Armboard.DataFlash
open Exec Storage

/-- The number of bytes that reach the buffer before a chunk is refused. -/
def delivered : ℕ → Word → Word → ℕ
  | 0, _, _ => 0
  | fuel + 1, addr, size =>
    if size = 0 ∨ rangeError at45db041Features addr (chunkSize size) = true then 0
    else (chunkSize size).toNat +
      delivered fuel (addr + chunkSize size) (size - chunkSize size)

/-- The flash byte behind byte `i` of the buffer: addresses wrap at 32 bits between
chunks, and at the end of the array within one. -/
def readCell (addr : Word) (i : ℕ) : ℕ :=
  ((addr.toNat + i / 0x8000 * 0x8000) % 2 ^ 32 + i % 0x8000) % arraySize

/-- The run from `b` to `t` put the first `n` bytes of a read into the buffer and changed nothing
else that a caller can see. -/
structure Fetched (b t : Board) (addr buffer : Word) (n : ℕ) : Prop where
  installed : Installed t
  id : t.id = b.id
  flash : t.chip.flash = b.chip.flash
  programmed : t.chip.programmed = b.chip.programmed
  mem : t.mem = store b.mem buffer n (fun i => b.chip.flash (readCell addr i))

theorem Fetched.of_kept {b t : Board} (hb : Installed b) (h : Kept b t) (addr buffer : Word) :
    Fetched b t addr buffer 0 :=
  ⟨h.installed hb, h.id, h.flash, h.programmed, h.mem.trans (store_zero _ _ _).symm⟩

theorem chunkSize_toNat (size : Word) : (chunkSize size).toNat = min size.toNat 0x8000 := by
  unfold chunkSize
  split <;> rename_i h <;> rw [BitVec.lt_def, show (0x8000 : Word).toNat = 0x8000 from rfl] at h
  · omega
  · rw [show (0x8000 : Word).toNat = 0x8000 from rfl]
    omega

theorem sub_chunkSize_toNat (size : Word) :
    (size - chunkSize size).toNat = size.toNat - (chunkSize size).toNat := by
  have h := chunkSize_toNat size
  have hlt := size.isLt
  rw [BitVec.toNat_sub]
  omega

theorem delivered_le (fuel : ℕ) : ∀ addr size : Word, delivered fuel addr size ≤ size.toNat := by
  induction fuel with
  | zero => exact fun _ _ => Nat.zero_le _
  | succ fuel ih =>
    intro addr size
    rw [delivered]
    split
    · exact Nat.zero_le _
    · have h := ih (addr + chunkSize size) (size - chunkSize size)
      have hc := chunkSize_toNat size
      rw [sub_chunkSize_toNat] at h
      omega

theorem readCell_head (addr : Word) {i : ℕ} (hi : i < 0x8000) :
    readCell addr i = (addr.toNat + i) % arraySize := by
  have h := addr.isLt
  rw [readCell, Nat.div_eq_of_lt hi, Nat.mod_eq_of_lt hi, Nat.zero_mul, Nat.add_zero,
    Nat.mod_eq_of_lt h]

theorem readCell_tail (addr : Word) (i : ℕ) :
    readCell (addr + 0x8000) i = readCell addr (0x8000 + i) := by
  have hadd : (addr + 0x8000).toNat = (addr.toNat + 0x8000) % 2 ^ 32 := BitVec.toNat_add _ _
  have hdiv : (0x8000 + i) / 0x8000 = 1 + i / 0x8000 := by omega
  have hmod : (0x8000 + i) % 0x8000 = i % 0x8000 := by omega
  rw [readCell, readCell, hadd, hdiv, hmod, Nat.mod_add_mod, Nat.add_mul, Nat.one_mul,
    Nat.add_assoc]

/-- One chunk: refused without any effect, or delivered as a whole. -/
theorem dataFlashContinuousRead_spec {b : Board} (hb : Installed b) (addr buffer size : Word)
    (hs : size.toNat ≤ 0x8000) :
    wp (dataFlashContinuousRead addr buffer size) (fun r t =>
      if rangeError at45db041Features addr size = true then r = dataflashMemoryOverflow ∧ t = b
      else r = dataflashOk ∧ Fetched b t addr buffer size.toNat) never b := by
  simp only [dataFlashContinuousRead, wp_bind, wp_get, hb.device]
  by_cases hr : rangeError at45db041Features addr size = true
  · simp only [if_pos hr]
    exact ⟨rfl, rfl⟩
  · simp only [if_neg hr, wp_bind, wp_modify]
    apply wp_post (dataFlashSendCommand_spec
      (b := { b with desc := { b.desc with
        rxDataPt := buffer, rxDataSize := size, txDataPt := buffer, txDataSize := size } })
      ⟨hb.device, hb.idle⟩ (by decide) 8 addr)
    rintro r t ⟨hr, hs', hm⟩
    have hflash : t.chip.flash = b.chip.flash := hs'.flash
    have hprog : t.chip.programmed = b.chip.programmed := by
      rw [Chip.programmed, hs'.log, Chip.programmed]
      rfl
    refine ⟨hr, ⟨hs'.device.trans hb.device, hs'.idle⟩, hs'.id, hflash, hprog, ?_⟩
    rw [hm]
    by_cases h0 : size = 0
    · rw [if_pos h0, h0]
      exact (store_zero _ _ _).symm
    · rw [if_neg h0]
      funext a
      simp only [store]
      split
      · rename_i hlt
        rw [readCell_head addr (by omega), Chip.answer, if_pos rfl]
        congr 1
        simp only [arraySize_eq]
        omega
      · rfl

theorem readChunks_spec {wait : Driver Word} (hw : WaitsReady wait) (fuel : ℕ) :
    ∀ (b : Board) (addr size buffer : Word), Installed b → size.toNat < fuel →
      wp (readChunks wait fuel addr size buffer) (fun r t =>
        r = (if delivered fuel addr size = size.toNat then dataflashOk else -1) ∧
        Fetched b t addr buffer (delivered fuel addr size)) never b := by
  induction fuel with
  | zero => intro b addr size buffer _ h; omega
  | succ fuel ih =>
    intro b addr size buffer hb hfuel
    rw [readChunks, delivered]
    by_cases h0 : size = 0
    · rw [if_pos h0, if_pos (Or.inl h0), h0]
      exact ⟨rfl, hb, rfl, rfl, rfl, (store_zero _ _ _).symm⟩
    have hsize : size.toNat ≠ 0 := fun h => h0 (BitVec.eq_of_toNat_eq h)
    have hchunk := chunkSize_toNat size
    rw [if_neg h0, wp_bind]
    apply wp_post (hw b hb.idle)
    rintro _ b₁ ⟨rfl, hk⟩
    rw [if_neg (not_not.mpr rfl), wp_bind]
    have hb₁ := hk.installed hb
    apply wp_post (dataFlashContinuousRead_spec hb₁ addr buffer (chunkSize size) (by omega))
    intro r b₂ h
    by_cases hr : rangeError at45db041Features addr (chunkSize size) = true
    · rw [if_pos hr] at h
      obtain ⟨rfl, rfl⟩ := h
      simp only [if_pos (Or.inr hr), if_neg (Ne.symm hsize)]
      exact ⟨rfl, Fetched.of_kept hb hk addr buffer⟩
    · rw [if_neg hr] at h
      obtain ⟨rfl, hf⟩ := h
      have hgo : ¬ (size = 0 ∨ rangeError at45db041Features addr (chunkSize size) = true) :=
        not_or.mpr ⟨h0, hr⟩
      simp only [if_neg hgo]
      have hsub := sub_chunkSize_toNat size
      apply wp_post (ih b₂ _ _ _ hf.installed (by omega))
      rintro r t ⟨hr', hf'⟩
      have hle := delivered_le fuel (addr + chunkSize size) (size - chunkSize size)
      have hlt := size.isLt
      refine ⟨?_, hf'.installed, hf'.id.trans (hf.id.trans hk.id),
        hf'.flash.trans (hf.flash.trans hk.flash),
        hf'.programmed.trans (hf.programmed.trans hk.programmed), ?_⟩
      · rw [hr']
        congr 1
        rw [eq_iff_iff]
        omega
      · rw [hf'.mem, hf.mem, hf.flash, hk.flash, hk.mem, ← store_store _ _ _ (by omega),
          BitVec.ofNat_toNat, BitVec.setWidth_eq]
        rcases Nat.lt_or_ge size.toNat 0x8000 with hsmall | hbig
        -- a short chunk is the last one
        · rw [show delivered fuel (addr + chunkSize size) (size - chunkSize size) = 0 by omega,
            store_zero, store_zero]
        · have hlit : (0x8000 : Word).toNat = 0x8000 := rfl
          have hfull : chunkSize size = 0x8000 := BitVec.eq_of_toNat_eq (by rw [hchunk, hlit]; omega)
          rw [hfull]
          simp only [readCell_tail, hlit]

theorem readDataflash_spec {b : Board} (hb : Installed b) (addr size buffer : Word) :
    wp (readDataflash addr size buffer) (fun r t =>
      r = (if delivered (size.toNat + 1) addr size = size.toNat then dataflashOk else -1) ∧
      Fetched b t addr buffer (delivered (size.toNat + 1) addr size)) never b := by
  rw [readDataflash, dataFlashRead, wp_bind]
  apply wp_post (dataFlashWaitReady_spec b hb.idle)
  rintro _ b₁ ⟨rfl, hk⟩
  rw [if_neg (not_not.mpr rfl)]
  apply wp_post (readChunks_spec dataFlashWaitReady_spec _ b₁ addr size buffer
    (hk.installed hb) (Nat.lt_succ_self _))
  rintro r t ⟨hr, hf⟩
  refine ⟨hr, hf.installed, hf.id.trans hk.id, hf.flash.trans hk.flash,
    hf.programmed.trans hk.programmed, ?_⟩
  rw [hf.mem, hk.mem, hk.flash]

/-! ## Reads inside the array -/

theorem delivered_eq (fuel : ℕ) : ∀ addr size : Word, size.toNat < fuel →
    addr.toNat + size.toNat ≤ arraySize → delivered fuel addr size = size.toNat := by
  induction fuel with
  | zero => intro addr size h; omega
  | succ fuel ih =>
    intro addr size hfuel h
    have hchunk := chunkSize_toNat size
    rw [delivered, rangeError_eq_false (by omega)]
    by_cases h0 : size = 0
    · rw [if_pos (Or.inl h0), h0]
      rfl
    · rw [if_neg (not_or.mpr ⟨h0, by decide⟩)]
      have hsize : size.toNat ≠ 0 := fun hz => h0 (BitVec.eq_of_toNat_eq hz)
      have hsub := sub_chunkSize_toNat size
      have hadd : (addr + chunkSize size).toNat = addr.toNat + (chunkSize size).toNat := by
        rw [arraySize_eq] at h
        rw [BitVec.toNat_add, Nat.mod_eq_of_lt (by omega)]
      rw [ih _ _ (by omega) (by omega)]
      omega

theorem readCell_eq {addr : Word} {i : ℕ} (h : addr.toNat + i < arraySize) :
    readCell addr i = addr.toNat + i := by
  rw [arraySize_eq] at h
  have hwrap : (addr.toNat + i / 0x8000 * 0x8000) % 2 ^ 32 = addr.toNat + i / 0x8000 * 0x8000 :=
    Nat.mod_eq_of_lt (by omega)
  rw [readCell, hwrap, arraySize_eq]
  omega

theorem readDataflash_correct {b : Board} (hb : Installed b) {addr size : Word} (buffer : Word)
    (h : addr.toNat + size.toNat ≤ arraySize) :
    wp (readDataflash addr size buffer) (fun r t => r = dataflashOk ∧
      Fetched b t addr buffer size.toNat ∧
      ∀ i < size.toNat, view t.mem buffer i = b.chip.flash (addr.toNat + i)) never b := by
  have hd := delivered_eq (size.toNat + 1) addr size (Nat.lt_succ_self _) h
  apply wp_post (readDataflash_spec hb addr size buffer)
  rintro r t ⟨hr, hf⟩
  rw [if_pos hd] at hr
  rw [hd] at hf
  refine ⟨hr, hf, fun i hi => ?_⟩
  have hlt := size.isLt
  rw [hf.mem, view_store_lt _ _ _ hi (by omega), readCell_eq (by omega)]

/-- A read inside the array is exact: the buffer receives the requested bytes, however the chunks
fall, and nothing else in memory or flash changes. -/
theorem dataFlashRead_exact {b : Board} (hb : Installed b) {addr size : Word} (buffer : Word)
    (h : addr.toNat + size.toNat ≤ arraySize) :
    ∃ t, dataFlashRead dataFlashWaitReady addr size buffer b = .ok dataflashOk t ∧
      (∀ i < size.toNat, view t.mem buffer i = b.chip.flash (addr.toNat + i)) ∧
      (∀ a : Word, size.toNat ≤ (a - buffer).toNat → t.mem a = b.mem a) ∧
      t.chip.flash = b.chip.flash := by
  obtain ⟨r, t, hrun, hr, hf, hbytes⟩ := wp_never.mp (readDataflash_correct hb buffer h)
  rw [hr] at hrun
  refine ⟨t, hrun, hbytes, fun a ha => ?_, hf.flash⟩
  rw [hf.mem, store, if_neg (Nat.not_lt.mpr ha)]

/-- 0x9000 bytes from the middle of a page: two chunks, the second of them across page ends. -/
theorem dataFlashRead_exact_two_chunks :
    ∃ t, dataFlashRead dataFlashWaitReady 300 0x9000 0x20000000
        (freshBoard (fun x => BitVec.ofNat 8 x) (fun _ => 0)) = .ok dataflashOk t ∧
      (∀ i < (0x9000 : Word).toNat, view t.mem 0x20000000 i =
        (freshBoard (fun x => BitVec.ofNat 8 x) (fun _ => 0)).chip.flash ((300 : Word).toNat + i)) ∧
      (∀ a : Word, (0x9000 : Word).toNat ≤ (a - 0x20000000).toNat →
        t.mem a = (freshBoard (fun x => BitVec.ofNat 8 x) (fun _ => 0)).mem a) ∧
      t.chip.flash = (freshBoard (fun x => BitVec.ofNat 8 x) (fun _ => 0)).chip.flash :=
  dataFlashRead_exact (freshBoard_installed _ _) 0x20000000 (by decide)

end Armboard.DataFlash
