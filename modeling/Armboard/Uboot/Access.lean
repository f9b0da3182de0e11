import Armboard.DataFlash.Read
import Armboard.Exec.Invariant
import Armboard.Uboot.Protection

/-! # Access through U-Boot's DataFlash layer

U-Boot gives up on a chip that stays busy for too many status reads, and the boot
loader does not. On a chip that is always ready in time both drivers make the same
transfers, so what is known of the boot loader's reads holds of U-Boot's. No access
changes how fast the chip is, or the device that was found.
-/

namespace Armboard.Uboot
open Exec DataFlash Storage

def readDataflash (addr size result : Word) : Service Word := do
  let k ← get
  match dataflashSelect k addr with
  | none => pure errUnknownFlashType
  | some addrToRead =>
    if sizeDataflash k.board.device addr size = 0 then pure errInval
    else onBank (dataFlashRead (dataFlashWaitReady timeoutWrdy) addrToRead size result)

/-! ## Chips that are ready in time -/

/-- An AT45DB041 that is ready within fewer than `n` status reads, now and after every transfer. -/
structure Prompt (n : ℕ) (c : Chip) : Prop where
  code : Recognised c.code
  busy : c.busy < n
  latency : ∀ k, c.latency k < n

variable {n : ℕ} {i : Word}

/-- The ready bit has no part in the code of the device. -/
theorem Prompt.recognised {c : Chip} (h : Prompt n c) : Recognised c.status := by
  have hbits : ∀ s : Byte, (s ||| 0x80) &&& 0x3C = s &&& 0x3C ∧ (s &&& 0x7F) &&& 0x3C = s &&& 0x3C := by
    decide
  have hcode := h.code
  rw [Recognised] at hcode ⊢
  rw [Chip.status]
  split_ifs
  · rw [(hbits c.code).1, hcode]
  · rw [(hbits c.code).2, hcode]

theorem Prompt.execute {c : Chip} (h : Prompt n c) (k : Command) (data : ℕ → Byte) (len : ℕ) :
    Prompt n (c.execute k data len) := by
  unfold Chip.execute
  split_ifs <;> exact ⟨h.code, h.busy, h.latency⟩

theorem Prompt.exchange {c : Chip} (h : Prompt n c) (cmd data : ℕ → Byte) (len : ℕ) :
    Prompt n (c.exchange cmd data len).chip := by
  have hbusy := h.busy
  by_cases hstatus : cmd 0 = dbStatus
  · rw [Chip.exchange, if_pos hstatus]
    exact ⟨h.code, by simp only; omega, h.latency⟩
  · rw [Chip.exchange, if_neg hstatus]
    exact ⟨(h.execute _ _ _).code, h.latency _, (h.execute _ _ _).latency⟩

/-- The device that was found, and its chip is ready in time. -/
abbrev Serves (n : ℕ) (i : Word) (b : Board) : Prop := Prompt n b.chip ∧ b.id = i

/-- The driver changes the chip by transfers only, and the device not at all. -/
abbrev KeepsServing {α : Type} (n : ℕ) (i : Word) (x : Driver α) : Prop :=
  Maintains (Serves n i) (fun _ _ => True) x

theorem serves_of_ok {α : Type} {x : Driver α} (h : KeepsServing n i x) {b t : Board} {a : α}
    (hb : Serves n i b) (hrun : x b = .ok a t) : Serves n i t := by
  have hwp : wp x (fun _ t => Serves n i t) (fun _ _ => True) b := h b hb
  have ht := wp_of_ok hwp hrun
  exact ht

theorem spiWrite_serves : KeepsServing n i spiWrite :=
  .bind (.modify fun _ hb => ⟨hb.1.exchange _ _ _, hb.2⟩) fun _ => .pure _

theorem dataFlashGetStatus_serves : KeepsServing n i dataFlashGetStatus := by
  refine .bind .get fun b => .ite (fun _ => .pure _) fun _ => ?_
  refine .bind (.modify fun _ hb => hb) fun _ => .bind spiWrite_serves fun _ => ?_
  exact .bind (.modify fun _ hb => hb) fun _ => .pure _

theorem pollReady_serves (k : ℕ) : KeepsServing n i (pollReady k) := by
  induction k with
  | zero => exact .throw fun _ _ => trivial
  | succ k ih =>
    refine .bind dataFlashGetStatus_serves fun _ => .bind .get fun _ => ?_
    exact .ite (fun _ => .pure _) fun _ => ih

theorem waitReady_serves : KeepsServing n i DataFlash.dataFlashWaitReady := by
  refine .bind .get fun b => .ite (fun _ => .pure _) fun _ => ?_
  exact .bind (.modify fun _ hb => hb) fun _ => pollReady_serves _

theorem divisor_serves : KeepsServing n i divisor :=
  .bind .get fun _ => .ite (fun _ => .throw fun _ _ => trivial) fun _ => .pure _

theorem dataFlashSendCommand_serves (op : Byte) (m a : Word) :
    KeepsServing n i (dataFlashSendCommand op m a) := by
  refine .bind .get fun b => .ite (fun _ => .pure _) fun _ => .bind divisor_serves fun _ => ?_
  exact .bind (.modify fun _ hb => hb) fun _ => spiWrite_serves

theorem dataFlashContinuousRead_serves (addr buffer size : Word) :
    KeepsServing n i (dataFlashContinuousRead addr buffer size) := by
  refine .bind .get fun b => .ite (fun _ => .pure _) fun _ => ?_
  exact .bind (.modify fun _ hb => hb) fun _ => dataFlashSendCommand_serves _ _ _

theorem readChunks_serves (fuel : ℕ) : ∀ addr size buffer : Word,
    KeepsServing n i (readChunks DataFlash.dataFlashWaitReady fuel addr size buffer) := by
  induction fuel with
  | zero => exact fun _ _ _ => .throw fun _ _ => trivial
  | succ fuel ih =>
    intro addr size buffer
    refine .ite (fun _ => .pure _) fun _ => .bind waitReady_serves fun _ => ?_
    refine .ite (fun _ => .pure _) fun _ => .bind (dataFlashContinuousRead_serves _ _ _) fun _ => ?_
    exact .ite (fun _ => .pure _) fun _ => ih _ _ _

theorem pollTimeout_serves (k : ℕ) : KeepsServing n i (pollTimeout k) := by
  induction k with
  | zero => exact .pure _
  | succ k ih =>
    refine .bind dataFlashGetStatus_serves fun _ => .bind .get fun _ => ?_
    exact .ite (fun _ => .pure _) fun _ => ih

theorem dataFlashWaitReady_serves (timeout : ℕ) : KeepsServing n i (dataFlashWaitReady timeout) := by
  refine .bind (.modify fun _ hb => hb) fun _ => .bind (pollTimeout_serves _) fun _ => ?_
  exact .bind .get fun _ => .pure _

theorem mainMemoryToBufferTransfert_serves (op : Byte) (page : Word) :
    KeepsServing n i (mainMemoryToBufferTransfert op page) := by
  refine .ite (fun _ => .pure _) fun _ => .bind (.modify fun _ hb => hb) fun _ => ?_
  exact .bind .get fun _ => dataFlashSendCommand_serves _ _ _

theorem dataFlashWriteBuffer_serves (op : Byte) (src addr size : Word) :
    KeepsServing n i (dataFlashWriteBuffer op src addr size) := by
  refine .bind .get fun _ => .ite (fun _ => .pure _) fun _ => .ite (fun _ => .pure _) fun _ => ?_
  refine .ite (fun _ => .pure _) fun _ => .bind (.modify fun _ hb => hb) fun _ => ?_
  exact spiWrite_serves

theorem pageErase_serves (page : Word) : KeepsServing n i (pageErase page) := by
  refine .bind (.modify fun _ hb => hb) fun _ => .bind .get fun _ => ?_
  exact dataFlashSendCommand_serves _ _ _

theorem writeBufferToMain_serves (op : Byte) (dest : Word) :
    KeepsServing n i (writeBufferToMain op dest) := by
  refine .ite (fun _ => .pure _) fun _ => .bind (.modify fun _ hb => hb) fun _ => ?_
  exact .bind .get fun _ => dataFlashSendCommand_serves _ _ _

theorem partialPageWrite_serves {wait : Driver Word} (hw : KeepsServing n i wait) (src dest size : Word) :
    KeepsServing n i (partialPageWrite wait src dest size) := by
  refine .bind divisor_serves fun _ => .bind (mainMemoryToBufferTransfert_serves _ _) fun _ => ?_
  refine .bind hw fun _ => .bind (dataFlashWriteBuffer_serves _ _ _ _) fun _ => .bind hw fun _ => ?_
  refine .bind .get fun _ => .ite (fun _ => ?_) fun _ => writeBufferToMain_serves _ _
  exact .bind (pageErase_serves _) fun _ => .bind hw fun _ => writeBufferToMain_serves _ _

theorem writePage_serves {wait : Driver Word} (hw : KeepsServing n i wait) (src dest : Word) :
    KeepsServing n i (writePage wait src dest) := by
  refine .bind divisor_serves fun _ => .bind (dataFlashWriteBuffer_serves _ _ _ _) fun _ => ?_
  refine .bind hw fun _ => .bind (pageErase_serves _) fun _ => .bind hw fun _ => ?_
  refine .ite (fun _ => .pure _) fun _ => .bind (writeBufferToMain_serves _ _) fun _ => ?_
  exact .ite (fun _ => .pure _) fun _ => .bind hw fun _ => .pure _

theorem writePart_serves {wait : Driver Word} (hw : KeepsServing n i wait) (src dest size : Word) :
    KeepsServing n i (writePart wait src dest size) := by
  refine .bind (partialPageWrite_serves hw _ _ _) fun _ => .ite (fun _ => .pure _) fun _ => ?_
  exact .bind hw fun _ => .pure _

theorem writePages_serves {wait : Driver Word} (hw : KeepsServing n i wait) (fuel : ℕ) :
    ∀ src dest size : Word, KeepsServing n i (writePages wait fuel src dest size) := by
  induction fuel with
  | zero => exact fun _ _ _ => .throw fun _ _ => trivial
  | succ fuel ih =>
    intro src dest size
    refine .bind .get fun _ => .ite (fun _ => ?_) fun _ => .ite (fun _ => ?_) fun _ => .pure _
    · refine .bind (writePage_serves hw _ _) fun _ => .ite (fun _ => ih _ _ _) fun _ => .pure _
    · exact .bind (writePart_serves hw _ _ _) fun _ => .pure _

theorem dataFlashWrite_serves {wait : Driver Word} (hw : KeepsServing n i wait) (src dest size : Word) :
    KeepsServing n i (dataFlashWrite wait src dest size) := by
  refine .bind .get fun _ => .ite (fun _ => .pure _) fun _ => .bind divisor_serves fun _ => ?_
  refine .ite (fun _ => ?_) fun _ => writePages_serves hw _ _ _ _
  refine .bind (writePart_serves hw _ _ _) fun _ => ?_
  exact .ite (fun _ => writePages_serves hw _ _ _ _) fun _ => .pure _

/-! ## Both drivers wait alike -/

theorem bind_run {ε σ α β : Type} {x y : EStateM ε σ α} {s t : σ} (h : x s = y t)
    (f : α → EStateM ε σ β) : (x >>= f) s = (y >>= f) t := by
  change EStateM.bind x f s = EStateM.bind y f t
  rw [EStateM.bind, EStateM.bind, h]

theorem pollTimeout_succ {b t : Board} {r : Word} (hrun : dataFlashGetStatus b = .ok r t) (k : ℕ) :
    pollTimeout (k + 1) b =
      if t.desc.dataFlashState &&& 0x80 = 0x80 then .ok () t else pollTimeout k t := by
  have hget : (get : Driver Board) t = .ok t t := rfl
  rw [pollTimeout, bind_ok hrun, bind_ok hget]
  split_ifs <;> rfl

theorem pollReady_succ {b t : Board} {r : Word} (hrun : dataFlashGetStatus b = .ok r t) (k : ℕ) :
    pollReady (k + 1) b =
      if t.desc.dataFlashState &&& 0x80 = 0x80 then .ok dataflashOk t else pollReady k t := by
  have hget : (get : Driver Board) t = .ok t t := rfl
  rw [pollReady, bind_ok hrun, bind_ok hget]
  split_ifs <;> rfl

/-- While the bound is not reached the two polls make the same status reads. -/
theorem pollTimeout_eq (m : ℕ) : ∀ (k : ℕ) (b : Board), b.desc.state = idle → b.chip.busy = m →
    m < k → (do
      pollTimeout k
      let b ← get
      pure (if b.desc.dataFlashState &&& 0x80 = 0x80 then dataflashOk else dataflashError) :
        Driver Word) b = pollReady (m + 1) b := by
  induction m with
  | zero =>
    intro k b hb hm hk
    obtain ⟨k, rfl⟩ : ∃ j, k = j + 1 := ⟨k - 1, by omega⟩
    obtain ⟨r, t, hrun, -, hs, -⟩ := wp_never.mp (dataFlashGetStatus_spec b hb)
    have hready : t.desc.dataFlashState &&& 0x80 = 0x80 := by
      rw [hs]
      exact (status_ready _).mpr hm
    have hpoll := pollTimeout_succ hrun k
    rw [if_pos hready] at hpoll
    rw [pollReady_succ hrun, if_pos hready, bind_ok hpoll]
    have hget : (get : Driver Board) t = .ok t t := rfl
    rw [bind_ok hget, if_pos hready]
    rfl
  | succ m ih =>
    intro k b hb hm hk
    obtain ⟨k, rfl⟩ : ∃ j, k = j + 1 := ⟨k - 1, by omega⟩
    obtain ⟨r, t, hrun, hkept, hs, -, hbusy, -⟩ := wp_never.mp (dataFlashGetStatus_spec b hb)
    have hwait : ¬ t.desc.dataFlashState &&& 0x80 = 0x80 := by
      rw [hs]
      exact fun hc => by have := (status_ready _).mp hc; omega
    have hpoll := pollTimeout_succ hrun k
    rw [if_neg hwait] at hpoll
    rw [pollReady_succ hrun, if_neg hwait, bind_run hpoll]
    exact ih k t hkept.idle (by omega) (by omega)

theorem dataFlashWaitReady_eq {b : Board} (hp : Prompt n b.chip) (hb : b.desc.state = idle) :
    dataFlashWaitReady n b = DataFlash.dataFlashWaitReady b := by
  have hget : (get : Driver Board) b = .ok b b := rfl
  rw [DataFlash.dataFlashWaitReady, bind_ok hget, if_neg (not_not.mpr hb)]
  exact pollTimeout_eq b.chip.busy n { b with desc := { b.desc with dataFlashState := idle } } hb rfl
    hp.busy

/-- A wait that succeeds is followed by the same program in both drivers. -/
theorem waited_eq {b : Board} (hp : Serves n i b) (hb : Installed b)
    {f g : Word → Driver Word} (hfg : ∀ t, Serves n i t → Installed t →
      f dataflashOk t = g dataflashOk t) :
    (dataFlashWaitReady n >>= f) b = (DataFlash.dataFlashWaitReady >>= g) b := by
  obtain ⟨r, t, hrun, rfl, hk⟩ := wp_never.mp (dataFlashWaitReady_spec b hb.idle)
  rw [bind_run (dataFlashWaitReady_eq hp.1 hb.idle), bind_ok hrun, bind_ok hrun]
  exact hfg t (serves_of_ok waitReady_serves hp hrun) (hk.installed hb)

theorem readChunks_eq (fuel : ℕ) : ∀ (b : Board) (addr size buffer : Word), Serves n i b →
    Installed b → readChunks (dataFlashWaitReady n) fuel addr size buffer b =
      readChunks DataFlash.dataFlashWaitReady fuel addr size buffer b := by
  induction fuel with
  | zero => exact fun _ _ _ _ _ _ => rfl
  | succ fuel ih =>
    intro b addr size buffer hp hb
    rw [readChunks, readChunks]
    by_cases h0 : size = 0
    · rw [if_pos h0, if_pos h0]
    · rw [if_neg h0, if_neg h0]
      apply waited_eq hp hb
      intro t ht hit
      have hlen : (chunkSize size).toNat ≤ 0x8000 := by
        rw [chunkSize_toNat]
        exact Nat.min_le_right _ _
      obtain ⟨r, u, hrun, hread⟩ := wp_never.mp
        (dataFlashContinuousRead_spec hit addr buffer (chunkSize size) hlen)
      have hu : Serves n i u := serves_of_ok (dataFlashContinuousRead_serves _ _ _) ht hrun
      have hiu : Installed u := by
        split_ifs at hread
        · exact hread.2 ▸ hit
        · exact hread.2.installed
      simp only [ne_eq, not_true, if_false, bind_ok hrun]
      split_ifs
      · exact ih u _ _ _ hu hiu
      · rfl

/-- On a prompt chip U-Boot reads as the boot loader does. -/
theorem dataFlashRead_eq {b : Board} (hp : Serves n i b) (hb : Installed b)
    (addr size buffer : Word) :
    dataFlashRead (dataFlashWaitReady n) addr size buffer b =
      dataFlashRead DataFlash.dataFlashWaitReady addr size buffer b := by
  rw [dataFlashRead, dataFlashRead]
  apply waited_eq hp hb
  intro t ht hit
  simp only [ne_eq, not_true, if_false]
  exact readChunks_eq _ t addr size buffer ht hit

/-! ## Requests inside the bank -/

structure Working (k : Bank) : Prop where
  initialised : Initialised k
  prompt : Prompt timeoutWrdy k.board.chip

theorem Working.serves {k : Bank} (h : Working k) : Serves timeoutWrdy k.board.id k.board :=
  ⟨h.prompt, rfl⟩

theorem dataflashInit_working {k : Bank} (hp : Prompt timeoutWrdy k.board.chip) :
    wp dataflashInit (fun _ t => Working t ∧ t.areas = layout .set .clear .set ∧
      t.board.chip.flash = k.board.chip.flash) never k := by
  have hprompt : Maintains (fun k : Bank => Prompt timeoutWrdy k.board.chip) (fun _ _ => True)
      dataflashInit := by
    refine .bind (.modify fun _ hb => hb) fun _ => .bind ?_ fun dfcode => ?_
    · intro k hk
      have hprobe : KeepsServing timeoutWrdy k.board.id dataflashProbe :=
        .bind dataFlashGetStatus_serves fun _ => .bind .get fun _ => .pure _
      rw [onBank, wp_onPart]
      exact wp_post (hprobe k.board ⟨hk, rfl⟩) fun _ t ht => ht.1
    · cases deviceFeatures dfcode with
      | none => exact .pure _
      | some d => exact .bind (.modify fun _ hb => hb) fun _ => .pure _
  have hboth := wp_and (dataflashInit_initialised hp.recognised) (hprompt k hp)
  refine wp_mono hboth (fun _ t ht => ?_) fun _ _ he => he.1
  exact ⟨⟨ht.1.1, ht.2⟩, ht.1.2⟩

/-- A read inside the bank is exact, and changes nothing but the buffer. -/
theorem readDataflash_spec {k : Bank} (hk : Working k) {dest size : Word} (hin : InBank dest size)
    (result : Word) :
    wp (readDataflash dest size result) (fun r t => r = dataflashOk ∧ Working t ∧
      t.areas = k.areas ∧ t.board.chip.flash = k.board.chip.flash ∧
      ∀ i < size.toNat, view t.board.mem result i = k.board.chip.flash (offset dest + i)) never k := by
  have htop := hin.1
  have hfit := hin.2
  have hsize : ¬ sizeDataflash at45db041Features dest size = 0 := by
    rw [sizeDataflash_eq_zero htop]
    omega
  have hoff := sub_logicAddr_toNat htop
  have hb := hk.initialised.board
  simp only [readDataflash, wp_bind, wp_get, dataflashSelect_eq hk.initialised, if_pos htop,
    hb.device, if_neg hsize, onBank, wp_onPart]
  have hplace : (dest - logicAddr).toNat + size.toNat ≤ arraySize := by omega
  have hplain := readDataflash_correct hb result hplace
  obtain ⟨r, t, hrun, rfl, hf, hbytes⟩ := wp_never.mp hplain
  have hserves : Serves timeoutWrdy k.board.id t := by
    refine serves_of_ok (.bind waitReady_serves fun _ => ?_) hk.serves hrun
    exact .ite (fun _ => .pure _) fun _ => readChunks_serves _ _ _ _
  have hid : t.id ≠ 0 := by
    rw [hserves.2]
    exact hk.initialised.id
  rw [DataFlash.readDataflash, ← dataFlashRead_eq hk.serves hb] at hrun
  rw [wp, hrun]
  refine ⟨rfl, ⟨⟨hf.installed, hid, hk.initialised.logicalAddress⟩, hserves.1⟩, trivial, hf.flash,
    fun i hi => ?_⟩
  rw [← hoff]
  exact hbytes i hi

/-- A write inside the bank is refused, or puts the bytes in their place and no others. -/
theorem writeDataflash_inBank {k : Bank} (hk : Working k) {dest size : Word} (hin : InBank dest size)
    (src : Word) :
    wp (writeDataflash dest src size) (fun r t => Working t ∧ t.areas = k.areas ∧
      (r = if protDataflash k.areas dest = 0 then errProtected else dataflashOk) ∧
      ∀ x, t.board.chip.flash x =
        if protDataflash k.areas dest ≠ 0 ∧ offset dest ≤ x ∧ x < offset dest + size.toNat then
          view k.board.mem src (x - offset dest)
        else k.board.chip.flash x) never k := by
  have htop := hin.1
  have hfit := hin.2
  have hsize : ¬ sizeDataflash at45db041Features dest size = 0 := by
    rw [sizeDataflash_eq_zero htop]
    omega
  have hoff := sub_logicAddr_toNat htop
  have hb := hk.initialised.board
  simp only [writeDataflash, wp_bind, wp_get, dataflashSelect_eq hk.initialised, if_pos htop,
    hb.device, if_neg hsize, wp_ite]
  by_cases hprot : protDataflash k.areas dest = 0
  · rw [if_pos hprot, if_pos hprot]
    exact ⟨hk, rfl, rfl, fun x => by rw [if_neg (fun h => h.1 hprot)]⟩
  · have hplace : (dest - logicAddr).toNat + size.toNat ≤ arraySize := by omega
    have hm1 : dest - logicAddr ≠ -1 := by
      intro h
      rw [h, arraySize_eq, show (-1 : Word).toNat = 2 ^ 32 - 1 from rfl] at hplace
      omega
    rw [if_neg hprot, if_neg hm1, if_neg hprot, onBank, wp_onPart]
    obtain ⟨r, t, hrun, rfl, hw⟩ := wp_never.mp (dataFlashWrite_spec
      (dataFlashWaitReady_waits timeoutWrdy) hb src (rangeError_eq_false hplace))
    have hserves : Serves timeoutWrdy k.board.id t :=
      serves_of_ok (dataFlashWrite_serves (dataFlashWaitReady_serves _) _ _ _) hk.serves hrun
    have hid : t.id ≠ 0 := by
      rw [hserves.2]
      exact hk.initialised.id
    rw [wp, hrun]
    refine ⟨⟨⟨hw.installed, hid, hk.initialised.logicalAddress⟩, hserves.1⟩, rfl, rfl,
      fun x => ?_⟩
    change t.chip.flash x = _
    rw [hw.flash, patch_writePlan hplace, hoff]
    simp only [ne_eq, hprot, not_false_eq_true, true_and]

end Armboard.Uboot
