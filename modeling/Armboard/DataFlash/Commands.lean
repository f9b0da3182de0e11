import Armboard.Bits.Masks
import Armboard.DataFlash.Driver
import Armboard.Storage.Paged
import Mathlib.Tactic

/-! # What each DataFlash command does

With the AT45DB041 installed, every driver function has one specification: the
page and byte address the chip decodes, the effect on array and buffer, and the
memory the transfer overwrites. Later proofs use these and never unfold the
driver again.
-/

namespace Armboard.DataFlash
open Exec Storage Bits

/-! ## Address bytes -/

theorem lowByte_toNat (adr : Word) :
    ((adr &&& 0x000000FF).setWidth 8).toNat = adr.toNat % 256 :=
  toNat_and_low adr 0x000000FF (k := 8) rfl le_rfl

theorem secondByte_toNat (adr : Word) :
    (((adr &&& 0x0000FF00) >>> 8).setWidth 8).toNat = adr.toNat / 2 ^ 8 % 256 := by
  have hall : ∀ i < 8, (0x0000FF00 : Word).getLsbD (8 + i) = true := by decide
  exact toNat_field adr 0x0000FF00 8 8 fun i hi _ => hall i hi

theorem thirdByte_toNat (adr : Word) :
    (((adr &&& 0x00FF0000) >>> 16).setWidth 8).toNat = adr.toNat / 2 ^ 16 % 256 := by
  have hall : ∀ i < 8, (0x00FF0000 : Word).getLsbD (16 + i) = true := by decide
  exact toNat_field adr 0x00FF0000 16 8 fun i hi _ => hall i hi

theorem address_commandBytes (op : Byte) (adr : Word) :
    address (commandBytes false op adr) = adr.toNat % 2 ^ 24 := by
  simp only [address, commandBytes, Bool.false_eq_true, if_false]
  rw [thirdByte_toNat, secondByte_toNat, lowByte_toNat]
  omega

/-- The chip decodes page and byte of a flat address, the page modulo 2048. -/
theorem decode_commandBytes (op : Byte) (a : Word) :
    decode (commandBytes false op (((a / 264) <<< 9) + a % 264)) =
      ⟨op, a.toNat / 264 % 2048, a.toNat % 264⟩ := by
  have ha := a.isLt
  have h : (((a / 264) <<< 9) + a % 264).toNat =
      (a.toNat / 264 * 512 + a.toNat % 264) % 2 ^ 32 := by
    simp [BitVec.toNat_add, BitVec.toNat_shiftLeft, Nat.shiftLeft_eq]
  simp only [decode, address_commandBytes, h, Command.mk.injEq]
  refine ⟨rfl, ?_, ?_⟩ <;> omega

theorem decode_bufferBytes (op : Byte) (a : Word) (old : ℕ → Byte) (ha : a.toNat < 264) :
    decode (bufferBytes at45db041Features op a old) = ⟨op, 0, a.toNat⟩ := by
  have hmask : ∀ i < 8, a.getLsbD (8 + i) = true → (0x100 : Word).getLsbD (8 + i) = true := by
    intro i _ hbit
    have hle : 2 ^ (8 + i) ≤ a.toNat := Nat.ge_two_pow_of_testBit hbit
    have hzero : i = 0 := by
      by_contra hne
      have hpow : 2 ^ 9 ≤ 2 ^ (8 + i) := Nat.pow_le_pow_right (by omega) (by omega)
      omega
    rw [hzero]
    decide
  have h2 := toNat_field a 0x100 8 8 hmask
  have h3 := lowByte_toNat a
  have hlarge : at45db041Features.large = false := by decide
  have hadr : address (bufferBytes at45db041Features op a old) = a.toNat := by
    simp only [address, bufferBytes, hlarge, Bool.false_eq_true, if_false]
    change (0 : Byte).toNat * 65536 + (((a &&& 0x100) >>> 8).setWidth 8 : Byte).toNat * 256 + _ = _
    have h0 : (0 : Byte).toNat = 0 := rfl
    rw [h0, h2, h3]
    omega
  simp only [decode, hadr, Command.mk.injEq]
  refine ⟨rfl, ?_, ?_⟩ <;> omega

/-! ## The range test -/

/-- The test compares the wrapped signed sum with the size of the array. -/
theorem rangeError_iff (a s : Word) :
    rangeError at45db041Features a s = true ↔ 540672 < (a + s).toInt := by
  have hp : (at45db041Features.pagesSize * at45db041Features.pagesNumber).toInt = 540672 := by
    decide
  rw [rangeError, BitVec.slt, hp, decide_eq_true_iff]

theorem rangeError_eq_false {a s : Word} (h : a.toNat + s.toNat ≤ arraySize) :
    rangeError at45db041Features a s = false := by
  rw [arraySize_eq] at h
  have hs : (a + s).toNat = a.toNat + s.toNat := by
    rw [BitVec.toNat_add, Nat.mod_eq_of_lt (by omega)]
  rw [← Bool.not_eq_true, rangeError_iff, BitVec.toInt_eq_toNat_cond, hs, if_pos (by omega)]
  omega

/-! ## Waiting -/

structure Kept (b t : Board) : Prop where
  flash : t.chip.flash = b.chip.flash
  buffer : t.chip.buffer = b.chip.buffer
  log : t.chip.log = b.chip.log
  mem : t.mem = b.mem
  device : t.device = b.device
  id : t.id = b.id
  idle : t.desc.state = idle

theorem Kept.trans {b t u : Board} (h : Kept b t) (h' : Kept t u) : Kept b u :=
  ⟨h'.flash.trans h.flash, h'.buffer.trans h.buffer, h'.log.trans h.log, h'.mem.trans h.mem,
    h'.device.trans h.device, h'.id.trans h.id, h'.idle⟩

/-- A polling routine that returns and touches only the chip's status and the descriptor. -/
def Waits (wait : Driver Word) : Prop :=
  ∀ b, b.desc.state = idle → wp wait (fun _ t => Kept b t) never b

/-- A polling routine that moreover ends with the chip ready. -/
def WaitsReady (wait : Driver Word) : Prop :=
  ∀ b, b.desc.state = idle → wp wait (fun r t => r = dataflashOk ∧ Kept b t) never b

theorem WaitsReady.waits {wait : Driver Word} (h : WaitsReady wait) : Waits wait :=
  fun b hb => wp_post (h b hb) (fun _ _ ht => ht.2)

theorem dataFlashGetStatus_spec (b : Board) (h : b.desc.state = idle) :
    wp dataFlashGetStatus (fun _ t => Kept b t ∧ t.desc.dataFlashState = b.chip.status ∧
      t.desc.command 1 = b.chip.status ∧ t.chip.busy = b.chip.busy - 1 ∧
      t.chip.code = b.chip.code) never b := by
  simp only [dataFlashGetStatus, spiWrite, wp_bind, wp_get, h, wp_modify, wp_pure,
    Chip.exchange, ne_eq, not_true_eq_false, if_false, if_true]
  constructor
  · exact ⟨rfl, rfl, rfl, rfl, rfl, rfl, rfl⟩
  simp

theorem status_ready (c : Chip) : c.status &&& 0x80 = 0x80 ↔ c.busy = 0 := by
  unfold Chip.status
  split
  · rename_i h
    simp only [h, iff_true]
    ext i hi
    interval_cases i <;> simp
  · rename_i h
    simp only [h, iff_false]
    intro hc
    have := congrArg (fun x : Byte => x.getLsbD 7) hc
    simp at this

theorem pollReady_spec (n : ℕ) : ∀ b : Board, b.desc.state = idle → b.chip.busy = n →
    wp (pollReady (n + 1)) (fun r t => r = dataflashOk ∧ Kept b t) never b := by
  induction n with
  | zero =>
    intro b hb hn
    rw [pollReady, wp_bind]
    apply wp_post (dataFlashGetStatus_spec b hb)
    rintro _ t ⟨hk, hs, -, -⟩
    have hr : t.desc.dataFlashState &&& 0x80 = 0x80 := by rw [hs]; exact (status_ready _).mpr hn
    simp only [wp_bind, wp_get, if_pos hr, wp_pure]
    exact ⟨trivial, hk⟩
  | succ n ih =>
    intro b hb hn
    rw [pollReady, wp_bind]
    apply wp_post (dataFlashGetStatus_spec b hb)
    rintro _ t ⟨hk, hs, -, hbusy, -⟩
    have hr : ¬ t.desc.dataFlashState &&& 0x80 = 0x80 := by
      rw [hs]
      exact fun hc => by have := (status_ready _).mp hc; omega
    simp only [wp_bind, wp_get, if_neg hr]
    exact wp_post (ih t hk.idle (by omega)) (fun r u hu => ⟨hu.1, hk.trans hu.2⟩)

theorem dataFlashWaitReady_spec : WaitsReady dataFlashWaitReady := by
  intro b hb
  simp only [dataFlashWaitReady, wp_bind, wp_get, hb, ne_eq, not_true_eq_false, if_false, wp_modify]
  exact wp_post (pollReady_spec _ _ rfl rfl) (fun r t ht => ⟨ht.1, ht.2.flash, ht.2.buffer,
    ht.2.log, ht.2.mem, ht.2.device, ht.2.id, ht.2.idle⟩)

/-! ## Commands on an installed AT45DB041 -/

structure Installed (b : Board) : Prop where
  device : b.device = at45db041Features
  idle : b.desc.state = idle

theorem Kept.installed {b t : Board} (h : Kept b t) (hb : Installed b) : Installed t :=
  ⟨h.device.trans hb.device, h.idle⟩

theorem Kept.programmed {b t : Board} (h : Kept b t) : t.chip.programmed = b.chip.programmed := by
  rw [Chip.programmed, h.log, Chip.programmed]

/-- The chip executed command `k` and the transfer is over. -/
structure Sent (b t : Board) (k : Command) (data : ℕ → Byte) (len : ℕ) : Prop where
  flash : t.chip.flash = (b.chip.execute k data len).flash
  buffer : t.chip.buffer = (b.chip.execute k data len).buffer
  log : t.chip.log = k :: b.chip.log
  device : t.device = b.device
  id : t.id = b.id
  idle : t.desc.state = idle

theorem Sent.installed {b t : Board} {k : Command} {data : ℕ → Byte} {len : ℕ}
    (h : Sent b t k data len) (hb : Installed b) : Installed t :=
  ⟨h.device.trans hb.device, h.idle⟩

def Chip.answer (c : Chip) (k : Command) : ℕ → Byte := fun i =>
  if k.opcode = dbContinuousArrayRead then c.flash ((k.page * 264 + k.byte + i) % arraySize)
  else c.noise c.clock (8 + i)

theorem spiWrite_spec (b : Board) (h : b.desc.command 0 ≠ dbStatus) :
    wp spiWrite (fun r t => r = dataflashOk ∧
      Sent b t (decode b.desc.command) (view b.mem b.desc.txDataPt) b.desc.txDataSize.toNat ∧
      t.mem = if b.desc.txDataSize = 0 then b.mem else
        store b.mem b.desc.rxDataPt b.desc.rxDataSize.toNat
          (b.chip.answer (decode b.desc.command))) never b := by
  simp only [spiWrite, wp_bind, wp_modify, wp_pure, Chip.exchange, if_neg h]
  exact ⟨trivial, ⟨rfl, rfl, rfl, rfl, rfl, rfl⟩, rfl⟩

theorem dataFlashSendCommand_spec {b : Board} (hb : Installed b) {op : Byte} (hop : op ≠ dbStatus)
    (n a : Word) :
    wp (dataFlashSendCommand op n a) (fun r t => r = dataflashOk ∧
      Sent b t ⟨op, a.toNat / 264 % 2048, a.toNat % 264⟩ (view b.mem b.desc.txDataPt)
        b.desc.txDataSize.toNat ∧
      t.mem = if b.desc.txDataSize = 0 then b.mem else
        store b.mem b.desc.rxDataPt b.desc.rxDataSize.toNat
          (b.chip.answer ⟨op, a.toNat / 264 % 2048, a.toNat % 264⟩)) never b := by
  have hlarge : at45db041Features.large = false := by decide
  have hps : at45db041Features.pagesSize = 264 := rfl
  have hpo : at45db041Features.pageOffset.toNat = 9 := rfl
  have hz : ¬ (264 : Word) = 0 := by decide
  simp only [dataFlashSendCommand, divisor, wp_bind, wp_get, hb.idle, hb.device, ne_eq,
    not_true_eq_false, if_false, hps, hpo, if_neg hz, wp_pure, wp_modify, hlarge]
  apply wp_post (spiWrite_spec _ hop)
  rintro r t ⟨hr, hs, hm⟩
  simp only [decode_commandBytes] at hs hm
  exact ⟨hr, ⟨hs.flash, hs.buffer, hs.log, hs.device.trans hb.device.symm, hs.id, hs.idle⟩, hm⟩

theorem sendCommand_quiet {b : Board} (hb : Installed b) (op : Byte) (hop : op ≠ dbStatus)
    (a : Word) :
    wp (do
      modify fun b => { b with desc := { b.desc with txDataSize := 0 } }
      let b ← get
      dataFlashSendCommand op b.device.cmdSize a : Driver Word) (fun r t => r = dataflashOk ∧
        Sent b t ⟨op, a.toNat / 264 % 2048, a.toNat % 264⟩ (view b.mem b.desc.txDataPt) 0 ∧
        t.mem = b.mem) never b := by
  simp only [wp_bind, wp_modify, wp_get]
  apply wp_post (dataFlashSendCommand_spec (b := { b with desc := { b.desc with txDataSize := 0 } })
    ⟨hb.device, hb.idle⟩ hop _ a)
  rintro r t ⟨hr, hs, hm⟩
  exact ⟨hr, ⟨hs.flash, hs.buffer, hs.log, hs.device, hs.id, hs.idle⟩, hm⟩

theorem page_mul_toNat {page : Word} (hp : page.toNat * 264 < 2 ^ 32) :
    (page * at45db041Features.pagesSize).toNat / 264 % 2048 = page.toNat % 2048 := by
  have hps : at45db041Features.pagesSize = 264 := rfl
  rw [hps, BitVec.toNat_mul, show (264 : Word).toNat = 264 from rfl, Nat.mod_eq_of_lt hp,
    Nat.mul_div_cancel _ (by omega)]

theorem mainMemoryToBufferTransfert_spec {b : Board} (hb : Installed b) {page : Word}
    (hp : page.toNat * 264 < 2 ^ 32) :
    wp (mainMemoryToBufferTransfert dbPage2Buf1Trf page) (fun _ t => Installed t ∧
      t.chip.flash = b.chip.flash ∧
      t.chip.buffer = (fun x => b.chip.flash (page.toNat % 2048 * 264 + x)) ∧
      t.chip.programmed = b.chip.programmed ∧ t.mem = b.mem) never b := by
  have hcmd : ¬ (dbPage2Buf1Trf ≠ dbPage2Buf1Trf ∧ dbPage2Buf1Trf ≠ dbPage2Buf2Trf) := by decide
  have hd : (b.device.pagesSize) = at45db041Features.pagesSize := by rw [hb.device]
  simp only [mainMemoryToBufferTransfert, if_neg hcmd]
  have h := sendCommand_quiet hb dbPage2Buf1Trf (by decide) (page * b.device.pagesSize)
  simp only [wp_bind, wp_modify, wp_get] at h ⊢
  apply wp_post h
  rintro r t ⟨-, hs, hm⟩
  have hpage := page_mul_toNat hp
  rw [← hd] at hpage
  refine ⟨hs.installed hb, ?_, ?_, ?_, hm⟩
  · simpa [Chip.execute] using hs.flash
  · rw [hs.buffer, Chip.execute, if_pos rfl]
    simp only [hpage]
  · rw [Chip.programmed, hs.log, Chip.programmed]
    rfl

theorem dataFlashWriteBuffer_spec {b : Board} (hb : Installed b) {src address size : Word}
    (ha : address.toNat < 264) :
    wp (dataFlashWriteBuffer dbBuf1Write src address size) (fun _ t => Installed t ∧
      t.chip.flash = b.chip.flash ∧
      t.chip.buffer = shiftIn address.toNat size.toNat (view b.mem src) b.chip.buffer ∧
      t.chip.programmed = b.chip.programmed ∧
      ∀ a, size.toNat ≤ (a - src).toNat → t.mem a = b.mem a) never b := by
  have hbad : ¬ at45db041Features.pagesSize < address := by
    rw [BitVec.lt_def, show at45db041Features.pagesSize.toNat = 264 from rfl]
    omega
  have hcode : ¬ bufferBytes at45db041Features dbBuf1Write address b.desc.command 0 = dbStatus := by
    change ¬ dbBuf1Write = dbStatus
    decide
  simp only [dataFlashWriteBuffer, wp_bind, wp_get, hb.device, if_neg hbad, hb.idle, ne_eq,
    not_true_eq_false, false_and, if_false, wp_modify]
  apply wp_post (spiWrite_spec _ hcode)
  rintro r t ⟨-, hs, hm⟩
  simp only [decode_bufferBytes _ _ _ ha] at hs hm
  refine ⟨⟨hs.device, hs.idle⟩, ?_, ?_, ?_, ?_⟩
  · simpa [Chip.execute] using hs.flash
  · simpa [Chip.execute] using hs.buffer
  · rw [Chip.programmed, hs.log, Chip.programmed]
    rfl
  · intro a hlt
    rw [hm]
    split
    · rfl
    · exact if_neg (Nat.not_lt.mpr hlt)

theorem pageErase_spec {b : Board} (hb : Installed b) {page : Word}
    (hp : page.toNat * 264 < 2 ^ 32) :
    wp (pageErase page) (fun r t => r = dataflashOk ∧ Installed t ∧
      t.chip.flash = erasePage (page.toNat % 2048) b.chip.flash ∧
      t.chip.buffer = b.chip.buffer ∧
      t.chip.programmed = b.chip.programmed ∧ t.mem = b.mem) never b := by
  have hd : (b.device.pagesSize) = at45db041Features.pagesSize := by rw [hb.device]
  have h := sendCommand_quiet hb dbPageErase (by decide) (page * b.device.pagesSize)
  simp only [pageErase, wp_bind, wp_modify, wp_get] at h ⊢
  apply wp_post h
  rintro r t ⟨hr, hs, hm⟩
  have hpage := page_mul_toNat hp
  rw [← hd] at hpage
  refine ⟨hr, hs.installed hb, ?_, ?_, ?_, hm⟩
  · rw [hs.flash, ← hpage]
    rfl
  · simpa [Chip.execute] using hs.buffer
  · rw [Chip.programmed, hs.log, Chip.programmed]
    rfl

theorem writeBufferToMain_spec {b : Board} (hb : Installed b) {op : Byte}
    (hop : op = dbBuf1PagePgm ∨ op = dbBuf1PageErasePgm) (dest : Word) :
    wp (writeBufferToMain op dest) (fun r t => r = dataflashOk ∧ Installed t ∧
      t.chip.flash = programPage (dest.toNat / 264 % 2048) b.chip.buffer
        (if op = dbBuf1PagePgm then b.chip.flash
          else erasePage (dest.toNat / 264 % 2048) b.chip.flash) ∧
      t.chip.programmed = dest.toNat / 264 % 2048 :: b.chip.programmed ∧
      t.mem = b.mem) never b := by
  have hcmd : ¬ (op ≠ dbBuf1PagePgm ∧ op ≠ dbBuf1PageErasePgm ∧ op ≠ dbBuf2PagePgm ∧
      op ≠ dbBuf2PageErasePgm) := by
    rcases hop with rfl | rfl <;> decide
  have hst : op ≠ dbStatus := by rcases hop with rfl | rfl <;> decide
  have h := sendCommand_quiet hb _ hst dest
  simp only [writeBufferToMain, if_neg hcmd, wp_bind, wp_modify, wp_get] at h ⊢
  apply wp_post h
  rintro r t ⟨hr, hs, hm⟩
  refine ⟨hr, hs.installed hb, ?_, ?_, hm⟩
  · rw [hs.flash]
    rcases hop with rfl | rfl <;> rfl
  · rw [Chip.programmed, hs.log, Chip.programmed]
    rcases hop with rfl | rfl <;> rfl

end Armboard.DataFlash
