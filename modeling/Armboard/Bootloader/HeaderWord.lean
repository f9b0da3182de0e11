import Armboard.Bootloader.BootSection
import Mathlib.Data.Nat.Log

/-! # The boot header word

Command 1 stores one word at offset 0x14 of the image. The boot ROM takes it apart into
a count of blocks, the logarithm of the page count and the page size, while the boot
loader adds the three up. No sum carries, so the word is the fields side by side.
-/

namespace Armboard.Bootloader
open Exec DataFlash Storage

/-! ## The fields -/

/-- The fields of the word, as wide as the boot ROM takes them. -/
structure Header where
  blocks : BitVec 13
  pagesLog : BitVec 4
  pagesSize : BitVec 14

/-- The fields side by side, below a zero. -/
def Header.encode (h : Header) : Word := (0 : BitVec 1) ++ h.pagesSize ++ h.pagesLog ++ h.blocks

/-- The fields are right for a device and an image of `size` bytes. -/
structure Header.Describes (h : Header) (pagesNumber pagesSize size : Word) : Prop where
  blocks_low : 512 * (h.blocks.toNat - 1) ≤ size.toNat
  blocks_high : size.toNat < 512 * h.blocks.toNat
  pagesLog : h.pagesLog.toNat = Nat.log 2 pagesNumber.toNat
  pagesSize : h.pagesSize.toNat = pagesSize.toNat

theorem Header.encode_toNat (h : Header) :
    h.encode.toNat = h.blocks.toNat + h.pagesLog.toNat * 2 ^ 13 + h.pagesSize.toNat * 2 ^ 17 := by
  have hb := h.blocks.isLt
  have hl := h.pagesLog.isLt
  rw [encode, BitVec.toNat_append, BitVec.toNat_append, BitVec.toNat_append,
    Nat.shiftLeft_eq, Nat.shiftLeft_eq, Nat.shiftLeft_eq]
  rw [show (0 : BitVec 1).toNat = 0 from rfl, Nat.zero_mul, Nat.zero_or]
  rw [Nat.mul_comm _ (2 ^ 4), ← Nat.two_pow_add_eq_or_of_lt hl, Nat.mul_comm _ (2 ^ 13),
    ← Nat.two_pow_add_eq_or_of_lt hb]
  omega

theorem Header.encode_injective {h h' : Header} (he : h'.encode = h.encode) : h' = h := by
  have hsum := congrArg BitVec.toNat he
  rw [encode_toNat, encode_toNat] at hsum
  have hb := h.blocks.isLt
  have hl := h.pagesLog.isLt
  have hb' := h'.blocks.isLt
  have hl' := h'.pagesLog.isLt
  cases h with
  | mk b l p =>
    cases h' with
    | mk b' l' p' =>
      congr 1
      · apply BitVec.eq_of_toNat_eq
        dsimp only at *
        omega
      · apply BitVec.eq_of_toNat_eq
        dsimp only at *
        omega
      · apply BitVec.eq_of_toNat_eq
        dsimp only at *
        omega

/-! ## The logarithm -/

theorem sshiftRight_one_toNat {i : Word} (h : i.toNat < 2 ^ 31) :
    (i.sshiftRight 1).toNat = i.toNat / 2 := by
  have hmsb : i.msb = false := by
    rw [BitVec.msb_eq_decide]
    exact decide_eq_false (by omega)
  rw [BitVec.sshiftRight_eq_of_msb_false hmsb, BitVec.toNat_ushiftRight, Nat.shiftRight_eq_div_pow,
    Nat.pow_one]

/-- The loop ends with the logarithm of a count that is a positive `int`. -/
theorem countPages_log (fuel : ℕ) : ∀ i nbPage : Word, 0 < i.toNat → i.toNat < 2 ^ 31 →
    i.toNat < 2 ^ fuel →
    countPages fuel i nbPage = pure (nbPage + BitVec.ofNat 32 (Nat.log 2 i.toNat)) := by
  induction fuel with
  | zero =>
    intro i nbPage hpos _ hfuel
    omega
  | succ fuel ih =>
    intro i nbPage hpos hint hfuel
    have hhalf := sshiftRight_one_toNat hint
    rw [countPages]
    by_cases hone : i.toNat / 2 = 0
    · have hzero : i.sshiftRight 1 = 0 := BitVec.eq_of_toNat_eq (by rw [hhalf, hone]; rfl)
      have hlog : Nat.log 2 i.toNat = 0 := Nat.log_of_lt (by omega)
      rw [if_pos hzero, hlog]
      simp
    · have hne : i.sshiftRight 1 ≠ 0 := fun h => hone (by rw [← hhalf, h]; rfl)
      have hlog : Nat.log 2 i.toNat = Nat.log 2 (i.toNat / 2) + 1 :=
        Nat.log_of_one_lt_of_le Nat.one_lt_two (by omega)
      rw [if_neg hne, ih _ _ (by omega) (by omega) (by omega), hhalf, hlog, BitVec.ofNat_add,
        BitVec.add_assoc, BitVec.add_comm 1]
      rfl

/-! ## The word -/

/-- The fields that the boot loader adds up. -/
def headerOf (size pagesNumber pagesSize : Word) : Header where
  blocks := BitVec.ofNat 13 (size.toNat / 512 + 1)
  pagesLog := BitVec.ofNat 4 (Nat.log 2 pagesNumber.toNat)
  pagesSize := pagesSize.setWidth 14

variable {size pagesNumber pagesSize : Word}

theorem log_pages_lt (h : pagesNumber.toNat ≤ 65535) : Nat.log 2 pagesNumber.toNat < 16 := by
  rcases Nat.eq_zero_or_pos pagesNumber.toNat with hz | hpos
  · rw [hz]
    decide
  · exact Nat.log_lt_of_lt_pow (by omega) (by omega)

theorem headerOf_describes (hpages : pagesNumber.toNat ≤ 65535) (hpage : pagesSize.toNat < 2 ^ 14)
    (hsize : size.toNat ≤ 8191 * 512 - 1) :
    (headerOf size pagesNumber pagesSize).Describes pagesNumber pagesSize size := by
  have hlog := log_pages_lt hpages
  have hblocks : (headerOf size pagesNumber pagesSize).blocks.toNat = size.toNat / 512 + 1 := by
    rw [headerOf, BitVec.toNat_ofNat]
    omega
  constructor
  · rw [hblocks]
    omega
  · rw [hblocks]
    omega
  · rw [headerOf, BitVec.toNat_ofNat]
    omega
  · rw [headerOf, BitVec.toNat_setWidth]
    omega

theorem vector6_eq (hpages : pagesNumber.toNat ≤ 65535) (hpage : pagesSize.toNat < 2 ^ 14)
    (hsize : size.toNat ≤ 8191 * 512 - 1) :
    vector6 size (BitVec.ofNat 32 (Nat.log 2 pagesNumber.toNat)) pagesSize =
      (headerOf size pagesNumber pagesSize).encode := by
  have hlog := log_pages_lt hpages
  have hd := headerOf_describes hpages hpage hsize
  apply BitVec.eq_of_toNat_eq
  rw [Header.encode_toNat, hd.pagesLog, hd.pagesSize]
  have hblocks : (headerOf size pagesNumber pagesSize).blocks.toNat = size.toNat / 512 + 1 := by
    have hlow := hd.blocks_low
    have hhigh := hd.blocks_high
    omega
  rw [hblocks, vector6]
  simp only [BitVec.toNat_add, BitVec.toNat_shiftLeft, BitVec.toNat_udiv, BitVec.toNat_ofNat,
    Nat.shiftLeft_eq, BitVec.reduceToNat]
  omega

/-! ## The patch -/

/-- The part of `update` that makes and stores the word. -/
def modifyVector6 (downloadSize : Word) : Monitor Unit := do
  let w ← get
  let nbPage ← countPages 32 w.board.device.pagesNumber 0
  let i := vector6 downloadSize nbPage w.board.device.pagesSize
  setMem fun m => store m (downloadBase + offsetVect6) 4 (wordBytes i)
  printf "\n\rModification of Arm Vector 6 :%x\n\r" [.word i]

/-- The part of `update` behind it. -/
def writeAndVerify {γ : Type} [DecidableEq γ] (rom : Rom γ) (arg downloadSize : Word) :
    Monitor Unit := do
  printf "\n\rWrite %d bytes in DataFlash [0x%x]\n\r" [.word downloadSize, .word arg]
  let w ← get
  let crc1 := rom.crc32 (crcBytes w.board.mem downloadSize)
  let _ ← writeFlash arg downloadBase downloadSize
  setMem fun m => store m downloadBase downloadSize.toNat (fun _ => 0)
  let _ ← onBoard (readDataflash arg downloadSize downloadBase)
  printf "Verify Dataflash: " []
  let w ← get
  let crc2 := rom.crc32 (crcBytes w.board.mem downloadSize)
  printf (if crc1 ≠ crc2 then "Failed\n\r" else "OK\n\r") []
  waitKeyPressed

theorem update_eq {γ : Type} [DecidableEq γ] (rom : Rom γ) (arg downloadSize : Word) :
    update rom arg downloadSize =
      modifyVector6 downloadSize >>= fun _ => writeAndVerify rom arg downloadSize := by
  simp only [update, modifyVector6, writeAndVerify, bind_assoc]

def World.patch (w : World) (i : Word) : World := { w with
  board := { w.board with
    mem := store w.board.mem (downloadBase + offsetVect6) 4 (wordBytes i) }
  output := .printf "\n\rModification of Arm Vector 6 :%x\n\r" [.word i] :: w.output }

/-- For every page count, page size and image the loop ends, and command 1 stores a word with one
decoding, whose fields describe the device and the image. -/
theorem update_headerWord {γ : Type} [DecidableEq γ] (rom : Rom γ) (arg size : Word) (w : World)
    (hpos : 1 ≤ w.board.device.pagesNumber.toNat)
    (hpages : w.board.device.pagesNumber.toNat ≤ 65535)
    (hpage : w.board.device.pagesSize.toNat < 2 ^ 14) (hsize : size.toNat ≤ 8191 * 512 - 1) :
    ∃ h : Header, update rom arg size w = writeAndVerify rom arg size (w.patch h.encode) ∧
      h.Describes w.board.device.pagesNumber w.board.device.pagesSize size ∧
      ∀ h' : Header, h'.encode = h.encode → h' = h := by
  refine ⟨headerOf size w.board.device.pagesNumber w.board.device.pagesSize, ?_,
    headerOf_describes hpages hpage hsize, fun _ => Header.encode_injective⟩
  have hcount : countPages 32 w.board.device.pagesNumber 0 =
      pure (BitVec.ofNat 32 (Nat.log 2 w.board.device.pagesNumber.toNat)) := by
    rw [countPages_log 32 _ 0 hpos (by omega) (by omega)]
    simp
  have hpatch : modifyVector6 size w = .ok () (w.patch
      (headerOf size w.board.device.pagesNumber w.board.device.pagesSize).encode) := by
    have hget : (get : Monitor World) w = .ok w w := rfl
    rw [← vector6_eq hpages hpage hsize, modifyVector6, bind_ok hget, hcount]
    rfl
  rw [update_eq, bind_ok hpatch]

def probedWorld : World := { careless with board := freshBoard (fun _ => 0) (fun _ => 0) }

/-- An image of 64 KiB for the AT45DB041. -/
theorem update_headerWord_at45 : ∃ h : Header, update plainRom 0x8000 0x10000 probedWorld =
      writeAndVerify plainRom 0x8000 0x10000 (probedWorld.patch h.encode) ∧
    h.Describes 2048 264 0x10000 ∧ ∀ h' : Header, h'.encode = h.encode → h' = h :=
  update_headerWord plainRom 0x8000 0x10000 probedWorld (by decide) (by decide) (by decide)
    (by decide)

end Armboard.Bootloader
