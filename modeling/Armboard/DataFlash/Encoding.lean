import Armboard.DataFlash.Commands
import Armboard.DataFlash.Init
import Armboard.Storage.Packing
import Armboard.Text.Numeral

/-! # Address bytes

For any geometry the address bytes of a command are page and byte packed into one
number, and the commands for two addresses are ordered as the addresses are. The
AT45DB041 is one case.
-/

namespace Armboard.DataFlash
open Exec Storage Text Bits

/-! ## What the bytes say -/

def bigEndian (bytes : List Byte) : ℕ := horner 256 (bytes.map BitVec.toNat) 0

def Features.addressBytes (d : Features) (command : ℕ → Byte) : List Byte :=
  if d.large then [command 1, command 2, command 3, command 4]
  else [command 1, command 2, command 3]

def Features.lowBytes (d : Features) (command : ℕ → Byte) : List Byte :=
  (d.addressBytes command).drop ((d.addressBytes command).length - 2)

/-- `adr` of `AT91F_DataFlashSendCommand`. -/
def Features.adr (d : Features) (addr : Word) : Word :=
  ((addr / d.pagesSize) <<< d.pageOffset.toNat) + addr % d.pagesSize

def Features.sentAddress (d : Features) (op : Byte) (addr : Word) : ℕ :=
  bigEndian (d.addressBytes (commandBytes d.large op (d.adr addr)))

/-- Pages fit in their field, and the packed addresses in the bytes that the command has. -/
structure Geometry (d : Features) : Prop where
  pagesSize_pos : 1 ≤ d.pagesSize.toInt
  pagesSize_le : d.pagesSize.toInt ≤ 2 ^ d.pageOffset.toNat
  fields_le : d.pagesNumber.toInt * 2 ^ d.pageOffset.toNat ≤
    if d.pagesNumber.toInt < 16384 then 2 ^ 24 else 2 ^ 28

def Features.InArray (d : Features) (addr : Word) : Prop :=
  (addr.toNat : ℤ) < d.pagesNumber.toInt * d.pagesSize.toInt

instance (d : Features) (addr : Word) : Decidable (d.InArray addr) :=
  inferInstanceAs (Decidable (_ < _))

/-- The mask has every bit of a byte address beyond the low eight. -/
def Features.MaskCovers (d : Features) : Prop :=
  ∀ i, 8 ≤ i → (2 ^ i : ℤ) ≤ d.pagesSize.toInt - 1 → d.byteMask.getLsbD i = true

theorem bigEndian_two (x y : Byte) : bigEndian [x, y] = x.toNat * 256 + y.toNat := by
  simp [bigEndian, horner]

theorem bigEndian_three (w x y : Byte) :
    bigEndian [w, x, y] = w.toNat * 65536 + x.toNat * 256 + y.toNat := by
  simp only [bigEndian, horner, List.map_cons, List.map_nil, List.foldl_cons, List.foldl_nil]
  omega

theorem bigEndian_four (v w x y : Byte) :
    bigEndian [v, w, x, y] = ((v.toNat * 256 + w.toNat) * 256 + x.toNat) * 256 + y.toNat := by
  simp [bigEndian, horner]

theorem addressBytes_large {d : Features} (hlarge : d.large = true) (op : Byte) {adr : Word}
    (hadr : adr.toNat < 2 ^ 28) :
    bigEndian (d.addressBytes (commandBytes d.large op adr)) = adr.toNat := by
  have htop : ∀ i < 8, adr.getLsbD (24 + i) = true →
      (0x0F000000 : Word).getLsbD (24 + i) = true := by
    intro i hi hbit
    have hle : 2 ^ (24 + i) ≤ adr.toNat := Nat.ge_two_pow_of_testBit hbit
    have hlt : 24 + i < 28 := (Nat.pow_lt_pow_iff_right (by omega)).mp (hle.trans_lt hadr)
    interval_cases i <;> simp_all
  rw [Features.addressBytes, if_pos hlarge, bigEndian_four]
  simp only [hlarge, commandBytes, if_true]
  rw [toNat_field adr 0x0F000000 24 8 htop, thirdByte_toNat, secondByte_toNat, lowByte_toNat]
  omega

theorem addressBytes_small {d : Features} (hlarge : d.large = false) (op : Byte) {adr : Word}
    (hadr : adr.toNat < 2 ^ 24) :
    bigEndian (d.addressBytes (commandBytes d.large op adr)) = adr.toNat := by
  have h := address_commandBytes op adr
  rw [Nat.mod_eq_of_lt hadr, address] at h
  rw [Features.addressBytes, hlarge, if_neg Bool.false_ne_true, bigEndian_three]
  exact h

/-! ## The geometry -/

namespace Geometry
variable {d : Features} (hd : Geometry d)
include hd

theorem pagesSize_toNat : (d.pagesSize.toNat : ℤ) = d.pagesSize.toInt := by
  have hpos := hd.pagesSize_pos
  rw [BitVec.toInt_eq_toNat_cond] at hpos ⊢
  split <;> omega

theorem pagesSize_pos' : 0 < d.pagesSize.toNat := by
  have h := hd.pagesSize_toNat
  have hpos := hd.pagesSize_pos
  omega

theorem pagesSize_le_field : d.pagesSize.toNat ≤ 2 ^ d.pageOffset.toNat := by
  have h := hd.pagesSize_le
  rw [← hd.pagesSize_toNat] at h
  exact_mod_cast h

theorem pagesNumber_pos {addr : Word} (haddr : d.InArray addr) : 0 < d.pagesNumber.toInt := by
  by_contra hle
  have hpos := hd.pagesSize_pos
  have hprod : d.pagesNumber.toInt * d.pagesSize.toInt ≤ 0 :=
    mul_nonpos_of_nonpos_of_nonneg (by omega) (by omega)
  rw [Features.InArray] at haddr
  omega

theorem inArray_toNat {addr : Word} (haddr : d.InArray addr) :
    addr.toNat < d.pagesNumber.toInt.toNat * d.pagesSize.toNat := by
  have hpages := hd.pagesNumber_pos haddr
  rw [Features.InArray, ← hd.pagesSize_toNat, ← Int.toNat_of_nonneg hpages.le] at haddr
  exact_mod_cast haddr

/-- What is packed for an address of the array fits in the address bytes. -/
theorem pack_lt_fields {addr : Word} (haddr : d.InArray addr) :
    pack d.pagesSize.toNat (2 ^ d.pageOffset.toNat) addr.toNat <
      if d.large then 2 ^ 28 else 2 ^ 24 := by
  have hpages := hd.pagesNumber_pos haddr
  have hlt := pack_lt hd.pagesSize_pos' hd.pagesSize_le_field (hd.inArray_toNat haddr)
  have hfields := hd.fields_le
  rw [← Int.toNat_of_nonneg hpages.le] at hfields
  by_cases hlarge : 16384 ≤ d.pagesNumber.toInt
  · have hl : d.large = true := decide_eq_true hlarge
    rw [if_neg (by omega)] at hfields
    rw [hl, if_pos rfl]
    exact lt_of_lt_of_le hlt (by exact_mod_cast hfields)
  · have hl : d.large = false := decide_eq_false hlarge
    rw [if_pos (by omega)] at hfields
    rw [hl, if_neg Bool.false_ne_true]
    exact lt_of_lt_of_le hlt (by exact_mod_cast hfields)

theorem adr_toNat {addr : Word} (haddr : d.InArray addr) :
    (d.adr addr).toNat = pack d.pagesSize.toNat (2 ^ d.pageOffset.toNat) addr.toNat := by
  have hlt : pack d.pagesSize.toNat (2 ^ d.pageOffset.toNat) addr.toNat < 2 ^ 32 := by
    have h := hd.pack_lt_fields haddr
    split at h <;> omega
  rw [pack] at hlt ⊢
  have hpage : addr.toNat / d.pagesSize.toNat * 2 ^ d.pageOffset.toNat < 2 ^ 32 := by omega
  rw [Features.adr, BitVec.toNat_add, BitVec.toNat_shiftLeft, BitVec.toNat_udiv, BitVec.toNat_umod,
    Nat.shiftLeft_eq, Nat.mod_eq_of_lt hpage, Nat.mod_eq_of_lt hlt]

/-- The address bytes are page and byte, each in its field. -/
theorem sentAddress_eq {addr : Word} (haddr : d.InArray addr) (op : Byte) :
    d.sentAddress op addr = pack d.pagesSize.toNat (2 ^ d.pageOffset.toNat) addr.toNat := by
  have hlt := hd.pack_lt_fields haddr
  rw [← hd.adr_toNat haddr] at hlt ⊢
  rw [Features.sentAddress]
  cases hlarge : d.large
  · rw [hlarge, if_neg Bool.false_ne_true] at hlt
    rw [← hlarge, addressBytes_small hlarge op hlt]
  · rw [hlarge, if_pos rfl] at hlt
    rw [← hlarge, addressBytes_large hlarge op hlt]

end Geometry

/-! ## The buffer address -/

/-- The mask of a geometry with small pages keeps the upper byte of an address in the page. -/
theorem lowBytes_bufferBytes {d : Features} (hsize : d.pagesSize.toInt ≤ 2 ^ 16)
    (hmask : d.MaskCovers) (op : Byte) {a : Word} (ha : (a.toNat : ℤ) < d.pagesSize.toInt)
    (old : ℕ → Byte) : bigEndian (d.lowBytes (bufferBytes d op a old)) = a.toNat := by
  have hhigh : ∀ i < 8, a.getLsbD (8 + i) = true → d.byteMask.getLsbD (8 + i) = true := by
    intro i _ hbit
    have hle : 2 ^ (8 + i) ≤ a.toNat := Nat.ge_two_pow_of_testBit hbit
    have hle' : (2 : ℤ) ^ (8 + i) ≤ a.toNat := by exact_mod_cast hle
    exact hmask (8 + i) (by omega) (by omega)
  have hbytes : d.lowBytes (bufferBytes d op a old) =
      [((a &&& d.byteMask) >>> 8).setWidth 8, (a &&& 0x00FF).setWidth 8] := by
    cases hlarge : d.large <;> simp [Features.lowBytes, Features.addressBytes, bufferBytes, hlarge]
  rw [hbytes, bigEndian_two, toNat_field a d.byteMask 8 8 hhigh, lowByte_toNat]
  omega

/-! ## The commands -/

/-- Before the transfer starts. -/
def Board.prepared (b : Board) (command : ℕ → Byte) (size : Word) : Board :=
  { b with desc := { b.desc with command := command, txCmdSize := size, rxCmdSize := size } }

theorem dataFlashSendCommand_eq {b : Board} (hidle : b.desc.state = idle)
    (hsize : b.device.pagesSize ≠ 0) (op : Byte) (n addr : Word) :
    dataFlashSendCommand op n addr b =
      spiWrite (b.prepared (commandBytes b.device.large op (b.device.adr addr)) n) := by
  have hget : (get : Driver Board) b = .ok b b := rfl
  have hdiv : divisor b = .ok b.device.pagesSize b := by
    rw [divisor, bind_ok hget, if_neg hsize]
    rfl
  rw [dataFlashSendCommand, bind_ok hget, if_neg (by simp [hidle]), bind_ok hdiv]
  rfl

theorem dataFlashWriteBuffer_eq {b : Board} (hidle : b.desc.state = idle) {op : Byte}
    (hop : op = dbBuf1Write ∨ op = dbBuf2Write) {a : Word} (ha : a ≤ b.device.pagesSize)
    (src size : Word) :
    dataFlashWriteBuffer op src a size b =
      spiWrite { b.prepared (bufferBytes b.device op a b.desc.command) b.device.cmdSize with
        desc := { (b.prepared (bufferBytes b.device op a b.desc.command) b.device.cmdSize).desc with
          rxDataPt := src, txDataPt := src, rxDataSize := size, txDataSize := size } } := by
  have hget : (get : Driver Board) b = .ok b b := rfl
  rw [dataFlashWriteBuffer, bind_ok hget, if_neg (by tauto), if_neg (BitVec.not_lt.mpr ha),
    if_neg (by simp [hidle])]
  rfl

/-! ## Any geometry -/

/-- What the bytes say, and that it tells addresses apart and keeps their order. -/
theorem addressBytes_faithful (b : Board) (hidle : b.desc.state = idle)
    (hgeometry : Geometry b.device) :
    (∀ (op : Byte) (n addr : Word), b.device.InArray addr →
      dataFlashSendCommand op n addr b =
        spiWrite (b.prepared (commandBytes b.device.large op (b.device.adr addr)) n) ∧
      bigEndian (b.device.addressBytes (commandBytes b.device.large op (b.device.adr addr))) =
        addr.toNat / b.device.pagesSize.toNat * 2 ^ b.device.pageOffset.toNat +
          addr.toNat % b.device.pagesSize.toNat ∧
      b.device.sentAddress op addr / 2 ^ b.device.pageOffset.toNat =
        addr.toNat / b.device.pagesSize.toNat ∧
      b.device.sentAddress op addr % 2 ^ b.device.pageOffset.toNat =
        addr.toNat % b.device.pagesSize.toNat) ∧
    (∀ (op op' : Byte) (addr addr' : Word), b.device.InArray addr → b.device.InArray addr' →
      (b.device.sentAddress op addr = b.device.sentAddress op' addr' → addr = addr') ∧
      (addr.toNat < addr'.toNat → b.device.sentAddress op addr < b.device.sentAddress op' addr')) ∧
    (b.device.pagesSize.toInt ≤ 2 ^ 16 → b.device.MaskCovers →
      ∀ (op : Byte) (src a size : Word), op = dbBuf1Write ∨ op = dbBuf2Write →
        (a.toNat : ℤ) < b.device.pagesSize.toInt →
        dataFlashWriteBuffer op src a size b =
          spiWrite { b.prepared (bufferBytes b.device op a b.desc.command) b.device.cmdSize with
            desc := { (b.prepared (bufferBytes b.device op a b.desc.command) b.device.cmdSize).desc
              with rxDataPt := src, txDataPt := src, rxDataSize := size, txDataSize := size } } ∧
        bigEndian (b.device.lowBytes (bufferBytes b.device op a b.desc.command)) = a.toNat) := by
  have hpos := hgeometry.pagesSize_pos'
  have hfield := hgeometry.pagesSize_le_field
  have hne : b.device.pagesSize ≠ 0 := fun hzero => by simp [hzero] at hpos
  have hmono := pack_strictMono hpos hfield
  apply And.intro
  · intro op n addr haddr
    have hsent := hgeometry.sentAddress_eq haddr op
    rw [hsent, pack_div hpos hfield, pack_mod hpos hfield]
    exact ⟨dataFlashSendCommand_eq hidle hne op n addr, hsent, rfl, rfl⟩
  apply And.intro
  · intro op op' addr addr' haddr haddr'
    rw [hgeometry.sentAddress_eq haddr op, hgeometry.sentAddress_eq haddr' op']
    exact ⟨fun h => BitVec.eq_of_toNat_eq (hmono.injective h), fun h => hmono h⟩
  · intro hsize hmask op src a size hop ha
    have hle : a ≤ b.device.pagesSize := by
      rw [← hgeometry.pagesSize_toNat] at ha
      rw [BitVec.le_def]
      omega
    exact ⟨dataFlashWriteBuffer_eq hidle hop hle src size,
      lowBytes_bufferBytes hsize hmask op ha b.desc.command⟩

theorem at45db041_geometry : Geometry at45db041Features := ⟨by decide, by decide, by decide⟩

theorem at45db041_maskCovers : at45db041Features.MaskCovers := by
  intro i hi hle
  have hlt : i < 9 := by
    by_contra hge
    have hpow : (2 : ℤ) ^ 9 ≤ 2 ^ i := pow_le_pow_right₀ (by omega) (by omega)
    have hsize : at45db041Features.pagesSize.toInt = 264 := by decide
    omega
  have heq : i = 8 := by omega
  rw [heq]
  decide

/-- Byte 208 of page 3 of an AT45DB041, and the last byte of its buffer. -/
theorem addressBytes_faithful_at45db041 :
    at45db041Features.sentAddress dbContinuousArrayRead 1000 / 2 ^ 9 = 3 ∧
    at45db041Features.sentAddress dbContinuousArrayRead 1000 % 2 ^ 9 = 208 ∧
    at45db041Features.sentAddress dbContinuousArrayRead 1000 <
      at45db041Features.sentAddress dbContinuousArrayRead 1056 ∧
    bigEndian (at45db041Features.lowBytes
      (bufferBytes at45db041Features dbBuf1Write 263 fun _ => 0)) = 263 := by
  have h := addressBytes_faithful (freshBoard (fun _ => 0xFF) fun _ => 0) rfl at45db041_geometry
  have hsent := h.1 dbContinuousArrayRead 8 1000 (by decide)
  have horder := h.2.1 dbContinuousArrayRead dbContinuousArrayRead 1000 1056 (by decide) (by decide)
  have hbuffer := h.2.2 (by decide) at45db041_maskCovers dbBuf1Write 0 263 1 (.inl rfl) (by decide)
  exact ⟨hsent.2.2.1, hsent.2.2.2, horder.2 (by decide), hbuffer.2⟩

end Armboard.DataFlash
