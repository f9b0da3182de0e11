import Armboard.Mmc.Fields
import Armboard.Mmc.Register

/-! # The capacity of a card

`mmc_init` computes the number of blocks with the formula of structure version 1 and
for blocks of 512 bytes. That is right for cards of this version with READ_BL_LEN 9
and for no others: larger read blocks change the unit, and version 2 has no
C_SIZE_MULT, so that it is read uninitialised.
-/

namespace Armboard.Mmc
open Exec

/-! ## What the CSD says -/

/-- CSD_STRUCTURE, which is one less than the version. -/
def structureOf (csd : BitVec 128) : ℕ := (csd.extractLsb' 126 2).toNat

def readBlLenOf (csd : BitVec 128) : ℕ := (csd.extractLsb' 80 4).toNat

def capacityOf (csd : BitVec 128) : ℕ :=
  if structureOf csd = 0 then
    ((csd.extractLsb' 62 12).toNat + 1) * 2 ^ ((csd.extractLsb' 47 3).toNat + 2) * 2 ^ readBlLenOf csd
  else ((csd.extractLsb' 48 22).toNat + 1) * (512 * 1024)

/-- The block device has the capacity of the card, and its number of blocks is computed without
wrapping, from fields that were set. -/
structure CapacityRight (stack : Stack) (raw : List Word) (b : BlockDev) : Prop where
  capacity : b.lba.toNat * b.blksz.toNat = capacityOf (rawBits raw)
  noWrap : ((mmcParseCsd stack.csd (respArray raw stack.aroundCsdRaw)).cSize.toNat + 1) *
    2 ^ ((mmcParseCsd stack.csd (respArray raw stack.aroundCsdRaw)).cSizeMult.toNat + 2) < 2 ^ 32
  setFields : ∀ csd, numBlocks (mmcParseCsd csd (respArray raw stack.aroundCsdRaw)) = b.lba

/-! ## Parsed fields -/

theorem numBlocks_toNat (csd : Csd)
    (h : (csd.cSize.toNat + 1) * 2 ^ (csd.cSizeMult.toNat + 2) < 2 ^ 32) :
    (numBlocks csd).toNat = (csd.cSize.toNat + 1) * 2 ^ (csd.cSizeMult.toNat + 2) := by
  have hpos : 0 < 2 ^ (csd.cSizeMult.toNat + 2) := Nat.two_pow_pos _
  have hsize : csd.cSize.toNat + 1 < 2 ^ 32 := lt_of_le_of_lt (Nat.le_mul_of_pos_right _ hpos) h
  have hmult : 2 ^ (csd.cSizeMult.toNat + 2) < 2 ^ 32 :=
    lt_of_le_of_lt (Nat.le_mul_of_pos_left _ (Nat.succ_pos _)) h
  have hadd : (csd.cSize + 1).toNat = csd.cSize.toNat + 1 := by
    rw [BitVec.toNat_add]
    exact Nat.mod_eq_of_lt hsize
  have hshift : ((1 : Word) <<< (csd.cSizeMult.toNat + 2)).toNat = 2 ^ (csd.cSizeMult.toNat + 2) := by
    rw [BitVec.toNat_shiftLeft, Nat.shiftLeft_eq]
    exact (congrArg (· % 2 ^ 32) (Nat.one_mul _)).trans (Nat.mod_eq_of_lt hmult)
  rw [numBlocks, BitVec.toNat_mul, hadd, hshift, Nat.mod_eq_of_lt h]

section
variable (csd : Csd) (raw : List Word) (around : ℤ → Word)

theorem csdStructure_iff : (unstuffBits (respArray raw around) 126 2).setWidth 8 = (0 : Byte) ↔
    structureOf (rawBits raw) = 0 := by
  rw [← BitVec.toNat_inj, toNat_byteField (by omega) (by omega) (by omega), responseBits_respArray]
  rfl

theorem mmcParseCsd_v1 (h : structureOf (rawBits raw) = 0) :
    (mmcParseCsd csd (respArray raw around)).cSize = unstuffBits (respArray raw around) 62 12 ∧
      (mmcParseCsd csd (respArray raw around)).cSizeMult =
        (unstuffBits (respArray raw around) 47 3).setWidth 8 := by
  have hbyte := (csdStructure_iff raw around).mpr h
  simp only [mmcParseCsd]
  rw [if_pos hbyte]
  exact ⟨rfl, rfl⟩

/-- With structure version 2 the multiplier is what it was before. -/
theorem mmcParseCsd_v2 (h : structureOf (rawBits raw) ≠ 0) :
    (mmcParseCsd csd (respArray raw around)).cSize = unstuffBits (respArray raw around) 48 22 ∧
      (mmcParseCsd csd (respArray raw around)).cSizeMult = csd.cSizeMult := by
  have hbyte := mt (csdStructure_iff raw around).mp h
  simp only [mmcParseCsd]
  rw [if_neg hbyte]
  exact ⟨rfl, rfl⟩

end

variable {stack : Stack} {raw : List Word} {b : BlockDev}

/-- For structure version 1 the number of blocks is the capacity in units of 2 ^ READ_BL_LEN. -/
theorem numBlocks_v1 (csd : Csd) (around : ℤ → Word) (h : structureOf (rawBits raw) = 0) :
    ((mmcParseCsd csd (respArray raw around)).cSize.toNat + 1) *
        2 ^ ((mmcParseCsd csd (respArray raw around)).cSizeMult.toNat + 2) < 2 ^ 32 ∧
      (numBlocks (mmcParseCsd csd (respArray raw around))).toNat * 2 ^ readBlLenOf (rawBits raw) =
        capacityOf (rawBits raw) := by
  rcases mmcParseCsd_v1 csd raw around h with ⟨hsize, hmult⟩
  have hsizeNat : (mmcParseCsd csd (respArray raw around)).cSize.toNat =
      ((rawBits raw).extractLsb' 62 12).toNat := by
    rw [hsize, toNat_unstuffBits (by omega) (by omega) (by omega), responseBits_respArray]
  have hmultNat : (mmcParseCsd csd (respArray raw around)).cSizeMult.toNat =
      ((rawBits raw).extractLsb' 47 3).toNat := by
    rw [hmult, toNat_byteField (by omega) (by omega) (by omega), responseBits_respArray]
  have hlt : ((rawBits raw).extractLsb' 62 12).toNat < 2 ^ 12 := BitVec.isLt _
  have hlt' : ((rawBits raw).extractLsb' 47 3).toNat < 2 ^ 3 := BitVec.isLt _
  have hprod : (((rawBits raw).extractLsb' 62 12).toNat + 1) *
      2 ^ (((rawBits raw).extractLsb' 47 3).toNat + 2) < 2 ^ 32 := by
    calc (((rawBits raw).extractLsb' 62 12).toNat + 1) *
        2 ^ (((rawBits raw).extractLsb' 47 3).toNat + 2) ≤ 2 ^ 12 * 2 ^ 9 :=
          Nat.mul_le_mul (by omega) (Nat.pow_le_pow_right (by omega) (by omega))
      _ < 2 ^ 32 := by decide
  have hwrap : ((mmcParseCsd csd (respArray raw around)).cSize.toNat + 1) *
      2 ^ ((mmcParseCsd csd (respArray raw around)).cSizeMult.toNat + 2) < 2 ^ 32 := by
    rw [hsizeNat, hmultNat]
    exact hprod
  refine ⟨hwrap, ?_⟩
  rw [numBlocks_toNat _ hwrap, hsizeNat, hmultNat, capacityOf, if_pos h]

/-- For structure version 2 the number of blocks depends on what was on the stack. -/
theorem numBlocks_v2 (around : ℤ → Word) (h : structureOf (rawBits raw) ≠ 0) (n : Word) :
    ¬ ∀ csd, numBlocks (mmcParseCsd csd (respArray raw around)) = n := by
  intro hall
  -- an empty structure but for the multiplier
  have hvalue : ∀ m : Byte, m.toNat ≤ 1 →
      (((rawBits raw).extractLsb' 48 22).toNat + 1) * 2 ^ (m.toNat + 2) = n.toNat := by
    intro m hm
    rcases mmcParseCsd_v2 { cleanStack.csd with cSizeMult := m } raw around h with ⟨hsize, hmult⟩
    have hsizeNat : (unstuffBits (respArray raw around) 48 22).toNat =
        ((rawBits raw).extractLsb' 48 22).toNat := by
      rw [toNat_unstuffBits (by omega) (by omega) (by omega), responseBits_respArray]
    have hlt : ((rawBits raw).extractLsb' 48 22).toNat < 2 ^ 22 := BitVec.isLt _
    have hprod : (((rawBits raw).extractLsb' 48 22).toNat + 1) * 2 ^ (m.toNat + 2) < 2 ^ 32 := by
      calc (((rawBits raw).extractLsb' 48 22).toNat + 1) * 2 ^ (m.toNat + 2) ≤ 2 ^ 22 * 2 ^ 3 :=
            Nat.mul_le_mul (by omega) (Nat.pow_le_pow_right (by omega) (by omega))
        _ < 2 ^ 32 := by decide
    rw [← hall { cleanStack.csd with cSizeMult := m }, numBlocks_toNat]
    · rw [hsize, hmult, hsizeNat]
    · rw [hsize, hmult, hsizeNat]
      exact hprod
  have hzero := hvalue 0 (by decide)
  have hone := hvalue 1 (by decide)
  change _ * 2 ^ 2 = _ at hzero
  change _ * 2 ^ 3 = _ at hone
  omega

/-! ## The registered capacity -/

/-- The registered capacity is right iff the card has structure version 1 and READ_BL_LEN 9. -/
theorem capacityRight_iff_fields (hlba : b.lba =
      numBlocks (mmcParseCsd stack.csd (respArray raw stack.aroundCsdRaw)))
    (hblksz : b.blksz = 512) : CapacityRight stack raw b ↔
      structureOf (rawBits raw) = 0 ∧ readBlLenOf (rawBits raw) = 9 := by
  constructor
  · intro h
    have hversion : structureOf (rawBits raw) = 0 := by
      by_contra hne
      exact numBlocks_v2 stack.aroundCsdRaw hne b.lba h.setFields
    have hcapacity := (numBlocks_v1 stack.csd stack.aroundCsdRaw hversion).2
    have hpos : 0 < capacityOf (rawBits raw) := by
      rw [capacityOf, if_pos hversion]
      exact Nat.mul_pos (Nat.mul_pos (Nat.succ_pos _) (Nat.two_pow_pos _)) (Nat.two_pow_pos _)
    rw [← hlba, ← h.capacity, hblksz] at hcapacity
    have hlbaPos : 0 < b.lba.toNat := by
      rw [← h.capacity] at hpos
      exact Nat.pos_of_mul_pos_right hpos
    have hpow : 2 ^ readBlLenOf (rawBits raw) = 2 ^ 9 := Nat.eq_of_mul_eq_mul_left hlbaPos hcapacity
    exact ⟨hversion, Nat.pow_right_injective (le_refl 2) hpow⟩
  · rintro ⟨hversion, hlen⟩
    constructor
    · have hcapacity := (numBlocks_v1 stack.csd stack.aroundCsdRaw hversion).2
      rw [hlen] at hcapacity
      rw [hlba, hblksz]
      exact hcapacity
    · exact (numBlocks_v1 stack.csd stack.aroundCsdRaw hversion).1
    · intro csd
      rcases mmcParseCsd_v1 csd raw stack.aroundCsdRaw hversion with ⟨hsize, hmult⟩
      rcases mmcParseCsd_v1 stack.csd raw stack.aroundCsdRaw hversion with ⟨hsize', hmult'⟩
      rw [hlba, numBlocks, numBlocks, hsize, hmult, hsize', hmult']

/-- For every card of structure version 1 or 2 that `mmc_init` accepts. -/
theorem capacityRight_iff (stack : Stack) (verbose : Bool) (s : Mci) :
    (∀ t ∈ initRun stack verbose s, ∀ raw ∈ csdResponse t.exchanges,
      structureOf (rawBits raw) ≤ 1 → CapacityRight stack raw t.blkdev) ↔
    ∀ t ∈ initRun stack verbose s, ∀ raw ∈ csdResponse t.exchanges,
      structureOf (rawBits raw) ≤ 1 →
        structureOf (rawBits raw) = 0 ∧ readBlLenOf (rawBits raw) = 9 := by
  have hcard : ∀ t ∈ initRun stack verbose s, ∀ raw ∈ csdResponse t.exchanges,
      (CapacityRight stack raw t.blkdev ↔
        structureOf (rawBits raw) = 0 ∧ readBlLenOf (rawBits raw) = 9) := by
    intro t ht raw hraw
    rcases initRun_call ht with ⟨u, cid, raw', h⟩
    have hsame : raw' = raw := Option.some.inj (h.csdResponse.symm.trans hraw)
    rw [hsame] at h
    exact capacityRight_iff_fields h.describes.lba h.describes.blksz
  constructor
  · exact fun hall t ht raw hraw hversion => (hcard t ht raw hraw).mp (hall t ht raw hraw hversion)
  · exact fun hall t ht raw hraw hversion => (hcard t ht raw hraw).mpr (hall t ht raw hraw hversion)

/-- A standard card of 2 GB: READ_BL_LEN is 10. It does not answer CMD8, and the first block is not
read. -/
def twoGigabytes : Mci := { falseAnnouncement with
  status := List.replicate 2 cmdrdy ++ [cmdrdy ||| rtoe] ++ List.replicate 7 cmdrdy ++
    [cmdrdy ||| rtoe] ++ List.replicate 2 cmdrdy
  rspr := [0x20, 0x80ff8000, 0x03534453, 0x44303247, 0x80123456, 0x7800a5c3, 0x12340000, 0x00260032,
    0x5b5a83ba, 0xf6dbff9f, 0x16804000] }

/-- Half of the card is registered. -/
theorem not_capacityRight_twoGigabytes :
    ¬ ∀ t ∈ initRun cleanStack false twoGigabytes, ∀ raw ∈ csdResponse t.exchanges,
      structureOf (rawBits raw) ≤ 1 → CapacityRight cleanStack raw t.blkdev := by
  intro h
  have hrun : (initRun cleanStack false twoGigabytes).map (fun t =>
      (csdResponse t.exchanges, t.blkdev.lba, t.blkdev.blksz)) =
      some (some [0x00260032, 0x5b5a83ba, 0xf6dbff9f, 0x16804000], 1955840, 512) := by
    decide +kernel
  rcases Option.map_eq_some_iff.mp hrun with ⟨t, ht, hcard⟩
  have hraw := congrArg Prod.fst hcard
  have hlba : t.blkdev.lba = 1955840 := congrArg (fun p => p.2.1) hcard
  have hblksz : t.blkdev.blksz = 512 := congrArg (fun p => p.2.2) hcard
  have hright := h t ht _ hraw (by decide)
  have hcapacity := hright.capacity
  rw [hlba, hblksz] at hcapacity
  exact absurd hcapacity (by decide)

end Armboard.Mmc
