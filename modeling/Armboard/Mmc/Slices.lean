import Armboard.Mmc.Fields
import Mathlib.Tactic

/-! # Fields of the CSD

Each field that `mmc_parse_csd` sets is a slice of the 128 bits the card answered with,
and `UNSTUFF_BITS` takes it without indexing a word outside the four.
-/

namespace Armboard.Mmc

def slice (resp : ℤ → Word) (start size : ℕ) : ℕ := (responseBits resp).toNat >>> start % 2 ^ size

/-- An array of four words, in which no other index can be read. -/
def fourWords (resp : ℤ → Word) (i : ℤ) : Option Word :=
  if 0 ≤ i ∧ i < 4 then some (resp i) else none

/-- `UNSTUFF_BITS` on an array that not every index can be read of. -/
def unstuffBitsIn (resp : ℤ → Option Word) (start size : ℕ) : Option Word := do
  let mask : Word := (if size < 32 then (1 : Word) <<< size else 0) - 1
  let off : ℤ := 3 - (start / 32 : ℕ)
  let shft := start % 32
  let res := (← resp off) >>> shft
  let res ← if size + shft > 32 then do
      let next ← resp (off - 1)
      pure (res ||| next <<< ((32 - shft) % 32))
    else pure res
  pure (res &&& mask)

variable {resp : ℤ → Word} {start size : ℕ}

theorem fourWords_word (resp : ℤ → Word) (k : ℕ) (hk : k < 4) :
    fourWords resp (3 - (k : ℕ)) = some (resp (3 - (k : ℕ))) := by
  rw [fourWords, if_pos (by omega)]

theorem unstuffBitsIn_fourWords (hsize : 1 ≤ size) (hend : start + size ≤ 128) :
    unstuffBitsIn (fourWords resp) start size = some (unstuffBits resp start size) := by
  have hfirst := fourWords_word resp (start / 32) (by omega)
  simp only [unstuffBitsIn, unstuffBits, Option.bind_eq_bind, hfirst, Option.bind_some]
  split
  · rename_i hspan
    have hnext := fourWords_word resp (start / 32 + 1) (by omega)
    have hoff : (3 : ℤ) - (start / 32 + 1 : ℕ) = 3 - (start / 32 : ℕ) - 1 := by omega
    rw [hoff] at hnext
    rw [hnext]
    rfl
  · rfl

theorem slice_eq (resp : ℤ → Word) (start size : ℕ) :
    ((responseBits resp).extractLsb' start size).toNat = slice resp start size := by
  rw [BitVec.extractLsb'_toNat, slice]

/-! ## The structure -/

/-- A member of `struct mmc_csd` and the bits of the response it stands for. -/
structure Field where
  value : Csd → ℕ
  width : ℕ
  start : ℕ
  size : ℕ

def commonFields : List Field := [
  ⟨fun csd => csd.csdStructure.toNat, 8, 126, 2⟩,
  ⟨fun csd => csd.specVers.toNat, 8, 122, 4⟩,
  ⟨fun csd => csd.taac.toNat, 8, 112, 8⟩,
  ⟨fun csd => csd.nsac.toNat, 8, 104, 8⟩,
  ⟨fun csd => csd.tranSpeed.toNat, 8, 96, 8⟩,
  ⟨fun csd => csd.ccc.toNat, 16, 84, 12⟩,
  ⟨fun csd => csd.readBlLen.toNat, 8, 80, 4⟩,
  ⟨fun csd => csd.readBlPartial.toNat, 8, 79, 1⟩,
  ⟨fun csd => csd.writeBlkMisalign.toNat, 8, 78, 1⟩,
  ⟨fun csd => csd.readBlkMisalign.toNat, 8, 77, 1⟩,
  ⟨fun csd => csd.dsrImp.toNat, 8, 76, 1⟩,
  ⟨fun csd => csd.sectorSize.toNat, 8, 39, 7⟩,
  ⟨fun csd => csd.wpGrpSize.toNat, 8, 32, 7⟩,
  ⟨fun csd => csd.wpGrpEnable.toNat, 8, 31, 1⟩,
  ⟨fun csd => csd.defaultEcc.toNat, 8, 29, 2⟩,
  ⟨fun csd => csd.r2wFactor.toNat, 8, 26, 3⟩,
  ⟨fun csd => csd.writeBlLen.toNat, 8, 22, 4⟩,
  ⟨fun csd => csd.writeBlPartial.toNat, 8, 21, 1⟩,
  ⟨fun csd => csd.fileFormatGrp.toNat, 8, 15, 1⟩,
  ⟨fun csd => csd.copy.toNat, 8, 14, 1⟩,
  ⟨fun csd => csd.permWriteProtect.toNat, 8, 13, 1⟩,
  ⟨fun csd => csd.tmpWriteProtect.toNat, 8, 12, 1⟩,
  ⟨fun csd => csd.fileFormat.toNat, 8, 10, 2⟩,
  ⟨fun csd => csd.ecc.toNat, 8, 8, 2⟩,
  ⟨fun csd => csd.crc.toNat, 8, 1, 7⟩]

def versionOneFields : List Field := [
  ⟨fun csd => csd.cSize.toNat, 32, 62, 12⟩,
  ⟨fun csd => csd.vddRCurrMin.toNat, 8, 59, 3⟩,
  ⟨fun csd => csd.vddRCurrMax.toNat, 8, 56, 3⟩,
  ⟨fun csd => csd.vddWCurrMin.toNat, 8, 53, 3⟩,
  ⟨fun csd => csd.vddWCurrMax.toNat, 8, 50, 3⟩,
  ⟨fun csd => csd.cSizeMult.toNat, 8, 47, 3⟩]

def versionTwoFields : List Field := [⟨fun csd => csd.cSize.toNat, 32, 48, 22⟩]

/-- The fields `mmc_parse_csd` sets for what it finds in `csd_structure`. -/
def fieldsOf (csdStructure : Byte) : List Field :=
  commonFields ++ if csdStructure = 0 then versionOneFields else versionTwoFields

theorem mmcParseCsd_structure (csd : Csd) (resp : ℤ → Word) :
    (mmcParseCsd csd resp).csdStructure = (unstuffBits resp 126 2).setWidth 8 := by
  simp only [mmcParseCsd]
  split <;> rfl

/-- Each member is what `UNSTUFF_BITS` gives, cut to the width of the member. -/
theorem mmcParseCsd_member (csd : Csd) (resp : ℤ → Word) :
    ∀ f ∈ fieldsOf (mmcParseCsd csd resp).csdStructure, f.value (mmcParseCsd csd resp) =
      ((unstuffBits resp f.start f.size).setWidth f.width).toNat := by
  rw [mmcParseCsd_structure]
  by_cases hversion : (unstuffBits resp 126 2).setWidth 8 = (0 : Byte)
  · simp only [fieldsOf, mmcParseCsd, if_pos hversion]
    simp [commonFields, versionOneFields, -BitVec.toNat_setWidth]
  · simp only [fieldsOf, mmcParseCsd, if_neg hversion]
    simp [commonFields, versionTwoFields, -BitVec.toNat_setWidth]

/-- Every field is a slice within the response that its member has room for. -/
theorem fieldsOf_room (csdStructure : Byte) : ∀ f ∈ fieldsOf csdStructure,
    1 ≤ f.size ∧ f.size ≤ f.width ∧ f.size ≤ 32 ∧ f.start + f.size ≤ 128 := by
  rw [fieldsOf]
  split <;> decide

theorem mmcParseCsd_slice (csd : Csd) (resp : ℤ → Word) :
    ∀ f ∈ fieldsOf (mmcParseCsd csd resp).csdStructure,
      f.value (mmcParseCsd csd resp) = slice resp f.start f.size := by
  intro f hf
  have ⟨hsize, hwidth, hsize', hend⟩ := fieldsOf_room _ f hf
  rw [mmcParseCsd_member csd resp f hf, toNat_member hsize hwidth hsize' hend, slice_eq]

/-- The extraction and the structure that is read with it, for any four words. -/
theorem mmcParseCsd_exact (resp : ℤ → Word) :
    (∀ start size : ℕ, 1 ≤ size → size ≤ 32 → start + size ≤ 128 →
      unstuffBitsIn (fourWords resp) start size = some (unstuffBits resp start size) ∧
      (unstuffBits resp start size).toNat = (responseBits resp).toNat >>> start % 2 ^ size) ∧
    ∀ csd : Csd, ∀ f ∈ fieldsOf (mmcParseCsd csd resp).csdStructure,
      f.value (mmcParseCsd csd resp) = (responseBits resp).toNat >>> f.start % 2 ^ f.size := by
  apply And.intro
  · intro start size hsize hsize' hend
    have hbits : (unstuffBits resp start size).toNat = _ := toNat_unstuffBits hsize hsize' hend
    rw [slice_eq] at hbits
    exact ⟨unstuffBitsIn_fourWords hsize hend, hbits⟩
  · intro csd
    exact mmcParseCsd_slice csd resp

/-- What a card of 2 GB answers. -/
def twoGigabyteWords (i : ℤ) : Word :=
  if i = 0 then 0x00260032
  else if i = 1 then 0x5b5a83ba
  else if i = 2 then 0xf6dbff9f
  else 0x16804000

def blankCsd : Csd :=
  ⟨0, 0, 0, 0, 0, 0, 0, 0, 0, 0, 0, 0, 0, 0, 0, 0, 0, 0, 0, 0, 0, 0, 0, 0, 0, 0, 0, 0, 0, 0, 0⟩

/-- Its C_SIZE lies in two words. -/
theorem mmcParseCsd_exact_cSize :
    unstuffBitsIn (fourWords twoGigabyteWords) 62 12 = some (unstuffBits twoGigabyteWords 62 12) ∧
    (unstuffBits twoGigabyteWords 62 12).toNat = 3819 ∧
    (mmcParseCsd blankCsd twoGigabyteWords).cSize.toNat = 3819 := by
  have hword := (mmcParseCsd_exact twoGigabyteWords).1 62 12 (by decide) (by decide) (by decide)
  have hfield := (mmcParseCsd_exact twoGigabyteWords).2 blankCsd
    ⟨fun csd => csd.cSize.toNat, 32, 62, 12⟩
    (List.mem_append_right _ (List.mem_cons_self ..))
  have hslice : (responseBits twoGigabyteWords).toNat >>> 62 % 2 ^ 12 = 3819 := by decide
  exact ⟨hword.1, hword.2.trans hslice, hfield.trans hslice⟩

end Armboard.Mmc
