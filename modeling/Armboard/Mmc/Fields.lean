import Armboard.Mmc.Csd

/-! # Fields of a response

`UNSTUFF_BITS` takes a slice out of the 128 bits that four words hold, also where the
slice spans two of them, and it looks at no other word.
-/

namespace Armboard.Mmc

def responseBits (resp : ℤ → Word) : BitVec 128 := resp 0 ++ resp 1 ++ resp 2 ++ resp 3

theorem getLsbD_responseBits (resp : ℤ → Word) (k : ℕ) (hk : k < 128) :
    (responseBits resp).getLsbD k = (resp (3 - (k / 32 : ℕ))).getLsbD (k % 32) := by
  rw [responseBits]
  simp only [BitVec.getLsbD_append]
  rcases (by omega : k < 32 ∨ 32 ≤ k ∧ k < 64 ∨ 64 ≤ k ∧ k < 96 ∨ 96 ≤ k) with h | h | h | h
  · rw [if_pos h, Nat.div_eq_of_lt h, Nat.mod_eq_of_lt h]
    rfl
  · have hdiv : k / 32 = 1 := by omega
    have hmod : k % 32 = k - 32 := by omega
    rw [if_neg (by omega), if_pos (by omega), hdiv, hmod]
    rfl
  · have hdiv : k / 32 = 2 := by omega
    have hmod : k % 32 = k - 32 - 32 := by omega
    rw [if_neg (by omega), if_neg (by omega), if_pos (by omega), hdiv, hmod]
    rfl
  · have hdiv : k / 32 = 3 := by omega
    have hmod : k % 32 = k - 32 - 32 - 32 := by omega
    rw [if_neg (by omega), if_neg (by omega), if_neg (by omega), hdiv, hmod]
    rfl

/-- The mask of `UNSTUFF_BITS`, also for 32 bits, where it is `0 - 1`. -/
theorem getLsbD_mask (size i : ℕ) (hsize : size ≤ 32) (hi : i < 32) :
    ((if size < 32 then (1 : Word) <<< size else 0) - 1).getLsbD i = decide (i < size) := by
  have hmask : (if size < 32 then (1 : Word) <<< size else 0) - 1 = BitVec.ofNat 32 (2 ^ size - 1) := by
    apply BitVec.eq_of_toNat_eq
    rcases Nat.lt_or_eq_of_le hsize with h | rfl
    · have hpow : 2 ^ size < 2 ^ 32 := Nat.pow_lt_pow_right (by omega) h
      have hpos : 0 < 2 ^ size := Nat.two_pow_pos size
      rw [if_pos h, BitVec.toNat_sub, BitVec.toNat_shiftLeft, BitVec.toNat_ofNat,
        Nat.shiftLeft_eq]
      simp
      omega
    · rfl
  rw [hmask, BitVec.getLsbD_ofNat, Nat.testBit_two_pow_sub_one]
  simp [hi]

variable {resp : ℤ → Word} {start size : ℕ}

theorem getLsbD_unstuffBits (hsize : 1 ≤ size) (hsize' : size ≤ 32) (hend : start + size ≤ 128)
    (i : ℕ) (hi : i < 32) : (unstuffBits resp start size).getLsbD i =
      (decide (i < size) && (responseBits resp).getLsbD (start + i)) := by
  rw [unstuffBits, BitVec.getLsbD_and, getLsbD_mask size i hsize' hi, Bool.and_comm]
  by_cases hlt : i < size
  · simp only [hlt, decide_true, Bool.true_and]
    rw [getLsbD_responseBits resp (start + i) (by omega)]
    by_cases hspan : start % 32 + i < 32
    · -- the bit is in the word where the field starts
      have hdiv : (start + i) / 32 = start / 32 := by omega
      have hmod : (start + i) % 32 = start % 32 + i := by omega
      rw [hdiv, hmod]
      split
      · rename_i hwide
        have hshift : (32 - start % 32) % 32 = 32 - start % 32 := by omega
        have hlow : i < 32 - start % 32 := by omega
        rw [BitVec.getLsbD_or, BitVec.getLsbD_ushiftRight, BitVec.getLsbD_shiftLeft, hshift]
        simp [hlow]
      · rw [BitVec.getLsbD_ushiftRight]
    · -- the bit is in the next word
      have hdiv : (start + i) / 32 = start / 32 + 1 := by omega
      have hmod : (start + i) % 32 = i - (32 - start % 32) := by omega
      have hoff : (3 : ℤ) - (start / 32 + 1 : ℕ) = 3 - (start / 32 : ℕ) - 1 := by omega
      have hshift : (32 - start % 32) % 32 = 32 - start % 32 := by omega
      have hhigh : ¬ i < 32 - start % 32 := by omega
      have hnone : (resp (3 - (start / 32 : ℕ))).getLsbD (start % 32 + i) = false :=
        BitVec.getLsbD_of_ge _ _ (by omega)
      rw [hdiv, hmod, hoff, if_pos (by omega), BitVec.getLsbD_or, BitVec.getLsbD_ushiftRight,
        BitVec.getLsbD_shiftLeft, hshift, hnone]
      simp [hhigh, hi]
  · simp [hlt]

theorem unstuffBits_eq (hsize : 1 ≤ size) (hsize' : size ≤ 32) (hend : start + size ≤ 128) :
    unstuffBits resp start size = ((responseBits resp).extractLsb' start size).setWidth 32 := by
  apply BitVec.eq_of_getLsbD_eq
  intro i hi
  rw [getLsbD_unstuffBits hsize hsize' hend i hi, BitVec.getLsbD_setWidth, BitVec.getLsbD_extractLsb']
  simp [hi]

theorem toNat_unstuffBits (hsize : 1 ≤ size) (hsize' : size ≤ 32) (hend : start + size ≤ 128) :
    (unstuffBits resp start size).toNat = ((responseBits resp).extractLsb' start size).toNat := by
  rw [unstuffBits_eq hsize hsize' hend, BitVec.toNat_setWidth_of_le hsize']

/-- A member of a structure is wide enough for the field stored into it. -/
theorem toNat_member {w : ℕ} (hsize : 1 ≤ size) (hw : size ≤ w) (hsize' : size ≤ 32)
    (hend : start + size ≤ 128) : ((unstuffBits resp start size).setWidth w).toNat =
      ((responseBits resp).extractLsb' start size).toNat := by
  have hlt : ((responseBits resp).extractLsb' start size).toNat < 2 ^ w :=
    lt_of_lt_of_le (BitVec.isLt _) (Nat.pow_le_pow_right (by omega) hw)
  rw [BitVec.toNat_setWidth, toNat_unstuffBits hsize hsize' hend, Nat.mod_eq_of_lt hlt]

theorem toNat_byteField (hsize : 1 ≤ size) (hsize' : size ≤ 8) (hend : start + size ≤ 128) :
    ((unstuffBits resp start size).setWidth 8).toNat =
      ((responseBits resp).extractLsb' start size).toNat :=
  toNat_member hsize hsize' (by omega) hend

def rawBits (raw : List Word) : BitVec 128 :=
  raw.getD 0 0 ++ raw.getD 1 0 ++ raw.getD 2 0 ++ raw.getD 3 0

theorem responseBits_respArray (raw : List Word) (around : ℤ → Word) :
    responseBits (respArray raw around) = rawBits raw := rfl

end Armboard.Mmc
