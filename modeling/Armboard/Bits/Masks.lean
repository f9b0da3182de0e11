import Mathlib.Data.BitVec

/-! # Parts of a word behind a mask

What masking and shifting leave of a word, as quotient and remainder of its value.
-/

namespace Armboard.Bits

variable {w : ℕ}

/-- A mask of the bits from `k` on rounds down to a multiple of `2 ^ k`. -/
theorem toNat_and_high (x : BitVec w) {mask : BitVec w} {k : ℕ}
    (hmask : ∀ i < w, mask.getLsbD i = decide (k ≤ i)) :
    (x &&& mask).toNat = x.toNat / 2 ^ k * 2 ^ k := by
  have hbits : x &&& mask = (x >>> k) <<< k := by
    apply BitVec.eq_of_getLsbD_eq
    intro i hi
    rw [BitVec.getLsbD_and, BitVec.getLsbD_shiftLeft, BitVec.getLsbD_ushiftRight, hmask i hi]
    by_cases hk : k ≤ i
    · simp [hi, hk]
    · simp [hi, hk]
  have hlt : x.toNat / 2 ^ k * 2 ^ k < 2 ^ w := (Nat.div_mul_le_self _ _).trans_lt x.isLt
  rw [hbits, BitVec.toNat_shiftLeft, BitVec.toNat_ushiftRight, Nat.shiftLeft_eq,
    Nat.shiftRight_eq_div_pow, Nat.mod_eq_of_lt hlt]

theorem toNat_and_low (x mask : BitVec w) {k n : ℕ} (hmask : mask.toNat = 2 ^ k - 1)
    (hk : k ≤ n) : ((x &&& mask).setWidth n).toNat = x.toNat % 2 ^ k := by
  have hpow : 2 ^ k ≤ 2 ^ n := Nat.pow_le_pow_right (by omega) hk
  have hlt := Nat.mod_lt x.toNat (Nat.two_pow_pos k)
  rw [BitVec.toNat_setWidth, BitVec.toNat_and, hmask, Nat.and_two_pow_sub_one_eq_mod,
    Nat.mod_eq_of_lt (hlt.trans_le hpow)]

/-- A field of `n` bits from `k` on. The mask has to have the bits that the word has there. -/
theorem toNat_field (x mask : BitVec w) (k n : ℕ)
    (hmask : ∀ i < n, x.getLsbD (k + i) = true → mask.getLsbD (k + i) = true) :
    (((x &&& mask) >>> k).setWidth n).toNat = x.toNat / 2 ^ k % 2 ^ n := by
  have hbits : ((x &&& mask) >>> k).setWidth n = (x >>> k).setWidth n := by
    apply BitVec.eq_of_getLsbD_eq
    intro i hi
    cases hbit : x.getLsbD (k + i)
    · simp [hbit]
    · simp [hbit, hmask i hi hbit]
  rw [hbits, BitVec.toNat_setWidth, BitVec.toNat_ushiftRight, Nat.shiftRight_eq_div_pow]

end Armboard.Bits
