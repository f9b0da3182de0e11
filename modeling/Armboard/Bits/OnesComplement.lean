import Mathlib.Data.Nat.ModEq
import Mathlib.Tactic.Common

/-! # Checksums in ones' complement

Digits to a base are added, and the carries come back in at the low end. The checksum
keeps the sum modulo the base less one, so a sum that is complemented and added in makes
it full, and no single digit can be exchanged unnoticed, except the full one for zero.
-/

namespace Armboard.Bits

variable {b : ℕ}

/-- The carry comes back in at the low end. -/
def foldCarry (b x : ℕ) : ℕ := x % b + x / b

/-- Two rounds are enough for a sum of fewer than `b` digits. -/
def checksum (b x : ℕ) : ℕ := foldCarry b (foldCarry b x)

theorem foldCarry_modEq (hb : 0 < b) (x : ℕ) : foldCarry b x ≡ x [MOD b - 1] := by
  have hone : b ≡ 1 [MOD b - 1] := Nat.modEq_sub hb
  have hsum : b * (x / b) + x % b ≡ 1 * (x / b) + x % b [MOD b - 1] :=
    (hone.mul_right _).add_right _
  rw [Nat.div_add_mod, Nat.one_mul, Nat.add_comm] at hsum
  exact hsum.symm

theorem checksum_modEq (hb : 0 < b) (x : ℕ) : checksum b x ≡ x [MOD b - 1] :=
  (foldCarry_modEq hb _).trans (foldCarry_modEq hb x)

theorem foldCarry_le {x : ℕ} (hx : x < b * b) : foldCarry b x ≤ (b - 1) + (b - 1) := by
  have hpos : 0 < b := Nat.pos_of_mul_pos_left (Nat.zero_lt_of_lt hx)
  have hdiv : x / b < b := Nat.div_lt_of_lt_mul hx
  have hmod : x % b < b := Nat.mod_lt x hpos
  rw [foldCarry]
  omega

theorem checksum_lt {x : ℕ} (hx : x < b * b) : checksum b x < b := by
  have hle := foldCarry_le hx
  have hpos : 0 < b := Nat.pos_of_mul_pos_left (Nat.zero_lt_of_lt hx)
  rw [checksum]
  generalize foldCarry b x = y at hle
  rcases Nat.lt_or_ge y b with hlt | hge
  · rw [foldCarry, Nat.mod_eq_of_lt hlt, Nat.div_eq_of_lt hlt]
    exact hlt
  · have hdiv : y / b = 1 := Nat.div_eq_of_lt_le (by omega) (by omega)
    have hmod : y % b = y - b := by rw [Nat.mod_eq_sub_mod hge, Nat.mod_eq_of_lt (by omega)]
    rw [foldCarry, hdiv, hmod]
    omega

/-- A checksum is all zeros or all ones if and only if the sum is a multiple of the base less one. -/
theorem checksum_full_iff {x : ℕ} (hx : x < b * b) :
    checksum b x = 0 ∨ checksum b x = b - 1 ↔ b - 1 ∣ x := by
  have hpos : 0 < b := Nat.pos_of_mul_pos_left (Nat.zero_lt_of_lt hx)
  have hlt := checksum_lt hx
  have hmod := checksum_modEq hpos x
  rw [← (Nat.ModEq.dvd_iff hmod (dvd_refl _))]
  constructor
  · intro h
    cases h with
    | inl h => exact h ▸ dvd_zero _
    | inr h => exact h ▸ dvd_refl _
  · intro h
    rcases Nat.eq_zero_or_pos (checksum b x) with hzero | hcheck
    · exact .inl hzero
    · have hle := Nat.le_of_dvd hcheck h
      exact .inr (by omega)

/-- The complement of the checksum fills the sum up. -/
theorem dvd_add_complement {x : ℕ} (hx : x < b * b) : b - 1 ∣ x + (b - 1 - checksum b x) := by
  have hpos : 0 < b := Nat.pos_of_mul_pos_left (Nat.zero_lt_of_lt hx)
  have hlt := checksum_lt hx
  have hsum : x + (b - 1 - checksum b x) ≡ checksum b x + (b - 1 - checksum b x) [MOD b - 1] :=
    (checksum_modEq hpos x).symm.add_right _
  rw [Nat.add_sub_cancel' (by omega)] at hsum
  exact (Nat.ModEq.dvd_iff hsum (dvd_refl _)).mpr (dvd_refl _)

/-- Two digits that fill the same sum up are equal, or all zeros and all ones. -/
theorem eq_of_dvd_add {x u v : ℕ} (hu : u < b) (hv : v < b) (hxu : b - 1 ∣ x + u)
    (hxv : b - 1 ∣ x + v) : u = v ∨ u = 0 ∧ v = b - 1 ∨ u = b - 1 ∧ v = 0 := by
  rcases Nat.le_total u v with hle | hle
  · have hdvd : b - 1 ∣ v - u := by
      rw [show v - u = x + v - (x + u) by omega]
      exact Nat.dvd_sub hxv hxu
    rcases Nat.eq_zero_or_pos (v - u) with hzero | hpos
    · exact .inl (by omega)
    · have hge := Nat.le_of_dvd hpos hdvd
      exact .inr (.inl (by omega))
  · have hdvd : b - 1 ∣ u - v := by
      rw [show u - v = x + u - (x + v) by omega]
      exact Nat.dvd_sub hxu hxv
    rcases Nat.eq_zero_or_pos (u - v) with hzero | hpos
    · exact .inl (by omega)
    · have hge := Nat.le_of_dvd hpos hdvd
      exact .inr (.inr (by omega))

end Armboard.Bits
