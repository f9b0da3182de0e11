import Mathlib.Order.Monotone.Basic
import Mathlib.Tactic.Common

/-! # Page and byte in one number

A position among pages of `p` cells is packed into fields of `q ≥ p` cells: the page number
takes the upper field, the cell in its page the lower one.
-/

namespace Armboard.Storage

def pack (p q a : ℕ) : ℕ := a / p * q + a % p

variable {p q : ℕ}

theorem mod_lt_field (hp : 0 < p) (hpq : p ≤ q) (a : ℕ) : a % p < q :=
  lt_of_lt_of_le (Nat.mod_lt a hp) hpq

theorem pack_div (hp : 0 < p) (hpq : p ≤ q) (a : ℕ) : pack p q a / q = a / p := by
  have hlow := mod_lt_field hp hpq a
  rw [pack, Nat.mul_comm, Nat.mul_add_div (by omega), Nat.div_eq_of_lt hlow, Nat.add_zero]

theorem pack_mod (hp : 0 < p) (hpq : p ≤ q) (a : ℕ) : pack p q a % q = a % p := by
  rw [pack, Nat.mul_comm, Nat.mul_add_mod, Nat.mod_eq_of_lt (mod_lt_field hp hpq a)]

theorem pack_lt (hp : 0 < p) (hpq : p ≤ q) {n a : ℕ} (ha : a < n * p) : pack p q a < n * q := by
  have hpage : a / p < n := (Nat.div_lt_iff_lt_mul hp).mpr ha
  have hlow := mod_lt_field hp hpq a
  calc pack p q a < (a / p + 1) * q := by rw [pack, Nat.add_mul, Nat.one_mul]; omega
    _ ≤ n * q := Nat.mul_le_mul_right q hpage

/-- Packing keeps the order, because the lower field has room for a whole page. -/
theorem pack_strictMono (hp : 0 < p) (hpq : p ≤ q) : StrictMono (pack p q) := by
  intro a a' hlt
  rcases Nat.lt_or_eq_of_le (Nat.div_le_div_right hlt.le : a / p ≤ a' / p) with hpage | hpage
  · calc pack p q a < a' / p * q := pack_lt hp hpq ((Nat.div_lt_iff_lt_mul hp).mp hpage)
      _ ≤ pack p q a' := Nat.le_add_right _ _
  · have hlow : a % p < a' % p := by
      have h := Nat.div_add_mod a p
      have h' := Nat.div_add_mod a' p
      rw [hpage] at h
      omega
    rw [pack, pack, hpage]
    omega

end Armboard.Storage
