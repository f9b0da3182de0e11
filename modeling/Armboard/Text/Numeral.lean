import Mathlib.Data.Nat.Digits.Lemmas

/-! # Numerals

The numeral of a number in a base, over any alphabet: the digits with the most
significant one first, without leading zeros, and a single zero for zero. The value
of a string of digits is what Horner's rule makes of it.
-/

namespace Armboard.Text

variable {α : Type*}

/-- The numeral of `v` in base `b`, written with the characters `digit`. -/
def numeral (digit : ℕ → α) (b v : ℕ) : List α :=
  if v = 0 then [digit 0] else ((Nat.digits b v).map digit).reverse

/-- The value of a string of digits, the most significant one first. -/
def horner (b : ℕ) (ds : List ℕ) (start : ℕ) : ℕ := ds.foldl (fun v d => v * b + d) start

variable {digit : ℕ → α} {b v : ℕ}

theorem numeral_zero : numeral digit b 0 = [digit 0] := if_pos rfl

theorem numeral_of_ne_zero (hv : v ≠ 0) :
    numeral digit b v = ((Nat.digits b v).map digit).reverse := if_neg hv

theorem numeral_length_pos (digit : ℕ → α) (b v : ℕ) : 0 < (numeral digit b v).length := by
  by_cases hv : v = 0
  · rw [hv, numeral_zero]
    exact Nat.one_pos
  · rw [numeral_of_ne_zero hv, List.length_reverse, List.length_map, List.length_pos_iff]
    exact Nat.digits_ne_nil_iff_ne_zero.mpr hv

/-- A number below the `k`-th power of the base takes at most `k` digits. -/
theorem numeral_length_le (digit : ℕ → α) (hb : 1 < b) {k : ℕ} (hk : 0 < k) (hv : v < b ^ k) :
    (numeral digit b v).length ≤ k := by
  by_cases h0 : v = 0
  · rw [h0, numeral_zero]
    exact hk
  · rw [numeral_of_ne_zero h0, List.length_reverse, List.length_map]
    exact (Nat.digits_length_le_iff hb v).mpr hv

theorem exists_digit_of_mem_numeral (hb : 1 < b) {c : α} (hc : c ∈ numeral digit b v) :
    ∃ d < b, c = digit d := by
  by_cases hv : v = 0
  · rw [hv, numeral_zero, List.mem_singleton] at hc
    exact ⟨0, by omega, hc⟩
  · rw [numeral_of_ne_zero hv, List.mem_reverse] at hc
    obtain ⟨d, hd, rfl⟩ := List.mem_map.mp hc
    exact ⟨d, Nat.digits_lt_base hb hd, rfl⟩

/-- Only the numeral of zero begins with a zero. -/
theorem numeral_eq_cons (digit : ℕ → α) (hb : 1 < b) (hv : v ≠ 0) :
    ∃ d l, numeral digit b v = digit d :: l ∧ 0 < d ∧ d < b := by
  have hne : Nat.digits b v ≠ [] := Nat.digits_ne_nil_iff_ne_zero.mpr hv
  have hlast := Nat.getLast_digit_ne_zero b hv
  have hmem := List.getLast_mem hne
  refine ⟨(Nat.digits b v).getLast hne, ((Nat.digits b v).dropLast.map digit).reverse, ?_,
    Nat.pos_of_ne_zero hlast, Nat.digits_lt_base hb hmem⟩
  rw [numeral_of_ne_zero hv]
  conv_lhs => rw [← List.dropLast_append_getLast hne]
  rw [List.map_append, List.reverse_append]
  rfl

/-! ## Values -/

theorem horner_zeros (b k : ℕ) : horner b (List.replicate k 0) 0 = 0 := by
  induction k with
  | zero => rfl
  | succ k ih =>
    rw [horner, List.replicate_succ, List.foldl_cons, Nat.zero_mul]
    exact ih

theorem horner_append (b : ℕ) (ds es : List ℕ) (start : ℕ) :
    horner b (ds ++ es) start = horner b es (horner b ds start) := List.foldl_append

theorem le_horner (hb : 0 < b) (ds : List ℕ) : ∀ start, start ≤ horner b ds start := by
  induction ds with
  | nil => exact fun _ => le_rfl
  | cons d ds ih =>
    intro start
    have hle := Nat.le_mul_of_pos_right start hb
    exact (by omega : start ≤ start * b + d).trans (ih _)

theorem horner_reverse (b : ℕ) (ds : List ℕ) : horner b ds.reverse 0 = Nat.ofDigits b ds := by
  rw [horner, List.foldl_reverse, Nat.ofDigits_eq_foldr]
  congr 1
  funext d v
  rw [Nat.mul_comm, Nat.add_comm]
  rfl

/-- A numeral, zeros before it or not, has the value it stands for. -/
theorem horner_numeral (b v k : ℕ) :
    horner b (List.replicate k 0 ++ numeral id b v) 0 = v := by
  rw [horner_append, horner_zeros]
  by_cases h0 : v = 0
  · rw [h0, numeral_zero]
    simp [horner]
  · rw [numeral_of_ne_zero h0, List.map_id, horner_reverse, Nat.ofDigits_digits]

theorem numeral_map (digit : ℕ → α) (b v : ℕ) : numeral digit b v = (numeral id b v).map digit := by
  by_cases hv : v = 0
  · rw [hv, numeral_zero, numeral_zero]
    rfl
  · rw [numeral_of_ne_zero hv, numeral_of_ne_zero hv, List.map_id, List.map_reverse]

end Armboard.Text
