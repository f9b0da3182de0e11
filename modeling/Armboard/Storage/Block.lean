import Mathlib.Data.BitVec
import Mathlib.Tactic.Common

/-! # Blocks of an addressed memory

A memory is a function on fixed-width addresses. `view` reads it relative to a
pointer and `store` replaces a block behind a pointer; both wrap at the end of
the address space, as pointer arithmetic does.
-/

namespace Armboard.Storage

variable {w : ℕ} {α : Type*}

/-- The cells behind pointer `p`, by offset. -/
def view (m : BitVec w → α) (p : BitVec w) (i : ℕ) : α := m (p + BitVec.ofNat w i)

/-- Replace the `n` cells behind `p` by `data`. -/
def store (m : BitVec w → α) (p : BitVec w) (n : ℕ) (data : ℕ → α) : BitVec w → α := fun a =>
  if (a - p).toNat < n then data (a - p).toNat else m a

theorem offset_toNat (p : BitVec w) {i : ℕ} (hi : i < 2 ^ w) :
    (p + BitVec.ofNat w i - p).toNat = i := by
  rw [BitVec.add_comm, BitVec.add_sub_cancel, BitVec.toNat_ofNat, Nat.mod_eq_of_lt hi]

theorem view_add (m : BitVec w → α) (p : BitVec w) (k i : ℕ) :
    view m (p + BitVec.ofNat w k) i = view m p (k + i) := by
  simp only [view, BitVec.add_assoc, BitVec.ofNat_add]

theorem view_store_lt (m : BitVec w → α) (p : BitVec w) {n i : ℕ} (data : ℕ → α)
    (hi : i < n) (hw : i < 2 ^ w) : view (store m p n data) p i = data i := by
  simp only [view, store, offset_toNat p hw, if_pos hi]

theorem view_store_ge (m : BitVec w → α) (p : BitVec w) {n i : ℕ} (data : ℕ → α)
    (hi : n ≤ i) (hw : i < 2 ^ w) : view (store m p n data) p i = view m p i := by
  simp only [view, store, offset_toNat p hw, if_neg (Nat.not_lt.mpr hi)]

theorem store_zero (m : BitVec w → α) (p : BitVec w) (data : ℕ → α) : store m p 0 data = m := by
  funext a
  simp [store]

private theorem sub_ofNat_toNat {n : ℕ} (d : BitVec w) (hn : n < 2 ^ w) :
    (d - BitVec.ofNat w n).toNat =
      if n ≤ d.toNat then d.toNat - n else d.toNat + (2 ^ w - n) := by
  have hd := d.isLt
  rw [BitVec.toNat_sub, BitVec.toNat_ofNat, Nat.mod_eq_of_lt hn]
  split
  · rw [show 2 ^ w - n + d.toNat = (d.toNat - n) + 2 ^ w by omega, Nat.add_mod_right,
      Nat.mod_eq_of_lt (by omega)]
  · rw [Nat.add_comm, Nat.mod_eq_of_lt (by omega)]

private theorem sub_sub_ofNat (a p : BitVec w) (n : ℕ) :
    a - (p + BitVec.ofNat w n) = a - p - BitVec.ofNat w n := by
  rw [BitVec.sub_eq_add_neg, BitVec.sub_eq_add_neg, BitVec.sub_eq_add_neg, BitVec.neg_add,
    BitVec.sub_eq_add_neg, BitVec.add_assoc]

theorem view_store_at (m : BitVec w → α) (p : BitVec w) {k n i : ℕ} (data : ℕ → α)
    (hk : k + n ≤ 2 ^ w) (hn : 0 < n) (hi : i < 2 ^ w) :
    view (store m (p + BitVec.ofNat w k) n data) p i =
      if k ≤ i ∧ i < k + n then data (i - k) else view m p i := by
  have hoff := sub_ofNat_toNat (n := k) (p + BitVec.ofNat w i - p) (by omega)
  rw [offset_toNat p hi] at hoff
  simp only [view, store, sub_sub_ofNat, hoff]
  by_cases hki : k ≤ i
  · rw [if_pos hki]
    by_cases hlt : i < k + n
    · rw [if_pos (by omega), if_pos ⟨hki, hlt⟩]
    · rw [if_neg (by omega), if_neg (fun h => hlt h.2)]
  · rw [if_neg hki, if_neg (by omega), if_neg (fun h => hki h.1)]

theorem store_store (m : BitVec w → α) (p : BitVec w) {n k : ℕ} (data : ℕ → α)
    (h : n + k < 2 ^ w) :
    store (store m p n data) (p + BitVec.ofNat w n) k (fun i => data (n + i)) =
      store m p (n + k) data := by
  funext a
  have hoff := sub_ofNat_toNat (n := n) (a - p) (by omega)
  have hr := (a - p).isLt
  simp only [store, sub_sub_ofNat, hoff]
  rcases Nat.lt_or_ge (a - p).toNat n with hlt | hge
  · rw [if_neg (Nat.not_le.mpr hlt), if_neg (by omega), if_pos hlt, if_pos (by omega)]
  · rw [if_pos hge, if_neg (Nat.not_lt.mpr hge)]
    by_cases hk : (a - p).toNat < n + k
    · rw [if_pos (by omega), if_pos hk, Nat.add_sub_cancel' hge]
    · rw [if_neg (by omega), if_neg hk]

end Armboard.Storage
