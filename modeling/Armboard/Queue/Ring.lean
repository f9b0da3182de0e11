import Mathlib.Data.List.Basic
import Mathlib.Data.Nat.ModEq
import Mathlib.Tactic.Common

/-! # A ring of slots as a queue

The slots of a ring are filled at one index and emptied at another, both going round
in the same direction. What the slots hold, read from the emptying index on, is a
queue: filling appends to it and emptying takes its first entry.
-/

namespace Armboard.Queue

universe u
variable {α : Type u}

/-- The index after `i` in a ring of `n` slots. -/
def next (n i : ℕ) : ℕ := if i = n - 1 then 0 else i + 1

theorem next_lt {n i : ℕ} (h : i < n) : next n i < n := by
  rw [next]
  split <;> omega

theorem next_eq_mod {n i : ℕ} (h : i < n) : next n i = (i + 1) % n := by
  rw [next]
  split
  · rw [show i + 1 = n by omega, Nat.mod_self]
  · rw [Nat.mod_eq_of_lt (by omega)]

/-- From `head` on the slots hold the entries of `q`, in order, up to `tail`. -/
structure Holds (n : ℕ) (slot : ℕ → Option α) (head tail : ℕ) (q : List α) : Prop where
  head_lt : head < n
  length_le : q.length ≤ n
  tail_eq : tail = (head + q.length) % n
  slot_eq : ∀ i < n, slot ((head + i) % n) = q[i]?

variable {n head tail : ℕ} {slot slot' : ℕ → Option α} {q : List α} {a : α}

theorem holds_empty (hn : 0 < n) (h : ∀ i < n, slot i = none) : Holds n slot 0 0 ([] : List α) where
  head_lt := hn
  length_le := Nat.zero_le n
  tail_eq := by simp
  slot_eq i hi := by
    rw [Nat.zero_add, Nat.mod_eq_of_lt hi, h i hi]
    rfl

namespace Holds

theorem tail_lt (h : Holds n slot head tail q) : tail < n := by
  rw [h.tail_eq]
  exact Nat.mod_lt _ (by have := h.head_lt; omega)

theorem slot_head (h : Holds n slot head tail q) : slot head = q.head? := by
  have h0 := h.slot_eq 0 (by have := h.head_lt; omega)
  rwa [Nat.add_zero, Nat.mod_eq_of_lt h.head_lt, ← List.head?_eq_getElem?] at h0

/-- The slot at the filling index is free as long as the queue is not full. -/
theorem slot_tail_eq_none_iff (h : Holds n slot head tail q) : slot tail = none ↔ q.length < n := by
  have hlen := h.length_le
  have hpos := h.head_lt
  rcases Nat.lt_or_eq_of_le hlen with hlt | heq
  · rw [h.tail_eq, h.slot_eq q.length hlt]
    simp [hlt]
  · have htail : tail = head := by
      rw [h.tail_eq, heq, Nat.add_mod_right, Nat.mod_eq_of_lt h.head_lt]
    have hne : q ≠ [] := by
      intro hq
      rw [hq, List.length_nil] at heq
      omega
    rw [htail, h.slot_head]
    simp [hne, heq]

theorem offset_injective {i j : ℕ} (hi : i < n) (hj : j < n)
    (h : (head + i) % n = (head + j) % n) : i = j := by
  have hcancel : Nat.ModEq n i j := Nat.ModEq.add_left_cancel' head h
  exact hcancel.eq_of_lt_of_lt hi hj

theorem replace {b : α} (h : Holds n slot head tail (a :: q)) (hnew : slot' head = some b)
    (hrest : ∀ i < n, i ≠ head → slot' i = slot i) : Holds n slot' head tail (b :: q) where
  head_lt := h.head_lt
  length_le := h.length_le
  tail_eq := h.tail_eq
  slot_eq i hi := by
    have hpos := h.head_lt
    by_cases h0 : i = 0
    · rw [h0, Nat.add_zero, Nat.mod_eq_of_lt hpos, hnew]
      rfl
    · have hne : (head + i) % n ≠ head := by
        intro heq
        have hmod : (head + i) % n = (head + 0) % n := by
          rw [heq, Nat.add_zero, Nat.mod_eq_of_lt hpos]
        exact h0 (offset_injective hi (by omega) hmod)
      rw [hrest _ (Nat.mod_lt _ (by omega)) hne, h.slot_eq i hi]
      cases i with
      | zero => exact absurd rfl h0
      | succ i => rfl

theorem push (h : Holds n slot head tail q) (hlt : q.length < n) (hfill : slot' tail = some a)
    (hrest : ∀ i < n, i ≠ tail → slot' i = slot i) :
    Holds n slot' head (next n tail) (q ++ [a]) where
  head_lt := h.head_lt
  length_le := by
    rw [List.length_append, List.length_singleton]
    exact hlt
  tail_eq := by
    rw [next_eq_mod h.tail_lt, h.tail_eq, List.length_append, List.length_singleton, ← Nat.add_assoc,
      Nat.mod_add_mod]
  slot_eq i hi := by
    have hpos := h.head_lt
    by_cases hiq : i = q.length
    · rw [hiq, ← h.tail_eq, hfill]
      simp
    · have hne : (head + i) % n ≠ tail := by
        intro heq
        rw [h.tail_eq] at heq
        exact hiq (offset_injective hi hlt heq)
      rw [hrest _ (Nat.mod_lt _ (by omega)) hne, h.slot_eq i hi]
      rcases Nat.lt_or_gt_of_ne hiq with hlti | hgt
      · rw [List.getElem?_append_left hlti]
      · rw [List.getElem?_eq_none (by omega), List.getElem?_eq_none (by simp; omega)]

theorem pop (h : Holds n slot head tail (a :: q)) (hfree : slot' head = none)
    (hrest : ∀ i < n, i ≠ head → slot' i = slot i) : Holds n slot' (next n head) tail q where
  head_lt := next_lt h.head_lt
  length_le := by
    have := h.length_le
    rw [List.length_cons] at this
    omega
  tail_eq := by
    rw [h.tail_eq, next_eq_mod h.head_lt, List.length_cons, Nat.mod_add_mod, Nat.add_right_comm,
      ← Nat.add_assoc]
  slot_eq i hi := by
    have hpos := h.head_lt
    have hlen := h.length_le
    rw [List.length_cons] at hlen
    rw [next_eq_mod hpos, Nat.mod_add_mod, Nat.add_assoc, Nat.add_comm 1 i]
    rcases Nat.lt_or_eq_of_le (Nat.succ_le_of_lt hi) with hlt | heq
    · have hne : (head + (i + 1)) % n ≠ head := by
        intro heq
        have hmod : (head + (i + 1)) % n = (head + 0) % n := by
          rw [heq, Nat.add_zero, Nat.mod_eq_of_lt hpos]
        exact absurd (offset_injective hlt (by omega) hmod) (by omega)
      rw [hrest _ (Nat.mod_lt _ (by omega)) hne, h.slot_eq (i + 1) hlt, List.getElem?_cons_succ]
    · rw [show i + 1 = n from heq, Nat.add_mod_right, Nat.mod_eq_of_lt hpos, hfree,
        List.getElem?_eq_none (by omega)]

end Holds

end Armboard.Queue
