import Mathlib.Data.List.Basic

/-! # Runs of one character

Two texts of which one is ahead by a run of some character: what both have in common
behind the run can be taken away and leaves the run in place.
-/

namespace Armboard.Text

variable {α : Type*} {c : α}

theorem replicate_append_comm (c : α) (j : ℕ) (a : List α) :
    List.replicate j c ++ c :: a = List.replicate (j + 1) c ++ a := by
  rw [List.replicate_succ', List.append_assoc]
  rfl

/-- A run passes through a text that is repeated behind it. -/
theorem run_cancel {j : ℕ} {a b : List α} (x : List α)
    (h : List.replicate j c ++ (x ++ a) = x ++ b) : List.replicate j c ++ a = b := by
  induction x with
  | nil => exact h
  | cons d x ih =>
    cases j with
    | zero => exact List.append_cancel_left h
    | succ j =>
      rw [List.replicate_succ, List.cons_append, List.cons_append, List.cons_append] at h
      obtain ⟨rfl, htail⟩ := List.cons.inj h
      rw [replicate_append_comm] at htail
      exact ih htail

/-- Of two runs the shorter one is taken off the longer one. -/
theorem run_diff {i j : ℕ} {a b : List α} (hij : i ≤ j)
    (h : List.replicate i c ++ a = List.replicate j c ++ b) : a = List.replicate (j - i) c ++ b := by
  obtain ⟨k, rfl⟩ := Nat.exists_eq_add_of_le hij
  rw [List.replicate_add, List.append_assoc] at h
  rw [Nat.add_sub_cancel_left]
  exact List.append_cancel_left h

/-- A run ends where another character stands. -/
theorem run_end {i j : ℕ} {u v : α} {a b : List α} (hu : u ≠ c) (hv : v ≠ c)
    (h : List.replicate i c ++ u :: a = List.replicate j c ++ v :: b) : u = v := by
  rcases Nat.lt_trichotomy i j with hlt | rfl | hlt
  · have hd := run_diff (Nat.le_of_lt hlt) h
    rw [show j - i = j - i - 1 + 1 by omega, List.replicate_succ] at hd
    exact absurd (List.cons.inj hd).1 hu
  · exact (List.cons.inj (List.append_cancel_left h)).1
  · have hd := run_diff (Nat.le_of_lt hlt) h.symm
    rw [show i - j = i - j - 1 + 1 by omega, List.replicate_succ] at hd
    exact absurd (List.cons.inj hd).1 hv

end Armboard.Text
