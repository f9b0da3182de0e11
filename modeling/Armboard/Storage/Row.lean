import Mathlib.Data.List.Basic
import Mathlib.Data.List.GetD
import Mathlib.Logic.Function.Basic
import Mathlib.Tactic.Common

/-! # Rows of cells

A numbered store holds a list from a place on when its cells are the entries of the
list in order. Rows can be cut and joined, and writing elsewhere leaves them alone.
-/

namespace Armboard.Storage

universe u
variable {α : Type u}

/-- The cells from `i` on hold the entries of the list. -/
def Row (d : ℕ → α) (i : ℕ) : List α → Prop
  | [] => True
  | a :: l => d i = a ∧ Row d (i + 1) l

variable {d d' : ℕ → α} {i j : ℕ} {l l' : List α}

@[simp] theorem row_nil (d : ℕ → α) (i : ℕ) : Row d i [] := trivial

@[simp] theorem row_cons {a : α} : Row d i (a :: l) ↔ d i = a ∧ Row d (i + 1) l := Iff.rfl

@[simp] theorem row_append : Row d i (l ++ l') ↔ Row d i l ∧ Row d (i + l.length) l' := by
  induction l generalizing i with
  | nil => simp
  | cons a l ih =>
    simp only [List.cons_append, row_cons, ih, List.length_cons, and_assoc, Nat.add_assoc,
      Nat.add_comm 1]

theorem row_iff : Row d i l ↔ ∀ k (hk : k < l.length), d (i + k) = l[k] := by
  induction l generalizing i with
  | nil => simp
  | cons a l ih =>
    rw [row_cons, ih]
    constructor
    · rintro ⟨hfirst, hrest⟩ k hk
      cases k with
      | zero => exact hfirst
      | succ k =>
        rw [List.length_cons] at hk
        have hcell := hrest k (by omega)
        rwa [Nat.add_right_comm] at hcell
    · intro h
      refine ⟨h 0 (by simp), fun k hk => ?_⟩
      have hcell := h (k + 1) (by simpa using hk)
      rwa [← Nat.add_assoc, Nat.add_right_comm] at hcell

theorem Row.congr (h : Row d i l) (heq : ∀ k < l.length, d' (i + k) = d (i + k)) : Row d' i l := by
  rw [row_iff] at h ⊢
  intro k hk
  rw [heq k hk, h k hk]

theorem Row.update (h : Row d i l) (a : α) (hj : j < i ∨ i + l.length ≤ j) :
    Row (Function.update d j a) i l := by
  apply h.congr
  intro k hk
  exact Function.update_of_ne (by omega) _ _

theorem Row.snoc (h : Row d i l) (a : α) : Row (Function.update d (i + l.length) a) i (l ++ [a]) := by
  rw [row_append]
  exact ⟨h.update a (Or.inr (Nat.le_refl _)), Function.update_self _ _ _, trivial⟩

theorem Row.unique (h : Row d i l) (h' : Row d i l') (hlen : l.length = l'.length) : l = l' := by
  rw [row_iff] at h h'
  apply List.ext_getElem hlen
  intro k hk hk'
  rw [← h k hk, h' k hk']

theorem row_getD (l : List α) (a : α) : Row (fun k => l.getD k a) 0 l := by
  rw [row_iff]
  intro k hk
  rw [Nat.zero_add, List.getD_eq_getElem _ _ hk]

def cells (d : ℕ → α) (i n : ℕ) : List α := (List.range n).map fun k => d (i + k)

@[simp] theorem cells_length (d : ℕ → α) (i n : ℕ) : (cells d i n).length = n := by simp [cells]

theorem row_cells (d : ℕ → α) (i n : ℕ) : Row d i (cells d i n) := by
  rw [row_iff]
  intro k hk
  simp [cells]

theorem cells_congr {n : ℕ} (h : ∀ k < n, d' (i + k) = d (j + k)) : cells d' i n = cells d j n :=
  List.map_congr_left fun k hk => h k (List.mem_range.mp hk)

theorem cells_append (d : ℕ → α) (i n m : ℕ) : cells d i (n + m) = cells d i n ++ cells d (i + n) m := by
  simp only [cells, List.range_add, List.map_append, List.map_map, Function.comp_def, Nat.add_assoc]

end Armboard.Storage
