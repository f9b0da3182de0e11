import Mathlib.Data.Set.Function
import Mathlib.Order.Bounds.Basic
import Mathlib.Tactic.Common

/-! # Sweeping writes behind a map of cells

A sweep writes one value after the other, each to the cell that a map assigns to its
index. Where several indices share a cell the last one wins, so reading everything
back tells exactly which indices share a cell with a different value.
-/

namespace Armboard.Storage

universe u v
variable {κ : Type u} {V : Type v} [DecidableEq κ] {cell : ℕ → κ} {val : ℕ → V} {m : κ → V}
  {n i j : ℕ}

/-- Write `val 0`, …, `val (n - 1)` to the cells of their indices, in this order. -/
def sweep (cell : ℕ → κ) (val : ℕ → V) (m : κ → V) : ℕ → κ → V
  | 0 => m
  | n + 1 => Function.update (sweep cell val m n) (cell n) (val n)

theorem foldl_sweep (p : ℕ) : (List.range p).foldl
    (fun m i => Function.update m (cell (n + i)) (val (n + i))) (sweep cell val m n) =
      sweep cell val m (n + p) := by
  induction p with
  | zero => rfl
  | succ p ih => rw [List.range_succ, List.foldl_append, ih, List.foldl_cons, List.foldl_nil]; rfl

/-- `j` is the last of the first `n` indices that share the cell of `i`. -/
def IsLast (cell : ℕ → κ) (n i j : ℕ) : Prop := IsGreatest {j | j < n ∧ cell j = cell i} j

theorem exists_isLast (hi : i < n) : ∃ j, IsLast cell n i j := by
  induction n with
  | zero => omega
  | succ n ih =>
    by_cases hc : cell n = cell i
    · exact ⟨n, ⟨Nat.lt_succ_self n, hc⟩, fun j hj => Nat.le_of_lt_succ hj.1⟩
    · have hne : i ≠ n := fun h => hc (by rw [h])
      obtain ⟨j, ⟨hj, hcj⟩, hmax⟩ := ih (by omega)
      refine ⟨j, ⟨Nat.lt_succ_of_lt hj, hcj⟩, fun k hk => ?_⟩
      have hkn : k ≠ n := fun h => hc (by rw [← h]; exact hk.2)
      have hk1 := hk.1
      exact hmax ⟨by omega, hk.2⟩

theorem sweep_of_isLast (h : IsLast cell n i j) : sweep cell val m n (cell i) = val j := by
  induction n with
  | zero => exact absurd h.1.1 (Nat.not_lt_zero j)
  | succ n ih =>
    obtain ⟨⟨hj, hc⟩, hmax⟩ := h
    rw [sweep]
    by_cases hn : cell n = cell i
    · have hjn : n = j := by
        have hle := hmax ⟨Nat.lt_succ_self n, hn⟩
        omega
      rw [← hn, Function.update_self, hjn]
    · rw [Function.update_of_ne (Ne.symm hn)]
      have hjn : j ≠ n := fun h => hn (by rw [← h, hc])
      exact ih ⟨⟨by omega, hc⟩, fun k hk => hmax ⟨Nat.lt_succ_of_lt hk.1, hk.2⟩⟩

theorem sweep_of_injOn (h : Set.InjOn cell (Set.Iio n)) (hi : i < n) :
    sweep cell val m n (cell i) = val i := by
  apply sweep_of_isLast
  constructor
  · exact ⟨hi, rfl⟩
  · intro k hk
    exact (h hk.1 hi hk.2).le

/-- Everything reads back as written if and only if each index holds the value of the last index
that shares its cell. -/
theorem sweep_reads_back_iff : (∀ i < n, sweep cell val m n (cell i) = val i) ↔
    ∀ i < n, ∃ j, IsLast cell n i j ∧ val j = val i := by
  constructor
  · intro h i hi
    obtain ⟨j, hj⟩ : ∃ j, IsLast cell n i j := exists_isLast hi
    have hlast : sweep cell val m n (cell i) = val j := sweep_of_isLast hj
    exact ⟨j, hj, by rw [← hlast, h i hi]⟩
  · intro h i hi
    obtain ⟨j, hj, hv⟩ := h i hi
    rw [sweep_of_isLast hj, hv]

/-- With a different value for every index, reading back detects every shared cell. -/
theorem sweep_reads_back_iff_injOn (hv : Set.InjOn val (Set.Iio n)) :
    (∀ i < n, sweep cell val m n (cell i) = val i) ↔ Set.InjOn cell (Set.Iio n) := by
  rw [sweep_reads_back_iff]
  constructor
  · intro h i hi j hj hij
    obtain ⟨a, ha, hva⟩ := h i hi
    obtain ⟨b, hb, hvb⟩ := h j hj
    have hab : a = b := by
      rw [IsLast, hij] at ha
      exact ha.unique hb
    have hai : a = i := hv ha.1.1 hi hva
    have hbj : b = j := hv hb.1.1 hj hvb
    omega
  · intro h
    rw [← sweep_reads_back_iff (m := m)]
    exact fun i hi => sweep_of_injOn h hi

end Armboard.Storage
