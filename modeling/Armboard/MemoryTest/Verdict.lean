import Armboard.MemoryTest.Tests
import Mathlib.Tactic

/-! # Verdicts and test addresses

A test that says nothing but OK or TEST FAILED is settled by its last line. The
addresses it visits are numbered from the start of the SDRAM.
-/

namespace Armboard.MemoryTest
open Exec

variable {μ : Type}

/-! ## Single steps -/

theorem wp_printf {Q : Unit → Tester μ → Prop} {E : Halt → Tester μ → Prop} {t : Tester μ}
    (format : String) (args : List Arg) :
    wp (printf format args) Q E t ↔ Q () { t with output := .printf format args :: t.output } :=
  Iff.rfl

theorem wp_loadWord {Q : Word → Tester μ → Prop} {E : Halt → Tester μ → Prop} {t : Tester μ}
    (bus : Bus μ) (addr : Word) : wp (loadWord bus addr) Q E t ↔
      Q (bus.loadWord addr t.mem).1 { t with mem := (bus.loadWord addr t.mem).2 } :=
  Iff.rfl

theorem wp_storeWord {Q : Unit → Tester μ → Prop} {E : Halt → Tester μ → Prop} {t : Tester μ}
    (bus : Bus μ) (addr val : Word) : wp (storeWord bus addr val) Q E t ↔
      Q () { t with mem := bus.storeWord addr val t.mem } :=
  Iff.rfl

theorem wordCells_loadWord {κ : Type} [DecidableEq κ] (d : Word → κ) (addr : Word)
    (m : κ → Word) : (wordCells d).loadWord addr m = (m (d addr), m) := rfl

/-! ## Verdicts -/

def okText : Output := .printf "\n\rOK\n\r" []
def failedText : Output := .printf "\n\rTEST FAILED\n\r" []

/-- Text without a verdict. -/
def Quiet (l : List Output) : Prop := okText ∉ l ∧ failedText ∉ l

/-- The text gives one verdict: OK if `P` holds and TEST FAILED if it does not. -/
structure Verdict (P : Prop) (l : List Output) : Prop where
  ok : okText ∈ l ↔ P
  failed : failedText ∈ l ↔ ¬ P

/-- The test ends and its verdict is about `P`. -/
def Decides (x : Test μ Unit) (m : μ) (P : Prop) : Prop :=
  ∃ t, x ⟨m, []⟩ = .ok () t ∧ Verdict P t.output

theorem Quiet.nil : Quiet [] := ⟨List.not_mem_nil, List.not_mem_nil⟩

theorem Quiet.printf {l : List Output} (h : Quiet l) {format : String} (args : List Arg)
    (hok : format ≠ "\n\rOK\n\r") (hfailed : format ≠ "\n\rTEST FAILED\n\r") :
    Quiet (.printf format args :: l) := by
  constructor
  · rintro (_ | ⟨_, hl⟩)
    · exact hok rfl
    · exact h.1 hl
  · rintro (_ | ⟨_, hl⟩)
    · exact hfailed rfl
    · exact h.2 hl

theorem Verdict.congr {P Q : Prop} (h : P ↔ Q) {l : List Output} (hv : Verdict P l) : Verdict Q l :=
  ⟨hv.ok.trans h, hv.failed.trans (not_congr h)⟩

theorem Decides.congr {P Q : Prop} (h : P ↔ Q) {x : Test μ Unit} {m : μ} (hd : Decides x m P) :
    Decides x m Q := by
  obtain ⟨t, hx, hv⟩ := hd
  exact ⟨t, hx, hv.congr h⟩

theorem Quiet.verdict_ok {P : Prop} {l : List Output} (hq : Quiet l) (hP : P) :
    Verdict P (okText :: l) := by
  have hne : failedText ≠ okText := by decide
  constructor
  · exact ⟨fun _ => hP, fun _ => List.mem_cons_self⟩
  · constructor
    · intro hm
      exact absurd ((List.mem_cons.mp hm).resolve_left hne) hq.2
    · exact fun hn => absurd hP hn

theorem Quiet.verdict_failed {P : Prop} {l : List Output} (hq : Quiet l) (hP : ¬ P) :
    Verdict P (failedText :: l) := by
  have hne : okText ≠ failedText := by decide
  constructor
  · constructor
    · intro hm
      exact absurd ((List.mem_cons.mp hm).resolve_left hne) hq.1
    · exact fun hp => absurd hp hP
  · exact ⟨fun _ => hP, fun _ => List.mem_cons_self⟩

theorem verdict_spec {testResult : Bool} {P : Prop} (h : testResult = true ↔ ¬ P) {t : Tester μ}
    (hq : Quiet t.output) :
    wp (verdict testResult) (fun _ u => u.mem = t.mem ∧ Verdict P u.output) never t := by
  cases testResult with
  | true => exact ⟨rfl, hq.verdict_failed (h.mp rfl)⟩
  | false =>
    have hP : P := by
      by_contra hn
      exact absurd (h.mpr hn) (by decide)
    exact ⟨rfl, hq.verdict_ok hP⟩

/-- A reported error sets `test_result`, and prints no verdict. -/
theorem memoryError_spec (testResult : Bool) (addr readback expected : Word) (t : Tester μ)
    (hq : Quiet t.output) :
    wp (memoryError testResult addr readback expected)
      (fun r u => r = true ∧ u.mem = t.mem ∧ Quiet u.output) never t := by
  cases testResult with
  | true => exact ⟨rfl, rfl, hq.printf _ (by decide) (by decide)⟩
  | false =>
    exact ⟨rfl, rfl, (hq.printf [] (by decide) (by decide)).printf _ (by decide) (by decide)⟩

theorem compare_spec (testResult : Bool) (addr readback expected : Word) {t : Tester μ}
    (hq : Quiet t.output) :
    wp (compare testResult addr readback expected) (fun r u => u.mem = t.mem ∧ Quiet u.output ∧
      (r = true ↔ testResult = true ∨ readback ≠ expected)) never t := by
  unfold compare
  split
  · rename_i hne
    apply wp_post (memoryError_spec testResult addr readback expected t hq)
    rintro r u ⟨rfl, hm, hqu⟩
    exact ⟨hm, hqu, fun _ => Or.inr hne, fun _ => rfl⟩
  · rename_i heq
    exact ⟨rfl, hq, ⟨Or.inl, fun hor => hor.resolve_right heq⟩⟩

/-- Before the first pass of a loop no comparison has failed. -/
theorem none_before {P : ℕ → Prop} : ¬ ∃ i < 0, P i := by
  rintro ⟨i, hi, -⟩
  exact Nat.not_lt_zero i hi

/-! ## Test addresses -/

/-- The `i`-th address of a sweep in steps of `n` bytes. -/
def cellAddr (n i : ℕ) : Word := sdramBase + BitVec.ofNat 32 (n * i)

abbrev cellCount (n : ℕ) : ℕ := 0x04000000 / n

/-- Access sizes the tests take: they divide the SDRAM evenly. -/
def Accepted (n : ℕ) : Prop := n = 1 ∨ n = 4

theorem sdramBase_toNat : sdramBase.toNat = 0x20000000 := rfl

theorem sdramEnd_toNat : sdramEnd.toNat = 0x24000000 := rfl

variable {n i j : ℕ}

theorem Accepted.mul_count (h : Accepted n) : n * cellCount n = 0x04000000 := by
  rcases h with rfl | rfl <;> rfl

theorem Accepted.mul_lt (h : Accepted n) (hi : i < cellCount n) : n * i < 0x04000000 := by
  rcases h with rfl | rfl <;> simp only [cellCount] at hi <;> omega

theorem cellAddr_toNat (h : n * i ≤ 0x04000000) : (cellAddr n i).toNat = 0x20000000 + n * i := by
  rw [cellAddr, BitVec.toNat_add, BitVec.toNat_ofNat, sdramBase_toNat]
  omega

theorem cellAddr_zero (n : ℕ) : cellAddr n 0 = sdramBase := by
  rw [cellAddr, Nat.mul_zero]
  rfl

theorem cellAddr_succ (n i : ℕ) : cellAddr n i + BitVec.ofNat 32 n = cellAddr n (i + 1) := by
  rw [cellAddr, cellAddr, Nat.mul_succ, BitVec.ofNat_add, BitVec.add_assoc]

theorem cellAddr_lt_end (h : n * i < 0x04000000) : cellAddr n i < sdramEnd := by
  rw [BitVec.lt_def, cellAddr_toNat h.le, sdramEnd_toNat]
  omega

theorem cellAddr_count (h : Accepted n) : ¬ cellAddr n (cellCount n) < sdramEnd := by
  rw [BitVec.lt_def, cellAddr_toNat h.mul_count.le, h.mul_count, sdramEnd_toNat]
  omega

theorem cellAddr_le_iff (h : Accepted n) (hi : i < cellCount n) (hj : j < cellCount n) :
    cellAddr n i ≤ cellAddr n j ↔ i ≤ j := by
  rw [BitVec.le_def, cellAddr_toNat (h.mul_lt hi).le, cellAddr_toNat (h.mul_lt hj).le]
  rcases h with rfl | rfl <;> omega

theorem cellAddr_inj (h : Accepted n) (hi : i < cellCount n) (hj : j < cellCount n)
    (he : cellAddr n i = cellAddr n j) : i = j :=
  Nat.le_antisymm ((cellAddr_le_iff h hi hj).mp (BitVec.le_of_eq he))
    ((cellAddr_le_iff h hj hi).mp (BitVec.le_of_eq he.symm))

def Tested (n : ℕ) (a : Word) : Prop := ∃ i < cellCount n, a = cellAddr n i

def index (n : ℕ) (a : Word) : ℕ := (a.toNat - sdramBase.toNat) / n

theorem index_cellAddr (h : Accepted n) (hi : i < cellCount n) : index n (cellAddr n i) = i := by
  rw [index, cellAddr_toNat (h.mul_lt hi).le, sdramBase_toNat, Nat.add_sub_cancel_left]
  rcases h with rfl | rfl
  · rw [Nat.one_mul, Nat.div_one]
  · exact Nat.mul_div_cancel_left i (by decide)

end Armboard.MemoryTest
