import Armboard.Exec.Narrows
import Armboard.MemoryTest.Fill

/-! # The addresses of the galloping pattern

The first of the two conditions of the outer loop has no effect, so the window always
has 256 words, whether the SDRAM does or not. Over a bus that records the address of
every access, the record stays inside the SDRAM unless the window begins in its last
1020 bytes, whatever the loads return.
-/

namespace Armboard.MemoryTest
open Exec

variable {μ : Type} {bus : Bus μ}

/-! ## Recorded accesses -/

/-- The same bus, with a record of the addresses of its accesses. -/
def Bus.traced (bus : Bus μ) : Bus (μ × List Word) where
  loadByte a m := ((bus.loadByte a m.1).1, (bus.loadByte a m.1).2, a :: m.2)
  loadWord a m := ((bus.loadWord a m.1).1, (bus.loadWord a m.1).2, a :: m.2)
  storeByte a b m := (bus.storeByte a b m.1, a :: m.2)
  storeWord a w m := (bus.storeWord a w m.1, a :: m.2)

def InSdram (a : Word) : Prop := sdramBase ≤ a ∧ a < sdramEnd

def Inside (t : Tester (μ × List Word)) : Prop := ∀ a ∈ t.mem.2, InSdram a

theorem inSdram_iff (a : Word) : InSdram a ↔ 0x20000000 ≤ a.toNat ∧ a.toNat < 0x24000000 := by
  rw [InSdram, BitVec.le_def, BitVec.lt_def, sdramBase_toNat, sdramEnd_toNat]

theorem cellAddr_inSdram {k : ℕ} (hk : k < cellCount 4) : InSdram (cellAddr 4 k) := by
  simp only [cellCount] at hk
  rw [inSdram_iff, cellAddr_toNat (by omega)]
  omega

/-! ## Single accesses -/

theorem inside_cons {t u : Tester (μ × List Word)} {a : Word} (h : u.mem.2 = a :: t.mem.2) :
    Inside u ↔ Inside t ∧ InSdram a := by
  rw [Inside, h, List.forall_mem_cons, and_comm]
  rfl

theorem loadWord_narrows (a : Word) : Narrows Inside (InSdram a) (loadWord bus.traced a) :=
  fun _ => inside_cons rfl

theorem storeWord_narrows (a v : Word) : Narrows Inside (InSdram a) (storeWord bus.traced a v) :=
  Narrows.modify fun _ => inside_cons rfl

theorem printf_narrows (format : String) (args : List Arg) :
    Narrows (Inside (μ := μ)) True (printf format args) :=
  Narrows.modify fun _ => (and_iff_left trivial).symm

theorem memoryError_narrows (testResult : Bool) (addr readback expected : Word) :
    Narrows (Inside (μ := μ)) True (memoryError testResult addr readback expected) := by
  intro s
  cases testResult with
  | true => exact (and_iff_left trivial).symm
  | false => exact (and_iff_left trivial).symm

theorem compare_narrows (testResult : Bool) (addr readback expected : Word) :
    Narrows (Inside (μ := μ)) True (compare testResult addr readback expected) :=
  Narrows.ite (memoryError_narrows _ _ _ _) (Narrows.pure _)

theorem gallopCell_narrows (testAddr val addr : Word) (testResult : Bool) :
    Narrows Inside (InSdram addr ∧ InSdram testAddr)
      (gallopCell bus.traced testAddr val addr testResult) := by
  unfold gallopCell
  apply Narrows.congr _ ((loadWord_narrows _).bind (fun _ => (compare_narrows _ _ _ _).bind
    (fun _ => (loadWord_narrows _).bind (fun _ => compare_narrows _ _ _ _))))
  simp

/-! ## The loops -/

theorem clearSDRAM_narrows : Narrows Inside True (clearSDRAM bus.traced) := by
  intro t
  apply wp_post (clearSDRAM_fill bus.traced t)
  rintro _ _ rfl
  rw [and_iff_left trivial]
  have hfill : ∀ k ≤ cellCount 4, (∀ a ∈ (fill bus.traced 4 0 t.mem k).2, InSdram a) ↔ Inside t := by
    intro k
    induction k with
    | zero => exact fun _ => Iff.rfl
    | succ k ih =>
      intro hk
      change (∀ a ∈ cellAddr 4 k :: (fill bus.traced 4 0 t.mem k).2, InSdram a) ↔ _
      rw [List.forall_mem_cons, ih (by omega), and_iff_right (cellAddr_inSdram hk)]
  exact hfill _ le_rfl

/-- A pass of the outer loop stays inside exactly if its test cell does. -/
theorem gallopFrom_narrows (testAddr : Word) (testResult : Bool) :
    Narrows Inside (InSdram testAddr) (gallopFrom bus.traced testAddr testResult) := by
  have hcells : ∀ val, Narrows Inside (∀ k < cellCount 4, InSdram testAddr)
      (loop .hang (fun c : Word × Bool => decide (c.1 < sdramEnd)) (fun c => do
        let testResult ← gallopCell bus.traced testAddr val c.1 c.2
        pure (c.1 + 4, testResult)) passes (sdramBase, testResult)) := by
    intro val
    apply Narrows.loop_count (fun k c => c.1 = cellAddr 4 k) _ (by decide) (cellAddr_zero 4).symm
    · rintro k hk ⟨a, r⟩ rfl
      exact decide_eq_true (cellAddr_lt_end (Accepted.mul_lt (Or.inr rfl) hk))
    · rintro k hk ⟨a, r⟩ rfl s
      rw [wp_bind]
      apply wp_post (gallopCell_narrows testAddr val (cellAddr 4 k) r s)
      intro r' t ht
      constructor
      · exact cellAddr_succ 4 k
      · rw [ht, and_iff_right (cellAddr_inSdram hk)]
    · rintro ⟨a, r⟩ rfl
      exact decide_eq_false (cellAddr_count (Or.inr rfl))
  unfold gallopFrom
  apply Narrows.congr _ ((printf_narrows _ _).bind (fun _ => (loadWord_narrows testAddr).bind
    (fun val => (storeWord_narrows testAddr _).bind (fun _ => (hcells val).bind
      (fun _ => (loadWord_narrows testAddr).bind (fun _ => (storeWord_narrows testAddr _).bind
        (fun _ => Narrows.pure _)))))))
  have hsome : 0 < cellCount 4 := by decide
  constructor
  · intro h
    exact h.2.1
  · intro h
    simp [h]

/-! ## The whole test -/

def windowStart (startAddr : Word) : Word :=
  if startAddr < sdramBase ∨ sdramEnd ≤ startAddr then sdramBase else startAddr

theorem windowStart_inSdram (startAddr : Word) : InSdram (windowStart startAddr) := by
  unfold windowStart
  split
  · constructor
    · decide
    · decide
  · rename_i h
    rw [not_or, BitVec.not_lt, BitVec.not_le] at h
    exact h

def testCell (start : Word) (j : ℕ) : Word := start + BitVec.ofNat 32 (4 * j)

theorem testCell_toNat {start : Word} (h : InSdram start) {j : ℕ} (hj : j ≤ 256) :
    (testCell start j).toNat = start.toNat + 4 * j := by
  rw [inSdram_iff] at h
  rw [testCell, BitVec.toNat_add, BitVec.toNat_ofNat]
  omega

/-- The condition that is left of the two makes 256 passes. -/
theorem testCell_lt_iff {start : Word} (h : InSdram start) {j : ℕ} (hj : j ≤ 256) :
    testCell start j - start < 0x400 ↔ j < 256 := by
  have hcell := testCell_toNat h hj
  have hlt := start.isLt
  rw [BitVec.lt_def, BitVec.toNat_sub, hcell, show (0x400 : Word).toNat = 0x400 from rfl]
  omega

theorem testCell_succ (start : Word) (j : ℕ) : testCell start j + 4 = testCell start (j + 1) := by
  rw [testCell, testCell, Nat.mul_succ, BitVec.ofNat_add, BitVec.add_assoc]
  rfl

theorem gallopingPatternTest_narrows (bus : Bus μ) (startAddr : Word) :
    Narrows Inside (∀ j < 256, InSdram (testCell (windowStart startAddr) j))
      (gallopingPatternTest bus.traced startAddr) := by
  have hstart := windowStart_inSdram startAddr
  have hcells : Narrows Inside (∀ j < 256, InSdram (testCell (windowStart startAddr) j))
      (loop .hang (fun c : Word × Bool => decide (c.1 - windowStart startAddr < 0x400)) (fun c => do
        let testResult ← gallopFrom bus.traced c.1 c.2
        pure (c.1 + 4, testResult)) passes (windowStart startAddr, false)) := by
    apply Narrows.loop_count (fun j c => c.1 = testCell (windowStart startAddr) j) _ (by decide)
    · simp [testCell]
    · rintro j hj ⟨a, r⟩ rfl
      exact decide_eq_true ((testCell_lt_iff hstart hj.le).mpr hj)
    · rintro j hj ⟨a, r⟩ rfl s
      rw [wp_bind]
      apply wp_post (gallopFrom_narrows _ r s)
      intro r' t ht
      constructor
      · exact testCell_succ _ j
      · exact ht
    · rintro ⟨a, r⟩ rfl
      exact decide_eq_false (fun h => lt_irrefl _ ((testCell_lt_iff hstart le_rfl).mp h))
  have hverdict : ∀ r, Narrows (Inside (μ := μ)) True (verdict r) := fun r =>
    Narrows.ite (printf_narrows _ _) (printf_narrows _ _)
  unfold gallopingPatternTest
  apply Narrows.congr _ ((printf_narrows _ _).bind (fun _ => clearSDRAM_narrows.bind (fun _ =>
    hcells.bind (fun c => hverdict c.2))))
  simp

/-- The last cell of the window decides. -/
theorem testCells_inside_iff (startAddr : Word) :
    (∀ j < 256, InSdram (testCell (windowStart startAddr) j)) ↔
      startAddr.toNat < 0x23FFFC04 ∨ 0x24000000 ≤ startAddr.toNat := by
  have hstart := windowStart_inSdram startAddr
  have hlast : (∀ j < 256, InSdram (testCell (windowStart startAddr) j)) ↔
      (windowStart startAddr).toNat < 0x23FFFC04 := by
    constructor
    · intro h
      have hcell := testCell_toNat hstart (j := 255) (by decide)
      have hin := (inSdram_iff _).mp (h 255 (by decide))
      omega
    · intro h j hj
      have hcell := testCell_toNat hstart hj.le
      rw [inSdram_iff] at hstart ⊢
      omega
  rw [hlast, windowStart]
  split
  · rename_i hout
    rw [BitVec.lt_def, BitVec.le_def, sdramBase_toNat, sdramEnd_toNat] at hout
    rw [sdramBase_toNat]
    omega
  · rename_i hin
    rw [BitVec.lt_def, BitVec.le_def, sdramBase_toNat, sdramEnd_toNat] at hin
    omega

/-- The test ends, and every address that it reads or writes lies in the SDRAM. -/
def StaysInside (bus : Bus μ) (m : μ) (startAddr : Word) : Prop :=
  ∃ t, gallopingPatternTest bus.traced startAddr ⟨(m, []), []⟩ = .ok () t ∧
    ∀ a ∈ t.mem.2, sdramBase.toNat ≤ a.toNat ∧ a.toNat < sdramBase.toNat + sdramSize.toNat

/-- Whatever the memory does, the test ends inside the SDRAM or outside, by the start address. -/
theorem staysInside_iff_cells (bus : Bus μ) (m : μ) (startAddr : Word) :
    StaysInside bus m startAddr ↔ ∀ j < 256, InSdram (testCell (windowStart startAddr) j) := by
  rcases wp_never.mp (gallopingPatternTest_narrows bus startAddr ⟨(m, []), []⟩) with
    ⟨_, t, hrun, ht⟩
  have hsdram : ∀ a : Word, (sdramBase.toNat ≤ a.toNat ∧
      a.toNat < sdramBase.toNat + sdramSize.toNat) ↔ InSdram a := fun a => (inSdram_iff a).symm
  have hempty : Inside (⟨(m, []), []⟩ : Tester (μ × List Word)) := by
    intro a ha
    cases ha
  rw [and_iff_right hempty] at ht
  rw [← ht]
  simp only [StaysInside, hsdram]
  constructor
  · rintro ⟨t', hrun', hin⟩
    rw [hrun] at hrun'
    cases hrun'
    exact hin
  · intro hin
    exact ⟨t, hrun, hin⟩

/-- Over every memory the galloping pattern ends, and stays inside the SDRAM if and only if its
start address is not one of the last 1020 bytes of it. -/
theorem gallopingPatternTest_inside_iff (bus : Bus μ) (m : μ) (startAddr : Word) :
    StaysInside bus m startAddr ↔
      startAddr.toNat < 0x23FFFC04 ∨ 0x24000000 ≤ startAddr.toNat := by
  rw [staysInside_iff_cells, testCells_inside_iff]

/-- From the last word of the SDRAM on, the window leaves it. -/
theorem gallopingPatternTest_leaves : ¬ ∀ startAddr : Word,
    StaysInside (wordCells (id : Word → Word)) (fun _ => 0) startAddr := by
  intro h
  have hcells := (staysInside_iff_cells _ _ _).mp (h 0x23FFFFFC)
  rw [testCells_inside_iff] at hcells
  exact absurd hcells (by decide)

end Armboard.MemoryTest
