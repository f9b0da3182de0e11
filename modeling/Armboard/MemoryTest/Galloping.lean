import Armboard.MemoryTest.Fill

/-! # What the galloping pattern detects

Every pass of the outer loop starts and ends with all words zero: complementing the
test cell twice undoes itself whatever else reaches the same cell. In between the
cell of the test word is the only one that is not zero, so another word reads
wrongly exactly if it shares that cell.
-/

namespace Armboard.MemoryTest
open Exec

variable {κ : Type} [DecidableEq κ] {d : Word → κ}

def Cleared (d : Word → κ) (m : κ → Word) : Prop := ∀ a, Tested 4 a → m (d a) = 0

/-- No other word of the SDRAM shares the cell of `a`. -/
def Alone (d : Word → κ) (a : Word) : Prop := ∀ b, Tested 4 b → b ≠ a → d b ≠ d a

def InWindow (startAddr a : Word) : Prop :=
  Tested 4 a ∧ startAddr.toNat ≤ a.toNat ∧ a.toNat < startAddr.toNat + 0x400

private theorem accepted : Accepted 4 := Or.inr rfl

/-! ## Clearing -/

theorem fill_cleared (m : κ → Word) {i k : ℕ} (hik : i < k) :
    fill (wordCells d) 4 0 m k (d (cellAddr 4 i)) = 0 := by
  induction k with
  | zero => exact absurd hik (Nat.not_lt_zero i)
  | succ k ih =>
    change Function.update (fill (wordCells d) 4 0 m k) (d (cellAddr 4 k)) 0 _ = 0
    rw [Function.update_apply]
    split
    · rfl
    · rename_i hne
      have hne' : i ≠ k := fun h => hne (by rw [h])
      exact ih (by omega)

theorem clearSDRAM_spec (t : Tester (κ → Word)) : wp (clearSDRAM (wordCells d))
    (fun _ u => Cleared d u.mem ∧ u.output = t.output) never t := by
  apply wp_post (clearSDRAM_fill (wordCells d) t)
  rintro _ _ rfl
  constructor
  · rintro _ ⟨i, hi, rfl⟩
    exact fill_cleared t.mem hi
  · rfl

/-! ## One test cell -/

/-- With `test` complemented and everything else zero, a cell reads wrongly if it is the same cell
under another address. -/
theorem gallopCell_spec (test addr : Word) (testResult : Bool) {t : Tester (κ → Word)}
    (hq : Quiet t.output) (htest : t.mem (d test) = ~~~0)
    (hzero : d addr ≠ d test → t.mem (d addr) = 0) :
    wp (gallopCell (wordCells d) test 0 addr testResult)
      (fun r u => u.mem = t.mem ∧ Quiet u.output ∧
        (r = true ↔ testResult = true ∨ (addr ≠ test ∧ d addr = d test))) never t := by
  have hfirst : t.mem (d addr) ≠ (if addr = test then ~~~0 else 0) ↔
      addr ≠ test ∧ d addr = d test := by
    by_cases ha : addr = test
    · rw [if_pos ha, ha]
      exact ⟨fun h => absurd htest h, fun h => absurd rfl h.1⟩
    · rw [if_neg ha]
      by_cases hd : d addr = d test
      · rw [hd, htest]
        exact ⟨fun _ => ⟨ha, rfl⟩, fun _ => by decide⟩
      · exact ⟨fun h => absurd (hzero hd) h, fun h => absurd h.2 hd⟩
  rw [gallopCell, wp_bind, wp_loadWord, wp_bind]
  apply wp_post (compare_spec testResult addr _ _ hq)
  rintro r u ⟨hm, hqu, hr⟩
  rw [wp_bind, wp_loadWord]
  apply wp_post (compare_spec r addr _ _ hqu)
  rintro r' v ⟨hm', hqv, hr'⟩
  have hsecond : u.mem (d test) = ~~~0 := by rw [hm]; exact htest
  refine ⟨hm'.trans hm, hqv, hr'.trans ?_⟩
  rw [hr]
  simp only [wordCells_loadWord]
  rw [or_iff_left (not_not.mpr hsecond), hfirst]

theorem gallopFrom_spec {i : ℕ} (hi : i < cellCount 4) (testResult : Bool) {t : Tester (κ → Word)}
    (hq : Quiet t.output) (hc : Cleared d t.mem) :
    wp (gallopFrom (wordCells d) (cellAddr 4 i) testResult)
      (fun r u => Cleared d u.mem ∧ Quiet u.output ∧
        (r = true ↔ testResult = true ∨ ¬ Alone d (cellAddr 4 i))) never t := by
  have hval : t.mem (d (cellAddr 4 i)) = 0 := hc _ ⟨i, hi, rfl⟩
  rw [gallopFrom, wp_bind, wp_printf, wp_bind, wp_loadWord, wp_bind, wp_storeWord, wp_bind]
  simp only [wordCells, hval]
  -- the cell of the test word, complemented, among zeros
  refine wp_loop_count (fun k c u => c.1 = cellAddr 4 k ∧
      u.mem = Function.update t.mem (d (cellAddr 4 i)) (~~~0) ∧ Quiet u.output ∧
      (c.2 = true ↔ testResult = true ∨
        ∃ j < k, cellAddr 4 j ≠ cellAddr 4 i ∧ d (cellAddr 4 j) = d (cellAddr 4 i)))
      (cellCount 4) ?_ ?_ _ 0 (Nat.zero_le _) (by decide) _ _
      ⟨(cellAddr_zero 4).symm, rfl, hq.printf _ (by decide) (by decide), ?_⟩
  · rintro k hk ⟨a, res⟩ u ⟨rfl, hm, hqu, hres⟩
    constructor
    · exact decide_eq_true (cellAddr_lt_end (accepted.mul_lt hk))
    rw [wp_bind]
    refine wp_post (gallopCell_spec (cellAddr 4 i) (cellAddr 4 k) res hqu ?_ ?_) ?_
    · rw [hm, Function.update_self]
    · intro hne
      rw [hm, Function.update_of_ne hne]
      exact hc _ ⟨k, hk, rfl⟩
    · rintro r v ⟨hv, hqv, hr⟩
      refine ⟨cellAddr_succ 4 k, hv.trans hm, hqv, hr.trans ?_⟩
      rw [hres, Nat.exists_lt_succ_right, or_assoc]
  · rintro ⟨a, res⟩ u ⟨rfl, hm, hqu, hres⟩
    constructor
    · exact decide_eq_false (cellAddr_count accepted)
    rw [wp_bind, wp_loadWord, wp_bind, wp_storeWord, wp_pure]
    refine ⟨?_, hqu, hres.trans (or_congr Iff.rfl ?_)⟩
    · intro a ha
      change Function.update u.mem (d (cellAddr 4 i)) (~~~ u.mem (d (cellAddr 4 i))) (d a) = 0
      rw [hm, Function.update_self, Function.update_apply]
      split
      · decide
      · rename_i hne
        rw [Function.update_of_ne hne]
        exact hc a ha
    · constructor
      · rintro ⟨j, hj, hne, heq⟩ halone
        exact halone _ ⟨j, hj, rfl⟩ hne heq
      · intro hnot
        by_contra hno
        apply hnot
        rintro _ ⟨j, hj, rfl⟩ hne heq
        exact hno ⟨j, hj, hne, heq⟩
  · exact ⟨Or.inl, fun h => h.resolve_right none_before⟩

/-! ## The whole test -/

/-- The words of the window are the 256 from its start on. -/
theorem inWindow_iff {s : ℕ} (hs : s + 256 ≤ cellCount 4) (a : Word) :
    InWindow (cellAddr 4 s) a ↔ ∃ j < 256, a = cellAddr 4 (s + j) := by
  simp only [cellCount] at hs
  have hstart := cellAddr_toNat (n := 4) (i := s) (by omega)
  constructor
  · rintro ⟨⟨i, hi, rfl⟩, hlow, hhigh⟩
    simp only [cellCount] at hi
    have hi' := cellAddr_toNat (n := 4) (i := i) (by omega)
    refine ⟨i - s, by omega, ?_⟩
    rw [Nat.add_sub_of_le (by omega)]
  · rintro ⟨j, hj, rfl⟩
    have hj' := cellAddr_toNat (n := 4) (i := s + j) (by omega)
    refine ⟨⟨s + j, ?_, rfl⟩, by omega, by omega⟩
    simp only [cellCount]
    omega

theorem window_test {s j : ℕ} (hs : s + 256 ≤ cellCount 4) (hj : j ≤ 256) :
    cellAddr 4 (s + j) - cellAddr 4 s < 0x400 ↔ j < 256 := by
  simp only [cellCount] at hs
  have hstart := cellAddr_toNat (n := 4) (i := s) (by omega)
  have hj' := cellAddr_toNat (n := 4) (i := s + j) (by omega)
  rw [BitVec.lt_def, BitVec.toNat_sub, hstart, hj', show (0x400 : Word).toNat = 0x400 from rfl]
  omega

/-- The pattern over the window that starts at the `s`-th word. -/
theorem gallopingPatternTest_spec {s : ℕ} (hs : s + 256 ≤ cellCount 4) (m : κ → Word) :
    wp (gallopingPatternTest (wordCells d) (cellAddr 4 s)) (fun _ t =>
      Verdict (∀ j < 256, Alone d (cellAddr 4 (s + j))) t.output ∧ Cleared d t.mem)
      never ⟨m, []⟩ := by
  have hin : ¬ (cellAddr 4 s < sdramBase ∨ sdramEnd ≤ cellAddr 4 s) := by
    simp only [cellCount] at hs
    have hstart := cellAddr_toNat (n := 4) (i := s) (by omega)
    rw [BitVec.lt_def, BitVec.le_def, hstart, sdramBase_toNat, sdramEnd_toNat]
    omega
  rw [gallopingPatternTest]
  simp only [if_neg hin]
  rw [wp_bind, wp_printf, wp_bind]
  apply wp_post (clearSDRAM_spec _)
  rintro _ t ⟨hc, ho⟩
  rw [wp_bind]
  -- the first `j` words of the window have been test cells, and all words are zero again
  refine wp_loop_count (fun j c u => c.1 = cellAddr 4 (s + j) ∧ Cleared d u.mem ∧ Quiet u.output ∧
      (c.2 = true ↔ ∃ i < j, ¬ Alone d (cellAddr 4 (s + i)))) 256 ?_ ?_ _ 0
      (Nat.zero_le _) (by decide) _ _ ?_
  · rintro j hj ⟨a, res⟩ u ⟨rfl, hcu, hqu, hres⟩
    constructor
    · exact decide_eq_true ((window_test hs hj.le).mpr hj)
    rw [wp_bind]
    apply wp_post (gallopFrom_spec (by omega) res hqu hcu)
    rintro r v ⟨hcv, hqv, hr⟩
    refine ⟨cellAddr_succ 4 (s + j), hcv, hqv, hr.trans ?_⟩
    rw [hres, Nat.exists_lt_succ_right]
  · rintro ⟨a, res⟩ u ⟨rfl, hcu, hqu, hres⟩
    constructor
    · exact decide_eq_false (fun h => absurd ((window_test hs le_rfl).mp h) (lt_irrefl _))
    refine wp_post (verdict_spec (hres.trans ?_) hqu) (fun _ v hv => ⟨hv.2, by rw [hv.1]; exact hcu⟩)
    simp only [not_forall, exists_prop]
  · refine ⟨rfl, hc, ?_, fun h => absurd h Bool.false_ne_true, fun h => absurd h none_before⟩
    rw [ho]
    exact Quiet.nil.printf _ (by decide) (by decide)

/-- Behind any decoder the galloping pattern prints OK exactly if no word of the window shares its
cell with another word of the SDRAM, and either way every word reads zero at the end. -/
theorem gallopingPatternTest_detects (d : Word → κ) (m : κ → Word) {startAddr : Word}
    (halign : startAddr.toNat % 4 = 0) (hlow : sdramBase.toNat ≤ startAddr.toNat)
    (hhigh : startAddr.toNat + 0x400 ≤ sdramBase.toNat + sdramSize.toNat) :
    ∃ t, gallopingPatternTest (wordCells d) startAddr ⟨m, []⟩ = .ok () t ∧
      Verdict (∀ a, InWindow startAddr a → Alone d a) t.output ∧ Cleared d t.mem := by
  rw [sdramBase_toNat] at hlow hhigh
  rw [show sdramSize.toNat = 0x04000000 from rfl] at hhigh
  obtain ⟨s, hs, rfl⟩ : ∃ s, s + 256 ≤ cellCount 4 ∧ startAddr = cellAddr 4 s := by
    have hs := cellAddr_toNat (n := 4) (i := (startAddr.toNat - 0x20000000) / 4) (by omega)
    refine ⟨(startAddr.toNat - 0x20000000) / 4, by simp only [cellCount]; omega, ?_⟩
    apply BitVec.eq_of_toNat_eq
    omega
  obtain ⟨_, t, hrun, hv, hc⟩ := wp_never.mp (gallopingPatternTest_spec (d := d) hs m)
  refine ⟨t, hrun, hv.congr ?_, hc⟩
  simp only [inWindow_iff hs]
  constructor
  · rintro h _ ⟨j, hj, rfl⟩
    exact h j hj
  · exact fun h j hj => h _ ⟨j, hj, rfl⟩

/-- The last kilobyte of the SDRAM, each word in a cell of its own. -/
theorem gallopingPatternTest_detects_last :
    (0x23FFFC00 : Word).toNat % 4 = 0 ∧ sdramBase.toNat ≤ (0x23FFFC00 : Word).toNat ∧
    (0x23FFFC00 : Word).toNat + 0x400 ≤ sdramBase.toNat + sdramSize.toNat ∧
    ∃ t, gallopingPatternTest (wordCells (id : Word → Word)) 0x23FFFC00 ⟨fun _ => 0, []⟩ = .ok () t ∧
      Verdict (∀ a, InWindow 0x23FFFC00 a → Alone (id : Word → Word) a) t.output ∧
      Cleared (id : Word → Word) t.mem :=
  ⟨by decide, by decide, by decide,
    gallopingPatternTest_detects id (fun _ => 0) (by decide) (by decide) (by decide)⟩

end Armboard.MemoryTest
