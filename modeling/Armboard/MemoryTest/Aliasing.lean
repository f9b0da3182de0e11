import Armboard.MemoryTest.StuckBits

/-! # What the march test says about shared cells

Every store of a pass writes the same value before the first comparison, so it does
not matter which of several addresses wrote a cell last. Only where a word is cut
into bytes does the value differ from one cell to the next.
-/

namespace Armboard.MemoryTest
open Exec Storage

variable {μ κ : Type} [DecidableEq κ] {d : Word → κ}

/-- The test prints TEST FAILED unless every tested address has its cell for itself. -/
def ReportsSharing (x : Test μ Unit) (m : μ) (alone : Prop) : Prop :=
  ¬ alone → ∃ t, x ⟨m, []⟩ = .ok () t ∧ failedText ∈ t.output

theorem Decides.reportsSharing_iff {x : Test μ Unit} {m : μ} {P alone : Prop} (h : Decides x m P) :
    ReportsSharing x m alone ↔ alone ∨ ¬ P := by
  rcases h with ⟨t, hx, hv⟩
  constructor
  · intro hr
    by_cases ha : alone
    · exact Or.inl ha
    · right
      rcases hr ha with ⟨u, hu, hf⟩
      have htu : t = u := by
        rw [hx] at hu
        cases hu
        rfl
      subst htu
      exact hv.failed.mp hf
  · intro hor hn
    exact ⟨t, hx, hv.failed.mpr (hor.resolve_left hn)⟩

/-! ## Cells as wide as the accesses -/

@[simp] theorem sense_healthy (b : Byte) : Stuck.sense ⟨0, 0⟩ b = b := by
  change (b &&& BitVec.allOnes 8) ||| 0#8 = b
  simp only [BitVec.and_allOnes, BitVec.or_zero]

theorem stuckCells_healthy (d : Word → κ) : stuckCells d (fun _ => ⟨0, 0⟩) = byteCells d := by
  simp only [stuckCells, byteCells, sense_healthy]

theorem passReads_healthy_iff (n : ℕ) (v : Word) (m : κ → Byte) :
    PassReads d (fun _ => ⟨0, 0⟩) n v m ↔ ∀ i < cellCount 1, ∃ j,
      IsLast (cellOf d 1) (cellCount 1) i j ∧ stored v n j = stored v n i := by
  rw [← sweep_reads_back_iff (m := m)]
  simp only [PassReads, sense_healthy]

theorem marchTest_bytes_ok (d : Word → κ) (addr readback : Word) (m : κ → Byte) :
    Decides (marchTest (byteCells d) addr readback 1) m True := by
  have hpass : ∀ v m₀, PassReads d (fun _ => ⟨0, 0⟩) 1 v m₀ := by
    intro v m₀
    rw [passReads_healthy_iff]
    intro i hi
    have hlast : ∃ j, IsLast (cellOf d 1) (cellCount 1) i j := exists_isLast hi
    rcases hlast with ⟨j, hj⟩
    exact ⟨j, hj, by simp [stored, Nat.mod_one]⟩
  rcases marchTest_stuckCells d (fun _ => ⟨0, 0⟩) (Or.inl rfl) addr readback m with ⟨m₀, m₁, hd⟩
  rw [stuckCells_healthy] at hd
  exact hd.congr (iff_true_intro ⟨hpass 1 m₀, hpass (~~~1) m₁⟩)

theorem fill_wordCells (v : Word) (m : κ → Word) (k : ℕ) :
    fill (wordCells d) 4 v m k = sweep (cellOf d 4) (fun _ => v) m k := by
  induction k with
  | zero => rfl
  | succ k ih => rw [fill, ih]; rfl

theorem marchTest_words_ok (d : Word → κ) (addr readback : Word) (m : κ → Word) :
    Decides (marchTest (wordCells d) addr readback 4) m True := by
  have hsteady : (wordCells d).Steady := ⟨fun _ _ => rfl, fun _ _ => rfl⟩
  have hreads : ∀ v m₀, Reads (wordCells d) 4 v (filled (wordCells d) 4 v m₀) := by
    intro v m₀ i hi
    rw [filled, fill_wordCells]
    revert i
    apply sweep_reads_back_iff.mpr
    intro i hi
    have hlast : ∃ j, IsLast (cellOf d 4) (cellCount 4) i j := exists_isLast hi
    rcases hlast with ⟨j, hj⟩
    exact ⟨j, hj, rfl⟩
  exact (marchTest_spec hsteady (Or.inr rfl) addr readback m).congr
    (iff_true_intro ⟨hreads 1 _, hreads (~~~1) _⟩)

/-! ## Words over cells of a byte -/

/-- Bytes that share a cell have the same offset in their words, or both have one that is not 0. -/
def SameOffsets (d : Word → κ) : Prop :=
  ∀ a b, Tested 1 a → Tested 1 b → d a = d b → (a.toNat % 4 = 0 ↔ b.toNat % 4 = 0)

theorem stored_one_eq_iff (i j : ℕ) : stored 1 4 i = stored 1 4 j ↔ (i % 4 = 0 ↔ j % 4 = 0) := by
  have hi := Nat.mod_lt i (show 0 < 4 by simp)
  have hj := Nat.mod_lt j (show 0 < 4 by simp)
  simp only [stored]
  generalize i % 4 = a at *
  generalize j % 4 = b at *
  interval_cases a <;> interval_cases b <;> decide

theorem cellAddr_one_mod {j : ℕ} (hj : j < cellCount 1) : (cellAddr 1 j).toNat % 4 = j % 4 := by
  rw [cellAddr_toNat (by simp only [cellCount] at hj; omega)]
  omega

/-- Both passes read back what they stored exactly if the last byte of a cell agrees with all of
them, that is if any two do. -/
theorem passReads_four_iff (m : κ → Byte) :
    PassReads d (fun _ => ⟨0, 0⟩) 4 1 m ↔ SameOffsets d := by
  rw [passReads_healthy_iff]
  constructor
  · rintro h _ _ ⟨i, hi, rfl⟩ ⟨j, hj, rfl⟩ hij
    rcases h i hi with ⟨k, hk, hki⟩
    rcases h j hj with ⟨l, hl, hlj⟩
    have hkl : k = l := by
      rw [IsLast, show cellOf d 1 i = cellOf d 1 j from hij] at hk
      exact hk.unique hl
    rw [stored_one_eq_iff] at hki hlj
    rw [cellAddr_one_mod hi, cellAddr_one_mod hj, ← hki, hkl, hlj]
  · intro h i hi
    have hlast : ∃ j, IsLast (cellOf d 1) (cellCount 1) i j := exists_isLast hi
    rcases hlast with ⟨j, hj⟩
    have hoff := h _ _ ⟨j, hj.1.1, rfl⟩ ⟨i, hi, rfl⟩ hj.1.2
    rw [cellAddr_one_mod hi, cellAddr_one_mod hj.1.1] at hoff
    exact ⟨j, hj, (stored_one_eq_iff j i).mpr hoff⟩

theorem passReads_not_iff (n : ℕ) (h : Accepted n) (v : Word) (m m' : κ → Byte) :
    PassReads d (fun _ => ⟨0, 0⟩) n (~~~v) m ↔ PassReads d (fun _ => ⟨0, 0⟩) n v m' := by
  rw [passReads_healthy_iff, passReads_healthy_iff]
  simp only [stored_not h, BitVec.not_inj]

theorem marchTest_words_over_bytes (d : Word → κ) (addr readback : Word) (m : κ → Byte) :
    Decides (marchTest (byteCells d) addr readback 4) m (SameOffsets d) := by
  have h : Accepted 4 := Or.inr rfl
  rcases marchTest_stuckCells d (fun _ => ⟨0, 0⟩) h addr readback m with ⟨m₀, m₁, hd⟩
  rw [stuckCells_healthy] at hd
  apply hd.congr
  rw [passReads_not_iff 4 h 1 m₁ m₀, and_self, passReads_four_iff]

omit [DecidableEq κ] in
theorem not_sameOffsets_iff : ¬ SameOffsets d ↔ ∃ a b, Tested 1 a ∧ Tested 1 b ∧ d a = d b ∧
    a.toNat % 4 = 0 ∧ b.toNat % 4 ≠ 0 := by
  constructor
  · intro h
    simp only [SameOffsets, not_forall] at h
    rcases h with ⟨a, b, ha, hb, hab, hoff⟩
    by_cases hzero : a.toNat % 4 = 0
    · exact ⟨a, b, ha, hb, hab, hzero, fun hbz => hoff ⟨fun _ => hbz, fun _ => hzero⟩⟩
    · have hbzero : b.toNat % 4 = 0 := by
        by_contra hbz
        exact hoff ⟨fun h => absurd h hzero, fun h => absurd h hbz⟩
      exact ⟨b, a, hb, ha, hab.symm, hbzero, hzero⟩
  · rintro ⟨a, b, ha, hb, hab, hzero, hbz⟩ h
    exact hbz ((h a b ha hb hab).mp hzero)

/-! ## What is reported -/

/-- With cells as wide as the accesses a shared cell is never reported. With words over cells of a
byte it is reported if a first byte of a word shares the cell of another byte of a word. -/
theorem marchTest_reports_iff (d : Word → κ) (addr readback : Word) :
    (∀ m, ReportsSharing (marchTest (byteCells d) addr readback 1) m
      (Set.InjOn d {a | Tested 1 a}) ↔ Set.InjOn d {a | Tested 1 a}) ∧
    (∀ m, ReportsSharing (marchTest (wordCells d) addr readback 4) m
      (Set.InjOn d {a | Tested 4 a}) ↔ Set.InjOn d {a | Tested 4 a}) ∧
    ∀ m, ReportsSharing (marchTest (byteCells d) addr readback 4) m
      (Set.InjOn d {a | Tested 1 a}) ↔ Set.InjOn d {a | Tested 1 a} ∨
        ∃ a b, Tested 1 a ∧ Tested 1 b ∧ d a = d b ∧ a.toNat % 4 = 0 ∧ b.toNat % 4 ≠ 0 := by
  refine ⟨fun m => ?_, fun m => ?_, fun m => ?_⟩
  · rw [(marchTest_bytes_ok d addr readback m).reportsSharing_iff]
    simp
  · rw [(marchTest_words_ok d addr readback m).reportsSharing_iff]
    simp
  · rw [(marchTest_words_over_bytes d addr readback m).reportsSharing_iff, not_sameOffsets_iff]

/-- An address line that is not connected: half of the memory is there twice. -/
theorem not_reports_missing_line :
    ¬ ReportsSharing (marchTest (byteCells fun a : Word => a &&& 0xFDFFFFFF) 0 0 1) (fun _ => 0)
      (Set.InjOn (fun a : Word => a &&& 0xFDFFFFFF) {a | Tested 1 a}) := by
  intro hr
  rw [(marchTest_bytes_ok _ 0 0 _).reportsSharing_iff] at hr
  have hinj := hr.resolve_right (not_not.mpr trivial)
  have htwo : cellAddr 1 0 = cellAddr 1 0x02000000 :=
    hinj ⟨0, by simp, rfl⟩ ⟨0x02000000, by simp, rfl⟩ (by decide)
  exact absurd htwo (by decide)

end Armboard.MemoryTest
