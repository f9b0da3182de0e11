import Armboard.MemoryTest.Fill
import Armboard.Storage.Cells

/-! # What the address test detects

The writing sweep leaves in each cell the number of the last address that reaches
it, so the reading sweep compares every address with the last one of its cell. With
words the numbers differ, with bytes only their low eight bits do.
-/

namespace Armboard.MemoryTest
open Exec Storage

variable {κ V : Type} {d : Word → κ} {n : ℕ}

/-! ## The cells of a sweep -/

def cellOf (d : Word → κ) (n i : ℕ) : κ := d (cellAddr n i)

/-- The last write to a cell comes from the largest address of the cell. -/
theorem isLast_iff {i j : ℕ} (h : Accepted n) (hj : j < cellCount n) :
    IsLast (cellOf d n) (cellCount n) i j ↔
      IsGreatest {b | Tested n b ∧ d b = d (cellAddr n i)} (cellAddr n j) := by
  constructor
  · rintro ⟨⟨-, hc⟩, hmax⟩
    constructor
    · exact ⟨⟨j, hj, rfl⟩, hc⟩
    rintro _ ⟨⟨k, hk, rfl⟩, hck⟩
    exact (cellAddr_le_iff h hk hj).mpr (hmax ⟨hk, hck⟩)
  · rintro ⟨⟨-, hc⟩, hmax⟩
    exact ⟨⟨hj, hc⟩, fun k hk => (cellAddr_le_iff h hk.1 hj).mp (hmax ⟨⟨k, hk.1, rfl⟩, hk.2⟩)⟩

theorem injOn_cellOf_iff (h : Accepted n) :
    Set.InjOn (cellOf d n) (Set.Iio (cellCount n)) ↔ Set.InjOn d {a | Tested n a} := by
  constructor
  · rintro hinj _ ⟨i, hi, rfl⟩ _ ⟨j, hj, rfl⟩ hij
    rw [hinj hi hj hij]
  · intro hinj i hi j hj hij
    exact cellAddr_inj h hi hj (hinj ⟨i, hi, rfl⟩ ⟨j, hj, rfl⟩ hij)

variable [DecidableEq κ]

/-! ## Single accesses -/

/-- Stores and comparisons of one access size reach one cell each, which keeps `enc` of a value. -/
structure Access (bus : Bus (κ → V)) (d : Word → κ) (enc : Word → V) (n : ℕ) : Prop where
  accepted : Accepted n
  store : ∀ a v t, wp (storeValue bus a v (BitVec.ofNat 32 n))
    (fun _ u => u = { t with mem := Function.update t.mem (d a) (enc v) }) never t
  check : ∀ a v t, wp (checkMemoryValue bus a v (BitVec.ofNat 32 n))
    (fun r u => u = t ∧ (r = true ↔ t.mem (d a) = enc v)) never t

theorem byteCells_access (d : Word → κ) : Access (byteCells d) d (BitVec.setWidth 8) 1 where
  accepted := Or.inl rfl
  store _ _ _ := rfl
  check a v t := ⟨rfl, by rw [decide_eq_true_iff]; exact low_byte_eq_iff _ v⟩

theorem wordCells_access (d : Word → κ) : Access (wordCells d) d id 4 where
  accepted := Or.inr rfl
  store _ _ _ := rfl
  check a v t := ⟨rfl, by rw [decide_eq_true_iff]; rfl⟩

/-! ## The run -/

variable {bus : Bus (κ → V)} {enc : Word → V}

def written (enc : Word → V) (i : ℕ) : V := enc (BitVec.ofNat 32 i)

theorem ofNat_succ (i : ℕ) : BitVec.ofNat 32 i + 1 = BitVec.ofNat 32 (i + 1) := by
  rw [BitVec.ofNat_add]
  rfl

theorem addressCheck_spec (h : Access bus d enc n) (readback a v : Word) (testResult : Bool)
    {t : Tester (κ → V)} (hq : Quiet t.output) :
    wp (addressCheck bus readback (BitVec.ofNat 32 n) a v testResult)
      (fun r u => u.mem = t.mem ∧ Quiet u.output ∧
        (r = true ↔ testResult = true ∨ t.mem (d a) ≠ enc v)) never t := by
  rw [addressCheck, wp_bind]
  apply wp_post (h.check a v t)
  rintro good _ ⟨rfl, hgood⟩
  cases good with
  | true =>
    have heq : _ = enc v := hgood.mp rfl
    exact ⟨rfl, hq, ⟨Or.inl, fun hor => hor.resolve_right (not_not.mpr heq)⟩⟩
  | false =>
    have hne : _ ≠ enc v := fun he => absurd (hgood.mpr he) (by decide)
    apply wp_post (memoryError_spec testResult a readback v _ hq)
    rintro r u ⟨rfl, hm, hqu⟩
    exact ⟨hm, hqu, fun _ => Or.inr hne, fun _ => rfl⟩

def ReadsBack (d : Word → κ) (enc : Word → V) (n : ℕ) (m : κ → V) : Prop :=
  ∀ i < cellCount n, sweep (cellOf d n) (written enc) m (cellCount n) (cellOf d n i) = written enc i

theorem addressTest_spec (h : Access bus d enc n) (readback : Word) (m : κ → V) :
    Decides (addressTest bus readback (BitVec.ofNat 32 n)) m (ReadsBack d enc n m) := by
  have hpasses : ∀ N, cellCount N < passes + 0 := fun N =>
    (Nat.div_le_self _ _).trans_lt (by decide)
  have hsize : ¬ (BitVec.ofNat 32 n ≠ 1 ∧ BitVec.ofNat 32 n ≠ 4) := by
    rcases h.accepted with rfl | rfl <;> decide
  suffices hwp : wp (addressTest bus readback (BitVec.ofNat 32 n))
      (fun _ t => Verdict (ReadsBack d enc n m) t.output) never ⟨m, []⟩ by
    obtain ⟨_, t, hrun, hv⟩ := wp_never.mp hwp
    exact ⟨t, hrun, hv⟩
  simp only [addressTest, printf, wp_bind, wp_modify, if_neg hsize]
  -- the sweep that writes: after `k` passes the cells hold the first `k` numbers
  refine wp_loop_count (fun k c t => c = (cellAddr n k, BitVec.ofNat 32 k) ∧
      t.mem = sweep (cellOf d n) (written enc) m k ∧ Quiet t.output) (cellCount n) ?_ ?_ _ 0
      (Nat.zero_le _) (hpasses n) _ _ ⟨?_, rfl, ?_⟩
  · rintro k hk _ t ⟨rfl, hm, hq⟩
    constructor
    · exact decide_eq_true (cellAddr_lt_end (h.accepted.mul_lt hk))
    rw [wp_bind]
    apply wp_post (h.store _ _ t)
    rintro _ u rfl
    refine ⟨?_, ?_, hq⟩
    · simp only [cellAddr_succ, ofNat_succ]
    · rw [sweep, ← hm]
      rfl
  · rintro _ t ⟨rfl, hm, hq⟩
    constructor
    · exact decide_eq_false (cellAddr_count h.accepted)
    -- the sweep that reads: the result tells whether one of the first `k` cells was wrong
    refine wp_loop_count (fun k c u => c.1 = cellAddr n k ∧ c.2.1 = BitVec.ofNat 32 k ∧
        u.mem = t.mem ∧ Quiet u.output ∧
        (c.2.2 = true ↔ ∃ i < k, t.mem (cellOf d n i) ≠ written enc i)) (cellCount n) ?_ ?_ _ 0
        (Nat.zero_le _) (hpasses n) _ _ ⟨?_, rfl, rfl, hq.printf [] (by decide) (by decide), ?_⟩
    · rintro k hk ⟨a, v, res⟩ u ⟨rfl, rfl, hu, hqu, hres⟩
      constructor
      · exact decide_eq_true (cellAddr_lt_end (h.accepted.mul_lt hk))
      rw [wp_bind]
      apply wp_post (addressCheck_spec h readback _ _ res hqu)
      rintro r w ⟨hw, hqw, hr⟩
      refine ⟨cellAddr_succ n k, ofNat_succ k, hw.trans hu, hqw, hr.trans ?_⟩
      rw [hres, hu, Nat.exists_lt_succ_right]
      rfl
    · rintro ⟨a, v, res⟩ u ⟨rfl, rfl, hu, hqu, hres⟩
      constructor
      · exact decide_eq_false (cellAddr_count h.accepted)
      refine wp_post (verdict_spec (hres.trans ?_) hqu) (fun _ _ hv => hv.2)
      simp only [hm, ReadsBack, not_forall, exists_prop]
    · exact (cellAddr_zero n).symm
    · exact ⟨fun hf => absurd hf (by decide), fun h => absurd h none_before⟩
  · rw [cellAddr_zero]
    rfl
  · exact (Quiet.nil.printf _ (by decide) (by decide)).printf [] (by decide) (by decide)

/-! ## What is detected -/

/-- Every tested address agrees with the largest one that reaches the same cell, as far as a cell of
`n` bytes can tell their numbers apart. -/
def AgreesWithLargest (d : Word → κ) (n : ℕ) : Prop :=
  ∀ a, Tested n a → ∃ b, IsGreatest {b | Tested n b ∧ d b = d a} b ∧
    index n a ≡ index n b [MOD 2 ^ (8 * n)]

theorem readsBack_iff (h : Accepted n) (henc : ∀ i j, written enc i = written enc j ↔
    i ≡ j [MOD 2 ^ (8 * n)]) (m : κ → V) : ReadsBack d enc n m ↔ AgreesWithLargest d n := by
  rw [ReadsBack, sweep_reads_back_iff]
  constructor
  · rintro hlast _ ⟨i, hi, rfl⟩
    obtain ⟨j, hj, hv⟩ := hlast i hi
    refine ⟨_, (isLast_iff h hj.1.1).mp hj, ?_⟩
    rw [index_cellAddr h hi, index_cellAddr h hj.1.1]
    exact ((henc j i).mp hv).symm
  · intro hagree i hi
    obtain ⟨_, hb, hmod⟩ := hagree _ ⟨i, hi, rfl⟩
    obtain ⟨j, hj, rfl⟩ := hb.1.1
    rw [index_cellAddr h hi, index_cellAddr h hj] at hmod
    exact ⟨j, (isLast_iff h hj).mpr hb, (henc j i).mpr hmod.symm⟩

theorem written_byte_iff (i j : ℕ) : written (BitVec.setWidth 8) i = written (BitVec.setWidth 8) j ↔
    i ≡ j [MOD 2 ^ (8 * 1)] := by
  rw [written, written, ← BitVec.toNat_inj, BitVec.toNat_setWidth, BitVec.toNat_setWidth,
    BitVec.toNat_ofNat, BitVec.toNat_ofNat, Nat.ModEq]
  omega

theorem written_word_iff (i j : ℕ) : written id i = written id j ↔ i ≡ j [MOD 2 ^ (8 * 4)] := by
  rw [written, written, id, id, ← BitVec.toNat_inj, BitVec.toNat_ofNat, BitVec.toNat_ofNat,
    Nat.ModEq]

theorem written_word_injOn : Set.InjOn (written id) (Set.Iio (cellCount 4)) := by
  intro i hi j hj hij
  have hmod := (written_word_iff i j).mp hij
  rw [Set.mem_Iio] at hi hj
  simp only [cellCount] at hi hj
  rw [Nat.ModEq, Nat.mod_eq_of_lt (by omega), Nat.mod_eq_of_lt (by omega)] at hmod
  exact hmod

/-- Behind any decoder the address test of either access size prints OK exactly if every tested
address agrees with the largest one of its cell; with words this means that no two tested addresses
share a cell. -/
theorem addressTest_detects (d : Word → κ) (readback : Word) :
    (∀ m, Decides (addressTest (byteCells d) readback 1) m (AgreesWithLargest d 1)) ∧
    (∀ m, Decides (addressTest (wordCells d) readback 4) m (AgreesWithLargest d 4)) ∧
    ∀ m, Decides (addressTest (wordCells d) readback 4) m (Set.InjOn d {a | Tested 4 a}) := by
  refine ⟨fun m => ?_, fun m => ?_, fun m => ?_⟩
  · exact (addressTest_spec (byteCells_access d) readback m).congr
      (readsBack_iff (Or.inl rfl) written_byte_iff m)
  · exact (addressTest_spec (wordCells_access d) readback m).congr
      (readsBack_iff (Or.inr rfl) written_word_iff m)
  · exact (addressTest_spec (wordCells_access d) readback m).congr
      ((sweep_reads_back_iff_injOn written_word_injOn).trans (injOn_cellOf_iff (Or.inr rfl)))

end Armboard.MemoryTest
