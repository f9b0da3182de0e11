import Armboard.MemoryTest.AddressTest
import Armboard.MemoryTest.March

/-! # Stuck bits and the march test

Over byte-wide cells a pass stores byte `j % n` of its value in the `j`-th byte. The
two passes store complementary values, so a bit that is stuck reads wrongly in one
of them.
-/

namespace Armboard.MemoryTest
open Exec Storage

variable {κ : Type} {d : Word → κ} {fault : κ → Stuck} {n : ℕ}

/-! ## Bytes of a word -/

theorem getLsbD_lane (w : Word) (i k : ℕ) (hk : k < 8) :
    (lane w i).getLsbD k = w.getLsbD (8 * i + k) := by
  simp [lane, hk]

theorem lane_zero (w : Word) : lane w 0 = w.setWidth 8 := by
  simp [lane]

theorem lane_not (w : Word) {i : ℕ} (hi : i < 4) : lane (~~~w) i = ~~~lane w i := by
  apply BitVec.eq_of_getLsbD_eq
  intro k hk
  have hlt : 8 * i + k < 32 := by omega
  rw [getLsbD_lane _ _ _ hk, BitVec.getLsbD_not, BitVec.getLsbD_not, getLsbD_lane _ _ _ hk]
  simp only [hk, hlt]

theorem getLsbD_wordOf (x : ℕ → Byte) {i k : ℕ} (hi : i < 4) (hk : k < 8) :
    (wordOf x).getLsbD (8 * i + k) = (x i).getLsbD k := by
  simp only [wordOf, BitVec.getLsbD_append]
  interval_cases i
  · rw [if_pos (by omega), Nat.mul_zero, Nat.zero_add]
  · rw [if_neg (by omega), if_pos (by omega)]
    congr 1
    omega
  · rw [if_neg (by omega), if_neg (by omega), if_pos (by omega)]
    congr 1
    omega
  · rw [if_neg (by omega), if_neg (by omega), if_neg (by omega)]
    congr 1
    omega

theorem wordOf_eq_iff (x : ℕ → Byte) (v : Word) : wordOf x = v ↔ ∀ i < 4, x i = lane v i := by
  constructor
  · rintro rfl i hi
    apply BitVec.eq_of_getLsbD_eq
    intro k hk
    rw [getLsbD_lane _ _ _ hk, getLsbD_wordOf x hi hk]
  · intro h
    apply BitVec.eq_of_getLsbD_eq
    intro k hk
    have hdiv : 8 * (k / 8) + k % 8 = k := Nat.div_add_mod k 8
    have hi : k / 8 < 4 := by omega
    have hk8 : k % 8 < 8 := Nat.mod_lt k (by omega)
    rw [← hdiv, getLsbD_wordOf x hi hk8, h _ hi, getLsbD_lane _ _ _ hk8]

/-! ## Stuck cells -/

theorem sense_both_iff (s : Stuck) (b : Byte) :
    s.sense b = b ∧ s.sense (~~~b) = ~~~b ↔ ∀ i < 8, s.mask.getLsbD i = false := by
  constructor
  · rintro ⟨h, hn⟩ i hi
    have hbit := congrArg (fun x => x.getLsbD i) h
    have hnbit := congrArg (fun x => x.getLsbD i) hn
    simp only [Stuck.sense, BitVec.getLsbD_or, BitVec.getLsbD_and, BitVec.getLsbD_not, hi] at hbit hnbit
    cases hm : s.mask.getLsbD i with
    | false => rfl
    | true => cases hb : b.getLsbD i <;> cases hv : s.value.getLsbD i <;> simp [hm, hb, hv] at hbit hnbit
  · intro h
    have hsense : ∀ x, s.sense x = x := by
      intro x
      apply BitVec.eq_of_getLsbD_eq
      intro i hi
      simp only [Stuck.sense, BitVec.getLsbD_or, BitVec.getLsbD_and, BitVec.getLsbD_not, h i hi, hi]
      simp
    exact ⟨hsense b, hsense (~~~b)⟩

variable [DecidableEq κ]

theorem stuckCells_steady : (stuckCells d fault).Steady := ⟨fun _ _ => rfl, fun _ _ => rfl⟩

theorem cellAddr_add (n i l : ℕ) : cellAddr n i + BitVec.ofNat 32 l = cellAddr 1 (n * i + l) := by
  rw [cellAddr, cellAddr, Nat.one_mul, BitVec.ofNat_add, BitVec.add_assoc]

/-- What byte `j` of the SDRAM holds in a pass with value `v`. -/
def stored (v : Word) (n j : ℕ) : Byte := lane v (j % n)

theorem stored_add (v : Word) (k : ℕ) {l : ℕ} (hl : l < n) : stored v n (n * k + l) = lane v l := by
  rw [stored, Nat.mul_add_mod, Nat.mod_eq_of_lt hl]

theorem put_stuckCells (h : Accepted n) (v : Word) (m : κ → Byte) (k : ℕ) :
    (stuckCells d fault).put n v (cellAddr n k) (sweep (cellOf d 1) (stored v n) m (n * k)) =
      sweep (cellOf d 1) (stored v n) m (n * (k + 1)) := by
  rcases h with rfl | rfl
  · simp only [Nat.one_mul, sweep]
    simp [Bus.put, stuckCells, byteCells, cellOf, stored, lane_zero, Nat.mod_one]
  · rw [Nat.mul_succ, ← foldl_sweep]
    apply List.foldl_ext
    intro m l hl
    rw [stored_add v k (List.mem_range.mp hl), cellOf, ← cellAddr_add]

theorem fill_stuckCells (h : Accepted n) (v : Word) (m : κ → Byte) (k : ℕ) :
    fill (stuckCells d fault) n v m k = sweep (cellOf d 1) (stored v n) m (n * k) := by
  induction k with
  | zero => rfl
  | succ k ih => rw [fill, ih, put_stuckCells h]

/-- A comparison looks at the bytes of its address one by one. -/
theorem holds_stuckCells_iff (h : Accepted n) (v : Word) (i : ℕ) (m : κ → Byte) :
    (stuckCells d fault).Holds n v (cellAddr n i) m ↔ ∀ l < n, (fault (cellOf d 1 (n * i + l))).sense
      (m (cellOf d 1 (n * i + l))) = stored v n (n * i + l) := by
  have hlanes : (∀ l < n, (fault (cellOf d 1 (n * i + l))).sense (m (cellOf d 1 (n * i + l))) =
      stored v n (n * i + l)) ↔ ∀ l < n, (fault (d (cellAddr n i + BitVec.ofNat 32 l))).sense
        (m (d (cellAddr n i + BitVec.ofNat 32 l))) = lane v l := by
    apply forall₂_congr
    intro l hl
    rw [stored_add v i hl, cellOf, ← cellAddr_add]
  rw [hlanes]
  rcases h with rfl | rfl
  · simp [Bus.Holds, stuckCells, lane_zero]
  · rw [← wordOf_eq_iff]
    rfl

/-! ## The march test over stuck cells -/

theorem Accepted.mul_count_one (h : Accepted n) : n * cellCount n = cellCount 1 := by
  rw [h.mul_count, cellCount, Nat.div_one]

def PassReads (d : Word → κ) (fault : κ → Stuck) (n : ℕ) (v : Word) (m : κ → Byte) : Prop :=
  ∀ j < cellCount 1, (fault (cellOf d 1 j)).sense
    (sweep (cellOf d 1) (stored v n) m (cellCount 1) (cellOf d 1 j)) = stored v n j

theorem reads_stuckCells_iff (h : Accepted n) (v : Word) (m : κ → Byte) :
    Reads (stuckCells d fault) n v (filled (stuckCells d fault) n v m) ↔ PassReads d fault n v m := by
  rw [filled, fill_stuckCells h, h.mul_count_one]
  constructor
  · intro hr j hj
    have hn : 0 < n := by rcases h with rfl | rfl <;> simp
    have hdiv : n * (j / n) + j % n = j := Nat.div_add_mod j n
    have hi : j / n < cellCount n := by
      rw [← h.mul_count_one] at hj
      exact Nat.div_lt_of_lt_mul hj
    have hbyte := (holds_stuckCells_iff h v _ _).mp (hr _ hi) (j % n) (Nat.mod_lt j hn)
    rwa [hdiv] at hbyte
  · intro hp i hi
    rw [holds_stuckCells_iff h]
    intro l hl
    apply hp
    rw [← h.mul_count_one]
    exact (Nat.add_lt_add_left hl _).trans_le (Nat.mul_le_mul_left n hi)

theorem marchTest_stuckCells (d : Word → κ) (fault : κ → Stuck) (h : Accepted n)
    (addr readback : Word) (m : κ → Byte) :
    ∃ m₀ m₁, Decides (marchTest (stuckCells d fault) addr readback (BitVec.ofNat 32 n)) m
      (PassReads d fault n 1 m₀ ∧ PassReads d fault n (~~~1) m₁) := by
  have hsteady : (stuckCells d fault).Steady := stuckCells_steady
  have hspec := marchTest_spec hsteady h addr readback m
  simp only [reads_stuckCells_iff h] at hspec
  exact ⟨_, _, hspec⟩

/-- With a cell for every byte a pass stores into healthy bits what it then reads. -/
theorem passReads_iff (hinj : Set.InjOn d {a | Tested 1 a}) (v : Word) (m : κ → Byte) :
    PassReads d fault n v m ↔
      ∀ j < cellCount 1, (fault (cellOf d 1 j)).sense (stored v n j) = stored v n j := by
  apply forall₂_congr
  intro j hj
  rw [sweep_of_injOn ((injOn_cellOf_iff (Or.inl rfl)).mpr hinj) hj]

theorem stored_not (h : Accepted n) (v : Word) (j : ℕ) : stored (~~~v) n j = ~~~stored v n j := by
  apply lane_not
  rcases h with rfl | rfl
  · omega
  · omega

/-- In front of a one-to-one decoder the march test of either access size ends, and prints OK
exactly if no bit of the SDRAM is stuck. -/
theorem marchTest_detects (hinj : Set.InjOn d {a | Tested 1 a}) (h : Accepted n)
    (addr readback : Word) (m : κ → Byte) :
    Decides (marchTest (stuckCells d fault) addr readback (BitVec.ofNat 32 n)) m
      (∀ a, Tested 1 a → ∀ i < 8, (fault (d a)).mask.getLsbD i = false) := by
  obtain ⟨m₀, m₁, hd⟩ := marchTest_stuckCells d fault h addr readback m
  apply hd.congr
  rw [passReads_iff hinj, passReads_iff hinj]
  constructor
  · rintro ⟨hone, hnot⟩ _ ⟨j, hj, rfl⟩
    rw [← sense_both_iff _ (stored 1 n j), ← stored_not h]
    exact ⟨hone j hj, hnot j hj⟩
  · intro hall
    have hboth : ∀ j < cellCount 1, _ := fun j hj =>
      (sense_both_iff (fault (cellOf d 1 j)) (stored 1 n j)).mpr (hall _ ⟨j, hj, rfl⟩)
    constructor
    · intro j hj
      exact (hboth j hj).1
    · intro j hj
      rw [stored_not h]
      exact (hboth j hj).2

/-- The last byte of the SDRAM, with bit 3 stuck at 1. -/
def lastStuck (a : Word) : Stuck := if a = cellAddr 1 0x03FFFFFF then ⟨0x08, 0x08⟩ else ⟨0, 0⟩

theorem lastStuck_stuck :
    ¬ ∀ a, Tested 1 a → ∀ i < 8, (lastStuck (id a)).mask.getLsbD i = false := by
  intro hall
  have hbit := hall (cellAddr 1 0x03FFFFFF) ⟨0x03FFFFFF, by decide, rfl⟩ 3 (by decide)
  rw [id_eq, lastStuck, if_pos rfl] at hbit
  exact absurd hbit (by decide)

/-- With accesses of bytes and of words the test ends and prints TEST FAILED. -/
theorem marchTest_detects_lastStuck :
    Decides (marchTest (stuckCells id lastStuck) 0 0 (BitVec.ofNat 32 1)) (fun _ => 0) False ∧
    Decides (marchTest (stuckCells id lastStuck) 0 0 (BitVec.ofNat 32 4)) (fun _ => 0) False := by
  have hstuck := iff_false_intro lastStuck_stuck
  constructor
  · exact Decides.congr hstuck (marchTest_detects Function.injective_id.injOn (Or.inl rfl) 0 0 _)
  · exact Decides.congr hstuck (marchTest_detects Function.injective_id.injOn (Or.inr rfl) 0 0 _)

end Armboard.MemoryTest
