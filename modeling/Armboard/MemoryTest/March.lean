import Armboard.MemoryTest.Fill

/-! # A run of the march test

Where loads keep the memory, the march test is two sweeps of stores, each followed
by a look at every address. The descending loop visits the addresses of the
ascending one, and `test_result` remembers every failure of both passes.
-/

namespace Armboard.MemoryTest
open Exec

variable {μ : Type} {bus : Bus μ} {n : ℕ}

/-- The comparison succeeds at every tested address. -/
def Reads (bus : Bus μ) (n : ℕ) (v : Word) (m : μ) : Prop :=
  ∀ i < cellCount n, bus.Holds n v (cellAddr n i) m

abbrev filled (bus : Bus μ) (n : ℕ) (v : Word) (m : μ) : μ := fill bus n v m (cellCount n)

/-! ## The descending loop -/

def downAddr (n k : ℕ) : Word := sdramEnd - BitVec.ofNat 32 (n * (k + 1))

theorem downAddr_zero (n : ℕ) : downAddr n 0 = sdramEnd - BitVec.ofNat 32 n := by
  simp [downAddr]

theorem downAddr_succ (n k : ℕ) : downAddr n k - BitVec.ofNat 32 n = downAddr n (k + 1) := by
  rw [downAddr, downAddr, BitVec.sub_sub, ← BitVec.ofNat_add, Nat.mul_succ n (k + 1)]

theorem downAddr_toNat (h : Accepted n) {k : ℕ} (hk : k ≤ cellCount n) :
    (downAddr n k).toNat = 0x24000000 - n * (k + 1) := by
  have hle : n * k ≤ 0x04000000 := (Nat.mul_le_mul_left n hk).trans h.mul_count.le
  have hn : n ≤ 4 := by rcases h with rfl | rfl <;> omega
  rw [downAddr, BitVec.toNat_sub, sdramEnd_toNat, BitVec.toNat_ofNat, Nat.mul_succ]
  omega

theorem downAddr_eq (h : Accepted n) {k : ℕ} (hk : k < cellCount n) :
    downAddr n k = cellAddr n (cellCount n - 1 - k) := by
  have hmul : n * (cellCount n - 1 - k) + n * (k + 1) = 0x04000000 := by
    rw [← Nat.mul_add, ← h.mul_count]
    congr 1
    omega
  apply BitVec.eq_of_toNat_eq
  rw [downAddr_toNat h hk.le, cellAddr_toNat (by omega)]
  omega

theorem base_le_downAddr_iff (h : Accepted n) {k : ℕ} (hk : k ≤ cellCount n) :
    sdramBase ≤ downAddr n k ↔ k < cellCount n := by
  rw [BitVec.le_def, downAddr_toNat h hk, sdramBase_toNat]
  rcases h with rfl | rfl
  · simp only [cellCount] at *
    omega
  · simp only [cellCount] at *
    omega

theorem exists_down_iff {P : ℕ → Prop} :
    (∃ k < n, P (n - 1 - k)) ↔ ∃ i < n, P i := by
  constructor
  · rintro ⟨k, hk, hP⟩
    exact ⟨n - 1 - k, by omega, hP⟩
  · rintro ⟨i, hi, hP⟩
    refine ⟨n - 1 - i, by omega, ?_⟩
    rwa [show n - 1 - (n - 1 - i) = i by omega]

/-! ## One pass -/

theorem marchCheck_spec (hs : bus.Steady) (h : Accepted n) (addr readback a v : Word)
    (testResult : Bool) {t : Tester μ} (hq : Quiet t.output) :
    wp (marchCheck bus addr readback (BitVec.ofNat 32 n) a v testResult)
      (fun r u => u.mem = t.mem ∧ Quiet u.output ∧
        (r = true ↔ testResult = true ∨ ¬ bus.Holds n v a t.mem)) never t := by
  rw [marchCheck, wp_bind]
  apply wp_post (checkMemoryValue_spec hs h a v t)
  rintro good _ ⟨rfl, hgood⟩
  cases good with
  | true => simp [hq, hgood.mp rfl]
  | false =>
    have hbad : ¬ bus.Holds n v a _ := fun hh => absurd (hgood.mpr hh) (by simp)
    apply wp_post (memoryError_spec testResult addr readback v _ hq)
    rintro r u ⟨rfl, hm, hqu⟩
    simp [hm, hqu, hbad]

theorem printValue_spec (h : Accepted n) (v : Word) {t : Tester μ} (hq : Quiet t.output) :
    wp (printValue v (BitVec.ofNat 32 n)) (fun _ u => u.mem = t.mem ∧ Quiet u.output) never t := by
  rcases h with rfl | rfl
  · exact ⟨rfl, hq.printf _ (by decide) (by decide)⟩
  · exact ⟨rfl, hq.printf _ (by decide) (by decide)⟩

theorem writeSweep_spec (h : Accepted n) (v : Word) (t : Tester μ) :
    wp (loop .hang (fun testAddr : Word => decide (testAddr < sdramEnd)) (fun testAddr => do
      storeValue bus testAddr v (BitVec.ofNat 32 n)
      pure (testAddr + BitVec.ofNat 32 n)) passes sdramBase)
      (fun _ u => u = { t with mem := filled bus n v t.mem }) never t := by
  have hpasses : cellCount n < passes + 0 := (Nat.div_le_self _ _).trans_lt (by decide)
  apply wp_loop_count (fun k c u => c = cellAddr n k ∧
      u = { t with mem := fill bus n v t.mem k }) (cellCount n) _ _ _ 0 (Nat.zero_le _) hpasses
  · exact ⟨(cellAddr_zero n).symm, rfl⟩
  · rintro k hk _ _ ⟨rfl, rfl⟩
    constructor
    · exact decide_eq_true (cellAddr_lt_end (h.mul_lt hk))
    · rw [wp_bind, wp_storeValue h, wp_pure]
      exact ⟨cellAddr_succ n k, rfl⟩
  · rintro _ _ ⟨rfl, rfl⟩
    constructor
    · exact decide_eq_false (cellAddr_count h)
    · rfl

/-- A pass fills the memory with its value and reports whether it reads wrongly anywhere. -/
theorem marchPass_spec (hs : bus.Steady) (h : Accepted n) (addr readback v : Word)
    (testResult : Bool) {t : Tester μ} (hq : Quiet t.output) :
    wp (marchPass bus addr readback (BitVec.ofNat 32 n) (v, testResult))
      (fun c u => c.1 = ~~~v ∧ u.mem = filled bus n v t.mem ∧ Quiet u.output ∧
        (c.2 = true ↔ testResult = true ∨ ¬ Reads bus n v (filled bus n v t.mem))) never t := by
  have hpasses : cellCount n < passes + 0 := (Nat.div_le_self _ _).trans_lt (by decide)
  rw [marchPass, wp_bind, wp_printf, wp_bind]
  apply wp_post (printValue_spec h v (hq.printf [] (by decide) (by decide)))
  rintro _ w ⟨hw, hqw⟩
  rw [wp_bind]
  apply wp_post (writeSweep_spec h v w)
  rintro _ _ rfl
  rw [hw, wp_bind, wp_printf, wp_bind, ← downAddr_zero]
  -- the sweep that reads: the result tells whether one of the last `k` cells was wrong
  apply wp_loop_count (fun k c u => c.1 = downAddr n k ∧ u.mem = filled bus n v t.mem ∧
      Quiet u.output ∧ (c.2 = true ↔ testResult = true ∨ ∃ i < k,
        ¬ bus.Holds n v (cellAddr n (cellCount n - 1 - i)) (filled bus n v t.mem)))
      (cellCount n) _ _ _ 0 (Nat.zero_le _) hpasses
  · refine ⟨rfl, rfl, hqw.printf [] (by decide) (by decide), ?_⟩
    rw [or_iff_left none_before]
  · rintro k hk ⟨a, res⟩ u ⟨rfl, hu, hqu, hres⟩
    constructor
    · exact decide_eq_true ((base_le_downAddr_iff h hk.le).mpr hk)
    rw [wp_bind]
    apply wp_post (marchCheck_spec hs h addr readback _ v res hqu)
    rintro r x ⟨hx, hqx, hr⟩
    refine ⟨downAddr_succ n k, hx.trans hu, hqx, hr.trans ?_⟩
    rw [hres, hu, downAddr_eq h hk, Nat.exists_lt_succ_right, or_assoc]
  · rintro ⟨a, res⟩ u ⟨rfl, hu, hqu, hres⟩
    constructor
    · exact decide_eq_false fun hle => lt_irrefl _ ((base_le_downAddr_iff h le_rfl).mp hle)
    · refine ⟨rfl, hu, hqu, hres.trans ?_⟩
      rw [exists_down_iff (P := fun i => ¬ bus.Holds n v (cellAddr n i) (filled bus n v t.mem))]
      simp [Reads]

/-! ## The whole test -/

theorem marchTest_spec (hs : bus.Steady) (h : Accepted n) (addr readback : Word) (m : μ) :
    let m₁ := filled bus n 1 (filled bus 4 0 m)
    Decides (marchTest bus addr readback (BitVec.ofNat 32 n)) m
      (Reads bus n 1 m₁ ∧ Reads bus n (~~~1) (filled bus n (~~~1) m₁)) := by
  intro m₁
  have hsize : ¬ (BitVec.ofNat 32 n ≠ 1 ∧ BitVec.ofNat 32 n ≠ 4) := by
    rcases h with rfl | rfl <;> simp
  suffices hwp : wp (marchTest bus addr readback (BitVec.ofNat 32 n)) (fun _ t => Verdict
      (Reads bus n 1 m₁ ∧ Reads bus n (~~~1) (filled bus n (~~~1) m₁)) t.output) never ⟨m, []⟩ by
    obtain ⟨_, t, hrun, hv⟩ := wp_never.mp hwp
    exact ⟨t, hrun, hv⟩
  rw [marchTest, wp_bind, wp_printf, if_neg hsize, wp_bind]
  apply wp_post (clearSDRAM_fill bus _)
  rintro _ _ rfl
  have hq : Quiet [Output.printf "\n\rPerforming memory march test (%d-byte access)"
      [.word (BitVec.ofNat 32 n)]] := Quiet.nil.printf _ (by decide) (by decide)
  rw [wp_bind]
  apply wp_post (marchPass_spec hs h addr readback 1 false hq)
  rintro ⟨v, res⟩ u ⟨rfl, hm, hqu, hres⟩
  rw [wp_bind]
  apply wp_post (marchPass_spec hs h addr readback (~~~1) res hqu)
  rintro ⟨v', res'⟩ w ⟨-, -, hqw, hres'⟩
  refine wp_post (verdict_spec (hres'.trans ?_) hqw) (fun _ _ hv => hv.2)
  rw [hres, hm, not_and_or]
  simp [m₁]

end Armboard.MemoryTest
