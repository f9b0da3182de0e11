import Armboard.MemoryTest.Verdict

/-! # Filling the memory with one value

`AT91F_ClearSDRAM` and the passes of the march test store the same value to one
address after the other. Over any bus the memory they leave is computed by the
stores alone, and where loads keep the memory the comparisons see just that.
-/

namespace Armboard.MemoryTest
open Exec

variable {μ : Type} {bus : Bus μ} {n : ℕ}

def Bus.put (bus : Bus μ) (n : ℕ) (v a : Word) (m : μ) : μ :=
  if n = 1 then bus.storeByte a (v.setWidth 8) m else bus.storeWord a v m

def Bus.Holds (bus : Bus μ) (n : ℕ) (v a : Word) (m : μ) : Prop :=
  if n = 1 then (bus.loadByte a m).1 = v.setWidth 8 else (bus.loadWord a m).1 = v

structure Bus.Steady (bus : Bus μ) : Prop where
  loadByte : ∀ a m, (bus.loadByte a m).2 = m
  loadWord : ∀ a m, (bus.loadWord a m).2 = m

def fill (bus : Bus μ) (n : ℕ) (v : Word) (m : μ) : ℕ → μ
  | 0 => m
  | k + 1 => bus.put n v (cellAddr n k) (fill bus n v m k)

/-! ## Single accesses -/

theorem low_byte_eq_iff (b : Byte) (v : Word) :
    b.setWidth 32 &&& 0x000000FF = v &&& 0x000000FF ↔ b = v.setWidth 8 := by
  have hb := b.isLt
  rw [← BitVec.toNat_inj, ← BitVec.toNat_inj, BitVec.toNat_and, BitVec.toNat_and,
    show (0x000000FF : Word).toNat = 2 ^ 8 - 1 from rfl, Nat.and_two_pow_sub_one_eq_mod,
    Nat.and_two_pow_sub_one_eq_mod, BitVec.toNat_setWidth, BitVec.toNat_setWidth]
  omega

theorem wp_storeValue (h : Accepted n) {Q : Unit → Tester μ → Prop} {E : Halt → Tester μ → Prop}
    {t : Tester μ} (a v : Word) : wp (storeValue bus a v (BitVec.ofNat 32 n)) Q E t ↔
      Q () { t with mem := bus.put n v a t.mem } := by
  rcases h with rfl | rfl
  · rfl
  · rfl

theorem checkMemoryValue_spec (hs : bus.Steady) (h : Accepted n) (a v : Word) (t : Tester μ) :
    wp (checkMemoryValue bus a v (BitVec.ofNat 32 n))
      (fun r u => u = t ∧ (r = true ↔ bus.Holds n v a t.mem)) never t := by
  rcases h with rfl | rfl
  · constructor
    · simp [hs.loadByte]
    · simpa [Bus.Holds] using low_byte_eq_iff _ v
  · constructor
    · simp [hs.loadWord]
    · simp [Bus.Holds]

/-! ## Clearing -/

theorem clearSDRAM_fill (bus : Bus μ) (t : Tester μ) : wp (clearSDRAM bus)
    (fun _ u => u = { t with mem := fill bus 4 0 t.mem (cellCount 4) }) never t := by
  rw [clearSDRAM, wp_bind]
  have htest : ∀ k ≤ cellCount 4,
      (BitVec.ofNat 32 (4 * k)).slt sdramSize = decide (k < cellCount 4) := by
    intro k hk
    simp only [cellCount] at hk ⊢
    rw [BitVec.slt, BitVec.toInt_eq_toNat_cond, BitVec.toNat_ofNat,
      show sdramSize.toInt = 0x04000000 by decide, if_pos (by omega), decide_eq_decide]
    omega
  apply wp_loop_count (fun k c u => c = (BitVec.ofNat 32 (4 * k), cellAddr 4 k) ∧
      u = { t with mem := fill bus 4 0 t.mem k }) (cellCount 4) _ _ _ 0 (Nat.zero_le _) (by decide)
  · constructor
    · rw [cellAddr_zero]
      rfl
    · rfl
  · rintro k hk _ _ ⟨rfl, rfl⟩
    constructor
    · exact (htest k hk.le).trans (decide_eq_true hk)
    rw [wp_bind, wp_storeWord, wp_pure]
    constructor
    · rw [← cellAddr_succ, Nat.mul_succ, BitVec.ofNat_add, BitVec.ofNat_eq_ofNat]
    · rfl
  · rintro _ _ ⟨rfl, rfl⟩
    constructor
    · exact (htest _ le_rfl).trans (decide_eq_false (lt_irrefl _))
    · rfl

end Armboard.MemoryTest
