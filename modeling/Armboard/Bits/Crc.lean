import Mathlib.Data.BitVec
import Mathlib.Logic.Function.Iterate
import Mathlib.Tactic.Common

/-! # Reflected cyclic redundancy checks

The register moves right bit by bit and takes the polynomial whenever a one leaves it.
One shift is linear over exclusive or, and it loses nothing if the polynomial has its
top bit. A run of symbols no longer than the register therefore acts on it as one word,
and two messages that differ in such a run only have different checks.
-/

namespace Armboard.Bits

variable {w k : ℕ} (poly : BitVec w)

def crcShift (c : BitVec w) : BitVec w := if c.getLsbD 0 then poly ^^^ (c >>> 1) else c >>> 1

/-- A symbol of `k` bits enters at the low end. -/
def crcStep (c : BitVec w) (b : BitVec k) : BitVec w := (crcShift poly)^[k] (c ^^^ b.setWidth w)

/-! ## Linearity -/

theorem crcShift_xor (a b : BitVec w) :
    crcShift poly (a ^^^ b) = crcShift poly a ^^^ crcShift poly b := by
  have hmove : (a ^^^ b) >>> 1 = (a >>> 1) ^^^ (b >>> 1) := BitVec.ushiftRight_xor_distrib a b 1
  have hcancel : poly ^^^ (a >>> 1) ^^^ (poly ^^^ (b >>> 1)) = (a >>> 1) ^^^ (b >>> 1) := by
    rw [BitVec.xor_comm poly, BitVec.xor_assoc, ← BitVec.xor_assoc poly, BitVec.xor_self,
      BitVec.zero_xor]
  simp only [crcShift, BitVec.getLsbD_xor, hmove]
  by_cases ha : a.getLsbD 0 = true <;> by_cases hb : b.getLsbD 0 = true <;> simp only [ha, hb]
  · simpa using hcancel.symm
  · simp [BitVec.xor_assoc]
  · simp [← BitVec.xor_assoc, BitVec.xor_comm poly]
  · simp

theorem crcShifts_xor (n : ℕ) (a b : BitVec w) :
    (crcShift poly)^[n] (a ^^^ b) = (crcShift poly)^[n] a ^^^ (crcShift poly)^[n] b := by
  induction n generalizing a b with
  | zero => rfl
  | succ n ih => rw [Function.iterate_succ_apply, crcShift_xor, ih]; rfl

/-- Zeros at the low end only move the rest. -/
theorem crcShifts_of_low (n : ℕ) {c : BitVec w} (h : ∀ i < n, c.getLsbD i = false) :
    (crcShift poly)^[n] c = c >>> n := by
  induction n with
  | zero => simp
  | succ n ih =>
    have hlow : (c >>> n).getLsbD 0 = false := by
      rw [BitVec.getLsbD_ushiftRight, Nat.add_zero]
      exact h n (Nat.lt_succ_self n)
    rw [Function.iterate_succ_apply', ih (fun i hi => h i (Nat.lt_succ_of_lt hi)), crcShift, hlow,
      if_neg (by simp), ← BitVec.shiftRight_add]

/-- The lowest `k` bits and the rest, apart. -/
theorem eq_low_xor_high (x : BitVec w) (k : ℕ) :
    x = (x.setWidth k).setWidth w ^^^ ((x >>> k) <<< k) := by
  apply BitVec.eq_of_getLsbD_eq
  intro i hi
  simp only [BitVec.getLsbD_xor, BitVec.getLsbD_setWidth, BitVec.getLsbD_shiftLeft,
    BitVec.getLsbD_ushiftRight, hi, decide_true, Bool.true_and]
  by_cases h : i < k
  · simp [h]
  · simp [h, Nat.add_sub_cancel' (Nat.le_of_not_lt h)]

theorem crcShifts_high (x : BitVec w) (k : ℕ) :
    (crcShift poly)^[k] ((x >>> k) <<< k) = x >>> k := by
  rw [crcShifts_of_low poly k (fun i hi => by simp [hi])]
  apply BitVec.eq_of_getLsbD_eq
  intro i hi
  simp only [BitVec.getLsbD_ushiftRight, BitVec.getLsbD_shiftLeft, Nat.add_sub_cancel_left]
  by_cases h : k + i < w
  · simp [h]
  · rw [BitVec.getLsbD_of_ge x (k + i) (by omega)]
    simp [h]

/-- What a table of the `2 ^ k` words of `k` bits is used for. -/
theorem crcShifts_eq_table (x : BitVec w) (k : ℕ) :
    (crcShift poly)^[k] x = (crcShift poly)^[k] ((x.setWidth k).setWidth w) ^^^ (x >>> k) := by
  conv_lhs => rw [eq_low_xor_high x k]
  rw [crcShifts_xor, crcShifts_high]

/-! ## Nothing is lost -/

variable {poly}

/-- The bit that leaves the register can be read off its new top bit. -/
theorem crcShift_injective (h : poly.msb = true) : Function.Injective (crcShift poly) := by
  have hw : 0 < w := by
    rcases Nat.eq_zero_or_pos w with rfl | hpos
    · simp [BitVec.msb, BitVec.getMsbD] at h
    · exact hpos
  have hzero : ∀ x, crcShift poly x = 0 → x = 0 := by
    intro x hx
    have hlow : x.getLsbD 0 = false := by
      by_contra hone
      rw [Bool.not_eq_false] at hone
      have htop := congrArg BitVec.msb hx
      rw [crcShift, if_pos hone, BitVec.msb_xor, h, BitVec.msb_ushiftRight] at htop
      simp at htop
    rw [crcShift, hlow, if_neg (by simp)] at hx
    apply BitVec.eq_of_getLsbD_eq
    intro i hi
    cases i with
    | zero => rw [hlow]; simp
    | succ i =>
      have hbit := congrArg (fun y : BitVec w => y.getLsbD i) hx
      simpa [Nat.add_comm] using hbit
  intro a b hab
  have hx : crcShift poly (a ^^^ b) = 0 := by
    rw [crcShift_xor, hab]
    exact BitVec.xor_self
  exact BitVec.xor_eq_zero_iff.mp (hzero _ hx)

theorem crcStep_injective (h : poly.msb = true) (b : BitVec k) :
    Function.Injective fun c => crcStep poly c b := by
  intro c c' hc
  exact BitVec.xor_left_inj _ |>.mp ((crcShift_injective h).iterate k hc)

theorem foldl_crcStep_injective (h : poly.msb = true) (bs : List (BitVec k)) :
    Function.Injective fun c => bs.foldl (crcStep poly) c := by
  induction bs with
  | nil => exact fun _ _ hc => hc
  | cons b bs ih => exact fun _ _ hc => crcStep_injective h b (ih hc)

/-! ## Runs of symbols -/

/-- Symbols side by side, the first one lowest. -/
def packSymbols (w : ℕ) : List (BitVec k) → BitVec w
  | [] => 0
  | b :: bs => b.setWidth w ^^^ (packSymbols w bs <<< k)

theorem packSymbols_high (bs : List (BitVec k)) {i : ℕ} (hi : k * bs.length ≤ i) :
    (packSymbols w bs).getLsbD i = false := by
  induction bs generalizing i with
  | nil => simp [packSymbols]
  | cons b bs ih =>
    rw [List.length_cons, Nat.mul_succ] at hi
    have hb : b.getLsbD i = false := BitVec.getLsbD_of_ge b i (by omega)
    have hrest : (packSymbols w bs).getLsbD (i - k) = false := ih (by omega)
    simp [packSymbols, hb, hrest]

/-- A run that fits the register enters it at once. -/
theorem foldl_crcStep_eq (bs : List (BitVec k)) (hlen : k * bs.length ≤ w) (c : BitVec w) :
    bs.foldl (crcStep poly) c = (crcShift poly)^[k * bs.length] (c ^^^ packSymbols w bs) := by
  induction bs generalizing c with
  | nil => simp [packSymbols]
  | cons b bs ih =>
    rw [List.length_cons, Nat.mul_succ] at hlen
    have hmove : (crcShift poly)^[k] (packSymbols w bs <<< k) = packSymbols w bs := by
      rw [crcShifts_of_low poly k (fun i hi => by simp [hi])]
      apply BitVec.eq_of_getLsbD_eq
      intro i hi
      rw [BitVec.getLsbD_ushiftRight, BitVec.getLsbD_shiftLeft]
      by_cases h : k + i < w
      · simp [h]
      · have hzero : (packSymbols w bs).getLsbD i = false := packSymbols_high bs (by omega)
        simp [h, hzero]
    have hstep : crcStep poly c b ^^^ packSymbols w bs =
        (crcShift poly)^[k] (c ^^^ packSymbols w (b :: bs)) := by
      rw [packSymbols, ← BitVec.xor_assoc, crcShifts_xor poly k (c ^^^ b.setWidth w), hmove]
      rfl
    rw [List.foldl_cons, ih (by omega), hstep, List.length_cons, Nat.mul_succ,
      Function.iterate_add_apply]

theorem packSymbols_injective {bs bs' : List (BitVec k)} (hlen : bs.length = bs'.length)
    (hw : k * bs.length ≤ w) (h : packSymbols w bs = packSymbols w bs') : bs = bs' := by
  induction bs generalizing bs' with
  | nil => exact (List.length_eq_zero_iff.mp hlen.symm).symm
  | cons b bs ih =>
    cases bs' with
    | nil => simp at hlen
    | cons b' bs' =>
      rw [List.length_cons, Nat.mul_succ] at hw
      rw [List.length_cons, List.length_cons, Nat.succ_inj] at hlen
      have hbits : ∀ i < w, (packSymbols w (b :: bs)).getLsbD i =
          (packSymbols w (b' :: bs')).getLsbD i := fun i _ => by rw [h]
      have hfirst : b = b' := by
        apply BitVec.eq_of_getLsbD_eq
        intro i hi
        have hbit := hbits i (by omega)
        simpa [packSymbols, hi, show i < w by omega] using hbit
      have hrest : packSymbols w bs = packSymbols w bs' := by
        apply BitVec.eq_of_getLsbD_eq
        intro i hi
        by_cases hin : k + i < w
        · have hbit := hbits (k + i) hin
          have hb : b.getLsbD (k + i) = false := BitVec.getLsbD_of_ge b _ (Nat.le_add_right _ _)
          have hb' : b'.getLsbD (k + i) = false := BitVec.getLsbD_of_ge b' _ (Nat.le_add_right _ _)
          have hge : ¬ k + i < k := by omega
          simpa only [packSymbols, BitVec.getLsbD_xor, BitVec.getLsbD_setWidth,
            BitVec.getLsbD_shiftLeft, hin, hb, hb', hge, Nat.add_sub_cancel_left, decide_true,
            decide_false, Bool.not_false, Bool.and_false, Bool.true_and, Bool.false_xor] using hbit
        · have hw' : k * bs'.length + k ≤ w := by rwa [← hlen]
          rw [packSymbols_high bs (by omega), packSymbols_high bs' (by omega)]
      rw [hfirst, ih hlen (by omega) hrest]

/-- Two messages that differ only in a run no longer than the register have different checks. -/
theorem foldl_crcStep_burst (h : poly.msb = true) (c : BitVec w) (front back : List (BitVec k))
    {bs bs' : List (BitVec k)} (hlen : bs.length = bs'.length) (hw : k * bs.length ≤ w)
    (hne : bs ≠ bs') :
    (front ++ bs ++ back).foldl (crcStep poly) c ≠ (front ++ bs' ++ back).foldl (crcStep poly) c := by
  intro heq
  rw [List.foldl_append, List.foldl_append, List.foldl_append, List.foldl_append] at heq
  have hrun := foldl_crcStep_injective h back heq
  rw [foldl_crcStep_eq bs hw, foldl_crcStep_eq bs' (hlen ▸ hw), ← hlen] at hrun
  have hword := (crcShift_injective h).iterate _ hrun
  exact hne (packSymbols_injective hlen hw ((BitVec.xor_right_inj _).mp hword))

end Armboard.Bits
