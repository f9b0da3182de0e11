import Mathlib.Data.BitVec

/-! # Agreement on the bits of a mask

Two bit vectors agree on a mask if they have the same bits where the mask has ones.
A register that is read, masked and written back keeps its old bits in this sense,
and a whole run of such updates keeps them by transitivity.
-/

namespace Armboard.Bits

variable {w : ℕ} {mask sub x y z : BitVec w}

/-- `x` and `y` have the same bits where `mask` has ones. -/
def AgreeOn (mask x y : BitVec w) : Prop := x &&& mask = y &&& mask

instance : Decidable (AgreeOn mask x y) := inferInstanceAs (Decidable (_ = _))

@[refl] theorem AgreeOn.refl (mask x : BitVec w) : AgreeOn mask x x := rfl

theorem AgreeOn.symm (h : AgreeOn mask x y) : AgreeOn mask y x := Eq.symm h

theorem AgreeOn.trans (hxy : AgreeOn mask x y) (hyz : AgreeOn mask y z) : AgreeOn mask x z :=
  Eq.trans hxy hyz

theorem AgreeOn.mono (h : AgreeOn mask x y) (hsub : mask &&& sub = sub) : AgreeOn sub x y := by
  rw [AgreeOn, ← hsub, ← BitVec.and_assoc, ← BitVec.and_assoc, h]

theorem agreeOn_and {c : BitVec w} (hc : c &&& mask = mask) : AgreeOn mask (x &&& c) x := by
  rw [AgreeOn, BitVec.and_assoc, hc]

theorem agreeOn_or {c : BitVec w} (hc : c &&& mask = 0) : AgreeOn mask (x ||| c) x := by
  rw [AgreeOn, BitVec.and_or_distrib_right, hc]
  simp

theorem and_of_cleared (x c : BitVec w) : x &&& ~~~c &&& c = 0 := by
  rw [BitVec.and_assoc, BitVec.and_comm (~~~c), BitVec.and_not_self]
  simp

theorem and_of_set (x y : BitVec w) : (x ||| y) &&& y = y := by
  ext i hi
  simp only [BitVec.getElem_and, BitVec.getElem_or]
  cases y[i] <;> simp

/-- No bit of a mask is set if and only if none of its two parts is. -/
theorem and_eq_zero_iff_parts {a b : BitVec w} (h : mask = a ||| b) :
    x &&& mask = 0 ↔ x &&& a = 0 ∧ x &&& b = 0 := by
  rw [h, BitVec.and_or_distrib_left]
  exact BitVec.or_eq_zero_iff

theorem clear_of_set {c : BitVec w} (h : x &&& c = 0) : (x ||| c) &&& ~~~c = x := by
  have hkeep : x &&& ~~~c = x := by
    calc x &&& ~~~c = (x &&& c) ||| (x &&& ~~~c) := by
          rw [h]
          simp
      _ = x &&& (c ||| ~~~c) := by rw [BitVec.and_or_distrib_left]
      _ = x := by simp
  rw [BitVec.and_or_distrib_right, hkeep]
  simp

theorem and_field {c : BitVec w} (hc : c &&& mask = c) : (x &&& ~~~mask ||| c) &&& mask = c := by
  rw [BitVec.and_or_distrib_right, and_of_cleared, hc]
  simp

theorem agreeOn_field {c : BitVec w} (hs : sub &&& mask = 0) (hc : c &&& sub = c) :
    AgreeOn mask (x &&& ~~~sub ||| c) x := by
  have hcm : c &&& mask = 0 := by
    rw [← hc, BitVec.and_assoc, hs]
    simp
  have hkeep : ~~~sub &&& mask = mask := by
    calc ~~~sub &&& mask = (sub &&& mask) ||| (~~~sub &&& mask) := by
          rw [hs]
          simp
      _ = (sub ||| ~~~sub) &&& mask := by rw [BitVec.and_or_distrib_right]
      _ = mask := by simp
  exact (agreeOn_or hcm).trans (agreeOn_and hkeep)

end Armboard.Bits
