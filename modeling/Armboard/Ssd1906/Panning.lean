import Armboard.Bits.Masks
import Armboard.Ssd1906.Runs
import Mathlib.Tactic

/-! # Panning

`ssd1906fb_pan_display` tests the sum of the vertical offset and the height in 32 bits
and splits the start address over three registers. The test is right unless the sum
wraps to a value that fits, and an address that is not too long is kept exactly.
-/

namespace Armboard.Ssd1906
open Bits Exec

/-! ## The start address -/

def startAddress (regs : Regno → Byte) : ℕ :=
  (regs regDispStart0).toNat + (regs regDispStart1).toNat * 2 ^ 8 +
    (regs regDispStart2).toNat * 2 ^ 16

/-- An address of 20 bits is spread over two bytes and a half. -/
theorem start_recombines {start : Word} (h : start.toNat < 2 ^ 20) :
    ((start &&& 0xff).setWidth 8 : Byte).toNat +
      ((start >>> 8 &&& 0xff).setWidth 8 : Byte).toNat * 2 ^ 8 +
      ((start >>> 16 &&& 0x0f).setWidth 8 : Byte).toNat * 2 ^ 16 = start.toNat := by
  rw [toNat_and_low start 0xff (k := 8) rfl (by decide),
    toNat_and_low (start >>> 8) 0xff (k := 8) rfl (by decide),
    toNat_and_low (start >>> 16) 0x0f (k := 4) rfl (by decide), BitVec.toNat_ushiftRight,
    BitVec.toNat_ushiftRight, Nat.shiftRight_eq_div_pow, Nat.shiftRight_eq_div_pow]
  omega

/-! ## The call -/

/-- The call succeeds exactly for offsets that fit; it fails without a register write, and programs
a start address of 20 bits exactly. -/
structure Panned (s : Fb) (var : VarScreeninfo) (ret : ℤ) (t : Fb) : Prop where
  success : ret = 0 ↔ var.xoffset = 0 ∧
    var.yoffset.toNat + s.info.var.yres.toNat ≤ s.info.var.yresVirtual.toNat
  failed : ret ≠ 0 → t.regs = s.regs ∧ t.events = s.events
  programmed : ret = 0 → s.info.fix.lineLength.toNat / 2 * var.yoffset.toNat < 2 ^ 20 →
    startAddress t.regs = s.info.fix.lineLength.toNat / 2 * var.yoffset.toNat

def Pans (s : Fb) (var : VarScreeninfo) : Prop :=
  ∃ ret t, panDisplay var s = .ok ret t ∧ Panned s var ret t

/-- What the call does: its test is that of the 32-bit sum. -/
theorem panDisplay_spec (s : Fb) (var : VarScreeninfo) : wp (panDisplay var) (fun ret t =>
    (ret = 0 ↔ var.xoffset = 0 ∧ (var.yoffset.toNat + s.info.var.yres.toNat) % 2 ^ 32 ≤
      s.info.var.yresVirtual.toNat) ∧
    (ret ≠ 0 → t.regs = s.regs ∧ t.events = s.events) ∧
    (ret = 0 → s.info.fix.lineLength.toNat / 2 * var.yoffset.toNat < 2 ^ 20 →
      startAddress t.regs = s.info.fix.lineLength.toNat / 2 * var.yoffset.toNat)) never s := by
  have hfail : ¬ (-einval : ℤ) = 0 := by decide
  rw [panDisplay, wp_bind, wp_get]
  by_cases hx : var.xoffset = 0
  · rw [if_neg (not_not.mpr hx)]
    by_cases hy : s.info.var.yresVirtual < var.yoffset + s.info.var.yres
    · rw [if_pos hy]
      rw [BitVec.lt_def, BitVec.toNat_add] at hy
      refine ⟨⟨fun h => absurd h hfail, fun h => absurd h.2 (Nat.not_le.mpr hy)⟩,
        fun _ => ⟨rfl, rfl⟩, fun h => absurd h hfail⟩
    · rw [if_neg hy]
      rw [BitVec.lt_def, BitVec.toNat_add, Nat.not_lt] at hy
      simp only [writereg, wp_bind, wp_modify, wp_pure]
      refine ⟨⟨fun _ => ⟨hx, hy⟩, fun _ => trivial⟩, fun h => absurd rfl h, ?_⟩
      intro _ hlt
      have hstart : (s.info.fix.lineLength >>> 1 * var.yoffset).toNat =
          s.info.fix.lineLength.toNat / 2 * var.yoffset.toNat := by
        rw [BitVec.toNat_mul, BitVec.toNat_ushiftRight, Nat.shiftRight_eq_div_pow, Nat.pow_one,
          Nat.mod_eq_of_lt (hlt.trans (by decide))]
      rw [← hstart] at hlt ⊢
      rw [← start_recombines hlt, startAddress]
      simp
  · rw [if_pos hx]
    exact ⟨⟨fun h => absurd h hfail, fun h => absurd h.1 hx⟩, fun _ => ⟨rfl, rfl⟩,
      fun h => absurd h hfail⟩

theorem pans_iff_tests (s : Fb) (var : VarScreeninfo) : Pans s var ↔
    (var.xoffset = 0 → ((var.yoffset.toNat + s.info.var.yres.toNat) % 2 ^ 32 ≤
      s.info.var.yresVirtual.toNat ↔
        var.yoffset.toNat + s.info.var.yres.toNat ≤ s.info.var.yresVirtual.toNat)) := by
  rcases wp_never.mp (panDisplay_spec s var) with ⟨ret, t, hrun, hret, hfailed, hprogrammed⟩
  constructor
  · rintro ⟨ret', t', hrun', hpanned⟩ hx
    rw [hrun] at hrun'
    cases hrun'
    have heq := hret.symm.trans hpanned.success
    rwa [and_iff_right hx, and_iff_right hx] at heq
  · intro h
    refine ⟨ret, t, hrun, ?_, hfailed, hprogrammed⟩
    rw [hret]
    exact and_congr_right h

/-- Panning is exact if and only if the horizontal offset is refused, or the sum of the vertical
offset and the height does not wrap at 32 bits, or it wraps to a value that is refused as well. -/
theorem panDisplay_exact_iff (s : Fb) (var : VarScreeninfo) : Pans s var ↔
    var.xoffset ≠ 0 ∨ var.yoffset.toNat + s.info.var.yres.toNat < 2 ^ 32 ∨
      s.info.var.yresVirtual.toNat < var.yoffset.toNat + s.info.var.yres.toNat - 2 ^ 32 := by
  have hy := var.yoffset.isLt
  have hr := s.info.var.yres.isLt
  have hv := s.info.var.yresVirtual.isLt
  rw [pans_iff_tests]
  by_cases hx : var.xoffset = 0
  · simp only [hx, forall_const, ne_eq, not_true_eq_false, false_or]
    omega
  · exact ⟨fun _ => Or.inl hx, fun _ h => absurd h hx⟩

/-- The display of the board: 480 by 272 pixels of 16 bits. -/
def boardFb : Fb where
  regs := fun _ => 0
  info := {
    var := ⟨480, 272, 480, 272, 0, 0, 16, 0, ⟨11, 5⟩, ⟨5, 6⟩, ⟨0, 5⟩, 0⟩
    fix := ⟨fbTypePackedPixels, fbVisualTruecolor, 960⟩
    pseudoPalette := Vector.replicate 16 0 }
  events := []

/-- A vertical offset of 0xFFFFFF00 is taken. -/
theorem panDisplay_wraps : ¬ ∀ (s : Fb) (var : VarScreeninfo), Pans s var := by
  intro h
  have hpans := (pans_iff_tests boardFb { boardFb.info.var with yoffset := 0xFFFFFF00 }).mp (h _ _)
  exact absurd hpans (by decide)

end Armboard.Ssd1906
