import Armboard.Ssd1906.Runs
import Mathlib.Tactic

/-! # The geometry after probing

`ssd1906fb_fetch_hw_state` reads the depth and the line length from the chip, and
`ssd1906fb_set_par` computes both again from what it stored. They agree for 8 bits
per pixel only.
-/

namespace Armboard.Ssd1906
open Bits Exec

/-! ## Register tables -/

abbrev regClkConf : Regno := 0x0004
abbrev regLcdClkConf : Regno := 0x0005
abbrev regModRate : Regno := 0x0011
abbrev regHtotal : Regno := 0x0012
abbrev regHdispPeriodStart0 : Regno := 0x0016
abbrev regHdispPeriodStart1 : Regno := 0x0017
abbrev regVtotal0 : Regno := 0x0018
abbrev regVtotal1 : Regno := 0x0019
abbrev regVdispPeriodStart0 : Regno := 0x001E
abbrev regVdispPeriodStart1 : Regno := 0x001F
abbrev regLlinePwidth : Regno := 0x0020
abbrev regLlinePstart0 : Regno := 0x0022
abbrev regLlinePstart1 : Regno := 0x0023
abbrev regLframePwidth : Regno := 0x0024
abbrev regLframePstart0 : Regno := 0x0026
abbrev regLframePstart1 : Regno := 0x0027
abbrev regLframePstartOffset0 : Regno := 0x0030
abbrev regLframePstartOffset1 : Regno := 0x0031
abbrev regLframePstopOffset0 : Regno := 0x0034
abbrev regLframePstopOffset1 : Regno := 0x0035
abbrev regPwmConf : Regno := 0x00B1
abbrev regLpwmoutDutyCycle : Regno := 0x00B3
abbrev regCmdInit : Regno := 0x0134

def runinit : List (Regno × Byte) → Driver Unit
  | [] => pure ()
  | r :: rs => do
    writereg r.1 r.2
    runinit rs

/-- `lab_ssd1906fb_initregs`, the table of the board. -/
def labInitregs : List (Regno × Byte) :=
  [(regCmdInit, 0x00), (regClkConf, 0x00), (regLcdClkConf, 0x22), (regDispMode, 0x84),
    (regPanelType, 0x61), (regModRate, 0x00), (regHtotal, 0x40), (regHdispPeriod, 0x3B),
    (regHdispPeriodStart0, 0x16), (regHdispPeriodStart1, 0x00), (regVtotal0, 0x1D),
    (regVtotal1, 0x01), (regVdispPeriod0, 0x0F), (regVdispPeriod1, 0x01),
    (regVdispPeriodStart0, 0x0A), (regVdispPeriodStart1, 0x00), (regLoffset0, 0xF0),
    (regLoffset1, 0x00), (regLlinePwidth, 0x28), (regLlinePstart0, 0x01), (regLlinePstart1, 0x00),
    (regLframePwidth, 0x07), (regLframePstart0, 0x01), (regLframePstart1, 0x00),
    (regLframePstartOffset0, 0x00), (regLframePstartOffset1, 0x00), (regLframePstopOffset0, 0x00),
    (regLframePstopOffset1, 0x00), (regPsConf, 0x00), (regPwmCtl, 0x00), (regPwmConf, 0xA0),
    (regLpwmoutDutyCycle, 0x80)]

/-- The `fb_info` before `ssd1906fb_fetch_hw_state`: as allocated, with `ssd1906fb_fix`. -/
def allocatedInfo : FbInfo where
  var := ⟨0, 0, 0, 0, 0, 0, 0, 0, ⟨0, 0⟩, ⟨0, 0⟩, ⟨0, 0⟩, 0⟩
  fix := ⟨fbTypePackedPixels, fbVisualPseudocolor, 0⟩
  pseudoPalette := Vector.replicate 16 0

/-! ## What the two functions compute -/

/-- Bits per pixel of the depth a chip is set to, where the driver knows it. -/
def depthOf (display : Byte) : Option ℕ :=
  if display &&& 0x07 = 2 then some 4
  else if display &&& 0x07 = 3 then some 8
  else if display &&& 0x07 = 4 then some 16
  else none

def displayWidth (regs : Regno → Byte) : ℕ := ((regs regHdispPeriod).toNat + 1) * 8

def lineOffset (regs : Regno → Byte) : ℕ :=
  (regs regLoffset0).toNat + (regs regLoffset1).toNat % 4 * 256

def Matching (regs : Regno → Byte) : Prop :=
  ∀ bits ∈ depthOf (regs regDispMode), lineOffset regs * 32 = displayWidth regs * bits

instance (regs : Regno → Byte) : Decidable (Matching regs) :=
  inferInstanceAs (Decidable (∀ bits ∈ depthOf (regs regDispMode), _))

/-- `ssd1906fb_fetch_hw_state` does not divide by zero, and `ssd1906fb_set_par` after it succeeds
and changes neither DISP_MODE nor the line length. -/
def Agrees (regs : Regno → Byte) : Prop :=
  ∃ t u, fetchHwState ⟨regs, allocatedInfo, []⟩ = .ok () t ∧ .divByZero ∉ t.events ∧
    setPar t = .ok 0 u ∧ u.regs regDispMode = regs regDispMode ∧
    u.info.fix.lineLength = t.info.fix.lineLength

def fetchedDepth (display : Byte) (old : Word) : Word :=
  if display &&& 0x07 = 2 ∨ display &&& 0x07 = 3 then 8
  else if display &&& 0x07 = 4 then 16
  else old

theorem fetchHwState_spec (s : Fb) : wp fetchHwState (fun _ t =>
    t.regs = s.regs ∧ t.info.var.xres = ((s.regs regHdispPeriod).setWidth 32 + 1) * 8 ∧
    t.info.var.bitsPerPixel = fetchedDepth (s.regs regDispMode) s.info.var.bitsPerPixel ∧
    t.info.fix.lineLength = ((s.regs regLoffset0).setWidth 32 +
      ((s.regs regLoffset1).setWidth 32 &&& 0x3) <<< 8) * 32 / t.info.var.bitsPerPixel ∧
    (.divByZero ∈ t.events ↔ .divByZero ∈ s.events ∨ t.info.var.bitsPerPixel = 0)) never s := by
  simp only [fetchHwState, modifyInfo, readreg, divide, wp_bind, wp_modify, wp_get, wp_pure, wp_ite,
    fetchedDepth]
  split
  · simp
  split
  · simp [setupTruecolour]
  split
  · rename_i hzero
    simp [hzero]
  · rename_i hne
    have hor : ∀ P : Prop, P ↔ P ∨ s.info.var.bitsPerPixel = 0 := fun P =>
      ⟨Or.inl, fun h => h.resolve_right hne⟩
    simpa using hor _

theorem setPar_spec (s : Fb) : wp setPar (fun ret t =>
    (ret = 0 ↔ s.info.var.bitsPerPixel = 4 ∨ s.info.var.bitsPerPixel = 8 ∨
      s.info.var.bitsPerPixel = 16) ∧
    (ret = 0 → t.regs regDispMode =
        s.regs regDispMode &&& ~~~0x07 ||| depthCode s.info.var.bitsPerPixel ∧
      t.info.fix.lineLength = s.info.var.xres * s.info.var.bitsPerPixel / 8)) never s := by
  simp only [setPar, programDepth, modifyInfo, readreg, writereg, wp_bind, wp_modify, wp_get, wp_pure,
    wp_ite]
  split
  · rename_i hbpp
    simp [hbpp, setupPseudocolour, depthCode]
  split
  · rename_i hbpp
    simp [hbpp, setupPseudocolour, depthCode]
  split
  · rename_i hbpp
    simp [hbpp, setupTruecolour, depthCode]
  · rename_i h4 h8 h16
    have hnone : ¬ (s.info.var.bitsPerPixel = 4 ∨ s.info.var.bitsPerPixel = 8 ∨
        s.info.var.bitsPerPixel = 16) := by
      rintro (h | h | h)
      · exact h4 h
      · exact h8 h
      · exact h16 h
    constructor
    · exact ⟨fun h => absurd h (by simp), fun h => absurd h hnone⟩
    · intro h
      exact absurd h (by simp)

/-! ## Agreement -/

variable {regs : Regno → Byte}

/-- Pixels of a display line and its offset in words, as the driver computes them. -/
def xres (regs : Regno → Byte) : Word := ((regs regHdispPeriod).setWidth 32 + 1) * 8

def offset (regs : Regno → Byte) : Word :=
  (regs regLoffset0).setWidth 32 + ((regs regLoffset1).setWidth 32 &&& 0x3) <<< 8

theorem xres_toNat (regs : Regno → Byte) : (xres regs).toNat = displayWidth regs := by
  have hb := (regs regHdispPeriod).isLt
  rw [xres, displayWidth, BitVec.toNat_mul, BitVec.toNat_add, BitVec.toNat_setWidth]
  simp only [BitVec.reduceToNat]
  omega

theorem offset_toNat (regs : Regno → Byte) : (offset regs).toNat = lineOffset regs := by
  have hb := (regs regLoffset0).isLt
  have hlow : ((regs regLoffset1).setWidth 32 &&& 0x3 : Word).toNat =
      (regs regLoffset1).toNat % 4 := by
    have hc := (regs regLoffset1).isLt
    rw [BitVec.toNat_and, show (0x3 : Word).toNat = 2 ^ 2 - 1 from rfl,
      Nat.and_two_pow_sub_one_eq_mod, BitVec.toNat_setWidth]
    omega
  rw [offset, lineOffset, BitVec.toNat_add, BitVec.toNat_shiftLeft, hlow, BitVec.toNat_setWidth,
    Nat.shiftLeft_eq]
  omega

theorem fetchedDepth_cases (display : Byte) :
    fetchedDepth display 0 = 0 ∨ fetchedDepth display 0 = 8 ∨ fetchedDepth display 0 = 16 := by
  rw [fetchedDepth]
  split
  · simp
  split
  · simp
  · simp

theorem agrees_iff_stored {bpp : Word} (hfetch : fetchedDepth (regs regDispMode) 0 = bpp) :
    Agrees regs ↔ bpp ≠ 0 ∧ regs regDispMode &&& ~~~0x07 ||| depthCode bpp = regs regDispMode ∧
      xres regs * bpp / 8 = offset regs * 32 / bpp := by
  rcases wp_never.mp (fetchHwState_spec ⟨regs, allocatedInfo, []⟩) with
    ⟨_, t, ht, hregs, hxres, hbpp, hline, hdiv⟩
  rcases wp_never.mp (setPar_spec t) with ⟨ret, u, hu, hret, hset⟩
  have hbits : t.info.var.bitsPerPixel = bpp := hbpp.trans hfetch
  have hknown : bpp ≠ 0 → bpp = 4 ∨ bpp = 8 ∨ bpp = 16 := by
    intro hne
    rw [← hfetch] at hne ⊢
    exact Or.inr ((fetchedDepth_cases (regs regDispMode)).resolve_left hne)
  rw [hbits] at hret hset hdiv hline
  rw [hxres, hregs] at hset
  constructor
  · rintro ⟨t', u', ht', hnodiv, hu', hmode, hlen⟩
    rw [ht] at ht'
    cases ht'
    rw [hu] at hu'
    cases hu'
    have hne : bpp ≠ 0 := fun h => hnodiv (hdiv.mpr (Or.inr h))
    rw [(hset rfl).1] at hmode
    rw [(hset rfl).2, hline] at hlen
    exact ⟨hne, hmode, hlen⟩
  · rintro ⟨hne, hmode, hlen⟩
    have hzero : ret = 0 := hret.mpr (hknown hne)
    refine ⟨t, u, ht, ?_, hzero ▸ hu, ?_, ?_⟩
    · intro hev
      rcases hdiv.mp hev with hold | hbz
      · cases hold
      · exact hne hbz
    · rw [(hset hzero).1, hmode]
    · rw [(hset hzero).2, hline]
      exact hlen

theorem field_or_rest (x m : Byte) : x &&& ~~~m ||| (x &&& m) = x := by
  ext i hi
  simp only [BitVec.getElem_or, BitVec.getElem_and, BitVec.getElem_not]
  cases m[i] <;> simp

theorem displayWidth_le (regs : Regno → Byte) : displayWidth regs ≤ 2048 := by
  have hb := (regs regHdispPeriod).isLt
  rw [displayWidth]
  omega

/-- The two line lengths of a true colour display differ by a factor of two. -/
theorem truecolour_differ (h : lineOffset regs * 32 = displayWidth regs * 16) :
    xres regs * 16 / 8 ≠ offset regs * 32 / 16 := by
  intro he
  have hnat := congrArg BitVec.toNat he
  have hle := displayWidth_le regs
  have hpos : 0 < displayWidth regs := by
    rw [displayWidth]
    omega
  rw [BitVec.toNat_udiv, BitVec.toNat_udiv, BitVec.toNat_mul, BitVec.toNat_mul, xres_toNat,
    offset_toNat] at hnat
  simp only [BitVec.reduceToNat] at hnat
  omega

theorem pseudocolour_same (h : lineOffset regs * 32 = displayWidth regs * 8) :
    xres regs * 8 / 8 = offset regs * 32 / 8 := by
  have hmul : xres regs * 8 = offset regs * 32 := by
    apply BitVec.eq_of_toNat_eq
    rw [BitVec.toNat_mul, BitVec.toNat_mul, xres_toNat, offset_toNat]
    simp only [BitVec.reduceToNat]
    rw [h]
  rw [hmul]

/-- Where the line offset is that of a display line, the two functions agree exactly if the chip is
set to 8 bits per pixel. -/
theorem agrees_iff (h : Matching regs) : Agrees regs ↔ regs regDispMode &&& 0x07 = 3 := by
  by_cases h2 : regs regDispMode &&& 0x07 = 2
  · have hbpp : fetchedDepth (regs regDispMode) 0 = 8 := if_pos (Or.inl h2)
    rw [agrees_iff_stored hbpp, h2]
    constructor
    · rintro ⟨-, hmode, -⟩
      rw [← hmode, and_field (by decide)] at h2
      exact absurd h2 (by decide)
    · intro hfalse
      exact absurd hfalse (by decide)
  by_cases h3 : regs regDispMode &&& 0x07 = 3
  · have hbpp : fetchedDepth (regs regDispMode) 0 = 8 := if_pos (Or.inr h3)
    have hbits : depthOf (regs regDispMode) = some 8 := by rw [depthOf, if_neg h2, if_pos h3]
    have hmode : regs regDispMode &&& ~~~0x07 ||| 3 = regs regDispMode := by
      rw [← h3]
      exact field_or_rest _ _
    rw [agrees_iff_stored hbpp]
    constructor
    · intro _
      exact h3
    · intro _
      exact ⟨by decide, hmode, pseudocolour_same (h 8 hbits)⟩
  by_cases h4 : regs regDispMode &&& 0x07 = 4
  · have hbpp : fetchedDepth (regs regDispMode) 0 = 16 := by
      rw [fetchedDepth, if_neg (not_or.mpr ⟨h2, h3⟩), if_pos h4]
    have hbits : depthOf (regs regDispMode) = some 16 := by
      rw [depthOf, if_neg h2, if_neg h3, if_pos h4]
    rw [agrees_iff_stored hbpp]
    constructor
    · rintro ⟨-, -, hlen⟩
      exact absurd hlen (truecolour_differ (h 16 hbits))
    · intro h
      exact absurd h h3
  · have hbpp : fetchedDepth (regs regDispMode) 0 = 0 := by
      rw [fetchedDepth, if_neg (not_or.mpr ⟨h2, h3⟩), if_neg h4]
    rw [agrees_iff_stored hbpp]
    constructor
    · rintro ⟨hne, -⟩
      exact absurd rfl hne
    · intro h
      exact absurd h h3

/-- The registers of a chip that was cleared before a table was written. -/
def tableRegs (table : List (Regno × Byte)) : Regno → Byte :=
  (final (runinit table ⟨fun _ => 0, allocatedInfo, []⟩)).regs

theorem agrees_iff_board : Agrees (tableRegs labInitregs) ↔
    tableRegs labInitregs regDispMode &&& 0x07 = 3 := by
  apply agrees_iff
  decide

theorem not_agrees_board : Matching (tableRegs labInitregs) ∧ ¬ Agrees (tableRegs labInitregs) := by
  rw [agrees_iff_stored rfl]
  decide

end Armboard.Ssd1906
