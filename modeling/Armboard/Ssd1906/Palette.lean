import Armboard.Ssd1906.Runs
import Mathlib.Tactic

/-! # The palette

`ssd1906fb_setcolreg` takes components of 16 bits, replaces them by their grey if the
display is a grey one, and either packs the top bits into an entry of the pseudo palette
or writes the components to the look-up table. The accessor of the registers keeps the
low byte of what it is given, so a look-up table entry has the low bytes.
-/

namespace Armboard.Ssd1906
open Bits Exec

/-! ## Colours -/

structure Rgb (w : ℕ) where
  red : BitVec w
  green : BitVec w
  blue : BitVec w

/-- No component is larger. -/
instance (w : ℕ) : LE (Rgb w) :=
  ⟨fun c d => c.red ≤ d.red ∧ c.green ≤ d.green ∧ c.blue ≤ d.blue⟩

instance (w : ℕ) (c d : Rgb w) : Decidable (c ≤ d) := inferInstanceAs (Decidable (_ ∧ _ ∧ _))

abbrev Colour := Rgb 16

def Rgb.weighted (c : Colour) : ℕ :=
  19595 * c.red.toNat + 38470 * c.green.toNat + 7471 * c.blue.toNat

def Rgb.ofGrey (g : BitVec 16) : Colour := ⟨g, g, g⟩

def Rgb.effective (c : Colour) (grayscale : Word) : Colour :=
  if grayscale ≠ 0 then Rgb.ofGrey (BitVec.ofNat 16 (c.weighted / 2 ^ 16)) else c

def setColour (regno : Word) (c : Colour) : Driver ℤ :=
  setcolreg regno (c.red.setWidth 32) (c.green.setWidth 32) (c.blue.setWidth 32)

/-- The `switch` of `ssd1906fb_setcolreg` for a colour. -/
def programEffective (regno : Word) (c : Colour) : Driver ℤ :=
  programColour regno (c.red.setWidth 32) (c.green.setWidth 32) (c.blue.setWidth 32)

/-- The weights add up to 65536, so the sum stays below 2^32. -/
theorem Rgb.weighted_lt (c : Colour) : c.weighted < 2 ^ 32 := by
  have hr := c.red.isLt
  have hg := c.green.isLt
  have hb := c.blue.isLt
  rw [weighted]
  omega

theorem Rgb.weighted_toNat (c : Colour) :
    (19595 * c.red.setWidth 32 + 38470 * c.green.setWidth 32 +
      7471 * c.blue.setWidth 32 : Word).toNat = c.weighted := by
  have hlt := c.weighted_lt
  have hr := c.red.isLt
  have hg := c.green.isLt
  have hb := c.blue.isLt
  rw [weighted] at hlt ⊢
  simp only [BitVec.toNat_add, BitVec.toNat_mul, BitVec.toNat_setWidth, BitVec.reduceToNat]
  omega

theorem Rgb.grey_eq (c : Colour) :
    grey (c.red.setWidth 32) (c.green.setWidth 32) (c.blue.setWidth 32) =
      (BitVec.ofNat 16 (c.weighted / 2 ^ 16)).setWidth 32 := by
  have hlt := c.weighted_lt
  apply BitVec.eq_of_toNat_eq
  rw [grey, BitVec.toNat_ushiftRight, c.weighted_toNat, Nat.shiftRight_eq_div_pow,
    BitVec.toNat_setWidth, BitVec.toNat_ofNat]
  omega

theorem Rgb.grey_between (c : Colour) :
    min c.red.toNat (min c.green.toNat c.blue.toNat) ≤ c.weighted / 2 ^ 16 ∧
      c.weighted / 2 ^ 16 ≤ max c.red.toNat (max c.green.toNat c.blue.toNat) := by
  rw [weighted]
  constructor
  · omega
  · omega

theorem setColour_eq {regno : Word} (hregno : regno.toNat < 256) (c : Colour) (s : Fb) :
    setColour regno c s = programEffective regno (c.effective s.info.var.grayscale) s := by
  have hlut : ¬ lutSize ≤ regno := by
    rw [BitVec.le_def, show lutSize.toNat = 256 from rfl]
    omega
  have hget : (get : Driver Fb) s = .ok s s := rfl
  rw [setColour, setcolreg, if_neg hlut, bind_ok hget, Rgb.effective]
  split
  · rw [c.grey_eq]
    rfl
  · rfl

/-! ## True colour -/

structure Entry (value : Word) (c : Colour) : Prop where
  small : value.toNat < 2 ^ 16
  red : value.toNat / 2 ^ 11 % 2 ^ 5 = c.red.toNat / 2 ^ 11
  green : value.toNat / 2 ^ 5 % 2 ^ 6 = c.green.toNat / 2 ^ 10
  blue : value.toNat % 2 ^ 5 = c.blue.toNat / 2 ^ 11

def packed (c : Colour) : Word :=
  c.red.setWidth 32 >>> 11 <<< 11 ||| c.green.setWidth 32 >>> 10 <<< 5 |||
    c.blue.setWidth 32 >>> 11 <<< 0

/-- A component that is shifted down and up again. -/
theorem shifted_toNat (x : BitVec 16) (k : ℕ) {j : ℕ} (hj : j ≤ 16) :
    (x.setWidth 32 >>> k <<< j : Word).toNat = (x.toNat / 2 ^ k) <<< j := by
  have hx := x.isLt
  have hdiv : x.toNat / 2 ^ k < 2 ^ 16 := (Nat.div_le_self _ _).trans_lt hx
  have hpow : 2 ^ j ≤ 2 ^ 16 := Nat.pow_le_pow_right (by decide) hj
  have hmul : x.toNat / 2 ^ k * 2 ^ j < 2 ^ 32 :=
    calc x.toNat / 2 ^ k * 2 ^ j < 2 ^ 16 * 2 ^ j :=
          Nat.mul_lt_mul_of_pos_right hdiv (by positivity)
      _ ≤ 2 ^ 16 * 2 ^ 16 := Nat.mul_le_mul_left _ hpow
      _ = 2 ^ 32 := by norm_num
  rw [BitVec.toNat_shiftLeft, BitVec.toNat_ushiftRight, BitVec.toNat_setWidth,
    Nat.shiftRight_eq_div_pow, Nat.mod_eq_of_lt (hx.trans (by norm_num)), Nat.shiftLeft_eq,
    Nat.mod_eq_of_lt hmul]

/-- The three fields do not overlap. -/
theorem packed_toNat (c : Colour) : (packed c).toNat =
    c.red.toNat / 2 ^ 11 * 2 ^ 11 + (c.green.toNat / 2 ^ 10 * 2 ^ 5 + c.blue.toNat / 2 ^ 11) := by
  have hg := c.green.isLt
  have hb := c.blue.isLt
  have hlow : c.blue.toNat / 2 ^ 11 < 2 ^ 5 := by omega
  have hmid : (c.green.toNat / 2 ^ 10) <<< 5 + c.blue.toNat / 2 ^ 11 < 2 ^ 11 := by
    rw [Nat.shiftLeft_eq]
    omega
  rw [packed, BitVec.toNat_or, BitVec.toNat_or, shifted_toNat _ _ (by decide),
    shifted_toNat _ _ (by decide), shifted_toNat _ _ (by decide), Nat.shiftLeft_zero, Nat.or_assoc,
    ← Nat.shiftLeft_add_eq_or_of_lt hlow, ← Nat.shiftLeft_add_eq_or_of_lt hmid, Nat.shiftLeft_eq,
    Nat.shiftLeft_eq]

theorem packed_entry (c : Colour) : Entry (packed c) c := by
  have hvalue := packed_toNat c
  have hr := c.red.isLt
  have hg := c.green.isLt
  have hb := c.blue.isLt
  constructor
  · omega
  · omega
  · omega
  · omega

/-- In true colour a call writes one entry of the pseudo palette and nothing else. -/
theorem programEffective_truecolour {s : Fb} {info : FbInfo} (hinfo : s.info = setupTruecolour info)
    {regno : Word} (hregno : regno.toNat < 16) (c : Colour) :
    programEffective regno c s = .ok 0 { s with info := { s.info with
      pseudoPalette := s.info.pseudoPalette.setIfInBounds regno.toNat (packed c) } } := by
  have hvisual : s.info.fix.visual = fbVisualTruecolor := by
    rw [hinfo]
    rfl
  have hsmall : ¬ (16 : Word) ≤ regno := by
    rw [BitVec.le_def, show (16 : Word).toNat = 16 from rfl]
    omega
  have hred : s.info.var.red.offset = 11 := by
    rw [hinfo]
    rfl
  have hgreen : s.info.var.green.offset = 5 := by
    rw [hinfo]
    rfl
  have hblue : s.info.var.blue.offset = 0 := by
    rw [hinfo]
    rfl
  have hget : (get : Driver Fb) s = .ok s s := rfl
  rw [programEffective, programColour, bind_ok hget, if_pos hvisual, if_neg hsmall, hred, hgreen,
    hblue]
  rfl

/-- What `ssd1906fb_setcolreg` does to an entry of the pseudo palette, from `s` to `t`. -/
structure SetsEntry (regno : Word) (c : Colour) (s t : Fb) : Prop where
  entry : ∀ h : regno.toNat < 16,
    Entry t.info.pseudoPalette[regno.toNat] (c.effective s.info.var.grayscale)
  others : ∀ i, ∀ h : i < 16, i ≠ regno.toNat →
    t.info.pseudoPalette[i] = s.info.pseudoPalette[i]
  regs : t.regs = s.regs
  events : t.events = s.events

/-- A grey is common to the three components, its sum does not overflow, and it lies between
them. -/
structure GreyOf (e c : Colour) : Prop where
  common : e.red = e.green ∧ e.green = e.blue
  fits : c.weighted < 2 ^ 32
  darkest : min c.red.toNat (min c.green.toNat c.blue.toNat) ≤ e.red.toNat
  brightest : e.red.toNat ≤ max c.red.toNat (max c.green.toNat c.blue.toNat)

theorem Rgb.effective_grey (c : Colour) {grayscale : Word} (h : grayscale ≠ 0) :
    GreyOf (c.effective grayscale) c := by
  have hbetween := c.grey_between
  have hlt := c.weighted_lt
  have hvalue : (BitVec.ofNat 16 (c.weighted / 2 ^ 16)).toNat = c.weighted / 2 ^ 16 := by
    rw [BitVec.toNat_ofNat]
    omega
  rw [effective, if_pos h]
  constructor
  · exact ⟨rfl, rfl⟩
  · exact hlt
  · rw [ofGrey, hvalue]
    exact hbetween.1
  · rw [ofGrey, hvalue]
    exact hbetween.2

/-- For every colour and every entry, with `info` as `ssd1906fb_setup_truecolour` leaves it, the
call succeeds, packs the top bits of the colour that is shown, and changes nothing else; a grey is
right as well. -/
theorem setcolreg_truecolour (s : Fb) (info : FbInfo) (hinfo : s.info = setupTruecolour info)
    (regno : Word) (hregno : regno.toNat < 16) (c : Colour) :
    (∃ t, setColour regno c s = .ok 0 t ∧ SetsEntry regno c s t) ∧
      (s.info.var.grayscale ≠ 0 → GreyOf (c.effective s.info.var.grayscale) c) := by
  constructor
  · have hrun := programEffective_truecolour hinfo hregno (c.effective s.info.var.grayscale)
    refine ⟨_, (setColour_eq (hregno.trans (by decide)) c s).trans hrun, ?_⟩
    constructor
    · intro h
      simp only [Vector.getElem_setIfInBounds_self]
      exact packed_entry _
    · intro i h hne
      simp only [Vector.getElem_setIfInBounds]
      rw [if_neg (Ne.symm hne)]
    · rfl
    · rfl
  · exact fun h => c.effective_grey h

/-- A grey display in true colour. -/
def greyFb : Fb where
  regs := fun _ => 0
  info := setupTruecolour {
    var := ⟨480, 272, 480, 272, 0, 0, 16, 1, ⟨0, 0⟩, ⟨0, 0⟩, ⟨0, 0⟩, 0⟩
    fix := ⟨fbTypePackedPixels, fbVisualTruecolor, 960⟩
    pseudoPalette := Vector.replicate 16 0 }
  events := []

/-- White as the last entry of the grey display. -/
theorem setcolreg_truecolour_white :
    ∃ t, setColour 15 ⟨0xFFFF, 0xFFFF, 0xFFFF⟩ greyFb = .ok 0 t ∧
      SetsEntry 15 ⟨0xFFFF, 0xFFFF, 0xFFFF⟩ greyFb t :=
  (setcolreg_truecolour greyFb _ rfl 15 (by decide) ⟨0xFFFF, 0xFFFF, 0xFFFF⟩).1

/-! ## The look-up table -/

/-- A call writes `bytes` to the data registers of the table, and nothing else but the address. -/
def WritesBytes (s : Fb) (regno : Word) (c : Colour) (bytes : Rgb 8) : Prop :=
  ∃ t, setColour regno c s = .ok 0 t ∧ t.events =
    .write regLutWriteAddress (regno.setWidth 8) :: .write regLutBlueDataWrite bytes.blue ::
      .write regLutGreenDataWrite bytes.green :: .write regLutRedDataWrite bytes.red :: s.events

/-- A component at full scale is not written darker than the component of `bytes`. -/
structure FullScale (e : Colour) (written bytes : Rgb 8) : Prop where
  red : e.red = 0xFFFF → bytes.red ≤ written.red
  green : e.green = 0xFFFF → bytes.green ≤ written.green
  blue : e.blue = 0xFFFF → bytes.blue ≤ written.blue

/-- The bytes for `d` are at least those for `c` if `d` is at least `c`, or shown at full scale. -/
def PaletteMonotone (s : Fb) (regno : Word) (c d : Colour) : Prop :=
  ∃ low high, WritesBytes s regno c low ∧ WritesBytes s regno d high ∧ (c ≤ d → low ≤ high) ∧
    FullScale (d.effective s.info.var.grayscale) high low

/-- The way from `x` up to `y` does not carry out of the low byte. -/
def NoCarry (x y : BitVec 16) : Prop := x.toNat % 2 ^ 8 + (y.toNat - x.toNat) % 2 ^ 8 < 2 ^ 8

instance (x y : BitVec 16) : Decidable (NoCarry x y) := inferInstanceAs (Decidable (_ < _))

def Rgb.NoCarry (c d : Colour) : Prop :=
  Ssd1906.NoCarry c.red d.red ∧ Ssd1906.NoCarry c.green d.green ∧ Ssd1906.NoCarry c.blue d.blue

instance (c d : Colour) : Decidable (c.NoCarry d) := inferInstanceAs (Decidable (_ ∧ _ ∧ _))

def Rgb.lowBytes (c : Colour) : Rgb 8 := ⟨c.red.setWidth 8, c.green.setWidth 8, c.blue.setWidth 8⟩

theorem setWidth_le_iff {x y : BitVec 16} (h : x ≤ y) :
    x.setWidth 8 ≤ y.setWidth 8 ↔ NoCarry x y := by
  rw [BitVec.le_def] at h
  rw [BitVec.le_def, BitVec.toNat_setWidth, BitVec.toNat_setWidth, NoCarry]
  omega

/-- The low byte of full scale is the largest one. -/
theorem le_setWidth_full {x : BitVec 16} (h : x = 0xFFFF) (y : Byte) : y ≤ x.setWidth 8 := by
  have hy := y.isLt
  rw [h, BitVec.le_def, show ((0xFFFF : BitVec 16).setWidth 8 : Byte).toNat = 255 from rfl]
  omega

theorem Rgb.weighted_mono {c d : Colour} (h : c ≤ d) : c.weighted ≤ d.weighted := by
  rcases h with ⟨hr, hg, hb⟩
  rw [BitVec.le_def] at hr hg hb
  rw [weighted, weighted]
  omega

theorem Rgb.effective_mono {c d : Colour} (h : c ≤ d) (grayscale : Word) :
    c.effective grayscale ≤ d.effective grayscale := by
  have hmono := weighted_mono h
  have hc := c.weighted_lt
  have hd := d.weighted_lt
  have hgrey : BitVec.ofNat 16 (c.weighted / 2 ^ 16) ≤ BitVec.ofNat 16 (d.weighted / 2 ^ 16) := by
    rw [BitVec.le_def, BitVec.toNat_ofNat, BitVec.toNat_ofNat]
    omega
  rw [effective, effective]
  split
  · exact ⟨hgrey, hgrey, hgrey⟩
  · exact h

theorem writesBytes_iff {s : Fb} (hvisual : s.info.fix.visual = fbVisualPseudocolor)
    {regno : Word} (hregno : regno.toNat < 256) (c : Colour) (bytes : Rgb 8) :
    WritesBytes s regno c bytes ↔ bytes = (c.effective s.info.var.grayscale).lowBytes := by
  have htrue : ¬ s.info.fix.visual = fbVisualTruecolor := by
    rw [hvisual]
    decide
  have hget : (get : Driver Fb) s = .ok s s := rfl
  rw [WritesBytes, setColour_eq hregno, programEffective, programColour, bind_ok hget,
    if_neg htrue, if_pos hvisual]
  simp only [BitVec.setWidth_setWidth_of_le _ (show 8 ≤ 32 by decide)]
  constructor
  · rintro ⟨t, hrun, hevents⟩
    cases hrun
    cases bytes
    simp only [List.cons.injEq, Event.write.injEq, true_and, and_true] at hevents
    rw [Rgb.lowBytes, hevents.2.2, hevents.2.1, hevents.1]
  · rintro rfl
    exact ⟨_, rfl, rfl⟩

theorem monotone_iff_lowBytes (s : Fb) (hvisual : s.info.fix.visual = fbVisualPseudocolor)
    (regno : Word) (hregno : regno.toNat < 256) (c d : Colour) :
    PaletteMonotone s regno c d ↔ (c ≤ d → (c.effective s.info.var.grayscale).lowBytes ≤
      (d.effective s.info.var.grayscale).lowBytes) := by
  simp only [PaletteMonotone, writesBytes_iff hvisual hregno]
  constructor
  · rintro ⟨low, high, rfl, rfl, hle, -⟩
    exact hle
  · intro hle
    refine ⟨_, _, rfl, rfl, hle, ?_⟩
    constructor
    · exact fun h => le_setWidth_full h _
    · exact fun h => le_setWidth_full h _
    · exact fun h => le_setWidth_full h _

/-- The bytes of two colours are in order if and only if no component of what is shown carries out
of its low byte on the way from the one colour up to the other. -/
theorem palette_monotone_iff (s : Fb) (hvisual : s.info.fix.visual = fbVisualPseudocolor)
    (regno : Word) (hregno : regno.toNat < 256) (c d : Colour) :
    PaletteMonotone s regno c d ↔ (c ≤ d →
      (c.effective s.info.var.grayscale).NoCarry (d.effective s.info.var.grayscale)) := by
  rw [monotone_iff_lowBytes s hvisual regno hregno]
  apply imp_congr_right
  intro hle
  rcases Rgb.effective_mono hle s.info.var.grayscale with ⟨hr, hg, hb⟩
  exact and_congr (setWidth_le_iff hr) (and_congr (setWidth_le_iff hg) (setWidth_le_iff hb))

def lutFb (grayscale : Word) : Fb where
  regs := fun _ => 0
  info := setupPseudocolour {
    var := ⟨480, 272, 480, 272, 0, 0, 8, grayscale, ⟨0, 8⟩, ⟨0, 8⟩, ⟨0, 8⟩, 0⟩
    fix := ⟨fbTypePackedPixels, fbVisualPseudocolor, 480⟩
    pseudoPalette := Vector.replicate 16 0 }
  events := []

theorem palette_monotone_iff_white :
    PaletteMonotone (lutFb 1) 255 ⟨0, 0, 0⟩ ⟨0xFFFF, 0xFFFF, 0xFFFF⟩ :=
  (palette_monotone_iff (lutFb 1) rfl 255 (by decide) ⟨0, 0, 0⟩ ⟨0xFFFF, 0xFFFF, 0xFFFF⟩).mpr
    fun _ => by decide

/-- 0x00FF is written as 0xFF, and 0x0100 as 0x00. -/
theorem palette_not_monotone : ¬ ∀ (s : Fb), s.info.fix.visual = fbVisualPseudocolor →
    ∀ regno : Word, regno.toNat < 256 → ∀ c d : Colour, PaletteMonotone s regno c d := by
  intro h
  have hmono := (monotone_iff_lowBytes (lutFb 0) rfl 0 (by decide)
    ⟨0x00FF, 0x00FF, 0x00FF⟩ ⟨0x0100, 0x0100, 0x0100⟩).mp (h _ rfl _ (by decide) _ _)
  exact absurd (hmono (by decide)) (by decide)

end Armboard.Ssd1906
