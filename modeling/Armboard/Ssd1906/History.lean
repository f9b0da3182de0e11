import Armboard.Ssd1906.Geometry

/-! # What mode setting remembers

Every successful `ssd1906fb_set_par` sets the visual, the line length, the lengths of
the colour fields and the depth code. The offsets of the colour fields it sets for true
colour only, so a pseudo colour mode keeps those of the last true colour mode, or of
the probe if there was none.
-/

namespace Armboard.Ssd1906
open Bits Exec

/-! ## Histories -/

/-- `ssd1906fb_set_par` with a depth and a width in `info->var`. -/
def setMode (bitsPerPixel xres : Word) : Driver ℤ := do
  modifyInfo fun info => { info with var := { info.var with
    bitsPerPixel := bitsPerPixel
    xres := xres } }
  setPar

def setModes : List (Word × Word) → Driver Unit
  | [] => pure ()
  | m :: ms => do
    let _ ← setMode m.1 m.2
    setModes ms

/-- A history of modes behind the probe, and a last one. -/
def modeRun (history : List (Word × Word)) (bitsPerPixel xres : Word) : Driver ℤ := do
  fetchHwState
  setModes history
  setMode bitsPerPixel xres

/-- What drawing code takes from the driver, and the depth code of the chip. -/
structure SameMode (t u : Fb) : Prop where
  visual : t.info.fix.visual = u.info.fix.visual
  lineLength : t.info.fix.lineLength = u.info.fix.lineLength
  red : t.info.var.red = u.info.var.red
  green : t.info.var.green = u.info.var.green
  blue : t.info.var.blue = u.info.var.blue
  depth : t.regs regDispMode &&& 0x07 = u.regs regDispMode &&& 0x07

/-- On a chip with `regs`, the two histories do not matter for a last mode that is set with
success. -/
def Independent (regs : Regno → Byte) (history history' : List (Word × Word))
    (bitsPerPixel xres : Word) : Prop :=
  ∀ t u, modeRun history bitsPerPixel xres ⟨regs, allocatedInfo, []⟩ = .ok 0 t →
    modeRun history' bitsPerPixel xres ⟨regs, allocatedInfo, []⟩ = .ok 0 u → SameMode t u

/-! ## One mode -/

def offsets (info : FbInfo) : Word × Word × Word :=
  (info.var.red.offset, info.var.green.offset, info.var.blue.offset)

def trueOffsets : Word × Word × Word := (11, 5, 0)

/-- A mode that is set fixes everything but the offsets, which only true colour sets. -/
structure Moded (bitsPerPixel xres : Word) (s t : Fb) (ret : ℤ) : Prop where
  success : ret = 0 ↔ bitsPerPixel = 4 ∨ bitsPerPixel = 8 ∨ bitsPerPixel = 16
  offsets : offsets t.info = if bitsPerPixel = 16 then trueOffsets else Ssd1906.offsets s.info
  visual : ret = 0 → t.info.fix.visual =
    if bitsPerPixel = 16 then fbVisualTruecolor else fbVisualPseudocolor
  lineLength : ret = 0 → t.info.fix.lineLength = xres * bitsPerPixel / 8
  lengths : ret = 0 → (t.info.var.red.length, t.info.var.green.length, t.info.var.blue.length) =
    if bitsPerPixel = 16 then (5, 6, 5) else (4, 4, 4)
  depth : ret = 0 → t.regs regDispMode &&& 0x07 = depthCode bitsPerPixel

theorem mode_depth (mode : Byte) (code : Word)
    (hcode : code.setWidth 8 &&& (0x07 : Byte) = code.setWidth 8) :
    (mode.setWidth 32 &&& ~~~(0x07 : Word) ||| code).setWidth 8 &&& 0x07 = code.setWidth 8 := by
  rw [setWidth_mode]
  exact and_field hcode

theorem setMode_spec (bitsPerPixel xres : Word) (s : Fb) :
    wp (setMode bitsPerPixel xres) (fun ret t => Moded bitsPerPixel xres s t ret) never s := by
  simp only [setMode, setPar, programDepth, modifyInfo, readreg, writereg, wp_bind, wp_modify, wp_get,
    wp_pure, wp_ite]
  split
  · rename_i h
    subst h
    constructor
    · simp
    · rfl
    · exact fun _ => rfl
    · exact fun _ => rfl
    · exact fun _ => rfl
    · intro _
      simpa [depthCode] using mode_depth _ 2 (by decide)
  split
  · rename_i h
    subst h
    constructor
    · simp
    · rfl
    · exact fun _ => rfl
    · exact fun _ => rfl
    · exact fun _ => rfl
    · intro _
      simpa [depthCode] using mode_depth _ 3 (by decide)
  split
  · rename_i h
    subst h
    constructor
    · simp
    · rfl
    · exact fun _ => rfl
    · exact fun _ => rfl
    · exact fun _ => rfl
    · intro _
      simpa [depthCode] using mode_depth _ 4 (by decide)
  · rename_i h4 h8 h16
    have hfail : ¬ (-einval : ℤ) = 0 := by decide
    constructor
    · constructor
      · exact fun h => absurd h hfail
      · rintro (h | h | h)
        · exact absurd h h4
        · exact absurd h h8
        · exact absurd h h16
    · rw [if_neg h16]
      rfl
    · exact fun h => absurd h hfail
    · exact fun h => absurd h hfail
    · exact fun h => absurd h hfail
    · exact fun h => absurd h hfail

/-! ## A history -/

def SetsTrueColour (history : List (Word × Word)) : Prop := ∃ m ∈ history, m.1 = 16

instance (history : List (Word × Word)) : Decidable (SetsTrueColour history) :=
  inferInstanceAs (Decidable (∃ m ∈ history, m.1 = 16))

theorem setModes_offsets (history : List (Word × Word)) (s : Fb) :
    wp (setModes history) (fun _ t => offsets t.info =
      if SetsTrueColour history then trueOffsets else offsets s.info) never s := by
  induction history generalizing s with
  | nil => exact (if_neg (by decide)).symm
  | cons m ms ih =>
    rw [setModes, wp_bind]
    apply wp_post (setMode_spec m.1 m.2 s)
    intro ret t ht
    apply wp_post (ih t)
    intro _ u hu
    have hcons : SetsTrueColour (m :: ms) ↔ m.1 = 16 ∨ SetsTrueColour ms := by
      simp [SetsTrueColour]
    rw [hu, ht.offsets, if_congr hcons rfl rfl]
    by_cases hms : SetsTrueColour ms
    · rw [if_pos hms, if_pos (Or.inr hms)]
    · rw [if_neg hms]
      exact if_congr (or_iff_left hms).symm rfl rfl

theorem fetchHwState_offsets (regs : Regno → Byte) :
    wp fetchHwState (fun _ t => offsets t.info =
      if regs regDispMode &&& 0x07 = 4 then trueOffsets else (0, 0, 0)) never
      ⟨regs, allocatedInfo, []⟩ := by
  simp only [fetchHwState, modifyInfo, readreg, divide, wp_bind, wp_modify, wp_get, wp_pure, wp_ite]
  split
  · rename_i hpseudo
    have hcode : ¬ regs regDispMode &&& 0x07 = 4 := by
      rcases hpseudo with h | h
      · rw [h]
        decide
      · rw [h]
        decide
    rw [if_neg hcode]
    split <;> rfl
  split
  · split <;> rfl
  · split <;> rfl

def keptOffsets (regs : Regno → Byte) (history : List (Word × Word)) : Word × Word × Word :=
  if SetsTrueColour history ∨ regs regDispMode &&& 0x07 = 4 then trueOffsets else (0, 0, 0)

theorem modeRun_spec (regs : Regno → Byte) (history : List (Word × Word))
    (bitsPerPixel xres : Word) : wp (modeRun history bitsPerPixel xres)
      (fun ret t => ∃ s, Moded bitsPerPixel xres s t ret ∧ offsets s.info = keptOffsets regs history)
      never ⟨regs, allocatedInfo, []⟩ := by
  rw [modeRun, wp_bind]
  apply wp_post (fetchHwState_offsets regs)
  intro _ s hs
  rw [wp_bind]
  apply wp_post (setModes_offsets history s)
  intro _ t ht
  apply wp_post (setMode_spec bitsPerPixel xres t)
  intro ret u hu
  refine ⟨t, hu, ?_⟩
  rw [ht, hs, keptOffsets]
  by_cases hset : SetsTrueColour history
  · rw [if_pos hset, if_pos (Or.inl hset)]
  · rw [if_neg hset]
    exact if_congr (or_iff_right hset).symm rfl rfl

/-! ## Two histories -/

/-- Two runs that set the same mode differ in the offsets at most, and not in true colour. -/
theorem sameMode_iff_offsets {bitsPerPixel xres : Word} {s s' t u : Fb}
    (ht : Moded bitsPerPixel xres s t 0) (hu : Moded bitsPerPixel xres s' u 0) :
    SameMode t u ↔ bitsPerPixel = 16 ∨ offsets s.info = offsets s'.info := by
  have hkept : offsets t.info = offsets u.info ↔
      bitsPerPixel = 16 ∨ offsets s.info = offsets s'.info := by
    rw [ht.offsets, hu.offsets]
    by_cases h16 : bitsPerPixel = 16
    · simp [h16]
    · rw [if_neg h16, if_neg h16, or_iff_right h16]
  rw [← hkept]
  constructor
  · intro h
    rw [offsets, offsets, h.red, h.green, h.blue]
  · intro hoff
    have hlen := (ht.lengths rfl).trans (hu.lengths rfl).symm
    simp only [offsets, Prod.mk.injEq] at hoff hlen
    constructor
    · exact (ht.visual rfl).trans (hu.visual rfl).symm
    · exact (ht.lineLength rfl).trans (hu.lineLength rfl).symm
    · exact Bitfield.mk.injEq .. |>.mpr ⟨hoff.1, hlen.1⟩
    · exact Bitfield.mk.injEq .. |>.mpr ⟨hoff.2.1, hlen.2.1⟩
    · exact Bitfield.mk.injEq .. |>.mpr ⟨hoff.2.2, hlen.2.2⟩
    · exact (ht.depth rfl).trans (hu.depth rfl).symm

theorem ite_or_eq_iff {α : Type} {x y : α} (hne : x ≠ y) (p q r : Prop) [Decidable p] [Decidable q]
    [Decidable r] : (if p ∨ r then x else y) = (if q ∨ r then x else y) ↔ r ∨ (p ↔ q) := by
  by_cases hr : r
  · simp [hr]
  · by_cases hp : p
    · by_cases hq : q
      · simp [hp, hq]
      · simp [hr, hp, hq, hne]
    · by_cases hq : q
      · simp [hr, hp, hq, hne.symm]
      · simp [hr, hp, hq]

theorem keptOffsets_eq_iff (regs : Regno → Byte) (history history' : List (Word × Word)) :
    keptOffsets regs history = keptOffsets regs history' ↔
      regs regDispMode &&& 0x07 = 4 ∨ (SetsTrueColour history ↔ SetsTrueColour history') :=
  ite_or_eq_iff (by decide) _ _ _

theorem independent_iff_kept (regs : Regno → Byte) (history history' : List (Word × Word))
    {bitsPerPixel : Word} (xres : Word)
    (hbpp : bitsPerPixel = 4 ∨ bitsPerPixel = 8 ∨ bitsPerPixel = 16) :
    Independent regs history history' bitsPerPixel xres ↔
      bitsPerPixel = 16 ∨ keptOffsets regs history = keptOffsets regs history' := by
  rcases wp_never.mp (modeRun_spec regs history bitsPerPixel xres) with ⟨ret, t, hrun, s, ht, hs⟩
  rcases wp_never.mp (modeRun_spec regs history' bitsPerPixel xres) with
    ⟨ret', u, hrun', s', hu, hs'⟩
  cases ht.success.mpr hbpp
  cases hu.success.mpr hbpp
  rw [← hs, ← hs', ← sameMode_iff_offsets ht hu]
  constructor
  · intro h
    exact h t u hrun hrun'
  · intro h t' u' ht' hu'
    rw [hrun] at ht'
    rw [hrun'] at hu'
    cases ht'
    cases hu'
    exact h

/-- Two histories do not matter for a last mode if and only if it is a true colour mode, or the chip
was probed in true colour, or both histories have a true colour mode or neither has. -/
theorem modeSetting_independent_iff (regs : Regno → Byte) (history history' : List (Word × Word))
    (bitsPerPixel xres : Word) (hbpp : bitsPerPixel = 4 ∨ bitsPerPixel = 8 ∨ bitsPerPixel = 16) :
    Independent regs history history' bitsPerPixel xres ↔ bitsPerPixel = 16 ∨
      regs regDispMode &&& 0x07 = 4 ∨ (SetsTrueColour history ↔ SetsTrueColour history') := by
  rw [independent_iff_kept regs history history' xres hbpp, keptOffsets_eq_iff]

/-- 8 bits per pixel behind 16, and at once, on a chip that was probed with 8. -/
theorem modeSetting_independent_iff_eight :
    Independent (fun _ => 3) [(16, 480)] [] 8 480 ↔ (8 : Word) = 16 ∨
      (3 : Byte) &&& 0x07 = 4 ∨ (SetsTrueColour [(16, 480)] ↔ SetsTrueColour []) :=
  modeSetting_independent_iff (fun _ => 3) [(16, 480)] [] 8 480 (Or.inr (Or.inl rfl))

/-- A mode of 16 bits per pixel leaves its offsets to the next one. -/
theorem modeSetting_remembers : ¬ ∀ (regs : Regno → Byte) (history history' : List (Word × Word))
    (bitsPerPixel xres : Word), Independent regs history history' bitsPerPixel xres := by
  intro h
  have hind := h (fun _ => 3) [(16, 480)] [] 8 480
  rw [independent_iff_kept _ _ _ _ (Or.inr (Or.inl rfl))] at hind
  exact absurd hind (by decide)

end Armboard.Ssd1906
