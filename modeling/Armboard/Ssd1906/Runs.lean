import Armboard.Bits.Agree
import Armboard.Ssd1906.Driver

/-! # Runs of the framebuffer driver

The colour depth and the power state are two components of one display, kept in
different bits of the same registers. Every operation changes one of them or none,
and the registers show the display after any run.
-/

namespace Armboard.Ssd1906
open Bits Exec

/-! ## Calls -/

inductive Call where
  | setPar
  | blank (blankMode : ℤ)
  | panDisplay (var : VarScreeninfo)
  | setcolreg (regno red green blue : Word)

def perform (info : FbInfo) (call : Call) : Driver ℤ := do
  modifyInfo fun _ => info
  match call with
  | .setPar => setPar
  | .blank blankMode => blank blankMode
  | .panDisplay var => panDisplay var
  | .setcolreg regno red green blue => setcolreg regno red green blue

structure Called where
  info : FbInfo
  call : Call
  ret : ℤ

/-- One call after the other, each with a `fb_info` of its own. -/
def run : List (FbInfo × Call) → Driver (List Called)
  | [] => pure []
  | c :: cs => do
    let ret ← perform c.1 c.2
    let done ← run cs
    pure (⟨c.1, c.2, ret⟩ :: done)

/-! ## The display -/

inductive Power where
  | on
  | off
  deriving DecidableEq

/-- The depth code in DISP_MODE, and the power state since the first call that set it. -/
structure Display where
  depth : Byte
  power : Option Power

def depthCode (bitsPerPixel : Word) : Byte :=
  if bitsPerPixel = 4 then 2 else if bitsPerPixel = 8 then 3 else 4

def Display.next (x : Display) (c : Called) : Display :=
  match c.call with
  | .setPar => if c.ret = 0 then { x with depth := depthCode c.info.var.bitsPerPixel } else x
  | .blank blankMode =>
    if blankMode = fbBlankUnblank ∨ blankMode = fbBlankNormal then { x with power := some .on }
    else if blankMode = fbBlankPowerdown then { x with power := some .off }
    else x
  | _ => x

def Power.Holds (s : Fb) : Power → Prop
  | .on => s.regs regDispMode &&& 0x80 = 0 ∧ s.regs regPsConf &&& 0x01 = 0 ∧ s.regs regPwmCtl = 0x10
  | .off =>
    s.regs regDispMode &&& 0x80 = 0x80 ∧ s.regs regPsConf &&& 0x01 = 0x01 ∧ s.regs regPwmCtl = 0x00

/-- The registers show a display, and everything else in them is as in `base`. -/
structure Shows (base : Fb) (x : Display) (s : Fb) : Prop where
  dispMode : AgreeOn 0x78 (s.regs regDispMode) (base.regs regDispMode)
  psConf : AgreeOn 0xFE (s.regs regPsConf) (base.regs regPsConf)
  depth : s.regs regDispMode &&& 0x07 = x.depth
  power : ∀ p ∈ x.power, p.Holds s

variable {base s t : Fb} {x : Display}

structure SameDisplay (s t : Fb) : Prop where
  dispMode : t.regs regDispMode = s.regs regDispMode
  psConf : t.regs regPsConf = s.regs regPsConf
  pwmCtl : t.regs regPwmCtl = s.regs regPwmCtl

theorem Shows.of_same (h : Shows base x s) (hs : SameDisplay s t) : Shows base x t := by
  cases hs with
  | mk hd hp hw =>
    constructor
    · rw [hd]
      exact h.dispMode
    · rw [hp]
      exact h.psConf
    · rw [hd]
      exact h.depth
    · intro p hpx
      have hold := h.power p hpx
      cases p with
      | on => rwa [Power.Holds, hd, hp, hw]
      | off => rwa [Power.Holds, hd, hp, hw]

/-! ## Power -/

theorem lcdEnable_spec (s : Fb) : wp lcdEnable (fun _ t =>
    t.regs regDispMode = s.regs regDispMode &&& ~~~0x80 ∧
    t.regs regPsConf = s.regs regPsConf &&& ~~~0x01 ∧ t.regs regPwmCtl = 0x10) never s := by
  simp [lcdEnable, readreg, writereg]

theorem lcdDisable_spec (s : Fb) : wp lcdDisable (fun _ t =>
    t.regs regDispMode = s.regs regDispMode ||| 0x80 ∧
    t.regs regPsConf = s.regs regPsConf ||| 0x01 ∧ t.regs regPwmCtl = 0x00) never s := by
  simp [lcdDisable, readreg, writereg]

theorem lcdEnable_shows (h : Shows base x s) :
    wp lcdEnable (fun _ t => Shows base { x with power := some .on } t) never s := by
  apply wp_post (lcdEnable_spec s)
  rintro _ t ⟨hd, hp, hw⟩
  constructor
  · rw [hd]
    exact (agreeOn_and (by decide)).trans h.dispMode
  · rw [hp]
    exact (agreeOn_and (by decide)).trans h.psConf
  · rw [hd, ← h.depth]
    exact agreeOn_and (by decide)
  · rintro _ ⟨⟩
    rw [Power.Holds, hd, hp]
    exact ⟨and_of_cleared _ _, and_of_cleared _ _, hw⟩

theorem lcdDisable_shows (h : Shows base x s) :
    wp lcdDisable (fun _ t => Shows base { x with power := some .off } t) never s := by
  apply wp_post (lcdDisable_spec s)
  rintro _ t ⟨hd, hp, hw⟩
  constructor
  · rw [hd]
    exact (agreeOn_or (by decide)).trans h.dispMode
  · rw [hp]
    exact (agreeOn_or (by decide)).trans h.psConf
  · rw [hd, ← h.depth]
    exact agreeOn_or (by decide)
  · rintro _ ⟨⟩
    rw [Power.Holds, hd, hp]
    exact ⟨and_of_set _ _, and_of_set _ _, hw⟩

/-! ## Colour depth -/

theorem programDepth_spec (s : Fb) (val : Word) : wp (programDepth val) (fun ret t =>
    ret = 0 ∧ t.regs regDispMode = val.setWidth 8 ∧ t.regs regPsConf = s.regs regPsConf ∧
    t.regs regPwmCtl = s.regs regPwmCtl) never s := by
  simp [programDepth, writereg, modifyInfo]

theorem setWidth_mode (mode : Byte) (code : Word) :
    (mode.setWidth 32 &&& ~~~(0x07 : Word) ||| code).setWidth 8 =
      mode &&& ~~~0x07 ||| code.setWidth 8 := by
  rw [BitVec.setWidth_or, BitVec.setWidth_and, BitVec.setWidth_setWidth_of_le _ (by simp)]
  simp

theorem programDepth_shows (h : Shows base x s) (code : Word)
    (hcode : code.setWidth 8 &&& (0x07 : Byte) = code.setWidth 8) :
    wp (programDepth ((s.regs regDispMode).setWidth 32 &&& ~~~(0x07 : Word) ||| code))
      (fun ret t => ret = 0 ∧ Shows base { x with depth := code.setWidth 8 } t) never s := by
  apply wp_post (programDepth_spec s _)
  rintro ret t ⟨hret, hd, hp, hw⟩
  rw [setWidth_mode] at hd
  have hpower : AgreeOn 0x80 (t.regs regDispMode) (s.regs regDispMode) := by
    rw [hd]
    exact agreeOn_field (by decide) hcode
  refine ⟨hret, ?_, ?_, ?_, ?_⟩
  · rw [hd]
    exact (agreeOn_field (by decide) hcode).trans h.dispMode
  · rw [hp]
    exact h.psConf
  · rw [hd]
    exact and_field hcode
  · intro p hpx
    have hold := h.power p hpx
    cases p with
    | on => rwa [Power.Holds, hpower, hp, hw]
    | off => rwa [Power.Holds, hpower, hp, hw]

/-- What a call does: it answers with an error and changes nothing, or it changes its part of the
display. -/
structure Answers (base : Fb) (x : Display) (s : Fb) (call : Call) (ret : ℤ) (t : Fb) : Prop where
  failed : ret < 0 → t = s
  shows_next : Shows base (x.next ⟨s.info, call, ret⟩) t

theorem setDepth_answers (h : Shows base x s) (f : FbInfo → FbInfo) (code : Word)
    (hcode : code.setWidth 8 &&& (0x07 : Byte) = code.setWidth 8)
    (hbpp : depthCode s.info.var.bitsPerPixel = code.setWidth 8) :
    wp (do
      modifyInfo f
      programDepth ((s.regs regDispMode).setWidth 32 &&& ~~~(0x07 : Word) ||| code))
      (fun ret t => Answers base x s .setPar ret t) never s := by
  have hs : Shows base x { s with info := f s.info } := h.of_same ⟨rfl, rfl, rfl⟩
  apply wp_post (programDepth_shows hs code hcode)
  rintro ret t ⟨rfl, ht⟩
  constructor
  · intro hneg
    exact absurd hneg (lt_irrefl 0)
  · simpa [Display.next, hbpp] using ht

theorem setPar_answers (h : Shows base x s) :
    wp setPar (fun ret t => Answers base x s .setPar ret t) never s := by
  rw [setPar, wp_bind]
  change wp (ite _ _ _) _ _ _
  split
  · rename_i hbpp
    exact setDepth_answers h _ 2 (by decide) (by rw [hbpp]; decide)
  split
  · rename_i hbpp
    exact setDepth_answers h _ 3 (by decide) (by rw [hbpp]; decide)
  split
  · rename_i hbpp
    exact setDepth_answers h _ 4 (by decide) (by rw [hbpp]; decide)
  · constructor
    · intro _
      rfl
    · exact h

/-! ## The other calls -/

theorem blank_answers (h : Shows base x s) (blankMode : ℤ) :
    wp (blank blankMode) (fun ret t => Answers base x s (.blank blankMode) ret t) never s := by
  rw [blank]
  split
  · rename_i hon
    rw [wp_bind]
    apply wp_post (lcdEnable_shows h)
    intro _ t ht
    constructor
    · intro hneg
      split at hneg <;> simp at hneg
    · simpa [Display.next, hon] using ht
  split
  · rename_i hon hsuspend
    constructor
    · intro hneg
      exact absurd hneg (lt_irrefl 0)
    · have hoff : blankMode ≠ fbBlankPowerdown := by
        rcases hsuspend with rfl | rfl <;> simp
      simpa [Display.next, hon, hoff] using h
  split
  · rename_i hon _ hoff
    rw [wp_bind]
    apply wp_post (lcdDisable_shows h)
    intro _ t ht
    constructor
    · intro hneg
      exact absurd hneg (lt_irrefl 0)
    · simpa [Display.next, hon, hoff] using ht
  · rename_i hon _ hoff
    constructor
    · intro _
      rfl
    · simpa [Display.next, hon, hoff] using h

theorem panDisplay_answers (h : Shows base x s) (var : VarScreeninfo) :
    wp (panDisplay var) (fun ret t => Answers base x s (.panDisplay var) ret t) never s := by
  rw [panDisplay, wp_bind, wp_get]
  split
  · exact ⟨fun _ => rfl, h⟩
  split
  · exact ⟨fun _ => rfl, h⟩
  · constructor
    · intro hneg
      exact absurd hneg (lt_irrefl 0)
    · apply h.of_same
      constructor <;> simp

theorem programColour_answers (h : Shows base x s) (regno red green blue r g b : Word) :
    wp (programColour regno r g b)
      (fun ret t => Answers base x s (.setcolreg regno red green blue) ret t) never s := by
  rw [programColour, wp_bind, wp_get]
  split
  · split
    · exact ⟨fun _ => rfl, h⟩
    · constructor
      · intro hneg
        exact absurd hneg (lt_irrefl 0)
      · exact h.of_same ⟨rfl, rfl, rfl⟩
  split
  · constructor
    · intro hneg
      exact absurd hneg (lt_irrefl 0)
    · apply h.of_same
      constructor <;> simp
  · exact ⟨fun _ => rfl, h⟩

theorem setcolreg_answers (h : Shows base x s) (regno red green blue : Word) :
    wp (setcolreg regno red green blue)
      (fun ret t => Answers base x s (.setcolreg regno red green blue) ret t) never s := by
  rw [setcolreg]
  split
  · exact ⟨fun _ => rfl, h⟩
  · rw [wp_bind, wp_get]
    split
    · exact programColour_answers h ..
    · exact programColour_answers h ..

/-! ## Runs -/

theorem perform_answers (info : FbInfo) (call : Call) (h : Shows base x s) :
    wp (perform info call) (fun ret t => (ret < 0 → t = { s with info := info }) ∧
      Shows base (x.next ⟨info, call, ret⟩) t) never s := by
  have hs : Shows base x { s with info := info } := h.of_same ⟨rfl, rfl, rfl⟩
  simp only [perform, modifyInfo, wp_bind, wp_modify]
  cases call with
  | setPar =>
    apply wp_post (setPar_answers hs)
    intro ret t ht
    exact ⟨ht.failed, ht.shows_next⟩
  | blank blankMode =>
    apply wp_post (blank_answers hs blankMode)
    intro ret t ht
    exact ⟨ht.failed, ht.shows_next⟩
  | panDisplay var =>
    apply wp_post (panDisplay_answers hs var)
    intro ret t ht
    exact ⟨ht.failed, ht.shows_next⟩
  | setcolreg regno red green blue =>
    apply wp_post (setcolreg_answers hs regno red green blue)
    intro ret t ht
    exact ⟨ht.failed, ht.shows_next⟩

theorem run_shows (cs : List (FbInfo × Call)) (h : Shows base x s) :
    wp (run cs) (fun done t => done.map (fun c => (c.info, c.call)) = cs ∧
      Shows base (done.foldl Display.next x) t) never s := by
  induction cs generalizing s x with
  | nil => exact ⟨rfl, h⟩
  | cons c cs ih =>
    rw [run, wp_bind]
    apply wp_post (perform_answers c.1 c.2 h)
    rintro ret t ⟨-, ht⟩
    rw [wp_bind]
    apply wp_post (ih ht)
    rintro done u ⟨hdone, hu⟩
    exact ⟨by simp [hdone], hu⟩

/-- At first the registers show the depth they hold, and no power state is known. -/
theorem shows_initial (s : Fb) : Shows s ⟨s.regs regDispMode &&& 0x07, none⟩ s := by
  constructor
  · rfl
  · rfl
  · rfl
  · intro p hp
    cases hp

/-- After every run the registers show the last depth set with success and the last power state
asked for, and their other bits are as at the start. A call that answers with an error changes
neither a register nor the `fb_info`. -/
theorem run_keeps_display (s : Fb) (calls : List (FbInfo × Call)) :
    (∃ done t, run calls s = .ok done t ∧ done.map (fun c => (c.info, c.call)) = calls ∧
      Shows s (done.foldl Display.next ⟨s.regs regDispMode &&& 0x07, none⟩) t) ∧
    ∀ info call u, ∃ ret v, perform info call u = .ok ret v ∧
      (ret < 0 → v = { u with info := info }) := by
  constructor
  · exact wp_never.mp (run_shows calls (shows_initial s))
  · intro info call u
    rcases wp_never.mp (perform_answers info call (shows_initial u)) with ⟨ret, v, hrun, hneg, -⟩
    exact ⟨ret, v, hrun, hneg⟩

end Armboard.Ssd1906
