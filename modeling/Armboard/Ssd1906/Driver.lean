import Armboard.Exec.Wp
import Armboard.Machine

/-! # The SSD1906 framebuffer driver

`ssd1906fb.c`: the operations the framebuffer core calls, over the chip's registers
and the `fb_info`. Every register write and every division by zero is recorded.
Registers are plain bytes.
-/

namespace Armboard.Ssd1906
open Exec

abbrev Regno := BitVec 16

/-! ## Registers and constants -/

abbrev regLutBlueDataWrite : Regno := 0x0008
abbrev regLutGreenDataWrite : Regno := 0x0009
abbrev regLutRedDataWrite : Regno := 0x000A
abbrev regLutWriteAddress : Regno := 0x000B
abbrev regPanelType : Regno := 0x0010
abbrev regHdispPeriod : Regno := 0x0014
abbrev regVdispPeriod0 : Regno := 0x001C
abbrev regVdispPeriod1 : Regno := 0x001D
abbrev regDispMode : Regno := 0x0070
abbrev regDispStart0 : Regno := 0x0074
abbrev regDispStart1 : Regno := 0x0075
abbrev regDispStart2 : Regno := 0x0076
abbrev regLoffset0 : Regno := 0x0078
abbrev regLoffset1 : Regno := 0x0079
abbrev regPsConf : Regno := 0x00A0
abbrev regPwmCtl : Regno := 0x00B0

abbrev lutSize : Word := 256

abbrev einval : ℤ := 22
abbrev enosys : ℤ := 38

abbrev fbVisualTruecolor : Word := 2
abbrev fbVisualPseudocolor : Word := 3
abbrev fbTypePackedPixels : Word := 0
abbrev fbActivateNow : Word := 0

/-! ## State -/

structure Bitfield where
  offset : Word
  length : Word
  deriving DecidableEq

/-- The fields of `fb_var_screeninfo` the driver uses. -/
structure VarScreeninfo where
  xres : Word
  yres : Word
  xresVirtual : Word
  yresVirtual : Word
  xoffset : Word
  yoffset : Word
  bitsPerPixel : Word
  grayscale : Word
  red : Bitfield
  green : Bitfield
  blue : Bitfield
  activate : Word
  deriving DecidableEq

/-- The fields of `fb_fix_screeninfo` the driver uses. -/
structure FixScreeninfo where
  type : Word
  visual : Word
  lineLength : Word
  deriving DecidableEq

structure FbInfo where
  var : VarScreeninfo
  fix : FixScreeninfo
  pseudoPalette : Vector Word 16
  deriving DecidableEq

inductive Event where
  | write (regno : Regno) (value : Byte)
  | divByZero
  deriving DecidableEq

/-- The chip and the `fb_info`; events newest first. -/
structure Fb where
  regs : Regno → Byte
  info : FbInfo
  events : List Event

abbrev Driver := EStateM Halt Fb

def readreg (regno : Regno) : Driver Byte := do
  let s ← get
  pure (s.regs regno)

def writereg (regno : Regno) (value : Byte) : Driver Unit :=
  modify fun s => { s with
    regs := Function.update s.regs regno value
    events := .write regno value :: s.events }

def modifyInfo (f : FbInfo → FbInfo) : Driver Unit := modify fun s => { s with info := f s.info }

/-! ## Power -/

def lcdEnable : Driver Unit := do
  let mode ← readreg regPsConf
  writereg regPsConf (mode &&& ~~~0x01)
  let mode ← readreg regDispMode
  writereg regDispMode (mode &&& ~~~0x80)
  writereg regPwmCtl 0x10

def lcdDisable : Driver Unit := do
  writereg regPwmCtl 0x00
  let mode ← readreg regPsConf
  writereg regPsConf (mode ||| 0x01)
  let mode ← readreg regDispMode
  writereg regDispMode (mode ||| 0x80)

/-! ## Colour depth -/

def setupPseudocolour (info : FbInfo) : FbInfo :=
  { info with
    fix := { info.fix with visual := fbVisualPseudocolor }
    var := { info.var with
      red := { info.var.red with length := 4 }
      green := { info.var.green with length := 4 }
      blue := { info.var.blue with length := 4 } } }

def setupTruecolour (info : FbInfo) : FbInfo :=
  { info with
    fix := { info.fix with visual := fbVisualTruecolor }
    var := { info.var with
      bitsPerPixel := 16
      red := { offset := 11, length := 5 }
      green := { offset := 5, length := 6 }
      blue := { offset := 0, length := 5 } } }

/-- The end of `ssd1906fb_set_par`: the depth code goes to the chip, the line length to `fix`. -/
def programDepth (val : Word) : Driver ℤ := do
  writereg regDispMode (val.setWidth 8)
  modifyInfo fun info => { info with
    fix := { info.fix with lineLength := info.var.xres * info.var.bitsPerPixel / 8 } }
  pure 0

def setPar : Driver ℤ := do
  let mode ← readreg regDispMode
  let val := mode.setWidth 32 &&& ~~~(0x07 : Word)
  let s ← get
  if s.info.var.bitsPerPixel = 4 then do
    modifyInfo setupPseudocolour
    programDepth (val ||| 2)
  else if s.info.var.bitsPerPixel = 8 then do
    modifyInfo setupPseudocolour
    programDepth (val ||| 3)
  else if s.info.var.bitsPerPixel = 16 then do
    modifyInfo setupTruecolour
    programDepth (val ||| 4)
  else pure (-einval)

/-! ## The palette -/

def grey (red green blue : Word) : Word := (19595 * red + 38470 * green + 7471 * blue) >>> 16

/-- The `switch` of `ssd1906fb_setcolreg`. -/
def programColour (regno red green blue : Word) : Driver ℤ := do
  let s ← get
  if s.info.fix.visual = fbVisualTruecolor then
    if 16 ≤ regno then pure (-einval)
    else do
      let pseudoVal := red >>> 11 <<< s.info.var.red.offset.toNat |||
        green >>> 10 <<< s.info.var.green.offset.toNat ||| blue >>> 11 <<< s.info.var.blue.offset.toNat
      modifyInfo fun info => { info with
        pseudoPalette := info.pseudoPalette.setIfInBounds regno.toNat pseudoVal }
      pure 0
  else if s.info.fix.visual = fbVisualPseudocolor then do
    writereg regLutRedDataWrite (red.setWidth 8)
    writereg regLutGreenDataWrite (green.setWidth 8)
    writereg regLutBlueDataWrite (blue.setWidth 8)
    writereg regLutWriteAddress (regno.setWidth 8)
    pure 0
  else pure (-enosys)

def setcolreg (regno red green blue : Word) : Driver ℤ := do
  if lutSize ≤ regno then pure (-einval)
  else do
    let s ← get
    if s.info.var.grayscale ≠ 0 then
      programColour regno (grey red green blue) (grey red green blue) (grey red green blue)
    else programColour regno red green blue

/-! ## Blanking and panning -/

abbrev fbBlankUnblank : ℤ := 0
abbrev fbBlankNormal : ℤ := 1
abbrev fbBlankVsyncSuspend : ℤ := 2
abbrev fbBlankHsyncSuspend : ℤ := 3
abbrev fbBlankPowerdown : ℤ := 4

def blank (blankMode : ℤ) : Driver ℤ :=
  if blankMode = fbBlankUnblank ∨ blankMode = fbBlankNormal then do
    lcdEnable
    pure (if blankMode = fbBlankNormal then 1 else 0)
  else if blankMode = fbBlankVsyncSuspend ∨ blankMode = fbBlankHsyncSuspend then pure 0
  else if blankMode = fbBlankPowerdown then do
    lcdDisable
    pure 0
  else pure (-einval)

def panDisplay (var : VarScreeninfo) : Driver ℤ := do
  let s ← get
  if var.xoffset ≠ 0 then pure (-einval)
  else if s.info.var.yresVirtual < var.yoffset + s.info.var.yres then pure (-einval)
  else do
    let start := s.info.fix.lineLength >>> 1 * var.yoffset
    writereg regDispStart0 ((start &&& 0xff).setWidth 8)
    writereg regDispStart1 ((start >>> 8 &&& 0xff).setWidth 8)
    writereg regDispStart2 ((start >>> 16 &&& 0x0f).setWidth 8)
    pure 0

/-! ## The state after probing -/

/-- Unsigned division, which is recorded when it is by zero. -/
def divide (x y : Word) : Driver Word := do
  if y = 0 then modify fun s => { s with events := .divByZero :: s.events }
  pure (x / y)

def fetchHwState : Driver Unit := do
  modifyInfo fun info => { info with fix := { info.fix with type := fbTypePackedPixels } }
  let display ← readreg regDispMode
  let bpp := display &&& 0x07
  if bpp = 2 ∨ bpp = 3 then
    modifyInfo fun info => { info with var := { info.var with
      bitsPerPixel := 8
      red := { offset := 0, length := 8 }
      green := { offset := 0, length := 8 }
      blue := { offset := 0, length := 8 } } }
  else if bpp = 4 then modifyInfo setupTruecolour
  else pure ()
  let panel ← readreg regPanelType
  let hdisp ← readreg regHdispPeriod
  let vdisp0 ← readreg regVdispPeriod0
  let vdisp1 ← readreg regVdispPeriod1
  let loffset0 ← readreg regLoffset0
  let loffset1 ← readreg regLoffset1
  let xres : Word := (hdisp.setWidth 32 + 1) * 8
  let yres : Word := vdisp0.setWidth 32 + (vdisp1.setWidth 32 &&& 0x03) <<< 8 + 1
  let offset : Word := loffset0.setWidth 32 + (loffset1.setWidth 32 &&& 0x3) <<< 8
  modifyInfo fun info => { info with var := { info.var with
    xres := xres
    yres := yres
    xresVirtual := xres
    yresVirtual := yres
    xoffset := 0
    yoffset := 0 } }
  let s ← get
  let lineLength ← divide (offset * 32) s.info.var.bitsPerPixel
  modifyInfo fun info => { info with
    fix := { info.fix with lineLength := lineLength }
    var := { info.var with
      grayscale := if panel &&& 0x40 = 0 then 1 else 0
      activate := fbActivateNow } }

end Armboard.Ssd1906
