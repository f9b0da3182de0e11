import Armboard.Exec.Wp
import Armboard.Machine
import Mathlib.Logic.Function.Basic

/-! # The STE100P driver of U-Boot

`ste100p.c` of U-Boot, over the management port of the MAC from `ether.c`. What the
registers of the PHY return comes from outside, read after read. Delays are left out.
-/

namespace Armboard.Uboot.Phy
open Exec

/-! ## Registers -/

abbrev xcrReg : ℕ := 0x00
abbrev xsrReg : ℕ := 0x01
abbrev pid1Reg : ℕ := 0x02
abbrev pid2Reg : ℕ := 0x03
abbrev anaReg : ℕ := 0x04
abbrev anlpReg : ℕ := 0x05
abbrev xieReg : ℕ := 0x12
abbrev ctr100Reg : ℕ := 0x13

abbrev xcrReset : BitVec 16 := 0x8000
abbrev xcrSpeed : BitVec 16 := 0x2000
abbrev xcrAn : BitVec 16 := 0x1000
abbrev xcrIsolate : BitVec 16 := 0x0400
abbrev xcrRstrtAn : BitVec 16 := 0x0200
abbrev xcrFullDup : BitVec 16 := 0x0100
abbrev xcrCollen : BitVec 16 := 0x0080

abbrev xsr100txFull : BitVec 16 := 1 <<< 14
abbrev xsr100tx : BitVec 16 := 1 <<< 13
abbrev xsr10tFull : BitVec 16 := 1 <<< 12
abbrev xsr10t : BitVec 16 := 1 <<< 11
abbrev xsrAnComplete : BitVec 16 := 1 <<< 5
abbrev xsrLink : BitVec 16 := 1 <<< 2

abbrev anaNxtpg : BitVec 16 := 1 <<< 15
abbrev anaFc : BitVec 16 := 1 <<< 10
abbrev anaTxf : BitVec 16 := 1 <<< 8
abbrev anaTxh : BitVec 16 := 1 <<< 7
abbrev ana10f : BitVec 16 := 1 <<< 6
abbrev ana10h : BitVec 16 := 1 <<< 5
abbrev anaSf : BitVec 16 := 0x0000

abbrev anlpLptxf : BitVec 16 := 1 <<< 8
abbrev anlpLptxh : BitVec 16 := 1 <<< 7
abbrev anlpLp10f : BitVec 16 := 1 <<< 6
abbrev anlpLp10h : BitVec 16 := 1 <<< 5

abbrev pid1PhyidVal : BitVec 16 := 0x1C04
abbrev pid2PhyidMask : BitVec 16 := 0xFC00
abbrev pid2PhyidVal : BitVec 16 := 0x0

/-- `STE100P_XIE_ANCE` to `STE100P_XIE_REFE`. -/
abbrev xieAll : BitVec 16 :=
  1 <<< 6 ||| 1 <<< 5 ||| 1 <<< 4 ||| 1 <<< 3 ||| 1 <<< 2 ||| 1 <<< 1 ||| 1 <<< 0

abbrev ctr100Endcr : BitVec 16 := 1 <<< 8
abbrev ctr100Enrzi : BitVec 16 := 1 <<< 7
abbrev ctr100En4b5b : BitVec 16 := 1 <<< 6

abbrev emacMpe : Word := 1 <<< 4
abbrev emacSpd : Word := 1 <<< 0
abbrev emacFd : Word := 1 <<< 1

/-- What each read of each register returns. The ability bits of XSR are constant, and so is ANLP,
which the driver reads only after it saw that negotiation is complete. -/
structure Chip where
  reads : ℕ → ℕ → BitVec 16
  anlp : BitVec 16
  abilities : ∀ i, reads xsrReg i &&& 0x7800 = 0x7800
  anlp_const : ∀ i, reads anlpReg i = anlp

/-- The PHY, how often each of its registers was read and what was last written to it; EMAC_CFG and
EMAC_CTL of the MAC. -/
structure Mac where
  chip : Chip
  count : ℕ → ℕ
  written : ℕ → BitVec 16
  cfg : Word
  ctl : Word
  output : List Output

abbrev Driver := EStateM Halt Mac

def printf (format : String) (args : List Arg) : Driver Unit :=
  modify fun s => { s with output := .printf format args :: s.output }

/-- `printf` under `DEBUG_ETHER`. -/
def debugPrintf (debug : Bool) (format : String) (args : List Arg) : Driver Unit :=
  if debug then printf format args else pure ()

/-! ## The management port -/

def emacEnableMdio : Driver Unit := modify fun s => { s with ctl := s.ctl ||| emacMpe }

def emacDisableMdio : Driver Unit := modify fun s => { s with ctl := s.ctl &&& ~~~emacMpe }

/-- `at91rm9200_EmacReadPhy`: TRUE, and what was read. -/
def emacReadPhy (reg : ℕ) : Driver (Bool × BitVec 16) := do
  let s ← get
  set { s with count := Function.update s.count reg (s.count reg + 1) }
  pure (true, s.chip.reads reg (s.count reg))

def emacWritePhy (reg : ℕ) (value : BitVec 16) : Driver Bool := do
  modify fun s => { s with written := Function.update s.written reg value }
  pure true

/-- A read that returns FALSE from its caller if it fails. -/
def readOrFail (reg : ℕ) (next : BitVec 16 → Driver Bool) : Driver Bool := do
  let r ← emacReadPhy reg
  if r.1 then next r.2 else pure false

/-- A write that returns FALSE from its caller if it fails. -/
def writeOrFail (reg : ℕ) (value : BitVec 16) (next : Driver Bool) : Driver Bool := do
  let ok ← emacWritePhy reg value
  if ok then next else pure false

/-! ## The driver -/

/-- The loop in `PhyReset` that waits for the end of the reset. -/
def waitReset (debug : Bool) : ℕ → Driver Unit
  | 0 => pure ()
  | timeout + 1 => do
    let r ← emacReadPhy xcrReg
    if r.2 &&& xcrReset ≠ xcrReset then debugPrintf debug "PHY Reset OK\n" []
    else waitReset debug timeout

/-- `PhyReset`, without `CONFIG_STE100P_OVERRIDE_HARDWARE`. -/
def phyReset (debug : Bool) : Driver Unit := do
  debugPrintf debug "ste100p PhyReset \n" []
  emacEnableMdio
  let r ← emacReadPhy xcrReg
  let _ ← emacWritePhy xcrReg (r.2 ||| xcrReset)
  -- the count starts at 100 and is decremented before it is tested
  waitReset debug 99
  let _ ← emacWritePhy anaReg (anaFc ||| anaTxf ||| anaTxh ||| ana10f ||| ana10h)
  let r ← emacReadPhy xieReg
  let _ ← emacWritePhy xieReg (r.2 &&& ~~~xieAll)
  let r ← emacReadPhy xcrReg
  let _ ← emacWritePhy xcrReg (r.2 ||| (xcrAn ||| xcrRstrtAn))
  emacDisableMdio

/-- The end of the loop of `ste100p_IsPhyConnected`. -/
structure Identified where
  result : Bool
  tries : ℕ
  id1 : BitVec 16
  id2 : BitVec 16

/-- The loop of `ste100p_IsPhyConnected`, with what is left of `tries` after the next pass. -/
def identify : ℕ → Driver Identified
  | 0 => do
    let id1 ← emacReadPhy pid1Reg
    let id2 ← emacReadPhy pid2Reg
    let id2 := (id2.2 &&& pid2PhyidMask) >>> 6
    pure ⟨decide (id1.2 = pid1PhyidVal ∧ id2 = pid2PhyidVal), 0, id1.2, id2⟩
  | tries + 1 => do
    let id1 ← emacReadPhy pid1Reg
    let id2 ← emacReadPhy pid2Reg
    let id2 := (id2.2 &&& pid2PhyidMask) >>> 6
    if id1.2 = pid1PhyidVal ∧ id2 = pid2PhyidVal then pure ⟨true, tries + 1, id1.2, id2⟩
    else identify tries

def isPhyConnected (debug : Bool) : Driver Bool := do
  emacEnableMdio
  let r ← identify 99
  if r.tries = 0 then do
    debugPrintf debug
      "Exceeded maximum number of tries while checking if PHY is connected (PID1: 0x%4x, PID2: 0x%4x)\r\n"
      [.word (r.id1.setWidth 32), .word (r.id2.setWidth 32)]
    pure false
  else do
    emacDisableMdio
    debugPrintf debug "ste100p id1[0x%02x] id2[0x%02x]\r\n"
      [.word (r.id1.setWidth 32), .word (r.id2.setWidth 32)]
    pure r.result

/-- `ste100p_Deisolate`, which looks for the bit of XCR in what it wrote to the other register. -/
def deisolate : Driver Unit := do
  let _ ← emacWritePhy xcrReg (xcrSpeed ||| xcrAn ||| xcrCollen)
  let value := ctr100En4b5b ||| ctr100Enrzi ||| ctr100Endcr
  let _ ← emacWritePhy ctr100Reg value
  if value &&& xcrIsolate = xcrIsolate then do
    let _ ← emacWritePhy xcrReg (value &&& ~~~xcrIsolate)
    let _ ← emacReadPhy xcrReg
    pure ()
  else pure ()

def waitForLinkLoop (timeout : Word) : ℕ → Word → Driver Bool
  | 0, _ => throw .hang
  | n + 1, loop => do
    let r ← emacReadPhy xsrReg
    if r.2 &&& xsrLink ≠ 0 then pure true
    else if loop + 1 > timeout then pure false
    else waitForLinkLoop timeout n (loop + 1)

def waitForLink (timeout : Word) : Driver Bool := waitForLinkLoop timeout (timeout.toNat + 1) 0

/-- `ste100p_GetLinkSpeed` after a status with the link up. -/
def setLinkSpeed (stat : BitVec 16) : Driver Bool :=
  if stat &&& xsr100txFull ≠ 0 then do
    modify fun s => { s with cfg := s.cfg ||| (emacSpd ||| emacFd) }
    printf "100 BaseTX and Full Duplex\n" []
    pure true
  else if stat &&& xsr100tx ≠ 0 then do
    modify fun s => { s with cfg := (s.cfg &&& ~~~(emacSpd ||| emacFd)) ||| emacSpd }
    printf "100 BaseTX and Half Duplex\n" []
    pure true
  else if stat &&& xsr10tFull ≠ 0 then do
    modify fun s => { s with cfg := (s.cfg &&& ~~~(emacSpd ||| emacFd)) ||| emacFd }
    printf "10 BaseT and Full Duplex\n" []
    pure true
  else if stat &&& xsr10t ≠ 0 then do
    modify fun s => { s with cfg := s.cfg &&& ~~~(emacSpd ||| emacFd) }
    printf "10 BaseT and Half Duplex\n" []
    pure true
  else do
    printf "unknown error\n" []
    pure false

def getLinkSpeed : Driver Bool := do
  let r ← emacReadPhy xsrReg
  if r.1 = false then do
    printf "couldn't read STE100P_XSR_REG\n" []
    pure false
  else if r.2 &&& xsrLink = 0 then do
    -- a failure of the link is latched until it is read
    let r ← emacReadPhy xsrReg
    if r.1 = false ∨ r.2 &&& xsrLink = 0 then do
      printf "no link, XSR_REG: 0x%x\n" [.word (r.2.setWidth 32)]
      pure false
    else setLinkSpeed r.2
  else setLinkSpeed r.2

/-- `PhyAnar` of `ste100p_AutoNegotiate`. -/
abbrev phyAnar : BitVec 16 := anaNxtpg ||| anaTxf ||| anaTxh ||| ana10f ||| ana10h ||| anaSf

/-- `ste100p_AutoNegotiate`, which never sets its `status`. -/
def autoNegotiate (debug : Bool) : Driver Bool := do
  debugPrintf debug "ste100p AutoNegotiate\n" []
  readOrFail xcrReg fun value =>
    writeOrFail xcrReg ((value &&& ~~~xcrAn) ||| xcrIsolate) <|
    readOrFail xcrReg fun _ =>
    writeOrFail anaReg phyAnar <|
    readOrFail xcrReg fun value =>
    writeOrFail xcrReg (value ||| (xcrSpeed ||| xcrAn ||| xcrFullDup)) <|
    writeOrFail xcrReg
      (((value ||| (xcrSpeed ||| xcrAn ||| xcrFullDup) ||| xcrAn) &&& ~~~xcrIsolate) |||
        xcrRstrtAn) <|
    readOrFail xcrReg fun _ => do
      let r ← emacReadPhy xsrReg
      if r.2 &&& xsrAnComplete = 0 then pure false
      else readOrFail anlpReg fun phyAnalpar =>
        if phyAnar &&& anaTxf ≠ 0 ∧ phyAnalpar &&& anlpLptxf ≠ 0 then do
          modify fun s => { s with cfg := s.cfg ||| (emacSpd ||| emacFd) }
          pure true
        else if phyAnar &&& ana10f ≠ 0 ∧ phyAnalpar &&& anlpLptxh ≠ 0 then do
          modify fun s => { s with cfg := (s.cfg &&& ~~~(emacSpd ||| emacFd)) ||| emacFd }
          pure true
        else pure false

/-- `ste100p_InitPhy` when no link speed was found; `anegStatus` is what the variable happens to
hold. -/
def negotiateLink (debug : Bool) (anegStatus : Word) : Driver Bool := do
  let ret ← autoNegotiate debug
  if debug then
    if anegStatus ≠ 0 then do
      printf "link speed autonegotiated (%d): " [.word (if ret then 1 else 0)]
      getLinkSpeed
    else do
      printf "auto-negotiation failed\n" []
      pure ret
  else pure ret

def initPhy (debug : Bool) (anegStatus : Word) : Driver Bool := do
  phyReset debug
  emacEnableMdio
  deisolate
  emacDisableMdio
  emacEnableMdio
  let _ ← waitForLink 500
  let ret ← getLinkSpeed
  let ret ← (if ret then pure true else negotiateLink debug anegStatus)
  let r ← emacReadPhy xieReg
  let _ ← emacWritePhy xieReg (r.2 &&& ~~~xieAll)
  emacDisableMdio
  debugPrintf debug "ste100p InitPhy [" []
  debugPrintf debug (if ret then "OK]\n" else "FAILED]\n") []
  pure ret

end Armboard.Uboot.Phy
