import Armboard.Mmc.Csd
import Armboard.Mmc.Read

/-! # Initialisation

`mmc_init` with its three identification routines, which are tried one after the
other. What the variables on its stack hold before they are set is a parameter, and
so is the word behind a table that is read past its end.
-/

namespace Armboard.Mmc
open Exec

abbrev masterClock : Word := 59904000
abbrev clkOd : Word := 150000
abbrev clkPp : Word := 5000000
abbrev opCond : Word := 0x00100000
abbrev defaultBlklen : Word := 512
abbrev defaultRca : Word := 1
abbrev ifTypeMmc : Word := 6

/-- What is not set by the code that reads it. -/
structure Stack where
  cid : Cid
  csd : Csd
  aroundCsdRaw : ℤ → Word
  cardStatus : Word
  block : ℕ → Word
  shift : Word
  pastDtomulToShift : Word

/-! ## The controller -/

def mciSetMode (hz blklen : Word) : Driver Unit :=
  if hz = 0 then throw .hang
  else do
    let clkdiv := masterClock / hz / 2 - 1
    let tooLow := clkdiv &&& ~~~255 ≠ 0
    let clkdiv := if tooLow then 255 else clkdiv
    (if tooLow then printf "mmc: clock %lu too low; setting CLKDIV to 255\n" [.word hz] else pure ())
    writel .mr ((clkdiv &&& 0xff) ||| ((blklen &&& 0xfffc) &&& 0xffff) <<< 16)

def dtomulToShift : List Word := [0, 4, 7, 8, 10, 12, 16, 20]

def taacExp : List Word := [1, 10, 100, 1000, 10000, 100000, 1000000, 10000000]

def taacMant : List Word := [0, 10, 12, 13, 15, 60, 25, 30, 35, 40, 45, 50, 55, 60, 70, 80]

/-- The loop of `mci_set_data_timeout`, for up to so many more passes: `dtomul`, `dtocyc` and
`shift`. -/
def searchDtomul (past timeoutClks : Word) : ℕ → ℕ → Word → Word → ℕ × Word × Word
  | 0, dtomul, dtocyc, shift => (dtomul, dtocyc, shift)
  | n + 1, dtomul, dtocyc, shift =>
    if dtocyc > 15 then
      let shift := dtomulToShift.getD (dtomul + 1) past
      searchDtomul past timeoutClks n (dtomul + 1)
        ((timeoutClks + (1 : Word) <<< shift.toNat - 1) >>> shift.toNat) shift
    else (dtomul, dtocyc, shift)

def timeoutClks (clk cardIsSd : Word) (csd : Csd) : Word :=
  let e := csd.taac.toNat % 8
  let m := csd.taac.toNat / 8 % 16
  let timeoutNs := (taacExp.getD e 0 * taacMant.getD m 0 + 9) / 10
  let clks := csd.nsac.setWidth 32 * 100 +
    ((timeoutNs + 9) / 10 * ((clk + 99999) / 100000) + 9999) / 10000
  if cardIsSd = 0 then clks * 10 else clks * 100

def mciSetDataTimeout (stack : Stack) (clk : Word) (csd : Csd) : Driver Unit := do
  let s ← get
  let clks := timeoutClks clk s.cardIsSd csd
  let r := searchDtomul stack.pastDtomulToShift clks 8 0 clks stack.shift
  let dtomul : Word := if r.1 ≥ 8 then 7 else BitVec.ofNat 32 r.1
  let dtocyc : Word := if r.1 ≥ 8 then 15 else r.2.1
  (if r.1 ≥ 8 then puts "Warning: Using maximum data timeout\n" else pure ())
  let dtor := (dtomul &&& 7) <<< 4 ||| dtocyc &&& 15
  writel .dtor dtor
  printf "mmc: Using %u cycles data timeout (DTOR=0x%x)\n"
    [.word (dtocyc <<< r.2.2.toNat), .word dtor]

/-! ## Identification -/

def mmcIdleCards : Driver ℤ := do
  let r ← mmcCmd goIdleState 0 0
  if r.1 ≠ 0 then pure r.1
  else do
    let r ← mmcCmd 0 0 initCmd
    pure r.1

abbrev ready : Word := 0x80000000
abbrev capacity : Word := 0x40000000

/-- The loop of `sd_init_card` and `mmc_init_card` over the operating conditions. -/
def pollOpCond (sendOpCond : Driver (ℤ × List Word)) : ℕ → ℤ → Driver ℤ
  | 0, ret => pure ret
  | n + 1, _ => do
    let r ← sendOpCond
    if r.1 ≠ 0 ∨ r.2.getD 0 0 &&& ready ≠ 0 then pure r.1
    else pollOpCond sendOpCond n (-etimedout)

/-- The loop of `sdhc_init_card`, which sets the flag. -/
def pollOpCondSdhc : ℕ → ℤ → Driver ℤ
  | 0, ret => pure ret
  | n + 1, _ => do
    let r ← mmcAcmd sdSendOpCond capacity (r3 ||| nid)
    if r.1 = 0 ∧ r.2.getD 0 0 &&& ready ≠ 0 ∧ r.2.getD 0 0 &&& capacity = capacity then do
      modify fun s => { s with cardIsSdhc := 1 }
      pure r.1
    else if r.1 ≠ 0 ∨ r.2.getD 0 0 &&& ready ≠ 0 then pure r.1
    else pollOpCondSdhc n (-etimedout)

/-- How `sd_init_card` and `sdhc_init_card` go on with a card that is ready. -/
def sdAddress (detected : Driver Unit) (cid : Cid) (verbose : Bool) : Driver (ℤ × Cid) := do
  let r ← mmcCmd allSendCid 0 (r2 ||| nid)
  if r.1 ≠ 0 then pure (r.1, cid)
  else do
    let cid := sdParseCid r.2
    (if verbose then mmcDumpCid cid else pure ())
    let r ← mmcCmd sdSendRelativeAddr 0 (r6 ||| ncr)
    if r.1 ≠ 0 then pure (r.1, cid)
    else do
      modify fun s => { s with rca := r.2.getD 0 0 >>> 16 }
      (if verbose then detected else pure ())
      modify fun s => { s with cardIsSd := 1 }
      pure (0, cid)

def sdDetected : Driver Unit := do
  let s ← get
  printf "SD Card detected (RCA %u)\n" [.word s.rca]

def sdhcDetected : Driver Unit := do
  let s ← get
  printf "SDv2/SDHC Card detected (RCA %u) SDHC flag %d\n" [.word s.rca, .word s.cardIsSdhc]

def sdInitCard (cid : Cid) (verbose : Bool) : Driver (ℤ × Cid) := do
  let _ ← mmcIdleCards
  let ret ← pollOpCond (mmcAcmd sdSendOpCond opCond (r3 ||| nid)) 1000 0
  if ret ≠ 0 then pure (ret, cid)
  else sdAddress sdDetected cid verbose

def sdhcInitCard (cid : Cid) (verbose : Bool) : Driver (ℤ × Cid) := do
  let _ ← mmcIdleCards
  let r ← mmcCmd sdSendIfCond 0x00000122 (r7 ||| nid)
  if r.1 ≠ 0 ∨ r.2.getD 0 0 ≠ 0x122 then pure (r.1, cid)
  else do
    let ret ← pollOpCondSdhc 1000 0
    if ret ≠ 0 then pure (ret, cid)
    else sdAddress sdhcDetected cid verbose

def mmcInitCard (cid : Cid) (verbose : Bool) : Driver (ℤ × Cid) := do
  let _ ← mmcIdleCards
  let ret ← pollOpCond (mmcCmd sendOpCond opCond (r3 ||| nid ||| openDrain)) 1000 0
  if ret ≠ 0 then pure (ret, cid)
  else do
    let r ← mmcCmd allSendCid 0 (r2 ||| nid ||| openDrain)
    if r.1 ≠ 0 then pure (r.1, cid)
    else do
      let cid := mmcParseCid r.2
      (if verbose then mmcDumpCid cid else pure ())
      let s ← get
      let r ← mmcCmd setRelativeAddr (s.rca <<< 16) (r1 ||| ncr ||| openDrain)
      pure (r.1, cid)

/-- The part of `mmc_init` that tries the routines. -/
def identify (cid : Cid) (verbose : Bool) : Driver (ℤ × Cid) := do
  modify fun s => { s with cardIsSd := 0, cardIsSdhc := 0 }
  let r ← sdhcInitCard cid verbose
  if r.1 = 0 then pure r
  else do
    let r ← sdInitCard r.2 verbose
    if r.1 = 0 then pure r
    else do
      modify fun s => { s with rca := defaultRca }
      mmcInitCard r.2 verbose

/-! ## `mmc_init` -/

def strncpy (n : ℕ) (bytes : List Byte) : List Byte :=
  let text := (bytes.takeWhile (· ≠ 0)).take n
  text ++ List.replicate (n - text.length) 0

def vendorOf (cid : Cid) : String × List Arg :=
  ("Man %02x%04x Snr %08x", [Arg.ofBits cid.mid, Arg.ofBits cid.oid, .word cid.psn])

def revisionOf (cid : Cid) : String × List Arg :=
  ("%x %x", [Arg.ofBits (cid.prv >>> 4), Arg.ofBits (cid.prv &&& 0x0f)])

def numBlocks (csd : Csd) : Word := (csd.cSize + 1) * ((1 : Word) <<< (csd.cSizeMult.toNat + 2))

/-- `mmc_init` from the block device structure on. -/
def registerCard (stack : Stack) (cid : Cid) (csd : Csd) : Driver ℤ := do
  modify fun s => { s with blkdev := { s.blkdev with
    ifType := ifTypeMmc
    partType := partTypeDos
    vendor := vendorOf cid
    product := strncpy 21 cid.pnm
    revision := revisionOf cid } }
  let maxBlksz := (1 : Word) <<< csd.readBlLen.toNat
  if maxBlksz < 512 ∨ (maxBlksz > 512 ∧ csd.readBlPartial = 0) then do
    printf "Card does not support 512 byte reads, aborting.\n" []
    pure (-enodev)
  else do
    modify fun s => { s with blkdev := { s.blkdev with blksz := 512, lba := numBlocks csd } }
    mciSetMode clkPp 512
    initPart stack.cardStatus stack.block
    pure 0

def mmcInit (stack : Stack) (verbose : Bool) : Driver ℤ := do
  writel .cr (1 <<< 7)
  writel .cr (1 <<< 0)
  writel .dtor 0x5f
  writel .idr (~~~0)
  mciSetMode clkOd defaultBlklen
  let r ← identify stack.cid verbose
  if r.1 ≠ 0 then pure r.1
  else do
    let s ← get
    let raw ← mmcCmd sendCsd (s.rca <<< 16) (r2 ||| ncr)
    let csd := mmcParseCsd stack.csd (respArray raw.2 stack.aroundCsdRaw)
    if raw.1 ≠ 0 then pure raw.1
    else do
      (if verbose then mmcDumpCsd csd else pure ())
      mciSetDataTimeout stack clkPp csd
      registerCard stack r.2 csd

end Armboard.Mmc
