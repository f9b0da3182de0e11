import Armboard.DataFlash.Init

/-! # U-Boot's DataFlash layer

`dataflash.c` with the board's `area_list`, for the one bank the board configures.
U-Boot compiles the text of the boot loader's driver with another polling routine,
which gives up after a number of status reads. Area labels and the `setenv` marks are
only printed and exported, and are left out.
-/

namespace Armboard.Uboot
open Exec DataFlash

abbrev errProtected : Word := 4
abbrev errInval : Word := 8
abbrev errUnknownFlashType : Word := 64

/-- `FLAG_PROTECT_SET`, `FLAG_PROTECT_CLEAR` and `FLAG_PROTECT_INVALID`. -/
inductive Protection where
  | set
  | clear
  | invalid
  deriving DecidableEq

/-- `dataflash_protect_t`; the area's last byte is at `stop`. -/
structure Area where
  start : Word
  stop : Word
  protection : Protection
  deriving DecidableEq

/-- `dataflash_info[0]`: what the boot loader's driver knows of the bank, and its place and areas. -/
structure Bank where
  board : Board
  logicalAddress : Word
  endAddress : Word
  areas : List Area

abbrev Service (α : Type) := EStateM Halt Bank α

def onBank {α : Type} (x : Driver α) : Service α := onPart Bank.board (fun b k => { k with board := b }) x

/-! ## Set-up -/

/-- `CFG_DATAFLASH_LOGIC_ADDR_CS0`. -/
abbrev logicAddr : Word := 0xC0000000

def areaList : List Area :=
  [⟨0x00000000, 0x00003FFF, .set⟩, ⟨0x00004000, 0x00007FFF, .clear⟩, ⟨0x00008000, 0x00027FFF, .set⟩]

/-- The geometry that `AT91F_DataflashInit` installs for a device code. -/
def deviceFeatures (dfcode : Word) : Option Features :=
  if dfcode = 0x1C then some at45db041Features
  else if dfcode = 0x2C then some ⟨4096, 528, 10, 0x300⟩
  else if dfcode = 0x34 then some ⟨8192, 528, 10, 0x300⟩
  else if dfcode = 0x3C then some ⟨8192, 1056, 11, 0x700⟩
  else if dfcode = 0x10 then some ⟨16384, 1056, 11, 0x700⟩
  else none

def Area.place (logicalAddress endAddress : Word) (a : Area) : Area :=
  { a with
    start := a.start + logicalAddress
    stop := (if a.stop = 0xFFFFFFFF then endAddress else a.stop) + logicalAddress }

/-- The areas of a recognised device: the last one ends with the array. -/
def placeAreas (d : Features) (logicalAddress endAddress : Word) : List Area :=
  (areaList.modify (areaList.length - 1) (fun a =>
    { a with stop := d.pagesNumber * d.pagesSize - 1 })).map (Area.place logicalAddress endAddress)

def dataflashInit : Service Word := do
  modify fun k => { k with board := { k.board with
    desc := { k.board.desc with state := idle }, id := 0
    device := { k.board.device with pagesNumber := 0 } } }
  let dfcode ← onBank dataflashProbe
  match deviceFeatures dfcode with
  | none => pure 0
  | some d => do
    modify fun k => { k with
      board := { k.board with
        device := d, desc := { k.board.desc with dataFlashState := idle }, id := dfcode }
      logicalAddress := logicAddr
      areas := placeAreas d logicAddr k.endAddress }
    pure dfcode

/-! ## Waiting -/

/-- At most `n` status reads; stops when the ready bit shows. -/
def pollTimeout : ℕ → Driver Unit
  | 0 => pure ()
  | n + 1 => do
    let _ ← dataFlashGetStatus
    let b ← get
    if b.desc.dataFlashState &&& 0x80 = 0x80 then pure () else pollTimeout n

/-- `AT91F_DataFlashWaitReady` of U-Boot. -/
def dataFlashWaitReady (timeout : ℕ) : Driver Word := do
  modify fun b => { b with desc := { b.desc with dataFlashState := idle } }
  pollTimeout timeout
  let b ← get
  pure (if b.desc.dataFlashState &&& 0x80 = 0x80 then dataflashOk else dataflashError)

abbrev timeoutWrdy : ℕ := 200000

/-! ## The checks before a write -/

/-- `AT91F_DataflashSelect`: the address inside the bank, when the address is one of the bank. -/
def dataflashSelect (k : Bank) (addr : Word) : Option Word :=
  if k.board.id ≠ 0 ∧ addr &&& 0xFF000000 = k.logicalAddress then some (addr - k.logicalAddress)
  else none

/-- `size_dataflash`: both comparisons as C makes them, the first signed, the second unsigned. -/
def sizeDataflash (d : Features) (addr size : Word) : Word :=
  if (d.pagesSize * d.pagesNumber).slt (addr &&& 0x0FFFFFFF) then 0
  else if d.pagesSize * d.pagesNumber - (addr &&& 0x0FFFFFFF) < size then 0
  else 1

/-- An area contains an address as the loop of `prot_dataflash` tests it, its last byte excluded. -/
def Area.covers (a : Area) (addr : Word) : Bool := decide (a.start ≤ addr) && decide (addr < a.stop)

def protDataflash (areas : List Area) (addr : Word) : Word :=
  match areas.find? (fun a => a.covers addr) with
  | none => -1
  | some a => match a.protection with
    | .set => 0
    | .invalid => 0
    | .clear => 1

/-! ## Protecting areas -/

/-- The first and the last area that a request names by their start and end addresses. -/
def protectRange (logicalAddress : Word) (areas : List Area) (startAddr endAddr : Word) :
    Option (ℕ × ℕ) :=
  if startAddr &&& 0xF0000000 ≠ logicalAddress then none
  else
    let area1 := areas.findIdx (fun a => startAddr == a.start)
    let area2 := areas.findIdx (fun a => endAddr == a.stop)
    if area1 = areas.length ∨ area2 = areas.length then none else some (area1, area2)

/-- The protection values of the areas from `area1` to `area2`; an invalid area stays so. -/
def setProtection (flag : Word) (area1 area2 : ℕ) (areas : List Area) : List Area :=
  areas.mapIdx fun j a =>
    if area1 ≤ j ∧ j < area2 + 1 ∧ a.protection ≠ .invalid then
      { a with protection := if flag = 0 then .clear else .set }
    else a

def dataflashRealProtect (flag startAddr endAddr : Word) : Service Word := do
  let k ← get
  match protectRange k.logicalAddress k.areas startAddr endAddr with
  | none => pure (-1)
  | some (area1, area2) => do
    modify fun k => { k with areas := setProtection flag area1 area2 k.areas }
    pure (BitVec.ofNat 32 area2 - BitVec.ofNat 32 area1 + 1)

/-! ## Writing -/

def writeDataflash (addrDest addrSrc size : Word) : Service Word := do
  let k ← get
  match dataflashSelect k addrDest with
  | none => pure errUnknownFlashType
  | some addrToWrite =>
    if sizeDataflash k.board.device addrDest size = 0 then pure errInval
    else if protDataflash k.areas addrDest = 0 then pure errProtected
    else if addrToWrite = -1 then pure (-1)
    else onBank (dataFlashWrite (dataFlashWaitReady timeoutWrdy) addrSrc addrToWrite size)

end Armboard.Uboot
