import Armboard.Bootloader.Command
import Armboard.DataFlash.Driver

/-! # The boot loader's main program

`main.cpp` over the driver and the line editor. Everything outside the sources is an
input of the run: the keys, what the XMODEM transfers deliver, and whether a key
arrives before the start-up delay ends. The questions asked, the transfers and the
calls of `write_dataflash` are recorded, newest first.
-/

namespace Armboard.Bootloader
open Exec DataFlash Storage

/-! ## The state of a run -/

/-- What a run records: a question with the keys that answered it, a transfer with its size, and a
call of `write_dataflash` with the flash before and after it. -/
inductive Event where
  | asked (prompt : Option String) (keys : List Byte)
  | downloaded (size : Word)
  | wrote (addr src size : Word) (before after : ℕ → Byte)

structure World where
  board : Board
  message : ℕ → Byte
  keys : List Byte
  downloads : List (List Byte)
  output : List Output
  events : List Event

/-- What the program takes from outside its sources: the ROM service `CRC32`, the stack address of
`linebuf` and the text of command 7. -/
structure Rom (γ : Type) where
  crc32 : List Byte → γ
  linebuf : Word
  about : String

abbrev Monitor (α : Type) := EStateM Halt World α

abbrev sdramBase : Word := 0x20000000
abbrev isramSize : Word := 0x4000
abbrev downloadBase : Word := 0x20000000
abbrev downloadMax : ℕ := 0x20000
abbrev ubootAddr : Word := 0x21F00000
abbrev ubootSize : Word := 0x20000
abbrev ubootDataflashAddr : Word := 0x8000

/-! ## Console -/

def printf (format : String) (args : List Arg) : Monitor Unit :=
  modify fun w => { w with output := .printf format args :: w.output }

def getc : Monitor Byte := do
  let w ← get
  match w.keys with
  | [] => throw .blocked
  | c :: cs => do
    set { w with keys := cs }
    pure c

/-- `strlen (prompt)`, which is 0 for the null pointer. -/
def promptLength : Option String → ℤ
  | some p => p.length
  | none => 0

/-- `AT91F_ReadLine` on `message`. A call that never sees the end of its line blocks. -/
def readLine (prompt : Option String) : Monitor ℤ := do
  let w ← get
  match readLineKeys (promptLength prompt) w.keys w.message with
  | none => throw .blocked
  | some r => do
    set { w with
      message := r.edit.buf
      keys := r.rest
      output := .echo r.edit.out :: (prompt.toList.map (fun p => Output.printf p []) ++ w.output)
      events := .asked prompt (w.keys.take (w.keys.length - r.rest.length)) :: w.events }
    pure r.ret

def waitKeyPressed : Monitor Unit := do
  printf "press any key..." []
  let _ ← getc
  pure ()

/-! ## The driver as the main program calls it -/

def onBoard {α : Type} (x : Driver α) : Monitor α :=
  onPart World.board (fun b w => { w with board := b }) x

/-- `write_dataflash`, recorded however the call ends. -/
def writeFlash (addr src size : Word) : Monitor Word := fun w =>
  let record (b : Board) : World := { w with
    board := b
    events := .wrote addr src size w.board.chip.flash b.chip.flash :: w.events }
  match writeDataflash addr src size w.board with
  | .ok r b => .ok r (record b)
  | .error e b => .error e (record b)

def setMem (f : (Word → Byte) → Word → Byte) : Monitor Unit :=
  modify fun w => { w with board := { w.board with mem := f w.board.mem } }

/-! ## Display of memory and flash -/

def littleEndian (m : Word → Byte) (p : Word) : ℕ → Word
  | 0 => 0
  | n + 1 => (m p).setWidth 32 + littleEndian m (p + 1) n <<< 8

def elementFormat (size : Word) : String :=
  if size = 4 then " %08x" else if size = 2 then " %04x" else " %02x"

def elementWidth (size : Word) : ℕ := if size = 4 then 4 else if size = 2 then 2 else 1

/-- Fill `linebuf` from the flash or, byte by byte, from memory. -/
def fetchLine {γ : Type} (rom : Rom γ) (addr count : Word) (dataflash : Bool) : Monitor Unit :=
  if dataflash then do
    let _ ← onBoard (readDataflash addr count rom.linebuf)
    pure ()
  else
    setMem fun m => (List.range count.toNat).foldl (fun m i =>
      Function.update m (rom.linebuf + BitVec.ofNat 32 i) (m (addr + BitVec.ofNat 32 i))) m

def showChar (c : Byte) : Monitor Unit :=
  if c < 0x20 ∨ 0x7E < c then printf ".." [] else printf "%c " [.word (c.setWidth 32)]

def displayLine {γ : Type} (rom : Rom γ) (addr size linebytes : Word) (n : ℕ) (dataflash : Bool) :
    Monitor Unit := do
  printf "%08x:" [.word addr]
  fetchLine rom addr (linebytes / size * size) dataflash
  let w ← get
  let width := elementWidth size
  (List.range n).forM fun i => printf (elementFormat size)
    [.word (littleEndian w.board.mem (rom.linebuf + BitVec.ofNat 32 (width * i)) width)]
  printf "    " []
  (List.range linebytes.toNat).forM fun i =>
    showChar (w.board.mem (rom.linebuf + BitVec.ofNat 32 i))
  printf "\n\r" []

/-- The `do` loop of `AT91F_MemoryDisplay`; every pass but the last takes 16 bytes. -/
def displayLines {γ : Type} (rom : Rom γ) (size : Word) (dataflash : Bool) :
    ℕ → Word → Word → Monitor Unit
  | 0, _, _ => throw .hang
  | fuel + 1, addr, nbytes => do
    let linebytes := if 16 < nbytes then 16 else nbytes
    let n := (linebytes.toNat + size.toNat - 1) / size.toNat
    displayLine rom addr size linebytes n dataflash
    if nbytes - linebytes = 0 then pure ()
    else displayLines rom size dataflash fuel (addr + BitVec.ofNat 32 n * size) (nbytes - linebytes)

def memoryDisplay {γ : Type} (rom : Rom γ) (addr size length : Word) (dataflash : Bool) :
    Monitor Unit :=
  displayLines rom size dataflash ((length * size).toNat / 16 + 1) addr (length * size)

/-- Commands 2 and 3: show 256 bytes at a time until a line is typed. Every pass reads a key. -/
def pageThrough {γ : Type} (rom : Rom γ) (dataflash : Bool) : ℕ → Word → Monitor Unit
  | 0, _ => throw .hang
  | fuel + 1, arg => do
    memoryDisplay rom arg 4 64 dataflash
    let _ ← readLine none
    let w ← get
    if w.message 0 = 0 then pageThrough rom dataflash fuel (arg + 0x100) else pure ()

/-! ## Starting U-Boot -/

/-- `AT91F_StartUboot`. What the read returns is not looked at. -/
def startUboot : Monitor Unit := do
  printf "Load U-BOOT from dataflash[0x%x] to SDRAM[0x%x]\n\r"
    [.word ubootDataflashAddr, .word ubootAddr]
  let _ ← onBoard (readDataflash ubootDataflashAddr ubootSize ubootAddr)
  printf "Start U-BOOT...\n\r" []
  throw (.jump ubootAddr)

/-! ## The menu -/

abbrev eraseQuestion : String :=
  "\n\rAre you sure you want to erase LAB bootloader from dataflash? (y/n) "

abbrev dangerQuestion : String :=
  "DANGER!!! This will overwrite your 1st bootloader!!! Continue? (y/n) "

abbrev menuPrompt : String := "Enter: "

def menuSepar : String := "\n\r*----------------------------------------*\n\r"

def menuDataflash : String :=
  "1. Download data to dataflash [addr]\n\r" ++
  "2. Read data from memory [addr]\n\r" ++
  "3. Read data from dataflash [addr]\n\r" ++
  "4. Start U-BOOT\n\r" ++
  "5. Clear bootloader section in Dataflash\n\r" ++
  "6. Memory info\n\r" ++
  "7. Bootloader info"

def displayMenu : Monitor Unit := do
  printf "\n\r" []
  printf menuSepar []
  printf "%s %s" [.text "LAB bootloader", .text "1.0"]
  printf menuSepar []
  printf menuDataflash []
  printf menuSepar []

def dataflashPrintInfo : Monitor Unit := do
  let w ← get
  printf "Dataflash info:\n\r" []
  if w.board.id = at45db041 then do
    printf "   Device:            AT45DB041\n\r" []
    printf "   Number of pages:   %d\n\r   Page size:         %d"
      [.word w.board.device.pagesNumber, .word w.board.device.pagesSize]
  else printf "   Valid dataflash device wasn't found" []

def saidYes (message : ℕ → Byte) : Prop := message 0 = 0x59 ∨ message 0 = 0x79

instance (message : ℕ → Byte) : Decidable (saidYes message) := inferInstanceAs (Decidable (_ ∨ _))

/-- Command 5. -/
def clearBootsector : Monitor Unit := do
  let _ ← readLine (some eraseQuestion)
  let w ← get
  if saidYes w.message then do
    setMem fun m => store m sdramBase isramSize.toNat (fun _ => 0)
    let _ ← writeFlash 0 sdramBase isramSize
    printf "Bootsector cleared\n\r" []
    waitKeyPressed
  else do
    printf "Erase aborted\n\r" []
    waitKeyPressed

/-- Command 6. -/
def memoryInfo : Monitor Unit := do
  printf menuSepar []
  printf "SDRAM memory: %dMB @ %dMHz\n\r\n\r" [.word 64, .word 60]
  dataflashPrintInfo
  printf menuSepar []
  waitKeyPressed

/-- Command 7. -/
def bootloaderInfo {γ : Type} (rom : Rom γ) : Monitor Unit := do
  printf menuSepar []
  printf "%s %s\n\r" [.text "LAB bootloader", .text "1.0"]
  printf rom.about []
  printf menuSepar []
  waitKeyPressed

/-- The `switch` of `main`: `command` and `arg` behind it. -/
def runCommand {γ : Type} (rom : Rom γ) (command : Byte) (arg : Word) : Monitor (Byte × Word) := do
  let w ← get
  if command = 0x31 then do
    printf "Please send data by xmodem... " []
    pure (command, arg)
  else if command = 0x32 then do
    pageThrough rom false (w.keys.length + 1) arg
    pure (0, arg)
  else if command = 0x33 then do
    pageThrough rom true (w.keys.length + 1) arg
    pure (0, arg)
  else if command = 0x34 then do
    startUboot
    pure (0, arg)
  else if command = 0x35 then do
    clearBootsector
    pure (0, arg)
  else if command = 0x36 then do
    memoryInfo
    pure (0, arg)
  else if command = 0x37 then do
    bootloaderInfo rom
    pure (0, arg)
  else pure (0, arg)

def menu {γ : Type} (rom : Rom γ) : Monitor (Byte × Word) := do
  displayMenu
  modify fun w => { w with message := prepare w.message }
  let _ ← readLine (some menuPrompt)
  let w ← get
  runCommand rom (parseCommand w.message).1 (parseCommand w.message).2

/-! ## Download and update -/

/-- The XMODEM transfer: at most `AT91C_DOWNLOAD_MAX_SIZE` bytes arrive in SDRAM. -/
def receive : Monitor Word := do
  let w ← get
  match w.downloads with
  | [] => throw .blocked
  | image :: rest => do
    let n := min image.length downloadMax
    set { w with
      board := { w.board with mem := store w.board.mem downloadBase n (fun i => image.getD i 0) }
      downloads := rest
      events := .downloaded (BitVec.ofNat 32 n) :: w.events }
    pure (BitVec.ofNat 32 n)

/-- `while (i >>= 1) NbPage++;`. The shift is arithmetic, so a negative count never ends it. -/
def countPages : ℕ → Word → Word → Monitor Word
  | 0, _, _ => throw .hang
  | fuel + 1, i, nbPage =>
    if i.sshiftRight 1 = 0 then pure nbPage else countPages fuel (i.sshiftRight 1) (nbPage + 1)

/-- The word that is stored in the place of ARM vector 6. -/
def vector6 (downloadSize nbPage pagesSize : Word) : Word :=
  let blocks : Word := downloadSize / 512 + 1
  blocks + nbPage <<< 13 + pagesSize <<< 17

def wordBytes (v : Word) (i : ℕ) : Byte := (v >>> (8 * i)).setWidth 8

abbrev offsetVect6 : Word := 0x14

def crcBytes (m : Word → Byte) (size : Word) : List Byte :=
  (List.range size.toNat).map (view m downloadBase)

/-- The confirmed part of command 1: patch, write, read back and compare. -/
def update {γ : Type} [DecidableEq γ] (rom : Rom γ) (arg downloadSize : Word) : Monitor Unit := do
  let w ← get
  let nbPage ← countPages 32 w.board.device.pagesNumber 0
  let i := vector6 downloadSize nbPage w.board.device.pagesSize
  setMem fun m => store m (downloadBase + offsetVect6) 4 (wordBytes i)
  printf "\n\rModification of Arm Vector 6 :%x\n\r" [.word i]
  printf "\n\rWrite %d bytes in DataFlash [0x%x]\n\r" [.word downloadSize, .word arg]
  let w ← get
  let crc1 := rom.crc32 (crcBytes w.board.mem downloadSize)
  let _ ← writeFlash arg downloadBase downloadSize
  setMem fun m => store m downloadBase downloadSize.toNat (fun _ => 0)
  let _ ← onBoard (readDataflash arg downloadSize downloadBase)
  printf "Verify Dataflash: " []
  let w ← get
  let crc2 := rom.crc32 (crcBytes w.board.mem downloadSize)
  printf (if crc1 ≠ crc2 then "Failed\n\r" else "OK\n\r") []
  waitKeyPressed

/-- The second question, asked when the first was answered with yes and the address is 0. -/
def askDanger (arg : Word) : Monitor Unit := do
  let w ← get
  if saidYes w.message ∧ arg = 0 then do
    let _ ← readLine (some dangerQuestion)
    pure ()
  else pure ()

/-- What `main` does behind the menu loop, that is, for command 1. -/
def download {γ : Type} [DecidableEq γ] (rom : Rom γ) (arg : Word) : Monitor Unit := do
  let downloadSize ← receive
  printf "\n\rDownloaded %d bytes to [0x%x]\n\r" [.word downloadSize, .word downloadBase]
  printf "Are you sure you want to write dataflash at [0x%x]? (y/n) " [.word arg]
  let _ ← readLine (some "")
  askDanger arg
  let w ← get
  if saidYes w.message then update rom arg downloadSize else pure ()

/-! ## The program -/

def mainPass {γ : Type} [DecidableEq γ] (rom : Rom γ) : Monitor Unit := do
  let r ← menu rom
  if r.1 = 0 then pure () else download rom r.2

/-- The endless loop of `main`, observed for some passes. -/
def mainLoop {γ : Type} [DecidableEq γ] (rom : Rom γ) : ℕ → Monitor Unit
  | 0 => pure ()
  | n + 1 => do
    mainPass rom
    mainLoop rom n

/-- `main`: when no key arrives in time, the tempo starts U-Boot. -/
def main {γ : Type} [DecidableEq γ] (rom : Rom γ) (inTime : Bool) (passes : ℕ) : Monitor Unit := do
  let _ ← onBoard dataflashInit
  printf "press any key to enter bootloader... " []
  if inTime then do
    let _ ← getc
    mainLoop rom passes
  else startUboot

end Armboard.Bootloader
