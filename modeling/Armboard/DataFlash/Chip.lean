import Armboard.Machine
import Armboard.Storage.Block

/-! # The AT45DB041 behind its SPI commands

The chip is modelled by what its opcodes mean: a main array of 2048 pages of 264
bytes, SRAM buffer 1, and a status register. Flash bytes are numbered through,
page by page. Buffer 2 is left out: no caller in the sources uses it.
-/

namespace Armboard.DataFlash
open Storage

abbrev dbContinuousArrayRead : Byte := 0xE8
abbrev dbStatus : Byte := 0xD7
abbrev dbBuf1Write : Byte := 0x84
abbrev dbBuf2Write : Byte := 0x87
abbrev dbBuf1PageErasePgm : Byte := 0x83
abbrev dbBuf2PageErasePgm : Byte := 0x86
abbrev dbBuf1PagePgm : Byte := 0x88
abbrev dbBuf2PagePgm : Byte := 0x89
abbrev dbPageErase : Byte := 0x81
abbrev dbPage2Buf1Trf : Byte := 0x53
abbrev dbPage2Buf2Trf : Byte := 0x55

/-- Bytes in the main array: 2048 pages of 264 bytes. -/
abbrev arraySize : ℕ := 2048 * 264

theorem arraySize_eq : arraySize = 540672 := rfl

structure Command where
  opcode : Byte
  page : ℕ
  byte : ℕ
  deriving DecidableEq

/-- `code` holds the status bits beside the ready bit, `latency k` how many status reads answer
"busy" after the `k`-th transfer, and `noise` what the receiver samples while the chip does not
drive the line. -/
structure Chip where
  flash : ℕ → Byte
  buffer : ℕ → Byte
  code : Byte
  busy : ℕ
  latency : ℕ → ℕ
  noise : ℕ → ℕ → Byte
  clock : ℕ
  log : List Command

/-- Bit 7 of the status register is the ready bit. -/
def Chip.status (c : Chip) : Byte := if c.busy = 0 then c.code ||| 0x80 else c.code &&& 0x7F

/-- `len` bytes shifted into the buffer from byte `o`; the address counter wraps at the end. -/
def shiftIn (o len : ℕ) (data buf : ℕ → Byte) : ℕ → Byte := fun x =>
  let r := (x + (264 - o % 264)) % 264
  if r < len then data (r + 264 * ((len - 1 - r) / 264)) else buf x

def erasePage (page : ℕ) (f : ℕ → Byte) : ℕ → Byte := fun x =>
  if x / 264 = page then 0xFF else f x

/-- Programming only clears bits. -/
def programPage (page : ℕ) (buf f : ℕ → Byte) : ℕ → Byte := fun x =>
  if x / 264 = page then f x &&& buf (x % 264) else f x

/-- The 24 address bits behind the opcode; of the page number the chip keeps 11 bits. -/
def address (cmd : ℕ → Byte) : ℕ :=
  (cmd 1).toNat * 65536 + (cmd 2).toNat * 256 + (cmd 3).toNat

def decode (cmd : ℕ → Byte) : Command :=
  ⟨cmd 0, address cmd / 512 % 2048, address cmd % 512⟩

def Chip.execute (c : Chip) (k : Command) (data : ℕ → Byte) (len : ℕ) : Chip :=
  if k.opcode = dbPage2Buf1Trf then { c with buffer := fun x => c.flash (k.page * 264 + x) }
  else if k.opcode = dbBuf1Write then { c with buffer := shiftIn k.byte len data c.buffer }
  else if k.opcode = dbPageErase then { c with flash := erasePage k.page c.flash }
  else if k.opcode = dbBuf1PagePgm then { c with flash := programPage k.page c.buffer c.flash }
  else if k.opcode = dbBuf1PageErasePgm then
    { c with flash := programPage k.page c.buffer (erasePage k.page c.flash) }
  else c

/-- The chip after a transfer and what it drove during the command and the data phase. -/
structure Reply where
  chip : Chip
  cmd : ℕ → Byte
  data : ℕ → Byte

/-- One full-duplex transfer: the command bytes, then `len` data bytes. -/
def Chip.exchange (c : Chip) (cmd data : ℕ → Byte) (len : ℕ) : Reply :=
  if cmd 0 = dbStatus then
    { chip := { c with busy := c.busy - 1, clock := c.clock + 1 }
      cmd := fun i => if i = 1 then c.status else c.noise c.clock i
      data := fun i => c.noise c.clock (8 + i) }
  else
    { chip := { c.execute (decode cmd) data len with
        busy := c.latency c.clock, clock := c.clock + 1, log := decode cmd :: c.log }
      cmd := c.noise c.clock
      data := fun i => if cmd 0 = dbContinuousArrayRead then
        c.flash (((decode cmd).page * 264 + (decode cmd).byte + i) % arraySize)
        else c.noise c.clock (8 + i) }

def Command.programs (k : Command) : Bool :=
  k.opcode == dbBuf1PagePgm || k.opcode == dbBuf1PageErasePgm

/-- The pages programmed so far, newest first. -/
def Chip.programmed (c : Chip) : List ℕ := (c.log.filter Command.programs).map Command.page

end Armboard.DataFlash
