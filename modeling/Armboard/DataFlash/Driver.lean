import Armboard.Exec.Wp
import Armboard.DataFlash.Chip

/-! # The DataFlash driver of the boot loader

`at45.cpp` and `dataflash.cpp` over one chip and the processor's memory. The
functions that poll the chip take the polling routine as an argument, because the
same driver text is compiled into U-Boot with another one. Setting up the SPI
registers and pins has no effect that the model can see and is left out.
-/

namespace Armboard.DataFlash
open Exec Storage

/-! ## Data -/

abbrev idle : Byte := 0
abbrev getStatus : Byte := 0x0F

abbrev dataflashBusy : Word := 0
abbrev dataflashOk : Word := 1
abbrev dataflashError : Word := 2
abbrev dataflashMemoryOverflow : Word := 3
abbrev dataflashBadCommand : Word := 4
abbrev dataflashBadAddress : Word := 5

abbrev at45db041 : Word := 0x1C

/-- `AT91S_DataflashDesc`, less the two command pointers, which always point at `command`. -/
structure Desc where
  txCmdSize : Word
  rxCmdSize : Word
  txDataPt : Word
  txDataSize : Word
  rxDataPt : Word
  rxDataSize : Word
  state : Byte
  dataFlashState : Byte
  command : ℕ → Byte

/-- `AT91S_DataflashFeatures`. -/
structure Features where
  pagesNumber : Word
  pagesSize : Word
  pageOffset : Word
  byteMask : Word
  deriving DecidableEq

/-- The chip, the memory that the PDC reads and writes, and `dataflash_info`. -/
structure Board where
  chip : Chip
  mem : Word → Byte
  desc : Desc
  device : Features
  id : Word

abbrev Driver (α : Type) := EStateM Halt Board α

/-! ## SPI transfers and commands -/

/-- `AT91F_SpiWrite`. The PDC sends and receives through the same pointers, so what the
chip drives replaces the command bytes and the data that were sent. -/
def spiWrite : Driver Word := do
  modify fun b =>
    let d := b.desc
    let r := b.chip.exchange d.command (view b.mem d.txDataPt) d.txDataSize.toNat
    { b with
      chip := r.chip
      mem := if d.txDataSize = 0 then b.mem else store b.mem d.rxDataPt d.rxDataSize.toNat r.data
      desc := { d with
        state := idle
        command := fun i => if i < d.rxCmdSize.toNat then r.cmd i else d.command i } }
  pure dataflashOk

/-- `pages_size` where the code divides by it: a zero divisor ends in `__div0`. -/
def divisor : Driver Word := do
  let b ← get
  if b.device.pagesSize = 0 then throw .hang else pure b.device.pagesSize

/-- A device of 16384 pages takes one more address byte. -/
def Features.large (d : Features) : Bool := decide (16384 ≤ d.pagesNumber.toInt)

def Features.cmdSize (d : Features) : Word := if d.large then 5 else 4

def commandBytes (large : Bool) (opCode : Byte) (adr : Word) : ℕ → Byte
  | 0 => opCode
  | 1 => if large then ((adr &&& 0x0F000000) >>> 24).setWidth 8
    else ((adr &&& 0x00FF0000) >>> 16).setWidth 8
  | 2 => if large then ((adr &&& 0x00FF0000) >>> 16).setWidth 8
    else ((adr &&& 0x0000FF00) >>> 8).setWidth 8
  | 3 => if large then ((adr &&& 0x0000FF00) >>> 8).setWidth 8
    else (adr &&& 0x000000FF).setWidth 8
  | 4 => if large then (adr &&& 0x000000FF).setWidth 8 else 0
  | _ => 0

def dataFlashSendCommand (opCode : Byte) (cmdSize dataflashAddress : Word) : Driver Word := do
  let b ← get
  if b.desc.state ≠ idle then pure dataflashBusy
  else do
    let ps ← divisor
    let adr := ((dataflashAddress / ps) <<< b.device.pageOffset.toNat) + dataflashAddress % ps
    modify fun b => { b with desc := { b.desc with
      command := commandBytes b.device.large opCode adr
      txCmdSize := cmdSize
      rxCmdSize := cmdSize } }
    spiWrite

def dataFlashGetStatus : Driver Word := do
  let b ← get
  if b.desc.state ≠ idle then pure dataflashBusy
  else do
    modify fun b => { b with desc := { b.desc with
      command := fun i => if i = 0 then dbStatus else if i = 1 then 0 else b.desc.command i
      dataFlashState := getStatus
      txDataSize := 0
      rxCmdSize := 2
      txCmdSize := 2 } }
    let status ← spiWrite
    modify fun b => { b with desc := { b.desc with dataFlashState := b.desc.command 1 } }
    pure status

def pollReady : ℕ → Driver Word
  | 0 => throw .hang
  | n + 1 => do
    let _ ← dataFlashGetStatus
    let b ← get
    if b.desc.dataFlashState &&& 0x80 = 0x80 then pure dataflashOk else pollReady n

/-- `AT91F_DataFlashWaitReady`. The chip answers "busy" `busy` times before it is ready, so the
endless poll makes one more pass than that. -/
def dataFlashWaitReady : Driver Word := do
  let b ← get
  if b.desc.state ≠ idle then pure dataflashError
  else do
    modify fun b => { b with desc := { b.desc with dataFlashState := 0 } }
    pollReady (b.chip.busy + 1)

/-! ## Reading -/

/-- The range test of reads and writes, in signed 32-bit arithmetic that wraps. -/
def rangeError (d : Features) (address size : Word) : Bool :=
  (d.pagesSize * d.pagesNumber).slt (address + size)

def dataFlashContinuousRead (src dataBuffer sizeToRead : Word) : Driver Word := do
  let b ← get
  if rangeError b.device src sizeToRead then pure dataflashMemoryOverflow
  else do
    modify fun b => { b with desc := { b.desc with
      rxDataPt := dataBuffer
      rxDataSize := sizeToRead
      txDataPt := dataBuffer
      txDataSize := sizeToRead } }
    dataFlashSendCommand dbContinuousArrayRead 8 src

/-- `SizeToRead` of `AT91F_DataFlashRead`. -/
def chunkSize (size : Word) : Word := if size < 0x8000 then size else 0x8000

/-- The chunk loop of `AT91F_DataFlashRead`; every pass takes at least one byte off `size`. -/
def readChunks (wait : Driver Word) : ℕ → Word → Word → Word → Driver Word
  | 0, _, _, _ => throw .hang
  | fuel + 1, addr, size, buffer =>
    if size = 0 then pure dataflashOk
    else do
      let sizeToRead := chunkSize size
      let ready ← wait
      if ready ≠ dataflashOk then pure (-1)
      else do
        let status ← dataFlashContinuousRead addr buffer sizeToRead
        if status ≠ dataflashOk then pure (-1)
        else readChunks wait fuel (addr + sizeToRead) (size - sizeToRead) (buffer + sizeToRead)

def dataFlashRead (wait : Driver Word) (addr size buffer : Word) : Driver Word := do
  let ready ← wait
  if ready ≠ dataflashOk then pure (-1)
  else readChunks wait (size.toNat + 1) addr size buffer

/-! ## Writing -/

def mainMemoryToBufferTransfert (bufferCommand : Byte) (page : Word) : Driver Word := do
  if bufferCommand ≠ dbPage2Buf1Trf ∧ bufferCommand ≠ dbPage2Buf2Trf then pure dataflashBadCommand
  else do
    modify fun b => { b with desc := { b.desc with txDataSize := 0 } }
    let b ← get
    dataFlashSendCommand bufferCommand b.device.cmdSize (page * b.device.pagesSize)

/-- The command buffer of `AT91F_DataFlashWriteBuffer`; the bytes behind it keep their values. -/
def bufferBytes (d : Features) (bufferCommand : Byte) (bufferAddress : Word) (old : ℕ → Byte) :
    ℕ → Byte
  | 0 => bufferCommand
  | 1 => 0
  | 2 => if d.large then 0 else ((bufferAddress &&& d.byteMask) >>> 8).setWidth 8
  | 3 => if d.large then ((bufferAddress &&& d.byteMask) >>> 8).setWidth 8
    else (bufferAddress &&& 0x00FF).setWidth 8
  | 4 => if d.large then (bufferAddress &&& 0x00FF).setWidth 8 else 0
  | i => old i

def dataFlashWriteBuffer (bufferCommand : Byte) (dataBuffer bufferAddress sizeToWrite : Word) :
    Driver Word := do
  let b ← get
  if bufferCommand ≠ dbBuf1Write ∧ bufferCommand ≠ dbBuf2Write then pure dataflashBadCommand
  else if b.device.pagesSize < bufferAddress then pure dataflashBadAddress
  else if b.desc.state ≠ idle then pure dataflashBusy
  else do
    modify fun b => { b with desc := { b.desc with
      command := bufferBytes b.device bufferCommand bufferAddress b.desc.command
      txCmdSize := b.device.cmdSize
      rxCmdSize := b.device.cmdSize
      rxDataPt := dataBuffer
      txDataPt := dataBuffer
      rxDataSize := sizeToWrite
      txDataSize := sizeToWrite } }
    spiWrite

def pageErase (page : Word) : Driver Word := do
  modify fun b => { b with desc := { b.desc with txDataSize := 0 } }
  let b ← get
  dataFlashSendCommand dbPageErase b.device.cmdSize (page * b.device.pagesSize)

def writeBufferToMain (bufferCommand : Byte) (dest : Word) : Driver Word := do
  if bufferCommand ≠ dbBuf1PagePgm ∧ bufferCommand ≠ dbBuf1PageErasePgm ∧
      bufferCommand ≠ dbBuf2PagePgm ∧ bufferCommand ≠ dbBuf2PageErasePgm then
    pure dataflashBadCommand
  else do
    modify fun b => { b with desc := { b.desc with txDataSize := 0 } }
    let b ← get
    dataFlashSendCommand bufferCommand b.device.cmdSize dest

def partialPageWrite (wait : Driver Word) (src dest size : Word) : Driver Word := do
  let ps ← divisor
  let page := dest / ps
  let adrInPage := dest % ps
  let _ ← mainMemoryToBufferTransfert dbPage2Buf1Trf page
  let _ ← wait
  let _ ← dataFlashWriteBuffer dbBuf1Write src adrInPage size
  let _ ← wait
  let b ← get
  if b.device.large then do
    let _ ← pageErase page
    let _ ← wait
    writeBufferToMain dbBuf1PageErasePgm (page * ps)
  else writeBufferToMain dbBuf1PageErasePgm (page * ps)

/-- One pass of the whole-page loop of `AT91F_DataFlashWrite`; `false` when a command failed. -/
def writePage (wait : Driver Word) (src dest : Word) : Driver Bool := do
  let ps ← divisor
  let page := dest / ps
  let _ ← dataFlashWriteBuffer dbBuf1Write src 0 ps
  let _ ← wait
  let status ← pageErase page
  let _ ← wait
  if status = 0 then pure false
  else do
    let status ← writeBufferToMain dbBuf1PagePgm dest
    if status = 0 then pure false
    else do
      let _ ← wait
      pure true

/-- A partial page and the wait behind it: `false` when the command failed. -/
def writePart (wait : Driver Word) (src dest size : Word) : Driver Bool := do
  let status ← partialPageWrite wait src dest size
  if status = 0 then pure false
  else do
    let _ ← wait
    pure true

/-- The whole-page loop and the last partial page of `AT91F_DataFlashWrite`. -/
def writePages (wait : Driver Word) : ℕ → Word → Word → Word → Driver Word
  | 0, _, _, _ => throw .hang
  | fuel + 1, src, dest, size => do
    let b ← get
    let ps := b.device.pagesSize
    if 0 ≤ (size - ps).toInt then do
      let good ← writePage wait src dest
      if good then writePages wait fuel (src + ps) (dest + ps) (size - ps)
      else pure dataflashError
    else if 0 < size.toInt then do
      let good ← writePart wait src dest size
      pure (if good then dataflashOk else dataflashError)
    else pure dataflashOk

/-- `AT91F_DataFlashWrite`. The whole-page loop is bounded by the number of 32-bit sizes: a longer
run would repeat itself for ever. -/
def dataFlashWrite (wait : Driver Word) (src dest size : Word) : Driver Word := do
  let b ← get
  if rangeError b.device dest size then pure dataflashMemoryOverflow
  else do
    let ps ← divisor
    if dest % ps ≠ 0 then do
      let length := if size < ps - dest % ps then size else ps - dest % ps
      let good ← writePart wait src dest length
      if good then writePages wait (2 ^ 32) (src + length) (dest + length) (size - length)
      else pure dataflashError
    else writePages wait (2 ^ 32) src dest size

/-! ## The high-level functions of `dataflash.cpp` -/

def dataflashProbe : Driver Word := do
  let _ ← dataFlashGetStatus
  let b ← get
  pure (if b.desc.command 1 = 0xFF then 0 else (b.desc.command 1 &&& 0x3C).setWidth 32)

def at45db041Features : Features where
  pagesNumber := 2048
  pagesSize := 264
  pageOffset := 9
  byteMask := 0x100

def dataflashInit : Driver Word := do
  modify fun b => { b with
    desc := { b.desc with state := idle }, id := 0, device := { b.device with pagesNumber := 0 } }
  let dfcode ← dataflashProbe
  if dfcode = at45db041 then
    modify fun b => { b with
      device := at45db041Features, desc := { b.desc with dataFlashState := idle }, id := dfcode }
  pure 1

/-- `read_dataflash`. Selecting the device only fills in pointers and never fails. -/
def readDataflash (addr size result : Word) : Driver Word :=
  dataFlashRead dataFlashWaitReady addr size result

def writeDataflash (addrDst addrSrc size : Word) : Driver Word :=
  dataFlashWrite dataFlashWaitReady addrSrc addrDst size

end Armboard.DataFlash
