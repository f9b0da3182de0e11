import Armboard.MemoryTest.Bus

/-! # The memory tests

`main.cpp` of the memory tester. A `for` loop whose counter has taken as many values
as a word has goes on for ever, which is what the bound of the loops stands for. The
variables that the sources print without having set them are arguments.
-/

namespace Armboard.MemoryTest
open Exec

variable {μ : Type}

abbrev sdramBase : Word := 0x20000000
abbrev sdramSize : Word := 0x04000000
abbrev sdramEnd : Word := sdramBase + sdramSize

/-- Passes after which the counter of a loop has come back to a value it had before. -/
abbrev passes : ℕ := 2 ^ 32

def checkMemoryValue (bus : Bus μ) (addr value accessSize : Word) : Test μ Bool :=
  if accessSize = 1 then do
    let readback ← loadByte bus addr
    pure (decide (readback.setWidth 32 &&& 0x000000FF = value &&& 0x000000FF))
  else if accessSize = 4 then do
    let readback ← loadWord bus addr
    pure (decide (readback = value))
  else pure false

/-- The two-way store of the tests: the low byte of the value, or all of it. -/
def storeValue (bus : Bus μ) (addr value accessSize : Word) : Test μ Unit :=
  if accessSize = 1 then storeByte bus addr (value.setWidth 8)
  else if accessSize = 4 then storeWord bus addr value
  else pure ()

def clearSDRAM (bus : Bus μ) : Test μ Unit := do
  let _ ← loop .hang (fun c : Word × Word => c.1.slt sdramSize) (fun c => do
    storeWord bus c.2 0
    pure (c.1 + 4, c.2 + 4)) passes (0, sdramBase)
  pure ()

/-- What the tests print for a failed comparison; returns the new `test_result`. -/
def memoryError (testResult : Bool) (addr readback expected : Word) : Test μ Bool := do
  if testResult then pure () else printf ": FAILED" []
  printf "\n\r    - Memory error at 0x%x: found 0x%x, expected 0x%x !!!"
    [.word addr, .word readback, .word expected]
  pure true

def verdict (testResult : Bool) : Test μ Unit :=
  if testResult then printf "\n\rTEST FAILED\n\r" [] else printf "\n\rOK\n\r" []

/-! ## The galloping pattern -/

def compare (testResult : Bool) (addr readback expected : Word) : Test μ Bool :=
  if readback ≠ expected then memoryError testResult addr readback expected else pure testResult

/-- One pass of the inner loop of `AT91F_GallopingPatternTest`: a cell, and the test cell again. -/
def gallopCell (bus : Bus μ) (testAddr val addr : Word) (testResult : Bool) : Test μ Bool := do
  let readback ← loadWord bus addr
  let testResult ← compare testResult addr readback (if addr = testAddr then ~~~val else 0)
  let readback ← loadWord bus testAddr
  compare testResult addr readback (~~~val)

/-- One pass of the outer loop. -/
def gallopFrom (bus : Bus μ) (testAddr : Word) (testResult : Bool) : Test μ Bool := do
  printf "\n\r  * testing 0x%8x" [.word testAddr]
  let val ← loadWord bus testAddr
  storeWord bus testAddr (~~~val)
  let c ← loop .hang (fun c : Word × Bool => decide (c.1 < sdramEnd)) (fun c => do
    let testResult ← gallopCell bus testAddr val c.1 c.2
    pure (c.1 + 4, testResult)) passes (sdramBase, testResult)
  let val ← loadWord bus testAddr
  storeWord bus testAddr (~~~val)
  pure c.2

/-- `AT91F_GallopingPatternTest`. Of the two conditions of the outer loop the comma drops the first
one. -/
def gallopingPatternTest (bus : Bus μ) (startAddr : Word) : Test μ Unit := do
  let startAddr := if startAddr < sdramBase ∨ sdramEnd ≤ startAddr then sdramBase else startAddr
  printf "\n\rPerforming memory GALloping PATtern test for 1kB area starting at 0x%8x"
    [.word startAddr]
  clearSDRAM bus
  let c ← loop .hang (fun c : Word × Bool => decide (c.1 - startAddr < 0x400)) (fun c => do
    let testResult ← gallopFrom bus c.1 c.2
    pure (c.1 + 4, testResult)) passes (startAddr, false)
  verdict c.2

/-! ## The address test -/

/-- One pass of the reading loop of `AT91F_AddressTest`. -/
def addressCheck (bus : Bus μ) (readback accessSize addr val : Word) (testResult : Bool) :
    Test μ Bool := do
  let good ← checkMemoryValue bus addr val accessSize
  if good then pure testResult else memoryError testResult addr readback val

/-- `AT91F_AddressTest`. It prints a `readback` that it never sets. -/
def addressTest (bus : Bus μ) (readback accessSize : Word) : Test μ Unit := do
  printf "\n\rPerforming memory address test (%d-byte access)" [.word accessSize]
  if accessSize ≠ 1 ∧ accessSize ≠ 4 then printf ": SKIPPED\n\r" []
  else do
    printf "\n\r  * writing" []
    let _ ← loop .hang (fun c : Word × Word => decide (c.1 < sdramEnd)) (fun c => do
      storeValue bus c.1 c.2 accessSize
      pure (c.1 + accessSize, c.2 + 1)) passes (sdramBase, 0)
    printf "\n\r  * reading" []
    let c ← loop .hang (fun c : Word × Word × Bool => decide (c.1 < sdramEnd)) (fun c => do
      let testResult ← addressCheck bus readback accessSize c.1 c.2.1 c.2.2
      pure (c.1 + accessSize, c.2.1 + 1, testResult)) passes (sdramBase, 0, false)
    verdict c.2.2

/-! ## The march test -/

/-- One pass of the reading loop of `AT91F_MarchTest`. It prints an `addr` and a `readback` that it
never sets. -/
def marchCheck (bus : Bus μ) (addr readback accessSize testAddr val : Word) (testResult : Bool) :
    Test μ Bool := do
  let good ← checkMemoryValue bus testAddr val accessSize
  if good then pure testResult else memoryError testResult addr readback val

def printValue (val accessSize : Word) : Test μ Unit :=
  if accessSize = 1 then printf " 0x%2x" [.word (val &&& 0x000000FF)]
  else if accessSize = 4 then printf " 0x%8x" [.word val]
  else pure ()

/-- One of the two passes of `AT91F_MarchTest`, for `val` and `test_result`. -/
def marchPass (bus : Bus μ) (addr readback accessSize : Word) (c : Word × Bool) :
    Test μ (Word × Bool) := do
  let val := c.1
  printf "\n\r  * writing" []
  printValue val accessSize
  let _ ← loop .hang (fun testAddr : Word => decide (testAddr < sdramEnd)) (fun testAddr => do
    storeValue bus testAddr val accessSize
    pure (testAddr + accessSize)) passes sdramBase
  printf "\n\r  * reading" []
  let c ← loop .hang (fun c : Word × Bool => decide (sdramBase ≤ c.1)) (fun c => do
    let testResult ← marchCheck bus addr readback accessSize c.1 val c.2
    pure (c.1 - accessSize, testResult)) passes (sdramEnd - accessSize, c.2)
  pure (~~~val, c.2)

def marchTest (bus : Bus μ) (addr readback accessSize : Word) : Test μ Unit := do
  printf "\n\rPerforming memory march test (%d-byte access)" [.word accessSize]
  if accessSize ≠ 1 ∧ accessSize ≠ 4 then printf ": SKIPPED\n\r" []
  else do
    clearSDRAM bus
    let c ← marchPass bus addr readback accessSize (1, false)
    let c ← marchPass bus addr readback accessSize c
    verdict c.2

end Armboard.MemoryTest
