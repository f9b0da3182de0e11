import Armboard.Mmc.Controller
import Mathlib.Logic.Function.Basic

/-! # Reading blocks

`mmc_bread`, with its two nested loops over the status register, and `init_part`,
which reads the first block.
-/

namespace Armboard.Mmc
open Exec

def swab32 (x : Word) : Word :=
  (x &&& 0x000000ff) <<< 24 ||| (x &&& 0x0000ff00) <<< 8 ||| (x &&& 0x00ff0000) >>> 8 |||
    (x &&& 0xff000000) >>> 24

/-- `*buffer = data`. -/
def store (i : ℕ) (data : Word) : Driver Unit :=
  modify fun s => { s with buffer := Function.update s.buffer i data }

/-- The status loop in front of a data word: an error, or a word that is there. -/
def waitData : ℕ → Driver Bool
  | 0 => throw .blocked
  | n + 1 => do
    let status ← readStatus .data
    if status &&& (errorFlags ||| ovre) ≠ 0 then pure false
    else if status &&& rxrdy ≠ 0 then pure true
    else waitData n

/-- The words of a block from the `wordcount`-th on, to the buffer from `i` on; the buffer behind
them, or an error. -/
def receiveWords (blksz : Word) : ℕ → Word → ℕ → Driver (Option ℕ)
  | 0, _, _ => throw .hang
  | n + 1, wordcount, i => do
    let s ← get
    let ready ← waitData s.status.length
    if ready then do
      let data ← readData
      store i (swab32 data)
      if wordcount + 1 < blksz / 4 then receiveWords blksz n (wordcount + 1) (i + 1)
      else pure (some (i + 1))
    else pure none

/-- One pass of the loop over the blocks: the buffer behind the block, or an error. -/
def readBlock (start : Word) (buffer : ℕ) : Driver (Option ℕ) := do
  let s ← get
  let r ← mmcCmd readSingleBlock (if s.cardIsSdhc = 0 then start * s.blkdev.blksz else start)
    (r1 ||| ncr ||| trcmdStart ||| trdirRead ||| trtypBlock)
  if r.1 ≠ 0 then pure none
  else do
    let buffer ← receiveWords s.blkdev.blksz ((s.blkdev.blksz / 4).toNat + 1) 0 buffer
    match buffer with
    | none => pure none
    | some buffer => do
      let _ ← waitStatus .completion blke
      pure (some buffer)

/-- The loop over the blocks: how many were read, and whether an error stopped it. -/
def readBlocks : ℕ → Word → Word → ℕ → Driver (Word × Bool)
  | 0, i, _, _ => pure (i, false)
  | n + 1, i, start, buffer => do
    let r ← readBlock start buffer
    match r with
    | none => pure (i, true)
    | some buffer => readBlocks n (i + 1) (start + 1) buffer

/-- The label `out`. -/
def deselect (i : Word) : Driver Word := do
  let _ ← mmcCmd selectCard 0 ncr
  pure i

/-- The label `fail`, with what `card_status` holds if the command fails too. -/
def breadFail (cardStatus i : Word) : Driver Word := do
  let s ← get
  let r ← mmcCmd sendStatus (s.rca <<< 16) (r1 ||| ncr)
  printf "mmc: bread failed, card status = %08x\n" [.word (r.2.headD cardStatus)]
  deselect i

def mmcBread (cardStatus start blkcnt : Word) : Driver Word := do
  if blkcnt = 0 then pure 0
  else do
    let s ← get
    let r ← mmcCmd selectCard (s.rca <<< 16) (r1 ||| ncr)
    if r.1 ≠ 0 then breadFail cardStatus 0
    else do
      let r ← mmcCmd setBlocklen s.blkdev.blksz (r1 ||| ncr)
      if r.1 ≠ 0 then breadFail cardStatus 0
      else do
        let c ← readBlocks blkcnt.toNat 0 start 0
        if c.2 then breadFail cardStatus c.1 else deselect c.1

abbrev partTypeDos : Byte := 0x02

/-- `init_part` and `test_part_dos`: the first block goes to a buffer on the stack. -/
def initPart (cardStatus : Word) (stack : ℕ → Word) : Driver Unit := do
  modify fun s => { s with buffer := stack }
  let n ← mmcBread cardStatus 0 1
  let s ← get
  -- bytes 0x1fe and 0x1ff of the block
  if n = 1 ∧ s.buffer 127 >>> 16 = 0xaa55 then
    modify fun s => { s with blkdev := { s.blkdev with partType := partTypeDos } }
  else pure ()

end Armboard.Mmc
