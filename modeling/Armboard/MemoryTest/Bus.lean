import Armboard.Exec.Loop
import Armboard.Machine

/-! # The memory under test

The tests of `main.cpp` are programs over a bus, whose loads may return anything and
may change the memory. A decoder in front of fault-free cells is one kind of bus:
bytes or words, where several addresses can reach the same cell.
-/

namespace Armboard.MemoryTest
open Exec

/-- What the processor's loads and stores do to a memory. -/
structure Bus (μ : Type) where
  loadByte : Word → μ → Byte × μ
  loadWord : Word → μ → Word × μ
  storeByte : Word → Byte → μ → μ
  storeWord : Word → Word → μ → μ

/-- The memory, and the text printed so far, newest first. -/
structure Tester (μ : Type) where
  mem : μ
  output : List Output

abbrev Test (μ α : Type) := EStateM Halt (Tester μ) α

variable {μ : Type}

def printf (format : String) (args : List Arg) : Test μ Unit :=
  modify fun t => { t with output := .printf format args :: t.output }

/-- `*(unsigned char *)addr`. -/
def loadByte (bus : Bus μ) (addr : Word) : Test μ Byte := do
  let t ← get
  set { t with mem := (bus.loadByte addr t.mem).2 }
  pure (bus.loadByte addr t.mem).1

/-- `*(unsigned int *)addr`. -/
def loadWord (bus : Bus μ) (addr : Word) : Test μ Word := do
  let t ← get
  set { t with mem := (bus.loadWord addr t.mem).2 }
  pure (bus.loadWord addr t.mem).1

def storeByte (bus : Bus μ) (addr : Word) (val : Byte) : Test μ Unit :=
  modify fun t => { t with mem := bus.storeByte addr val t.mem }

def storeWord (bus : Bus μ) (addr val : Word) : Test μ Unit :=
  modify fun t => { t with mem := bus.storeWord addr val t.mem }

/-! ## Fault-free cells behind a decoder -/

variable {κ : Type} [DecidableEq κ]

/-- Four bytes as a word, the first one lowest. -/
def wordOf (b : ℕ → Byte) : Word := b 3 ++ b 2 ++ b 1 ++ b 0

def lane (w : Word) (i : ℕ) : Byte := (w >>> (8 * i)).setWidth 8

/-- Cells of one byte; a word takes the cells of four addresses. -/
def byteCells (d : Word → κ) : Bus (κ → Byte) where
  loadByte addr m := (m (d addr), m)
  loadWord addr m := (wordOf (fun i => m (d (addr + BitVec.ofNat 32 i))), m)
  storeByte addr b m := Function.update m (d addr) b
  storeWord addr w m :=
    (List.range 4).foldl (fun m i => Function.update m (d (addr + BitVec.ofNat 32 i)) (lane w i)) m

/-- A cell with stuck bits: those of `mask` read as in `value`, the others are healthy. -/
structure Stuck where
  mask : Byte
  value : Byte

def Stuck.sense (s : Stuck) (b : Byte) : Byte := (b &&& ~~~s.mask) ||| (s.value &&& s.mask)

/-- Cells of one byte, some bits of which can be stuck. -/
def stuckCells (d : Word → κ) (fault : κ → Stuck) : Bus (κ → Byte) where
  loadByte addr m := ((fault (d addr)).sense (m (d addr)), m)
  loadWord addr m := (wordOf (fun i =>
    (fault (d (addr + BitVec.ofNat 32 i))).sense (m (d (addr + BitVec.ofNat 32 i)))), m)
  storeByte := (byteCells d).storeByte
  storeWord := (byteCells d).storeWord

/-- Cells of one word, decoded by word address; a byte is a lane of its cell. -/
def wordCells (d : Word → κ) : Bus (κ → Word) where
  loadByte addr m := (lane (m (d (addr - addr % 4))) (addr % 4).toNat, m)
  loadWord addr m := (m (d addr), m)
  storeByte addr b m :=
    let w := m (d (addr - addr % 4))
    Function.update m (d (addr - addr % 4)) (wordOf (fun i => if i = (addr % 4).toNat then b else lane w i))
  storeWord addr w m := Function.update m (d addr) w

end Armboard.MemoryTest
