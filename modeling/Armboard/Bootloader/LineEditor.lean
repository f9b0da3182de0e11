import Armboard.DataFlash.Chip
import Mathlib.Logic.Function.Basic

/-! # The line editor of the console

`AT91F_ReadLine` and `AT91F_DeleteChar` of `com.cpp`. The buffer is never cleared:
what a line does not overwrite stays behind its terminator. The column counter only
decides which erase sequences are sent.
-/

namespace Armboard.Bootloader
open DataFlash

abbrev cr : Byte := 0x0D
abbrev lf : Byte := 0x0A
abbrev ctrlC : Byte := 0x03
abbrev ctrlU : Byte := 0x15
abbrev ctrlW : Byte := 0x17
abbrev backspace : Byte := 0x08
abbrev del : Byte := 0x7F
abbrev tab : Byte := 0x09
abbrev space : Byte := 0x20
abbrev bell : Byte := 0x07

abbrev cbSize : ℕ := 40

def eraseSeq : List Byte := [backspace, space, backspace]

def tabSeq : List Byte := List.replicate 8 space

/-- The variables of `AT91F_ReadLine`; `p` is kept as an offset into the buffer, and `out` is what
has been sent to the terminal. -/
structure Edit where
  buf : ℕ → Byte
  p : ℕ
  n : ℕ
  col : ℤ
  out : List Byte

namespace Edit

def puts (s : List Byte) (e : Edit) : Edit := { e with out := e.out ++ s }

/-- `while (col > plen) { puts(erase_seq); --col; }`, for `k` columns. -/
def eraseColumns : ℕ → Edit → Edit
  | 0, e => e
  | k + 1, e => eraseColumns k { e.puts eraseSeq with col := e.col - 1 }

def retype : ℕ → ℕ → Edit → Edit
  | 0, _, e => e
  | k + 1, s, e =>
    if e.buf s = tab then
      let stop := (e.col % 8).toNat
      retype k (s + 1) { e.puts (tabSeq.drop stop) with col := e.col + (8 - e.col % 8) }
    else retype k (s + 1) { e.puts [e.buf s] with col := e.col + 1 }

/-- `AT91F_DeleteChar`. Behind a tab the whole line is typed again. -/
def deleteChar (plen : ℤ) (e : Edit) : Edit :=
  if e.n = 0 then e
  else
    let e := { e with p := e.p - 1 }
    let e := if e.buf e.p = tab then retype e.p 0 (eraseColumns (e.col - plen).toNat e)
      else { e.puts eraseSeq with col := e.col - 1 }
    { e with n := e.n - 1 }

/-- The `while` loop of `^W`: delete until the character just deleted is a space. -/
def deleteWord (plen : ℤ) : ℕ → Edit → Edit
  | 0, e => e
  | k + 1, e => if 0 < e.n ∧ e.buf e.p ≠ space then deleteWord plen k (e.deleteChar plen) else e

/-- The `switch` of `AT91F_ReadLine`, for the keys after which it goes on reading. -/
def key (plen : ℤ) (e : Edit) (c : Byte) : Edit :=
  if c = ctrlU then { eraseColumns (e.col - plen).toNat e with p := 0, n := 0 }
  else if c = ctrlW then
    let e := e.deleteChar plen
    e.deleteWord plen e.n
  else if c = backspace ∨ c = del then e.deleteChar plen
  else if e.n < cbSize - 2 then
    { e.puts [c] with buf := Function.update e.buf e.p c, p := e.p + 1, n := e.n + 1, col := e.col + 1 }
  else e.puts [bell]

end Edit

structure ReadResult where
  ret : ℤ
  edit : Edit
  rest : List Byte

/-- The loop of `AT91F_ReadLine`; `none` when the keys end before the line does. -/
def readKeys (plen : ℤ) : List Byte → Edit → Option ReadResult
  | [], _ => none
  | c :: cs, e =>
    if c = cr ∨ c = lf then
      some ⟨e.p, { e.puts [cr, lf] with buf := Function.update e.buf e.p 0 }, cs⟩
    else if c = ctrlC then some ⟨-1, { e with buf := Function.update e.buf 0 0 }, cs⟩
    else readKeys plen cs (e.key plen c)

/-- `AT91F_ReadLine`, with the length of the prompt and the old contents of the buffer. -/
def readLineKeys (plen : ℤ) (keys : List Byte) (buf : ℕ → Byte) : Option ReadResult :=
  readKeys plen keys ⟨buf, 0, 0, plen, []⟩

end Armboard.Bootloader
