import Armboard.Stdio.Number

/-! # Formats

`vfprintf` and its two entries. A format is a memory of which only the part up to the
first NUL belongs to the string, so the model can tell a scanner that runs past the
terminator from one that stops there. The bounds on the loops are arguments: a run
that ends is the same under every larger bound.
-/

namespace Armboard.Stdio
open Exec

/-! ## Formats and arguments -/

/-- The memory holds a NUL-terminated string from `p` on. -/
def Spells (mem : ℕ → Byte) : ℕ → List Byte → Prop
  | p, [] => mem p = 0
  | p, c :: l => mem p = c ∧ c ≠ 0 ∧ Spells mem (p + 1) l

structure Format where
  mem : ℕ → Byte
  text : List Byte
  spells : Spells mem 0 text

abbrev CString := { l : List Byte // (0 : Byte) ∉ l }

/-- The arguments in their order, each as the integer and as the string that it can be taken for;
`none` is the null pointer. -/
structure VaList where
  int : ℕ → Word
  str : ℕ → Option CString

/-! ## The code -/

/-- `*fmt` -/
def deref (mem : ℕ → Byte) (p : ℕ) : Printer Byte := do
  modify fun s => { s with reads := p :: s.reads }
  pure (mem p)

/-- `fputc(*fmt, fp);` -/
def copy (mem : ℕ → Byte) (p : ℕ) : Printer Unit := do
  let c ← deref mem p
  modify fun s => { s with copied := p :: s.copied }
  fputc c

def fputs : List Byte → Printer Unit
  | [] => pure ()
  | c :: str => do
    fputc c
    fputs str

def nullText : List Byte := [0x3C, 0x4E, 0x55, 0x4C, 0x4C, 0x3E]

def stringText : Option CString → List Byte
  | none => nullText
  | some str => str.1

/-- The cases of the `switch` that end a conversion, for character `c` at `p`; the result is the
number of the next argument. The case of `%` falls through to the default. -/
def convert (mem : ℕ → Byte) (va : VaList) (c : Byte) (p k : ℕ) (type precision : Word) :
    Printer ℕ :=
  if c = 0x73 then do
    fputs (stringText (va.str k))
    pure (k + 1)
  else if c = 0x63 then do
    fputc ((va.int k).setWidth 8)
    pure (k + 1)
  else if c = 0x64 then do
    let _ ← number (va.int k) 10 0 precision type
    pure (k + 1)
  else if c = 0x78 then do
    let _ ← number (va.int k) 16 0 precision type
    pure (k + 1)
  else if c = 0x58 then do
    let _ ← number (va.int k) 16 0 precision (type ||| large)
    pure (k + 1)
  else do
    (if c = 0x25 then copy mem p else pure ())
    fputc 0x25
    copy mem p
    pure k

def isDigit (c : Byte) : Bool := decide (0x30 ≤ c) && decide (c ≤ 0x39)

def addDigit (type precision : Word) (c : Byte) : Word × Word :=
  (if c = 0x30 ∧ precision = 0 then type ||| zeropad else type,
    precision * 10 + (c.setWidth 32 - 0x30))

/-- The inner loop of `vfprintf`, with `fmt` at `p` before it is advanced. -/
def scan (mem : ℕ → Byte) (va : VaList) : ℕ → ℕ → ℕ → Word → Word → Printer (ℕ × ℕ)
  | 0, _, _, _, _ => throw .hang
  | fuel + 1, p, k, type, precision => do
    let c ← deref mem (p + 1)
    if isDigit c then
      let d := addDigit type precision c
      scan mem va fuel (p + 1) k d.1 d.2
    else if c = 0x2E then scan mem va fuel (p + 1) k type precision
    else do
      let k ← convert mem va c (p + 1) k type precision
      pure (p + 1, k)

/-- The outer loop of `vfprintf`. -/
def process (mem : ℕ → Byte) (va : VaList) : ℕ → ℕ → ℕ → Printer Word
  | 0, _, _ => throw .hang
  | fuel + 1, p, k => do
    let c ← deref mem p
    let r ← (if c = 0x25 then scan mem va (fuel + 1) p k 0 0
      else do
        copy mem p
        pure (p, k))
    let next ← deref mem (r.1 + 1)
    if next ≠ 0 then process mem va fuel (r.1 + 1) r.2 else pure 0

def vfprintf (fuel : ℕ) (mem : ℕ → Byte) (va : VaList) : Printer Word := process mem va fuel 0 0

/-- `fprintf`. It calls itself, not `vfprintf`, and `fuel` bounds the calls. -/
def fprintf : ℕ → (ℕ → Byte) → VaList → Printer Word
  | 0, _, _ => throw .hang
  | fuel + 1, mem, va => fprintf fuel mem va

def printf (fuel : ℕ) (mem : ℕ → Byte) (va : VaList) : Printer Word := vfprintf fuel mem va

/-! ## What the parts do -/

@[simp] theorem wp_fputc {Q : Unit → Stream → Prop} {E : Fault → Stream → Prop} (c : Byte)
    (s : Stream) : wp (fputc c) Q E s ↔ Q () (s.put [c]) := Iff.rfl

@[simp] theorem wp_deref {Q : Byte → Stream → Prop} {E : Fault → Stream → Prop} (mem : ℕ → Byte)
    (p : ℕ) (s : Stream) :
    wp (deref mem p) Q E s ↔ Q (mem p) { s with reads := p :: s.reads } := Iff.rfl

@[simp] theorem wp_copy {Q : Unit → Stream → Prop} {E : Fault → Stream → Prop} (mem : ℕ → Byte)
    (p : ℕ) (s : Stream) : wp (copy mem p) Q E s ↔
      Q () { out := s.out ++ [mem p], reads := p :: s.reads, copied := p :: s.copied } := Iff.rfl

theorem fputs_eq (str : List Byte) : ∀ s : Stream, fputs str s = .ok () (s.put str) := by
  induction str with
  | nil =>
    intro s
    rw [Stream.put_nil]
    rfl
  | cons c str ih =>
    intro s
    rw [fputs, bind_ok (fputc_eq c s), ih, Stream.put_put]
    rfl

theorem number_returns {base : Word} (hb : base = 10 ∨ base = 16) (num size precision type : Word)
    (s : Stream) : ∃ l, number num base size precision type s = .ok 1 (s.put l) := by
  have hlow : 2 ≤ base.toInt ∧ base.toInt ≤ 16 := by
    rcases hb with rfl | rfl <;> decide
  exact ⟨_, number_eq hlow.1 hlow.2 num size precision type s⟩

theorem wp_number {Q : Word → Stream → Prop} {E : Fault → Stream → Prop} {base : Word}
    (hb : base = 10 ∨ base = 16) {num size precision type : Word} {s : Stream}
    (h : ∀ l, Q 1 (s.put l)) : wp (number num base size precision type) Q E s := by
  obtain ⟨l, hl⟩ := number_returns hb num size precision type s
  rw [wp, hl]
  exact h l

theorem wp_fputs {Q : Unit → Stream → Prop} {E : Fault → Stream → Prop} (str : List Byte)
    (s : Stream) : wp (fputs str) Q E s ↔ Q () (s.put str) := by
  rw [wp, fputs_eq]

end Armboard.Stdio
