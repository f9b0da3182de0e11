import Armboard.Exec.Wp
import Armboard.Machine
import Armboard.Text.Numeral
import Mathlib.Data.List.GetD

/-! # Formatting a number

`number` of `stdio.cpp`, on a stream that is open. The padding loops share the
counters `size` and `precision`, which are 32-bit integers that wrap, and every
loop leaves its counter below zero.
-/

namespace Armboard.Stdio
open Exec Text

/-! ## The stream -/

/-- Why a call does not return: it never ends, or it leaves its array. -/
inductive Fault where
  | hang
  | bounds
  deriving DecidableEq

/-- What the stream has received, and which offsets of a format have been read and which of its
bytes have been sent. -/
structure Stream where
  out : List Byte
  reads : List ℕ
  copied : List ℕ

abbrev Printer (α : Type) := EStateM Fault Stream α

def Stream.put (s : Stream) (l : List Byte) : Stream := { s with out := s.out ++ l }

@[simp] theorem Stream.put_nil (s : Stream) : s.put [] = s := by
  rw [Stream.put, List.append_nil]

@[simp] theorem Stream.put_put (s : Stream) (k l : List Byte) : (s.put k).put l = s.put (k ++ l) := by
  rw [Stream.put, Stream.put, Stream.put, List.append_assoc]

def fputc (c : Byte) : Printer Unit := modify fun s => s.put [c]

theorem fputc_eq (c : Byte) (s : Stream) : fputc c s = .ok () (s.put [c]) := rfl

/-! ## The code -/

abbrev zeropad : Word := 1
abbrev sign : Word := 2
abbrev left : Word := 4
abbrev large : Word := 8

def lowerDigits : List Byte :=
  [0x30, 0x31, 0x32, 0x33, 0x34, 0x35, 0x36, 0x37, 0x38, 0x39, 0x61, 0x62, 0x63, 0x64, 0x65, 0x66]

def upperDigits : List Byte :=
  [0x30, 0x31, 0x32, 0x33, 0x34, 0x35, 0x36, 0x37, 0x38, 0x39, 0x41, 0x42, 0x43, 0x44, 0x45, 0x46]

/-- `do_div`: the remainder, and the quotient that replaces `n`. -/
def doDiv (n base : Word) : Word × Word := (n % base, n / base)

/-- `tmp[i++] = c;`, where `tmp` has room for 66 characters. -/
def push (tmp : List Byte) (c : Byte) : Printer (List Byte) :=
  if tmp.length < 66 then pure (tmp ++ [c]) else throw .bounds

/-- `while (num != 0) tmp[i++] = digits[do_div(num, base)];` -/
def digitLoop (digits : List Byte) (base : Word) : ℕ → Word → List Byte → Printer (List Byte)
  | 0, _, _ => throw .hang
  | fuel + 1, num, tmp =>
    if num ≠ 0 then do
      let r := doDiv num base
      let tmp ← push tmp (digits.getD r.1.toNat 0)
      digitLoop digits base fuel r.2 tmp
    else pure tmp

/-- `while (size-- > 0) fputc(c, fp);`, with the value of `size` behind it. -/
def padLoop (c : Byte) : ℕ → Word → Printer Word
  | 0, _ => throw .hang
  | fuel + 1, size =>
    if 0 < size.toInt then do
      fputc c
      padLoop c fuel (size - 1)
    else pure (size - 1)

/-- The loop makes one pass more than it sends characters. -/
def pad (c : Byte) (size : Word) : Printer Word := padLoop c (size.toInt.toNat + 1) size

/-- `while (i < precision--) fputc('0', fp);` -/
def zeroLoop (i : Word) : ℕ → Word → Printer Unit
  | 0, _ => throw .hang
  | fuel + 1, precision =>
    if i.toInt < precision.toInt then do
      fputc 0x30
      zeroLoop i fuel (precision - 1)
    else pure ()

/-- `while (i-- > 0) fputc(tmp[i], fp);` -/
def emitLoop (tmp : List Byte) : ℕ → Printer Unit
  | 0 => pure ()
  | i + 1 => do
    fputc (tmp.getD i 0)
    emitLoop tmp i

/-- `type & SIGN && num < 0` -/
def negative (num type : Word) : Bool := decide (type &&& sign ≠ 0) && decide (num.toInt < 0)

/-- `number`. The bound of the digit loop is never reached: every pass makes `num` smaller. -/
def number (num base size precision type : Word) : Printer Word := do
  let digits := if type &&& large ≠ 0 then upperDigits else lowerDigits
  let type := if type &&& left ≠ 0 then type &&& ~~~zeropad else type
  if base.toInt < 2 ∨ 16 < base.toInt then pure 0
  else do
    let c : Byte := if type &&& zeropad ≠ 0 then 0x30 else 0x20
    let minus := negative num type
    let num := if minus then -num else num
    let size := if minus then size - 1 else size
    let tmp ← (if num = 0 then push [] (digits.getD 0 0)
      else digitLoop digits base (num.toNat + 1) num [])
    let i := BitVec.ofNat 32 tmp.length
    let precision := if precision.toInt < i.toInt then i else precision
    let size := size - precision
    let size ← (if type &&& (zeropad + left) = 0 then pad 0x20 size else pure size)
    (if minus then fputc 0x2D else pure ())
    let size ← (if type &&& left = 0 then pad c size else pure size)
    zeroLoop i ((precision.toInt - i.toInt).toNat + 1) precision
    emitLoop tmp tmp.length
    let _ ← pad 0x20 size
    pure 1

/-! ## The loops -/

/-- `size` behind a padding loop. -/
def afterPad (size : Word) : Word := if 0 < size.toInt then -1 else size - 1

theorem toInt_sub_one {x : Word} (h : -(2 ^ 31) < x.toInt) : (x - 1).toInt = x.toInt - 1 := by
  have h1 : (1 : Word).toInt = 1 := rfl
  have hlt : 2 * x.toInt < 2 ^ 32 := BitVec.two_mul_toInt_lt
  rw [BitVec.toInt_sub, h1, Int.bmod_def]
  omega

theorem padLoop_eq (c : Byte) (n : ℕ) : ∀ (size : Word) (s : Stream), size.toInt.toNat = n →
    padLoop c (n + 1) size s = .ok (afterPad size) (s.put (List.replicate n c)) := by
  induction n with
  | zero =>
    intro size s h
    rw [padLoop, afterPad, if_neg (by omega), if_neg (by omega)]
    simp only [List.replicate_zero, Stream.put_nil]
    rfl
  | succ n ih =>
    intro size s h
    have hpos : 0 < size.toInt := by omega
    have hsub := toInt_sub_one (x := size) (by omega)
    rw [padLoop, if_pos hpos, bind_ok (fputc_eq c s), ih _ _ (by omega), Stream.put_put,
      List.replicate_succ, afterPad, afterPad, if_pos hpos]
    congr 1
    split
    · rfl
    · have hone : size.toInt = (1 : Word).toInt := by
        have h1 : (1 : Word).toInt = 1 := rfl
        omega
      rw [BitVec.toInt_inj.mp hone]
      rfl

theorem pad_eq (c : Byte) (size : Word) (s : Stream) :
    pad c size s = .ok (afterPad size) (s.put (List.replicate size.toInt.toNat c)) :=
  padLoop_eq c _ size s rfl

theorem zeroLoop_eq (i : Word) (n : ℕ) : ∀ (precision : Word) (s : Stream),
    (precision.toInt - i.toInt).toNat = n →
    zeroLoop i (n + 1) precision s = .ok () (s.put (List.replicate n 0x30)) := by
  induction n with
  | zero =>
    intro precision s h
    rw [zeroLoop, if_neg (by omega)]
    simp only [List.replicate_zero, Stream.put_nil]
    rfl
  | succ n ih =>
    intro precision s h
    have hi : -(2 ^ 31) ≤ i.toInt := by
      have := BitVec.le_two_mul_toInt (x := i)
      omega
    have hsub := toInt_sub_one (x := precision) (by omega)
    rw [zeroLoop, if_pos (by omega), bind_ok (fputc_eq 0x30 s), ih _ _ (by omega), Stream.put_put,
      List.replicate_succ]
    rfl

theorem emitLoop_eq (tmp : List Byte) (i : ℕ) : ∀ s : Stream, i ≤ tmp.length →
    emitLoop tmp i s = .ok () (s.put (tmp.take i).reverse) := by
  induction i with
  | zero =>
    intro s _
    rw [List.take_zero, List.reverse_nil, Stream.put_nil]
    rfl
  | succ i ih =>
    intro s h
    have hget : tmp.getD i 0 = tmp[i] := List.getD_eq_getElem _ _ h
    rw [emitLoop, bind_ok (fputc_eq _ s), ih _ (by omega), Stream.put_put,
      List.take_succ_eq_append_getElem h, List.reverse_append, hget]
    rfl

theorem push_eq {tmp : List Byte} (h : tmp.length < 66) (c : Byte) (s : Stream) :
    push tmp c s = .ok (tmp ++ [c]) s := by
  rw [push, if_pos h]
  rfl

theorem digitLoop_eq (digits : List Byte) {base : Word} (hb : 1 < base.toNat) (fuel : ℕ) :
    ∀ (num : Word) (tmp : List Byte) (s : Stream), num.toNat < fuel →
      tmp.length + (Nat.digits base.toNat num.toNat).length ≤ 66 →
      digitLoop digits base fuel num tmp s =
        .ok (tmp ++ (Nat.digits base.toNat num.toNat).map (fun d => digits.getD d 0)) s := by
  induction fuel with
  | zero => intro num tmp s h; omega
  | succ fuel ih =>
    intro num tmp s hfuel hroom
    rw [digitLoop]
    by_cases h0 : num = 0
    · have hz : (0 : Word).toNat = 0 := rfl
      rw [if_neg (not_not.mpr h0), h0, hz, Nat.digits_zero, List.map_nil, List.append_nil]
      rfl
    · have hpos : 0 < num.toNat := Nat.pos_of_ne_zero (fun hz => h0 (BitVec.eq_of_toNat_eq hz))
      have hdef := Nat.digits_def' hb hpos
      have hmod : (num % base).toNat = num.toNat % base.toNat := BitVec.toNat_umod ..
      have hdiv : (num / base).toNat = num.toNat / base.toNat := BitVec.toNat_udiv ..
      have hsmall : num.toNat / base.toNat < num.toNat := Nat.div_lt_self hpos hb
      rw [hdef, List.length_cons] at hroom
      simp only [if_pos h0, doDiv, hmod]
      rw [bind_ok (push_eq (by omega) _ s), ih _ _ _ (by omega)
        (by rw [hdiv, List.length_append, List.length_singleton]; omega), hdiv, hdef,
        List.append_assoc]
      rfl

/-! ## The whole function -/

def fill (c : Byte) (n : Word) : List Byte := List.replicate n.toInt.toNat c

/-- What `number` sends around the sign and the digits, given `size` less their width. -/
def emitted (type : Word) (sg body : List Byte) (size : Word) : List Byte :=
  if type &&& left ≠ 0 then sg ++ (body ++ fill 0x20 size)
  else if type &&& zeropad ≠ 0 then
    sg ++ (fill 0x30 size ++ (body ++ fill 0x20 (afterPad size)))
  else
    fill 0x20 size ++ (sg ++ (fill 0x20 (afterPad size) ++
      (body ++ fill 0x20 (afterPad (afterPad size)))))

theorem and_flags_eq_zero (type : Word) :
    type &&& (zeropad + left) = 0 ↔ type &&& zeropad = 0 ∧ type &&& left = 0 := by
  have h : zeropad + left = zeropad ||| left := by decide
  rw [h, BitVec.and_or_distrib_left]
  exact BitVec.or_eq_zero_iff

def digitChar (type : Word) (d : ℕ) : Byte :=
  (if type &&& large ≠ 0 then upperDigits else lowerDigits).getD d 0

/-- `num` behind the test of its sign. -/
def magnitude (num type : Word) : Word := if negative num type then -num else num

/-- The characters in `tmp`, in the order in which they are sent. -/
def digitsOf (num base type : Word) : List Byte :=
  numeral (digitChar type) base.toNat (magnitude num type).toNat

/-- `precision` behind the comparison with the number of digits. -/
def raised (precision : Word) (text : List Byte) : Word :=
  if precision.toInt < (BitVec.ofNat 32 text.length).toInt then BitVec.ofNat 32 text.length
  else precision

theorem base_toNat {base : Word} (h : 2 ≤ base.toInt) : 1 < base.toNat := by
  rw [BitVec.toInt_eq_toNat_cond] at h
  split at h <;> omega

theorem digits_length_le {base : Word} (hb : 1 < base.toNat) (num : Word) :
    (Nat.digits base.toNat num.toNat).length ≤ 32 := by
  rw [Nat.digits_length_le_iff hb]
  exact num.isLt.trans_le (Nat.pow_le_pow_left hb 32)

theorem digitsOf_length {base : Word} (hb : 1 < base.toNat) (num type : Word) :
    0 < (digitsOf num base type).length ∧ (digitsOf num base type).length ≤ 32 :=
  ⟨numeral_length_pos _ _ _, numeral_length_le _ hb (by decide)
    ((magnitude num type).isLt.trans_le (Nat.pow_le_pow_left hb 32))⟩

/-- `tmp` never takes more than 32 of its 66 places. -/
theorem tmp_eq (digits : List Byte) {base : Word} (hb : 1 < base.toNat) (num : Word) (s : Stream) :
    (if num = 0 then push [] (digits.getD 0 0) else digitLoop digits base (num.toNat + 1) num [])
      s = .ok (numeral (fun d => digits.getD d 0) base.toNat num.toNat).reverse s := by
  by_cases h0 : num = 0
  · have hz : (0 : Word).toNat = 0 := rfl
    rw [if_pos h0, push_eq (by decide), h0, hz, numeral_zero]
    rfl
  · have hne : num.toNat ≠ 0 := fun hz => h0 (BitVec.eq_of_toNat_eq hz)
    have hlen := digits_length_le hb num
    rw [if_neg h0, digitLoop_eq digits hb _ num [] s (Nat.lt_succ_self _)
      (by rw [List.length_nil]; omega), numeral_of_ne_zero hne, List.reverse_reverse, List.nil_append]

/-- The type behind the test of `LEFT`, which overrules `ZEROPAD`. -/
def adjusted (type : Word) : Word := if type &&& left ≠ 0 then type &&& ~~~zeropad else type

theorem adjusted_and {mask : Word} (h : ~~~zeropad &&& mask = mask) (type : Word) :
    adjusted type &&& mask = type &&& mask := by
  unfold adjusted
  split
  · rw [BitVec.and_assoc, h]
  · rfl

theorem negative_adjusted (num type : Word) : negative num (adjusted type) = negative num type := by
  rw [negative, negative, adjusted_and (by decide)]

theorem number_eq {base : Word} (hlow : 2 ≤ base.toInt) (hhigh : base.toInt ≤ 16)
    (num size precision type : Word) (s : Stream) :
    number num base size precision type s = .ok 1 (s.put (emitted type
      (if negative num type then [0x2D] else [])
      (List.replicate ((raised precision (digitsOf num base type)).toInt -
          (BitVec.ofNat 32 (digitsOf num base type).length).toInt).toNat 0x30 ++
        digitsOf num base type)
      ((if negative num type then size - 1 else size) -
        raised precision (digitsOf num base type)))) := by
  have hb := base_toNat hlow
  have hbase : ¬ (base.toInt < 2 ∨ 16 < base.toInt) := by omega
  have hadj : (if type &&& left ≠ 0 then type &&& ~~~zeropad else type) = adjusted type := rfl
  have hsign : ∀ t : Stream, (if negative num type then fputc 0x2D else pure ()) t =
      .ok () (t.put (if negative num type then [0x2D] else [])) := by
    intro t
    split
    · rfl
    · rw [Stream.put_nil]
      rfl
  have hemit : ∀ t : Stream, emitLoop (digitsOf num base type).reverse
      (digitsOf num base type).length t = .ok () (t.put (digitsOf num base type)) := by
    intro t
    rw [emitLoop_eq _ _ _ (by rw [List.length_reverse]), ← List.length_reverse, List.take_length,
      List.reverse_reverse]
  unfold number
  simp only [if_neg hbase, hadj, negative_adjusted,
    adjusted_and (show ~~~zeropad &&& left = left by decide), and_flags_eq_zero]
  refine (bind_ok (a := (digitsOf num base type).reverse) (tmp_eq _ hb _ s) _).trans ?_
  simp only [List.length_reverse]
  have hraised : (if precision.toInt < (BitVec.ofNat 32 (digitsOf num base type).length).toInt then
      BitVec.ofNat 32 (digitsOf num base type).length else precision) =
      raised precision (digitsOf num base type) := rfl
  simp only [hraised, emitted]
  by_cases hl : type &&& left = 0
  · have htype : adjusted type = type := if_neg (not_not.mpr hl)
    rw [htype, if_neg (not_not.mpr hl)]
    by_cases hz : type &&& zeropad = 0
    · rw [if_pos ⟨hz, hl⟩, bind_ok (pad_eq _ _ _), bind_ok (hsign _), if_pos hl,
        if_neg (not_not.mpr hz), bind_ok (pad_eq _ _ _), bind_ok (zeroLoop_eq _ _ _ _ rfl),
        bind_ok (hemit _), bind_ok (pad_eq _ _ _), if_neg (not_not.mpr hz)]
      simp only [Stream.put_put, List.append_assoc]
      rfl
    · rw [if_neg (fun h => hz h.1), pure_bind, bind_ok (hsign _), if_pos hl,
        if_pos hz, bind_ok (pad_eq _ _ _), bind_ok (zeroLoop_eq _ _ _ _ rfl), bind_ok (hemit _),
        bind_ok (pad_eq _ _ _), if_pos hz]
      simp only [Stream.put_put, List.append_assoc]
      rfl
  · rw [if_neg (fun h => hl h.2), pure_bind, bind_ok (hsign _), if_neg hl, pure_bind,
      bind_ok (zeroLoop_eq _ _ _ _ rfl), bind_ok (hemit _), bind_ok (pad_eq _ _ _), if_pos hl]
    simp only [Stream.put_put, List.append_assoc]
    rfl

end Armboard.Stdio
