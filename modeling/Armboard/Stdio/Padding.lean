import Armboard.Stdio.Number
import Mathlib.Tactic

/-! # The layout of a number

Sign, zeros and digits fill the precision, and the padding fills the size. The code
agrees as long as its counter does not wrap: behind sign and digits `size` is taken
down once more by every padding loop but the last, and below -2^31 it would come out
positive again.
-/

namespace Armboard.Stdio
open Text

/-! ## The layout -/

/-- The number that the digits show: signed numbers without their sign. -/
def valueOf (num type : Word) : ℕ :=
  if type &&& sign ≠ 0 then num.toInt.natAbs else num.toNat

def signOf (num type : Word) : List Byte :=
  if type &&& sign ≠ 0 ∧ num.toInt < 0 then [0x2D] else []

def bodyOf (num base precision type : Word) : List Byte :=
  let digits := numeral (digitChar type) base.toNat (valueOf num type)
  List.replicate (precision.toInt.toNat - digits.length) 0x30 ++ digits

def formatted (num base size precision type : Word) : List Byte :=
  let sg := signOf num type
  let body := bodyOf num base precision type
  let gap := size.toInt.toNat - (sg.length + body.length)
  if type &&& left ≠ 0 then sg ++ (body ++ List.replicate gap 0x20)
  else if type &&& zeropad ≠ 0 then sg ++ (List.replicate gap 0x30 ++ body)
  else List.replicate gap 0x20 ++ (sg ++ body)

/-- How often `size` is taken down before the last padding loop tests it. -/
def passes (type : Word) : ℤ :=
  if type &&& left ≠ 0 then 0 else if type &&& zeropad ≠ 0 then 1 else 2

def Roomy (num base size precision type : Word) : Prop :=
  -(2 ^ 31) + passes type ≤
    size.toInt - ((signOf num type).length + (bodyOf num base precision type).length)

/-! ## Counters that do not wrap -/

theorem negative_iff (num type : Word) :
    negative num type = true ↔ type &&& sign ≠ 0 ∧ num.toInt < 0 := by
  rw [negative, Bool.and_eq_true, decide_eq_true_iff, decide_eq_true_iff]

/-- Negation and unsigned division are right for the least integer too. -/
theorem magnitude_toNat (num type : Word) : (magnitude num type).toNat = valueOf num type := by
  have hcond := BitVec.toInt_eq_toNat_cond num
  have hlt := num.isLt
  unfold magnitude valueOf
  by_cases hn : negative num type = true
  · obtain ⟨hs, hneg⟩ := (negative_iff num type).mp hn
    rw [if_pos hn, if_pos hs, BitVec.toNat_neg]
    split at hcond <;> omega
  · rw [if_neg hn]
    by_cases hs : type &&& sign ≠ 0
    · have hpos : ¬ num.toInt < 0 := fun h => hn ((negative_iff num type).mpr ⟨hs, h⟩)
      rw [if_pos hs]
      split at hcond <;> omega
    · rw [if_neg hs]

theorem digitsOf_eq (num base type : Word) :
    digitsOf num base type = numeral (digitChar type) base.toNat (valueOf num type) := by
  rw [digitsOf, magnitude_toNat]

theorem sign_eq (num type : Word) :
    (if negative num type then [0x2D] else []) = signOf num type := by
  rw [signOf]
  exact if_congr (negative_iff num type) rfl rfl

theorem length_toInt {l : List Byte} (h : l.length ≤ 32) :
    (BitVec.ofNat 32 l.length).toInt = l.length := by
  rw [BitVec.toInt_eq_toNat_cond, BitVec.toNat_ofNat, Nat.mod_eq_of_lt (by omega), if_pos (by omega)]

theorem raised_toInt (precision : Word) {text : List Byte} (h : text.length ≤ 32) :
    (raised precision text).toInt = max precision.toInt text.length := by
  have hlen := length_toInt h
  unfold raised
  split <;> omega

theorem body_eq {base : Word} (hb : 1 < base.toNat) (num precision type : Word) :
    List.replicate ((raised precision (digitsOf num base type)).toInt -
        (BitVec.ofNat 32 (digitsOf num base type).length).toInt).toNat 0x30 ++ digitsOf num base type =
      bodyOf num base precision type := by
  have hlen := (digitsOf_length hb num type).2
  rw [raised_toInt precision hlen, length_toInt hlen, bodyOf, ← digitsOf_eq]
  congr 2
  omega

theorem body_length {base : Word} (hb : 1 < base.toNat) (num precision type : Word) :
    ((bodyOf num base precision type).length : ℤ) =
      (raised precision (digitsOf num base type)).toInt := by
  have hlen := (digitsOf_length hb num type).2
  rw [raised_toInt precision hlen, bodyOf, ← digitsOf_eq, List.length_append, List.length_replicate]
  omega

theorem toInt_sub_eq {x y : Word} (h : -(2 ^ 31) ≤ x.toInt - y.toInt)
    (h' : x.toInt - y.toInt < 2 ^ 31) : (x - y).toInt = x.toInt - y.toInt := by
  rw [BitVec.toInt_sub, Int.bmod_def]
  omega

theorem size_toInt {base : Word} (hb : 1 < base.toNat) {num size precision type : Word}
    (h : Roomy num base size precision type) :
    ((if negative num type then size - 1 else size) -
      raised precision (digitsOf num base type)).toInt =
      size.toInt - ((signOf num type).length + (bodyOf num base precision type).length) := by
  have hpasses : 0 ≤ passes type := by
    unfold passes
    split
    · exact le_rfl
    · split <;> decide
  have hsize : 2 * size.toInt < 2 ^ 32 := BitVec.two_mul_toInt_lt
  have hone : (1 : Word).toInt = 1 := rfl
  rw [Roomy] at h
  rw [body_length hb] at h ⊢
  have hlen := digitsOf_length hb num type
  have hraised := raised_toInt precision hlen.2
  rw [← sign_eq] at h ⊢
  by_cases hn : negative num type = true
  · simp only [if_pos hn, List.length_singleton] at h ⊢
    have hsub : (size - 1).toInt = size.toInt - 1 := by
      rw [toInt_sub_eq] <;> omega
    rw [toInt_sub_eq] <;> omega
  · simp only [if_neg hn, List.length_nil] at h ⊢
    rw [toInt_sub_eq] <;> omega

/-! ## The code lays numbers out right -/

theorem afterPad_toInt {n : Word} (h : -(2 ^ 31) < n.toInt) :
    (afterPad n).toInt = min (-1) (n.toInt - 1) := by
  have hone : (-1 : Word).toInt = -1 := rfl
  have hsub := toInt_sub_one h
  unfold afterPad
  split <;> omega

theorem emitted_eq {base : Word} (hb : 1 < base.toNat) {num size precision type : Word}
    (h : Roomy num base size precision type) :
    emitted type (signOf num type) (bodyOf num base precision type)
      ((if negative num type then size - 1 else size) -
        raised precision (digitsOf num base type)) = formatted num base size precision type := by
  have hsize := size_toInt hb h
  rw [Roomy] at h
  generalize (if negative num type then size - 1 else size) -
    raised precision (digitsOf num base type) = n at hsize
  have hgap : n.toInt.toNat = size.toInt.toNat -
      ((signOf num type).length + (bodyOf num base precision type).length) := by omega
  rw [← hsize] at h
  simp only [emitted, formatted, passes, fill, ← hgap] at h ⊢
  by_cases hl : type &&& left ≠ 0
  · rw [if_pos hl, if_pos hl]
  rw [if_neg hl] at h
  rw [if_neg hl, if_neg hl]
  by_cases hz : type &&& zeropad ≠ 0
  · rw [if_pos hz] at h
    have hfirst := afterPad_toInt (n := n) (by omega)
    rw [if_pos hz, if_pos hz, Int.toNat_of_nonpos (z := (afterPad n).toInt) (by omega),
      List.replicate_zero, List.append_nil]
  · rw [if_neg hz] at h
    have hfirst := afterPad_toInt (n := n) (by omega)
    have hsecond := afterPad_toInt (n := afterPad n) (by omega)
    rw [if_neg hz, if_neg hz, Int.toNat_of_nonpos (z := (afterPad n).toInt) (by omega),
      Int.toNat_of_nonpos (z := (afterPad (afterPad n)).toInt) (by omega), List.replicate_zero,
      List.nil_append, List.append_nil]

/-- Every size and precision a little inside the bounds leaves room. -/
theorem roomy_of_le {num base size precision type : Word} (hb : 1 < base.toNat)
    (hs : -(2 ^ 30) + 2 ≤ size.toInt) (hp : precision.toInt < 2 ^ 30) :
    Roomy num base size precision type := by
  have hlen := digitsOf_length hb num type
  have hraised := raised_toInt precision hlen.2
  have hpasses : passes type ≤ 2 := by
    unfold passes
    split
    · decide
    · split <;> decide
  have hsign : (signOf num type).length ≤ 1 := by
    unfold signOf
    split
    · exact le_rfl
    · exact Nat.zero_le 1
  rw [Roomy, body_length hb]
  omega

/-- `number` formats every number in every base as it is meant to, with its index inside `tmp`,
unless the counter `size` wraps. -/
theorem number_correct {num base size precision type : Word} (hlow : 2 ≤ base.toInt)
    (hhigh : base.toInt ≤ 16) (hroom : Roomy num base size precision type) (s : Stream) :
    number num base size precision type s =
      .ok 1 (s.put (formatted num base size precision type)) := by
  have hb := base_toNat hlow
  rw [number_eq hlow hhigh, sign_eq, body_eq hb, emitted_eq hb hroom]

/-- The least integer in base 10 with its sign, zeros up to a width of 14. -/
theorem number_correct_least :
    number 0x80000000 10 14 0 (sign + zeropad) ⟨[], [], []⟩ =
      .ok 1 ((⟨[], [], []⟩ : Stream).put (formatted 0x80000000 10 14 0 (sign + zeropad))) :=
  number_correct (by decide) (by decide) (roomy_of_le (by decide) (by decide) (by decide)) _

theorem emitted_length {type : Word} (hl : type &&& left = 0) (hz : type &&& zeropad = 0)
    (sg body : List Byte) (n : Word) :
    (emitted type sg body n).length = n.toInt.toNat + (afterPad n).toInt.toNat +
      (afterPad (afterPad n)).toInt.toNat + (sg.length + body.length) := by
  rw [emitted, if_neg (not_not.mpr hl), if_neg (not_not.mpr hz)]
  simp only [fill, List.length_append, List.length_replicate]
  omega

theorem formatted_length {type : Word} (hl : type &&& left = 0) (hz : type &&& zeropad = 0)
    (num base size precision : Word) :
    (formatted num base size precision type).length = max size.toInt.toNat
      ((signOf num type).length + (bodyOf num base precision type).length) := by
  rw [formatted, if_neg (not_not.mpr hl), if_neg (not_not.mpr hz)]
  simp only [List.length_append, List.length_replicate]
  omega

/-- A counter of -2^31 behind sign and digits: the first loop takes it down to 2^31 - 1. -/
theorem wrapped_differs {num base size precision type : Word} (hlow : 2 ≤ base.toInt)
    (hhigh : base.toInt ≤ 16) (hl : type &&& left = 0) (hz : type &&& zeropad = 0)
    (hsize : size.toInt ≤ 0) (hn : (if negative num type then size - 1 else size) -
      raised precision (digitsOf num base type) = 0x80000000) (s : Stream) :
    number num base size precision type s ≠
      .ok 1 (s.put (formatted num base size precision type)) := by
  intro h
  have hb := base_toNat hlow
  have hwrap : (afterPad 0x80000000).toInt = 2147483647 := by
    rw [show afterPad 0x80000000 = 0x7FFFFFFF by decide]
    decide
  rw [number_eq hlow hhigh, sign_eq, body_eq hb, hn] at h
  have hput := (EStateM.Result.ok.inj h).2
  have hout := List.append_cancel_left (congrArg Stream.out hput)
  have hlen := congrArg List.length hout
  rw [emitted_length hl hz, formatted_length hl hz] at hlen
  omega

/-- At both ends of the bounds the counter wraps behind the first loop, and the second one sends
2^31 - 1 spaces. -/
theorem not_number_formatted_ends :
    ¬ ∀ (num base size precision type : Word) (s : Stream), 2 ≤ base.toInt → base.toInt ≤ 16 →
      -(2 ^ 30) ≤ size.toInt → size.toInt ≤ 2 ^ 30 → -(2 ^ 30) ≤ precision.toInt →
      precision.toInt ≤ 2 ^ 30 →
      number num base size precision type s =
        .ok 1 (s.put (formatted num base size precision type)) := by
  intro h
  have hdigits : digitsOf 0 10 0 = [0x30] := numeral_zero
  have hcounter : (if negative 0 0 then (0xC0000000 : Word) - 1 else 0xC0000000) -
      raised 0x40000000 (digitsOf 0 10 0) = 0x80000000 := by
    rw [hdigits]
    decide
  exact wrapped_differs (by decide) (by decide) (by decide) (by decide) (by decide) hcounter
    ⟨[], [], []⟩ (h 0 10 0xC0000000 0x40000000 0 _ (by decide) (by decide) (by decide) (by decide)
      (by decide) (by decide))

end Armboard.Stdio
