import Armboard.Bits.OnesComplement
import Armboard.Net.Packet

/-! # The checksum of IP and ICMP

`NetCksum` adds half words in ones' complement. What it makes of a header whose checksum is
still zero, complemented and stored there, is what `NetCksumOk` asks for.
-/

namespace Armboard.Net
open Bits

/-- The sum that `NetCksum` takes, without overflow. -/
def halves : ℕ → List Byte → ℕ
  | 0, _ => 0
  | n + 1, p => (p.getD 0 0).toNat + 256 * (p.getD 1 0).toNat + halves n (p.drop 2)

def halfAt (p : List Byte) (i : ℕ) : ℕ := halves 1 (p.drop (2 * i))

variable {p q : List Byte} {n : ℕ}

theorem half_lt (p : List Byte) : (p.getD 0 0).toNat + 256 * (p.getD 1 0).toNat < 0x10000 := by
  have hlow := (p.getD 0 0).isLt
  have hhigh := (p.getD 1 0).isLt
  omega

theorem halves_le (n : ℕ) (p : List Byte) : halves n p ≤ n * 0xffff := by
  induction n generalizing p with
  | zero => exact Nat.zero_le _
  | succ n ih =>
    have hhalf := half_lt p
    have hrest := ih (p.drop 2)
    rw [halves, Nat.succ_mul]
    omega

theorem halves_add (m n : ℕ) (p : List Byte) :
    halves (m + n) p = halves m p + halves n (p.drop (2 * m)) := by
  induction m generalizing p with
  | zero => simp [halves]
  | succ m ih =>
    rw [Nat.succ_add, halves, ih, halves, List.drop_drop, Nat.mul_succ, Nat.add_comm 2]
    omega

theorem halves_split {i : ℕ} (hi : i < n) (p : List Byte) :
    halves n p = halves i p + halves (n - (i + 1)) (p.drop (2 * (i + 1))) + halfAt p i := by
  have hn : n = i + (1 + (n - (i + 1))) := by omega
  conv_lhs => rw [hn]
  rw [halves_add, halves_add, List.drop_drop, halfAt, ← Nat.mul_add]
  omega

theorem halves_congr (h : ∀ i < 2 * n, p.getD i 0 = q.getD i 0) : halves n p = halves n q := by
  induction n generalizing p q with
  | zero => rfl
  | succ n ih =>
    have hrest : halves n (p.drop 2) = halves n (q.drop 2) := by
      apply ih
      intro i hi
      simp only [List.getD_eq_getElem?_getD, List.getElem?_drop]
      simpa only [List.getD_eq_getElem?_getD] using h (2 + i) (by omega)
    rw [halves, halves, h 0 (by omega), h 1 (by omega), hrest]

/-! ## The code's sum -/

theorem sumWords_toNat (hn : n ≤ 0x10000) (p : List Byte) : (sumWords n p).toNat = halves n p := by
  induction n generalizing p with
  | zero => rfl
  | succ n ih =>
    have hle := halves_le (n + 1) p
    have hhalf : ((p.getD 1 0 ++ p.getD 0 0).setWidth 32).toNat =
        (p.getD 0 0).toNat + 256 * (p.getD 1 0).toNat := by
      have hlow := (p.getD 0 0).isLt
      have hhigh := (p.getD 1 0).isLt
      rw [BitVec.toNat_setWidth, BitVec.toNat_append, ← Nat.shiftLeft_add_eq_or_of_lt hlow,
        Nat.shiftLeft_eq]
      omega
    rw [sumWords, BitVec.toNat_add, hhalf, ih (by omega)]
    rw [halves] at hle ⊢
    omega

theorem toNat_and_ffff (x : Word) : (x &&& (0xffff : Word)).toNat = x.toNat % 0x10000 := by
  rw [BitVec.toNat_and]
  exact Nat.and_two_pow_sub_one_eq_mod x.toNat 16

theorem toNat_and_fffe (x : Word) :
    (x &&& (0xfffe : Word)).toNat + x.toNat % 2 = x.toNat % 0x10000 := by
  have hsplit : (x &&& (0xfffe : Word)) + (x &&& 1) = x &&& (0xffff : Word) := by
    have hdisjoint : (x &&& (0xfffe : Word)) &&& (x &&& 1) = 0 := by
      rw [BitVec.and_comm x 1, BitVec.and_assoc, ← BitVec.and_assoc 0xfffe]
      exact (congrArg (x &&& ·) (BitVec.zero_and)).trans BitVec.and_zero
    rw [BitVec.add_eq_or_of_and_eq_zero _ _ hdisjoint, ← BitVec.and_or_distrib_left]
    rfl
  have hone : (x &&& 1).toNat = x.toNat % 2 := by
    rw [BitVec.toNat_and]
    exact Nat.and_two_pow_sub_one_eq_mod x.toNat 1
  have hsum := congrArg BitVec.toNat hsplit
  rw [toNat_and_ffff, BitVec.toNat_add, hone] at hsum
  have hlt : (x &&& (0xfffe : Word)).toNat ≤ 0xfffe := by
    rw [BitVec.toNat_and]
    exact Nat.and_le_right
  omega

theorem foldCarry_toNat {x : Word} :
    ((x &&& (0xffff : Word)) + (x >>> 16)).toNat = foldCarry 0x10000 x.toNat := by
  have hx := x.isLt
  rw [BitVec.toNat_add, toNat_and_ffff, BitVec.toNat_ushiftRight, Nat.shiftRight_eq_div_pow, foldCarry]
  omega

theorem netCksum_toNat (hn : n ≤ 0x10000) (p : List Byte) :
    (netCksum p n).toNat = checksum 0x10000 (halves n p) := by
  have hlt : checksum 0x10000 (halves n p) < 0x10000 := by
    apply checksum_lt
    have hle := halves_le n p
    have hmul := Nat.mul_le_mul_right 0xffff hn
    omega
  rw [netCksum, toNat_and_ffff, foldCarry_toNat, foldCarry_toNat, sumWords_toNat hn]
  exact Nat.mod_eq_of_lt hlt

theorem halves_lt (hn : n ≤ 0x10000) (p : List Byte) : halves n p < 0x10000 * 0x10000 := by
  have hle := halves_le n p
  have hmul := Nat.mul_le_mul_right 0xffff hn
  omega

/-- `NetCksumOk` asks for a sum of half words that 65535 divides. -/
theorem netCksumOk_iff (hn : n ≤ 0x10000) (p : List Byte) :
    netCksumOk p n = true ↔ 0xffff ∣ halves n p := by
  have hlt := checksum_lt (halves_lt hn p)
  have hx := netCksum_toNat hn p
  have hsum := toNat_and_fffe (netCksum p n + 1)
  rw [BitVec.toNat_add, hx, show BitVec.toNat (1 : Word) = 1 from rfl] at hsum
  rw [← checksum_full_iff (halves_lt hn p), netCksumOk, decide_eq_true_iff, ← BitVec.toNat_inj]
  change (netCksum p n + 1 &&& 0xfffe).toNat = 0 ↔ _
  omega

/-! ## A checksum in its place -/

theorem halves_append {front : List Byte} (hn : 2 * n ≤ front.length) (back : List Byte) :
    halves n (front ++ back) = halves n front := by
  apply halves_congr
  intro i hi
  simp only [List.getD_eq_getElem?_getD]
  rw [List.getElem?_append_left (by omega)]

theorem netCksumOk_append {front : List Byte} (hm : n ≤ 0x10000) (hn : 2 * n ≤ front.length)
    (back : List Byte) : netCksumOk (front ++ back) n = netCksumOk front n := by
  rw [Bool.eq_iff_iff, netCksumOk_iff hm, netCksumOk_iff hm, halves_append hn]

theorem netCksum_append {front : List Byte} (hm : n ≤ 0x10000) (hn : 2 * n ≤ front.length)
    (back : List Byte) : netCksum (front ++ back) n = netCksum front n := by
  apply BitVec.eq_of_toNat_eq
  rw [netCksum_toNat hm, netCksum_toNat hm, halves_append hn]

theorem halves_middle {front : List Byte} {i : ℕ} (hfront : front.length = 2 * i) (hi : i < n)
    (a b : Byte) (back : List Byte) : halves n (front ++ ([a, b] ++ back)) =
      halves i front + halves (n - (i + 1)) back + (a.toNat + 256 * b.toNat) := by
  have hdrop : (front ++ ([a, b] ++ back)).drop (2 * i) = a :: b :: back := by
    rw [← hfront, List.drop_left]
    rfl
  have hdrop' : (front ++ ([a, b] ++ back)).drop (2 * (i + 1)) = back := by
    rw [Nat.mul_succ, ← List.drop_drop, hdrop]
    rfl
  rw [halves_split hi, halves_append hfront.ge, hdrop', halfAt, hdrop]
  rfl

theorem hostShort_value (w : Word) :
    (w.setWidth 8).toNat + 256 * ((w >>> 8).setWidth 8).toNat = w.toNat % 0x10000 := by
  rw [BitVec.toNat_setWidth, BitVec.toNat_setWidth, BitVec.toNat_ushiftRight,
    Nat.shiftRight_eq_div_pow]
  omega

/-- The complement of `NetCksum`, stored where the sum was taken over zero, passes `NetCksumOk`. -/
theorem netCksumOk_fill {i : ℕ} (hm : n ≤ 0x10000) (hi : i < n) (front back : List Byte)
    (hfront : front.length = 2 * i) :
    netCksumOk (front ++
      (hostShort (~~~(netCksum (front ++ (hostShort 0 ++ back)) n)) ++ back)) n = true := by
  have hsum := netCksum_toNat hm (front ++ (hostShort 0 ++ back))
  have hlt := checksum_lt (halves_lt hm (front ++ (hostShort 0 ++ back)))
  have hfill := dvd_add_complement (halves_lt hm (front ++ (hostShort 0 ++ back)))
  rw [netCksumOk_iff hm, hostShort, halves_middle hfront hi, hostShort_value, BitVec.toNat_not, hsum]
  have hzero : halves n (front ++ (hostShort 0 ++ back)) =
      halves i front + halves (n - (i + 1)) back := halves_middle hfront hi 0 0 back
  rw [hzero] at hfill hlt ⊢
  convert hfill using 2
  omega

/-- Two buffers that differ in one half word only do not both pass, unless that is zero in one and
all ones in the other. -/
theorem netCksumOk_damage {front back : List Byte} {i : ℕ} {a b a' b' : Byte} (hm : n ≤ 0x10000)
    (hfront : front.length = 2 * i) (hi : i < n)
    (h : netCksumOk (front ++ ([a, b] ++ back)) n = true)
    (h' : netCksumOk (front ++ ([a', b'] ++ back)) n = true) :
    [a, b] = [a', b'] ∨ [a, b] = [0, 0] ∧ [a', b'] = [0xff, 0xff] ∨
      [a, b] = [0xff, 0xff] ∧ [a', b'] = [0, 0] := by
  rw [netCksumOk_iff hm, halves_middle hfront hi] at h h'
  have ha := a.isLt
  have hb := b.isLt
  have ha' := a'.isLt
  have hb' := b'.isLt
  have heq := eq_of_dvd_add (b := 0x10000) (by omega) (by omega) h h'
  simp only [List.cons.injEq, and_true, ← BitVec.toNat_inj]
  change _ ∨ (a.toNat = 0 ∧ b.toNat = 0) ∧ a'.toNat = 255 ∧ b'.toNat = 255 ∨
    (a.toNat = 255 ∧ b.toNat = 255) ∧ a'.toNat = 0 ∧ b'.toNat = 0
  omega

end Armboard.Net
