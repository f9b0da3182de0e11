import Armboard.Tftp.Client

/-! # Reading the packets of a server

The two bytes of a number, and the acknowledgement of options: strings with their
terminators, each name followed by its value. `TftpHandler` looks for `blksize` at every
byte, so it also finds it at the end of a longer string.
-/

namespace Armboard.Tftp
open Ethernet Env Net

/-! ## Numerals -/

theorem decimalDigit : ∀ d < 10, isxdigit (BitVec.ofNat 8 (0x30 + d)) = true ∧
    digitValue (BitVec.ofNat 8 (0x30 + d)) = BitVec.ofNat 32 d := by
  decide

/-- The loop of `simple_strtoul` reads decimal digits up to a terminator. -/
theorem strtoulDigits_decimal (ds : List ℕ) (hds : ∀ d ∈ ds, d < 10) (rest : List Byte) (n : ℕ) :
    strtoulDigits 10 (BitVec.ofNat 32 n) (ds.map (fun d => BitVec.ofNat 8 (0x30 + d)) ++ 0 :: rest) =
      (BitVec.ofNat 32 (Text.horner 10 ds n), 0 :: rest) := by
  induction ds generalizing n with
  | nil => rfl
  | cons d ds ih =>
    have hd := hds d List.mem_cons_self
    have hdigit := decimalDigit d hd
    have hlt : BitVec.ofNat 32 d < 10 := by
      rw [BitVec.lt_def, BitVec.toNat_ofNat]
      exact (Nat.mod_le _ _).trans_lt hd
    have hnext : BitVec.ofNat 32 n * 10 + BitVec.ofNat 32 d = BitVec.ofNat 32 (n * 10 + d) := by
      rw [BitVec.ofNat_add, BitVec.ofNat_mul]
      rfl
    rw [List.map_cons, List.cons_append, strtoulDigits, hdigit.1, hdigit.2, decide_eq_true hlt,
      Bool.and_self, if_pos rfl, hnext, ih fun d' hd' => hds d' (List.mem_cons_of_mem d hd')]
    rfl

/-- `simple_strtoul` reads back what `%d` prints. -/
theorem simpleStrtoul_decimal {v : ℕ} (hv : 0 < v) (rest : List Byte) :
    simpleStrtoul (decimal v ++ 0 :: rest) 10 = (BitVec.ofNat 32 v, 0 :: rest) := by
  have hmap : decimal v = (Text.numeral id 10 v).map fun d => BitVec.ofNat 8 (0x30 + d) :=
    Text.numeral_map _ 10 v
  have hds : ∀ d ∈ Text.numeral id 10 v, d < 10 := by
    intro d hd
    obtain ⟨d', hd', rfl⟩ := Text.exists_digit_of_mem_numeral (by decide) hd
    exact hd'
  obtain ⟨d, l, hcons, hpos, hlt⟩ := Text.numeral_eq_cons (id : ℕ → ℕ) (b := 10) (by decide) hv.ne'
  have hfirst : deref (decimal v ++ 0 :: rest) ≠ 0x30 := by
    rw [hmap, hcons, List.map_cons, List.cons_append]
    have hne : ∀ d < 10, 0 < d → BitVec.ofNat 8 (0x30 + d) ≠ (0x30 : Byte) := by decide
    exact hne d hlt hpos
  have hvalue := Text.horner_numeral 10 v 0
  rw [List.replicate_zero, List.nil_append] at hvalue
  have hread := strtoulDigits_decimal (Text.numeral id 10 v) hds rest 0
  rw [hvalue, ← hmap] at hread
  rw [simpleStrtoul, strtoulPrefix, if_neg hfirst]
  exact hread

/-! ## The acknowledged options -/

def cstrings (l : List (List Byte)) : List Byte := l.flatMap fun s => s ++ [0]

theorem cstrings_cons (s : List Byte) (l : List (List Byte)) :
    cstrings (s :: l) = s ++ 0 :: cstrings l := by
  simp [cstrings]

theorem cstrings_append (l l' : List (List Byte)) :
    cstrings (l ++ l') = cstrings l ++ cstrings l' := List.flatMap_append

/-- A string that `blksize` is not found in. -/
structure Plain (s : List Byte) : Prop where
  terminated : 0 ∉ s
  other : ¬ ascii "blksize" <:+ s

theorem Plain.tail {c : Byte} {s : List Byte} (h : Plain (c :: s)) : Plain s :=
  ⟨fun hs => h.terminated (List.mem_cons_of_mem c hs),
    fun hs => h.other (hs.trans (List.suffix_cons c s))⟩

theorem cstring_append {s : List Byte} (h : 0 ∉ s) (rest : List Byte) :
    cstring (s ++ 0 :: rest) = s := by
  induction s with
  | nil => rfl
  | cons c s ih =>
    have hc : c ≠ 0 := fun hc => h (hc ▸ List.mem_cons_self)
    rw [List.cons_append, cstring, List.takeWhile_cons, if_pos (decide_eq_true hc)]
    exact congrArg (List.cons c) (ih fun hs => h (List.mem_cons_of_mem c hs))

theorem Plain.not_found {s : List Byte} (h : Plain s) (rest : List Byte) :
    ¬ cstring (s ++ 0 :: rest) = ascii "blksize" := by
  rw [cstring_append h.terminated]
  exact fun heq => h.other (heq ▸ List.suffix_rfl)

theorem blksizeOption_plain {s : List Byte} (h : Plain s) (rest : List Byte) (n : ℕ) :
    blksizeOption (s.length + 1 + n) (s ++ 0 :: rest) = blksizeOption n rest := by
  induction s with
  | nil =>
    rw [List.length_nil, Nat.zero_add, Nat.add_comm, blksizeOption]
    exact if_neg (h.not_found rest)
  | cons c s ih =>
    rw [List.length_cons, show s.length + 1 + 1 + n = (s.length + 1 + n) + 1 by omega, blksizeOption,
      if_neg (h.not_found rest)]
    exact ih h.tail

theorem blksizeOption_plain_le {s : List Byte} (h : Plain s) (rest : List Byte) {n : ℕ}
    (hn : n ≤ s.length + 1) : blksizeOption n (s ++ 0 :: rest) = none := by
  induction s generalizing n with
  | nil =>
    cases n with
    | zero => rfl
    | succ n =>
      have hz : n = 0 := by
        rw [List.length_nil] at hn
        omega
      subst hz
      exact if_neg (h.not_found rest)
  | cons c s ih =>
    cases n with
    | zero => rfl
    | succ n =>
      rw [blksizeOption, if_neg (h.not_found rest)]
      exact ih h.tail (by rw [List.length_cons] at hn; omega)

theorem blksizeOption_plains {l : List (List Byte)} (h : ∀ s ∈ l, Plain s) (rest : List Byte) (n : ℕ) :
    blksizeOption ((cstrings l).length + n) (cstrings l ++ rest) = blksizeOption n rest := by
  induction l with
  | nil =>
    rw [cstrings, List.flatMap_nil, List.length_nil, Nat.zero_add]
    rfl
  | cons s l ih =>
    have hlen : (cstrings (s :: l)).length + n = s.length + 1 + ((cstrings l).length + n) := by
      rw [cstrings_cons, List.length_append, List.length_cons]
      omega
    rw [hlen, cstrings_cons, List.append_assoc, List.cons_append,
      blksizeOption_plain (h s List.mem_cons_self), ih fun s hs => h s (List.mem_cons_of_mem _ hs)]

theorem blksizeOption_none {l : List (List Byte)} (h : ∀ s ∈ l, Plain s) (rest : List Byte) {n : ℕ}
    (hn : n ≤ (cstrings l).length) : blksizeOption n (cstrings l ++ rest) = none := by
  induction l generalizing n with
  | nil =>
    rw [cstrings, List.flatMap_nil, List.length_nil, Nat.le_zero] at hn
    rw [hn]
    rfl
  | cons s l ih =>
    have hs := h s List.mem_cons_self
    have hl := fun s hs => h s (List.mem_cons_of_mem _ hs)
    rw [cstrings_cons, List.append_assoc, List.cons_append]
    by_cases hle : n ≤ s.length + 1
    · exact blksizeOption_plain_le hs _ hle
    · obtain ⟨m, rfl⟩ := Nat.exists_eq_add_of_le (Nat.le_of_not_le hle)
      rw [blksizeOption_plain hs]
      exact ih hl (by rw [cstrings_cons, List.length_append, List.length_cons] at hn; omega)

theorem blksizeOption_some {l l' : List (List Byte)} {v : ℕ} (h : ∀ s ∈ l, Plain s) (hv : 0 < v)
    (rest : List Byte) (n : ℕ) :
    blksizeOption ((cstrings l).length + (n + 1))
        (cstrings (l ++ ascii "blksize" :: decimal v :: l') ++ rest) = some (BitVec.ofNat 16 v) := by
  have hname : cstring (ascii "blksize" ++ 0 :: (cstrings (decimal v :: l') ++ rest)) =
      ascii "blksize" := cstring_append (by decide) _
  have hdrop : (ascii "blksize" ++ 0 :: (cstrings (decimal v :: l') ++ rest)).drop 8 =
      decimal v ++ 0 :: (cstrings l' ++ rest) := by
    rw [cstrings_cons, List.append_assoc, List.cons_append]
    rfl
  rw [cstrings_append, List.append_assoc, blksizeOption_plains h, cstrings_cons, List.append_assoc,
    List.cons_append, blksizeOption, if_pos hname, hdrop, simpleStrtoul_decimal hv]
  simp

end Armboard.Tftp
