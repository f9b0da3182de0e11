import Armboard.Bootloader.Command
import Armboard.Stdio.Printf

/-! # Addresses on the command line

The grammar of an address is an optional prefix and at most eight hexadecimal digits.
`AsciiToHex` accepts these with their value, and reads back what `printf` prints; but
behind eight digits it stops without looking for the terminator.
-/

namespace Armboard.Bootloader
open Stdio Text

/-! ## The grammar -/

/-- The character is the hexadecimal digit of value `d`, in lower or in upper case. -/
def IsDigit (c : Byte) (d : ℕ) : Prop := d < 16 ∧ (c = digitChar 0 d ∨ c = digitChar large d)

/-- The digits stand in the string from offset `n` on, with the terminator directly behind them. -/
def DigitsAt (s : ℕ → Byte) : ℕ → List ℕ → Prop
  | n, [] => s n = 0
  | n, d :: ds => IsDigit (s n) d ∧ DigitsAt s (n + 1) ds

/-- The string is an address: behind the prefix there are at most eight digits. -/
def IsAddress (s : ℕ → Byte) (ds : List ℕ) : Prop := ds.length ≤ 8 ∧ DigitsAt (skipPrefix s) 0 ds

def TooLong (s : ℕ → Byte) : Prop :=
  (∀ j < 8, ∃ d, IsDigit (skipPrefix s j) d) ∧ skipPrefix s 8 ≠ 0

theorem hexDigit_facts : ∀ x : Byte, (hexDigit x).all (fun w => decide (w.toNat < 16 ∧
    (x = digitChar 0 w.toNat ∨ x = digitChar large w.toNat))) = true := by
  decide +kernel

theorem isDigit_of_hexDigit {x : Byte} {w : Word} (h : hexDigit x = some w) : IsDigit x w.toNat := by
  have hall := hexDigit_facts x
  rw [h, Option.all_some, decide_eq_true_iff] at hall
  exact hall

theorem hexDigit_digitChar : ∀ d < 16, hexDigit (digitChar 0 d) = some (BitVec.ofNat 32 d) ∧
    hexDigit (digitChar large d) = some (BitVec.ofNat 32 d) ∧
    digitChar 0 d ≠ 0 ∧ digitChar large d ≠ 0 := by
  decide

theorem IsDigit.hexDigit {x : Byte} {d : ℕ} (h : IsDigit x d) :
    Bootloader.hexDigit x = some (BitVec.ofNat 32 d) ∧ x ≠ 0 := by
  obtain ⟨hd, hx⟩ := h
  obtain ⟨hlow, hup, hlow0, hup0⟩ := hexDigit_digitChar d hd
  rcases hx with rfl | rfl
  · exact ⟨hlow, hlow0⟩
  · exact ⟨hup, hup0⟩

/-! ## The loop -/

/-- The loop takes digits up to the terminator at their value: by induction on the digits. -/
theorem hexLoop_digits {s : ℕ → Byte} (ds : List ℕ) : ∀ (k n : ℕ) (val : Word), DigitsAt s n ds →
    ds.length ≤ k → k ≤ 8 → val.toNat < 16 ^ (8 - k) →
    ∃ v, hexLoop s k n val = (true, v) ∧ v.toNat = horner 16 ds val.toNat := by
  induction ds with
  | nil =>
    intro k n val hs _ _ _
    have hzero : s n = 0 := hs
    refine ⟨val, ?_, rfl⟩
    cases k with
    | zero => rfl
    | succ k => rw [hexLoop, if_pos hzero]
  | cons d ds ih =>
    intro k n val hs hlen hk hval
    rw [List.length_cons] at hlen
    obtain ⟨k, rfl⟩ : ∃ m, k = m + 1 := ⟨k - 1, by omega⟩
    obtain ⟨hd, hne⟩ := hs.1.hexDigit
    have hnat : (BitVec.ofNat 32 d).toNat = d := by
      rw [BitVec.toNat_ofNat, Nat.mod_eq_of_lt (by have := hs.1.1; omega)]
    obtain ⟨hsum, hroom⟩ := digit_toNat hk hval (d := BitVec.ofNat 32 d) (by have := hs.1.1; omega)
    obtain ⟨v, hv, hvalue⟩ := ih k (n + 1) (val <<< 4 + BitVec.ofNat 32 d) hs.2 (by omega) (by omega)
      hroom
    refine ⟨v, ?_, ?_⟩
    · rw [hexLoop, if_neg hne, hd]
      exact hv
    · rw [hvalue, hsum, hnat]
      rfl

theorem hexLoop_true_iff (s : ℕ → Byte) (k : ℕ) : ∀ (n : ℕ) (val : Word),
    (hexLoop s k n val).1 = true ↔
      (∃ ds, ds.length ≤ k ∧ DigitsAt s n ds) ∨ ∀ j < k, ∃ d, IsDigit (s (n + j)) d := by
  induction k with
  | zero =>
    intro n val
    exact ⟨fun _ => Or.inr (fun j hj => absurd hj (Nat.not_lt_zero j)), fun _ => rfl⟩
  | succ k ih =>
    intro n val
    rw [hexLoop]
    by_cases h0 : s n = 0
    · rw [if_pos h0]
      exact ⟨fun _ => Or.inl ⟨[], Nat.zero_le _, h0⟩, fun _ => rfl⟩
    rw [if_neg h0]
    cases hd : hexDigit (s n) with
    | none =>
      have hno : ∀ d, ¬ IsDigit (s n) d := by
        intro d h
        rw [h.hexDigit.1] at hd
        exact absurd hd (Option.some_ne_none _)
      constructor
      · exact fun h => absurd (show false = true from h) (by decide)
      · rintro (⟨ds, -, hs⟩ | hall)
        · cases ds with
          | nil => exact absurd hs h0
          | cons d ds => exact absurd hs.1 (hno d)
        · obtain ⟨d, h⟩ := hall 0 (Nat.succ_pos k)
          exact absurd h (hno d)
    | some w =>
      have hfirst := isDigit_of_hexDigit hd
      rw [ih]
      constructor
      · rintro (⟨ds, hlen, hs⟩ | hall)
        · exact Or.inl ⟨w.toNat :: ds, Nat.succ_le_succ hlen, hfirst, hs⟩
        · refine Or.inr (fun j hj => ?_)
          cases j with
          | zero => exact ⟨_, hfirst⟩
          | succ j =>
            rw [← Nat.add_assoc, Nat.add_right_comm]
            exact hall j (by omega)
      · rintro (⟨ds, hlen, hs⟩ | hall)
        · cases ds with
          | nil => exact absurd hs h0
          | cons d ds => exact Or.inl ⟨ds, Nat.le_of_succ_le_succ hlen, hs.2⟩
        · refine Or.inr (fun j hj => ?_)
          rw [Nat.add_assoc, Nat.add_comm 1]
          exact hall (j + 1) (by omega)

theorem exists_digitsAt {s : ℕ → Byte} (k : ℕ) : ∀ n, (∀ j < k, ∃ d, IsDigit (s (n + j)) d) →
    s (n + k) = 0 → ∃ ds, ds.length = k ∧ DigitsAt s n ds := by
  induction k with
  | zero => exact fun n _ h0 => ⟨[], rfl, h0⟩
  | succ k ih =>
    intro n hall h0
    obtain ⟨d, hd⟩ := hall 0 (Nat.succ_pos k)
    obtain ⟨ds, hlen, hs⟩ := ih (n + 1)
      (fun j hj => by
        rw [Nat.add_assoc, Nat.add_comm 1]
        exact hall (j + 1) (by omega))
      (by rw [Nat.add_assoc, Nat.add_comm 1]; exact h0)
    exact ⟨d :: ds, congrArg (· + 1) hlen, hd, hs⟩

/-- The digits of an address are digits, and the terminator is none. -/
theorem DigitsAt.get {s : ℕ → Byte} (ds : List ℕ) : ∀ n, DigitsAt s n ds →
    (∀ j < ds.length, s (n + j) ≠ 0) ∧ s (n + ds.length) = 0 := by
  induction ds with
  | nil => exact fun n h => ⟨fun j hj => absurd hj (Nat.not_lt_zero j), h⟩
  | cons d ds ih =>
    intro n h
    obtain ⟨hall, hend⟩ := ih (n + 1) h.2
    rw [Nat.add_right_comm] at hend
    refine ⟨fun j hj => ?_, hend⟩
    cases j with
    | zero => exact h.1.hexDigit.2
    | succ j =>
      have := hall j (Nat.lt_of_succ_lt_succ hj)
      rwa [Nat.add_right_comm] at this

/-! ## The parser -/

theorem asciiToHex_address {s : ℕ → Byte} {ds : List ℕ} (h : IsAddress s ds) :
    ∃ v, asciiToHex s = (true, v) ∧ v.toNat = horner 16 ds 0 :=
  hexLoop_digits ds 8 0 0 h.2 h.1 le_rfl (by decide)

theorem TooLong.not_isAddress {s : ℕ → Byte} (h : TooLong s) : ¬ ∃ ds, IsAddress s ds := by
  rintro ⟨ds, hlen, hs⟩
  obtain ⟨-, hzero⟩ := DigitsAt.get ds 0 hs
  rw [Nat.zero_add] at hzero
  rcases Nat.lt_or_eq_of_le hlen with hlt | heq
  · obtain ⟨d, hd⟩ := h.1 ds.length hlt
    exact hd.hexDigit.2 hzero
  · rw [heq] at hzero
    exact h.2 hzero

/-- The parser accepts exactly the addresses, at their value, and reads nothing behind the
terminator. -/
structure ParsesAddress (s : ℕ → Byte) : Prop where
  accepts : (asciiToHex s).1 = true ↔ ∃ ds, IsAddress s ds
  value : ∀ ds, IsAddress s ds → (asciiToHex s).2.toNat = horner 16 ds 0
  reads : ∀ i ∈ asciiToHexReads s, ∀ j < i, s j ≠ 0

/-- The parser is right about a string if and only if it is not eight digits with more behind
them. -/
theorem parsesAddress_iff (s : ℕ → Byte) : ParsesAddress s ↔ ¬ TooLong s := by
  have htrue := hexLoop_true_iff (skipPrefix s) 8 0 0
  simp only [Nat.zero_add] at htrue
  constructor
  · exact fun h hlong => hlong.not_isAddress (h.accepts.mp (htrue.mpr (Or.inr hlong.1)))
  · intro hshort
    refine ⟨htrue.trans ⟨?_, Or.inl⟩, ?_, asciiToHexReads_inside s⟩
    · rintro (h | hall)
      · exact h
      · have hzero : skipPrefix s 8 = 0 := by
          by_contra hne
          exact hshort ⟨hall, hne⟩
        obtain ⟨ds, hlen, hs⟩ := exists_digitsAt 8 0 (by simpa using hall) hzero
        exact ⟨ds, hlen.le, hs⟩
    · intro ds hds
      obtain ⟨v, hv, hvalue⟩ := asciiToHex_address hds
      rw [hv]
      exact hvalue

/-- Nine digits are taken for the first eight of them. -/
theorem not_parsesAddress_nine : ¬ ∀ s : ℕ → Byte, ParsesAddress s := by
  intro h
  have hones : ∀ j < 8, skipPrefix (fun i => (List.replicate 9 0x31).getD i 0) j = digitChar 0 1 := by
    decide
  have hlong : TooLong (fun i => (List.replicate 9 0x31).getD i 0) :=
    ⟨fun j hj => ⟨1, by decide, Or.inl (hones j hj)⟩, by decide⟩
  exact hlong.not_isAddress ((h _).accepts.mp (by decide))

/-! ## Printed addresses -/

def HoldsText (buf : ℕ → Byte) (text : List Byte) : Prop :=
  (∀ i < text.length, buf i = text.getD i 0) ∧ buf text.length = 0

theorem digitsAt_of_text {extra : Word} (he : extra = 0 ∨ extra = large) {buf : ℕ → Byte}
    (ds : List ℕ) : ∀ n, (∀ d ∈ ds, d < 16) →
    (∀ i < ds.length, buf (n + i) = (ds.map (digitChar extra)).getD i 0) →
    buf (n + ds.length) = 0 → DigitsAt buf n ds := by
  induction ds with
  | nil => exact fun n _ _ h => h
  | cons d ds ih =>
    intro n hds hbuf hend
    obtain ⟨hd, hrest⟩ := List.forall_mem_cons.mp hds
    refine ⟨⟨hd, ?_⟩, ih (n + 1) hrest (fun i hi => ?_) ?_⟩
    · have hfirst : buf n = digitChar extra d := hbuf 0 (Nat.succ_pos _)
      rcases he with rfl | rfl
      · exact Or.inl hfirst
      · exact Or.inr hfirst
    · rw [Nat.add_assoc, Nat.add_comm 1]
      exact hbuf (i + 1) (Nat.succ_lt_succ hi)
    · rw [Nat.add_assoc, Nat.add_comm 1]
      exact hend

theorem skipPrefix_digits {s : ℕ → Byte} {ds : List ℕ} (hne : ds ≠ []) (h : DigitsAt s 0 ds) :
    skipPrefix s = s := by
  have hmark : ∀ x : Byte, x = 0x78 ∨ x = 0x58 → ∀ d, ¬ IsDigit x d := by
    rintro x hx d hd
    have hnone : hexDigit x = none := by
      rcases hx with rfl | rfl <;> decide
    rw [hd.hexDigit.1] at hnone
    exact absurd hnone (Option.some_ne_none _)
  rw [skipPrefix, if_neg]
  rintro ⟨-, hx⟩
  cases ds with
  | nil => exact hne rfl
  | cons d ds =>
    cases ds with
    | nil =>
      have hzero : s 1 = 0 := h.2
      rw [hzero] at hx
      exact absurd hx (by decide)
    | cons e ds => exact hmark _ hx e h.2.1

/-- A number in at most eight digits, zeros before it or not, is read back. -/
theorem asciiToHex_zeroFill {extra : Word} (he : extra = 0 ∨ extra = large) (v : Word) {w : ℕ}
    (hw : w ≤ 8) {buf : ℕ → Byte}
    (h : HoldsText buf (zeroFill w (numeral (digitChar extra) 16 v.toNat))) :
    asciiToHex buf = (true, v) := by
  let ds := List.replicate (w - (numeral id 16 v.toNat).length) 0 ++ numeral id 16 v.toNat
  have hzero : digitChar extra 0 = 0x30 := by
    rcases he with rfl | rfl <;> rfl
  have htext : zeroFill w (numeral (digitChar extra) 16 v.toNat) = ds.map (digitChar extra) := by
    rw [zeroFill, numeral_map, List.length_map, List.map_append, List.map_replicate, hzero]
  have hpos := numeral_length_pos (id : ℕ → ℕ) 16 v.toNat
  have hlen := numeral_length_le (id : ℕ → ℕ) (b := 16) (by decide) (k := 8) (by decide) v.isLt
  have hds : ds.length = max w (numeral id 16 v.toNat).length := by
    rw [List.length_append, List.length_replicate]
    omega
  have hdigit : ∀ d ∈ ds, d < 16 := by
    intro d hd
    rcases List.mem_append.mp hd with hz | hn
    · rw [List.eq_of_mem_replicate hz]
      decide
    · obtain ⟨e, he, rfl⟩ := exists_digit_of_mem_numeral (by decide) hn
      exact he
  rw [htext] at h
  obtain ⟨hbuf, hend⟩ := h
  rw [List.length_map] at hbuf hend
  have hat : DigitsAt buf 0 ds :=
    digitsAt_of_text he ds 0 hdigit (by simpa using hbuf) (by simpa using hend)
  have hne : ds ≠ [] := List.ne_nil_of_length_pos (by omega)
  have haddress : IsAddress buf ds := ⟨by omega, by rw [skipPrefix_digits hne hat]; exact hat⟩
  obtain ⟨v', hv, hvalue⟩ := asciiToHex_address haddress
  rw [horner_numeral] at hvalue
  rw [hv, BitVec.eq_of_toNat_eq hvalue]

/-- What `printf` sends for `%x` or `%X` of a number, with a width up to 8, is read back by
`AsciiToHex` as that number. -/
theorem printf_asciiToHex {mem : ℕ → Byte} {width : List (Fin 10)} {kind : Kind}
    (hk : kind = .x ∨ kind = .X) (hw : widthOf width ≤ 8)
    (hf : Stdio.Spells mem 0 (Item.conversion width kind).text) (va : VaList) (s : Stream) :
    ∃ bound, ∀ fuel ≥ bound, ∃ t text, Stdio.printf fuel mem va s = .ok 0 t ∧
      t.out = s.out ++ text ∧ ∀ buf, HoldsText buf text → asciiToHex buf = (true, va.int 0) := by
  let f : PieceFormat := ⟨[.conversion width kind], List.cons_ne_nil _ _, mem, by
    rw [render, List.flatMap_singleton]
    exact hf⟩
  have hfits : FitsWidth width := Or.inl (by omega)
  have hsent : sentAll va 0 f.items = kind.meant va 0 (widthOf width) := by
    have hall : FollowsAll va 0 f.items := by
      rcases hk with rfl | rfl
      · exact ⟨hfits, trivial⟩
      · exact ⟨hfits, trivial⟩
    rw [(sentAll_eq_iff va 0 f.items).mpr hall]
    exact List.append_nil _
  refine ⟨(render f.items).length, fun fuel hfuel => ?_⟩
  obtain ⟨t, hrun, hout⟩ := vfprintf_sent f va hfuel s
  rw [hsent] at hout
  refine ⟨t, _, hrun, hout, fun buf hbuf => ?_⟩
  rcases hk with rfl | rfl
  · exact asciiToHex_zeroFill (Or.inl rfl) (va.int 0) hw hbuf
  · exact asciiToHex_zeroFill (Or.inr rfl) (va.int 0) hw hbuf

theorem printf_asciiToHex_boot :
    ∃ bound, ∀ fuel ≥ bound, ∃ t text,
      Stdio.printf fuel (fun i => [0x25, 0x30, 0x38, 0x58].getD i 0) ⟨fun _ => 0xC0008400, fun _ => none⟩
        ⟨[], [], []⟩ = .ok 0 t ∧ t.out = [] ++ text ∧
      ∀ buf, HoldsText buf text → asciiToHex buf = (true, 0xC0008400) := by
  have hf : Stdio.Spells (fun i => [0x25, 0x30, 0x38, 0x58].getD i 0) 0
      (Item.conversion [0, 8] .X).text :=
    ⟨rfl, by decide, rfl, by decide, rfl, by decide, rfl, by decide, rfl⟩
  exact printf_asciiToHex (Or.inr rfl) (by decide) hf ⟨fun _ => 0xC0008400, fun _ => none⟩
    ⟨[], [], []⟩

end Armboard.Bootloader
