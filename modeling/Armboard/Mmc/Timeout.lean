import Armboard.Mmc.Register
import Mathlib.Algebra.Order.Floor.Div
import Mathlib.Data.List.GetD
import Mathlib.Tactic

/-! # The data timeout

`mci_set_data_timeout` counts the clocks of the access time of the card and looks for
the smallest multiplier that can represent them. The search is right for what was
counted. The count is not: units of 10 ns by 100 kHz are thousandths of a clock, and
they are divided by 10000.
-/

namespace Armboard.Mmc
open Exec

/-! ## Multipliers -/

def multiplier (dtomul : ℕ) : ℕ := 2 ^ (dtomulToShift.getD dtomul 0).toNat

/-- The smallest multiplier that can represent a number of clocks, 8 if there is none. -/
def dtomulFor (request : ℕ) : ℕ :=
  (List.range 8).findIdx fun j => decide (request ≤ multiplier j * 15)

/-- As many clocks need the multiplier that `t` clocks need, and no more cycles of it. -/
def Covered (request t : ℕ) : Prop :=
  dtomulFor request = dtomulFor t ∧
    request ⌈/⌉ multiplier (dtomulFor t) ≤ t ⌈/⌉ multiplier (dtomulFor t)

instance (request t : ℕ) : Decidable (Covered request t) := inferInstanceAs (Decidable (_ ∧ _))

/-- The fields are in range and represent the clocks, and no smaller multiplier could. -/
structure Represents (request dtomul dtocyc : ℕ) : Prop where
  dtocyc_le : dtocyc ≤ 15
  dtomul_le : dtomul ≤ 7
  enough : request ≤ dtocyc * multiplier dtomul
  least : ∀ j < dtomul, ∀ cyc ≤ 15, cyc * multiplier j < request

theorem multiplier_pos (dtomul : ℕ) : 0 < multiplier dtomul := Nat.two_pow_pos _

theorem dtomulFor_eq_iff {request d : ℕ} (hd : d ≤ 7) : dtomulFor request = d ↔
    request ≤ multiplier d * 15 ∧ ∀ j < d, multiplier j * 15 < request := by
  have hlen : d < (List.range 8).length := by
    rw [List.length_range]
    omega
  rw [dtomulFor, List.findIdx_eq hlen]
  simp

theorem represents_iff {t d : ℕ} (hd : d ≤ 7) (ht : dtomulFor t = d) (request : ℕ) :
    Represents request d (t ⌈/⌉ multiplier d) ↔ Covered request t := by
  have hpos := multiplier_pos d
  have hcyc : t ⌈/⌉ multiplier d ≤ 15 :=
    (ceilDiv_le_iff_le_mul hpos).mpr ((dtomulFor_eq_iff hd).mp ht).1
  rw [Covered, ht, dtomulFor_eq_iff hd, ceilDiv_le_iff_le_mul hpos]
  constructor
  · intro h
    have henough : request ≤ multiplier d * (t ⌈/⌉ multiplier d) := by
      rw [Nat.mul_comm]
      exact h.enough
    refine ⟨⟨henough.trans (Nat.mul_le_mul_left _ hcyc), ?_⟩, henough⟩
    intro j hj
    rw [Nat.mul_comm]
    exact h.least j hj 15 le_rfl
  · rintro ⟨⟨-, hleast⟩, henough⟩
    constructor
    · exact hcyc
    · exact hd
    · rw [Nat.mul_comm]
      exact henough
    · intro j hj cyc hle
      rw [Nat.mul_comm]
      exact (Nat.mul_le_mul_left _ hle).trans_lt (hleast j hj)

/-! ## The search -/

/-- The cycles are those of the multiplier, and no smaller one is enough. -/
structure Searched (t dtomul : ℕ) (dtocyc : Word) : Prop where
  dtocyc : dtocyc.toNat = t ⌈/⌉ multiplier dtomul
  least : ∀ j < dtomul, multiplier j * 15 < t

/-- The table is not read past its end. -/
theorem getD_dtomulToShift (past : Word) {j : ℕ} (hj : j ≤ 7) :
    dtomulToShift.getD j past = dtomulToShift.getD j 0 := by
  have hlen : j < dtomulToShift.length := Nat.lt_succ_of_le hj
  rw [List.getD_eq_getElem _ _ hlen, List.getD_eq_getElem _ _ hlen]

theorem shift_le {j : ℕ} (hj : j ≤ 7) : (dtomulToShift.getD j 0).toNat ≤ 20 := by
  interval_cases j <;> decide

/-- The division of the loop rounds up, and does not wrap. -/
theorem cycles_toNat {clks : Word} (hclks : clks.toNat ≤ 2 ^ 20 * 15) {k : ℕ} (hk : k ≤ 20) :
    ((clks + (1 : Word) <<< k - 1) >>> k).toNat = clks.toNat ⌈/⌉ 2 ^ k := by
  have hpow : 2 ^ k ≤ 2 ^ 20 := Nat.pow_le_pow_right (by decide) hk
  have hpos : 0 < 2 ^ k := Nat.two_pow_pos k
  have hone : ((1 : Word) <<< k).toNat = 2 ^ k := by
    rw [BitVec.toNat_shiftLeft, Nat.shiftLeft_eq, show (1 : Word).toNat = 1 from rfl, Nat.one_mul]
    omega
  have hsum : (clks + (1 : Word) <<< k).toNat = clks.toNat + 2 ^ k := by
    rw [BitVec.toNat_add, hone]
    omega
  have hle : (1 : Word) ≤ clks + (1 : Word) <<< k := by
    rw [BitVec.le_def, hsum, show (1 : Word).toNat = 1 from rfl]
    omega
  rw [BitVec.toNat_ushiftRight, BitVec.toNat_sub_of_le hle, hsum, Nat.shiftRight_eq_div_pow,
    Nat.ceilDiv_eq_add_pred_div]
  rfl

theorem searchDtomul_spec (past : Word) {clks : Word} (hclks : clks.toNat ≤ multiplier 7 * 15)
    (n dtomul : ℕ) (dtocyc shift : Word) (hn : dtomul + n = 8)
    (h : Searched clks.toNat dtomul dtocyc) :
    (searchDtomul past clks n dtomul dtocyc shift).1 ≤ 7 ∧
      (searchDtomul past clks n dtomul dtocyc shift).2.1.toNat ≤ 15 ∧
      Searched clks.toNat (searchDtomul past clks n dtomul dtocyc shift).1
        (searchDtomul past clks n dtomul dtocyc shift).2.1 := by
  induction n generalizing dtomul dtocyc shift with
  | zero =>
    have hlast := h.least 7 (by omega)
    omega
  | succ n ih =>
    rw [searchDtomul]
    split
    · rename_i hmore
      have hshort : multiplier dtomul * 15 < clks.toNat := by
        rw [← not_le, ← ceilDiv_le_iff_le_mul (multiplier_pos dtomul), ← h.dtocyc]
        exact Nat.not_le.mpr hmore
      have hnext : dtomul + 1 ≤ 7 := by
        by_contra hlast
        have hseven : dtomul = 7 := by omega
        rw [hseven] at hshort
        omega
      apply ih
      · omega
      constructor
      · rw [getD_dtomulToShift past hnext]
        exact cycles_toNat hclks (shift_le hnext)
      · intro j hj
        rcases Nat.lt_succ_iff_lt_or_eq.mp hj with hlt | rfl
        · exact h.least j hlt
        · exact hshort
    · rename_i hdone
      exact ⟨by omega, Nat.not_lt.mp hdone, h⟩

/-! ## The count -/

/-- The access time of TAAC, in tenths of a nanosecond. -/
def accessTime (taac : Byte) : ℕ :=
  (taacExp.getD (taac.toNat % 8) 0).toNat * (taacMant.getD (taac.toNat / 8 % 16) 0).toNat

/-- 10 access times, and 100 for SD cards. -/
def factor (cardIsSd : Word) : ℕ := if cardIsSd = 0 then 10 else 100

def clocks (cardIsSd : Word) (nsac : Byte) (access : ℕ) : ℕ :=
  (access + 100 * nsac.toNat) * factor cardIsSd

/-- The access time in units of 10 ns, times the clock in units of 100 kHz. -/
def units (taac : Byte) (clk : ℕ) : ℕ :=
  accessTime taac ⌈/⌉ 10 ⌈/⌉ 10 * (clk ⌈/⌉ 100000)

/-- The clocks that are asked for: the access time at `clk` Hz, rounded up. -/
def requested (clk : ℕ) (cardIsSd : Word) (csd : Csd) : ℕ :=
  clocks cardIsSd csd.nsac (accessTime csd.taac * clk ⌈/⌉ 10 ^ 10)

/-- The clocks that are counted, with the units divided by 10000. -/
def counted (clk : ℕ) (cardIsSd : Word) (csd : Csd) : ℕ :=
  clocks cardIsSd csd.nsac (units csd.taac clk ⌈/⌉ 10000)

/-- No operation on the way to the fields wraps at 32 bits. -/
structure NoOverflow (clk : ℕ) (cardIsSd : Word) (csd : Csd) : Prop where
  access : accessTime csd.taac + 9 < 2 ^ 32
  nanoseconds : accessTime csd.taac ⌈/⌉ 10 + 9 < 2 ^ 32
  clock : clk + 99999 < 2 ^ 31
  units : units csd.taac clk + 9999 < 2 ^ 32
  clocks : counted clk cardIsSd csd < 2 ^ 32
  search : ∀ j ≤ 7, counted clk cardIsSd csd + multiplier j < 2 ^ 32

theorem taacExp_le : ∀ e < 8, (taacExp.getD e 0).toNat ≤ 10 ^ 7 := by decide

theorem taacMant_le : ∀ m < 16, (taacMant.getD m 0).toNat ≤ 80 := by decide

theorem accessTime_le (taac : Byte) : accessTime taac ≤ 10 ^ 7 * 80 :=
  Nat.mul_le_mul (taacExp_le _ (Nat.mod_lt _ (by decide))) (taacMant_le _ (Nat.mod_lt _ (by decide)))

variable {clk : Word}

theorem units_le (taac : Byte) (hclk : clk.toNat ≤ 16000000) :
    units taac clk.toNat ≤ 8000000 * 160 := by
  have haccess := accessTime_le taac
  have hunits : accessTime taac ⌈/⌉ 10 ⌈/⌉ 10 ≤ 8000000 := by
    rw [ceilDiv_le_iff_le_mul (by decide), ceilDiv_le_iff_le_mul (by decide)]
    exact haccess
  have hclock : clk.toNat ⌈/⌉ 100000 ≤ 160 := by
    rw [ceilDiv_le_iff_le_mul (by decide)]
    exact hclk
  exact Nat.mul_le_mul hunits hclock

theorem factor_le (cardIsSd : Word) : factor cardIsSd ≤ 100 := by
  rw [factor]
  split
  · decide
  · decide

theorem factor_pos (cardIsSd : Word) : 0 < factor cardIsSd := by
  rw [factor]
  split
  · decide
  · decide

/-- The largest count is just below what the largest multiplier can represent. -/
theorem counted_le (hclk : clk.toNat ≤ 16000000) (cardIsSd : Word) (csd : Csd) :
    counted clk.toNat cardIsSd csd ≤ multiplier 7 * 15 := by
  have hunits : units csd.taac clk.toNat ⌈/⌉ 10000 ≤ 128000 := by
    rw [ceilDiv_le_iff_le_mul (by decide)]
    exact units_le csd.taac hclk
  have hnsac := csd.nsac.isLt
  calc counted clk.toNat cardIsSd csd ≤ (128000 + 100 * 255) * 100 :=
        Nat.mul_le_mul (by omega) (factor_le cardIsSd)
    _ ≤ multiplier 7 * 15 := by decide

theorem multiplier_le {j : ℕ} (hj : j ≤ 7) : multiplier j ≤ 2 ^ 20 :=
  Nat.pow_le_pow_right (by decide) (shift_le hj)

theorem noOverflow (hclk : clk.toNat ≤ 16000000) (cardIsSd : Word) (csd : Csd) :
    NoOverflow clk.toNat cardIsSd csd := by
  have haccess := accessTime_le csd.taac
  have hunits := units_le csd.taac hclk
  have hcounted : counted clk.toNat cardIsSd csd ≤ 2 ^ 20 * 15 := counted_le hclk cardIsSd csd
  have hnanoseconds : accessTime csd.taac ⌈/⌉ 10 ≤ 8 * 10 ^ 7 := by
    rw [ceilDiv_le_iff_le_mul (by decide)]
    exact haccess
  constructor
  · omega
  · omega
  · omega
  · omega
  · omega
  · intro j hj
    have hmultiplier := multiplier_le hj
    omega

theorem divUp_toNat {x : Word} {d : ℕ} (hpos : 0 < d) (hd : d < 2 ^ 32)
    (h : x.toNat + (d - 1) < 2 ^ 32) :
    ((x + BitVec.ofNat 32 (d - 1)) / BitVec.ofNat 32 d).toNat = x.toNat ⌈/⌉ d := by
  have hpred : (BitVec.ofNat 32 (d - 1)).toNat = d - 1 := by
    rw [BitVec.toNat_ofNat]
    omega
  have hself : (BitVec.ofNat 32 d).toNat = d := by
    rw [BitVec.toNat_ofNat]
    omega
  rw [BitVec.toNat_udiv, BitVec.toNat_add, hpred, hself, Nat.mod_eq_of_lt h,
    Nat.ceilDiv_eq_add_pred_div, Nat.add_sub_assoc hpos]

variable {cardIsSd : Word} {csd : Csd}

/-- The access time is converted to clocks without wrapping. -/
theorem scaled_toNat (hno : NoOverflow clk.toNat cardIsSd csd) {access : Word}
    (haccess : access.toNat = accessTime csd.taac) :
    ((((access + 9) / 10 + 9) / 10 * ((clk + 99999) / 100000) + 9999) / 10000).toNat =
      units csd.taac clk.toNat ⌈/⌉ 10000 := by
  have hns : ((access + 9) / 10).toNat = accessTime csd.taac ⌈/⌉ 10 := by
    rw [← haccess]
    exact divUp_toNat (d := 10) (by decide) (by decide) (haccess ▸ hno.access)
  have htens : (((access + 9) / 10 + 9) / 10).toNat = accessTime csd.taac ⌈/⌉ 10 ⌈/⌉ 10 := by
    rw [← hns]
    exact divUp_toNat (d := 10) (by decide) (by decide) (hns ▸ hno.nanoseconds)
  have hclock : ((clk + 99999) / 100000).toNat = clk.toNat ⌈/⌉ 100000 :=
    divUp_toNat (d := 100000) (by decide) (by decide) (hno.clock.trans (by decide))
  have hunits : (((access + 9) / 10 + 9) / 10 * ((clk + 99999) / 100000)).toNat =
      units csd.taac clk.toNat := by
    rw [BitVec.toNat_mul, htens, hclock]
    exact Nat.mod_eq_of_lt (lt_of_le_of_lt (Nat.le_add_right _ 9999) hno.units)
  rw [← hunits]
  exact divUp_toNat (d := 10000) (by decide) (by decide) (hunits ▸ hno.units)

theorem clocks_toNat {x : Word} {nsac : Byte} (h : clocks cardIsSd nsac x.toNat < 2 ^ 32) :
    (if cardIsSd = 0 then (nsac.setWidth 32 * 100 + x) * 10
      else (nsac.setWidth 32 * 100 + x) * 100).toNat = clocks cardIsSd nsac x.toNat := by
  have hnsac := nsac.isLt
  have hwaits : (nsac.setWidth 32 * 100 : Word).toNat = 100 * nsac.toNat := by
    rw [BitVec.toNat_mul, BitVec.toNat_setWidth, show (100 : Word).toNat = 100 from rfl]
    omega
  have hsum : (nsac.setWidth 32 * 100 + x).toNat = x.toNat + 100 * nsac.toNat := by
    rw [BitVec.toNat_add, hwaits, Nat.add_comm]
    exact Nat.mod_eq_of_lt (lt_of_le_of_lt (Nat.le_mul_of_pos_right _ (factor_pos _)) h)
  rw [clocks, factor] at h ⊢
  split
  · rename_i hmmc
    rw [if_pos hmmc] at h
    rw [BitVec.toNat_mul, hsum]
    exact Nat.mod_eq_of_lt h
  · rename_i hsd
    rw [if_neg hsd] at h
    rw [BitVec.toNat_mul, hsum]
    exact Nat.mod_eq_of_lt h

theorem timeoutClks_toNat (hclk : clk.toNat ≤ 16000000) (cardIsSd : Word) (csd : Csd) :
    (timeoutClks clk cardIsSd csd).toNat = counted clk.toNat cardIsSd csd := by
  have hno := noOverflow hclk cardIsSd csd
  have haccess : (taacExp.getD (csd.taac.toNat % 8) 0 *
      taacMant.getD (csd.taac.toNat / 8 % 16) 0).toNat = accessTime csd.taac := by
    rw [BitVec.toNat_mul]
    exact Nat.mod_eq_of_lt (lt_of_le_of_lt (Nat.le_add_right _ 9) hno.access)
  have hcount := hno.clocks
  rw [counted, ← scaled_toNat hno haccess] at hcount ⊢
  exact clocks_toNat hcount

/-! ## The call -/

/-- `dtomul`, `dtocyc` and `shift` after the loop of the call. -/
def afterSearch (stack : Stack) (clk cardIsSd : Word) (csd : Csd) : ℕ × Word × Word :=
  searchDtomul stack.pastDtomulToShift (timeoutClks clk cardIsSd csd) 8 0
    (timeoutClks clk cardIsSd csd) stack.shift

/-- From `s` to `t`, the call neither wraps nor reads past the table, and programs DTOR to represent
`request` clocks. -/
structure Programs (stack : Stack) (clk : Word) (csd : Csd) (request : ℕ) (s t : Mci) : Prop where
  noOverflow : NoOverflow clk.toNat s.cardIsSd csd
  inside : (afterSearch stack clk s.cardIsSd csd).1 ≤ 7
  done : (afterSearch stack clk s.cardIsSd csd).2.1.toNat ≤ 15
  programmed : ∃ dtomul dtocyc, Represents request dtomul dtocyc ∧
    t.writes = (.dtor, BitVec.ofNat 32 (dtomul * 2 ^ 4 + dtocyc)) :: s.writes

def SetsTimeout (stack : Stack) (clk : Word) (csd : Csd) (request : ℕ) (s : Mci) : Prop :=
  ∃ t, mciSetDataTimeout stack clk csd s = .ok () t ∧ Programs stack clk csd request s t

theorem afterSearch_spec (stack : Stack) (hclk : clk.toNat ≤ 16000000) (cardIsSd : Word)
    (csd : Csd) :
    (afterSearch stack clk cardIsSd csd).1 = dtomulFor (counted clk.toNat cardIsSd csd) ∧
      (afterSearch stack clk cardIsSd csd).2.1.toNat = counted clk.toNat cardIsSd csd ⌈/⌉
        multiplier (dtomulFor (counted clk.toNat cardIsSd csd)) ∧
      (afterSearch stack clk cardIsSd csd).1 ≤ 7 ∧
      (afterSearch stack clk cardIsSd csd).2.1.toNat ≤ 15 := by
  have hcount := timeoutClks_toNat hclk cardIsSd csd
  have hle := counted_le hclk cardIsSd csd
  rw [← hcount] at hle ⊢
  have hstart : Searched (timeoutClks clk cardIsSd csd).toNat 0 (timeoutClks clk cardIsSd csd) := by
    constructor
    · rw [Nat.ceilDiv_eq_add_pred_div]
      exact (Nat.div_one _).symm
    · intro j hj
      exact absurd hj (Nat.not_lt_zero j)
  have hsearch : (afterSearch stack clk cardIsSd csd).1 ≤ 7 ∧
      (afterSearch stack clk cardIsSd csd).2.1.toNat ≤ 15 ∧
      Searched (timeoutClks clk cardIsSd csd).toNat (afterSearch stack clk cardIsSd csd).1
        (afterSearch stack clk cardIsSd csd).2.1 :=
    searchDtomul_spec stack.pastDtomulToShift hle 8 0 _ stack.shift rfl hstart
  rcases hsearch with ⟨hinside, hdone, hsearched⟩
  have hfor : dtomulFor (timeoutClks clk cardIsSd csd).toNat =
      (afterSearch stack clk cardIsSd csd).1 := by
    rw [dtomulFor_eq_iff hinside]
    refine ⟨?_, hsearched.least⟩
    rw [← ceilDiv_le_iff_le_mul (multiplier_pos _)]
    exact hsearched.dtocyc ▸ hdone
  refine ⟨hfor.symm, ?_, hinside, hdone⟩
  rw [hfor]
  exact hsearched.dtocyc

theorem fields_toNat {dtomul : ℕ} {dtocyc : Word} (hmul : dtomul ≤ 7) (hcyc : dtocyc.toNat ≤ 15) :
    (BitVec.ofNat 32 dtomul &&& 7) <<< 4 ||| dtocyc &&& 15 =
      BitVec.ofNat 32 (dtomul * 2 ^ 4 + dtocyc.toNat) := by
  have hlow : dtocyc.toNat % 2 ^ 4 < 2 ^ 4 := Nat.mod_lt _ (by decide)
  apply BitVec.eq_of_toNat_eq
  rw [BitVec.toNat_or, BitVec.toNat_shiftLeft, BitVec.toNat_and, BitVec.toNat_and,
    BitVec.toNat_ofNat, BitVec.toNat_ofNat, show (7 : Word).toNat = 2 ^ 3 - 1 from rfl,
    show (15 : Word).toNat = 2 ^ 4 - 1 from rfl, Nat.and_two_pow_sub_one_eq_mod,
    Nat.and_two_pow_sub_one_eq_mod, Nat.mod_eq_of_lt (show dtomul < 2 ^ 32 by omega),
    Nat.mod_eq_of_lt (show dtomul < 2 ^ 3 by omega), Nat.mod_eq_of_lt (show dtomul <<< 4 < 2 ^ 32 by
      rw [Nat.shiftLeft_eq]
      omega), ← Nat.shiftLeft_add_eq_or_of_lt hlow, Nat.shiftLeft_eq]
  omega

theorem mciSetDataTimeout_writes (stack : Stack) (hclk : clk.toNat ≤ 16000000) (csd : Csd)
    (s : Mci) : wp (mciSetDataTimeout stack clk csd) (fun _ t =>
      t.writes = (.dtor, BitVec.ofNat 32 ((afterSearch stack clk s.cardIsSd csd).1 * 2 ^ 4 +
        (afterSearch stack clk s.cardIsSd csd).2.1.toNat)) :: s.writes) never s := by
  rcases afterSearch_spec stack hclk s.cardIsSd csd with ⟨-, -, hinside, hdone⟩
  have hmore : ¬ (afterSearch stack clk s.cardIsSd csd).1 ≥ 8 := by omega
  rw [← fields_toNat hinside hdone, mciSetDataTimeout, wp_bind, wp_get]
  simp only [afterSearch] at hmore ⊢
  simp only [if_neg hmore]
  rfl

theorem fields_inj {dtomul dtocyc dtomul' dtocyc' : ℕ} (hmul : dtomul ≤ 7) (hcyc : dtocyc ≤ 15)
    (hmul' : dtomul' ≤ 7) (hcyc' : dtocyc' ≤ 15)
    (h : BitVec.ofNat 32 (dtomul * 2 ^ 4 + dtocyc) = BitVec.ofNat 32 (dtomul' * 2 ^ 4 + dtocyc')) :
    dtomul = dtomul' ∧ dtocyc = dtocyc' := by
  have hnat := congrArg BitVec.toNat h
  rw [BitVec.toNat_ofNat, BitVec.toNat_ofNat] at hnat
  constructor
  · omega
  · omega

theorem setsTimeout_iff (stack : Stack) (hclk : clk.toNat ≤ 16000000) (csd : Csd) (request : ℕ)
    (s : Mci) : SetsTimeout stack clk csd request s ↔
      Covered request (counted clk.toNat s.cardIsSd csd) := by
  rcases afterSearch_spec stack hclk s.cardIsSd csd with ⟨hmul, hcyc, hinside, hdone⟩
  rcases wp_never.mp (mciSetDataTimeout_writes stack hclk csd s) with ⟨_, t, hrun, hwrites⟩
  rw [← represents_iff (hmul ▸ hinside) rfl]
  rw [hmul, hcyc] at hwrites
  constructor
  · rintro ⟨t', hrun', hprograms⟩
    rw [hrun] at hrun'
    cases hrun'
    rcases hprograms.programmed with ⟨dtomul, dtocyc, hrep, hwritten⟩
    rw [hwrites] at hwritten
    have hdtor := congrArg Prod.snd (List.cons.inj hwritten).1
    rcases fields_inj (hmul ▸ hinside) (hcyc ▸ hdone) hrep.dtomul_le hrep.dtocyc_le hdtor with
      ⟨hd, hc⟩
    rw [hc, hd]
    exact hrep
  · intro hrep
    refine ⟨t, hrun, ?_⟩
    constructor
    · exact noOverflow hclk s.cardIsSd csd
    · exact hinside
    · exact hdone
    · exact ⟨_, _, hrep, hwrites⟩

/-- For what it counts, the timeout is always long enough and tight; for what is asked for it is if
and only if the count covers that. -/
theorem dataTimeout_iff (stack : Stack) (clk : Word) (hclk : clk.toNat ≤ 16000000) (csd : Csd)
    (s : Mci) :
    SetsTimeout stack clk csd (counted clk.toNat s.cardIsSd csd) s ∧
      (SetsTimeout stack clk csd (requested clk.toNat s.cardIsSd csd) s ↔
        Covered (requested clk.toNat s.cardIsSd csd) (counted clk.toNat s.cardIsSd csd)) := by
  constructor
  · rw [setsTimeout_iff stack hclk]
    exact ⟨rfl, le_rfl⟩
  · exact setsTimeout_iff stack hclk csd _ s

/-- An SD card that needs 1 ns and 1000 clocks. -/
theorem dataTimeout_iff_fast :
    SetsTimeout cleanStack 5000000 { cleanStack.csd with taac := 0x08, nsac := 10 }
      (requested 5000000 1 { cleanStack.csd with taac := 0x08, nsac := 10 }) crcFailure :=
  (dataTimeout_iff cleanStack 5000000 (by decide) { cleanStack.csd with taac := 0x08, nsac := 10 }
    crcFailure).2.mpr (by decide)

/-- A card that needs 80 ms at 5 MHz: of 4000000 clocks 458752 are programmed. -/
theorem dataTimeout_short : ¬ ∀ (stack : Stack) (clk : Word) (csd : Csd) (s : Mci),
    1 ≤ clk.toNat → clk.toNat ≤ 16000000 →
      SetsTimeout stack clk csd (requested clk.toNat s.cardIsSd csd) s := by
  intro h
  have hset := h cleanStack 5000000 { cleanStack.csd with taac := 0x7F }
    { crcFailure with cardIsSd := 0 } (by decide) (by decide)
  rw [setsTimeout_iff cleanStack (by decide)] at hset
  exact absurd hset (by decide)

end Armboard.Mmc
