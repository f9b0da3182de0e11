import Armboard.Bits.Masks
import Armboard.Mmc.Timeout

/-! # The card clock

`mci_set_mode` cuts the quotient of the two rates off twice, so the clock comes out at
the rate that was asked for or above it. A request above half the master clock wraps
around and is taken for one that is too low.
-/

namespace Armboard.Mmc
open Exec

/-! ## The rate -/

def clockRate (clkdiv : ℕ) : ℚ := masterClock.toNat / (2 * (clkdiv + 1))

def clkdivField (mr : Word) : ℕ := mr.toNat % 2 ^ 8

def TooSlow (hz : ℕ) : Prop := (hz : ℚ) < clockRate 255

/-- What is printed for a rate that CLKDIV cannot reach. -/
def tooLow (hz : Word) : Output :=
  .printf "mmc: clock %lu too low; setting CLKDIV to 255\n" [.word hz]

/-- From `s` to `t` the mode register is written, with a clock of `hz` at most; a rate below the
slowest one, and no other, is answered with 255 and the message. -/
def Within (hz : Word) (s t : Mci) : Prop :=
  ∃ mr, t.writes = (.mr, mr) :: s.writes ∧
    (¬ TooSlow hz.toNat → clockRate (clkdivField mr) ≤ hz.toNat) ∧
    (TooSlow hz.toNat ↔ clkdivField mr = 255 ∧ t.output = tooLow hz :: s.output)

theorem masterClock_toNat : masterClock.toNat = 59904000 := rfl

theorem clockRate_pos (clkdiv : ℕ) : 0 < clockRate clkdiv := by
  rw [clockRate, masterClock_toNat]
  positivity

theorem clockRate_le_iff (clkdiv hz : ℕ) :
    clockRate clkdiv ≤ hz ↔ 59904000 ≤ hz * (2 * (clkdiv + 1)) := by
  rw [clockRate, masterClock_toNat, div_le_iff₀ (by positivity)]
  exact_mod_cast Iff.rfl

theorem le_clockRate_iff (clkdiv hz : ℕ) :
    (hz : ℚ) ≤ clockRate clkdiv ↔ hz * (2 * (clkdiv + 1)) ≤ 59904000 := by
  rw [clockRate, masterClock_toNat, le_div_iff₀ (by positivity)]
  exact_mod_cast Iff.rfl

theorem tooSlow_iff (hz : ℕ) : TooSlow hz ↔ 512 * hz < 59904000 := by
  rw [TooSlow, ← not_le, clockRate_le_iff]
  omega

/-- More dividers give slower clocks, and 255 the slowest. -/
theorem slowest_le {clkdiv : ℕ} (h : clkdiv ≤ 255) : 117000 ≤ clockRate clkdiv := by
  have hle : ((117000 : ℕ) : ℚ) ≤ clockRate clkdiv := by
    rw [le_clockRate_iff]
    omega
  exact_mod_cast hle

/-! ## The divider -/

def quotient (hz : ℕ) : ℕ := 59904000 / hz / 2

def divider (hz : ℕ) : ℕ := if 1 ≤ quotient hz ∧ quotient hz ≤ 256 then quotient hz - 1 else 255

variable {hz : ℕ}

theorem quotient_mul_le (hz : ℕ) : quotient hz * (2 * hz) ≤ 59904000 := by
  rw [quotient, Nat.div_div_eq_div_mul, Nat.mul_comm hz 2]
  exact Nat.div_mul_le_self _ _

theorem lt_quotient_mul (hpos : 0 < hz) : 59904000 < (quotient hz + 1) * (2 * hz) := by
  rw [quotient, Nat.div_div_eq_div_mul, Nat.mul_comm hz 2, Nat.mul_comm]
  exact Nat.lt_mul_div_succ _ (by omega)

theorem dvd_iff_quotient (hz : ℕ) : 2 * hz ∣ 59904000 ↔ quotient hz * (2 * hz) = 59904000 := by
  rw [quotient, Nat.div_div_eq_div_mul, Nat.mul_comm hz 2]
  exact ⟨Nat.div_mul_cancel, fun h => ⟨_, (Nat.mul_comm _ _).trans h |>.symm⟩⟩

/-- A quotient beyond 256 stands for a rate below the slowest one. -/
theorem slow_of_quotient (h : 257 ≤ quotient hz) : 514 * hz ≤ 59904000 := by
  have hle := quotient_mul_le hz
  have hmul : 257 * (2 * hz) ≤ quotient hz * (2 * hz) := Nat.mul_le_mul_right _ h
  omega

theorem divider_le (hz : ℕ) : divider hz ≤ 255 := by
  rw [divider]
  split <;> omega

theorem quotient_le (hz : ℕ) : quotient hz ≤ 59904000 :=
  (Nat.div_le_self _ _).trans (Nat.div_le_self _ _)

theorem clocks_comm (hz : ℕ) : hz * (2 * quotient hz) = quotient hz * (2 * hz) := by ring

/-- The clock comes out at the rate or above it. -/
theorem le_clockRate_divider (hquotient : 1 ≤ quotient hz) : (hz : ℚ) ≤ clockRate (divider hz) := by
  rw [le_clockRate_iff, divider]
  split
  · have hsucc : quotient hz - 1 + 1 = quotient hz := by omega
    rw [hsucc, clocks_comm]
    exact quotient_mul_le hz
  · have hslow := slow_of_quotient (show 257 ≤ quotient hz by omega)
    omega

/-- It comes out at the rate when the division goes out even. -/
theorem clockRate_divider_le_iff (hquotient : 1 ≤ quotient hz) :
    clockRate (divider hz) ≤ hz ↔ 2 * hz ∣ 59904000 ∧ 59904000 ≤ 512 * hz := by
  have hle := quotient_mul_le hz
  rw [clockRate_le_iff, divider, dvd_iff_quotient]
  split
  · rename_i hrange
    have hsucc : quotient hz - 1 + 1 = quotient hz := by omega
    have hmul : quotient hz * (2 * hz) ≤ 256 * (2 * hz) := Nat.mul_le_mul_right _ hrange.2
    rw [hsucc, clocks_comm]
    omega
  · have hslow := slow_of_quotient (show 257 ≤ quotient hz by omega)
    omega

/-! ## The mode register -/

/-- The bits of the register above CLKDIV that a divider would need. -/
theorem and_not_255_eq_zero (clkdiv : Word) : clkdiv &&& ~~~255 = 0 ↔ clkdiv.toNat < 256 := by
  have hmask : ∀ i < 32, (~~~255 : Word).getLsbD i = decide (8 ≤ i) := by decide
  rw [← BitVec.toNat_inj, Bits.toNat_and_high clkdiv hmask, show (0 : Word).toNat = 0 from rfl]
  omega

def modeRegister (clkdiv blklen : Word) : Word :=
  (clkdiv &&& (0xff : Word)) ||| ((blklen &&& 0xfffc) &&& 0xffff) <<< 16

theorem clkdivField_modeRegister {clkdiv : Word} (h : clkdiv.toNat ≤ 255) (blklen : Word) :
    clkdivField (modeRegister clkdiv blklen) = clkdiv.toNat := by
  have hlow : (modeRegister clkdiv blklen).setWidth 8 = clkdiv.setWidth 8 := by
    have hmask : ∀ i < 8, (0xff : Word).getLsbD i = true := by decide
    rw [modeRegister]
    apply BitVec.eq_of_getLsbD_eq
    intro i hi
    have hbelow : i < 16 := by omega
    rw [BitVec.getLsbD_setWidth, BitVec.getLsbD_setWidth, BitVec.getLsbD_or, BitVec.getLsbD_and,
      BitVec.getLsbD_shiftLeft, hmask i hi, decide_eq_true hbelow]
    simp
  have hnat := congrArg BitVec.toNat hlow
  rw [BitVec.toNat_setWidth, BitVec.toNat_setWidth] at hnat
  rw [clkdivField, hnat]
  omega

/-- The subtraction wraps when the quotient is 0. -/
theorem clkdiv_toNat (hz : Word) : (masterClock / hz / 2 - 1).toNat =
    if quotient hz.toNat = 0 then 2 ^ 32 - 1 else quotient hz.toNat - 1 := by
  have hle := quotient_le hz.toNat
  have hquotient : (masterClock / hz / 2).toNat = quotient hz.toNat := by
    rw [BitVec.toNat_udiv, BitVec.toNat_udiv, masterClock_toNat]
    rfl
  rw [BitVec.toNat_sub, hquotient, show (1 : Word).toNat = 1 from rfl]
  split <;> omega

theorem mciSetMode_ok {hz : Word} (hpos : hz ≠ 0) (blklen : Word) (s : Mci) :
    ∃ mr, clkdivField mr = divider hz.toNat ∧ mciSetMode hz blklen s =
      .ok () { s with
        writes := (.mr, mr) :: s.writes
        output := if 1 ≤ quotient hz.toNat ∧ quotient hz.toNat ≤ 256 then s.output
          else tooLow hz :: s.output } := by
  have hclkdiv := clkdiv_toNat hz
  have hle := quotient_le hz.toNat
  by_cases hrange : 1 ≤ quotient hz.toNat ∧ quotient hz.toNat ≤ 256
  · rw [if_neg (by omega)] at hclkdiv
    have hfits : ¬ (masterClock / hz / 2 - 1) &&& ~~~255 ≠ 0 := by
      rw [not_not, and_not_255_eq_zero]
      omega
    refine ⟨modeRegister (masterClock / hz / 2 - 1) blklen, ?_, ?_⟩
    · rw [clkdivField_modeRegister (by omega), hclkdiv, divider, if_pos hrange]
    · rw [mciSetMode, if_neg hpos, if_pos hrange]
      simp only [if_neg hfits]
      rfl
  · have hlarge : (masterClock / hz / 2 - 1) &&& ~~~255 ≠ 0 := by
      rw [ne_eq, and_not_255_eq_zero, hclkdiv]
      split <;> omega
    refine ⟨modeRegister 255 blklen, ?_, ?_⟩
    · rw [clkdivField_modeRegister (by decide), divider, if_neg hrange]
      rfl
    · rw [mciSetMode, if_neg hpos, if_neg hrange]
      simp only [if_pos hlarge]
      rfl

/-! ## Which rates come out right -/

/-- The message stands for a quotient outside 1 to 256, which is not what too slow means. -/
theorem within_iff (hpos : 0 < hz) :
    ((¬ TooSlow hz → clockRate (divider hz) ≤ hz) ∧
      (TooSlow hz ↔ divider hz = 255 ∧ ¬ (1 ≤ quotient hz ∧ quotient hz ≤ 256))) ↔
        2 * hz ∣ 59904000 ∨ 514 * hz ≤ 59904000 := by
  have hle := quotient_mul_le hz
  have hlt := lt_quotient_mul hpos
  rw [tooSlow_iff]
  rcases Nat.eq_zero_or_pos (quotient hz) with hzero | hquotient
  · -- the request is above half the master clock, and is called too low
    have hdvd := dvd_iff_quotient hz
    rw [divider, if_neg (by omega), hdvd, hzero]
    rw [hzero] at hlt
    omega
  rw [clockRate_divider_le_iff hquotient]
  by_cases hrange : quotient hz ≤ 256
  · -- no message, and the rate is right if the division goes out even
    have hmul : (quotient hz + 1) * (2 * hz) ≤ 257 * (2 * hz) := Nat.mul_le_mul_right _ (by omega)
    have heven : 2 * hz ∣ 59904000 → 59904000 ≤ 512 * hz := by
      rw [dvd_iff_quotient]
      intro h
      have hmul' : quotient hz * (2 * hz) ≤ 256 * (2 * hz) := Nat.mul_le_mul_right _ hrange
      omega
    constructor
    · intro h
      have hfast : ¬ 512 * hz < 59904000 := fun hslow => (h.2.mp hslow).2 ⟨hquotient, hrange⟩
      exact .inl (h.1 hfast).1
    · intro h
      have hdvd : 2 * hz ∣ 59904000 := h.resolve_right (by omega)
      have hfast := heven hdvd
      exact ⟨fun _ => ⟨hdvd, hfast⟩, by omega⟩
  · -- the message is right
    have hslow := slow_of_quotient (show 257 ≤ quotient hz by omega)
    rw [divider, if_neg (by omega)]
    omega

def SetsClock (hz blklen : Word) (s : Mci) : Prop :=
  wp (mciSetMode hz blklen) (fun _ t => Within hz s t) never s

theorem setsClock_iff {hz : Word} (hpos : hz ≠ 0) (blklen : Word) (s : Mci) :
    SetsClock hz blklen s ↔ 2 * hz.toNat ∣ 59904000 ∨ 514 * hz.toNat ≤ 59904000 := by
  have hnat : 0 < hz.toNat := BitVec.toNat_pos_of_ne_zero hpos
  rcases mciSetMode_ok hpos blklen s with ⟨mr, hfield, hrun⟩
  rw [SetsClock, wp, hrun, ← within_iff hnat, ← hfield]
  have hprinted : (if 1 ≤ quotient hz.toNat ∧ quotient hz.toNat ≤ 256 then s.output
      else tooLow hz :: s.output) = tooLow hz :: s.output ↔
        ¬ (1 ≤ quotient hz.toNat ∧ quotient hz.toNat ≤ 256) := by
    split <;> simp_all
  rw [← hprinted]
  constructor
  · rintro ⟨mr', hwrites, hwithin⟩
    rw [← (Prod.mk.inj (List.cons.inj hwrites).1).2] at hwithin
    exact hwithin
  · intro hwithin
    exact ⟨mr, rfl, hwithin⟩

/-! ## The timeout in real time -/

/-- The clocks that the two fields of DTOR stand for. -/
def timeoutField (dtor : Word) : ℕ := dtor.toNat % 2 ^ 4 * multiplier (dtor.toNat / 2 ^ 4 % 2 ^ 3)

/-- The data timeout that is set for `clk` Hz, at the clock that is set for it, takes `time` seconds
or more. -/
def Lasts (stack : Stack) (clk : Word) (csd : Csd) (blklen : Word) (time : ℚ) (s : Mci) : Prop :=
  wp (do mciSetDataTimeout stack clk csd; mciSetMode clk blklen) (fun _ t =>
    ∃ mr dtor, t.writes = (.mr, mr) :: (.dtor, dtor) :: s.writes ∧
      time ≤ timeoutField dtor / clockRate (clkdivField mr)) never s

def programmed (t : ℕ) : ℕ := t ⌈/⌉ multiplier (dtomulFor t) * multiplier (dtomulFor t)

/-- What the card asks for in seconds: the access time and 100 NSAC clocks, 10 or 100 times. -/
def requestedTime (clk : ℕ) (cardIsSd : Word) (csd : Csd) : ℚ :=
  (accessTime csd.taac / 10 ^ 10 + 100 * csd.nsac.toNat / clk) * factor cardIsSd

theorem timeoutField_eq {dtomul dtocyc : ℕ} (hmul : dtomul ≤ 7) (hcyc : dtocyc ≤ 15) :
    timeoutField (BitVec.ofNat 32 (dtomul * 2 ^ 4 + dtocyc)) = dtocyc * multiplier dtomul := by
  have hcycles : (dtomul * 2 ^ 4 + dtocyc) % 2 ^ 32 % 2 ^ 4 = dtocyc := by omega
  have hshift : (dtomul * 2 ^ 4 + dtocyc) % 2 ^ 32 / 2 ^ 4 % 2 ^ 3 = dtomul := by omega
  rw [timeoutField, BitVec.toNat_ofNat, hcycles, hshift]

theorem le_programmed (t : ℕ) : t ≤ programmed t := by
  rw [programmed, Nat.mul_comm, ← ceilDiv_le_iff_le_mul (multiplier_pos _)]

variable {clk : Word}

theorem lasts_iff (stack : Stack) (hpos : clk ≠ 0) (hclk : clk.toNat ≤ 16000000) (csd : Csd)
    (blklen : Word) (time : ℚ) (s : Mci) : Lasts stack clk csd blklen time s ↔
      time ≤ programmed (counted clk.toNat s.cardIsSd csd) / clockRate (divider clk.toNat) := by
  rcases afterSearch_spec stack hclk s.cardIsSd csd with ⟨hmul, hcyc, hinside, hdone⟩
  rcases wp_never.mp (mciSetDataTimeout_writes stack hclk csd s) with ⟨_, t, hrun, hwrites⟩
  rcases mciSetMode_ok hpos blklen t with ⟨mr, hfield, hmode⟩
  have hdtor := timeoutField_eq hinside hdone
  have hall : mciSetDataTimeout stack clk csd s = .ok () t := hrun
  rw [Lasts, wp, bind_ok hall, hmode, ← hfield, programmed, ← hcyc, ← hmul, ← hdtor]
  constructor
  · rintro ⟨mr', dtor, hboth, htime⟩
    change (Reg.mr, mr) :: t.writes = _ at hboth
    rw [hwrites] at hboth
    cases hboth
    exact htime
  · intro htime
    exact ⟨mr, _, congrArg ((Reg.mr, mr) :: ·) hwrites, htime⟩

/-! ## Which clocks keep the timeout -/

theorem quotient_pos {hz : ℕ} (hpos : 0 < hz) (hle : hz ≤ 16000000) : 1 ≤ quotient hz := by
  have hlt := lt_quotient_mul hpos
  by_contra hzero
  have heq : quotient hz = 0 := by omega
  rw [heq] at hlt
  omega

/-- A card that needs 1 ns is given 10 clocks, and no more are programmed. -/
theorem counted_oneNanosecond {hz : ℕ} (hpos : 0 < hz) (hle : hz ≤ 16000000) :
    counted hz 0 { cleanStack.csd with taac := 0x08 } = 10 := by
  have haccess : accessTime 0x08 ⌈/⌉ 10 ⌈/⌉ 10 = 1 := by decide
  have hclock : 1 ≤ hz ⌈/⌉ 100000 ∧ hz ⌈/⌉ 100000 ≤ 160 := by
    rw [Nat.ceilDiv_eq_add_pred_div]
    omega
  have hclks : units 0x08 hz ⌈/⌉ 10000 = 1 := by
    rw [units, haccess, Nat.ceilDiv_eq_add_pred_div]
    omega
  rw [counted, hclks]
  rfl

/-- A card that needs 80 ms is given a tenth of the clocks it asks for. -/
theorem counted_eightyMilliseconds (hz : ℕ) :
    counted hz 0 { cleanStack.csd with taac := 0x7F } = 8000 * (hz ⌈/⌉ 100000) := by
  have haccess : accessTime 0x7F ⌈/⌉ 10 ⌈/⌉ 10 = 8000000 := by decide
  have hclks : units 0x7F hz ⌈/⌉ 10000 = 800 * (hz ⌈/⌉ 100000) := by
    rw [units, haccess, Nat.ceilDiv_eq_add_pred_div]
    omega
  have hclocks : counted hz 0 { cleanStack.csd with taac := 0x7F } =
      (800 * (hz ⌈/⌉ 100000) + 100 * 0) * 10 := by
    rw [counted, hclks]
    rfl
  rw [hclocks]
  omega

/-- One multiplier is at most 16 times the one before. -/
theorem multiplier_succ_le : ∀ d < 7, multiplier (d + 1) ≤ 16 * multiplier d := by decide

theorem programmed_lt {t : ℕ} (ht : 15 < t) (hd : dtomulFor t ≤ 7) :
    15 * programmed t < 31 * t := by
  have hround : t ⌈/⌉ multiplier (dtomulFor t) * multiplier (dtomulFor t) <
      t + multiplier (dtomulFor t) := by
    have hpos := multiplier_pos (dtomulFor t)
    rw [Nat.ceilDiv_eq_add_pred_div]
    have hle := Nat.div_mul_le_self (t + multiplier (dtomulFor t) - 1) (multiplier (dtomulFor t))
    omega
  rcases (dtomulFor_eq_iff hd).mp rfl with ⟨hfits, hleast⟩
  rw [programmed]
  cases hdtomul : dtomulFor t with
  | zero =>
    have hone : multiplier 0 = 1 := rfl
    rw [hdtomul, hone] at hfits
    omega
  | succ d =>
    have hstep := multiplier_succ_le d (by omega)
    have hshort := hleast d (by omega)
    rw [hdtomul] at hround
    omega

/-- At any clock the driver can be set up for, a card that needs 80 ms is not given them. -/
theorem eightyMilliseconds_short (stack : Stack) (hpos : clk ≠ 0) (hclk : clk.toNat ≤ 16000000)
    (blklen : Word) {s : Mci} (hs : s.cardIsSd = 0) :
    ¬ Lasts stack clk { cleanStack.csd with taac := 0x7F } blklen
      (requestedTime clk.toNat s.cardIsSd { cleanStack.csd with taac := 0x7F }) s := by
  have hnat : 0 < clk.toNat := BitVec.toNat_pos_of_ne_zero hpos
  have hcounted := counted_eightyMilliseconds clk.toNat
  have hclocks : 1 ≤ clk.toNat ⌈/⌉ 100000 ∧
      100000 * (clk.toNat ⌈/⌉ 100000) < clk.toNat + 100000 := by
    rw [Nat.ceilDiv_eq_add_pred_div]
    omega
  rcases afterSearch_spec stack hclk 0 { cleanStack.csd with taac := 0x7F } with
    ⟨hmul, -, hinside, -⟩
  rw [hmul, hcounted] at hinside
  have hprogrammed : 15 * programmed (8000 * (clk.toNat ⌈/⌉ 100000)) <
      31 * (8000 * (clk.toNat ⌈/⌉ 100000)) := programmed_lt (by omega) hinside
  have haccess : accessTime 0x7F = 800000000 := by decide
  have hrequested : requestedTime clk.toNat 0 { cleanStack.csd with taac := 0x7F } = 4 / 5 := by
    have hnsac : ((cleanStack.csd.nsac.toNat : ℕ) : ℚ) = 0 := by simp [cleanStack]
    rw [requestedTime, haccess, hnsac, factor, if_pos rfl]
    norm_num
  have hrate := clockRate_pos (divider clk.toNat)
  have hfast := le_clockRate_divider (quotient_pos hnat hclk)
  have hslowest := slowest_le (divider_le clk.toNat)
  have hprogrammed' : (15 * programmed (8000 * (clk.toNat ⌈/⌉ 100000)) : ℚ) <
      31 * (8000 * (clk.toNat ⌈/⌉ 100000 : ℕ)) := by exact_mod_cast hprogrammed
  have hclocks' : (100000 * (clk.toNat ⌈/⌉ 100000 : ℕ) : ℚ) < clk.toNat + 100000 := by
    exact_mod_cast hclocks.2
  rw [lasts_iff stack hpos hclk, hs, hcounted, hrequested, not_le, div_lt_iff₀ hrate]
  linarith

/-- What is counted in clocks of `clk` takes as long as it would at `clk` iff the division goes out
even and CLKDIV has room for the quotient. -/
theorem counted_lasts_iff (hpos : clk ≠ 0) (hclk : clk.toNat ≤ 16000000) :
    (∀ stack csd blklen s, Lasts stack clk csd blklen
      (counted clk.toNat s.cardIsSd csd / clk.toNat) s) ↔
        2 * clk.toNat ∣ 59904000 ∧ 59904000 ≤ 512 * clk.toNat := by
  have hnat : 0 < clk.toNat := BitVec.toNat_pos_of_ne_zero hpos
  have hnat' : (0 : ℚ) < clk.toNat := by exact_mod_cast hnat
  have hrate := clockRate_pos (divider clk.toNat)
  rw [← clockRate_divider_le_iff (quotient_pos hnat hclk)]
  constructor
  · intro h
    have hfast := h cleanStack { cleanStack.csd with taac := 0x08 } 0
      { crcFailure with cardIsSd := 0 }
    have hten : programmed 10 = 10 := by decide
    rw [lasts_iff cleanStack hpos hclk, counted_oneNanosecond hnat hclk, hten,
      div_le_div_iff_of_pos_left (by norm_num) hnat' hrate] at hfast
    exact hfast
  · intro hle stack csd blklen s
    have hclks : (counted clk.toNat s.cardIsSd csd : ℚ) ≤
        programmed (counted clk.toNat s.cardIsSd csd) := by exact_mod_cast le_programmed _
    rw [lasts_iff stack hpos hclk]
    exact div_le_div₀ (Nat.cast_nonneg _) hclks hrate hle

/-- For which rates the clock that `mci_set_mode` sets is right, and for which it keeps the timeouts
that `mci_set_data_timeout` counts in it. What the cards ask for is kept at no rate. -/
theorem cardClock_iff (hz : Word) (hpos : hz ≠ 0) :
    (∀ blklen s, SetsClock hz blklen s ↔
      2 * hz.toNat ∣ masterClock.toNat ∨ 514 * hz.toNat ≤ masterClock.toNat) ∧
    (hz.toNat ≤ 16000000 →
      ((∀ stack csd blklen s, Lasts stack hz csd blklen
        (counted hz.toNat s.cardIsSd csd / hz.toNat) s) ↔
          2 * hz.toNat ∣ masterClock.toNat ∧ masterClock.toNat ≤ 512 * hz.toNat) ∧
      ¬ ∀ stack csd blklen s, Lasts stack hz csd blklen
        (requestedTime hz.toNat s.cardIsSd csd) s) := by
  rw [masterClock_toNat]
  apply And.intro
  · exact fun blklen s => setsClock_iff hpos blklen s
  · intro hclk
    apply And.intro
    · exact counted_lasts_iff hpos hclk
    · intro h
      exact eightyMilliseconds_short cleanStack hpos hclk 0 rfl
        (h cleanStack { cleanStack.csd with taac := 0x7F } 0 { crcFailure with cardIsSd := 0 })

/-- A sixth of the master clock. -/
theorem cardClock_iff_sixth : SetsClock 9984000 512 crcFailure ∧
    Lasts cleanStack 9984000 { cleanStack.csd with taac := 0x26 } 512
      (counted 9984000 1 { cleanStack.csd with taac := 0x26 } / 9984000) crcFailure := by
  have hclock := cardClock_iff 9984000 (by decide)
  have hkept := (hclock.2 (by decide)).1.mpr ⟨⟨3, rfl⟩, by decide⟩
  exact ⟨(hclock.1 512 crcFailure).mpr (.inl ⟨3, rfl⟩),
    hkept cleanStack { cleanStack.csd with taac := 0x26 } 512 crcFailure⟩

/-- The clock for 5 MHz has 5990400 Hz. -/
theorem clock_exceeds_request :
    ¬ ∀ (hz blklen : Word) (s : Mci), hz ≠ 0 → SetsClock hz blklen s := by
  intro h
  have hset := h clkPp 512 crcFailure (by decide)
  have hclk : clkPp.toNat = 5000000 := rfl
  rw [setsClock_iff (by decide), hclk] at hset
  omega

end Armboard.Mmc
