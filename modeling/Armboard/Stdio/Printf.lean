import Armboard.Stdio.Conversions
import Armboard.Text.Runs

/-! # Formats as C means them

What C's `printf` sends for the same pieces, and when the code agrees. A piece that
goes wrong is never made up for by the pieces behind it: it leaves one of the two
outputs ahead by a run of zeros, spaces or percent signs, and that run stays.
-/

namespace Armboard.Stdio
open Exec Text

/-! ## What is meant -/

def zeroFill (w : ℕ) (l : List Byte) : List Byte := List.replicate (w - l.length) 0x30 ++ l

def signedDecimal (w : ℕ) (num : Word) : List Byte :=
  let digits := numeral (digitChar 0) 10 num.toInt.natAbs
  if num.toInt < 0 then 0x2D :: zeroFill (w - 1) digits else zeroFill w digits

/-- What a conversion of width `w` is meant to send for argument `k`. -/
def Kind.meant (kind : Kind) (va : VaList) (k w : ℕ) : List Byte :=
  match kind with
  | .s => stringText (va.str k)
  | .c => [(va.int k).setWidth 8]
  | .d => signedDecimal w (va.int k)
  | .x => zeroFill w (numeral (digitChar 0) 16 (va.int k).toNat)
  | .X => zeroFill w (numeral (digitChar large) 16 (va.int k).toNat)
  | .percent => [0x25]

def Item.meant (va : VaList) (k : ℕ) : Item → List Byte
  | .literal c _ => [c]
  | .conversion width kind => kind.meant va k (widthOf width)

/-- What is meant for the pieces of a format, with the arguments from `k` on. -/
def meantAll (va : VaList) : ℕ → List Item → List Byte
  | _, [] => []
  | k, i :: items => i.meant va k ++ meantAll va (k + i.args) items

def FitsWidth (width : List (Fin 10)) : Prop :=
  widthOf width < 2 ^ 31 - 1 ∨ widthOf width = 2 ^ 31 - 1 ∧ width.head? = some 0

/-- The pieces that the code treats as C does. -/
def Item.Follows (va : VaList) (k : ℕ) : Item → Prop
  | .literal _ _ => True
  | .conversion width kind =>
    match kind with
    | .s => True
    | .c => True
    | .d => 0 ≤ (va.int k).toInt ∧ FitsWidth width
    | .x => FitsWidth width
    | .X => FitsWidth width
    | .percent => False

def FollowsAll (va : VaList) : ℕ → List Item → Prop
  | _, [] => True
  | k, i :: items => i.Follows va k ∧ FollowsAll va (k + i.args) items

/-! ## Outputs that differ -/

/-- How what is sent for a piece differs from what is meant: a percent sign too many, a number
without its sign, or a number with fewer zeros before it or with spaces behind it. -/
inductive Deviates (sent meant : List Byte) : Prop
  | percent (hs : sent = [0x25, 0x25, 0x25]) (hm : meant = [0x25])
  | unsigned (a : ℕ) (u : Byte) (x y : List Byte) (hzero : u ≠ 0x30) (hminus : u ≠ 0x2D)
      (hs : sent = List.replicate a 0x30 ++ u :: x) (hm : meant = 0x2D :: y)
  | filled (a b m : ℕ) (d : Byte) (x : List Byte) (hpercent : d ≠ 0x25) (hspace : d ≠ 0x20)
      (h : a < b ∨ a = b ∧ 0 < m)
      (hs : sent = List.replicate a 0x30 ++ (d :: x ++ List.replicate m 0x20))
      (hm : meant = List.replicate b 0x30 ++ d :: x)

def Judged (ps : List (List Byte × List Byte)) : Prop := ∀ p ∈ ps, p.1 = p.2 ∨ Deviates p.1 p.2

variable {ps : List (List Byte × List Byte)}

/-- What is meant never catches up with a run of zeros. -/
theorem zeros_ahead (h : Judged ps) : ∀ j, 0 < j →
    ps.flatMap Prod.fst ≠ List.replicate j 0x30 ++ ps.flatMap Prod.snd := by
  induction ps with
  | nil =>
    intro j hj heq
    have hlen := congrArg List.length heq
    simp only [List.flatMap_nil, List.length_append, List.length_replicate, List.length_nil] at hlen
    omega
  | cons p ps ih =>
    obtain ⟨hp, hps⟩ := List.forall_mem_cons.mp h
    intro j hj heq
    rw [List.flatMap_cons, List.flatMap_cons] at heq
    rcases hp with hsame | hdev
    · rw [hsame] at heq
      exact ih hps j hj (run_cancel p.2 heq.symm).symm
    · obtain ⟨j, rfl⟩ : ∃ i, j = i + 1 := ⟨j - 1, by omega⟩
      cases hdev with
      | percent hs hm =>
        rw [hs, hm] at heq
        exact absurd (List.cons.inj heq).1 (by decide)
      | unsigned a u l r hzero hminus hs hm =>
        rw [hs, hm, List.append_assoc] at heq
        exact hminus (run_end hzero (by decide) heq)
      | filled a b m d l hpercent hspace hab hs hm =>
        have hle : a ≤ j + 1 + b := by omega
        have hrun : List.replicate (j + 1) 0x30 ++ (List.replicate b 0x30 ++ (d :: l ++
            ps.flatMap Prod.snd)) = List.replicate (j + 1 + b) 0x30 ++ (d :: l ++
            ps.flatMap Prod.snd) := by
          rw [← List.append_assoc, ← List.replicate_add]
        rw [hs, hm, List.append_assoc, List.append_assoc, List.append_assoc, hrun] at heq
        have htail := run_cancel _ (run_diff hle heq).symm
        cases m with
        | zero => exact ih hps _ (by omega) htail.symm
        | succ m =>
          obtain ⟨i, hi⟩ : ∃ i, j + 1 + b - a = i + 1 := ⟨j + b - a, by omega⟩
          rw [hi] at htail
          exact absurd (List.cons.inj htail).1 (by decide)

/-- What is sent never falls back behind a run of percent signs or spaces. -/
theorem marks_ahead (h : Judged ps) {c : Byte} (hc : c = 0x25 ∨ c = 0x20) : ∀ j, 0 < j →
    List.replicate j c ++ ps.flatMap Prod.fst ≠ ps.flatMap Prod.snd := by
  induction ps with
  | nil =>
    intro j hj heq
    have hlen := congrArg List.length heq
    simp only [List.flatMap_nil, List.length_append, List.length_replicate, List.length_nil] at hlen
    omega
  | cons p ps ih =>
    obtain ⟨hp, hps⟩ := List.forall_mem_cons.mp h
    intro j hj heq
    rw [List.flatMap_cons, List.flatMap_cons] at heq
    rcases hp with hsame | hdev
    · rw [hsame] at heq
      exact ih hps j hj (run_cancel p.2 heq)
    · obtain ⟨j, rfl⟩ : ∃ i, j = i + 1 := ⟨j - 1, by omega⟩
      cases hdev with
      | percent hs hm =>
        rw [hs, hm] at heq
        obtain ⟨rfl, htail⟩ := List.cons.inj heq
        refine ih hps (j + 3) (by omega) ?_
        rw [List.replicate_add, List.append_assoc]
        exact htail
      | unsigned a u l r hzero hminus hs hm =>
        rw [hm] at heq
        have hhead : c = 0x2D := (List.cons.inj heq).1
        rcases hc with rfl | rfl <;> exact absurd hhead (by decide)
      | filled a b m d l hpercent hspace hab hs hm =>
        rw [hm] at heq
        cases b with
        | zero =>
          have hhead : c = d := (List.cons.inj heq).1
          rcases hc with rfl | rfl
          · exact hpercent hhead.symm
          · exact hspace hhead.symm
        | succ b =>
          have hhead : c = 0x30 := (List.cons.inj heq).1
          rcases hc with rfl | rfl <;> exact absurd hhead (by decide)

/-- The first piece that deviates shows, whatever follows. -/
theorem Deviates.ne {x y : List Byte} (hd : Deviates x y) (h : Judged ps) :
    x ++ ps.flatMap Prod.fst ≠ y ++ ps.flatMap Prod.snd := by
  intro heq
  cases hd with
  | percent hs hm =>
    rw [hs, hm] at heq
    exact marks_ahead h (Or.inl rfl) 2 (by decide) (List.cons.inj heq).2
  | unsigned a u l r hzero hminus hs hm =>
    rw [hs, hm, List.append_assoc] at heq
    exact hminus (run_end (j := 0) hzero (by decide) heq)
  | filled a b m d l hpercent hspace hab hs hm =>
    have hle : a ≤ b := by omega
    rw [hs, hm, List.append_assoc, List.append_assoc, List.append_assoc] at heq
    have htail := run_cancel _ (run_diff hle heq).symm
    rcases hab with hlt | ⟨rfl, hpos⟩
    · cases m with
      | zero => exact zeros_ahead h _ (by omega) htail.symm
      | succ m =>
        obtain ⟨i, hi⟩ : ∃ i, b - a = i + 1 := ⟨b - a - 1, by omega⟩
        rw [hi] at htail
        exact absurd (List.cons.inj htail).1 (by decide)
    · rw [Nat.sub_self] at htail
      exact marks_ahead h (Or.inr rfl) m hpos htail.symm

theorem flatMap_eq_iff (h : Judged ps) :
    ps.flatMap Prod.fst = ps.flatMap Prod.snd ↔ ∀ p ∈ ps, p.1 = p.2 := by
  induction ps with
  | nil => simp
  | cons p ps ih =>
    obtain ⟨hp, hps⟩ := List.forall_mem_cons.mp h
    rw [List.flatMap_cons, List.flatMap_cons, List.forall_mem_cons]
    rcases hp with hsame | hdev
    · rw [hsame, List.append_cancel_left_eq, ih hps]
      exact ⟨fun hall => ⟨rfl, hall⟩, fun hall => hall.2⟩
    · constructor
      · exact fun heq => absurd heq (hdev.ne hps)
      · intro hall
        have hnil : Judged [] := fun _ hm => absurd hm List.not_mem_nil
        exact absurd (by rw [hall.1]; rfl) (hdev.ne hnil)

/-! ## Numbers in conversions -/

/-- A counter that the padding loops take down twice comes out positive only from -2^31 + 1. -/
theorem afterPad_twice {n : Word} (hn : n.toInt < 0) (hlow : -(2 ^ 31) < n.toInt) :
    (afterPad (afterPad n)).toInt.toNat = 0 ↔ -(2 ^ 31) + 1 < n.toInt := by
  have hfirst := afterPad_toInt hlow
  by_cases h : -(2 ^ 31) + 1 < n.toInt
  · have hsecond := afterPad_toInt (n := afterPad n) (by omega)
    exact ⟨fun _ => h, fun _ => by omega⟩
  · have hleast : afterPad n = 0x80000000 := by
      have hlit : (0x80000000 : Word).toInt = -(2 ^ 31) := by decide
      exact BitVec.toInt_inj.mp (by omega)
    have hwrap : (afterPad 0x80000000).toInt = 2 ^ 31 - 1 := by
      rw [show afterPad 0x80000000 = 0x7FFFFFFF by decide]
      decide
    rw [hleast, hwrap]
    exact ⟨fun hz => absurd hz (by decide), fun hh => absurd hh h⟩

/-- What `number` sends in a conversion: zeros up to the precision, the digits, and spaces behind
the highest precision. -/
theorem printed_eq {base type : Word} (hb : 1 < base.toNat) (hl : type &&& left = 0)
    (num precision : Word) : ∃ m, printed num base precision type =
      List.replicate (precision.toInt.toNat - (digitsOf num base type).length) 0x30 ++
        (digitsOf num base type ++ List.replicate m 0x20) ∧
      (m = 0 ↔ type &&& zeropad ≠ 0 ∨ precision.toInt < 2 ^ 31 - 1) := by
  have hlen := digitsOf_length hb num type
  have hraised := raised_toInt precision hlen.2
  have htop : 2 * precision.toInt < 2 ^ 32 := BitVec.two_mul_toInt_lt
  have hzero : (0 : Word).toInt = 0 := rfl
  have hn : (0 - raised precision (digitsOf num base type)).toInt =
      -(max precision.toInt (digitsOf num base type).length) := by
    rw [toInt_sub_eq] <;> omega
  have hfirst := afterPad_toInt (n := 0 - raised precision (digitsOf num base type)) (by omega)
  have htwice := afterPad_twice (n := 0 - raised precision (digitsOf num base type)) (by omega)
    (by omega)
  rw [printed, hraised, length_toInt hlen.2, emitted, if_neg (not_not.mpr hl)]
  have hzeros : (max precision.toInt (digitsOf num base type).length -
      (digitsOf num base type).length).toNat =
      precision.toInt.toNat - (digitsOf num base type).length := by omega
  simp only [fill, hzeros, List.nil_append, List.append_assoc,
    Int.toNat_of_nonpos (z := (0 - raised precision (digitsOf num base type)).toInt) (by omega),
    Int.toNat_of_nonpos (z := (afterPad (0 - raised precision (digitsOf num base type))).toInt)
      (by omega), List.replicate_zero]
  by_cases hz : type &&& zeropad ≠ 0
  · rw [if_pos hz]
    exact ⟨0, rfl, ⟨fun _ => Or.inl hz, fun _ => rfl⟩⟩
  · rw [if_neg hz]
    refine ⟨_, rfl, htwice.trans ?_⟩
    constructor
    · exact fun h => Or.inr (by omega)
    · exact fun h => by have := h.resolve_left hz; omega

theorem width_toInt {w : ℕ} (h : w < 2 ^ 31) : (BitVec.ofNat 32 w).toInt = w := by
  rw [BitVec.toInt_eq_toNat_cond, BitVec.toNat_ofNat, Nat.mod_eq_of_lt (by omega), if_pos (by omega)]

theorem digitsOf_conversion {extra type : Word} (he : extra = 0 ∨ extra = large)
    (ht : type = 0 ∨ type = zeropad) (num base : Word) :
    digitsOf num base (type ||| extra) = numeral (digitChar extra) base.toNat num.toNat := by
  have hsign : (type ||| extra) &&& sign = 0 := by
    rcases he with rfl | rfl <;> rcases ht with rfl | rfl <;> decide
  have hlarge : (type ||| extra) &&& large = extra &&& large := by
    rcases he with rfl | rfl <;> rcases ht with rfl | rfl <;> decide
  have hplus : negative num (type ||| extra) = false := by
    rw [negative, decide_eq_false (not_not.mpr hsign), Bool.false_and]
  have hchar : digitChar (type ||| extra) = digitChar extra := by
    funext d
    rw [digitChar, hlarge, digitChar]
  rw [digitsOf, magnitude, hplus, hchar]
  rfl

/-- A number of a given width: filled up to it if it fits, else with fewer zeros or with spaces. -/
theorem number_judged (base : Word) {extra : Word} (hb : 1 < base.toNat)
    (he : extra = 0 ∨ extra = large) (num : Word) (width : List (Fin 10)) : ∃ a m,
      printed num base (directive width).2 ((directive width).1 ||| extra) =
        List.replicate a 0x30 ++
          (numeral (digitChar extra) base.toNat num.toNat ++ List.replicate m 0x20) ∧
      (FitsWidth width →
        a = widthOf width - (numeral (digitChar extra) base.toNat num.toNat).length ∧ m = 0) ∧
      (¬ FitsWidth width →
        a < widthOf width - (numeral (digitChar extra) base.toNat num.toNat).length ∨
        a = widthOf width - (numeral (digitChar extra) base.toNat num.toNat).length ∧ 0 < m) := by
  obtain ⟨ht, hprec⟩ := directive_eq width
  have hleft : ((directive width).1 ||| extra) &&& left = 0 := by
    rcases he with rfl | rfl <;> rcases ht with h | h <;> rw [h] <;> decide
  have hflag : ((directive width).1 ||| extra) &&& zeropad ≠ 0 ↔ (directive width).1 = zeropad := by
    rcases he with rfl | rfl <;> rcases ht with h | h <;> rw [h] <;> decide
  have hdigits := digitsOf_conversion he ht num base
  have hlen := digitsOf_length hb num ((directive width).1 ||| extra)
  obtain ⟨m, hsent, hm⟩ := printed_eq hb hleft num (directive width).2
  rw [hdigits] at hsent hlen
  rw [hflag] at hm
  refine ⟨_, m, hsent, ?_, ?_⟩
  · intro hfits
    have hw : widthOf width < 2 ^ 31 := by
      rcases hfits with h | h <;> omega
    rw [hprec, width_toInt hw] at hm ⊢
    refine ⟨by omega, hm.mpr ?_⟩
    rcases hfits with h | ⟨h, h0⟩
    · exact Or.inr (by omega)
    · exact Or.inl ((directive_zeropad (by omega)).mpr h0)
  · intro hfits
    obtain ⟨hsmall, hlast⟩ := not_or.mp hfits
    rcases Nat.lt_or_ge (widthOf width) (2 ^ 31) with hw | hw
    · have hflagged : (directive width).1 ≠ zeropad := fun h =>
        hlast ⟨by omega, (directive_zeropad (by omega)).mp h⟩
      rw [hprec, width_toInt hw] at hm ⊢
      refine Or.inr ⟨by omega, Nat.pos_of_ne_zero (fun h0 => ?_)⟩
      exact (hm.mp h0).elim hflagged (fun h => by omega)
    · have htop : 2 * (directive width).2.toInt < 2 ^ 32 := BitVec.two_mul_toInt_lt
      exact Or.inl (by omega)

/-! ## Pieces -/

/-- No digit looks like a percent sign, a space or a sign, and only the first like a zero. -/
theorem digitChar_facts {extra : Word} (he : extra = 0 ∨ extra = large) : ∀ e < 16,
    digitChar extra e ≠ 0x25 ∧ digitChar extra e ≠ 0x20 ∧ digitChar extra e ≠ 0x2D ∧
      (digitChar extra e = 0x30 ↔ e = 0) := by
  rcases he with rfl | rfl <;> decide

theorem numeral_head {extra : Word} (he : extra = 0 ∨ extra = large) {b : ℕ} (hb : 1 < b)
    (hb' : b ≤ 16) (v : ℕ) : ∃ d l, numeral (digitChar extra) b v = d :: l ∧ d ≠ 0x25 ∧ d ≠ 0x20 ∧
      d ≠ 0x2D ∧ (v ≠ 0 → d ≠ 0x30) := by
  by_cases hv : v = 0
  · obtain ⟨h25, h20, h2D, -⟩ := digitChar_facts he 0 (by decide)
    exact ⟨_, [], by rw [hv, numeral_zero], h25, h20, h2D, fun h => absurd hv h⟩
  · obtain ⟨e, l, heq, hpos, hlt⟩ := numeral_eq_cons (digitChar extra) hb hv
    obtain ⟨h25, h20, h2D, h30⟩ := digitChar_facts he e (by omega)
    exact ⟨_, l, heq, h25, h20, h2D, fun _ h => Nat.ne_of_gt hpos (h30.mp h)⟩

/-- A number without a sign: as meant if its width fits, else short of zeros or with spaces. -/
theorem unsigned_judged (base : Word) {extra : Word} (hb : 1 < base.toNat) (hb' : base.toNat ≤ 16)
    (he : extra = 0 ∨ extra = large) (num : Word) (width : List (Fin 10)) :
    let sent := printed num base (directive width).2 ((directive width).1 ||| extra)
    let meant := zeroFill (widthOf width) (numeral (digitChar extra) base.toNat num.toNat)
    (FitsWidth width → sent = meant) ∧ (¬ FitsWidth width → Deviates sent meant) := by
  obtain ⟨a, m, hsent, hfits, hwide⟩ := number_judged base hb he num width
  obtain ⟨d, l, hdigits, hpercent, hspace, -, -⟩ := numeral_head he hb hb' num.toNat
  constructor
  · intro h
    obtain ⟨ha, hm⟩ := hfits h
    rw [hsent, hm, List.replicate_zero, List.append_nil, zeroFill, ← ha]
  · intro h
    refine .filled a _ m d l hpercent hspace (hwide h) ?_ ?_
    · rw [hsent, hdigits]
    · rw [zeroFill, hdigits]

/-- A negative number is sent without its sign. -/
theorem negative_judged {num : Word} (hneg : num.toInt < 0) (width : List (Fin 10)) :
    Deviates (printed num 10 (directive width).2 (directive width).1)
      (signedDecimal (widthOf width) num) := by
  have hne : num.toNat ≠ 0 := by
    have hcond := BitVec.toInt_eq_toNat_cond num
    split at hcond <;> omega
  have hor : (directive width).1 ||| 0 = (directive width).1 := BitVec.or_zero
  obtain ⟨a, m, hsent, -, -⟩ :=
    number_judged 10 (by decide) (Or.inl rfl : (0 : Word) = 0 ∨ _) num width
  obtain ⟨u, l, hdigits, -, -, hminus, hzero⟩ :=
    numeral_head (Or.inl rfl : (0 : Word) = 0 ∨ _) (b := (10 : Word).toNat) (by decide) (by decide)
      num.toNat
  rw [hor, hdigits, List.cons_append] at hsent
  exact .unsigned a u (l ++ List.replicate m 0x20) _ (hzero hne) hminus hsent
    (by rw [signedDecimal, if_pos hneg])

theorem Item.judged (i : Item) (va : VaList) (k : ℕ) :
    (i.Follows va k → i.sent va k = i.meant va k) ∧
      (¬ i.Follows va k → Deviates (i.sent va k) (i.meant va k)) := by
  cases i with
  | literal c h => exact ⟨fun _ => rfl, fun h => absurd trivial h⟩
  | conversion width kind =>
    cases kind with
    | s => exact ⟨fun _ => rfl, fun h => absurd trivial h⟩
    | c => exact ⟨fun _ => rfl, fun h => absurd trivial h⟩
    | d =>
      have hor : (directive width).1 ||| 0 = (directive width).1 := BitVec.or_zero
      have hnum := unsigned_judged 10 (by decide) (by decide)
        (Or.inl rfl : (0 : Word) = 0 ∨ _) (va.int k) width
      rw [hor] at hnum
      by_cases hneg : (va.int k).toInt < 0
      · exact ⟨fun h => absurd h.1 (not_le.mpr hneg), fun _ => negative_judged hneg width⟩
      · have habs : (va.int k).toInt.natAbs = (va.int k).toNat := by
          have hcond := BitVec.toInt_eq_toNat_cond (va.int k)
          split at hcond <;> omega
        have hmeant : Item.meant va k (.conversion width .d) = zeroFill (widthOf width)
            (numeral (digitChar 0) (10 : Word).toNat (va.int k).toNat) := by
          change signedDecimal (widthOf width) (va.int k) = _
          rw [signedDecimal, if_neg hneg, habs]
          rfl
        rw [hmeant]
        exact ⟨fun h => hnum.1 h.2, fun h => hnum.2 (fun hf => h ⟨not_lt.mp hneg, hf⟩)⟩
    | x =>
      have hor : (directive width).1 ||| 0 = (directive width).1 := BitVec.or_zero
      have hnum := unsigned_judged 16 (by decide) (by decide)
        (Or.inl rfl : (0 : Word) = 0 ∨ _) (va.int k) width
      rw [hor] at hnum
      exact hnum
    | X => exact unsigned_judged 16 (by decide) (by decide) (Or.inr rfl) (va.int k) width
    | percent => exact ⟨fun h => h.elim, fun _ => .percent rfl rfl⟩

def pairs (va : VaList) : ℕ → List Item → List (List Byte × List Byte)
  | _, [] => []
  | k, i :: items => (i.sent va k, i.meant va k) :: pairs va (k + i.args) items

theorem pairs_facts (va : VaList) (items : List Item) : ∀ k, Judged (pairs va k items) ∧
    (pairs va k items).flatMap Prod.fst = sentAll va k items ∧
    (pairs va k items).flatMap Prod.snd = meantAll va k items ∧
    ((∀ p ∈ pairs va k items, p.1 = p.2) ↔ FollowsAll va k items) := by
  induction items with
  | nil => exact fun k => ⟨fun _ h => absurd h List.not_mem_nil, rfl, rfl, by simp [pairs, FollowsAll]⟩
  | cons i items ih =>
    intro k
    obtain ⟨hjudged, hsent, hmeant, hall⟩ := ih (k + i.args)
    obtain ⟨hgood, hbad⟩ := i.judged va k
    have hnil : Judged [] := fun _ hm => absurd hm List.not_mem_nil
    have hsame : i.sent va k = i.meant va k ↔ i.Follows va k := by
      refine ⟨fun heq => ?_, hgood⟩
      by_contra h
      exact (hbad h).ne hnil (by rw [heq]; rfl)
    refine ⟨List.forall_mem_cons.mpr ⟨?_, hjudged⟩, ?_, ?_, ?_⟩
    · by_cases h : i.Follows va k
      · exact Or.inl (hgood h)
      · exact Or.inr (hbad h)
    · rw [pairs, List.flatMap_cons, hsent, sentAll]
    · rw [pairs, List.flatMap_cons, hmeant, meantAll]
    · rw [pairs, List.forall_mem_cons, hall, FollowsAll]
      exact and_congr_left' hsame

theorem sentAll_eq_iff (va : VaList) (k : ℕ) (items : List Item) :
    sentAll va k items = meantAll va k items ↔ FollowsAll va k items := by
  obtain ⟨hjudged, hsent, hmeant, hall⟩ := pairs_facts va items k
  rw [← hsent, ← hmeant, flatMap_eq_iff hjudged, hall]

/-! ## The function -/

/-- A format in memory that is made of literal characters and well-formed conversions. -/
structure PieceFormat where
  items : List Item
  nonempty : items ≠ []
  mem : ℕ → Byte
  spells : Spells mem 0 (render items)

theorem vfprintf_sent (f : PieceFormat) (va : VaList) {fuel : ℕ} (h : (render f.items).length ≤ fuel)
    (s : Stream) :
    ∃ t, vfprintf fuel f.mem va s = .ok 0 t ∧ t.out = s.out ++ sentAll va 0 f.items := by
  obtain ⟨r, t, hrun, hr, hout⟩ :=
    wp_never.mp (process_sent f.mem va f.items fuel 0 0 s f.nonempty f.spells h)
  rw [hr] at hrun
  exact ⟨t, hrun, hout⟩

/-- The call ends, under every large enough bound, and has sent what is meant. -/
def Prints (f : PieceFormat) (va : VaList) : Prop :=
  ∀ s : Stream, ∃ bound, ∀ fuel ≥ bound, ∃ r t, vfprintf fuel f.mem va s = .ok r t ∧
    t.out = s.out ++ meantAll va 0 f.items

/-- `vfprintf` prints a format as C does if and only if it has no `%%`, no negative number for `%d`,
and no width that the counters of `number` cannot hold. -/
theorem prints_iff (f : PieceFormat) (va : VaList) : Prints f va ↔ FollowsAll va 0 f.items := by
  rw [← sentAll_eq_iff]
  constructor
  · intro h
    obtain ⟨bound, hb⟩ := h ⟨[], [], []⟩
    obtain ⟨r, t, hrun, hout⟩ := hb (bound + (render f.items).length) (Nat.le_add_right _ _)
    obtain ⟨u, hrun', hout'⟩ :=
      vfprintf_sent f va (Nat.le_add_left (render f.items).length bound) ⟨[], [], []⟩
    rw [hrun] at hrun'
    rw [← (EStateM.Result.ok.inj hrun').2, hout] at hout'
    exact (List.append_cancel_left hout').symm
  · intro heq s
    refine ⟨(render f.items).length, fun fuel hfuel => ?_⟩
    obtain ⟨t, hrun, hout⟩ := vfprintf_sent f va hfuel s
    exact ⟨0, t, hrun, by rw [hout, heq]⟩

/-- `%%` sends three percent signs. -/
theorem not_prints_percent : ¬ ∀ (f : PieceFormat) (va : VaList), Prints f va := by
  intro h
  let f : PieceFormat := ⟨[.conversion [] .percent], List.cons_ne_nil _ _,
    fun i => [0x25, 0x25].getD i 0, ⟨rfl, by decide, rfl, by decide, rfl⟩⟩
  let va : VaList := ⟨fun _ => 0, fun _ => none⟩
  obtain ⟨bound, hb⟩ := h f va ⟨[], [], []⟩
  obtain ⟨r, t, hrun, hout⟩ := hb (bound + 2) (Nat.le_add_right _ _)
  obtain ⟨u, hrun', hout'⟩ := vfprintf_sent f va (Nat.le_add_left 2 bound) ⟨[], [], []⟩
  rw [hrun] at hrun'
  rw [← (EStateM.Result.ok.inj hrun').2, hout] at hout'
  exact absurd hout' (by decide)

end Armboard.Stdio
