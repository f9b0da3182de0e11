import Armboard.Stdio.Padding
import Armboard.Stdio.Vfprintf

/-! # What each conversion sends

Formats made of characters and conversions, and what `vfprintf` sends for each of
them. The width of a conversion arrives at `number` as its precision, so a number is
zeros, digits, and behind a precision of 2^31 - 1 the spaces of a counter that wrapped.
-/

namespace Armboard.Stdio
open Exec Text

/-! ## Formats in pieces -/

inductive Kind where
  | s
  | c
  | d
  | x
  | X
  | percent
  deriving DecidableEq

def Kind.char : Kind → Byte
  | .s => 0x73
  | .c => 0x63
  | .d => 0x64
  | .x => 0x78
  | .X => 0x58
  | .percent => 0x25

def Kind.args : Kind → ℕ
  | .percent => 0
  | _ => 1

/-- A character that stands for itself, or a conversion with the digits of its width. -/
inductive Item where
  | literal (c : Byte) (h : c ≠ 0 ∧ c ≠ 0x25)
  | conversion (width : List (Fin 10)) (kind : Kind)

def digitByte (d : Fin 10) : Byte := BitVec.ofNat 8 (0x30 + d.val)

def Item.text : Item → List Byte
  | .literal c _ => [c]
  | .conversion width kind => 0x25 :: (width.map digitByte ++ [kind.char])

def Item.args : Item → ℕ
  | .literal _ _ => 0
  | .conversion _ kind => kind.args

def render (items : List Item) : List Byte := items.flatMap Item.text

def widthOf (width : List (Fin 10)) : ℕ := horner 10 (width.map Fin.val) 0

/-! ## What is sent -/

def printed (num base precision type : Word) : List Byte :=
  emitted type [] (List.replicate ((raised precision (digitsOf num base type)).toInt -
      (BitVec.ofNat 32 (digitsOf num base type).length).toInt).toNat 0x30 ++ digitsOf num base type)
    (0 - raised precision (digitsOf num base type))

/-- What `convert` sends for argument `k`. -/
def Kind.sent (kind : Kind) (va : VaList) (k : ℕ) (type precision : Word) : List Byte :=
  match kind with
  | .s => stringText (va.str k)
  | .c => [(va.int k).setWidth 8]
  | .d => printed (va.int k) 10 precision type
  | .x => printed (va.int k) 16 precision type
  | .X => printed (va.int k) 16 precision (type ||| large)
  | .percent => [0x25, 0x25, 0x25]

/-- `type` and `precision` behind the digits of a width. -/
def directive (width : List (Fin 10)) : Word × Word :=
  width.foldl (fun d w => addDigit d.1 d.2 (digitByte w)) (0, 0)

def Item.sent (va : VaList) (k : ℕ) : Item → List Byte
  | .literal c _ => [c]
  | .conversion width kind => kind.sent va k (directive width).1 (directive width).2

/-- What `vfprintf` sends for the pieces of a format, with the arguments from `k` on. -/
def sentAll (va : VaList) : ℕ → List Item → List Byte
  | _, [] => []
  | k, i :: items => i.sent va k ++ sentAll va (k + i.args) items

/-! ## Widths -/

theorem digitByte_facts : ∀ d : Fin 10, isDigit (digitByte d) = true ∧ digitByte d ≠ 0 ∧
    (digitByte d = 0x30 ↔ d = 0) ∧ (digitByte d).setWidth 32 - 0x30 = BitVec.ofNat 32 d.val := by
  decide

theorem kind_facts : ∀ kind : Kind, isDigit kind.char = false ∧ kind.char ≠ 0 ∧
    kind.char ≠ 0x2E := by
  intro kind
  cases kind <;> decide

theorem addDigit_eq (type : Word) (v : ℕ) (d : Fin 10) :
    addDigit type (BitVec.ofNat 32 v) (digitByte d) =
      (if d = 0 ∧ BitVec.ofNat 32 v = 0 then type ||| zeropad else type,
        BitVec.ofNat 32 (v * 10 + d.val)) := by
  obtain ⟨-, -, hzero, hvalue⟩ := digitByte_facts d
  simp only [addDigit, hvalue, hzero]
  congr 1
  apply BitVec.eq_of_toNat_eq
  simp [BitVec.toNat_add, BitVec.toNat_mul]

/-- The flag is set or not, and the precision is the width so far, in 32 bits. -/
theorem foldl_addDigit (width : List (Fin 10)) : ∀ (type : Word) (v : ℕ),
    (type = 0 ∨ type = zeropad) →
    ((width.foldl (fun d w => addDigit d.1 d.2 (digitByte w)) (type, BitVec.ofNat 32 v)).1 = 0 ∨
      (width.foldl (fun d w => addDigit d.1 d.2 (digitByte w)) (type, BitVec.ofNat 32 v)).1 = zeropad) ∧
    (width.foldl (fun d w => addDigit d.1 d.2 (digitByte w)) (type, BitVec.ofNat 32 v)).2 =
      BitVec.ofNat 32 (horner 10 (width.map Fin.val) v) := by
  induction width with
  | nil => exact fun _ _ h => ⟨h, rfl⟩
  | cons d width ih =>
    intro type v h
    rw [List.foldl_cons, addDigit_eq]
    apply ih
    rcases h with rfl | rfl <;> split <;> simp

theorem directive_eq (width : List (Fin 10)) :
    ((directive width).1 = 0 ∨ (directive width).1 = zeropad) ∧
      (directive width).2 = BitVec.ofNat 32 (widthOf width) :=
  foldl_addDigit width 0 0 (Or.inl rfl)

theorem foldl_zeropad (width : List (Fin 10)) : ∀ v : ℕ,
    (width.foldl (fun d w => addDigit d.1 d.2 (digitByte w)) (zeropad, BitVec.ofNat 32 v)).1 =
      zeropad := by
  induction width with
  | nil => exact fun _ => rfl
  | cons d width ih =>
    intro v
    rw [List.foldl_cons, addDigit_eq, show zeropad ||| zeropad = zeropad from rfl, ite_self]
    exact ih _

/-- Behind a number other than zero no digit sets the flag, as long as the number does not wrap. -/
theorem foldl_unset (width : List (Fin 10)) : ∀ v : ℕ, v ≠ 0 →
    horner 10 (width.map Fin.val) v < 2 ^ 32 →
    (width.foldl (fun d w => addDigit d.1 d.2 (digitByte w)) (0, BitVec.ofNat 32 v)).1 = 0 := by
  induction width with
  | nil => exact fun _ _ _ => rfl
  | cons d width ih =>
    intro v hv hlt
    have hle : v ≤ horner 10 ((d :: width).map Fin.val) v := le_horner (by decide) _ _
    have hne : BitVec.ofNat 32 v ≠ 0 := by
      intro h
      have hz := congrArg BitVec.toNat h
      rw [BitVec.toNat_ofNat, Nat.mod_eq_of_lt (by omega)] at hz
      exact hv hz
    rw [List.foldl_cons, addDigit_eq, if_neg (fun h => hne h.2)]
    exact ih _ (by omega) hlt

/-- A width that does not wrap sets the flag if and only if it begins with a zero. -/
theorem directive_zeropad {width : List (Fin 10)} (h : widthOf width < 2 ^ 32) :
    (directive width).1 = zeropad ↔ width.head? = some 0 := by
  cases width with
  | nil => exact ⟨fun h => absurd h (by decide), fun h => absurd h (by decide)⟩
  | cons d width =>
    have hone : (0 : Word) ||| zeropad = zeropad := rfl
    have hstart := addDigit_eq 0 0 d
    rw [directive, List.foldl_cons]
    change (width.foldl _ (addDigit 0 (BitVec.ofNat 32 0) (digitByte d))).1 = zeropad ↔ _
    rw [hstart, List.head?_cons, Option.some_inj]
    by_cases hd : d = 0
    · rw [if_pos ⟨hd, rfl⟩, hone, foldl_zeropad]
      exact ⟨fun _ => hd, fun _ => rfl⟩
    · have hv : 0 * 10 + d.val ≠ 0 := fun hz => hd (Fin.ext (by simpa using hz))
      rw [if_neg (fun hh => hd hh.1), foldl_unset width _ hv h]
      exact ⟨fun hz => absurd hz (by decide), fun hz => absurd hz hd⟩

/-! ## Running a format -/

theorem wp_number_printed {Q : Word → Stream → Prop} {E : Fault → Stream → Prop}
    {num base precision type : Word} (hb : base = 10 ∨ base = 16) (hs : type &&& sign = 0)
    {s : Stream} (h : Q 1 (s.put (printed num base precision type))) :
    wp (number num base 0 precision type) Q E s := by
  have hlow : 2 ≤ base.toInt ∧ base.toInt ≤ 16 := by
    rcases hb with rfl | rfl <;> decide
  have hplus : negative num type = false := by
    rw [negative, decide_eq_false (not_not.mpr hs), Bool.false_and]
  rw [wp, number_eq hlow.1 hlow.2, hplus]
  exact h

/-- A conversion sends what it should send of its argument, and takes it. -/
theorem convert_sent (mem : ℕ → Byte) (va : VaList) (kind : Kind) {p : ℕ} (hp : mem p = kind.char)
    (k : ℕ) {type : Word} (ht : type = 0 ∨ type = zeropad) (precision : Word) (s : Stream) :
    wp (convert mem va kind.char p k type precision)
      (fun k' t => k' = k + kind.args ∧ t.out = s.out ++ kind.sent va k type precision) never s := by
  have hsign : type &&& sign = 0 ∧ (type ||| large) &&& sign = 0 := by
    rcases ht with rfl | rfl <;> decide
  unfold convert
  cases kind with
  | s =>
    rw [if_pos (by decide)]
    simp only [wp_bind, wp_fputs, wp_pure]
    exact ⟨rfl, rfl⟩
  | c =>
    rw [if_neg (by decide), if_pos (by decide)]
    simp only [wp_bind, wp_fputc, wp_pure]
    exact ⟨rfl, rfl⟩
  | d =>
    rw [if_neg (by decide), if_neg (by decide), if_pos (by decide), wp_bind]
    exact wp_number_printed (Or.inl rfl) hsign.1 ⟨rfl, rfl⟩
  | x =>
    rw [if_neg (by decide), if_neg (by decide), if_neg (by decide), if_pos (by decide), wp_bind]
    exact wp_number_printed (Or.inr rfl) hsign.1 ⟨rfl, rfl⟩
  | X =>
    rw [if_neg (by decide), if_neg (by decide), if_neg (by decide), if_neg (by decide),
      if_pos (by decide), wp_bind]
    exact wp_number_printed (Or.inr rfl) hsign.2 ⟨rfl, rfl⟩
  | percent =>
    rw [if_neg (by decide), if_neg (by decide), if_neg (by decide), if_neg (by decide),
      if_neg (by decide), if_pos (by decide)]
    simp only [wp_bind, wp_copy, wp_fputc, wp_pure, hp]
    refine ⟨rfl, ?_⟩
    simp only [Stream.put, List.append_assoc]
    rfl

/-- The inner loop on a width and the character behind it: by induction on the digits. -/
theorem scan_sent (mem : ℕ → Byte) (va : VaList) (kind : Kind) (rest : List Byte)
    (width : List (Fin 10)) : ∀ (fuel p k : ℕ) (type : Word) (v : ℕ) (s : Stream),
    Spells mem (p + 1) (width.map digitByte ++ kind.char :: rest) → width.length < fuel →
    (type = 0 ∨ type = zeropad) →
    wp (scan mem va fuel p k type (BitVec.ofNat 32 v)) (fun r t =>
      Spells mem (r.1 + 1) rest ∧ r.2 = k + kind.args ∧ t.out = s.out ++
        let d := width.foldl (fun d w => addDigit d.1 d.2 (digitByte w)) (type, BitVec.ofNat 32 v)
        kind.sent va k d.1 d.2) never s := by
  induction width with
  | nil =>
    intro fuel p k type v s hs hfuel ht
    obtain ⟨fuel, rfl⟩ : ∃ m, fuel = m + 1 := ⟨fuel - 1, by omega⟩
    obtain ⟨hchar, -, hrest⟩ := hs
    obtain ⟨hd, -, hdot⟩ := kind_facts kind
    rw [scan, wp_bind, wp_deref, hchar, hd, if_neg (by decide), if_neg hdot, wp_bind]
    apply wp_post (convert_sent mem va kind hchar k ht _ _)
    rintro k' t ⟨hk, hout⟩
    exact ⟨hrest, hk, hout⟩
  | cons d width ih =>
    intro fuel p k type v s hs hfuel ht
    rw [List.length_cons] at hfuel
    obtain ⟨fuel, rfl⟩ : ∃ m, fuel = m + 1 := ⟨fuel - 1, by omega⟩
    obtain ⟨hchar, -, hrest⟩ := hs
    rw [scan, wp_bind, wp_deref, hchar, (digitByte_facts d).1, if_pos rfl, List.foldl_cons,
      addDigit_eq]
    apply ih fuel (p + 1) k _ _ _ hrest (by omega)
    rcases ht with rfl | rfl <;> split <;> simp

/-- The outer loop on the pieces of a format: by induction on them. -/
theorem process_sent (mem : ℕ → Byte) (va : VaList) (items : List Item) : ∀ (fuel p k : ℕ)
    (s : Stream), items ≠ [] → Spells mem p (render items) → (render items).length ≤ fuel →
      wp (process mem va fuel p k) (fun r t => r = 0 ∧ t.out = s.out ++ sentAll va k items)
        never s := by
  induction items with
  | nil => intro fuel p k s h; exact absurd rfl h
  | cons i items ih =>
    intro fuel p k s _ hs hfuel
    rw [render, List.flatMap_cons] at hs hfuel
    rw [List.length_append] at hfuel
    have hpos : 0 < i.text.length := by
      cases i <;> exact Nat.succ_pos _
    obtain ⟨fuel, rfl⟩ : ∃ m, fuel = m + 1 := ⟨fuel - 1, by omega⟩
    -- behind a piece the loop goes on with the other pieces, if there are any
    have hnext : ∀ (q : ℕ) (t : Stream), Spells mem (q + 1) (render items) →
        t.out = s.out ++ i.sent va k → wp (do
          let next ← deref mem (q + 1)
          if next ≠ 0 then process mem va fuel (q + 1) (k + i.args) else pure 0)
          (fun r u => r = 0 ∧ u.out = s.out ++ sentAll va k (i :: items)) never t := by
      intro q t hs' hout
      rw [wp_bind, wp_deref, wp_ite]
      cases items with
      | nil =>
        have hzero : mem (q + 1) = 0 := hs'
        rw [if_neg (not_not.mpr hzero)]
        refine ⟨rfl, ?_⟩
        rw [sentAll, sentAll, List.append_nil]
        exact hout
      | cons j items =>
        have hchar : mem (q + 1) ≠ 0 := by
          cases j with
          | literal c hc =>
            rw [hs'.1]
            exact hc.1
          | conversion width kind =>
            rw [hs'.1]
            decide
        rw [if_pos hchar]
        apply wp_post (ih fuel (q + 1) (k + i.args) _ (List.cons_ne_nil _ _) hs'
          (by rw [render]; omega))
        rintro r u ⟨hr, hu⟩
        refine ⟨hr, ?_⟩
        have hall : sentAll va k (i :: j :: items) =
            i.sent va k ++ sentAll va (k + i.args) (j :: items) := rfl
        rw [hu, hall, ← List.append_assoc, ← hout]
    rw [process, wp_bind, wp_deref, wp_bind, wp_ite]
    cases i with
    | literal c hc =>
      obtain ⟨hchar, -, hrest⟩ := hs
      rw [hchar, if_neg hc.2, wp_bind, wp_copy, wp_pure]
      exact hnext p _ hrest (by rw [hchar]; rfl)
    | conversion width kind =>
      obtain ⟨hchar, -, hrest⟩ := hs
      rw [List.append_eq, List.append_assoc] at hrest
      rw [hchar, if_pos rfl]
      simp only [Item.text, List.length_cons, List.length_append, List.length_map] at hfuel
      apply wp_post (scan_sent mem va kind _ width (fuel + 1) p k 0 0 _ hrest (by omega) (Or.inl rfl))
      rintro ⟨q, k'⟩ t ⟨hs', rfl, hout⟩
      exact hnext q t hs' hout

end Armboard.Stdio
