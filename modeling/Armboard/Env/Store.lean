import Armboard.Env.Block

/-! # Commands on the store of variables

`setenv` takes the first definition of a name out and appends the new one, if it fits.
The data are changed in place: the entries behind the old definition move down over it,
and the new one is written over the end of the list. No step leaves the environment's
bytes, and what the environment holds afterwards is a function of what it held before.
-/

namespace Armboard.Env
open Exec Storage Uboot

/-! ## What a command means -/

def joinVals (v : Text) (vals : List Text) : Text where
  chars := v.chars ++ vals.flatMap fun w => 0x20 :: w.chars
  ends := by
    have hv := v.ends
    simp only [List.mem_append, List.mem_flatMap, List.mem_cons, not_or, not_exists, not_and]
    exact ⟨hv, fun w _ => ⟨by decide, w.ends⟩⟩

def Fits (vs : List Variable) (n : Name) (vals : List Text) : Prop :=
  (flat vs).length + definitionLength n.chars (vals.map fun v => v.chars) ≤ envSize

instance (vs : List Variable) (n : Name) (vals : List Text) : Decidable (Fits vs n vals) :=
  inferInstanceAs (Decidable (_ ≤ _))

def insertVar (vs : List Variable) (n : Name) : List Text → List Variable
  | [] => vs
  | v :: vals => if Fits vs n (v :: vals) then vs ++ [⟨n, joinVals v vals⟩] else vs

def removeVar (vs : List Variable) (n : Name) : List Variable :=
  vs.eraseP fun v => decide (v.name = n)

/-- The arguments of `setenv`. -/
structure Setting where
  name : Text
  vals : List Text

/-- The name, unless it has a `=`. -/
def Setting.key (c : Setting) : Option Name :=
  if h : c.name.chars.contains 0x3D then none
  else some ⟨c.name, fun hc => h (List.contains_iff_mem.mpr hc)⟩

def Setting.replaceable (consoleAssign : ℕ → List Byte → Word) (atNull : List Byte) (c : Setting) :
    Bool :=
  (match consoleOf c.name.chars, c.vals with
    | none, _ => true
    | some _, [] => false
    | some console, v :: _ => !(consoleAssign console v.chars).slt 0) &&
  (decide (c.name.chars ≠ ascii "baudrate") ||
    baudrateTable.contains (Ethernet.simpleStrtoul ((c.vals.map fun v => v.chars).headD atNull) 10).1)

def Setting.refused (consoleAssign : ℕ → List Byte → Word) (atNull : List Byte)
    (vs : List Variable) (c : Setting) : Prop :=
  match c.key with
  | none => True
  | some n => lookup vs n ≠ none ∧ c.replaceable consoleAssign atNull = false

instance (consoleAssign : ℕ → List Byte → Word) (atNull : List Byte) (vs : List Variable)
    (c : Setting) : Decidable (c.refused consoleAssign atNull vs) := by
  unfold Setting.refused
  cases c.key
  · exact instDecidableTrue
  · exact instDecidableAnd

def Setting.apply (consoleAssign : ℕ → List Byte → Word) (atNull : List Byte) (vs : List Variable)
    (c : Setting) : List Variable :=
  match c.key with
  | none => vs
  | some n =>
    if c.refused consoleAssign atNull vs then vs else insertVar (removeVar vs n) n c.vals

/-- The new definition does not fit, although the old one is gone. -/
def Setting.overflows (consoleAssign : ℕ → List Byte → Word) (atNull : List Byte)
    (vs : List Variable) (c : Setting) : Prop :=
  match c.key with
  | none => False
  | some n =>
    ¬ c.refused consoleAssign atNull vs ∧ c.vals ≠ [] ∧ ¬ Fits (removeVar vs n) n c.vals

def Checked (s : Globals) : Prop := s.crc = crc32 0 (cells s.data 0 envSize)

/-! ## Finding the old definition -/

variable {data : ℕ → Byte} {i : ℕ}

theorem findEntry_step (n : Name) (v : Variable) {rest : List Byte} (fuel nxt : ℕ)
    (hrow : Row data i (v.text ++ 0 :: rest)) (hin : i + v.text.length < envSize) :
    findEntry data n.chars (fuel + 1) i nxt =
      if n = v.name then .ok ⟨some (i + n.chars.length + 1), i, i + v.text.length⟩
      else findEntry data n.chars fuel (i + v.text.length + 1) (i + v.text.length) := by
  obtain ⟨c, l, htext, hc⟩ := v.text_cons
  have hfirst : data i ≠ 0 := by
    have h := hrow
    rw [htext] at h
    rw [h.1]
    exact hc
  have hsplit := row_append.mp hrow
  have hentry : Row data i (v.text ++ [0]) := row_append.mpr ⟨hsplit.1, hsplit.2.1, trivial⟩
  have hskip : skipEntry data (envSize - i) i = .ok (i + v.text.length) :=
    skipEntry_eq v.text v.text_ends _ i hentry (by omega)
  rw [findEntry, if_neg (by omega), if_neg hfirst, hskip]
  simp only [envmatch_variable n v hrow]
  by_cases hn : n = v.name
  · rw [if_pos hn, if_pos hn]
  · rw [if_neg hn, if_neg hn]

theorem findEntry_absent (n : Name) (vs : List Variable) : ∀ fuel i nxt,
    Row data i (flat vs ++ [0]) → i + (flat vs).length < envSize → vs.length < fuel →
      (∀ v ∈ vs, v.name ≠ n) → ∃ env nxt', findEntry data n.chars fuel i nxt = .ok ⟨none, env, nxt'⟩ := by
  induction vs with
  | nil =>
    intro fuel i nxt hrow hin hfuel _
    have hend : data i = 0 := hrow.1
    cases fuel with
    | zero => simp at hfuel
    | succ fuel =>
      rw [flat_nil, List.length_nil] at hin
      rw [findEntry, if_neg (by omega), if_pos hend]
      exact ⟨_, _, rfl⟩
  | cons v vs ih =>
    intro fuel i nxt hrow hin hfuel hne
    rw [flat_cons, List.append_assoc] at hrow
    rw [flat_cons, List.length_append, List.length_cons] at hin
    cases fuel with
    | zero => simp at hfuel
    | succ fuel =>
      rw [findEntry_step n v fuel nxt hrow (by omega),
        if_neg (fun h => hne v List.mem_cons_self h.symm)]
      exact ih fuel _ _ (row_append.mp hrow).2.2 (by omega) (by simpa using hfuel)
        (fun w hw => hne w (List.mem_cons_of_mem _ hw))

theorem findEntry_present (n : Name) (v : Variable) (hv : v.name = n) (post : List Variable)
    (pre : List Variable) : ∀ fuel i nxt, Row data i (flat (pre ++ v :: post) ++ [0]) →
      i + (flat (pre ++ v :: post)).length < envSize → pre.length < fuel →
      (∀ w ∈ pre, w.name ≠ n) → ∃ val, findEntry data n.chars fuel i nxt =
        .ok ⟨some val, i + (flat pre).length, i + (flat pre).length + v.text.length⟩ := by
  induction pre with
  | nil =>
    intro fuel i nxt hrow hin hfuel _
    rw [List.nil_append, flat_cons, List.append_assoc] at hrow
    rw [List.nil_append, flat_cons, List.length_append, List.length_cons] at hin
    cases fuel with
    | zero => simp at hfuel
    | succ fuel =>
      rw [findEntry_step n v fuel nxt hrow (by omega), if_pos hv.symm]
      exact ⟨_, rfl⟩
  | cons w pre ih =>
    intro fuel i nxt hrow hin hfuel hne
    rw [List.cons_append, flat_cons, List.append_assoc] at hrow
    rw [List.cons_append, flat_cons, List.length_append, List.length_cons] at hin
    cases fuel with
    | zero => simp at hfuel
    | succ fuel =>
      rw [findEntry_step n w fuel nxt hrow (by omega),
        if_neg (fun h => hne w List.mem_cons_self h.symm)]
      obtain ⟨val, h⟩ := ih fuel (i + w.text.length + 1) (i + w.text.length)
        (row_append.mp hrow).2.2 (by omega) (by simpa using hfuel)
        (fun u hu => hne u (List.mem_cons_of_mem _ hu))
      refine ⟨val, ?_⟩
      rw [h, flat_cons, List.length_append, List.length_cons]
      simp only [Nat.add_assoc, Nat.add_comm 1]

/-! ## Moving entries down -/

/-- The list ends with a terminator and has no two of them in a row before. -/
def Terminated : List Byte → Prop
  | [] => False
  | [a] => a = 0
  | a :: b :: l => ¬ (a = 0 ∧ b = 0) ∧ Terminated (b :: l)

theorem terminated_text (c : Byte) (t : List Byte) (h : 0 ∉ c :: t) (rest : List Byte)
    (hrest : rest = [] ∨ Terminated rest ∧ rest.head? ≠ some 0) :
    Terminated (c :: t ++ 0 :: rest) := by
  induction t generalizing c with
  | nil =>
    have hc : c ≠ 0 := fun h' => h (by simp [h'])
    refine ⟨fun h' => hc h'.1, ?_⟩
    rcases hrest with rfl | ⟨hterm, hhead⟩
    · rfl
    · cases rest with
      | nil => exact hterm.elim
      | cons b rest => exact ⟨fun h' => hhead (by rw [h'.2]; rfl), hterm⟩
  | cons d t ih =>
    have hc : c ≠ 0 := fun h' => h (by simp [h'])
    exact ⟨fun h' => hc h'.1, ih d (fun h' => h (List.mem_cons_of_mem _ h'))⟩

theorem terminated_flat (v : Variable) (vs : List Variable) :
    Terminated (flat (v :: vs)) ∧ (flat (v :: vs)).head? ≠ some 0 := by
  induction vs generalizing v with
  | nil =>
    obtain ⟨c, l, htext, hc⟩ := v.text_cons
    have hends := v.text_ends
    rw [htext] at hends
    rw [flat_cons, flat_nil, htext]
    exact ⟨terminated_text c l hends [] (Or.inl rfl), by simpa using hc⟩
  | cons w vs ih =>
    obtain ⟨c, l, htext, hc⟩ := v.text_cons
    have hends := v.text_ends
    rw [htext] at hends
    rw [flat_cons, htext]
    exact ⟨terminated_text c l hends _ (Or.inr (ih w)), by simpa using hc⟩

theorem moveDown_spec (l : List Byte) : ∀ (left : ℕ) (data : ℕ → Byte) (env nxt : ℕ),
    Terminated l → Row data nxt (l ++ [0]) → env < nxt → l.length < left →
      ∃ data', moveDown left data env nxt = .ok (data', env + l.length - 1) ∧
        Row data' env l ∧ ∀ i < env, data' i = data i := by
  induction l with
  | nil => exact fun _ _ _ _ h => h.elim
  | cons a l ih =>
    intro left data env nxt hterm hrow hlt hleft
    obtain ⟨left, rfl⟩ : ∃ k, left = k + 1 := ⟨left - 1, by omega⟩
    rw [List.length_cons] at hleft
    have hleft0 : left ≠ 0 := by omega
    have hfirst : data nxt = a := hrow.1
    have hkeep (x : Byte) : Function.update data env x (nxt + 1) = data (nxt + 1) :=
      Function.update_of_ne (by omega) _ _
    have hsecond := hrow.2
    cases l with
    | nil =>
      have ha : a = 0 := hterm
      have hend : data (nxt + 1) = 0 := hsecond.1
      refine ⟨Function.update data env (data nxt), ?_, ?_, ?_⟩
      · rw [moveDown]
        simp only [hleft0, if_false, hkeep, hend, Function.update_self, hfirst, ha, and_self,
          if_true]
        rfl
      · exact ⟨by rw [Function.update_self, hfirst], trivial⟩
      · exact fun i hi => Function.update_of_ne (by omega) _ _
    | cons b l =>
      have hb : data (nxt + 1) = b := hsecond.1
      obtain ⟨data', hmove, hdone, hbelow⟩ := ih left (Function.update data env (data nxt)) (env + 1)
        (nxt + 1) hterm.2 (hrow.2.update _ (Or.inl (by omega))) (by omega) (by omega)
      refine ⟨data', ?_, ⟨?_, hdone⟩, ?_⟩
      · have hgo : ¬ (a = 0 ∧ b = 0) := hterm.1
        rw [hfirst] at hmove
        rw [moveDown]
        simp only [hleft0, if_false, hkeep, hb, Function.update_self, hfirst, hgo, hmove]
        simp only [List.length_cons]
        congr 2
        omega
      · rw [hbelow env (by omega), Function.update_self, hfirst]
      · intro i hi
        rw [hbelow i (by omega)]
        exact Function.update_of_ne (by omega) _ _

theorem putByte_eq {i : ℕ} (b : Byte) (h : i < envSize) :
    putByte data i b = .ok (Function.update data i b) := if_pos h

/-- The last entry goes: a terminator behind the entries in front of it ends the data. -/
theorem deleteEntry_last (pre : List Variable) (v : Variable) (hpre : Row data 0 (flat pre))
    (hend : data ((flat pre).length + v.text.length + 1) = 0)
    (hnext : (flat pre).length + v.text.length + 1 < envSize) :
    ∃ data', deleteEntry data (flat pre).length ((flat pre).length + v.text.length) = .ok data' ∧
      Holds data' pre := by
  rw [deleteEntry, if_neg (by omega), if_pos hend]
  by_cases hp : pre = []
  · subst hp
    simp only [flat_nil, List.length_nil, lt_irrefl, if_false]
    rw [putByte_eq 0 (by decide)]
    refine ⟨_, putByte_eq 0 (by decide), ⟨⟨?_, ?_, trivial⟩, by decide⟩⟩
    · rw [Function.update_of_ne (by decide), Function.update_self]
    · exact Function.update_self _ _ _
  · have hpos : 0 < (flat pre).length := by
      have hge := flat_length_ge pre
      have := List.length_pos_of_ne_nil hp
      omega
    rw [if_pos hpos, Nat.sub_add_cancel hpos]
    refine ⟨_, putByte_eq 0 (by omega), ?_, ?_⟩
    · rw [block_of_ne hp]
      have hsnoc := hpre.snoc 0
      rwa [Nat.zero_add] at hsnoc
    · rw [block_of_ne hp, List.length_append, List.length_singleton]
      omega

theorem deleteEntry_moved (pre post : List Variable) (v w : Variable)
    (hpre : Row data 0 (flat pre))
    (hrest : Row data ((flat pre).length + v.text.length + 1) (flat (w :: post) ++ [0]))
    (hfits : (flat pre).length + v.text.length + 1 + (flat (w :: post)).length < envSize) :
    ∃ data', deleteEntry data (flat pre).length ((flat pre).length + v.text.length) = .ok data' ∧
      Holds data' (pre ++ w :: post) := by
  obtain ⟨hterm, hhead⟩ := terminated_flat w post
  have hnz : data ((flat pre).length + v.text.length + 1) ≠ 0 := by
    intro hzero
    obtain ⟨c, l, htext, hc⟩ := w.text_cons
    rw [flat_cons, htext] at hrest
    exact hc (hrest.1.symm.trans hzero)
  rw [deleteEntry, if_neg (by omega), if_neg hnz]
  obtain ⟨data', hmove, hmoved, hbelow⟩ := moveDown_spec (flat (w :: post))
    (envSize - ((flat pre).length + v.text.length + 1)) data (flat pre).length _ hterm hrest
    (by omega) (by omega)
  have hpos : 0 < (flat (w :: post)).length := by
    have hge := flat_length_ge (w :: post)
    rw [List.length_cons] at hge
    omega
  have hlen : (flat pre).length + (flat (w :: post)).length - 1 + 1 =
      (flat (pre ++ w :: post)).length := by
    rw [flat_append, List.length_append]
    omega
  rw [hmove]
  refine ⟨_, putByte_eq 0 (by omega), ?_, ?_⟩
  · rw [block_of_ne (by simp), hlen]
    have hall : Row data' 0 (flat (pre ++ w :: post)) := by
      rw [flat_append, row_append, Nat.zero_add]
      refine ⟨hpre.congr fun k hk => ?_, hmoved⟩
      rw [Nat.zero_add]
      exact hbelow k hk
    have hsnoc := hall.snoc 0
    rwa [Nat.zero_add] at hsnoc
  · rw [block_of_ne (by simp), List.length_append, List.length_singleton, ← hlen]
    omega

theorem deleteEntry_spec (pre post : List Variable) (v : Variable)
    (h : Holds data (pre ++ v :: post)) :
    ∃ data', deleteEntry data (flat pre).length ((flat pre).length + v.text.length) = .ok data' ∧
      Holds data' (pre ++ post) := by
  have hrow := h.row
  have hfits := h.fits
  rw [block_of_ne (by simp), flat_append, flat_cons] at hrow hfits
  simp only [List.length_append, List.length_cons, List.length_nil] at hfits
  simp only [row_append, row_cons, Nat.zero_add, List.length_append, List.length_cons] at hrow
  obtain ⟨⟨hpre, -, -, hpost⟩, hlast⟩ := hrow
  cases post with
  | nil =>
    have hend : data ((flat pre).length + v.text.length + 1) = 0 := by
      have hcell := hlast.1
      rwa [flat_nil, List.length_nil, Nat.zero_add, ← Nat.add_assoc] at hcell
    rw [List.append_nil]
    exact deleteEntry_last pre v hpre hend (by omega)
  | cons w post =>
    refine deleteEntry_moved pre post v w hpre (row_append.mpr ⟨hpost, ?_, trivial⟩) (by omega)
    have hcell := hlast.1
    rwa [show (flat pre).length + (v.text.length + ((flat (w :: post)).length + 1)) =
      (flat pre).length + v.text.length + 1 + (flat (w :: post)).length by omega] at hcell

end Armboard.Env
