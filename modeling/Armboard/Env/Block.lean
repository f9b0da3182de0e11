import Armboard.Env.Setenv
import Mathlib.Tactic

/-! # Variables and the block that holds them

The environment is a list of variables, each stored as `name=value` with a terminator,
and one more terminator behind the last. A name has no `=` in it, and no string has a
terminator, so the block can be read back. Looking a name up finds the first variable
of that name.
-/

namespace Armboard.Env
open Storage

/-- A string: no terminator inside. -/
structure Text where
  chars : List Byte
  ends : 0 ∉ chars
  deriving DecidableEq

structure Name extends Text where
  plain : 0x3D ∉ chars
  deriving DecidableEq

structure Variable where
  name : Name
  value : Text
  deriving DecidableEq

def Variable.text (v : Variable) : List Byte := v.name.chars ++ 0x3D :: v.value.chars

def flat (vs : List Variable) : List Byte := vs.flatMap fun v => v.text ++ [0]

/-- The whole list with its end; the empty list keeps two terminators. -/
def block (vs : List Variable) : List Byte := if vs = [] then [0, 0] else flat vs ++ [0]

/-- The data hold the variables, inside the environment. -/
structure Holds (data : ℕ → Byte) (vs : List Variable) : Prop where
  row : Row data 0 (block vs)
  fits : (block vs).length ≤ envSize

def lookup (vs : List Variable) (n : Name) : Option Text :=
  (vs.find? fun v => decide (v.name = n)).map Variable.value

@[simp] theorem flat_nil : flat [] = [] := rfl

@[simp] theorem flat_cons (v : Variable) (vs : List Variable) :
    flat (v :: vs) = v.text ++ 0 :: flat vs := by
  simp [flat]

theorem flat_append (vs ws : List Variable) : flat (vs ++ ws) = flat vs ++ flat ws := by
  simp [flat]

theorem block_of_ne {vs : List Variable} (h : vs ≠ []) : block vs = flat vs ++ [0] := if_neg h

/-- Behind the variables there is a terminator in any case. -/
theorem Holds.flat_row {data : ℕ → Byte} {vs : List Variable} (h : Holds data vs) :
    Row data 0 (flat vs ++ [0]) := by
  have hrow := h.row
  by_cases hvs : vs = []
  · subst hvs
    exact ⟨hrow.1, trivial⟩
  · rwa [block_of_ne hvs] at hrow

theorem flat_length_lt {data : ℕ → Byte} {vs : List Variable} (h : Holds data vs) :
    (flat vs).length < envSize := by
  have hfits := h.fits
  by_cases hvs : vs = []
  · subst hvs
    decide
  · rw [block_of_ne hvs, List.length_append, List.length_singleton] at hfits
    omega

theorem Variable.text_ends (v : Variable) : 0 ∉ v.text := by
  have hn := v.name.ends
  have hv := v.value.ends
  simp only [Variable.text, List.mem_append, List.mem_cons, not_or]
  exact ⟨hn, by decide, hv⟩

/-- An entry starts with a character. -/
theorem Variable.text_cons (v : Variable) : ∃ c l, v.text = c :: l ∧ c ≠ 0 := by
  have hends := v.text_ends
  cases h : v.text with
  | nil => simp [Variable.text] at h
  | cons c l =>
    rw [h] at hends
    exact ⟨c, l, rfl, fun hc => hends (by simp [hc])⟩

theorem Name.ext_chars {n m : Name} (h : n.chars = m.chars) : n = m := by
  cases n with
  | mk t hp =>
    cases m with
    | mk t' hp' =>
      cases t
      cases t'
      simp_all

/-! ## Comparing names -/

variable {g : ℕ → Byte} {i : ℕ}

/-- A name against the name of an entry. -/
theorem envmatch_chars (name rest : List Byte) (hplain : 0x3D ∉ name) (hends : 0 ∉ name) :
    ∀ (i : ℕ) (vn : List Byte), 0x3D ∉ vn → 0 ∉ vn → Row g i (vn ++ 0x3D :: rest) →
      envmatch g name i = .ok (if name = vn then some (i + name.length + 1) else none) := by
  induction name with
  | nil =>
    intro i vn hvp hve hrow
    cases vn with
    | nil =>
      have hg : g i = 0x3D := hrow.1
      simp [envmatch, hg]
    | cons c vn =>
      have hg : g i = c := hrow.1
      have hc0 : c ≠ 0 := fun h => hve (by simp [h])
      have hc1 : c ≠ 0x3D := fun h => hvp (by simp [h])
      rw [envmatch, hg, if_neg hc0, if_neg hc1, if_neg (by simp)]
  | cons a name ih =>
    intro i vn hvp hve hrow
    have ha : a ≠ 0x3D := fun h => hplain (by simp [h])
    cases vn with
    | nil =>
      have hg : g i = 0x3D := hrow.1
      rw [envmatch, hg, if_neg ha, if_neg (by simp)]
    | cons c vn =>
      have hg : g i = c := hrow.1
      rw [envmatch, hg]
      by_cases hac : a = c
      · rw [if_pos hac, if_neg ha, ih (fun h => hplain (List.mem_cons_of_mem _ h))
          (fun h => hends (List.mem_cons_of_mem _ h)) (i + 1) vn
          (fun h => hvp (List.mem_cons_of_mem _ h)) (fun h => hve (List.mem_cons_of_mem _ h)) hrow.2]
        simp [hac, Nat.add_assoc, Nat.add_comm 1]
      · rw [if_neg hac]
        simp [hac]

theorem envmatch_variable (n : Name) (v : Variable) {rest : List Byte}
    (h : Row g i (v.text ++ rest)) :
    envmatch g n.chars i = .ok (if n = v.name then some (i + n.chars.length + 1) else none) := by
  have hrow : Row g i (v.name.chars ++ 0x3D :: (v.value.chars ++ rest)) := by
    rwa [Variable.text, List.append_assoc] at h
  rw [envmatch_chars n.chars _ n.plain n.ends i v.name.chars v.name.plain v.name.ends hrow]
  by_cases hn : n = v.name
  · rw [if_pos hn, if_pos (congrArg (fun m : Name => m.chars) hn)]
  · rw [if_neg hn, if_neg (fun hc => hn (Name.ext_chars hc))]

/-! ## Walking over entries -/

theorem entryEnd_eq (t : List Byte) (hends : 0 ∉ t) : ∀ (left i : ℕ), Row g i (t ++ [0]) →
    t.length ≤ left → entryEnd g left i = some (i + t.length) := by
  induction t with
  | nil =>
    intro left i hrow _
    have hg : g i = 0 := hrow.1
    cases left <;> simp [entryEnd, hg]
  | cons c t ih =>
    intro left i hrow hleft
    have hg : g i = c := hrow.1
    have hc : c ≠ 0 := fun h => hends (by simp [h])
    cases left with
    | zero => simp at hleft
    | succ left =>
      rw [entryEnd, hg, if_neg hc, ih (fun h => hends (List.mem_cons_of_mem _ h)) left (i + 1) hrow.2
        (by simpa using hleft), List.length_cons]
      congr 1
      omega

theorem skipEntry_eq (t : List Byte) (hends : 0 ∉ t) : ∀ (left i : ℕ), Row g i (t ++ [0]) →
    t.length < left → skipEntry g left i = .ok (i + t.length) := by
  induction t with
  | nil =>
    intro left i hrow hleft
    have hg : g i = 0 := hrow.1
    cases left with
    | zero => simp at hleft
    | succ left => simp [skipEntry, hg]
  | cons c t ih =>
    intro left i hrow hleft
    have hg : g i = c := hrow.1
    have hc : c ≠ 0 := fun h => hends (by simp [h])
    cases left with
    | zero => simp at hleft
    | succ left =>
      rw [skipEntry, hg, if_neg hc, ih (fun h => hends (List.mem_cons_of_mem _ h)) left (i + 1)
        hrow.2 (by simpa using hleft), List.length_cons]
      congr 1
      omega

/-! ## Looking up -/

/-- The lookup of a name gives a value, as its place in the environment, or nothing. -/
def Reads (g : ℕ → Byte) (n : Name) : Option Text → Prop
  | none => getenv g n.chars = .ok none
  | some val => ∃ i, getenv g n.chars = .ok (some i) ∧ Row g i (val.chars ++ [0])

theorem getenvFrom_reads (n : Name) (vs : List Variable) : ∀ fuel i, Row g i (flat vs ++ [0]) →
    i + (flat vs).length < envSize → vs.length < fuel →
      match lookup vs n with
      | none => getenvFrom g n.chars fuel i = .ok none
      | some val => ∃ j, getenvFrom g n.chars fuel i = .ok (some j) ∧
          Row g j (val.chars ++ [0]) := by
  induction vs with
  | nil =>
    intro fuel i hrow _ hfuel
    have hg : g i = 0 := hrow.1
    cases fuel with
    | zero => simp at hfuel
    | succ fuel => simp [lookup, getenvFrom, hg]
  | cons v vs ih =>
    intro fuel i hrow hin hfuel
    rw [flat_cons, List.append_assoc] at hrow
    rw [flat_cons, List.length_append, List.length_cons] at hin
    have hsize := envSize_add_header
    obtain ⟨c, l, htext, hc⟩ := v.text_cons
    have hg : g i ≠ 0 := by
      rw [htext] at hrow
      rw [hrow.1]
      exact hc
    have hsplit := row_append.mp hrow
    have hentry : Row g i (v.text ++ [0]) := row_append.mpr ⟨hsplit.1, hsplit.2.1, trivial⟩
    have hend : entryEnd g (cfgEnvSize - i) i = some (i + v.text.length) :=
      entryEnd_eq v.text v.text_ends _ i hentry (by omega)
    cases fuel with
    | zero => simp at hfuel
    | succ fuel =>
      rw [getenvFrom, if_neg hg, hend]
      simp only [envmatch_variable n v hrow, lookup, List.find?_cons]
      by_cases hn : n = v.name
      · rw [if_pos hn]
        simp only [hn, decide_true, Option.map_some]
        refine ⟨_, rfl, ?_⟩
        rw [Variable.text, List.append_assoc, row_append] at hentry
        exact hentry.2.2
      · rw [if_neg hn]
        have hne : decide (v.name = n) = false := decide_eq_false (fun h => hn h.symm)
        simp only [hne]
        exact ih fuel (i + v.text.length + 1) hsplit.2.2 (by omega) (by simpa using hfuel)

theorem flat_length_ge (vs : List Variable) : vs.length ≤ (flat vs).length := by
  induction vs with
  | nil => simp
  | cons v vs ih =>
    rw [flat_cons, List.length_append, List.length_cons, List.length_cons]
    omega

theorem Holds.reads {vs : List Variable} (h : Holds g vs) (n : Name) : Reads g n (lookup vs n) := by
  have hlt := flat_length_lt h
  have hlen := flat_length_ge vs
  have hsize := envSize_add_header
  have hfrom := getenvFrom_reads n vs (cfgEnvSize + 3) 0 h.flat_row (by omega) (by omega)
  cases hl : lookup vs n with
  | none => rwa [hl] at hfrom
  | some val => rwa [hl] at hfrom

end Armboard.Env
