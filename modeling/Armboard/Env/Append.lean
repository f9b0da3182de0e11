import Armboard.Env.Store
import Armboard.Exec.Wp

/-! # Appending a definition

The end of the list is found again for each command, by its two terminators. The length
is checked before anything is written, with two bytes for the `=` and the last
terminator, so the copy stays inside the environment. Only a command that gets through
updates the check.
-/

namespace Armboard.Env
open Exec Storage Uboot

variable {data : ℕ → Byte} {i : ℕ}

/-! ## The end of the list -/

theorem findEnd_spec (l : List Byte) : ∀ left i, Terminated l → Row data i (l ++ [0]) →
    l.length ≤ left → findEnd data left i = .ok (i + l.length - 1) := by
  induction l with
  | nil => exact fun _ _ h => h.elim
  | cons a l ih =>
    intro left i hterm hrow hleft
    rw [List.length_cons] at hleft
    have hfirst : data i = a := hrow.1
    have hsecond := hrow.2
    cases left with
    | zero => omega
    | succ left =>
      cases l with
      | nil =>
        have ha : a = 0 := hterm
        have hend : data (i + 1) = 0 := hsecond.1
        rw [findEnd, if_pos ⟨hfirst.trans ha, hend⟩]
        rfl
      | cons b l =>
        have hb : data (i + 1) = b := hsecond.1
        have hgo : ¬ (a = 0 ∧ b = 0) := hterm.1
        rw [findEnd, hfirst, hb, if_neg hgo, ih left (i + 1) hterm.2 hrow.2 (by omega)]
        simp only [List.length_cons]
        congr 1
        omega

theorem appendPlace_eq {vs : List Variable} (h : Holds data vs) :
    appendPlace data = .ok (flat vs).length := by
  have hrow := h.row
  cases vs with
  | nil =>
    have hzero : data 0 = 0 ∧ data 1 = 0 := ⟨hrow.1, hrow.2.1⟩
    have hend : findEnd data (envSize - 1) 0 = .ok 0 := by
      change findEnd data (4090 + 1) 0 = .ok 0
      rw [findEnd, if_pos hzero]
    rw [appendPlace, hend]
    rfl
  | cons v vs =>
    have hlt := flat_length_lt h
    have hge := flat_length_ge (v :: vs)
    have hsmall : (flat (v :: vs)).length ≠ 1 := by
      obtain ⟨c, l, htext, -⟩ := v.text_cons
      rw [flat_cons, htext]
      simp
    rw [List.length_cons] at hge
    rw [block_of_ne (by simp)] at hrow
    rw [appendPlace, findEnd_spec _ _ 0 (terminated_flat v vs).1 hrow (by omega)]
    simp only [Nat.zero_add]
    rw [if_pos (by omega), Nat.sub_add_cancel (by omega)]

/-! ## Copying -/

theorem copyString_spec (s : List Byte) : ∀ (data : ℕ → Byte) env, env + s.length < envSize →
    ∃ data', copyString s data env = .ok (data', env + s.length) ∧ Row data' env (s ++ [0]) ∧
      ∀ i < env, data' i = data i := by
  induction s with
  | nil =>
    intro data env hin
    have hput : putByte data env 0 = .ok (Function.update data env 0) := putByte_eq 0 hin
    refine ⟨Function.update data env 0, ?_, ⟨Function.update_self _ _ _, trivial⟩, ?_⟩
    · rw [copyString, hput]
      rfl
    · exact fun i hi => Function.update_of_ne (by omega) _ _
  | cons c s ih =>
    intro data env hin
    rw [List.length_cons] at hin
    obtain ⟨data', hcopy, hrow, hbelow⟩ := ih (Function.update data env c) (env + 1) (by omega)
    refine ⟨data', ?_, ⟨?_, hrow⟩, ?_⟩
    · rw [copyString, putByte_eq c (by omega)]
      simp only [hcopy, List.length_cons]
      congr 2
      omega
    · rw [hbelow env (by omega), Function.update_self]
    · intro i hi
      rw [hbelow i (by omega)]
      exact Function.update_of_ne (by omega) _ _

def joined : Byte → List (List Byte) → List Byte
  | _, [] => []
  | sep, v :: vals => sep :: (v ++ joined 0x20 vals)

theorem joined_length (sep : Byte) (vals : List (List Byte)) :
    (joined sep vals).length = (vals.map fun v => v.length + 1).sum := by
  induction vals generalizing sep with
  | nil => rfl
  | cons v vals ih =>
    simp only [joined, List.length_cons, List.length_append, ih, List.map_cons, List.sum_cons]
    omega

theorem joined_blank (vals : List (List Byte)) :
    joined 0x20 vals = vals.flatMap fun w => 0x20 :: w := by
  induction vals with
  | nil => rfl
  | cons v vals ih => rw [joined, ih, List.flatMap_cons, List.cons_append]

theorem copyValues_spec (vals : List (List Byte)) : ∀ (sep : Byte) (data : ℕ → Byte) env,
    data env = 0 → env + (joined sep vals).length < envSize →
      ∃ data', copyValues sep vals data env = .ok (data', env + (joined sep vals).length) ∧
        Row data' env (joined sep vals ++ [0]) ∧ ∀ i < env, data' i = data i := by
  induction vals with
  | nil => exact fun sep data env hend _ => ⟨data, rfl, ⟨hend, trivial⟩, fun _ _ => rfl⟩
  | cons v vals ih =>
    intro sep data env _ hin
    simp only [joined, List.length_cons, List.length_append] at hin ⊢
    obtain ⟨data₁, hcopy, hrow, hbelow⟩ :=
      copyString_spec v (Function.update data env sep) (env + 1) (by omega)
    have hsplit := row_append.mp hrow
    obtain ⟨data₂, hrest, hrow₂, hbelow₂⟩ := ih 0x20 data₁ (env + 1 + v.length) hsplit.2.1 (by omega)
    refine ⟨data₂, ?_, ⟨?_, ?_⟩, ?_⟩
    · rw [copyValues, putByte_eq sep (by omega)]
      simp only [hcopy, hrest]
      congr 2
      omega
    · rw [hbelow₂ env (by omega), hbelow env (by omega), Function.update_self]
    · change Row data₂ (env + 1) (v ++ joined 0x20 vals ++ [0])
      rw [List.append_assoc, row_append]
      exact ⟨hsplit.1.congr fun k hk => hbelow₂ _ (by omega), hrow₂⟩
    · intro i hi
      rw [hbelow₂ i (by omega), hbelow i (by omega)]
      exact Function.update_of_ne (by omega) _ _

theorem copyDefinition_spec (name v : List Byte) (vals : List (List Byte)) (data : ℕ → Byte)
    (env : ℕ) (hin : env + definitionLength name (v :: vals) ≤ envSize) :
    ∃ data', copyDefinition name (v :: vals) data env = .ok data' ∧
      Row data' env (name ++ joined 0x3D (v :: vals) ++ [0, 0]) ∧
        ∀ i < env, data' i = data i := by
  rw [definitionLength, ← joined_length 0x3D] at hin
  obtain ⟨data₁, hname, hrow, hbelow⟩ := copyString_spec name data env (by omega)
  have hsplit := row_append.mp hrow
  obtain ⟨data₂, hvals, hrow₂, hbelow₂⟩ :=
    copyValues_spec (v :: vals) 0x3D data₁ (env + name.length) hsplit.2.1 (by omega)
  have hsplit₂ := row_append.mp hrow₂
  have hlast : env + name.length + (joined 0x3D (v :: vals)).length + 1 < envSize := by omega
  refine ⟨Function.update data₂ (env + name.length + (joined 0x3D (v :: vals)).length + 1) 0,
    ?_, ?_, ?_⟩
  · rw [copyDefinition, hname]
    simp only [hvals]
    exact putByte_eq 0 hlast
  · rw [row_append, row_append, List.length_append, ← Nat.add_assoc]
    refine ⟨⟨?_, ?_⟩, ?_, ?_, trivial⟩
    · exact (hsplit.1.congr fun k hk => hbelow₂ _ (by omega)).update 0 (Or.inr (by omega))
    · exact hsplit₂.1.update 0 (Or.inr (by omega))
    · rw [Function.update_of_ne (by omega)]
      exact hsplit₂.2.1
    · exact Function.update_self _ _ _
  · intro i hi
    rw [Function.update_of_ne (by omega), hbelow₂ i (by omega), hbelow i hi]

def Setting.args (c : Setting) : List (List Byte) := c.vals.map fun v => v.chars

theorem variable_text (n : Name) (v : Text) (vals : List Text) :
    Variable.text ⟨n, joinVals v vals⟩ =
      n.chars ++ joined 0x3D ((v :: vals).map fun v => v.chars) := by
  simp only [Variable.text, joinVals, List.map_cons, joined, joined_blank, List.flatMap_map]

theorem copyDefinition_holds {vs : List Variable} (h : Holds data vs) (n : Name) (v : Text)
    (vals : List Text) (hfit : Fits vs n (v :: vals)) :
    ∃ data', copyDefinition n.chars ((v :: vals).map fun v => v.chars) data (flat vs).length =
      .ok data' ∧ Holds data' (vs ++ [⟨n, joinVals v vals⟩]) := by
  have hfit' := hfit
  rw [Fits, definitionLength, ← joined_length 0x3D] at hfit'
  obtain ⟨data', hcopy, hrow, hbelow⟩ :=
    copyDefinition_spec n.chars v.chars (vals.map fun v => v.chars) data _ hfit
  refine ⟨data', hcopy, ?_, ?_⟩
  · rw [block_of_ne (by simp), flat_append, flat_cons, flat_nil, variable_text]
    rw [List.append_assoc, row_append, Nat.zero_add]
    refine ⟨?_, ?_⟩
    · apply (row_append.mp h.flat_row).1.congr
      intro k hk
      rw [Nat.zero_add]
      exact hbelow k hk
    · simpa only [List.append_assoc, List.cons_append, List.nil_append, List.map_cons] using hrow
  · rw [block_of_ne (by simp), flat_append, flat_cons, flat_nil, variable_text]
    simp only [List.length_append, List.length_cons, List.length_nil] at hfit' ⊢
    omega

/-! ## The second half of the command -/

variable {s : Globals} {vs : List Variable}

theorem wp_ofExcept_ok {α : Type} {a : α} {Q : α → Globals → Prop} {E : Fault → Globals → Prop}
    {x : Except Fault α} (h : x = .ok a) : wp (ofExcept x) Q E s ↔ Q a s := by
  rw [h]
  exact wp_pure a

def SameData (s t : Globals) : Prop := t.data = s.data ∧ t.crc = s.crc

theorem SameData.checked {s t : Globals} (h : SameData s t) (hs : Checked s) : Checked t := by
  rw [Checked, h.1, h.2]
  exact hs

/-- What is kept outside the environment agrees with a variable. -/
structure Agrees (s : Globals) (n : Name) (val : Text) : Prop where
  ethaddr : n.chars = ascii "ethaddr" → s.enetaddr = Ethernet.readAddress 6 val.chars
  ipaddr : n.chars = ascii "ipaddr" → s.ipAddr = htonl (readIp 4 0 val.chars)
  loadaddr : n.chars = ascii "loadaddr" → s.loadAddr = (Ethernet.simpleStrtoul val.chars 16).1
  bootfile : n.chars = ascii "bootfile" → s.bootFile = copyFilename val.chars 128

structure SameSpecial (s t : Globals) : Prop where
  ethaddr : t.enetaddr = s.enetaddr
  ipaddr : t.ipAddr = s.ipAddr
  loadaddr : t.loadAddr = s.loadAddr
  bootfile : t.bootFile = s.bootFile

theorem SameSpecial.agrees {s t : Globals} (h : SameSpecial s t) {n : Name} {val : Text}
    (ha : Agrees s n val) : Agrees t n val where
  ethaddr hn := h.ethaddr.trans (ha.ethaddr hn)
  ipaddr hn := h.ipaddr.trans (ha.ipaddr hn)
  loadaddr hn := h.loadaddr.trans (ha.loadaddr hn)
  bootfile hn := h.bootfile.trans (ha.bootfile hn)

theorem envCrcUpdate_spec :
    wp envCrcUpdate (fun _ t => t.data = s.data ∧ Checked t ∧ SameSpecial s t) never s := by
  rw [envCrcUpdate, wp_modify, Checked]
  exact ⟨rfl, rfl, rfl, rfl, rfl, rfl⟩

/-- The names with a copy elsewhere are different, so one update leaves the other copies alone. -/
theorem updateSpecial_spec (n : Name) (val : Text) :
    wp (updateSpecial n.chars val.chars) (fun _ t => SameData s t ∧ Agrees t n val ∧
      ∀ m w, m ≠ n → Agrees s m w → Agrees t m w) never s := by
  have hother : ∀ m : Name, m ≠ n → m.chars ≠ n.chars := fun m hm h => hm (Name.ext_chars h)
  have hip : ascii "ipaddr" ≠ ascii "ethaddr" := by decide
  have hload : ascii "loadaddr" ≠ ascii "ethaddr" ∧ ascii "loadaddr" ≠ ascii "ipaddr" := by decide
  have hboot : ascii "bootfile" ≠ ascii "ethaddr" ∧ ascii "bootfile" ≠ ascii "ipaddr" ∧
    ascii "bootfile" ≠ ascii "loadaddr" := by decide
  simp only [updateSpecial, wp_ite, wp_modify, wp_pure]
  split_ifs with h1 h2 h3 h4
  · refine ⟨⟨rfl, rfl⟩, ⟨fun _ => rfl, ?_, ?_, ?_⟩, fun m w hm ha => ⟨?_, ha.2, ha.3, ha.4⟩⟩
    · exact fun h => absurd (h.symm.trans h1) hip
    · exact fun h => absurd (h.symm.trans h1) hload.1
    · exact fun h => absurd (h.symm.trans h1) hboot.1
    · exact fun h => absurd (h.trans h1.symm) (hother m hm)
  · refine ⟨⟨rfl, rfl⟩, ⟨fun h => absurd h h1, fun _ => rfl, ?_, ?_⟩,
      fun m w hm ha => ⟨ha.1, ?_, ha.3, ha.4⟩⟩
    · exact fun h => absurd (h.symm.trans h2) hload.2
    · exact fun h => absurd (h.symm.trans h2) hboot.2.1
    · exact fun h => absurd (h.trans h2.symm) (hother m hm)
  · refine ⟨⟨rfl, rfl⟩, ⟨fun h => absurd h h1, fun h => absurd h h2, fun _ => rfl, ?_⟩,
      fun m w hm ha => ⟨ha.1, ha.2, ?_, ha.4⟩⟩
    · exact fun h => absurd (h.symm.trans h3) hboot.2.2
    · exact fun h => absurd (h.trans h3.symm) (hother m hm)
  · refine ⟨⟨rfl, rfl⟩, ⟨fun h => absurd h h1, fun h => absurd h h2, fun h => absurd h h3,
      fun _ => rfl⟩, fun m w hm ha => ⟨ha.1, ha.2, ha.3, ?_⟩⟩
    exact fun h => absurd (h.trans h4.symm) (hother m hm)
  · exact ⟨⟨rfl, rfl⟩, ⟨fun h => absurd h h1, fun h => absurd h h2, fun h => absurd h h3,
      fun h => absurd h h4⟩, fun _ _ _ ha => ha⟩

structure Defined (n : Name) (vals : List Text) (s t : Globals) : Prop where
  checked : Checked t
  others : ∀ m w, m ≠ n → Agrees s m w → Agrees t m w
  own : ∀ v, vals = [v] → Agrees t n v

/-- Behind the first check a command appends what fits. The check is renewed unless the definition
is too long; then nothing changes. -/
theorem define_spec (h : Holds s.data vs) (n : Name) (vals : List Text) :
    wp (define n.chars (vals.map fun v => v.chars)) (fun r t =>
      Holds t.data (insertVar vs n vals) ∧
        if vals ≠ [] ∧ ¬ Fits vs n vals then r = 1 ∧ SameData s t ∧ SameSpecial s t
        else r = 0 ∧ Defined n vals s t) never s := by
  cases vals with
  | nil =>
    have hif : ¬ ([] ≠ ([] : List Text) ∧ ¬ Fits vs n []) := fun h' => h'.1 rfl
    simp only [define, List.map_nil]
    rw [wp_bind]
    refine wp_post envCrcUpdate_spec fun _ t ht => ?_
    rw [wp_pure, insertVar, if_neg hif, ht.1]
    exact ⟨h, rfl, ht.2.1, fun _ _ _ ha => ht.2.2.agrees ha, fun v hv => by cases hv⟩
  | cons v vals =>
    have hlt := flat_length_lt h
    simp only [define, List.map_cons]
    rw [wp_bind, wp_get, wp_bind, wp_ofExcept_ok (appendPlace_eq h), wp_ite]
    by_cases hfit : Fits vs n (v :: vals)
    · obtain ⟨data', hcopy, hholds⟩ := copyDefinition_holds h n v vals hfit
      have hroom : ¬ envSize - (flat vs).length <
          definitionLength n.chars (v.chars :: vals.map fun v => v.chars) := by
        have hlen := hfit
        simp only [Fits, List.map_cons] at hlen
        omega
      rw [List.map_cons] at hcopy
      rw [if_neg hroom, wp_bind, wp_ofExcept_ok hcopy, wp_bind, wp_modify, wp_bind]
      refine wp_post envCrcUpdate_spec fun _ t ht => ?_
      rw [wp_bind]
      refine wp_post (updateSpecial_spec _ _) fun _ u hu => ?_
      rw [wp_pure, insertVar, if_pos hfit, if_neg (fun h' => h'.2 hfit), hu.1.1, ht.1]
      refine ⟨hholds, rfl, hu.1.checked ht.2.1, fun m w hm ha => ?_, fun w hw => ?_⟩
      · apply hu.2.2 m w hm
        exact ht.2.2.agrees ⟨ha.1, ha.2, ha.3, ha.4⟩
      · cases hw
        exact hu.2.1
    · have hroom : envSize - (flat vs).length <
          definitionLength n.chars (v.chars :: vals.map fun v => v.chars) := by
        have hlen := hfit
        simp only [Fits, List.map_cons] at hlen
        omega
      have hif : v :: vals ≠ [] ∧ ¬ Fits vs n (v :: vals) := ⟨List.cons_ne_nil _ _, hfit⟩
      rw [if_pos hroom, wp_bind, say, wp_modify, wp_pure, insertVar, if_neg hfit, if_pos hif]
      exact ⟨h, rfl, ⟨rfl, rfl⟩, rfl, rfl, rfl, rfl⟩

end Armboard.Env
