import Armboard.Env.Append

/-! # Runs of commands

One command does to the data what `Setting.apply` does to the variables, and it stops
only when it switches the baud rate and no carriage return is left in the input. By
induction this holds of every run. Three facts go along with it: names stay distinct, the stored check is
that of the data unless the last command that changed something was the overflow, and
the addresses kept outside the environment agree with it.
-/

namespace Armboard.Env
open Exec Storage Uboot

variable (consoleAssign : ℕ → List Byte → Word) (atNull : List Byte)
variable {s : Globals} {vs : List Variable}

/-! ## The checks -/

structure Untouched (s t : Globals) : Prop where
  data : SameData s t
  special : SameSpecial s t

theorem Untouched.refl (s : Globals) : Untouched s s := ⟨⟨rfl, rfl⟩, rfl, rfl, rfl, rfl⟩

theorem Untouched.trans {s t u : Globals} (h : Untouched s t) (h' : Untouched t u) :
    Untouched s u where
  data := ⟨h'.data.1.trans h.data.1, h'.data.2.trans h.data.2⟩
  special := ⟨h'.special.1.trans h.special.1, h'.special.2.trans h.special.2,
    h'.special.3.trans h.special.3, h'.special.4.trans h.special.4⟩

/-- The wait for Enter finds no carriage return in what is left of the input. -/
structure Waits (s : Globals) (e : Fault) (t : Globals) : Prop where
  blocked : e = .blocked
  untouched : Untouched s t
  enter : 0x0D ∉ t.input

theorem afterEnter_eq_none {input : List Byte} : afterEnter input = none ↔ 0x0D ∉ input := by
  induction input with
  | nil => simp [afterEnter]
  | cons c input ih =>
    rw [afterEnter, List.mem_cons, not_or, eq_comm (a := 0x0D)]
    split_ifs with hc
    · simp [hc]
    · rw [ih]
      exact ⟨fun h => ⟨hc, h⟩, fun h => h.2⟩

theorem waitEnter_spec : wp waitEnter (fun _ t => Untouched s t) (Waits s) s := by
  rw [waitEnter, wp_bind, wp_get]
  cases hinput : afterEnter s.input with
  | none => exact ⟨rfl, Untouched.refl s, afterEnter_eq_none.mp hinput⟩
  | some input => exact ⟨⟨rfl, rfl⟩, rfl, rfl, rfl, rfl⟩

def Supported (vals : List (List Byte)) : Prop :=
  (Ethernet.simpleStrtoul (vals.headD atNull) 10).1 ∈ baudrateTable

theorem switchBaudrate_spec (vals : List (List Byte)) :
    wp (switchBaudrate atNull vals) (fun r t =>
      r = baudrateTable.contains (Ethernet.simpleStrtoul (vals.headD atNull) 10).1 ∧
        Untouched s t) (fun e t => Waits s e t ∧ Supported atNull vals) s := by
  simp only [switchBaudrate, wp_ite]
  split_ifs with h
  · simp only [say, wp_bind, wp_modify]
    have hst : Untouched s { s with
        output := .printf "## Switch baudrate to %d bps and press ENTER ...\n"
          [.word (Ethernet.simpleStrtoul (vals.headD atNull) 10).1] :: s.output
        baudrate := (Ethernet.simpleStrtoul (vals.headD atNull) 10).1 } :=
      ⟨⟨rfl, rfl⟩, rfl, rfl, rfl, rfl⟩
    refine wp_mono waitEnter_spec (fun _ t ht => ?_)
      (fun e t ht => ⟨⟨ht.blocked, hst.trans ht.untouched, ht.enter⟩, h⟩)
    rw [wp_pure, List.contains_iff_mem.mpr h]
    exact ⟨rfl, hst.trans ht⟩
  · simp only [say, wp_bind, wp_modify, wp_pure]
    have hno : baudrateTable.contains (Ethernet.simpleStrtoul (vals.headD atNull) 10).1 = false :=
      Bool.eq_false_iff.mpr fun hc => h (List.contains_iff_mem.mp hc)
    exact ⟨hno.symm, ⟨rfl, rfl⟩, rfl, rfl, rfl, rfl⟩

theorem mayReplace_spec (c : Setting) :
    wp (mayReplace consoleAssign atNull c.name.chars c.args) (fun r t =>
      r = c.replaceable consoleAssign atNull ∧ Untouched s t)
      (fun e t => Waits s e t ∧ c.name.chars = ascii "baudrate" ∧ Supported atNull c.args) s := by
  have hbaud (t : Globals) (hst : Untouched s t) :
      wp (if c.name.chars = ascii "baudrate" then switchBaudrate atNull c.args else pure true)
        (fun r u => (r = (decide (c.name.chars ≠ ascii "baudrate") ||
          baudrateTable.contains (Ethernet.simpleStrtoul (c.args.headD atNull) 10).1)) ∧
            Untouched s u)
        (fun e u => Waits s e u ∧ c.name.chars = ascii "baudrate" ∧ Supported atNull c.args) t := by
    rw [wp_ite]
    split_ifs with hname
    · refine wp_mono (switchBaudrate_spec atNull c.args) (fun r u hu => ?_) (fun e u hu => ?_)
      · simp only [hname, ne_eq, not_true, decide_false, Bool.false_or]
        exact ⟨hu.1, hst.trans hu.2⟩
      · exact ⟨⟨hu.1.blocked, hst.trans hu.1.untouched, hu.1.enter⟩, hname, hu.2⟩
    · simp only [wp_pure, hname, ne_eq, not_false_eq_true, decide_true, Bool.true_or, true_and]
      exact hst
  rw [mayReplace, Setting.replaceable]
  cases consoleOf c.name.chars with
  | none =>
    simp only [wp_bind, wp_pure, if_true, Bool.true_and]
    exact hbaud s (Untouched.refl s)
  | some console =>
    cases hvals : c.vals with
    | nil =>
      simp only [Setting.args, hvals, List.map_nil, say, wp_bind, wp_modify, wp_pure]
      exact ⟨rfl, ⟨rfl, rfl⟩, rfl, rfl, rfl, rfl⟩
    | cons v vals =>
      have hst : Untouched s { s with assigned := (console, v.chars) :: s.assigned } :=
        ⟨⟨rfl, rfl⟩, rfl, rfl, rfl, rfl⟩
      have hargs : c.args = v.chars :: vals.map fun v => v.chars := by rw [Setting.args, hvals]; rfl
      have hnext := hbaud _ hst
      simp only [hargs, List.map_cons, wp_bind, wp_modify, wp_pure] at hnext ⊢
      cases (consoleAssign console v.chars).slt 0 with
      | false => exact hnext
      | true => exact ⟨rfl, hst⟩

/-! ## Taking a variable out -/

theorem lookup_eq_none {n : Name} : lookup vs n = none ↔ ∀ v ∈ vs, v.name ≠ n := by
  simp [lookup]

/-- The first variable of a name stands between others, and only these are left. -/
theorem removeVar_split {n : Name} (h : lookup vs n ≠ none) : ∃ pre v post,
    vs = pre ++ v :: post ∧ v.name = n ∧ (∀ w ∈ pre, w.name ≠ n) ∧ removeVar vs n = pre ++ post := by
  rw [ne_eq, lookup_eq_none] at h
  push Not at h
  obtain ⟨u, hu, hun⟩ := h
  obtain ⟨v, pre, post, hpre, hv, hvs, herase⟩ :=
    List.exists_of_eraseP (p := fun v => decide (v.name = n)) hu (decide_eq_true hun)
  exact ⟨pre, v, post, hvs, of_decide_eq_true hv, fun w hw hn => hpre w hw (decide_eq_true hn),
    herase⟩

theorem removeVar_absent {n : Name} (h : lookup vs n = none) : removeVar vs n = vs :=
  List.eraseP_of_forall_not fun v hv hn => lookup_eq_none.mp h v hv (of_decide_eq_true hn)

/-! ## One command -/

/-- The command replaces the definition of `baudrate` by a supported rate. -/
structure Setting.Switches (vs : List Variable) (c : Setting) : Prop where
  name : c.name.chars = ascii "baudrate"
  present : ∃ n, c.key = some n ∧ lookup vs n ≠ none
  supported : Supported atNull c.args

def Setting.renews (vs : List Variable) (c : Setting) : Prop :=
  ¬ c.refused consoleAssign atNull vs ∧ ¬ c.overflows consoleAssign atNull vs

/-- The old definition is gone, and the check is still that of the data with it. -/
def Setting.outdates (vs : List Variable) (c : Setting) : Prop :=
  c.overflows consoleAssign atNull vs ∧ ∃ n, c.key = some n ∧ lookup vs n ≠ none

structure Ran (vs : List Variable) (c : Setting) (s : Globals) (r : Word) (t : Globals) : Prop where
  holds : Holds t.data (c.apply consoleAssign atNull vs)
  answer : r = 0 ↔ c.renews consoleAssign atNull vs
  checked : c.renews consoleAssign atNull vs → Checked t
  same : ¬ c.renews consoleAssign atNull vs → ¬ c.outdates consoleAssign atNull vs → SameData s t
  crc : ¬ c.renews consoleAssign atNull vs → t.crc = s.crc
  special : ¬ c.renews consoleAssign atNull vs → SameSpecial s t
  others : ∀ m w, c.key ≠ some m → Agrees s m w → Agrees t m w
  own : ∀ n v, c.key = some n → c.vals = [v] → c.renews consoleAssign atNull vs → Agrees t n v

theorem ran_refused {c : Setting} (h : Holds s.data vs) (hc : c.refused consoleAssign atNull vs)
    {t : Globals} (ht : Untouched s t) : Ran consoleAssign atNull vs c s 1 t where
  holds := by
    rw [ht.data.1, Setting.apply]
    cases c.key with
    | none => exact h
    | some n =>
      simp only [hc, if_true]
      exact h
  answer := ⟨fun hr => absurd hr (by decide), fun hr => absurd hc hr.1⟩
  checked hr := absurd hc hr.1
  same _ _ := ht.data
  crc _ := ht.data.2
  special _ := ht.special
  others _ _ _ ha := ht.special.agrees ha
  own _ _ _ _ hr := absurd hc hr.1

theorem key_chars {c : Setting} {n : Name} (h : c.key = some n) : c.name.chars = n.chars := by
  rw [Setting.key] at h
  split_ifs at h with hplain
  rw [← Option.some.inj h]

/-- The second half, behind the removal of an old definition. -/
theorem ran_defined {c : Setting} {n : Name} (hkey : c.key = some n)
    (hgo : ¬ c.refused consoleAssign atNull vs) {s₁ : Globals}
    (hcrc : s₁.crc = s.crc) (hspecial : SameSpecial s s₁)
    (hsame : lookup vs n = none → s₁.data = s.data) (h₁ : Holds s₁.data (removeVar vs n)) :
    wp (define c.name.chars c.args) (Ran consoleAssign atNull vs c s) never s₁ := by
  have happly : c.apply consoleAssign atNull vs = insertVar (removeVar vs n) n c.vals := by
    simp only [Setting.apply, hkey, hgo, if_false]
  have hover : c.overflows consoleAssign atNull vs ↔
      c.vals ≠ [] ∧ ¬ Fits (removeVar vs n) n c.vals := by
    simp only [Setting.overflows, hkey, hgo, not_false_eq_true, true_and]
  have hrenews : c.renews consoleAssign atNull vs ↔
      ¬ (c.vals ≠ [] ∧ ¬ Fits (removeVar vs n) n c.vals) := by
    rw [Setting.renews, hover]
    exact ⟨fun hr => hr.2, fun hr => ⟨hgo, hr⟩⟩
  rw [key_chars hkey]
  refine wp_post (define_spec h₁ n c.vals) fun r t ht => ?_
  obtain ⟨hholds, hdone⟩ := ht
  rw [← happly] at hholds
  by_cases hfull : c.vals ≠ [] ∧ ¬ Fits (removeVar vs n) n c.vals
  · have hno : ¬ c.renews consoleAssign atNull vs := fun hr => hrenews.mp hr hfull
    rw [if_pos hfull] at hdone
    obtain ⟨hr1, hdata, hspec⟩ := hdone
    have hagrees {m : Name} {w : Text} (ha : Agrees s m w) : Agrees t m w :=
      hspec.agrees (hspecial.agrees ha)
    refine ⟨hholds, ⟨fun hr => ?_, fun hr => absurd hr hno⟩, fun hr => absurd hr hno, ?_, ?_, ?_,
      fun _ _ _ ha => hagrees ha, fun _ _ _ _ hr => absurd hr hno⟩
    · rw [hr1] at hr
      exact absurd hr (by decide)
    · intro _ hkept
      have habsent : lookup vs n = none := by
        by_contra hpresent
        exact hkept ⟨hover.mpr hfull, n, hkey, hpresent⟩
      exact ⟨hdata.1.trans (hsame habsent), hdata.2.trans hcrc⟩
    · exact fun _ => hdata.2.trans hcrc
    · exact fun _ => ⟨hspec.1.trans hspecial.1, hspec.2.trans hspecial.2,
        hspec.3.trans hspecial.3, hspec.4.trans hspecial.4⟩
  · have hyes : c.renews consoleAssign atNull vs := hrenews.mpr hfull
    rw [if_neg hfull] at hdone
    obtain ⟨hr0, hdef⟩ := hdone
    refine ⟨hholds, ⟨fun _ => hyes, fun _ => hr0⟩, fun _ => hdef.checked, fun hno => absurd hyes hno,
      fun hno => absurd hyes hno, fun hno => absurd hyes hno, ?_, ?_⟩
    · intro m w hm ha
      refine hdef.others m w (fun hmn => hm ?_) (hspecial.agrees ha)
      rw [hkey, hmn]
    · intro m v hm hv _
      have hmn : n = m := Option.some.inj (hkey.symm.trans hm)
      exact hmn ▸ hdef.own v hv

/-- One command, from any environment that holds variables. -/
theorem doSetenv_spec (h : Holds s.data vs) (c : Setting) :
    wp (doSetenv consoleAssign atNull c.name.chars c.args) (Ran consoleAssign atNull vs c s)
      (fun e t => Waits s e t ∧ c.Switches atNull vs) s := by
  rw [doSetenv, wp_ite]
  split_ifs with hplain
  · have hrefused : c.refused consoleAssign atNull vs := by
      simp only [Setting.refused, Setting.key, List.contains_iff_mem.mpr hplain, dif_pos]
    rw [wp_bind, say, wp_modify, wp_pure]
    exact ran_refused consoleAssign atNull h hrefused ⟨⟨rfl, rfl⟩, rfl, rfl, rfl, rfl⟩
  · have hkey : c.key = some ⟨c.name, hplain⟩ :=
      dif_neg fun hc => hplain (List.contains_iff_mem.mp hc)
    have hlt := flat_length_lt h
    have hlen := flat_length_ge vs
    have hrow := h.flat_row
    by_cases habsent : lookup vs ⟨c.name, hplain⟩ = none
    · have hgo : ¬ c.refused consoleAssign atNull vs := by
        simp [Setting.refused, hkey, habsent]
      obtain ⟨env, nxt, hfind⟩ := findEntry_absent ⟨c.name, hplain⟩ vs (envSize + 1) 0 0 hrow
        (by omega) (by omega) (lookup_eq_none.mp habsent)
      rw [wp_bind, wp_get, wp_bind, wp_ofExcept_ok hfind]
      refine wp_total (ran_defined consoleAssign atNull hkey hgo rfl ⟨rfl, rfl, rfl, rfl⟩
        (fun _ => rfl) ?_) fun _ _ hr => hr
      rwa [removeVar_absent habsent]
    · obtain ⟨pre, v, post, hvs, hv, hpre, hremove⟩ := removeVar_split habsent
      subst hvs
      have hpos : pre.length < envSize + 1 := by
        rw [List.length_append] at hlen
        omega
      obtain ⟨val, hfind⟩ := findEntry_present ⟨c.name, hplain⟩ v hv post pre (envSize + 1) 0 0 hrow
        (by omega) hpos hpre
      simp only [Nat.zero_add] at hfind
      rw [wp_bind, wp_get, wp_bind, wp_ofExcept_ok hfind, wp_bind]
      refine wp_mono (mayReplace_spec consoleAssign atNull c) (fun good t ht => ?_)
        (fun e t ht => ⟨ht.1, ht.2.1, ⟨_, hkey, habsent⟩, ht.2.2⟩)
      obtain ⟨hgood, ht⟩ := ht
      rw [wp_ite]
      cases good with
      | false =>
        have hrefused : c.refused consoleAssign atNull (pre ++ v :: post) := by
          simp only [Setting.refused, hkey]
          exact ⟨habsent, hgood.symm⟩
        exact ran_refused consoleAssign atNull h hrefused ht
      | true =>
        have hgo : ¬ c.refused consoleAssign atNull (pre ++ v :: post) := by
          simp only [Setting.refused, hkey, ← hgood]
          simp
        obtain ⟨data', hdelete, hholds⟩ := deleteEntry_spec pre post v (ht.data.1.symm ▸ h)
        rw [if_pos rfl, wp_bind, wp_get, wp_bind, wp_ofExcept_ok hdelete, wp_bind, wp_modify]
        refine wp_total (ran_defined consoleAssign atNull hkey hgo ht.data.2
          ⟨ht.special.1, ht.special.2, ht.special.3, ht.special.4⟩ (fun hn => absurd hn habsent)
          ?_) fun _ _ hr => hr
        rw [hremove]
        exact hholds

end Armboard.Env
