import Armboard.Env.Commands

/-! # The store of variables

What the environment is for: distinct names with values, and a mark that the check kept
with it is up to date. A command works on this store; the environment in memory
represents the store before a run of commands and the store after it. The mark goes
only when a definition is deleted and the new one does not fit.
-/

namespace Armboard.Env
open Exec Storage Uboot

variable (consoleAssign : ℕ → List Byte → Word) (atNull : List Byte)
variable {s : Globals} {vs : List Variable}

/-! ## Distinct names -/

theorem lookup_removeVar (hd : (vs.map Variable.name).Nodup) (n m : Name) :
    lookup (removeVar vs n) m = if m = n then none else lookup vs m := by
  by_cases habsent : lookup vs n = none
  · rw [removeVar_absent habsent]
    split_ifs with hm
    · rw [hm, habsent]
    · rfl
  · obtain ⟨pre, v, post, hvs, hv, hpre, hremove⟩ := removeVar_split habsent
    subst hvs
    rw [hremove]
    split_ifs with hm
    · rw [hm, lookup_eq_none]
      intro w hw
      rw [List.map_append, List.map_cons, hv, List.nodup_middle, List.nodup_cons,
        ← List.map_append] at hd
      exact fun hn => hd.1 (List.mem_map.mpr ⟨w, hw, hn⟩)
    · have hne : decide (v.name = m) = false :=
        decide_eq_false (fun h => hm (h.symm.trans hv))
      simp only [lookup, List.find?_append, List.find?_cons, hne]

theorem lookup_snoc (v : Variable) (m : Name) (h : lookup vs v.name = none) :
    lookup (vs ++ [v]) m = if m = v.name then some v.value else lookup vs m := by
  split_ifs with hm
  · subst hm
    have hnone : vs.find? (fun w => decide (w.name = v.name)) = none := Option.map_eq_none_iff.mp h
    simp [lookup, List.find?_append, hnone]
  · have hne : decide (v.name = m) = false := decide_eq_false (fun h => hm h.symm)
    simp [lookup, List.find?_append, hne]

theorem names_removeVar (hd : (vs.map Variable.name).Nodup) (n : Name) :
    ((removeVar vs n).map Variable.name).Nodup :=
  (List.eraseP_sublist.map _).nodup hd

theorem names_insertVar (hd : (vs.map Variable.name).Nodup) {n : Name} (hn : lookup vs n = none)
    (vals : List Text) : ((insertVar vs n vals).map Variable.name).Nodup := by
  cases vals with
  | nil => exact hd
  | cons v vals =>
    rw [insertVar]
    split_ifs with hfit
    · rw [List.map_append, List.map_singleton, ← List.concat_eq_append, List.nodup_concat]
      refine ⟨fun hmem => ?_, hd⟩
      obtain ⟨w, hw, hwn⟩ := List.mem_map.mp hmem
      exact lookup_eq_none.mp hn w hw hwn
    · exact hd

theorem names_apply (hd : (vs.map Variable.name).Nodup) (c : Setting) :
    ((c.apply consoleAssign atNull vs).map Variable.name).Nodup := by
  rw [Setting.apply]
  cases c.key with
  | none => exact hd
  | some n =>
    simp only
    split_ifs with hc
    · exact hd
    · apply names_insertVar (names_removeVar hd n)
      rw [lookup_removeVar hd, if_pos rfl]

/-! ## The store -/

/-- Variables of distinct names, and whether their check is up to date. -/
structure Store where
  vars : List Variable
  checked : Bool
  distinct : (vars.map Variable.name).Nodup

instance (vs : List Variable) (c : Setting) : Decidable (c.overflows consoleAssign atNull vs) :=
  decidable_of_iff (c.key.any fun n => decide (¬ c.refused consoleAssign atNull vs ∧ c.vals ≠ [] ∧
    ¬ Fits (removeVar vs n) n c.vals)) (by rw [Setting.overflows]; cases c.key <;> simp)

instance (vs : List Variable) (c : Setting) : Decidable (c.renews consoleAssign atNull vs) :=
  instDecidableAnd

instance (vs : List Variable) (c : Setting) : Decidable (c.outdates consoleAssign atNull vs) :=
  decidable_of_iff (c.overflows consoleAssign atNull vs ∧ (c.key.any fun n => (lookup vs n).isSome))
    (by simp [Setting.outdates, Option.any_eq_true, Option.isSome_iff_ne_none])

def Store.set (m : Store) (c : Setting) : Store where
  vars := c.apply consoleAssign atNull m.vars
  checked := c.renews consoleAssign atNull m.vars ||
    (m.checked && !decide (c.outdates consoleAssign atNull m.vars))
  distinct := names_apply consoleAssign atNull m.distinct c

/-- The environment in memory stands for the store. -/
structure Represents (s : Globals) (m : Store) : Prop where
  holds : Holds s.data m.vars
  checked : m.checked = true → Checked s

def setAll : List Setting → Command Unit
  | [] => pure ()
  | c :: cs => do
    let _ ← doSetenv consoleAssign atNull c.name.chars c.args
    setAll cs

theorem Ran.represents {m : Store} (h : Represents s m) {c : Setting} {r : Word} {t : Globals}
    (hran : Ran consoleAssign atNull m.vars c s r t) :
    Represents t (m.set consoleAssign atNull c) where
  holds := hran.holds
  checked hc := by
    simp only [Store.set, Bool.or_eq_true, decide_eq_true_eq, Bool.and_eq_true, Bool.not_eq_true',
      decide_eq_false_iff_not] at hc
    by_cases hrenews : c.renews consoleAssign atNull m.vars
    · exact hran.checked hrenews
    · rcases hc with hc | hc
      · exact absurd hc hrenews
      · exact (hran.same hrenews hc.2).checked (h.checked hc.1)

theorem Untouched.represents {m : Store} (h : Represents s m) {t : Globals} (ht : Untouched s t) :
    Represents t m where
  holds := ht.data.1.symm ▸ h.holds
  checked hc := ht.data.checked (h.checked hc)

theorem setAll_keeps (P : Store → Globals → Prop) (cs : List Setting)
    (hstep : ∀ c ∈ cs, ∀ m s r t, P m s → Ran consoleAssign atNull m.vars c s r t →
      P (m.set consoleAssign atNull c) t) : ∀ (m : Store) (s : Globals), Represents s m → P m s →
    wp (setAll consoleAssign atNull cs)
      (fun _ t => Represents t (cs.foldl (Store.set consoleAssign atNull) m) ∧
        P (cs.foldl (Store.set consoleAssign atNull) m) t)
      (fun e t => e = .blocked ∧ 0x0D ∉ t.input ∧ ∃ k c, cs[k]? = some c ∧
        Represents t ((cs.take k).foldl (Store.set consoleAssign atNull) m) ∧
        c.Switches atNull ((cs.take k).foldl (Store.set consoleAssign atNull) m).vars) s := by
  induction cs with
  | nil => exact fun m s h hP => ⟨h, hP⟩
  | cons c cs ih =>
    intro m s h hP
    rw [setAll, wp_bind]
    refine wp_mono (doSetenv_spec consoleAssign atNull h.holds c) (fun r t ht => ?_)
      (fun e t ht => ⟨ht.1.blocked, ht.1.enter, 0, c, rfl, ht.1.untouched.represents h, ht.2⟩)
    have hnext := ih (fun c hc => hstep c (List.mem_cons_of_mem _ hc)) _ t
      (ht.represents consoleAssign atNull h) (hstep c List.mem_cons_self m s r t hP ht)
    refine wp_mono hnext (fun _ u hu => hu) (fun e u hu => ⟨hu.1, hu.2.1, ?_⟩)
    obtain ⟨k, c', hk, hu⟩ := hu.2.2
    exact ⟨k + 1, c', hk, hu⟩

theorem setAll_represents {cs : List Setting} {m : Store} (h : Represents s m) {t : Globals}
    (ht : setAll consoleAssign atNull cs s = .ok () t) :
    Represents t (cs.foldl (Store.set consoleAssign atNull) m) :=
  (wp_of_ok (setAll_keeps consoleAssign atNull (fun _ _ => True) cs
    (fun _ _ _ _ _ _ _ _ => trivial) m s h trivial) ht).1

/-- A run without a command for the baud rate comes to its end. -/
theorem setAll_ends {cs : List Setting} (hcs : ∀ c ∈ cs, c.name.chars ≠ ascii "baudrate") {m : Store}
    (h : Represents s m) : ∃ t, setAll consoleAssign atNull cs s = .ok () t := by
  cases hrun : setAll consoleAssign atNull cs s with
  | ok r t => exact ⟨t, rfl⟩
  | error e t =>
    obtain ⟨-, -, k, c, hc, -, hswitches⟩ := wp_of_error (setAll_keeps consoleAssign atNull
      (fun _ _ => True) cs (fun _ _ _ _ _ _ _ _ => trivial) m s h trivial) hrun
    exact absurd hswitches.name (hcs c (List.mem_of_getElem? hc))

/-! ## Reading back -/

def Setting.value (c : Setting) : Option Text :=
  match c.vals with
  | [] => none
  | v :: vals => some (joinVals v vals)

theorem lookup_insertVar {n : Name} (hn : lookup vs n = none) {c : Setting}
    (hfit : ¬ (c.vals ≠ [] ∧ ¬ Fits vs n c.vals)) (m : Name) :
    lookup (insertVar vs n c.vals) m = if m = n then c.value else lookup vs m := by
  rw [Setting.value]
  cases hvals : c.vals with
  | nil =>
    rw [insertVar]
    split_ifs with hm
    · rw [hm, hn]
    · rfl
  | cons v vals =>
    rw [hvals] at hfit
    have hroom : Fits vs n (v :: vals) := by
      by_contra hno
      exact hfit ⟨List.cons_ne_nil _ _, hno⟩
    rw [insertVar, if_pos hroom, lookup_snoc _ _ hn]

theorem lookup_apply (hd : (vs.map Variable.name).Nodup) (c : Setting) (n : Name) :
    lookup (c.apply consoleAssign atNull vs) n =
      if c.key = some n then
        if c.renews consoleAssign atNull vs then c.value
        else if c.overflows consoleAssign atNull vs then none else lookup vs n
      else lookup vs n := by
  cases hkey : c.key with
  | none => simp only [Setting.apply, hkey, reduceCtorEq, if_false]
  | some k =>
    simp only [Setting.apply, Setting.renews, Setting.overflows, hkey, Option.some.injEq]
    by_cases hc : c.refused consoleAssign atNull vs
    · simp [hc]
    · have hk : lookup (removeVar vs k) k = none := by rw [lookup_removeVar hd, if_pos rfl]
      simp only [hc, if_false, not_false_eq_true, true_and]
      by_cases hfull : c.vals ≠ [] ∧ ¬ Fits (removeVar vs k) k c.vals
      · have hinsert : insertVar (removeVar vs k) k c.vals = removeVar vs k := by
          cases hvals : c.vals with
          | nil => exact absurd hvals hfull.1
          | cons v vals =>
            rw [hvals] at hfull
            exact if_neg hfull.2
        rw [hinsert, lookup_removeVar hd, if_neg (not_not_intro hfull), if_pos hfull]
        simp only [@eq_comm _ k]
      · rw [lookup_insertVar hk hfull, lookup_removeVar hd, if_pos hfull]
        simp only [@eq_comm _ k]
        split_ifs <;> rfl

/-- In every run of commands the environment in memory keeps its form, its names stay distinct, and
`getenv` finds the variables of the store. The check is that of the data unless a definition
was deleted for one that does not fit. A run stops only where the command that is next replaces
the baud rate by a supported one and no Enter is left in the input, and then the environment is
what the commands before have left. -/
theorem setAll_store (cs : List Setting) (m : Store) (h : Represents s m) :
    (∀ t, setAll consoleAssign atNull cs s = .ok () t →
      Represents t (cs.foldl (Store.set consoleAssign atNull) m) ∧
        ∀ n, Reads t.data n (lookup (cs.foldl (Store.set consoleAssign atNull) m).vars n)) ∧
    ∀ e t, setAll consoleAssign atNull cs s = .error e t → e = .blocked ∧ 0x0D ∉ t.input ∧
      ∃ k c, cs[k]? = some c ∧ Represents t ((cs.take k).foldl (Store.set consoleAssign atNull) m) ∧
        c.Switches atNull ((cs.take k).foldl (Store.set consoleAssign atNull) m).vars := by
  have hrun := setAll_keeps consoleAssign atNull (fun _ _ => True) cs
    (fun _ _ _ _ _ _ _ _ => trivial) m s h trivial
  refine ⟨fun t ht => ?_, fun e t ht => ?_⟩
  · have hend := (wp_of_ok hrun ht).1
    exact ⟨hend, fun n => hend.holds.reads n⟩
  · have hstop := wp_of_error hrun ht
    exact hstop

def emptyGlobals : Globals := ⟨fun _ => 0, 0, 0, [], 0, 0, [], [], [], []⟩

def loadaddrName : Name := ⟨⟨ascii "loadaddr", by decide⟩, by decide⟩

def bootfileName : Name := ⟨⟨ascii "bootfile", by decide⟩, by decide⟩

/-- `loadaddr=10` and `bootfile=a`. -/
def twoVars : List Variable :=
  [⟨loadaddrName, ⟨ascii "10", by decide⟩⟩, ⟨bootfileName, ⟨ascii "a", by decide⟩⟩]

def twoGlobals : Globals := { emptyGlobals with
  data := fun k => (block twoVars).getD k 0
  loadAddr := 0x10
  bootFile := ascii "a" }

def twoStore : Store := ⟨twoVars, false, by decide⟩

theorem represents_two : Represents twoGlobals twoStore where
  holds := ⟨row_getD _ _, by decide⟩
  checked h := absurd h (by decide)

/-- `setenv a=b`, which is turned down. -/
def setBad : Setting := ⟨⟨ascii "a=b", by decide⟩, []⟩

def afterBad (s : Globals) : Globals := { s with
  output := .printf "## Error: illegal character '=' in variable name \"%s\"\n"
    [argText (ascii "a=b")] :: s.output }

/-- `setenv loadaddr 20`. -/
def setLoadaddr : Setting := ⟨loadaddrName.toText, [⟨ascii "20", by decide⟩]⟩

/-- `setenv bootfile`. -/
def clearBootfile : Setting := ⟨bootfileName.toText, []⟩

/-- A command that is turned down, a replacement and a deletion. -/
def edits : List Setting := [setBad, setLoadaddr, clearBootfile]

theorem edits_end : ∃ t, setAll (fun _ _ => 0) [] edits twoGlobals = .ok () t :=
  setAll_ends (fun _ _ => 0) [] (by decide) represents_two

theorem setAll_store_edits : ∃ t, setAll (fun _ _ => 0) [] edits twoGlobals = .ok () t ∧
    Reads t.data loadaddrName (some ⟨ascii "20", by decide⟩) ∧ Reads t.data bootfileName none ∧
      Checked t := by
  obtain ⟨t, ht⟩ := edits_end
  obtain ⟨hend, hreads⟩ := (setAll_store (fun _ _ => 0) [] edits twoStore represents_two).1 t ht
  exact ⟨t, ht, hreads loadaddrName, hreads bootfileName, hend.checked (by decide)⟩

/-- Behind any run, a command that answers 0 makes `getenv` find its values, joined by blanks, or
nothing for a deletion. A command that answers otherwise leaves its name as it was, or without
a value when the new definition does not fit. Every other name reads as before. -/
theorem setAll_getenv (cs : List Setting) (m : Store) (h : Represents s m) (t : Globals)
    (ht : setAll consoleAssign atNull cs s = .ok () t) (c : Setting) :
    (∀ r u, doSetenv consoleAssign atNull c.name.chars c.args t = .ok r u →
      ∀ n, Reads u.data n
        (if c.key = some n then
          if r = 0 then c.value
          else if c.overflows consoleAssign atNull
              (cs.foldl (Store.set consoleAssign atNull) m).vars then none
          else lookup (cs.foldl (Store.set consoleAssign atNull) m).vars n
        else lookup (cs.foldl (Store.set consoleAssign atNull) m).vars n)) ∧
    ∀ e u, doSetenv consoleAssign atNull c.name.chars c.args t = .error e u → e = .blocked ∧
      0x0D ∉ u.input ∧ c.Switches atNull (cs.foldl (Store.set consoleAssign atNull) m).vars := by
  have hend := setAll_represents consoleAssign atNull h ht
  have hstep := doSetenv_spec consoleAssign atNull hend.holds c
  refine ⟨fun r u hu n => ?_, fun e u hu => ?_⟩
  · have hran := wp_of_ok hstep hu
    have hreads := hran.holds.reads n
    rw [lookup_apply consoleAssign atNull (cs.foldl (Store.set consoleAssign atNull) m).distinct]
      at hreads
    simp only [hran.answer]
    exact hreads
  · have hstop := wp_of_error hstep hu
    exact ⟨hstop.1.blocked, hstop.1.enter, hstop.2⟩

/-- `setenv loadaddr 40 41`. -/
def setTwoValues : Setting := ⟨loadaddrName.toText, [⟨ascii "40", by decide⟩, ⟨ascii "41", by decide⟩]⟩

theorem setAll_getenv_edits : ∃ t u, setAll (fun _ _ => 0) [] edits twoGlobals = .ok () t ∧
    doSetenv (fun _ _ => 0) [] setTwoValues.name.chars setTwoValues.args t = .ok 0 u ∧
      Reads u.data loadaddrName (some ⟨ascii "40 41", by decide⟩) ∧ Reads u.data bootfileName none := by
  obtain ⟨t, ht⟩ := edits_end
  have hget := setAll_getenv (fun _ _ => 0) [] edits twoStore represents_two t ht setTwoValues
  cases hrun : doSetenv (fun _ _ => 0) [] setTwoValues.name.chars setTwoValues.args t with
  | ok r u =>
    have hran := wp_of_ok (doSetenv_spec (fun _ _ => 0) []
      (setAll_represents (fun _ _ => 0) [] represents_two ht).holds setTwoValues) hrun
    have hr : r = 0 := hran.answer.mpr (by decide)
    subst hr
    exact ⟨t, u, ht, hrun, hget.1 0 u hrun loadaddrName, hget.1 0 u hrun bootfileName⟩
  | error e u =>
    obtain ⟨-, -, hswitches⟩ := hget.2 e u hrun
    exact absurd hswitches.name (by decide)

/-! ## Copies outside the environment -/

theorem joinVals_nil (v : Text) : joinVals v [] = v := by
  cases v
  simp [joinVals]

/-- In every run of commands with one value at most, the Ethernet and IP addresses, the load address
and the boot file agree with the variables of these names, as far as these are set. -/
theorem setAll_agrees (cs : List Setting) (hone : ∀ c ∈ cs, c.vals.length ≤ 1) (m : Store)
    (h : Represents s m) (hagree : ∀ n w, lookup m.vars n = some w → Agrees s n w) (t : Globals)
    (ht : setAll consoleAssign atNull cs s = .ok () t) (n : Name) (w : Text)
    (hw : lookup (cs.foldl (Store.set consoleAssign atNull) m).vars n = some w) : Agrees t n w := by
  have hrun := setAll_keeps consoleAssign atNull
    (fun m s => ∀ n w, lookup m.vars n = some w → Agrees s n w) cs ?_ m s h hagree
  · exact (wp_of_ok hrun ht).2 n w hw
  intro c hc m s r t hbefore hran n w hw
  change lookup (c.apply consoleAssign atNull m.vars) n = some w at hw
  rw [lookup_apply consoleAssign atNull m.distinct] at hw
  by_cases hkey : c.key = some n
  · rw [if_pos hkey] at hw
    by_cases hrenews : c.renews consoleAssign atNull m.vars
    · rw [if_pos hrenews, Setting.value] at hw
      have hlen := hone c hc
      cases hvals : c.vals with
      | nil => simp [hvals] at hw
      | cons v vals =>
        rw [hvals, List.length_cons] at hlen
        have hnil : vals = [] := List.length_eq_zero_iff.mp (by omega)
        simp only [hvals, hnil, joinVals_nil, Option.some.injEq] at hw
        rw [← hw]
        exact hran.own n v hkey (by rw [hvals, hnil]) hrenews
    · rw [if_neg hrenews] at hw
      split_ifs at hw
      exact (hran.special hrenews).agrees (hbefore n w hw)
  · rw [if_neg hkey] at hw
    exact hran.others n w hkey (hbefore n w hw)

theorem agrees_two {n : Name} {w : Text} (hw : lookup twoVars n = some w) : Agrees twoGlobals n w := by
  simp only [lookup, twoVars, List.find?_cons, List.find?_nil] at hw
  by_cases hl : loadaddrName = n
  · subst hl
    simp only [decide_true, Option.map_some, Option.some.injEq] at hw
    subst hw
    exact ⟨by decide, by decide, fun _ => by decide, by decide⟩
  · by_cases hb : bootfileName = n
    · subst hb
      simp only [hl, decide_false, decide_true, Option.map_some, Option.some.injEq] at hw
      subst hw
      exact ⟨by decide, by decide, by decide, fun _ => by decide⟩
    · simp only [hl, hb, decide_false, Option.map_none, reduceCtorEq] at hw

theorem setAll_agrees_edits : ∃ t, setAll (fun _ _ => 0) [] edits twoGlobals = .ok () t ∧
    t.loadAddr = 0x20 := by
  obtain ⟨t, ht⟩ := edits_end
  have hagree := setAll_agrees (fun _ _ => 0) [] edits (by decide) twoStore represents_two
    (fun _ _ => agrees_two) t ht loadaddrName ⟨ascii "20", by decide⟩ rfl
  exact ⟨t, ht, hagree.loadaddr rfl⟩

end Armboard.Env
