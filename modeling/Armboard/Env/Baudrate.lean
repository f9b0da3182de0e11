import Armboard.Env.Lifetime

/-! # The baud rate at start-up

`init_baudrate` lets `getenv_r` copy the variable `baudrate` into 64 bytes on the stack and
reads a number from there. `getenv_r` stores no terminator behind a value that does not
fit, and one too many, behind the buffer, when value and terminator just fill it.
`setenv` switches the rate only when it replaces a definition.
-/

namespace Armboard.Env
open Exec Ethernet Storage Uboot

abbrev configBaudrate : Word := 115200

/-- `init_baudrate`, where `stack` is what lies in `tmp` and behind it. -/
def initBaudrate (envGetChar : ℕ → Byte) (stack : List Byte) : Except Fault Word :=
  match getenvR envGetChar (ascii "baudrate") 64 with
  | .error e => .error e
  | .ok none => .ok configBaudrate
  | .ok (some (i, stored)) =>
    if 0 < i then .ok (simpleStrtoul (stored ++ stack.drop stored.length) 10).1
    else .ok configBaudrate

/-! ## Copying a value out -/

variable {g : ℕ → Byte}

/-- The loop copies as much of the value and its terminator as there is room for. -/
theorem copyOut_eq (val : List Byte) (hends : 0 ∉ val) : ∀ (left n i : ℕ) (buf : List Byte),
    Row g i (val ++ [0]) → copyOut g left n i buf =
      if val.length < left then (n + val.length + 1, buf ++ (val ++ [0]))
      else (n + left + 1, buf ++ val.take left) := by
  induction val with
  | nil =>
    intro left n i buf hrow
    have hg : g i = 0 := hrow.1
    cases left with
    | zero => simp [copyOut]
    | succ left => simp [copyOut, hg]
  | cons c val ih =>
    intro left n i buf hrow
    have hg : g i = c := hrow.1
    have hc : c ≠ 0 := fun h => hends (by simp [h])
    cases left with
    | zero => simp [copyOut]
    | succ left =>
      have hrest := ih (fun h => hends (List.mem_cons_of_mem _ h)) left (n + 1) (i + 1) (buf ++ [c])
        hrow.2
      rw [copyOut, hg, if_pos hc, hrest]
      simp only [List.length_cons, List.take_succ_cons, List.append_assoc, List.cons_append,
        List.nil_append, Nat.add_lt_add_iff_right]
      congr 2 <;> omega

/-- What `getenv_r` stores of a value in a buffer of `len` bytes. -/
def storedIn (len : ℕ) (val : Text) : List Byte :=
  (val.chars ++ [0]).take len ++ if val.chars.length + 1 = len then [0] else []

def CopiesOut (g : ℕ → Byte) (n : Name) (len : ℕ) : Option Text → Prop
  | none => getenvR g n.chars len = .ok none
  | some val =>
    getenvR g n.chars len = .ok (some (min val.chars.length len + 1, storedIn len val))

theorem Reads.copiesOut {n : Name} {o : Option Text} (h : Reads g n o) (len : ℕ) :
    CopiesOut g n len o := by
  cases o with
  | none =>
    have hget : getenv g n.chars = .ok none := h
    simp only [CopiesOut, getenvR, hget]
  | some val =>
    obtain ⟨i, hget, hrow⟩ := h
    simp only [CopiesOut, getenvR, hget, copyOut_eq val.chars val.ends len 0 i [] hrow, storedIn,
      Nat.zero_add, List.nil_append]
    by_cases hfit : val.chars.length < len
    · have hall : (val.chars ++ [0]).take len = val.chars ++ [0] :=
        List.take_of_length_le (by simpa using hfit)
      rw [if_pos hfit, hall, Nat.min_eq_left (by omega)]
      by_cases hfull : val.chars.length + 1 = len
      · rw [if_pos hfull.symm, if_pos hfull]
      · rw [if_neg (Ne.symm hfull), if_neg hfull, List.append_nil]
    · have hcut : (val.chars ++ [0]).take len = val.chars.take len :=
        List.take_append_of_le_length (by omega)
      rw [if_neg hfit, hcut, Nat.min_eq_right (by omega), if_neg (by omega), if_neg (by omega),
        List.append_nil]

theorem storedIn_length (len : ℕ) (val : Text) :
    (storedIn len val).length ≤ len ↔ val.chars.length + 1 ≠ len := by
  rw [storedIn, List.length_append, List.length_take, List.length_append, List.length_singleton]
  by_cases hfull : val.chars.length + 1 = len
  · simp only [hfull, if_true, List.length_singleton, min_self, ne_eq, not_true, iff_false]
    omega
  · simp only [hfull, if_false, List.length_nil, ne_eq, not_false_eq_true, iff_true]
    omega

/-! ## Reading the number -/

/-- Behind a character that is no digit nothing is read. -/
theorem strtoulDigits_behind (base : Word) (c : Byte) (hc : isxdigit c = false) (rest : List Byte) :
    ∀ (cp : List Byte) (result : Word),
      (strtoulDigits base result (cp ++ c :: rest)).1 = (strtoulDigits base result cp).1 := by
  intro cp
  induction cp with
  | nil =>
    intro result
    simp [strtoulDigits, hc]
  | cons d cp ih =>
    intro result
    simp only [List.cons_append, strtoulDigits]
    split_ifs
    · exact ih _
    · rfl

/-- A character that is no part of a prefix stays behind the string. -/
theorem strtoulPrefix_behind (base : Word) (c : Byte) (hc : isxdigit c = false) (hx : c ≠ 0x78)
    (hzero : c ≠ 0x30) (rest cp : List Byte) :
    strtoulPrefix (cp ++ c :: rest) base =
      ((strtoulPrefix cp base).1 ++ c :: rest, (strtoulPrefix cp base).2) := by
  have hnull : isxdigit 0 = false := by decide
  have hnil : (0 : Byte) ≠ 0x30 ∧ (0 : Byte) ≠ 0x78 := by decide
  rcases cp with _ | ⟨a, _ | ⟨b, _ | ⟨d, cp⟩⟩⟩
  · simp only [strtoulPrefix, deref, List.nil_append, List.headD_cons, List.headD_nil, hzero, hnil.1,
      if_false]
  · simp only [strtoulPrefix, deref, List.cons_append, List.nil_append, List.headD_cons,
      List.headD_nil, List.tail_cons, List.tail_nil, hx, hnil.2, false_and, if_false]
    split_ifs <;> rfl
  · simp only [strtoulPrefix, deref, List.cons_append, List.nil_append, List.headD_cons,
      List.headD_nil, List.tail_cons, hc, hnull, Bool.false_eq_true, and_false, if_false]
    split_ifs <;> rfl
  · have hthree (l : List Byte) : strtoulPrefix (a :: b :: d :: l) base =
        if a = 0x30 then
          if b = 0x78 ∧ isxdigit d then (d :: l, 16) else (b :: d :: l, if base = 0 then 8 else base)
        else (a :: b :: d :: l, base) := rfl
    rw [List.cons_append, List.cons_append, List.cons_append, hthree, hthree]
    split_ifs <;> rfl

theorem simpleStrtoul_behind (base : Word) (c : Byte) (hc : isxdigit c = false) (hx : c ≠ 0x78)
    (hzero : c ≠ 0x30) (rest cp : List Byte) :
    (simpleStrtoul (cp ++ c :: rest) base).1 = (simpleStrtoul cp base).1 := by
  simp only [simpleStrtoul, strtoulPrefix_behind base c hc hx hzero rest cp]
  exact strtoulDigits_behind _ c hc rest _ 0

theorem baudrate_ends : 0 ∉ ascii "baudrate" := by decide

theorem baudrate_plain : 0x3D ∉ ascii "baudrate" := by decide

def baudrateName : Name := ⟨⟨ascii "baudrate", baudrate_ends⟩, baudrate_plain⟩

/-- `init_baudrate` computes the number of the variable from its characters if the terminator fits. -/
theorem Reads.initBaudrate_eq {val : Text} (h : Reads g baudrateName (some val))
    (hshort : val.chars.length < 64) (stack : List Byte) :
    initBaudrate g stack = .ok (simpleStrtoul val.chars 10).1 := by
  have hcopy : getenvR g (ascii "baudrate") 64 = _ := h.copiesOut 64
  have hall : (val.chars ++ [0]).take 64 = val.chars ++ [0] :=
    List.take_of_length_le (by simpa using hshort)
  simp only [initBaudrate, hcopy, storedIn, hall, List.append_assoc, List.cons_append,
    List.nil_append, Nat.zero_lt_succ, if_true]
  rw [simpleStrtoul_behind 10 0 (by decide) (by decide) (by decide)]

/-! ## The rate in use -/

variable (consoleAssign : ℕ → List Byte → Word) (atNull : List Byte)
variable {s : Globals} {vs : List Variable}

theorem wp_ofExcept_any {α : Type} {x : Except Fault α} {Q : α → Globals → Prop}
    (h : ∀ a, x = .ok a → Q a s) : wp (ofExcept x) Q (fun _ _ => True) s := by
  cases x with
  | ok a => exact h a rfl
  | error e => trivial

theorem define_rate (name : List Byte) (vals : List (List Byte)) :
    wp (define name vals) (fun _ t => t.baudrate = s.baudrate) (fun _ _ => True) s := by
  cases vals with
  | nil => simp only [define, envCrcUpdate, wp_bind, wp_modify, wp_pure]
  | cons val vals =>
    simp only [define, wp_bind, wp_get]
    refine wp_ofExcept_any fun env _ => ?_
    rw [wp_ite]
    split_ifs
    · simp only [say, wp_bind, wp_modify, wp_pure]
    · rw [wp_bind]
      refine wp_ofExcept_any fun data _ => ?_
      simp only [envCrcUpdate, updateSpecial, wp_bind, wp_modify, wp_ite, wp_pure]
      split_ifs

/-- The rate is switched before the old definition goes. -/
theorem mayReplace_rate (vals : List (List Byte)) :
    wp (mayReplace consoleAssign atNull (ascii "baudrate") vals)
      (fun good t => good = true → t.baudrate = (simpleStrtoul (vals.headD atNull) 10).1)
      (fun _ _ => True) s := by
  have hconsole : consoleOf (ascii "baudrate") = none := by decide
  simp only [mayReplace, hconsole, wp_bind, wp_pure, if_true, switchBaudrate, wp_ite]
  split_ifs
  · simp only [say, waitEnter, wp_bind, wp_modify, wp_get]
    cases afterEnter s.input with
    | none => trivial
    | some input => exact fun _ => rfl
  · rw [say, wp_modify]
    exact False.elim

theorem mayReplace_rate_other {name : List Byte} (hname : name ≠ ascii "baudrate")
    (vals : List (List Byte)) :
    wp (mayReplace consoleAssign atNull name vals) (fun _ t => t.baudrate = s.baudrate)
      (fun _ _ => True) s := by
  rw [mayReplace]
  cases consoleOf name with
  | none => simp only [wp_bind, wp_pure, if_true, if_neg hname]
  | some console =>
    cases vals with
    | nil => simp only [say, wp_bind, wp_modify, wp_pure, Bool.false_eq_true, if_false]
    | cons val vals =>
      simp only [if_neg hname, wp_bind, wp_modify, wp_pure, wp_ite]
      split_ifs

theorem doSetenv_rate_other {name : List Byte} (hname : name ≠ ascii "baudrate")
    (vals : List (List Byte)) :
    wp (doSetenv consoleAssign atNull name vals) (fun _ t => t.baudrate = s.baudrate)
      (fun _ _ => True) s := by
  rw [doSetenv, wp_ite]
  split_ifs
  · simp only [say, wp_bind, wp_modify, wp_pure]
  · rw [wp_bind, wp_get, wp_bind]
    refine wp_ofExcept_any fun found _ => ?_
    cases found.oldval with
    | none => exact define_rate name vals
    | some oldval =>
      rw [wp_bind]
      refine wp_post (mayReplace_rate_other consoleAssign atNull hname vals) fun good t ht => ?_
      rw [wp_ite]
      split_ifs
      · rw [wp_bind, wp_get, wp_bind]
        refine wp_ofExcept_any fun data _ => ?_
        rw [wp_bind, wp_modify]
        exact wp_post (define_rate name vals) fun _ u hu => hu.trans ht
      · exact ht

/-- A command that replaces the variable `baudrate` and answers 0 has switched to its rate. -/
theorem doSetenv_rate (h : Holds s.data vs) (hset : lookup vs baudrateName ≠ none)
    (vals : List (List Byte)) :
    wp (doSetenv consoleAssign atNull (ascii "baudrate") vals)
      (fun r t => r = 0 → t.baudrate = (simpleStrtoul (vals.headD atNull) 10).1)
      (fun _ _ => True) s := by
  have hlt := flat_length_lt h
  have hlen := flat_length_ge vs
  have hrow := h.flat_row
  obtain ⟨pre, v, post, hvs, hv, hpre, -⟩ := removeVar_split hset
  subst hvs
  have hpos : pre.length < envSize + 1 := by
    rw [List.length_append] at hlen
    omega
  obtain ⟨val, hfind⟩ := findEntry_present baudrateName v hv post pre (envSize + 1) 0 0 hrow
    (by omega) hpos hpre
  have hfound : findEntry s.data (ascii "baudrate") (envSize + 1) 0 0 = _ := hfind
  rw [doSetenv, if_neg baudrate_plain, wp_bind, wp_get, wp_bind, wp_ofExcept_ok hfound, wp_bind]
  refine wp_post (mayReplace_rate consoleAssign atNull vals) fun good t ht => ?_
  rw [wp_ite]
  split_ifs with hgood
  · rw [wp_bind, wp_get, wp_bind]
    refine wp_ofExcept_any fun data _ => ?_
    rw [wp_bind, wp_modify]
    exact wp_post (define_rate _ vals) fun _ u hu _ => hu.trans (ht hgood)
  · exact fun hr => absurd hr (by decide)

theorem setAll_rate_other (es : List Setting) (hes : ∀ e ∈ es, e.name.chars ≠ ascii "baudrate") :
    ∀ s : Globals, wp (setAll consoleAssign atNull es) (fun _ t => t.baudrate = s.baudrate)
      (fun _ _ => True) s := by
  induction es with
  | nil => exact fun s => rfl
  | cons e es ih =>
    intro s
    rw [setAll, wp_bind]
    have hfirst := doSetenv_rate_other consoleAssign atNull (s := s) (hes e List.mem_cons_self) e.args
    refine wp_post hfirst fun _ t ht => ?_
    exact wp_post (ih (fun e' he' => hes e' (List.mem_cons_of_mem _ he')) t) fun _ u hu => hu.trans ht

theorem simpleStrtoul_joinVals (v : Text) (vals : List Text) :
    (simpleStrtoul (joinVals v vals).chars 10).1 = (simpleStrtoul v.chars 10).1 := by
  cases vals with
  | nil => rw [joinVals_nil]
  | cons w vals =>
    exact simpleStrtoul_behind 10 0x20 (by decide) (by decide) (by decide) _ v.chars

/-! ## Behind a run of commands -/

/-- The default environment, and Enter waiting in the input. -/
def defaultGlobals : Globals :=
  { emptyGlobals with data := defaultImage.data, crc := defaultImage.crc, input := [0x0D] }

theorem represents_default : Represents defaultGlobals defaultStore :=
  represents_image.mpr defaultImage_represents

/-- `setenv baudrate 9600`. -/
def setBaudrate : Setting := ⟨baudrateName.toText, [⟨ascii "9600", by decide⟩]⟩

/-- Behind any run, `getenv_r` copies a variable of the store as far as the buffer goes, with the
terminator if there is room for it. It stores behind the buffer exactly when the value and the
terminator just fill it. -/
theorem setAll_getenvR (cs : List Setting) (m : Store) (h : Represents s m) (t : Globals)
    (ht : setAll consoleAssign atNull cs s = .ok () t) (n : Name) (len : ℕ) :
    CopiesOut t.data n len (lookup (cs.foldl (Store.set consoleAssign atNull) m).vars n) ∧
      ∀ val, lookup (cs.foldl (Store.set consoleAssign atNull) m).vars n = some val →
        ((storedIn len val).length ≤ len ↔ val.chars.length + 1 ≠ len) := by
  have hend := setAll_represents consoleAssign atNull h ht
  exact ⟨(hend.holds.reads n).copiesOut len, fun val _ => storedIn_length len val⟩

theorem setAll_getenvR_full : getenvR (afterBad defaultGlobals).data (ascii "baudrate") 7 =
    .ok (some (7, ascii "115200" ++ [0, 0])) :=
  (setAll_getenvR (fun _ _ => 0) [] [setBad] defaultStore represents_default
    (afterBad defaultGlobals) rfl baudrateName 7).1

/-- A run in which `setenv` has replaced the variable `baudrate`, and later commands were for other
names, ends with the rate in use that `init_baudrate` computes from the same variables, whatever
is on the stack, if the value has less than 64 characters. -/
theorem setAll_initBaudrate (cs : List Setting) (m : Store) (h : Represents s m) (t : Globals)
    (ht : setAll consoleAssign atNull cs s = .ok () t)
    (hset : lookup (cs.foldl (Store.set consoleAssign atNull) m).vars baudrateName ≠ none)
    (c : Setting) (hc : c.name.chars = ascii "baudrate") (v : Text) (vals : List Text)
    (hv : c.vals = v :: vals) (hshort : (joinVals v vals).chars.length < 64)
    (es : List Setting) (hes : ∀ e ∈ es, e.name.chars ≠ ascii "baudrate") :
    ∀ u w, doSetenv consoleAssign atNull c.name.chars c.args t = .ok 0 u →
      setAll consoleAssign atNull es u = .ok () w →
      Represents w (es.foldl (Store.set consoleAssign atNull)
        ((cs.foldl (Store.set consoleAssign atNull) m).set consoleAssign atNull c)) ∧
      ∀ g, (∀ n, Reads g n (lookup (es.foldl (Store.set consoleAssign atNull)
          ((cs.foldl (Store.set consoleAssign atNull) m).set consoleAssign atNull c)).vars n)) →
        ∀ stack, initBaudrate g stack = .ok w.baudrate := by
  intro u w hu hw
  have hend := setAll_represents consoleAssign atNull h ht
  generalize cs.foldl (Store.set consoleAssign atNull) m = M at hend hset ⊢
  have hran := wp_of_ok (doSetenv_spec consoleAssign atNull hend.holds c) hu
  have hkey : c.key = some baudrateName := by
    have hplain : ¬ c.name.chars.contains 0x3D := by
      rw [hc, List.contains_iff_mem]
      exact baudrate_plain
    rw [Setting.key, dif_neg hplain, Option.some.injEq]
    exact Name.ext_chars hc
  have hvalue : lookup (M.set consoleAssign atNull c).vars baudrateName = some (joinVals v vals) := by
    change lookup (c.apply consoleAssign atNull M.vars) baudrateName = _
    rw [lookup_apply consoleAssign atNull M.distinct, if_pos hkey, if_pos (hran.answer.mp rfl),
      Setting.value, hv]
  have hargs : c.args.headD atNull = v.chars := by rw [Setting.args, hv]; rfl
  -- the rate of the command, then of the commands behind it
  have hrate : w.baudrate = (simpleStrtoul (joinVals v vals).chars 10).1 := by
    have hfirst := doSetenv_rate consoleAssign atNull hend.holds hset c.args
    rw [← hc] at hfirst
    have hkept := wp_of_ok (setAll_rate_other consoleAssign atNull es hes u) hw
    rw [hkept, wp_of_ok hfirst hu rfl, hargs, simpleStrtoul_joinVals]
  have hlater := setAll_keeps consoleAssign atNull
    (fun m _ => lookup m.vars baudrateName = some (joinVals v vals)) es ?_ _ u
    (hran.represents consoleAssign atNull hend) hvalue
  · obtain ⟨hrep, hlast⟩ := wp_of_ok hlater hw
    refine ⟨hrep, fun g hg stack => ?_⟩
    have hread := hg baudrateName
    rw [hlast] at hread
    rw [hread.initBaudrate_eq hshort stack, hrate]
  · intro e he m s r t hbefore _
    change lookup (e.apply consoleAssign atNull m.vars) baudrateName = _
    rw [lookup_apply consoleAssign atNull m.distinct, if_neg ?_]
    · exact hbefore
    · exact fun hkey' => hes e he (key_chars hkey')

theorem setAll_initBaudrate_9600 : ∃ u w,
    doSetenv (fun _ _ => 0) [] setBaudrate.name.chars setBaudrate.args defaultGlobals = .ok 0 u ∧
      setAll (fun _ _ => 0) [] [setLoadaddr] u = .ok () w ∧
      ∀ stack, initBaudrate w.data stack = .ok w.baudrate := by
  obtain ⟨u, hu⟩ := ok_of_answerOf (r := doSetenv (fun _ _ => 0) [] setBaudrate.name.chars
    setBaudrate.args defaultGlobals) (a := 0) (by decide)
  obtain ⟨w, hw⟩ := ok_of_answerOf (r := setAll (fun _ _ => 0) [] [setBaudrate, setLoadaddr]
    defaultGlobals) (a := ()) (by decide +kernel)
  rw [setAll, bind_ok hu] at hw
  have hend := setAll_initBaudrate (fun _ _ => 0) [] [] defaultStore represents_default
    defaultGlobals rfl (by decide) setBaudrate rfl ⟨ascii "9600", by decide⟩ [] rfl (by decide)
    [setLoadaddr] (by decide) u w hu hw
  exact ⟨u, w, hu, hw, hend.2 w.data fun n => hend.1.holds.reads n⟩

end Armboard.Env
