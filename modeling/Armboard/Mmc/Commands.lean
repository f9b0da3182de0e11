import Armboard.Mmc.Read

/-! # What a command does

A command adds one exchange to the record, whose status words were all read at one
place, and leaves the globals alone. The specifications are about runs that return;
a run that waits for ever meets them all.
-/

namespace Armboard.Mmc
open Exec

structure Globals where
  rca : Word
  cardIsSd : Word
  cardIsSdhc : Word
  blkdev : BlockDev

def Mci.globals (s : Mci) : Globals := ⟨s.rca, s.cardIsSd, s.cardIsSdhc, s.blkdev⟩

def blocked (_ : Halt) (_ : Mci) : Prop := True

def addPolls (ps : List (Place × Word)) : List Exchange → List Exchange
  | [] => []
  | e :: es => { e with polls := ps ++ e.polls } :: es

theorem addPolls_append (ps qs : List (Place × Word)) (es : List Exchange) :
    addPolls qs (addPolls ps es) = addPolls (qs ++ ps) es := by
  cases es with
  | nil => rfl
  | cons e es => simp [addPolls]

/-- From `s` to `t` status words were read, and the globals are as before. -/
structure Polls (ps : List (Place × Word)) (s t : Mci) : Prop where
  exchanges : t.exchanges = addPolls ps s.exchanges
  globals : t.globals = s.globals

theorem Polls.refl (s : Mci) : Polls [] s s := by
  constructor
  · cases s.exchanges with
    | nil => rfl
    | cons e es => rfl
  · rfl

theorem Polls.trans {ps qs : List (Place × Word)} {s t u : Mci} (h : Polls ps s t)
    (h' : Polls qs t u) : Polls (qs ++ ps) s u := by
  constructor
  · rw [h'.exchanges, h.exchanges, addPolls_append]
  · rw [h'.globals, h.globals]

structure SameData (s t : Mci) : Prop where
  rdr : t.rdr = s.rdr
  buffer : t.buffer = s.buffer

theorem SameData.refl (s : Mci) : SameData s s := ⟨rfl, rfl⟩

theorem SameData.trans {s t u : Mci} (h : SameData s t) (h' : SameData t u) : SameData s u :=
  ⟨h'.rdr.trans h.rdr, h'.buffer.trans h.buffer⟩

variable {s : Mci}

theorem wp_blocked {α : Type} {x : Driver α} {Q Q' : α → Mci → Prop} (h : wp x Q blocked s)
    (h' : wp x Q' blocked s) : wp x (fun a t => Q a t ∧ Q' a t) blocked s :=
  wp_mono (wp_and h h') (fun _ _ hQ => hQ) (fun _ _ _ => trivial)

/-! ## Status loops -/

theorem readStatus_spec (place : Place) (s : Mci) :
    wp (readStatus place) (fun w t => Polls [(place, w)] s t) blocked s := by
  rw [readStatus, wp_bind, wp_get]
  cases s.status with
  | nil => trivial
  | cons w ws =>
    constructor
    · rfl
    · rfl

theorem readStatus_data (place : Place) (s : Mci) :
    wp (readStatus place) (fun _ t => SameData s t) blocked s := by
  rw [readStatus, wp_bind, wp_get]
  cases s.status with
  | nil => trivial
  | cons w ws =>
    constructor
    · rfl
    · rfl

theorem waitFor_spec (place : Place) (bits : Word) (n : ℕ) (s : Mci) :
    wp (waitFor place bits n) (fun w t => w &&& bits ≠ 0 ∧ ∃ ws : List Word,
      (∀ x ∈ ws, x &&& bits = 0) ∧ Polls ((w :: ws).map (Prod.mk place)) s t) blocked s := by
  induction n generalizing s with
  | zero => trivial
  | succ n ih =>
    rw [waitFor, wp_bind]
    apply wp_post (readStatus_spec place s)
    intro x t ht
    rw [wp_ite]
    split
    · rename_i hx
      exact ⟨hx, [], by simp, ht⟩
    · rename_i hx
      apply wp_post (ih t)
      rintro w u ⟨hw, ws, hws, hu⟩
      refine ⟨hw, ws ++ [x], ?_, by simpa using ht.trans hu⟩
      exact List.forall_mem_append.mpr ⟨hws, by simpa using hx⟩

theorem waitFor_data (place : Place) (bits : Word) (n : ℕ) (s : Mci) :
    wp (waitFor place bits n) (fun _ t => SameData s t) blocked s := by
  induction n generalizing s with
  | zero => trivial
  | succ n ih =>
    rw [waitFor, wp_bind]
    apply wp_post (readStatus_data place s)
    intro x t ht
    rw [wp_ite]
    split
    · exact ht
    · apply wp_post (ih t)
      intro w u hu
      exact ht.trans hu

theorem readResponse_spec (n : ℕ) (s : Mci) : wp (readResponse n) (fun ws t =>
    ws.length = n ∧ t.exchanges = s.exchanges ∧ t.globals = s.globals) blocked s := by
  induction n generalizing s with
  | zero => exact ⟨rfl, rfl, rfl⟩
  | succ n ih =>
    rw [readResponse, wp_bind, wp_get, wp_bind, wp_set, wp_bind]
    apply wp_post (ih _)
    rintro ws t ⟨hl, he, hg⟩
    exact ⟨congrArg (· + 1) hl, he, hg⟩

theorem readResponse_data (n : ℕ) (s : Mci) :
    wp (readResponse n) (fun _ t => SameData s t) blocked s := by
  induction n generalizing s with
  | zero => exact SameData.refl s
  | succ n ih =>
    rw [readResponse, wp_bind, wp_get, wp_bind, wp_set, wp_bind]
    apply wp_post (ih _)
    intro ws t ht
    exact ⟨ht.rdr, ht.buffer⟩

/-! ## Commands -/

def checked : Place × Word → Word
  | (.command, w) => if w &&& cmdrdy ≠ 0 then errorFlags else 0
  | (.data, _) => errorFlags ||| ovre
  | (.completion, _) => 0

/-- No status word of an exchange has a flag that was looked for. -/
def Passed (e : Exchange) : Prop := ∀ p ∈ e.polls, p.2 &&& checked p = 0

/-- What is recorded of a command with the answer `r`. -/
structure Issued (cmd arg : Word) (r : ℤ × List Word) (e : Exchange) : Prop where
  cmd : e.cmd = cmd
  arg : e.arg = arg
  places : ∀ p ∈ e.polls, p.1 = .command
  answer : (r.1 = 0 ∧ e.response = some r.2 ∧ Passed e) ∨ (r.1 < 0 ∧ e.response = none)

/-- A command that fails had an error in the status word that ended the wait. -/
theorem mmcCmd_outcome (cmd arg flags : Word) (s : Mci) : wp (mmcCmd cmd arg flags) (fun r t =>
    SameData s t ∧ ∃ e, Issued cmd arg r e ∧ (r.1 ≠ 0 → ¬ Passed e) ∧
      t.exchanges = e :: s.exchanges ∧ t.globals = s.globals) blocked s := by
  simp only [mmcCmd, startCommand, waitStatus, printf, wp_bind, wp_modify, wp_get]
  apply wp_post (wp_blocked (waitFor_spec .command cmdrdy _ _) (waitFor_data _ _ _ _))
  rintro w t ⟨⟨hw, ws, hws, ht⟩, hdata⟩
  have hexchanges := ht.exchanges
  have hglobals := ht.globals
  simp only [addPolls, List.append_nil] at hexchanges
  have hplaces : ∀ p ∈ (w :: ws).map (Prod.mk Place.command), p.1 = Place.command :=
    List.forall_mem_map.mpr fun _ _ => rfl
  have hchecked : checked (.command, w) = errorFlags := by rw [checked, if_pos hw]
  rw [wp_ite]
  split
  · rename_i hdirty
    refine ⟨⟨hdata.rdr, hdata.buffer⟩, _, ?_, fun _ hpassed => ?_, hexchanges, hglobals⟩
    · constructor
      · rfl
      · rfl
      · exact hplaces
      · exact Or.inr ⟨by decide, rfl⟩
    · apply hdirty
      rw [← hchecked]
      exact hpassed (.command, w) (List.mem_cons_self ..)
  · rename_i hclean
    have hpassed : ∀ p ∈ (w :: ws).map (Prod.mk Place.command), p.2 &&& checked p = 0 := by
      refine List.forall_mem_map.mpr fun x hx => ?_
      rcases List.mem_cons.mp hx with rfl | hx
      · rw [hchecked]
        exact not_not.mp hclean
      · rw [checked, if_neg (not_not.mpr (hws x hx))]
        exact BitVec.and_zero
    rw [wp_bind]
    apply wp_post (wp_blocked (readResponse_spec _ t) (readResponse_data _ t))
    rintro response u ⟨⟨-, hu, hug⟩, hdata'⟩
    rw [hexchanges] at hu
    refine ⟨?_, ⟨cmd, arg, flags &&& ~~~0x3F, (w :: ws).map (Prod.mk .command), some response⟩, ?_,
      fun h => absurd rfl h, ?_, hug.trans hglobals⟩
    · have hboth := hdata.trans hdata'
      exact ⟨hboth.rdr, hboth.buffer⟩
    · constructor
      · rfl
      · rfl
      · exact hplaces
      · exact Or.inl ⟨rfl, rfl, hpassed⟩
    · simp only [modifyExchange, hu]

theorem mmcCmd_spec (cmd arg flags : Word) (s : Mci) : wp (mmcCmd cmd arg flags) (fun r t =>
    ∃ e, Issued cmd arg r e ∧ t.exchanges = e :: s.exchanges ∧ t.globals = s.globals) blocked s := by
  apply wp_post (mmcCmd_outcome cmd arg flags s)
  rintro r t ⟨-, e, he, -, ht, hglobals⟩
  exact ⟨e, he, ht, hglobals⟩

/-- `mmc_acmd` gives up after CMD55 or sends the command. -/
theorem mmcAcmd_spec (cmd arg flags : Word) (s : Mci) : wp (mmcAcmd cmd arg flags) (fun r t =>
    t.globals = s.globals ∧ ∃ a e0, Issued appCmd 0 a e0 ∧
      ((r.1 ≠ 0 ∧ t.exchanges = e0 :: s.exchanges) ∨
        ∃ e, Issued cmd arg r e ∧ t.exchanges = e :: e0 :: s.exchanges)) blocked s := by
  rw [mmcAcmd, wp_bind]
  apply wp_post (mmcCmd_spec _ _ _ s)
  rintro a t ⟨e0, he0, ht, hglobals⟩
  rw [wp_ite]
  split
  · rename_i ha
    exact ⟨hglobals, a, e0, he0, Or.inl ⟨ha, ht⟩⟩
  · rw [wp_ite]
    split
    · exact ⟨hglobals, a, e0, he0, Or.inl ⟨by decide, ht⟩⟩
    · apply wp_post (mmcCmd_spec _ _ _ t)
      rintro r u ⟨e, he, hu, hglobals'⟩
      rw [ht] at hu
      exact ⟨hglobals'.trans hglobals, a, e0, he0, Or.inr ⟨e, he, hu⟩⟩

/-! ## What is added to the record -/

/-- From `s` to `t` exchanges were added, all of which meet `P`. -/
def Adds (P : Exchange → Prop) (s t : Mci) : Prop :=
  ∃ new, t.exchanges = new ++ s.exchanges ∧ ∀ e ∈ new, P e

variable {P : Exchange → Prop} {t u : Mci}

theorem Adds.none (h : t.exchanges = s.exchanges) : Adds P s t := ⟨[], h, by simp⟩

theorem Adds.one {e : Exchange} (h : t.exchanges = e :: s.exchanges) (he : P e) : Adds P s t :=
  ⟨[e], h, by simpa using he⟩

theorem Adds.trans (h : Adds P s t) (h' : Adds P t u) : Adds P s u := by
  rcases h with ⟨new, ht, hnew⟩
  rcases h' with ⟨new', hu, hnew'⟩
  refine ⟨new' ++ new, ?_, List.forall_mem_append.mpr ⟨hnew', hnew⟩⟩
  rw [hu, ht, List.append_assoc]

theorem Adds.mono {P' : Exchange → Prop} (h : Adds P s t) (hP : ∀ e, P e → P' e) : Adds P' s t := by
  rcases h with ⟨new, ht, hnew⟩
  exact ⟨new, ht, fun e he => hP e (hnew e he)⟩

/-! ## What only writes and prints -/

/-- No command, and no change of the globals. -/
def Silent (x : Driver Unit) : Prop :=
  ∀ s, wp x (fun _ t => t.exchanges = s.exchanges ∧ t.globals = s.globals) blocked s

theorem Silent.pure : Silent (pure ()) := fun _ => ⟨rfl, rfl⟩

theorem Silent.printf (format : String) (args : List Arg) : Silent (printf format args) :=
  fun _ => ⟨rfl, rfl⟩

theorem Silent.writel (reg : Reg) (value : Word) : Silent (writel reg value) := fun _ => ⟨rfl, rfl⟩

theorem Silent.throw (e : Halt) : Silent (throw e) := fun _ => trivial

theorem Silent.get {x : Mci → Driver Unit} (hx : ∀ s, Silent (x s)) : Silent (get >>= x) := by
  intro s
  rw [wp_bind, wp_get]
  exact hx s s

theorem Silent.bind {x : Driver Unit} {y : Unit → Driver Unit} (hx : Silent x)
    (hy : ∀ a, Silent (y a)) : Silent (x >>= y) := by
  intro s
  rw [wp_bind]
  apply wp_post (hx s)
  rintro a t ⟨hexchanges, hglobals⟩
  apply wp_post (hy a t)
  rintro - u ⟨hexchanges', hglobals'⟩
  exact ⟨hexchanges'.trans hexchanges, hglobals'.trans hglobals⟩

theorem Silent.ite {c : Prop} [Decidable c] {x y : Driver Unit} (hx : Silent x) (hy : Silent y) :
    Silent (if c then x else y) := by
  split
  · exact hx
  · exact hy

/-- Before and after something silent the same holds of record and globals. -/
theorem Silent.next {α : Type} {x : Driver Unit} (hx : Silent x) {y : Unit → Driver α}
    {Q : α → Mci → Prop} (h : ∀ a t, t.exchanges = s.exchanges → t.globals = s.globals →
      wp (y a) Q blocked t) : wp (x >>= y) Q blocked s := by
  rw [wp_bind]
  apply wp_post (hx s)
  rintro a t ⟨hexchanges, hglobals⟩
  exact h a t hexchanges hglobals

end Armboard.Mmc
