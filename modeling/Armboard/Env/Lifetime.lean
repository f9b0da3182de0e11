import Armboard.Env.Saved
import Armboard.Exec.Simulation

/-! # The life of the environment

Commands change the environment in memory, `saveenv` copies it to the DataFlash, areas
are protected and unprotected, and the board is switched off and on between any two of
these. Two stores describe all of it: the one in memory and the one that was saved.
After a start the one in memory is the saved one, if its check was up to date.
-/

namespace Armboard.Env
open DataFlash Exec Storage Uboot

/-! ## Two levels -/

inductive Event where
  | set (c : Setting)
  | save
  | protect (c : ProtectCall)
  | reset

/-- The bank of the DataFlash, and the environment in memory. -/
structure Machine where
  bank : Bank
  env : Globals

/-- Switching off and on keeps the flash and nothing else. -/
structure PoweredUp (k k' : Bank) : Prop where
  flash : k'.board.chip.flash = k.board.chip.flash
  prompt : Prompt timeoutWrdy k'.board.chip

/-- The program at work. A start may find anything in memory, and anything in the variables that the
environment is not kept in. -/
inductive Machine.Step (consoleAssign : ℕ → List Byte → Word) (atNull : List Byte) :
    Event → Machine → Machine → Prop
  | set {c r s m} (h : doSetenv consoleAssign atNull c.name.chars c.args m.env = .ok r s) :
    Machine.Step consoleAssign atNull (.set c) m ⟨m.bank, s⟩
  | save {temp r k m} (h : saveenv temp m.env m.bank = .ok r k) :
    Machine.Step consoleAssign atNull .save m ⟨k, m.env⟩
  | protect {c r k m} (h : dataflashRealProtect c.flag c.startAddr c.endAddr m.bank = .ok r k) :
    Machine.Step consoleAssign atNull (.protect c) m ⟨k, m.env⟩
  | reset {k crcAt buf envPtr e k' s m} (hup : PoweredUp m.bank k)
    (h : startEnv crcAt buf envPtr k = .ok e k') (hdata : s.data = e.data) (hcrc : s.crc = e.crc) :
    Machine.Step consoleAssign atNull .reset m ⟨k', s⟩

/-- The store in memory, the saved one, and the areas of the DataFlash. -/
structure Content where
  current : Store
  saved : Store
  areas : List Area

/-- A store whose check is up to date. -/
def Store.trust (m : Store) : Store := { m with checked := true }

def defaultVars : List Variable :=
  [⟨⟨⟨ascii "bootdelay", by decide⟩, by decide⟩, ⟨ascii "3", by decide⟩⟩,
    ⟨⟨⟨ascii "baudrate", by decide⟩, by decide⟩, ⟨ascii "115200", by decide⟩⟩]

def defaultStore : Store := ⟨defaultVars, true, by decide⟩

inductive Content.Step (consoleAssign : ℕ → List Byte → Word) (atNull : List Byte) :
    Event → Content → Content → Prop
  | set {c a} : Content.Step consoleAssign atNull (.set c) a
    { a with current := a.current.set consoleAssign atNull c }
  | save {a} (h : protDataflash a.areas envAddr ≠ 0) :
    Content.Step consoleAssign atNull .save a { a with saved := a.current }
  | refuse {a} (h : protDataflash a.areas envAddr = 0) : Content.Step consoleAssign atNull .save a a
  | protect {c a} : Content.Step consoleAssign atNull (.protect c) a
    { a with areas := c.apply a.areas }
  | load {a} : Content.Step consoleAssign atNull .reset a
    ⟨a.saved.trust, a.saved.trust, layout .set .clear .set⟩
  | fallback {a} (h : a.saved.checked = false) : Content.Step consoleAssign atNull .reset a
    ⟨defaultStore, a.saved, layout .set .clear .set⟩

/-! ## Images and stores -/

structure Image.Represents (e : Image) (m : Store) : Prop where
  holds : Holds e.data m.vars
  checked : m.checked = true → e.Valid

theorem Image.Same.holds {e e' : Image} (h : e.Same e') {vs : List Variable}
    (hvs : Holds e'.data vs) : Holds e.data vs where
  row := hvs.row.congr fun k hk => by
    have hfits := hvs.fits
    rw [Nat.zero_add]
    exact h.2 k (by omega)
  fits := hvs.fits

theorem Image.Same.represents {e e' : Image} (h : e.Same e') {m : Store} (hm : e'.Represents m) :
    e.Represents m :=
  ⟨h.holds hm.holds, fun hc => h.valid.mpr (hm.checked hc)⟩

theorem represents_image {s : Globals} {m : Store} :
    Represents s m ↔ (Image.mk s.crc s.data).Represents m :=
  ⟨fun h => ⟨h.holds, h.checked⟩, fun h => ⟨h.holds, h.checked⟩⟩

theorem Image.Represents.trust {e : Image} {m : Store} (h : e.Represents m) (hv : e.Valid) :
    e.Represents m.trust := ⟨h.holds, fun _ => hv⟩

theorem defaultImage_represents : defaultImage.Represents defaultStore where
  holds := by
    have hblock : block defaultVars ++ [0] = defaultEnvironment := by decide
    refine ⟨?_, by decide⟩
    have hrow := row_getD defaultEnvironment (0 : Byte)
    rw [← hblock, row_append] at hrow
    rw [hblock] at hrow
    exact hrow.1
  checked _ := by rw [Image.Valid, defaultImage]

/-! ## The simulation -/

/-- The machine does what the stores say. -/
structure Related (m : Machine) (a : Content) : Prop where
  working : Working m.bank
  areas : m.bank.areas = a.areas
  current : Represents m.env a.current
  saved : (storedImage m.bank.board.chip.flash).Represents a.saved

variable (consoleAssign : ℕ → List Byte → Word) (atNull : List Byte)
variable {m m' : Machine} {a : Content}

theorem step_refines {ev : Event} (h : Related m a)
    (hstep : Machine.Step consoleAssign atNull ev m m') :
    ∃ b, Content.Step consoleAssign atNull ev a b ∧ Related m' b := by
  cases hstep with
  | set hrun =>
    have hran := wp_of_ok (doSetenv_spec consoleAssign atNull h.current.holds _) hrun
    exact ⟨_, .set, h.working, h.areas, hran.represents consoleAssign atNull h.current, h.saved⟩
  | save hrun =>
    obtain ⟨hwork, hareas, -, -, hflash⟩ := wp_of_ok (saveenv_spec h.working _ _) hrun
    rw [h.areas] at hflash
    by_cases hprot : protDataflash a.areas envAddr = 0
    · rw [if_pos hprot] at hflash
      refine ⟨a, .refuse hprot, hwork, hareas.trans h.areas, h.current, ?_⟩
      rw [hflash]
      exact h.saved
    · rw [if_neg hprot] at hflash
      exact ⟨_, .save hprot, hwork, hareas.trans h.areas, h.current,
        hflash.represents (represents_image.mp h.current)⟩
  | protect hrun =>
    have hk := wp_of_ok (dataflashRealProtect_spec h.working.initialised _) hrun
    subst hk
    refine ⟨_, .protect, ⟨⟨h.working.initialised.board, h.working.initialised.id,
      h.working.initialised.logicalAddress⟩, h.working.prompt⟩, ?_, h.current, h.saved⟩
    change ProtectCall.apply _ m.bank.areas = ProtectCall.apply _ a.areas
    rw [h.areas]
  | reset hup hrun hdata hcrc =>
    obtain ⟨hwork, hareas, hflash, hsame⟩ := wp_of_ok (startEnv_spec hup.prompt _ _ _) hrun
    rw [hup.flash] at hflash hsame
    have hloaded {n : Store} (hn : Image.Represents _ n) : Represents _ n :=
      represents_image.mpr (by
        rw [hdata, hcrc]
        exact hsame.represents hn)
    by_cases hv : (storedImage m.bank.board.chip.flash).Valid
    · have htrust := h.saved.trust hv
      refine ⟨_, .load, hwork, hareas, hloaded ?_, ?_⟩
      · rw [if_pos hv]
        exact htrust
      · rw [hflash]
        exact htrust
    · have hno : a.saved.checked = false := by
        cases hc : a.saved.checked with
        | false => rfl
        | true => exact absurd (h.saved.checked hc) hv
      refine ⟨_, .fallback hno, hwork, hareas, hloaded ?_, ?_⟩
      · rw [if_neg hv]
        exact defaultImage_represents
      · rw [hflash]
        exact h.saved

/-- No event fails to come to its end, but a command that replaces the baud rate by a supported one
with no Enter left in the input. -/
theorem step_exists (h : Related m a) (ev : Event) :
    (∃ m', Machine.Step consoleAssign atNull ev m m') ∨
      ∃ c s, ev = .set c ∧ doSetenv consoleAssign atNull c.name.chars c.args m.env =
        .error .blocked s ∧ 0x0D ∉ s.input ∧ c.Switches atNull a.current.vars := by
  cases ev with
  | set c =>
    have hspec := doSetenv_spec consoleAssign atNull h.current.holds c
    cases hrun : doSetenv consoleAssign atNull c.name.chars c.args m.env with
    | ok r s => exact .inl ⟨_, .set hrun⟩
    | error e s =>
      obtain ⟨hwaits, hswitches⟩ := wp_of_error hspec hrun
      rw [hwaits.blocked] at hrun
      exact .inr ⟨c, s, rfl, hrun, hwaits.enter, hswitches⟩
  | save =>
    obtain ⟨r, k, hrun, -⟩ := wp_never.mp (saveenv_spec h.working 0 m.env)
    exact .inl ⟨_, .save hrun⟩
  | protect c =>
    obtain ⟨r, k, hrun, -⟩ := wp_never.mp (dataflashRealProtect_spec h.working.initialised c)
    exact .inl ⟨_, .protect hrun⟩
  | reset =>
    obtain ⟨e, k, hrun, -⟩ := wp_never.mp (startEnv_spec h.working.prompt 0 0 0)
    exact .inl ⟨_, .reset (s := { m.env with data := e.data, crc := e.crc })
      ⟨rfl, h.working.prompt⟩ hrun rfl rfl⟩

/-! ## Runs -/

abbrev Machine.Run : List Event → Machine → Machine → Prop :=
  Exec.Run (Machine.Step consoleAssign atNull)

abbrev Content.Run : List Event → Content → Content → Prop :=
  Exec.Run (Content.Step consoleAssign atNull)

theorem run_related {evs : List Event} (h : Related m a)
    (hrun : Machine.Run consoleAssign atNull evs m m') :
    ∃ b, Content.Run consoleAssign atNull evs a b ∧ Related m' b := by
  refine Run.simulate (R := Related) ?_ hrun h
  intro e s t a hr hs
  exact step_refines consoleAssign atNull hr hs

/-- A run without a command for the baud rate comes to its end. -/
theorem run_exists {evs : List Event}
    (hevs : ∀ c, .set c ∈ evs → c.name.chars ≠ ascii "baudrate") (h : Related m a) :
    ∃ m', Machine.Run consoleAssign atNull evs m m' := by
  induction evs generalizing m a with
  | nil => exact ⟨m, rfl⟩
  | cons ev evs ih =>
    rcases step_exists consoleAssign atNull h ev with ⟨m₁, hstep⟩ | ⟨c, s, hset, -, -, hswitches⟩
    · obtain ⟨b, -, hb⟩ := step_refines consoleAssign atNull h hstep
      obtain ⟨m', hrun⟩ := ih (fun c hc => hevs c (List.mem_cons_of_mem _ hc)) hb
      exact ⟨m', m₁, hstep, hrun⟩
    · subst hset
      exact absurd hswitches.name (hevs c List.mem_cons_self)

/-- Every run does to the environment what it does to the two stores, and `getenv` finds the
variables of the store in memory after it. Nothing can go wrong: whatever comes next comes to its
end, unless it replaces the baud rate by a supported one and no Enter is left in the input. -/
theorem run_refines (evs : List Event) (h : Related m a)
    (hrun : Machine.Run consoleAssign atNull evs m m') :
    ∃ b, Content.Run consoleAssign atNull evs a b ∧ Related m' b ∧
      (∀ n, Reads m'.env.data n (lookup b.current.vars n)) ∧
      ∀ ev, (∃ m'', Machine.Step consoleAssign atNull ev m' m'') ∨
        ∃ c s, ev = .set c ∧ doSetenv consoleAssign atNull c.name.chars c.args m'.env =
          .error .blocked s ∧ 0x0D ∉ s.input ∧ c.Switches atNull b.current.vars := by
  obtain ⟨b, hb, hrel⟩ := run_related consoleAssign atNull h hrun
  exact ⟨b, hb, hrel, fun n => hrel.current.holds.reads n, fun ev =>
    step_exists consoleAssign atNull hrel ev⟩

def Image.placed (e : Image) (x : ℕ) : Byte := e.bytes (x - 0x4000)

/-- A board with the same environment in memory and in the DataFlash. -/
def imageMachine (e : Image) : Machine where
  bank := freshBank e.placed (fun _ => 0)
  env := { emptyGlobals with data := e.data, crc := e.crc }

theorem storedImage_placed (e : Image) : (storedImage e.placed).Same e := by
  have hcrc : (fun i => e.placed (0x4000 + i)) = e.bytes := by
    funext i
    rw [Image.placed, Nat.add_sub_cancel_left]
  have hdata : (fun i => e.placed (0x4004 + i)) = e.data := by
    funext i
    have hplace : 0x4004 + i - 0x4000 = 4 + i := by omega
    rw [Image.placed, hplace, e.bytes_data]
  rw [storedImage, hcrc, hdata, e.bytes_crc]
  exact ⟨rfl, fun _ _ => rfl⟩

theorem freshBank_working (flash : ℕ → Byte) (mem : Word → Byte) : Working (freshBank flash mem) where
  initialised := freshBank_initialised flash mem
  prompt := {
    code := show Recognised 0x1C by decide
    busy := show 0 < 200000 by decide
    latency := fun _ => show 0 < 200000 by decide }

theorem freshBank_flash (flash : ℕ → Byte) (mem : Word → Byte) :
    (freshBank flash mem).board.chip.flash = flash := rfl

theorem imageMachine_related {e : Image} {n : Store} (h : e.Represents n) :
    Related (imageMachine e) ⟨n, n, layout .set .clear .set⟩ where
  working := freshBank_working _ _
  areas := rfl
  current := ⟨h.holds, h.checked⟩
  saved := by
    rw [imageMachine, freshBank_flash]
    exact (storedImage_placed e).represents h

def bootdelayName : Name := ⟨⟨ascii "bootdelay", by decide⟩, by decide⟩

def clearBootdelay : Setting := ⟨bootdelayName.toText, []⟩

def protectEnv : ProtectCall := ⟨1, 0xC0004000, 0xC0007FFF⟩

/-- The environment is saved with a new variable, which is replaced, and another one deleted; the
second save is refused, and the board is started again. -/
def lifetime : List Event :=
  [.set setLoadaddr, .save, .set setTwoValues, .set clearBootdelay, .protect protectEnv, .save, .reset]

theorem lifetime_sets : ∀ c, .set c ∈ lifetime → c.name.chars ≠ ascii "baudrate" := by
  intro c hc
  simp only [lifetime, List.mem_cons, Event.set.injEq, reduceCtorEq, List.not_mem_nil, false_or,
    or_false] at hc
  rcases hc with rfl | rfl | rfl <;> decide

theorem run_refines_lifetime : ∃ m b,
    Machine.Run (fun _ _ => 0) [] lifetime (imageMachine defaultImage) m ∧
    Related m b ∧ b.saved.vars.length = 3 ∧
      Reads m.env.data loadaddrName (some ⟨ascii "20", by decide⟩) ∧
        Reads m.env.data bootdelayName (some ⟨ascii "3", by decide⟩) := by
  have hstart := imageMachine_related defaultImage_represents
  obtain ⟨m, hrun⟩ := run_exists (fun _ _ => 0) [] lifetime_sets hstart
  obtain ⟨b, hb, hrel, hreads, -⟩ := run_refines (fun _ _ => 0) [] lifetime hstart hrun
  obtain ⟨_, h₁, _, h₂, _, h₃, _, h₄, _, h₅, _, h₆, _, h₇, rfl⟩ := hb
  cases h₁
  cases h₂ with
  | refuse h0 => exact absurd h0 (by decide)
  | save =>
    cases h₃
    cases h₄
    cases h₅
    cases h₆ with
    | save h0 => exact absurd (by decide) h0
    | refuse =>
      cases h₇ with
      | fallback h0 => exact absurd h0 (by decide)
      | load => exact ⟨m, _, hrun, hrel, by decide, hreads loadaddrName, hreads bootdelayName⟩

/-- In no run is a byte of the DataFlash changed outside the area of the environment. -/
theorem run_flash (evs : List Event) (h : Related m a)
    (hrun : Machine.Run consoleAssign atNull evs m m') (x : ℕ) (hx : x < 0x4000 ∨ 0x5000 ≤ x) :
    m'.bank.board.chip.flash x = m.bank.board.chip.flash x := by
  let P (n : Machine) : Prop :=
    (∃ b, Related n b) ∧ n.bank.board.chip.flash x = m.bank.board.chip.flash x
  have hP : P m' := by
    refine Run.keeps (P := P) ?_ hrun ⟨⟨a, h⟩, rfl⟩
    intro e _ n n' hn hstep
    obtain ⟨⟨b, hb⟩, hsame⟩ := hn
    obtain ⟨c, -, hc⟩ := step_refines consoleAssign atNull hb hstep
    refine ⟨⟨c, hc⟩, Eq.trans ?_ hsame⟩
    cases hstep with
    | set hrun => rfl
    | save hrun =>
      obtain ⟨-, -, -, hout, -⟩ := wp_of_ok (saveenv_spec hb.working _ _) hrun
      exact hout x hx
    | protect hrun =>
      have hk := wp_of_ok (dataflashRealProtect_spec hb.working.initialised _) hrun
      subst hk
      rfl
    | reset hup hrun hdata hcrc =>
      obtain ⟨-, -, hflash, -⟩ := wp_of_ok (startEnv_spec hup.prompt _ _ _) hrun
      rw [hflash, hup.flash]
  exact hP.2

theorem run_flash_save : ∃ m, Machine.Run (fun _ _ => 0) [] [.save] (imageMachine defaultImage) m ∧
    m.bank.board.chip.flash 0 = (imageMachine defaultImage).bank.board.chip.flash 0 := by
  have hstart := imageMachine_related defaultImage_represents
  obtain ⟨m₁, hsave⟩ | ⟨c, s, hset, -⟩ := step_exists (fun _ _ => 0) [] hstart .save
  · have hrun : Machine.Run (fun _ _ => 0) [] [.save] (imageMachine defaultImage) m₁ :=
      ⟨m₁, hsave, rfl⟩
    exact ⟨m₁, hrun, run_flash (fun _ _ => 0) [] [.save] hstart hrun 0 (Or.inl (by decide))⟩
  · cases hset

/-- What was saved with its check up to date comes back at any later start, whatever was set, protected
or restarted in between without saving again. -/
theorem saved_survives (h : Related m a) (hchecked : a.current.checked = true)
    (hprot : protDataflash a.areas envAddr ≠ 0) {m₁ m₂ m₃ : Machine}
    (hsave : Machine.Step consoleAssign atNull .save m m₁) (evs : List Event)
    (hno : ∀ ev ∈ evs, ev ≠ .save) (hrun : Machine.Run consoleAssign atNull evs m₁ m₂)
    (hreset : Machine.Step consoleAssign atNull .reset m₂ m₃) :
    Represents m₃.env a.current ∧ ∀ n, Reads m₃.env.data n (lookup a.current.vars n) := by
  have htrust : a.current.trust = a.current := by
    rw [Store.trust, ← hchecked]
  have hcurrent : Represents m₃.env a.current := by
    let P (n : Machine) : Prop := ∃ b, Related n b ∧ b.saved = a.current
    have hfirst : P m₁ := by
      obtain ⟨b, hb, hrel⟩ := step_refines consoleAssign atNull h hsave
      cases hb with
      | save => exact ⟨_, hrel, rfl⟩
      | refuse h0 => exact absurd h0 hprot
    have hlast : P m₂ := by
      refine Run.keeps (P := P) ?_ hrun hfirst
      intro e he n n' hn hstep
      obtain ⟨b, hb, hsaved⟩ := hn
      obtain ⟨c, hc, hrel⟩ := step_refines consoleAssign atNull hb hstep
      refine ⟨c, hrel, ?_⟩
      cases hc with
      | set => exact hsaved
      | save => exact absurd rfl (hno _ he)
      | refuse => exact hsaved
      | protect => exact hsaved
      | load => rw [hsaved, htrust]
      | fallback => exact hsaved
    obtain ⟨b, hb, hsaved⟩ := hlast
    obtain ⟨c, hc, hrel⟩ := step_refines consoleAssign atNull hb hreset
    cases hc with
    | load =>
      have hrep := hrel.current
      rwa [hsaved, htrust] at hrep
    | fallback h0 =>
      rw [hsaved, hchecked] at h0
      exact absurd h0 (by decide)
  exact ⟨hcurrent, fun n => hcurrent.holds.reads n⟩

/-- What is done behind the save: a replacement, protection, a start and a deletion. -/
def afterSave : List Event :=
  [.set setTwoValues, .protect protectEnv, .reset, .set clearBootdelay]

theorem afterSave_sets : ∀ c, .set c ∈ afterSave → c.name.chars ≠ ascii "baudrate" := by
  intro c hc
  simp only [afterSave, List.mem_cons, Event.set.injEq, reduceCtorEq, List.not_mem_nil, false_or,
    or_false] at hc
  rcases hc with rfl | rfl <;> decide

theorem saved_survives_edits : ∃ m m₁ m₂ m₃ : Machine,
    Machine.Step (fun _ _ => 0) [] (.set setLoadaddr) (imageMachine defaultImage) m ∧
    Machine.Step (fun _ _ => 0) [] .save m m₁ ∧ Machine.Run (fun _ _ => 0) [] afterSave m₁ m₂ ∧
    Machine.Step (fun _ _ => 0) [] .reset m₂ m₃ ∧
      Reads m₃.env.data loadaddrName (some ⟨ascii "20", by decide⟩) ∧
        Reads m₃.env.data bootdelayName (some ⟨ascii "3", by decide⟩) := by
  have hstart := imageMachine_related defaultImage_represents
  obtain ⟨m, hset⟩ | ⟨c, s, hc, -, -, hswitches⟩ :=
    step_exists (fun _ _ => 0) [] hstart (.set setLoadaddr)
  · obtain ⟨a, ha, hm⟩ := step_refines (fun _ _ => 0) [] hstart hset
    cases ha
    obtain ⟨m₁, hsave⟩ | ⟨c, s, hc, -⟩ := step_exists (fun _ _ => 0) [] hm .save
    · obtain ⟨b, -, hb⟩ := step_refines (fun _ _ => 0) [] hm hsave
      obtain ⟨m₂, hrun⟩ := run_exists (fun _ _ => 0) [] afterSave_sets hb
      obtain ⟨d, -, hd⟩ := run_related (fun _ _ => 0) [] hb hrun
      obtain ⟨m₃, hreset⟩ | ⟨c, s, hc, -⟩ := step_exists (fun _ _ => 0) [] hd .reset
      · have hno : ∀ ev ∈ afterSave, ev ≠ .save := by simp [afterSave]
        have hreads := (saved_survives (fun _ _ => 0) [] hm (by decide) (by decide) hsave afterSave
          hno hrun hreset).2
        exact ⟨m, m₁, m₂, m₃, hset, hsave, hrun, hreset, hreads loadaddrName, hreads bootdelayName⟩
      · cases hc
    · cases hc
  · cases hc
    exact absurd hswitches.name (by decide)

end Armboard.Env
