import Armboard.Exec.Invariant
import Armboard.Bootloader.Record

/-! # Invariants of whole runs

`Rules` collects what an invariant of board and record has to survive: the driver
calls, the questions, the transfers, and writes that were consented to. That every
write of `main` is consented to is proved here once, with the control flow of the
menu; a result about all runs is then an instance of `Rules`.
-/

namespace Armboard.Bootloader
open Exec DataFlash Storage

/-- Board and record invariant `I` and `P` survive every step of `main`; stops meet `E`. -/
structure Rules (I : Board → Prop) (P : List Event → Prop) (E : Halt → World → Prop) : Prop where
  mem : ∀ b m, I b → I { b with mem := m }
  asked : ∀ prompt k l, P l → P (.asked prompt k :: l)
  downloaded : ∀ n l, P l → P (.downloaded n :: l)
  stop : ∀ w, I w.board → P w.events → E .hang w ∧ E .blocked w
  read : ∀ addr size p w, I w.board → P w.events →
    wp (onBoard (readDataflash addr size p)) (fun _ t => I t.board ∧ t.events = w.events) E w
  write : ∀ addr src size w, I w.board → P w.events → Consented addr size w.events →
    wp (writeFlash addr src size) (fun _ t => I t.board ∧ P t.events) E w
  start : ∀ w, I w.board → P w.events → wp startUboot (fun _ t => I t.board ∧ P t.events) E w

namespace Rules
variable {I : Board → Prop} {P : List Event → Prop} {E : Halt → World → Prop} {γ : Type}

def At (I : Board → Prop) (l : List Event) (w : World) : Prop := I w.board ∧ w.events = l

def Inv (I : Board → Prop) (P : List Event → Prop) (w : World) : Prop := I w.board ∧ P w.events

theorem printf {l : List Event} (format : String) (args : List Arg) :
    Maintains (At I l) E (printf format args) := Maintains.modify (fun _ hw => hw)

theorem showChar {l : List Event} (c : Byte) : Maintains (At I l) E (showChar c) :=
  Maintains.ite (fun _ => printf _ _) (fun _ => printf _ _)

theorem displayMenu {l : List Event} : Maintains (At I l) E displayMenu :=
  (printf _ _).bind (fun _ => (printf _ _).bind (fun _ => (printf _ _).bind (fun _ =>
    (printf _ _).bind (fun _ => (printf _ _).bind (fun _ => printf _ _)))))

theorem dataflashPrintInfo {l : List Event} : Maintains (At I l) E dataflashPrintInfo := by
  refine Maintains.get.bind (fun w => (printf _ _).bind (fun _ => ?_))
  exact Maintains.ite (fun _ => (printf _ _).bind (fun _ => printf _ _)) (fun _ => printf _ _)

/-- Behind a write the record is no longer followed entry by entry. -/
theorem finish {α : Type} {x : Monitor α} (hx : ∀ l, P l → Maintains (At I l) E x) :
    Maintains (Inv I P) E x := by
  intro w hw
  exact wp_post (hx _ hw.2 w ⟨hw.1, rfl⟩) (fun _ _ ht => ⟨ht.1, ht.2 ▸ hw.2⟩)

/-- Whether a run returns or stops, its record keeps `P`. -/
theorem record {α : Type} {x : Monitor α} {w : World}
    (hx : wp x (fun _ t => Inv I P t) (fun _ t => P t.events) w) : P (final (x w)).events := by
  have hboth : wp x (fun _ t => P t.events) (fun _ t => P t.events) w :=
    wp_post hx (fun _ _ ht => ht.2)
  exact wp_final hboth

variable (h : Rules I P E)
include h

/-! ## Steps that leave the record alone -/

theorem setMem {l : List Event} (f : (Word → Byte) → Word → Byte) :
    Maintains (At I l) E (setMem f) := Maintains.modify (fun _ hw => ⟨h.mem _ _ hw.1, hw.2⟩)

theorem waitKeyPressed {l : List Event} (hl : P l) : Maintains (At I l) E waitKeyPressed := by
  apply (printf _ _).bind
  intro _
  rintro w ⟨hw, rfl⟩
  rw [wp_bind, getc, wp_bind, wp_get]
  cases hk : w.keys with
  | nil => exact (h.stop w hw hl).2
  | cons c cs => exact ⟨hw, rfl⟩

theorem readFlash {l : List Event} (hl : P l) (addr size p : Word) :
    Maintains (At I l) E (onBoard (readDataflash addr size p)) := by
  rintro w ⟨hw, rfl⟩
  exact h.read addr size p w hw hl

theorem fetchLine {l : List Event} (hl : P l) (rom : Rom γ) (addr count : Word)
    (dataflash : Bool) : Maintains (At I l) E (fetchLine rom addr count dataflash) :=
  Maintains.ite (fun _ => (h.readFlash hl _ _ _).bind (fun _ => Maintains.pure _))
    (fun _ => h.setMem _)

theorem displayLine {l : List Event} (hl : P l) (rom : Rom γ) (addr size linebytes : Word) (n : ℕ)
    (dataflash : Bool) : Maintains (At I l) E (displayLine rom addr size linebytes n dataflash) := by
  refine (printf _ _).bind (fun _ => (h.fetchLine hl _ _ _ _).bind (fun _ => ?_))
  refine Maintains.get.bind (fun w => (Maintains.forM _ (fun i => printf _ _)).bind (fun _ => ?_))
  apply (printf _ _).bind
  intro _
  exact (Maintains.forM _ (fun i => showChar _)).bind (fun _ => printf _ _)

theorem memoryDisplay {l : List Event} (hl : P l) (rom : Rom γ) (addr size length : Word)
    (dataflash : Bool) : Maintains (At I l) E (memoryDisplay rom addr size length dataflash) := by
  unfold Bootloader.memoryDisplay
  generalize (length * size).toNat / 16 + 1 = fuel
  generalize length * size = nbytes
  induction fuel generalizing addr nbytes with
  | zero =>
    apply Maintains.throw
    rintro w ⟨hw, rfl⟩
    exact (h.stop w hw hl).1
  | succ fuel ih =>
    apply (h.displayLine hl rom _ _ _ _ _).bind
    intro _
    exact Maintains.ite (fun _ => Maintains.pure _) (fun _ => ih _ _)

theorem memoryInfo {l : List Event} (hl : P l) : Maintains (At I l) E memoryInfo :=
  (printf _ _).bind (fun _ => (printf _ _).bind (fun _ => dataflashPrintInfo.bind (fun _ =>
    (printf _ _).bind (fun _ => h.waitKeyPressed hl))))

theorem bootloaderInfo {l : List Event} (hl : P l) (rom : Rom γ) :
    Maintains (At I l) E (bootloaderInfo rom) :=
  (printf _ _).bind (fun _ => (printf _ _).bind (fun _ => (printf _ _).bind (fun _ =>
    (printf _ _).bind (fun _ => h.waitKeyPressed hl))))

theorem countPages {l : List Event} (hl : P l) (fuel : ℕ) : ∀ i nbPage,
    Maintains (At I l) E (countPages fuel i nbPage) := by
  induction fuel with
  | zero =>
    intro i nbPage
    apply Maintains.throw
    rintro w ⟨hw, rfl⟩
    exact (h.stop w hw hl).1
  | succ fuel ih =>
    intro i nbPage
    exact Maintains.ite (fun _ => Maintains.pure _) (fun _ => ih _ _)

/-! ## Questions -/

theorem readLine {l : List Event} (hl : P l) (prompt : Option String) {w : World}
    (hw : At I l w) :
    wp (readLine prompt) (fun _ t => ∃ k, At I (.asked prompt k :: l) t ∧ Shows k t.message)
      E w := by
  obtain ⟨hb, rfl⟩ := hw
  apply wp_mono (readLine_spec prompt w)
  · rintro _ t ⟨hboard, k, hk, hs⟩
    exact ⟨k, ⟨hboard ▸ hb, hk⟩, hs⟩
  · rintro _ _ ⟨rfl, rfl⟩
    exact (h.stop _ hb hl).2

theorem pageThrough (rom : Rom γ) (dataflash : Bool) (fuel : ℕ) : ∀ arg,
    Maintains (Inv I P) E (pageThrough rom dataflash fuel arg) := by
  induction fuel with
  | zero => exact fun arg => Maintains.throw (fun w hw => (h.stop w hw.1 hw.2).1)
  | succ fuel ih =>
    intro arg w hw
    rw [Bootloader.pageThrough, wp_bind]
    apply wp_post (h.memoryDisplay hw.2 rom arg 4 64 dataflash w ⟨hw.1, rfl⟩)
    intro _ w₁ h₁
    rw [wp_bind]
    apply wp_post (h.readLine hw.2 none h₁)
    rintro _ w₂ ⟨k, h₂, -⟩
    have hinv : Inv I P w₂ := ⟨h₂.1, h₂.2 ▸ h.asked _ _ _ hw.2⟩
    rw [wp_bind, wp_get]
    split
    · exact ih _ w₂ hinv
    · exact hinv

/-! ## Writes -/

theorem writeFlash {l : List Event} (hl : P l) {addr size : Word} (src : Word)
    (hc : Consented addr size l) {w : World} (hw : At I l w) :
    wp (writeFlash addr src size) (fun _ t => Inv I P t) E w := by
  obtain ⟨hb, rfl⟩ := hw
  exact h.write addr src size w hb hl hc

theorem clearBootsector {k₀ : List Byte} {l : List Event}
    (hl : P (.asked (some menuPrompt) k₀ :: l)) (hmenu : Begins k₀ 0x35) {w : World}
    (hw : At I (.asked (some menuPrompt) k₀ :: l) w) :
    wp clearBootsector (fun _ t => Inv I P t) E w := by
  rw [Bootloader.clearBootsector, wp_bind]
  apply wp_post (h.readLine hl _ hw)
  rintro _ w₁ ⟨k, h₁, hs⟩
  have hP := h.asked (some eraseQuestion) k _ hl
  rw [wp_bind, wp_get]
  by_cases hyes : saidYes w₁.message
  · have hy : SaysYes k := hyes.imp (hs _ (by decide)) (hs _ (by decide))
    rw [if_pos hyes, wp_bind]
    apply wp_post (h.setMem _ w₁ h₁)
    intro _ w₂ h₂
    rw [wp_bind]
    apply wp_post (h.writeFlash hP _ (.erase hmenu hy) h₂)
    intro _ w₃ h₃
    exact finish (fun l hl => (printf _ _).bind (fun _ => h.waitKeyPressed hl)) w₃ h₃
  · rw [if_neg hyes]
    exact wp_post ((printf _ _).bind (fun _ => h.waitKeyPressed hP) w₁ h₁)
      (fun _ t ht => ⟨ht.1, ht.2 ▸ hP⟩)

theorem update [DecidableEq γ] {l : List Event} (hl : P l) (rom : Rom γ) {arg size : Word}
    (hc : Consented arg size l) {w : World} (hw : At I l w) :
    wp (update rom arg size) (fun _ t => Inv I P t) E w := by
  rw [Bootloader.update, wp_bind, wp_get, wp_bind]
  apply wp_post (h.countPages hl 32 _ 0 w hw)
  intro nbPage w₁ h₁
  rw [wp_bind]
  apply wp_post (h.setMem _ w₁ h₁)
  intro _ w₂ h₂
  rw [wp_bind]
  apply wp_post (printf (I := I) (E := E) (l := l) _ _ w₂ h₂)
  intro _ w₃ h₃
  rw [wp_bind]
  apply wp_post (printf (I := I) (E := E) (l := l) _ _ w₃ h₃)
  intro _ w₄ h₄
  rw [wp_bind, wp_get, wp_bind]
  apply wp_post (h.writeFlash hl _ hc h₄)
  intro _ w₅ h₅
  refine finish (fun l hl => ?_) w₅ h₅
  refine (h.setMem _).bind (fun _ => (h.readFlash hl _ _ _).bind (fun _ => ?_))
  refine (printf _ _).bind (fun _ => Maintains.get.bind (fun w => ?_))
  exact (printf _ _).bind (fun _ => h.waitKeyPressed hl)

theorem askDanger {l : List Event} (hl : P l) (arg : Word) {w : World}
    (hw : At I l w) :
    wp (askDanger arg) (fun _ t =>
      if saidYes w.message ∧ arg = 0 then
        ∃ k, At I (.asked (some dangerQuestion) k :: l) t ∧ Shows k t.message
      else t = w) E w := by
  rw [Bootloader.askDanger, wp_bind, wp_get]
  split
  · rw [wp_bind]
    exact wp_post (h.readLine hl _ hw) (fun _ _ ht => ht)
  · rfl

theorem receive {l : List Event} (hl : P l) {w : World} (hw : At I l w) :
    wp receive (fun size t => At I (.downloaded size :: l) t) E w := by
  obtain ⟨hb, rfl⟩ := hw
  rw [Bootloader.receive, wp_bind, wp_get]
  cases w.downloads with
  | nil => exact (h.stop w hb hl).2
  | cons image rest => exact ⟨h.mem _ _ hb, rfl⟩

/-- Command 1 behind the menu: whichever way the questions go, a write is consented to. -/
theorem download [DecidableEq γ] {k₀ : List Byte} {l : List Event}
    (hl : P (.asked (some menuPrompt) k₀ :: l)) (rom : Rom γ) (arg : Word)
    (hmenu : Begins k₀ 0x31) {w : World} (hw : At I (.asked (some menuPrompt) k₀ :: l) w) :
    wp (download rom arg) (fun _ t => Inv I P t) E w := by
  rw [Bootloader.download, wp_bind]
  apply wp_post (h.receive hl hw)
  intro size w₁ h₁
  have hl₁ := h.downloaded size _ hl
  rw [wp_bind]
  apply wp_post (printf (I := I) (E := E) _ _ w₁ h₁)
  intro _ w₂ h₂
  rw [wp_bind]
  apply wp_post (printf (I := I) (E := E) _ _ w₂ h₂)
  intro _ w₃ h₃
  rw [wp_bind]
  apply wp_post (h.readLine hl₁ _ h₃)
  rintro _ w₄ ⟨k₁, h₄, hs₁⟩
  have hl₄ := h.asked (some "") k₁ _ hl₁
  rw [wp_bind]
  apply wp_post (h.askDanger hl₄ arg h₄)
  intro _ w₅ h₅
  rw [wp_bind, wp_get]
  by_cases hask : saidYes w₄.message ∧ arg = 0
  · rw [if_pos hask] at h₅
    obtain ⟨k₂, h₅, hs₂⟩ := h₅
    have hl₅ := h.asked (some dangerQuestion) k₂ _ hl₄
    have hyes₁ : SaysYes k₁ := hask.1.imp (hs₁ _ (by decide)) (hs₁ _ (by decide))
    split
    · rename_i hyes
      have hyes₂ : SaysYes k₂ := hyes.imp (hs₂ _ (by decide)) (hs₂ _ (by decide))
      exact h.update hl₅ rom (.danger hmenu hyes₁ hyes₂) h₅
    · exact ⟨h₅.1, h₅.2 ▸ hl₅⟩
  · rw [if_neg hask] at h₅
    subst h₅
    split
    · rename_i hyes
      have hyes₁ : SaysYes k₁ := hyes.imp (hs₁ _ (by decide)) (hs₁ _ (by decide))
      exact h.update hl₄ rom (.update hmenu hyes₁ (fun h0 => hask ⟨hyes, h0⟩)) h₄
    · exact ⟨h₄.1, h₄.2 ▸ hl₄⟩

/-! ## The menu and the loops -/

omit h in
/-- A command that is not 0 stands in the first place of the buffer. -/
theorem parseCommand_fst {m : ℕ → Byte} {c : Byte} (hc : c ≠ 0) (hp : (parseCommand m).1 = c) :
    m 0 = c := by
  unfold parseCommand at hp
  split at hp
  · change (if _ then m 0 else 0) = c at hp
    split at hp
    · exact hp
    · exact absurd hp.symm hc
  · exact hp

/-- The commands of the menu, after a line `k₀` that shows the command: they end with command 0, or
with command 1 and its line in the record. -/
theorem runCommand {k₀ : List Byte} {l : List Event} (hl : P (.asked (some menuPrompt) k₀ :: l))
    (rom : Rom γ) (command : Byte) (arg : Word)
    (hbegin : ∀ c, c ≠ 0 → command = c → Begins k₀ c) {w : World}
    (hw : At I (.asked (some menuPrompt) k₀ :: l) w) :
    wp (runCommand rom command arg) (fun r t => Inv I P t ∧ (r.1 ≠ 0 → Begins k₀ 0x31 ∧
      At I (.asked (some menuPrompt) k₀ :: l) t)) E w := by
  have hinv : Inv I P w := ⟨hw.1, hw.2 ▸ hl⟩
  -- a command that comes back as 0 owes nothing about the record
  have hzero : ∀ x : Monitor Unit, wp x (fun _ t => Inv I P t) E w →
      wp (x >>= fun _ => pure ((0 : Byte), arg)) (fun r t => Inv I P t ∧ (r.1 ≠ 0 →
        Begins k₀ 0x31 ∧ At I (.asked (some menuPrompt) k₀ :: l) t)) E w := by
    intro x hx
    rw [wp_bind]
    exact wp_post hx (fun _ _ ht => ⟨ht, fun hne => absurd rfl hne⟩)
  rw [Bootloader.runCommand, wp_bind, wp_get]
  by_cases h31 : command = 0x31
  · rw [if_pos h31, wp_bind]
    apply wp_post (printf (I := I) (E := E) _ _ w hw)
    intro _ t ht
    exact ⟨⟨ht.1, ht.2 ▸ hl⟩, fun _ => ⟨hbegin _ (by decide) h31, ht⟩⟩
  rw [if_neg h31]
  by_cases h32 : command = 0x32
  · rw [if_pos h32]
    exact hzero _ (h.pageThrough rom _ _ _ w hinv)
  rw [if_neg h32]
  by_cases h33 : command = 0x33
  · rw [if_pos h33]
    exact hzero _ (h.pageThrough rom _ _ _ w hinv)
  rw [if_neg h33]
  by_cases h34 : command = 0x34
  · rw [if_pos h34]
    exact hzero _ (h.start w hinv.1 hinv.2)
  rw [if_neg h34]
  by_cases h35 : command = 0x35
  · rw [if_pos h35]
    exact hzero _ (h.clearBootsector hl (hbegin _ (by decide) h35) hw)
  rw [if_neg h35]
  by_cases h36 : command = 0x36
  · rw [if_pos h36]
    exact hzero _ (finish (fun _ hl => h.memoryInfo hl) w hinv)
  rw [if_neg h36]
  by_cases h37 : command = 0x37
  · rw [if_pos h37]
    exact hzero _ (finish (fun _ hl => h.bootloaderInfo hl rom) w hinv)
  · rw [if_neg h37]
    exact ⟨hinv, fun hne => absurd rfl hne⟩

/-- A pass of the menu ends with command 0, or with command 1 and its line in the record. -/
theorem menu (rom : Rom γ) {w : World} (hw : Inv I P w) :
    wp (menu rom) (fun r t => Inv I P t ∧ (r.1 ≠ 0 → ∃ k₀ l, Begins k₀ 0x31 ∧
      P (.asked (some menuPrompt) k₀ :: l) ∧ At I (.asked (some menuPrompt) k₀ :: l) t)) E w := by
  rw [Bootloader.menu, wp_bind]
  apply wp_post (displayMenu (I := I) (E := E) w ⟨hw.1, rfl⟩)
  intro _ w₁ h₁
  rw [wp_bind, wp_modify, wp_bind]
  apply wp_post (h.readLine hw.2 _ (w := { w₁ with message := prepare w₁.message }) h₁)
  rintro _ w₂ ⟨k₀, h₂, hs⟩
  have hl := h.asked (some menuPrompt) k₀ _ hw.2
  rw [wp_bind, wp_get]
  apply wp_post (h.runCommand hl rom _ _ (fun c hc hp => hs c hc (parseCommand_fst hc hp)) h₂)
  rintro r t ⟨hinv, hr⟩
  exact ⟨hinv, fun hne => ⟨k₀, _, (hr hne).1, hl, (hr hne).2⟩⟩

theorem mainPass [DecidableEq γ] (rom : Rom γ) : Maintains (Inv I P) E (mainPass rom) := by
  intro w hw
  rw [Bootloader.mainPass, wp_bind]
  apply wp_post (h.menu rom hw)
  rintro r w₁ ⟨hinv, hrest⟩
  by_cases h0 : r.1 = 0
  · rw [if_pos h0]
    exact hinv
  · obtain ⟨k₀, l, hmenu, hl, h₁⟩ := hrest h0
    rw [if_neg h0]
    exact h.download hl rom r.2 hmenu h₁

/-- The invariant holds over any number of passes of the endless loop. -/
theorem mainLoop [DecidableEq γ] (rom : Rom γ) (n : ℕ) :
    Maintains (Inv I P) E (mainLoop rom n) := by
  induction n with
  | zero => exact Maintains.pure _
  | succ n ih => exact (h.mainPass rom).bind (fun _ => ih)

/-- Behind the probe, `main` either starts U-Boot or enters the loop. -/
theorem main [DecidableEq γ] (rom : Rom γ) (inTime : Bool) (passes : ℕ) {w : World}
    (hinit : wp (onBoard dataflashInit) (fun _ t => Inv I P t) E w) :
    wp (main rom inTime passes) (fun _ t => Inv I P t) E w := by
  rw [Bootloader.main, wp_bind]
  apply wp_post hinit
  intro _ w₁ h₁
  rw [wp_bind]
  apply wp_post (printf (I := I) (E := E) _ _ w₁ ⟨h₁.1, rfl⟩)
  intro _ w₂ h₂
  have hinv : Inv I P w₂ := ⟨h₂.1, h₂.2 ▸ h₁.2⟩
  cases inTime with
  | false => exact h.start w₂ hinv.1 hinv.2
  | true =>
    rw [if_pos rfl, wp_bind, getc, wp_bind, wp_get]
    cases w₂.keys with
    | nil => exact (h.stop w₂ hinv.1 hinv.2).2
    | cons c cs => exact h.mainLoop rom passes { w₂ with keys := cs } hinv

end Rules

end Armboard.Bootloader
