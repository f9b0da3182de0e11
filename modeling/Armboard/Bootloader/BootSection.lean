import Armboard.Bootloader.Consent
import Armboard.DataFlash.Unrecognised
import Armboard.DataFlash.Write

/-! # The boot section and the second confirmation

Command 1 asks the DANGER question for address 0 only, while every write whose
chunks reach the first 16 KiB of the array changes the boot section. The exact
footprint of the write plan tells for which requests the guard is enough.
-/

namespace Armboard.Bootloader
open Exec DataFlash Storage

/-! ## Requests that stay out of the boot section -/

/-- The request is refused, is empty, or keeps to cells from 0x4000 on. The page that straddles the
end of the 32-bit addresses reaches 128 bytes beyond it. -/
def StaysOut (addr size : Word) : Prop :=
  rangeError at45db041Features addr size = true ∨ size = 0 ∨
    (addr.toNat + size.toNat ≤ 2 ^ 32 + 128 ∧ 0x4000 ≤ addr.toNat % arraySize ∧
      addr.toNat % arraySize + size.toNat ≤ arraySize)

instance (addr size : Word) : Decidable (StaysOut addr size) :=
  inferInstanceAs (Decidable (_ ∨ _ ∨ _))

theorem StaysOut.miss {addr size : Word} (h : StaysOut addr size)
    (hr : rangeError at45db041Features addr size = false) {x : ℕ} (hx : x < 0x4000) :
    ∀ c ∈ writePlan addr size, ¬ c.hits 264 x := by
  intro c hc hhit
  have hb := writePlan_bound hc
  have hpos : 0 < c.len := (Nat.zero_le _).trans_lt hhit.2
  rcases h with h | rfl | ⟨hend, hlow, hhigh⟩
  · rw [hr] at h
    exact absurd h (by decide)
  · have h0 : (0 : Word).toNat = 0 := rfl
    omega
  · have hp := writePlan_placed c hc
    rw [arraySize_eq] at hlow hhigh
    -- a chunk that starts behind the last address starts a page, so there is no room left for it
    have hlt : addr.toNat + c.src < 2 ^ 32 := by
      by_contra hge
      have ha := addr.isLt
      have hal := hp.aligned (by omega)
      omega
    obtain ⟨hf, hfirst⟩ := hp.first_mod hlt
    rw [hf.hits_iff, hfirst, arraySize_eq] at hhit
    omega

/-! ## The guard -/

def BootChanged (f g : ℕ → Byte) : Prop := ∃ x < isramSize.toNat, g x ≠ f x

def Erasing : List Event → Prop
  | .asked prompt _ :: _ => prompt = some eraseQuestion
  | _ => False

def DangerConfirmed : List Event → Prop
  | .asked second k₂ :: .asked first k₁ :: _ =>
    second = some dangerQuestion ∧ first = some "" ∧ SaysYes k₁ ∧ SaysYes k₂
  | _ => False

/-- A write of command 1 changes the boot section only behind the DANGER question. -/
def Guarded (f g : ℕ → Byte) (before : List Event) : Prop :=
  BootChanged f g → Erasing before ∨ DangerConfirmed before

/-- What a write does to the flash: nothing, or what its plan says. -/
def Effect (addr size : Word) (f g : ℕ → Byte) : Prop :=
  g = f ∨ rangeError at45db041Features addr size = false ∧
    ∃ data, g = patchAll 264 data (writePlan addr size) f

theorem StaysOut.unchanged {addr size : Word} (h : StaysOut addr size) {f g : ℕ → Byte}
    (he : Effect addr size f g) : ¬ BootChanged f g := by
  rintro ⟨x, hx, hne⟩
  rcases he with rfl | ⟨hr, data, rfl⟩
  · exact hne rfl
  · exact hne (patchAll_miss (h.miss hr hx))

/-- A write with consent is guarded when its address is 0 or it stays out of the boot section. -/
theorem guarded_of_consent {addr size : Word} {f g : ℕ → Byte} {before : List Event}
    (hc : Consented addr size before) (he : Effect addr size f g)
    (h : addr = 0 ∨ StaysOut addr size) : Guarded f g before := by
  intro hchange
  cases hc with
  | erase => exact Or.inl rfl
  | update _ _ haddr => exact absurd hchange ((h.resolve_left haddr).unchanged he)
  | danger _ hyes hdanger => exact Or.inr ⟨rfl, rfl, hyes, hdanger⟩

def GuardedWhereSafe : List Event → Prop :=
  EveryWrite (fun addr size f g before => addr = 0 ∨ StaysOut addr size → Guarded f g before)

/-! ## Every run -/

theorem guarded_rules : Rules Probed GuardedWhereSafe (fun _ t => GuardedWhereSafe t.events) where
  mem b m hb := hb.imp (fun h => ⟨h.device, h.idle⟩) (fun h => ⟨h.device, h.idle⟩)
  asked _ _ _ hl := hl
  downloaded _ _ hl := hl
  stop _ _ hl := ⟨hl, hl⟩
  read addr size p w hb hl := by
    rw [wp_onBoard]
    exact wp_mono (readDataflash_probed hb addr size p) (fun _ _ h => ⟨h.1, rfl⟩) (fun _ _ _ => hl)
  write addr src size w hb hl hc := by
    rw [wp_writeFlash]
    refine wp_mono (writeDataflash_probed hb addr src size) ?_ ?_
    · rintro _ b ⟨hp, he⟩
      exact ⟨hp, guarded_of_consent hc (he.imp id (fun h => ⟨h.1, _, h.2⟩)), hl⟩
    · rintro _ b ⟨hp, he⟩
      exact ⟨guarded_of_consent hc (Or.inl he), hl⟩
  start w hb hl := by
    rw [startUboot, wp_bind, wp_printf, wp_bind, wp_onBoard]
    exact wp_of_forall (fun _ _ => hl) (fun _ _ => hl)

/-- In every run from power-up, command 1 changes the boot section only behind the DANGER question,
wherever its address is 0 or its request stays out of the boot section. -/
theorem boot_section_guarded {γ : Type} [DecidableEq γ] (rom : Rom γ) (chip : Chip)
    (mem : Word → Byte) (w : World) (inTime : Bool) (passes : ℕ) :
    GuardedWhereSafe (final (main rom inTime passes
      { w with board := powerUp chip mem, events := [] })).events := by
  have hinit : wp (onBoard dataflashInit) (fun _ t => Rules.Inv Probed GuardedWhereSafe t)
      (fun _ t => GuardedWhereSafe t.events) { w with board := powerUp chip mem, events := [] } := by
    rw [wp_onBoard]
    exact wp_total (dataflashInit_probed rfl) (fun _ _ h => ⟨h.1, trivial⟩)
  exact Rules.record (guarded_rules.main rom inTime passes hinit)

/-! ## A write that slips through -/

/-- The last entry is a write that changed byte `x` right behind the first confirmation. -/
def slipped (x : ℕ) : List Event → Bool
  | .wrote _ _ _ f g :: .asked prompt _ :: _ => g x != f x && prompt == some ""
  | _ => false

structure AlwaysGuarded (l : List Event) : Prop where
  every : EveryWrite (fun _ _ f g before => Guarded f g before) l

theorem slipped_unguarded {x : ℕ} (hx : x < isramSize.toNat) {l : List Event}
    (h : slipped x l = true) : ¬ AlwaysGuarded l := by
  rintro ⟨hl⟩
  match l, h, hl with
  | .wrote _ _ _ f g :: .asked prompt _ :: _, h, hl =>
    simp only [slipped, Bool.and_eq_true, bne_iff_ne, beq_iff_eq] at h
    obtain ⟨hne, rfl⟩ := h
    rcases hl.1 ⟨x, hx, hne⟩ with he | hd
    · exact absurd (show some "" = some eraseQuestion from he) (by decide)
    · unfold DangerConfirmed at hd
      split at hd
      · rename_i heq
        obtain ⟨h₁, -⟩ := List.cons.inj heq
        obtain ⟨h₂, -⟩ := Event.asked.inj h₁
        exact absurd (h₂.trans hd.1) (by decide)
      · exact hd

/-- A board with an erased array, and an operator who types `1 1` and `y`. -/
def careless : World where
  board := powerUp (Chip.ready 0x1C (fun _ => 0xFF)) (fun _ => 0)
  message _ := 0
  keys := [0x78, 0x31, 0x20, 0x31, cr, 0x79, cr, 0x78]
  downloads := [List.replicate 128 0]
  output := []
  events := []

/-- A ROM whose CRC is the buffer itself. -/
def plainRom : Rom (List Byte) where
  crc32 := id
  linebuf := 0x00200000
  about := ""

private theorem careless_slips : slipped 1 (final (main plainRom true 1
    { careless with board := powerUp (Chip.ready 0x1C (fun _ => 0xFF)) (fun _ => 0), events := [] })).events =
      true := by
  decide +kernel

/-- At address 1 the boot section is overwritten and the DANGER question is never asked. -/
theorem boot_section_unguarded : ¬ ∀ (rom : Rom (List Byte)) (chip : Chip) (mem : Word → Byte)
    (w : World) (inTime : Bool) (passes : ℕ), AlwaysGuarded (final (main rom inTime passes
      { w with board := powerUp chip mem, events := [] })).events := by
  intro h
  have hrun := h plainRom (Chip.ready 0x1C (fun _ => 0xFF)) (fun _ => 0) careless true 1
  exact slipped_unguarded (by decide) careless_slips hrun

end Armboard.Bootloader
