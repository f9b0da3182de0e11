import Armboard.Bootloader.BootSection
import Armboard.DataFlash.Range

/-! # U-Boot is started only when it was loaded

`AT91F_StartUboot` jumps whatever its read returned. On a board whose chip was
recognised the read is exact and the jump finds U-Boot in SDRAM; with any other
status byte the read is refused and the jump finds what was there before.
-/

namespace Armboard.Bootloader
open Exec DataFlash Storage

def UbootLoaded (b : Board) : Prop :=
  ∀ i < ubootSize.toNat, view b.mem ubootAddr i = b.chip.flash (ubootDataflashAddr.toNat + i)

/-- With this status byte, every run from power-up that jumps does so to a loaded U-Boot: from the
tempo or from the menu, for every flash, every memory and all inputs. -/
def StartsLoaded (status : Byte) : Prop :=
  ∀ (γ : Type) [DecidableEq γ] (rom : Rom γ) (chip : Chip) (mem : Word → Byte) (w : World)
    (inTime : Bool) (passes : ℕ) (pc : Word) (t : World), chip.status = status →
    main rom inTime passes { w with board := powerUp chip mem } = .error (.jump pc) t →
      pc = ubootAddr ∧ UbootLoaded t.board

def JumpsLoaded (e : Halt) (t : World) : Prop :=
  ∀ pc, e = .jump pc → pc = ubootAddr ∧ UbootLoaded t.board

theorem startUboot_installed {w : World} (hb : Installed w.board) :
    wp startUboot (fun _ _ => False) JumpsLoaded w := by
  have hin : ubootDataflashAddr.toNat + ubootSize.toNat ≤ arraySize := by decide
  rw [startUboot, wp_bind, wp_printf, wp_bind, wp_onBoard]
  apply wp_total (readDataflash_correct hb ubootAddr hin)
  rintro _ b ⟨-, hf, hmem⟩ pc hpc
  refine ⟨(Halt.jump.inj hpc).symm, fun i hi => ?_⟩
  exact (hmem i hi).trans (congrFun hf.flash _).symm

theorem loaded_rules : Rules Installed (fun _ => True) JumpsLoaded where
  mem b m hb := ⟨hb.device, hb.idle⟩
  asked _ _ _ _ := trivial
  downloaded _ _ _ := trivial
  stop w _ _ := ⟨fun pc h => Halt.noConfusion h, fun pc h => Halt.noConfusion h⟩
  read addr size p w hb _ := by
    rw [wp_onBoard]
    exact wp_total (readDataflash_spec hb addr size p) (fun _ _ h => ⟨h.2.installed, rfl⟩)
  write addr src size w hb _ _ := by
    rw [wp_writeFlash]
    exact wp_total (writeDataflash_spec hb addr src size) (fun _ _ h => ⟨h.1, trivial⟩)
  start w hb _ := wp_mono (startUboot_installed hb) (fun _ _ h => h.elim) (fun _ _ h => h)

theorem startsLoaded_of_recognised {status : Byte} (h : Recognised status) :
    StartsLoaded status := by
  rintro γ _ rom chip mem w inTime passes pc t rfl hrun
  have hinit : wp (onBoard dataflashInit) (fun _ t => Rules.Inv Installed (fun _ => True) t)
      JumpsLoaded { w with board := powerUp chip mem } := by
    rw [wp_onBoard]
    exact wp_total (dataflashInit_installed (b := powerUp chip mem) h) (fun _ _ hi => ⟨hi.1, trivial⟩)
  exact wp_of_error (loaded_rules.main rom inTime passes hinit) hrun pc rfl

/-! ## A board that is not recognised -/

def Chip.answering (status : Byte) (flash : ℕ → Byte) : Chip :=
  { Chip.ready status flash with busy := if status &&& 0x80 = 0x80 then 0 else 1 }

theorem Chip.answering_status (status : Byte) (flash : ℕ → Byte) :
    (Chip.answering status flash).status = status := by
  have h : ∀ s : Byte, (if (if s &&& 0x80 = 0x80 then 0 else 1) = 0 then s ||| 0x80 else s &&& 0x7F) = s := by
    decide +kernel
  exact h status

/-- The tempo starts whatever is in SDRAM. -/
theorem main_unrecognised {γ : Type} [DecidableEq γ] (rom : Rom γ) (chip : Chip)
    (mem : Word → Byte) (w : World) (h : ¬ Recognised chip.status) :
    wp (main rom false 0) (fun _ _ => False) (fun e t => e = .jump ubootAddr ∧
      t.board.chip.flash = chip.flash ∧ t.board.mem = mem) { w with board := powerUp chip mem } := by
  rw [main, wp_bind, wp_onBoard]
  apply wp_total (dataflashInit_spec (powerUp chip mem))
  rintro _ b ⟨hf, hm, hi, -, hd⟩
  have hb : Blank b := ⟨hd.trans (if_neg h), hi⟩
  simp only [wp_bind, wp_printf, Bool.false_eq_true, if_false, startUboot, wp_onBoard, wp_throw]
  apply wp_mono (readDataflash_blank hb ubootDataflashAddr ubootSize ubootAddr)
  · exact fun _ t ht => ⟨trivial, ht.flash.trans hf, ht.mem.trans hm⟩
  · rintro _ t ⟨-, hr⟩
    exact absurd hr (by decide)

theorem not_startsLoaded {status : Byte} (hrec : ¬ Recognised status) : ¬ StartsLoaded status := by
  intro h
  have hstatus := Chip.answering_status status (fun _ => 0xFF)
  have hrun := main_unrecognised plainRom (Chip.answering status (fun _ => 0xFF))
    (fun _ => 0) careless (by rw [hstatus]; exact hrec)
  unfold wp at hrun
  cases hx : main plainRom false 0
      { careless with board := powerUp (Chip.answering status (fun _ => 0xFF)) (fun _ => 0) } with
  | ok a t =>
    rw [hx] at hrun
    exact hrun
  | error e t =>
    rw [hx] at hrun
    obtain ⟨rfl, hf, hm⟩ := hrun
    have hl := (h _ plainRom _ _ careless false 0 _ t hstatus hx).2 0 (by decide)
    rw [hf, hm] at hl
    exact absurd (show (0 : Byte) = 0xFF from hl) (by decide)

/-- The runs that start with a status byte jump to a loaded U-Boot if and only if the byte has the
code of the AT45DB041. -/
theorem startsLoaded_iff (status : Byte) : StartsLoaded status ↔ Recognised status :=
  ⟨fun h => by_contra (fun hrec => not_startsLoaded hrec h), startsLoaded_of_recognised⟩

/-- A missing chip answers 0xFF: U-Boot is started without having been loaded. -/
theorem not_startsLoaded_missing : ¬ ∀ status, StartsLoaded status :=
  fun h => not_startsLoaded (by decide : ¬ Recognised 0xFF) (h 0xFF)

end Armboard.Bootloader
