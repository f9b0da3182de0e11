import Armboard.DataFlash.Commands

/-! # Power-up and probing

`AT91F_DataflashInit` asks the chip for its status byte once. The device code in it
decides whether the geometry of the AT45DB041 is installed; for every other code the
page count stays zero.
-/

namespace Armboard.DataFlash
open Exec

/-- A chip that holds `flash` and is ready, with `code` in its status register. -/
def Chip.ready (code : Byte) (flash : ℕ → Byte) : Chip where
  flash := flash
  buffer _ := 0
  code := code
  busy := 0
  latency _ := 0
  noise _ _ := 0
  clock := 0
  log := []

def blankFeatures : Features where
  pagesNumber := 0
  pagesSize := 0
  pageOffset := 0
  byteMask := 0

/-- The board at power-up: the static data of the driver is zero. -/
def powerUp (chip : Chip) (mem : Word → Byte) : Board where
  chip := chip
  mem := mem
  desc := { txCmdSize := 0, rxCmdSize := 0, txDataPt := 0, txDataSize := 0, rxDataPt := 0,
            rxDataSize := 0, state := idle, dataFlashState := 0, command := fun _ => 0 }
  device := blankFeatures
  id := 0

def Recognised (status : Byte) : Prop := status &&& 0x3C = 0x1C

instance (status : Byte) : Decidable (Recognised status) := inferInstanceAs (Decidable (_ = _))

theorem probe_code (s : Byte) :
    (if s = 0xFF then (0 : Word) else (s &&& 0x3C).setWidth 32) = at45db041 ↔ Recognised s := by
  revert s
  decide

theorem dataflashInit_spec (b : Board) :
    wp dataflashInit (fun _ t => t.chip.flash = b.chip.flash ∧ t.mem = b.mem ∧
      t.desc.state = idle ∧ t.chip.programmed = b.chip.programmed ∧
      t.device = if Recognised b.chip.status then at45db041Features
        else { b.device with pagesNumber := 0 }) never b := by
  simp only [dataflashInit, dataflashProbe, wp_bind, wp_modify, wp_get, wp_pure]
  apply wp_post (dataFlashGetStatus_spec _ rfl)
  rintro _ t ⟨hk, -, hc, -, -⟩
  have hprog : t.chip.programmed = b.chip.programmed := hk.programmed
  rw [hc]
  by_cases h : Recognised b.chip.status
  · rw [if_pos ((probe_code _).mpr h), if_pos h]
    simp only [wp_bind, wp_modify, wp_pure]
    exact ⟨hk.flash, hk.mem, hk.idle, hprog, trivial⟩
  · rw [if_neg (fun hn => h ((probe_code _).mp hn)), if_neg h]
    exact ⟨hk.flash, hk.mem, hk.idle, hprog, hk.device⟩

theorem dataflashInit_installed {b : Board} (h : Recognised b.chip.status) :
    wp dataflashInit (fun _ t => Installed t ∧ t.chip.flash = b.chip.flash ∧ t.mem = b.mem)
      never b := by
  apply wp_post (dataflashInit_spec b)
  rintro _ t ⟨hf, hm, hi, -, hd⟩
  rw [if_pos h] at hd
  exact ⟨⟨hd, hi⟩, hf, hm⟩

/-- The state that probing a ready AT45DB041 leads to, less the traces of the probe itself. -/
def freshBoard (flash : ℕ → Byte) (mem : Word → Byte) : Board :=
  { powerUp (Chip.ready 0x1C flash) mem with device := at45db041Features, id := at45db041 }

theorem freshBoard_installed (flash : ℕ → Byte) (mem : Word → Byte) : Installed (freshBoard flash mem) :=
  ⟨rfl, rfl⟩

end Armboard.DataFlash
