import Armboard.Bootloader.StartUboot

/-! # What the verification of command 1 proves

The update ends with a comparison of two checksums: of the patched image, and of the
buffer after it was cleared and read back. It proves the flash right exactly when the
request fits the array or its first chunk cannot be read; for every other request
there is an image and a flash for which it prints OK all the same.
-/

namespace Armboard.Bootloader
open Exec DataFlash Storage

/-! ## The run of an update -/

def headerWord (size : Word) : Word := vector6 size 11 264

def patched (size : Word) (mem : Word → Byte) : ℕ → Byte :=
  view (store mem (downloadBase + offsetVect6) 4 (wordBytes (headerWord size))) downloadBase

def readBack (arg size : Word) (f : ℕ → Byte) (i : ℕ) : Byte :=
  if i < delivered (size.toNat + 1) arg size then f (readCell arg i) else 0

def okText : Output := .printf "OK\n\r" []

structure Updated {γ : Type} (rom : Rom γ) (arg size : Word) (w t : World) : Prop where
  flash : t.board.chip.flash =
    flashAfter arg size (patched size w.board.mem) w.board.chip.flash
  report : okText ∈ t.output ↔ okText ∈ w.output ∨
    rom.crc32 ((List.range size.toNat).map (patched size w.board.mem)) =
      rom.crc32 ((List.range size.toNat).map (readBack arg size t.board.chip.flash))

theorem buffer_readBack {b t : Board} {arg size : Word}
    (h : Fetched { b with mem := store b.mem downloadBase size.toNat (fun _ => 0) } t arg
      downloadBase (delivered (size.toNat + 1) arg size)) :
    crcBytes t.mem size = (List.range size.toNat).map (readBack arg size t.chip.flash) := by
  have hlt := size.isLt
  apply List.map_congr_left
  intro i hi
  have hi' : i < size.toNat := List.mem_range.mp hi
  rw [h.mem, h.flash, readBack]
  split
  · rename_i hd
    rw [view_store_lt _ _ _ hd (by omega)]
  · rename_i hd
    rw [view_store_ge _ _ _ (Nat.le_of_not_lt hd) (by omega), view_store_lt _ _ _ hi' (by omega)]

/-- The lines of an update, newest first: only the report can be the text `OK`. -/
theorem okText_mem {report : String} {i size arg : Word} {l : List Output} :
    okText ∈ .printf "press any key..." [] :: .printf report [] ::
      .printf "Verify Dataflash: " [] ::
      .printf "\n\rWrite %d bytes in DataFlash [0x%x]\n\r" [.word size, .word arg] ::
      .printf "\n\rModification of Arm Vector 6 :%x\n\r" [.word i] :: l ↔
        okText ∈ l ∨ report = "OK\n\r" := by
  have hskip : ∀ (format : String) (args : List Arg) (l' : List Output), "OK\n\r" ≠ format →
      (okText ∈ .printf format args :: l' ↔ okText ∈ l') := by
    intro format args l' h
    have hne : okText ≠ .printf format args := fun heq => h (Output.printf.inj heq).1
    rw [List.mem_cons, or_iff_right hne]
  rw [hskip _ _ _ (by decide), List.mem_cons, hskip _ _ _ (by decide), hskip _ _ _ (by decide),
    hskip _ _ _ (by decide), or_comm]
  exact or_congr Iff.rfl ⟨fun h => (Output.printf.inj h).1.symm, fun h => h ▸ rfl⟩

theorem countPages_at45 : countPages 32 2048 0 = (pure 11 : Monitor Word) := rfl

theorem update_spec {γ : Type} [DecidableEq γ] (rom : Rom γ) (arg size : Word) {w : World}
    (hb : Installed w.board) :
    wp (update rom arg size) (fun _ t => Updated rom arg size w t)
      (fun _ t => Updated rom arg size w t) w := by
  have hpages : at45db041Features.pagesNumber = 2048 := rfl
  have hsize : at45db041Features.pagesSize = 264 := rfl
  rw [update, wp_bind, wp_get, wp_bind, hb.device, hpages, hsize, countPages_at45, wp_pure]
  simp only [wp_bind, wp_get, setMem, wp_modify, wp_printf, wp_writeFlash]
  apply wp_total (writeDataflash_spec (b := { w.board with
    mem := store w.board.mem (downloadBase + offsetVect6) 4 (wordBytes (headerWord size)) })
    ⟨hb.device, hb.idle⟩ arg downloadBase size)
  rintro _ b₁ ⟨hi₁, hf₁⟩
  simp only [wp_onBoard]
  apply wp_total (readDataflash_spec (b := { b₁ with
    mem := store b₁.mem downloadBase size.toNat (fun _ => 0) })
    ⟨hi₁.device, hi₁.idle⟩ arg size downloadBase)
  rintro _ b₂ ⟨-, hf₂⟩
  have hdone : ∀ t : World, t.board = b₂ →
      t.output = .printf "press any key..." [] ::
        .printf (if rom.crc32 (crcBytes (store w.board.mem (downloadBase + offsetVect6) 4
          (wordBytes (headerWord size))) size) ≠ rom.crc32 (crcBytes b₂.mem size)
          then "Failed\n\r" else "OK\n\r") [] ::
        .printf "Verify Dataflash: " [] ::
        .printf "\n\rWrite %d bytes in DataFlash [0x%x]\n\r" [.word size, .word arg] ::
        .printf "\n\rModification of Arm Vector 6 :%x\n\r" [.word (headerWord size)] :: w.output →
      Updated rom arg size w t := by
    intro t ht hout
    constructor
    · rw [ht, hf₂.flash]
      exact hf₁
    · rw [hout, okText_mem, ht, buffer_readBack hf₂]
      apply or_congr Iff.rfl
      change _ ↔ rom.crc32 (crcBytes _ size) = _
      split
      · rename_i hne
        exact ⟨fun h => absurd h (by decide), fun h => absurd h hne⟩
      · rename_i heq
        exact ⟨fun _ => not_not.mp heq, fun _ => rfl⟩
  simp only [waitKeyPressed, wp_bind, wp_printf, getc, wp_get]
  cases w.keys with
  | nil => exact hdone _ rfl rfl
  | cons c cs => exact hdone _ rfl rfl

/-! ## When the verification is sound -/

def Separates {γ : Type} (crc : List Byte → γ) : Prop :=
  ∀ l l' : List Byte, l.length = l'.length → crc l = crc l' → l = l'

/-- A printed OK proves the update: for every image, flash and separating checksum, the request
fits the array and the flash holds the patched image. -/
def Verifies (arg size : Word) : Prop :=
  ∀ (γ : Type) [DecidableEq γ] (rom : Rom γ) (w : World), Separates rom.crc32 →
    Installed w.board → okText ∉ w.output →
    okText ∈ (final (update rom arg size w)).output →
      arg.toNat + size.toNat ≤ arraySize ∧ ∀ i < size.toNat,
        (final (update rom arg size w)).board.chip.flash (arg.toNat + i) =
          patched size w.board.mem i

/-- The same about the bytes alone: what is read back can agree with the image only if the flash
holds it. -/
def Faithful (arg size : Word) : Prop :=
  ∀ (mem : Word → Byte) (f : ℕ → Byte),
    (∀ i < size.toNat, readBack arg size (flashAfter arg size (patched size mem) f) i =
      patched size mem i) →
      arg.toNat + size.toNat ≤ arraySize ∧ ∀ i < size.toNat,
        flashAfter arg size (patched size mem) f (arg.toNat + i) = patched size mem i

theorem map_range_inj {n : ℕ} {f g : ℕ → Byte} :
    (List.range n).map f = (List.range n).map g ↔ ∀ i < n, f i = g i := by
  simp only [List.map_inj_left, List.mem_range]

theorem verifies_iff_faithful (arg size : Word) : Verifies arg size ↔ Faithful arg size := by
  constructor
  · intro h mem f heq
    have hb := freshBoard_installed f mem
    have hu := wp_final (update_spec plainRom arg size (w := { careless with board := freshBoard f mem }) hb)
    have hout : okText ∉ ({ careless with board := freshBoard f mem } : World).output := by
      simp [careless]
    have hflash := hu.flash
    have hok := hu.report.mpr (Or.inr (by
      rw [hflash]
      exact map_range_inj.mpr (fun i hi => (heq i hi).symm)))
    have hv := h _ plainRom _ (fun _ _ _ hl => hl) hb hout hok
    rw [hflash] at hv
    exact hv
  · intro h γ _ rom w hsep hb hout hok
    have hu := wp_final (update_spec rom arg size hb)
    have hcrc := (hu.report.mp hok).resolve_left hout
    have hmaps := hsep _ _ (by simp) hcrc
    rw [hu.flash] at hmaps ⊢
    exact h w.board.mem w.board.chip.flash (fun i hi => (map_range_inj.mp hmaps i hi).symm)

/-! ## The patched word -/

theorem headerWord_toNat {size : Word} (h : size.toNat ≤ 0x20000) :
    (headerWord size).toNat = size.toNat / 512 + 34693121 := by
  have hdiv : (size / 512).toNat = size.toNat / 512 := BitVec.toNat_udiv
  have hsum : headerWord size = size / 512 + 34693121 := by
    rw [headerWord, vector6, BitVec.add_assoc, BitVec.add_assoc]
    rfl
  have hc : (34693121 : Word).toNat = 34693121 := rfl
  rw [hsum, BitVec.toNat_add, hdiv, hc]
  omega

/-- The page size in the header word makes its top byte nonzero. -/
theorem headerWord_top {size : Word} (h : size.toNat ≤ 0x20000) :
    wordBytes (headerWord size) 3 = 2 := by
  have hv := headerWord_toNat h
  apply BitVec.eq_of_toNat_eq
  have h2 : (2 : Byte).toNat = 2 := rfl
  rw [wordBytes, BitVec.toNat_setWidth, BitVec.toNat_ushiftRight, Nat.shiftRight_eq_div_pow, hv, h2]
  omega

theorem patched_eq (size : Word) (mem : Word → Byte) {i : ℕ} (hi : i < 2 ^ 32) :
    patched size mem i = if 20 ≤ i ∧ i < 24 then wordBytes (headerWord size) (i - 20)
      else view mem downloadBase i :=
  view_store_at mem downloadBase (k := 20) (n := 4) _ (by decide) (by decide) hi

theorem patched_top {size : Word} (mem : Word → Byte) (h : size.toNat ≤ 0x20000) :
    patched size mem 23 = 2 := by
  rw [patched_eq size mem (by decide), if_pos (by decide)]
  exact headerWord_top h

theorem faithful_of_inside {arg size : Word} (h : arg.toNat + size.toNat ≤ arraySize) :
    Faithful arg size := fun _ _ _ => ⟨h, fun _ hi => flashAfter_inside h _ _ hi⟩

theorem faithful_of_refused {arg size : Word} (hlo : 24 ≤ size.toNat) (hhi : size.toNat ≤ 0x20000)
    (h : rangeError at45db041Features arg (chunkSize size) = true) : Faithful arg size := by
  intro mem f heq
  have hz := heq 23 (by omega)
  rw [readBack, delivered_zero h, if_neg (Nat.not_lt_zero _), patched_top mem hhi] at hz
  exact absurd hz (by decide)

/-! ## When it is not -/

/-- A flash that holds `image` from `arg` on, going round at the end of the array. -/
def mirror (arg : Word) (image : ℕ → Byte) (x : ℕ) : Byte :=
  image ((x + (arraySize - arg.toNat % arraySize)) % arraySize)

theorem mirror_at (arg : Word) (image : ℕ → Byte) {j : ℕ} (hj : j < arraySize) :
    mirror arg image ((arg.toNat + j) % arraySize) = image j := by
  rw [mirror, arraySize_eq] at *
  congr 1
  omega

/-- The image of a zeroed buffer: all zeros but for the patched word. -/
def bareImage (size : Word) : ℕ → Byte := patched size (fun _ => 0)

theorem bareImage_zero (size : Word) {i : ℕ} (hi : i < 2 ^ 32) (h : i < 20 ∨ 24 ≤ i) :
    bareImage size i = 0 := by
  rw [bareImage, patched_eq size _ hi, if_neg (by omega)]
  rfl

/-- Near the end of the 32-bit addresses the first half of the array is far from the patched
word. -/
theorem mirror_zero {arg size : Word} (harg : 2 ^ 32 ≤ arg.toNat + 0x20000) {x : ℕ}
    (hx : x < 131208) : mirror arg (bareImage size) x = 0 := by
  have hlt := arg.isLt
  rw [mirror, arraySize_eq]
  exact bareImage_zero size (by omega) (by omega)

/-- The chunks of the write put back what the flash holds. -/
theorem flashAfter_mirror {arg size : Word} (hhi : size.toNat ≤ 0x20000) :
    flashAfter arg size (bareImage size) (mirror arg (bareImage size)) =
      mirror arg (bareImage size) := by
  unfold flashAfter
  split
  · rfl
  apply patchAll_fixed
  intro c hc x hx
  have hp := writePlan_placed c hc
  have hb := writePlan_bound hc
  have hpage : x / 264 < 2048 := by
    rw [hx.1, hp.page]
    exact Nat.mod_lt _ (by omega)
  have hlen := hx.2
  rcases Nat.lt_or_ge (arg.toNat + c.src) (2 ^ 32) with hlt | hge
  · obtain ⟨hf, hfirst⟩ := hp.first_mod hlt
    obtain ⟨hle, hidx⟩ := hf.index_eq hx
    have hmod : (arg.toNat + (c.src + c.index 264 x)) % arraySize = x := by
      rw [arraySize_eq] at hfirst ⊢
      omega
    have hat := mirror_at arg (bareImage size) (j := c.src + c.index 264 x)
      (by rw [arraySize_eq]; omega)
    rw [hmod] at hat
    exact hat.symm
  -- a chunk behind the last address starts at least 128 bytes behind it
  · have hlt := arg.isLt
    have hal := hp.aligned (by omega)
    have hmod : (arg.toNat + c.src) % 2 ^ 32 = arg.toNat + c.src - 2 ^ 32 := by omega
    have hx1 := hx.1
    rw [hp.page, hmod] at hx1
    rw [mirror_zero (by omega) (by omega), bareImage_zero size (by omega) (by omega)]

/-- Every chunk that is read finds the image. -/
theorem readBack_mirror {arg size : Word} (hlo : 24 ≤ size.toNat) (hhi : size.toNat ≤ 0x20000)
    (hr : ¬ rangeError at45db041Features arg (chunkSize size) = true) {i : ℕ}
    (hi : i < size.toNat) :
    readBack arg size (mirror arg (bareImage size)) i = bareImage size i := by
  have h0 : size ≠ 0 := by
    rintro rfl
    exact absurd hlo (by decide)
  have hdel := chunkSize_le_delivered h0 hr size.toNat
  have hchunk := chunkSize_toNat size
  rw [readBack]
  split
  · have hlt := arg.isLt
    rcases Nat.lt_or_ge (arg.toNat + i / 0x8000 * 0x8000) (2 ^ 32) with hnear | hfar
    · have hcell : readCell arg i = (arg.toNat + i) % arraySize := by
        rw [readCell, Nat.mod_eq_of_lt hnear]
        congr 1
        omega
      rw [hcell]
      exact mirror_at arg _ (by rw [arraySize_eq]; omega)
    · have hcell : readCell arg i = arg.toNat + i - 2 ^ 32 := by
        have hwrap : (arg.toNat + i / 0x8000 * 0x8000) % 2 ^ 32 =
            arg.toNat + i / 0x8000 * 0x8000 - 2 ^ 32 := by omega
        rw [readCell, hwrap, arraySize_eq]
        omega
      rw [hcell, mirror_zero (by omega) (by omega), bareImage_zero size (by omega) (by omega)]
  · exact (bareImage_zero size (by omega) (by omega)).symm

theorem not_faithful {arg size : Word} (hlo : 24 ≤ size.toNat) (hhi : size.toNat ≤ 0x20000)
    (hbeyond : arraySize < arg.toNat + size.toNat)
    (hr : ¬ rangeError at45db041Features arg (chunkSize size) = true) : ¬ Faithful arg size := by
  intro h
  have hfix : flashAfter arg size (bareImage size) (mirror arg (bareImage size)) = _ :=
    flashAfter_mirror hhi
  have hin := (h (fun _ => 0) (mirror arg (bareImage size)) (fun i hi => by
    change readBack arg size (flashAfter arg size (bareImage size) _) i = bareImage size i
    rw [hfix]
    exact readBack_mirror hlo hhi hr hi)).1
  omega

/-! ## The verification -/

/-- For an image of at least 24 bytes, a printed OK proves the update if and only if the request
fits the array or the wrapped sum of its first read chunk lies above it. -/
theorem verifies_iff {arg size : Word} (hlo : 24 ≤ size.toNat) (hhi : size.toNat ≤ 0x20000) :
    Verifies arg size ↔
      arg.toNat + size.toNat ≤ arraySize ∨ 540672 < (arg + chunkSize size).toInt := by
  rw [verifies_iff_faithful, ← rangeError_iff]
  constructor
  · intro h
    by_contra hno
    obtain ⟨hbeyond, hr⟩ := not_or.mp hno
    exact not_faithful hlo hhi (Nat.lt_of_not_le hbeyond) hr h
  · rintro (h | h)
    · exact faithful_of_inside h
    · exact faithful_of_refused hlo hhi h

/-- 64 KiB at the U-Boot section fit the array. -/
theorem verifies_iff_uboot : 24 ≤ (0x10000 : Word).toNat ∧ (0x10000 : Word).toNat ≤ 0x20000 ∧
    (Verifies 0x8000 0x10000 ↔ (0x8000 : Word).toNat + (0x10000 : Word).toNat ≤ arraySize ∨
      540672 < ((0x8000 : Word) + chunkSize 0x10000).toInt) :=
  ⟨by decide, by decide, verifies_iff (by decide) (by decide)⟩

/-- At address 0xFFFFFFF0 an image of 128 bytes verifies, and is not in the array. -/
theorem not_verifies_wrapped : ¬ ∀ arg size : Word, 24 ≤ size.toNat → size.toNat ≤ 0x20000 →
    Verifies arg size := by
  intro h
  have hv := (verifies_iff_faithful 0xFFFFFFF0 128).mp (h 0xFFFFFFF0 128 (by decide) (by decide))
  exact not_faithful (by decide) (by decide) (by decide) (by decide) hv

end Armboard.Bootloader
