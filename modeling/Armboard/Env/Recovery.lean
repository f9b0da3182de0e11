import Armboard.Env.Baudrate

/-! # Damaged images, and lookups before relocation

The check is the one that finds every burst: an image that differs from a valid one
within four bytes in a row is turned down. Until the environment is relocated `getenv_r`
fetches its characters from the DataFlash one by one, and copies out what it will copy out
of the relocated environment. The address that `getenv` returns for a valid image is an
offset in the DataFlash until then.
-/

namespace Armboard.Env
open DataFlash Exec Storage Uboot

/-- The image differs from the other in at most four data bytes in a row. -/
structure Burst (e e' : Image) (j n : ℕ) : Prop where
  crc : e.crc = e'.crc
  short : n ≤ 4
  inside : j + n ≤ envSize
  others : ∀ i < envSize, i < j ∨ j + n ≤ i → e.data i = e'.data i
  differs : ∃ i, j ≤ i ∧ i < j + n ∧ e.data i ≠ e'.data i

/-- The data in front of the damage, in it and behind it. -/
theorem cells_split (data : ℕ → Byte) {j n : ℕ} (h : j + n ≤ envSize) :
    cells data 0 envSize =
      cells data 0 j ++ cells data j n ++ cells data (j + n) (envSize - (j + n)) := by
  have hlen : envSize = j + n + (envSize - (j + n)) := by omega
  conv_lhs => rw [hlen]
  rw [cells_append, cells_append, Nat.zero_add, Nat.zero_add]

theorem Burst.invalid {e e' : Image} {j n : ℕ} (h : Burst e e' j n) (hv : e'.Valid) : ¬ e.Valid := by
  intro he
  have hinside := h.inside
  have hfront : cells e.data 0 j = cells e'.data 0 j :=
    cells_congr fun i hi => h.others _ (by omega) (Or.inl (by omega))
  have hback : cells e.data (j + n) (envSize - (j + n)) = cells e'.data (j + n) (envSize - (j + n)) :=
    cells_congr fun i hi => h.others _ (by omega) (Or.inr (by omega))
  have hne : cells e.data j n ≠ cells e'.data j n := by
    obtain ⟨i, hle, hlt, hi⟩ := h.differs
    intro hcells
    apply hi
    have hrow := row_iff.mp (row_cells e.data j n) (i - j) (by simp; omega)
    have hrow' := row_iff.mp (row_cells e'.data j n) (i - j) (by simp; omega)
    simp only [Nat.add_sub_cancel' hle] at hrow hrow'
    rw [hrow, hrow']
    simp only [hcells]
  rw [Image.Valid] at he hv
  rw [h.crc, hv, cells_split e.data hinside, cells_split e'.data hinside, hfront, hback] at he
  exact crc32_burst 0 (cells e'.data 0 j) (cells e'.data (j + n) (envSize - (j + n)))
    (by simp) (by simpa using h.short) hne he.symm

/-- A start that finds a valid image with one such burst, or with another check, falls back to the
default environment and leaves the DataFlash as it is. -/
theorem startEnv_damaged {k : Bank} (hp : Prompt timeoutWrdy k.board.chip) {e : Image} (hv : e.Valid)
    (hdamage : (∃ j n, Burst (storedImage k.board.chip.flash) e j n) ∨
      (storedImage k.board.chip.flash).crc ≠ e.crc ∧
        ∀ i < envSize, (storedImage k.board.chip.flash).data i = e.data i)
    (crcAt buf envPtr : Word) :
    ∃ e' t, startEnv crcAt buf envPtr k = .ok e' t ∧ e'.Same defaultImage ∧
      e'.Represents defaultStore ∧ t.board.chip.flash = k.board.chip.flash := by
  obtain ⟨e', t, hrun, -, -, hflash, hsame⟩ := wp_never.mp (startEnv_spec hp crcAt buf envPtr)
  have hinvalid : ¬ (storedImage k.board.chip.flash).Valid := by
    cases hdamage with
    | inl hburst =>
      obtain ⟨j, n, hburst⟩ := hburst
      exact hburst.invalid hv
    | inr hcrc =>
      intro hstored
      have hcells : cells (storedImage k.board.chip.flash).data 0 envSize = cells e.data 0 envSize :=
        cells_congr fun i hi => by
          rw [Nat.zero_add]
          exact hcrc.2 i hi
      rw [Image.Valid, hcells, ← hv] at hstored
      exact hcrc.1 hstored
  rw [if_neg hinvalid] at hsame
  exact ⟨e', t, hrun, hsame, hsame.represents defaultImage_represents, hflash⟩

/-- The default environment with its first character changed. -/
def scratchedImage : Image := ⟨defaultImage.crc, Function.update defaultImage.data 0 0x63⟩

theorem scratched_burst : Burst (storedImage scratchedImage.placed) defaultImage 0 1 where
  crc := (storedImage_placed scratchedImage).1
  short := by decide
  inside := by decide
  others i hi hout := by
    rw [(storedImage_placed scratchedImage).2 i hi]
    exact Function.update_of_ne (by omega) _ _
  differs := by
    refine ⟨0, le_rfl, by decide, ?_⟩
    rw [(storedImage_placed scratchedImage).2 0 (by decide)]
    exact show (0x63 : Byte) ≠ 0x62 by decide

theorem startEnv_damaged_first :
    ∃ e' t, startEnv 0x21000000 0x21000100 0x20F00000 (freshBank scratchedImage.placed fun _ => 0) =
      .ok e' t ∧ e'.Same defaultImage ∧ e'.Represents defaultStore ∧
        t.board.chip.flash = (freshBank scratchedImage.placed fun _ => 0).board.chip.flash :=
  startEnv_damaged (k := freshBank scratchedImage.placed fun _ => 0) (freshBank_working _ _).prompt
    (defaultImage_represents.checked rfl) (by
      rw [freshBank_flash]
      exact Or.inl ⟨0, 1, scratched_burst⟩) 0x21000000 0x21000100 0x20F00000

/-! ## Before relocation -/

theorem CopiesOut.unique {g g' : ℕ → Byte} {n : Name} {len : ℕ} {o : Option Text}
    (h : CopiesOut g n len o) (h' : CopiesOut g' n len o) :
    getenvR g n.chars len = getenvR g' n.chars len := by
  cases o with
  | none => exact Eq.trans h h'.symm
  | some val => exact Eq.trans h h'.symm

/-- Before relocation the characters come from the DataFlash one by one, or from the default
environment. However often one is fetched, it is that of one list of characters. The search finds
the stored variables in it, or the default ones, and `getenv_r` copies out of it exactly what it
copies out of the environment that is relocated later. -/
theorem early_getenvR {k : Bank} (hp : Prompt timeoutWrdy k.board.chip) {m : Store}
    (h : (storedImage k.board.chip.flash).Represents m) (crcAt buf : Word) :
    ∃ valid t g, envInit crcAt buf false k = .ok valid t ∧ Working t ∧
      (∀ u, Working u → u.board.chip.flash = t.board.chip.flash → ∀ c index, index < 0x8000 →
        ∃ v, envGetCharInit c valid index u = .ok (g index) v ∧ Working v ∧
          v.board.chip.flash = t.board.chip.flash) ∧
      (∀ n, Reads g n (lookup (if valid then m.vars else defaultVars) n)) ∧
      ∀ u, Working u → u.board.chip.flash = t.board.chip.flash → ∀ envPtr,
        ∃ e v, envRelocate envPtr valid u = .ok e v ∧ ∀ (n : Name) (len : ℕ),
          CopiesOut g n len (lookup (if valid then m.vars else defaultVars) n) ∧
            getenvR e.data n.chars len = getenvR g n.chars len := by
  obtain ⟨valid, t, hrun, hwork, -, hflash, hvalid⟩ := wp_never.mp (envInit_spec hp crcAt buf)
  have hholds : Holds (if valid then storedImage k.board.chip.flash else defaultImage).data
      (if valid then m.vars else defaultVars) := by
    cases valid with
    | true => exact h.holds
    | false => exact defaultImage_represents.holds
  refine ⟨valid, t, (if valid then storedImage k.board.chip.flash else defaultImage).data, hrun,
    hwork, ?_, fun n => hholds.reads n, ?_⟩
  · intro u hu hsame c index hindex
    obtain ⟨r, v, hget, hv, -, hkept, hr⟩ := wp_never.mp (envGetCharInit_spec hu c valid hindex)
    rw [hsame, hflash, ← apply_ite fun e : Image => e.data index] at hr
    rw [hr] at hget
    exact ⟨v, hget, hv, hkept.trans hsame⟩
  · intro u hu hsame envPtr
    obtain ⟨e, v, hget, -, -, -, he⟩ := wp_never.mp (envRelocate_spec hu envPtr valid)
    rw [hsame, hflash] at he
    refine ⟨e, v, hget, fun n len => ?_⟩
    have hearly := (hholds.reads n).copiesOut len
    have hlate := ((he.holds hholds).reads n).copiesOut len
    exact ⟨hearly, hlate.unique hearly⟩

/-- The rate that `init_baudrate` reads, and the same after relocation. -/
theorem early_getenvR_default : ∃ valid t g e v,
    envInit 0x21000000 0x21000100 false (freshBank defaultImage.placed fun _ => 0) = .ok valid t ∧
      envRelocate 0x20F00000 valid t = .ok e v ∧
      getenvR g (ascii "baudrate") 64 = .ok (some (7, ascii "115200" ++ [0])) ∧
      getenvR e.data (ascii "baudrate") 64 = .ok (some (7, ascii "115200" ++ [0])) := by
  have hrep : (storedImage (freshBank defaultImage.placed fun _ => 0).board.chip.flash).Represents
      defaultStore := by
    rw [freshBank_flash]
    exact (storedImage_placed _).represents defaultImage_represents
  obtain ⟨valid, t, g, hrun, hwork, -, -, hrelocate⟩ :=
    early_getenvR (k := freshBank defaultImage.placed fun _ => 0) (freshBank_working _ _).prompt hrep
      0x21000000 0x21000100
  obtain ⟨e, v, hget, hcopy⟩ := hrelocate t hwork rfl 0x20F00000
  obtain ⟨hearly, hlate⟩ := hcopy baudrateName 64
  have hvars : (if valid then defaultStore.vars else defaultVars) = defaultVars := ite_self _
  rw [hvars] at hearly
  have hg : getenvR g (ascii "baudrate") 64 = .ok (some (7, ascii "115200" ++ [0])) := hearly
  exact ⟨valid, t, g, e, v, hrun, hget, hg, hlate.trans hg⟩

end Armboard.Env
