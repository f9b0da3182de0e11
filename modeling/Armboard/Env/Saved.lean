import Armboard.Env.Runs
import Armboard.MemoryTest.StuckBits
import Armboard.Uboot.Access

/-! # The environment in the DataFlash

`saveenv` writes the check and the data from a copy, since a write to the DataFlash
destroys its source. At power-up `env_init` compares the stored check with that of the
stored data, 64 bytes at a time, and `env_relocate` loads the environment or falls back to
the default one. Buffers on the stack and the one from `malloc` are given by their
addresses. `env_init` takes the stored check from its variable as soon as it is read.
-/

namespace Armboard.Env
open DataFlash Exec Storage Uboot
open MemoryTest (lane wordOf wordOf_eq_iff)

abbrev envAddr : Word := 0xC0004000

/-- `env_t`. -/
structure Image where
  crc : Word
  data : ℕ → Byte

/-- The bytes of `env_t`: the check in front, its lowest byte first. -/
def Image.bytes (e : Image) (i : ℕ) : Byte := if i < 4 then lane e.crc i else e.data (i - 4)

/-- `env_t` in memory. -/
def imageAt (mem : Word → Byte) (p : Word) : Image where
  crc := wordOf (view mem p)
  data i := view mem p (4 + i)

/-- `default_environment`: `bootdelay=3` and `baudrate=115200`. -/
def defaultEnvironment : List Byte :=
  ascii "bootdelay=3" ++ 0 :: ascii "baudrate=115200" ++ [0, 0, 0]

/-! ## Saving -/

/-- `saveenv`, with the copy at `temp`. -/
def saveenv (temp : Word) (s : Globals) : Service Word := do
  modify fun k => { k with board := { k.board with
    mem := store k.board.mem temp cfgEnvSize (Image.mk s.crc s.data).bytes } }
  Uboot.writeDataflash envAddr temp 0x1000

/-! ## Loading -/

/-- The loop of `env_init` over the stored data. -/
def crcChunks (buf : Word) : ℕ → Word → ℕ → ℕ → Service Word
  | 0, _, _, _ => throw .hang
  | fuel + 1, new, len, off =>
    if len = 0 then pure new
    else do
      let n := if 64 < len then 64 else len
      let _ ← Uboot.readDataflash (envAddr + BitVec.ofNat 32 off) (BitVec.ofNat 32 n) buf
      let k ← get
      crcChunks buf fuel (crc32 new (cells (view k.board.mem buf) 0 n)) (len - n) (off + n)

/-- `env_init`: the new `env_valid`. -/
def envInit (crcAt buf : Word) (envValid : Bool) : Service Bool :=
  if envValid then pure true
  else do
    let _ ← Uboot.dataflashInit
    let _ ← Uboot.readDataflash envAddr 4 crcAt
    let k ← get
    let crc := wordOf (view k.board.mem crcAt)
    let new ← crcChunks buf (envSize + 1) 0 envSize 4
    pure (decide (crc = new))

def envGetCharSpec (c : Word) (index : ℕ) : Service Byte := do
  let _ ← Uboot.readDataflash (envAddr + BitVec.ofNat 32 index + 4) 1 c
  let k ← get
  pure (view k.board.mem c 0)

def envGetCharInit (c : Word) (envValid : Bool) (index : ℕ) : Service Byte :=
  if envValid then envGetCharSpec c index else pure (defaultEnvironment.getD index 0)

/-- The environment that `env_relocate` puts together when there is none. -/
def defaultImage : Image :=
  let data : ℕ → Byte := fun i => defaultEnvironment.getD i 0
  ⟨crc32 0 (cells data 0 envSize), data⟩

/-- `env_relocate`, with the buffer at `env_ptr`: `env_valid` is 1 afterwards. -/
def envRelocate (envPtr : Word) (envValid : Bool) : Service Image :=
  if envValid then do
    let _ ← Uboot.readDataflash envAddr 0x1000 envPtr
    let k ← get
    pure (imageAt k.board.mem envPtr)
  else pure defaultImage

/-- What `start_armboot` does for the environment. -/
def startEnv (crcAt buf envPtr : Word) : Service Image := do
  let envValid ← envInit crcAt buf false
  let _ ← Uboot.dataflashInit
  envRelocate envPtr envValid

/-! ## What the flash holds -/

def storedImage (flash : ℕ → Byte) : Image where
  crc := wordOf fun i => flash (0x4000 + i)
  data i := flash (0x4004 + i)

/-- The images agree where there is environment. -/
def Image.Same (e e' : Image) : Prop := e.crc = e'.crc ∧ ∀ i < envSize, e.data i = e'.data i

def Image.Valid (e : Image) : Prop := e.crc = crc32 0 (cells e.data 0 envSize)

instance (e : Image) : Decidable e.Valid := inferInstanceAs (Decidable (_ = _))

theorem Image.Same.valid {e e' : Image} (h : e.Same e') : e.Valid ↔ e'.Valid := by
  have hcells : cells e.data 0 envSize = cells e'.data 0 envSize :=
    cells_congr fun k hk => by
      rw [Nat.zero_add]
      exact h.2 k hk
  rw [Image.Valid, Image.Valid, h.1, hcells]

theorem Image.bytes_crc (e : Image) : wordOf e.bytes = e.crc := by
  rw [wordOf_eq_iff]
  intro i hi
  exact if_pos hi

theorem Image.bytes_data (e : Image) (i : ℕ) : e.bytes (4 + i) = e.data i := by
  rw [Image.bytes, if_neg (by omega), Nat.add_sub_cancel_left]

theorem inBank_env {off n : ℕ} (h : off + n ≤ 0x10000) :
    InBank (envAddr + BitVec.ofNat 32 off) (BitVec.ofNat 32 n) ∧
      offset (envAddr + BitVec.ofNat 32 off) = 0x4000 + off ∧ (BitVec.ofNat 32 n).toNat = n := by
  have haddr : (envAddr + BitVec.ofNat 32 off).toNat = 0xC0004000 + off := by
    rw [BitVec.toNat_add, BitVec.toNat_ofNat, show envAddr.toNat = 0xC0004000 from rfl]
    omega
  have hn : (BitVec.ofNat 32 n).toNat = n := by
    rw [BitVec.toNat_ofNat]
    omega
  have hoff : offset (envAddr + BitVec.ofNat 32 off) = 0x4000 + off := by
    rw [offset, haddr]
    omega
  refine ⟨⟨?_, ?_⟩, hoff, hn⟩
  · rw [haddr]
    omega
  · rw [hoff, hn, arraySize_eq]
    omega

variable {k : Bank}

/-- A read of the environment area, by the place in `env_t`. -/
theorem readEnv_spec (hk : Working k) {off n : ℕ} (h : off + n ≤ 0x10000) (result : Word) :
    wp (Uboot.readDataflash (envAddr + BitVec.ofNat 32 off) (BitVec.ofNat 32 n) result)
      (fun _ t => Working t ∧ t.areas = k.areas ∧ t.board.chip.flash = k.board.chip.flash ∧
        ∀ i < n, view t.board.mem result i = k.board.chip.flash (0x4000 + off + i)) never k := by
  obtain ⟨hin, hoff, hn⟩ := inBank_env h
  refine wp_post (readDataflash_spec hk hin result) fun _ t ht => ?_
  rw [hoff, hn] at ht
  exact ht.2

/-! ## Each function -/

/-- Saving puts the image into its area, unless the area is protected, and touches nothing else. -/
theorem saveenv_spec (hk : Working k) (temp : Word) (s : Globals) :
    wp (saveenv temp s) (fun r t => Working t ∧ t.areas = k.areas ∧
      (r = if protDataflash k.areas envAddr = 0 then errProtected else dataflashOk) ∧
      (∀ x, x < 0x4000 ∨ 0x5000 ≤ x → t.board.chip.flash x = k.board.chip.flash x) ∧
      (if protDataflash k.areas envAddr = 0 then t.board.chip.flash = k.board.chip.flash
        else (storedImage t.board.chip.flash).Same ⟨s.crc, s.data⟩)) never k := by
  have hin : InBank envAddr 0x1000 := by decide
  have hoff : offset envAddr = 0x4000 := by decide
  have hlen : (0x1000 : Word).toNat = 0x1000 := rfl
  have hcopy : Working { k with board := { k.board with
      mem := store k.board.mem temp cfgEnvSize (Image.mk s.crc s.data).bytes } } :=
    ⟨⟨⟨hk.initialised.board.device, hk.initialised.board.idle⟩, hk.initialised.id,
      hk.initialised.logicalAddress⟩, hk.prompt⟩
  rw [saveenv, wp_bind, wp_modify]
  refine wp_post (writeDataflash_inBank hcopy hin temp) fun r t ht => ?_
  obtain ⟨hwork, hareas, hr, hflash⟩ := ht
  rw [hoff, hlen] at hflash
  refine ⟨hwork, hareas, hr, fun x hx => ?_, ?_⟩
  · rw [hflash x, if_neg (by omega)]
  · split_ifs with hprot
    · funext x
      rw [hflash x, if_neg (fun h => h.1 hprot)]
    · have hcell : ∀ j < 0x1000, t.board.chip.flash (0x4000 + j) = (Image.mk s.crc s.data).bytes j := by
        intro j hj
        rw [hflash, if_pos ⟨hprot, by omega, by omega⟩, Nat.add_sub_cancel_left]
        exact view_store_lt _ _ _ hj (by omega)
      have hcrc : wordOf (fun i => t.board.chip.flash (0x4000 + i)) =
          wordOf (Image.mk s.crc s.data).bytes := by
        rw [wordOf_eq_iff]
        intro i hi
        rw [hcell i (by omega), ← (wordOf_eq_iff _ _).mp rfl i hi]
      refine ⟨hcrc.trans (Image.bytes_crc _), fun i hi => ?_⟩
      have hi' : i < 0xffc := hi
      have hdata := hcell (4 + i) (by omega)
      have hplace : 0x4000 + (4 + i) = 0x4004 + i := by omega
      rw [Image.bytes_data, hplace] at hdata
      exact hdata

theorem crcChunks_spec (buf : Word) (fuel : ℕ) : ∀ (k : Bank) (new : Word) (len off : ℕ), Working k →
    off + len ≤ 0x1000 → len < fuel → wp (crcChunks buf fuel new len off) (fun r t =>
      Working t ∧ t.areas = k.areas ∧ t.board.chip.flash = k.board.chip.flash ∧
      r = crc32 new (cells k.board.chip.flash (0x4000 + off) len)) never k := by
  induction fuel with
  | zero => exact fun _ _ _ _ _ _ h => absurd h (Nat.not_lt_zero _)
  | succ fuel ih =>
    intro k new len off hk hin hfuel
    rw [crcChunks, wp_ite]
    by_cases h0 : len = 0
    · rw [if_pos h0, h0]
      exact ⟨hk, rfl, rfl, (crc32_nil new).symm⟩
    · rw [if_neg h0]
      have hchunk : ∃ n, (if 64 < len then 64 else len) = n ∧ 0 < n ∧ n ≤ len := by
        split_ifs with h64
        · exact ⟨64, rfl, by decide, by omega⟩
        · exact ⟨len, rfl, by omega, Nat.le_refl _⟩
      obtain ⟨n, hn, hpos, hle⟩ := hchunk
      simp only [hn]
      rw [wp_bind]
      refine wp_post (readEnv_spec hk (by omega) buf) fun _ t ht => ?_
      obtain ⟨hwork, hareas, hflash, hbytes⟩ := ht
      have hcells : cells (view t.board.mem buf) 0 n =
          cells k.board.chip.flash (0x4000 + off) n :=
        cells_congr fun j hj => by
          rw [Nat.zero_add]
          exact hbytes j hj
      rw [wp_bind, wp_get, hcells]
      refine wp_post (ih t _ (len - n) (off + n) hwork (by omega) (by omega)) fun r u hu => ?_
      obtain ⟨hwork', hareas', hflash', hr⟩ := hu
      refine ⟨hwork', hareas'.trans hareas, hflash'.trans hflash, ?_⟩
      have hsplit : len = n + (len - n) := by omega
      rw [hr, hflash, ← crc32_append, hsplit, cells_append, Nat.add_sub_cancel_left, Nat.add_assoc]

theorem envInit_spec (hp : Prompt timeoutWrdy k.board.chip) (crcAt buf : Word) :
    wp (envInit crcAt buf false) (fun r t => Working t ∧ t.areas = layout .set .clear .set ∧
      t.board.chip.flash = k.board.chip.flash ∧
      r = decide (storedImage k.board.chip.flash).Valid) never k := by
  rw [envInit, if_neg (by decide), wp_bind]
  refine wp_post (dataflashInit_working hp) fun _ t ht => ?_
  obtain ⟨hwork, hareas, hflash⟩ := ht
  have haddr : envAddr = envAddr + BitVec.ofNat 32 0 := by decide
  have hfour : (4 : Word) = BitVec.ofNat 32 4 := rfl
  rw [wp_bind, haddr, hfour]
  refine wp_post (readEnv_spec hwork (by decide) crcAt) fun _ u hu => ?_
  obtain ⟨hwork₁, hareas₁, hflash₁, hbytes⟩ := hu
  rw [wp_bind, wp_get, wp_bind]
  refine wp_post (crcChunks_spec buf (envSize + 1) u 0 envSize 4 hwork₁ (by decide) (by decide))
    fun new v hv => ?_
  obtain ⟨hwork₂, hareas₂, hflash₂, hnew⟩ := hv
  have hcrc : wordOf (view u.board.mem crcAt) = (storedImage k.board.chip.flash).crc := by
    rw [wordOf_eq_iff]
    intro i hi
    rw [hbytes i hi, hflash]
    exact (wordOf_eq_iff (fun i => k.board.chip.flash (0x4000 + i)) _).mp rfl i hi
  have hcells : cells k.board.chip.flash (0x4000 + 4) envSize =
      cells (storedImage k.board.chip.flash).data 0 envSize :=
    cells_congr fun j hj => by
      rw [Nat.zero_add]
      rfl
  rw [wp_pure, hcrc, hnew, hflash₁, hflash, hcells]
  exact ⟨hwork₂, (hareas₂.trans hareas₁).trans hareas, (hflash₂.trans hflash₁).trans hflash, rfl⟩

theorem envGetCharInit_spec (hk : Working k) (c : Word) (envValid : Bool) {index : ℕ}
    (h : index < 0x8000) :
    wp (envGetCharInit c envValid index) (fun r t => Working t ∧ t.areas = k.areas ∧
      t.board.chip.flash = k.board.chip.flash ∧
      r = if envValid then (storedImage k.board.chip.flash).data index
        else defaultImage.data index) never k := by
  cases envValid with
  | false => exact ⟨hk, rfl, rfl, rfl⟩
  | true =>
    have haddr : envAddr + BitVec.ofNat 32 index + 4 = envAddr + BitVec.ofNat 32 (index + 4) := by
      rw [BitVec.ofNat_add, BitVec.add_assoc]
      rfl
    have hone : (1 : Word) = BitVec.ofNat 32 1 := rfl
    rw [envGetCharInit, if_pos rfl, envGetCharSpec, haddr, hone, wp_bind]
    refine wp_post (readEnv_spec hk (by omega) c) fun _ t ht => ?_
    obtain ⟨hwork, hareas, hflash, hbytes⟩ := ht
    have hbyte := hbytes 0 (by decide)
    have hplace : 0x4000 + (index + 4) + 0 = 0x4004 + index := by omega
    rw [hplace] at hbyte
    rw [wp_bind, wp_get, wp_pure, if_pos rfl]
    exact ⟨hwork, hareas, hflash, hbyte⟩

theorem envRelocate_spec (hk : Working k) (envPtr : Word) (envValid : Bool) :
    wp (envRelocate envPtr envValid) (fun e t => Working t ∧ t.areas = k.areas ∧
      t.board.chip.flash = k.board.chip.flash ∧
      e.Same (if envValid then storedImage k.board.chip.flash else defaultImage)) never k := by
  cases envValid with
  | false => exact ⟨hk, rfl, rfl, rfl, fun _ _ => rfl⟩
  | true =>
    have haddr : envAddr = envAddr + BitVec.ofNat 32 0 := by decide
    have hlen : (0x1000 : Word) = BitVec.ofNat 32 0x1000 := rfl
    rw [envRelocate, if_pos rfl, wp_bind, haddr, hlen]
    refine wp_post (readEnv_spec hk (by decide) envPtr) fun _ t ht => ?_
    obtain ⟨hwork, hareas, hflash, hbytes⟩ := ht
    rw [wp_bind, wp_get, wp_pure, if_pos rfl]
    refine ⟨hwork, hareas, hflash, ?_, fun i hi => ?_⟩
    · change wordOf (view t.board.mem envPtr) = wordOf fun i => k.board.chip.flash (0x4000 + i)
      rw [wordOf_eq_iff]
      intro i hi
      rw [hbytes i (by omega)]
      exact (wordOf_eq_iff (fun i => k.board.chip.flash (0x4000 + i)) _).mp rfl i hi
    · have hi' : i < 0xffc := hi
      have hplace : 0x4000 + 0 + (4 + i) = 0x4004 + i := by omega
      have hbyte := hbytes (4 + i) (by omega)
      rw [hplace] at hbyte
      exact hbyte

/-- What a start finds: the image in the flash if that is valid, and else the default one. -/
theorem startEnv_spec (hp : Prompt timeoutWrdy k.board.chip) (crcAt buf envPtr : Word) :
    wp (startEnv crcAt buf envPtr) (fun e t => Working t ∧ t.areas = layout .set .clear .set ∧
      t.board.chip.flash = k.board.chip.flash ∧
      e.Same (if (storedImage k.board.chip.flash).Valid then storedImage k.board.chip.flash
        else defaultImage)) never k := by
  rw [startEnv, wp_bind]
  refine wp_post (envInit_spec hp crcAt buf) fun valid t ht => ?_
  obtain ⟨hwork, hareas, hflash, rfl⟩ := ht
  rw [wp_bind]
  refine wp_post (dataflashInit_working hwork.prompt) fun _ u hu => ?_
  obtain ⟨hwork₁, hareas₁, hflash₁⟩ := hu
  refine wp_post (envRelocate_spec hwork₁ envPtr _) fun e v hv => ?_
  obtain ⟨hwork₂, hareas₂, hflash₂, hsame⟩ := hv
  have hall : u.board.chip.flash = k.board.chip.flash := hflash₁.trans hflash
  simp only [hall, decide_eq_true_eq] at hsame
  exact ⟨hwork₂, hareas₂.trans hareas₁, hflash₂.trans hall, hsame⟩

end Armboard.Env
