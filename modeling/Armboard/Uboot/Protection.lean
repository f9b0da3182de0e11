import Armboard.Bits.Masks
import Armboard.Uboot.Dataflash
import Armboard.DataFlash.Write

/-! # Write protection of the boot areas

Protecting and unprotecting changes flags only, so the three areas of the board
keep their places in every run. `write_dataflash` inspects the area of the first
address, and not the last byte of an area; what it writes is the whole request.
-/

namespace Armboard.Uboot
open Exec DataFlash Storage

/-! ## The bank -/

/-- A bank that `AT91F_DataflashInit` has set up for the AT45DB041. -/
structure Initialised (k : Bank) : Prop where
  board : Installed k.board
  id : k.board.id ≠ 0
  logicalAddress : k.logicalAddress = logicAddr

def layout (p q r : Protection) : List Area :=
  [⟨0xC0000000, 0xC0003FFF, p⟩, ⟨0xC0004000, 0xC0007FFF, q⟩, ⟨0xC0008000, 0xC0083FFF, r⟩]

theorem placeAreas_at45db041 (endAddress : Word) :
    placeAreas at45db041Features logicAddr endAddress = layout .set .clear .set := by
  simp [placeAreas, areaList, Area.place, layout, at45db041Features, List.modify, logicAddr]

theorem dataflashInit_initialised {k : Bank} (h : Recognised k.board.chip.status) :
    wp dataflashInit (fun _ t => Initialised t ∧ t.areas = layout .set .clear .set ∧
      t.board.chip.flash = k.board.chip.flash) never k := by
  simp only [dataflashInit, dataflashProbe, onBank, wp_bind, wp_modify, wp_onPart, wp_get, wp_pure]
  apply wp_post (dataFlashGetStatus_spec _ rfl)
  rintro _ t ⟨hk, -, hc, -, -⟩
  rw [hc, (probe_code _).mpr h]
  simp only [deviceFeatures, if_true, wp_bind, wp_modify, wp_pure]
  exact ⟨⟨⟨rfl, hk.idle⟩, show (0x1C : Word) ≠ 0 by decide, rfl⟩, placeAreas_at45db041 _, hk.flash⟩

/-! ## Waiting -/

theorem pollTimeout_spec (n : ℕ) : ∀ b, b.desc.state = idle →
    wp (pollTimeout n) (fun _ t => Kept b t) never b := by
  induction n with
  | zero => exact fun b hb => ⟨rfl, rfl, rfl, rfl, rfl, rfl, hb⟩
  | succ n ih =>
    intro b hb
    simp only [pollTimeout, wp_bind, wp_get]
    apply wp_post (dataFlashGetStatus_spec b hb)
    rintro _ t ⟨hk, -⟩
    split
    · exact hk
    · exact wp_post (ih t hk.idle) (fun _ _ h => hk.trans h)

theorem dataFlashWaitReady_waits (timeout : ℕ) : Waits (dataFlashWaitReady timeout) := by
  intro b hb
  simp only [dataFlashWaitReady, wp_bind, wp_modify, wp_get, wp_pure]
  exact wp_post (pollTimeout_spec timeout _ hb)
    (fun _ _ h => ⟨h.flash, h.buffer, h.log, h.mem, h.device, h.id, h.idle⟩)

/-! ## What a request is checked for -/

def offset (dest : Word) : ℕ := dest.toNat % 2 ^ 24

/-- The address is one of the bank and the request fits the array. -/
def InBank (dest size : Word) : Prop :=
  dest.toNat / 2 ^ 24 = 0xC0 ∧ offset dest + size.toNat ≤ arraySize

theorem topByte_toNat (dest : Word) :
    (dest &&& 0xFF000000).toNat = dest.toNat / 2 ^ 24 * 2 ^ 24 := by
  have hmask : ∀ i < 32, (0xFF000000 : Word).getLsbD i = decide (24 ≤ i) := by decide
  exact Bits.toNat_and_high dest hmask

/-- `AT91F_DataflashSelect` accepts the addresses with the bank's top byte. -/
theorem dataflashSelect_eq {k : Bank} (hk : Initialised k) (dest : Word) :
    dataflashSelect k dest =
      if dest.toNat / 2 ^ 24 = 0xC0 then some (dest - logicAddr) else none := by
  have htop : dest &&& 0xFF000000 = logicAddr ↔ dest.toNat / 2 ^ 24 = 0xC0 := by
    rw [← BitVec.toNat_inj, topByte_toNat, show logicAddr.toNat = 0xC0 * 2 ^ 24 from rfl]
    omega
  simp only [dataflashSelect, hk.logicalAddress, htop, ne_eq, hk.id, not_false_eq_true, true_and]

theorem sub_logicAddr_toNat {dest : Word} (h : dest.toNat / 2 ^ 24 = 0xC0) :
    (dest - logicAddr).toNat = offset dest := by
  have hl : logicAddr.toNat = 0xC0 * 2 ^ 24 := rfl
  rw [BitVec.toNat_sub, hl, offset]
  omega

/-- Inside the bank `size_dataflash` lets exactly the requests through that fit the array. -/
theorem sizeDataflash_eq_zero {dest size : Word} (h : dest.toNat / 2 ^ 24 = 0xC0) :
    sizeDataflash at45db041Features dest size = 0 ↔ arraySize < offset dest + size.toNat := by
  have hp : at45db041Features.pagesSize * at45db041Features.pagesNumber = 540672 := by decide
  have hlow : (dest &&& 0x0FFFFFFF).toNat = offset dest := by
    rw [BitVec.toNat_and, show (0x0FFFFFFF : Word).toNat = 2 ^ 28 - 1 from rfl,
      Nat.and_two_pow_sub_one_eq_mod, offset]
    omega
  have hoff : offset dest < 2 ^ 24 := Nat.mod_lt _ (by decide)
  have h1 : (540672 : Word).slt (dest &&& 0x0FFFFFFF) = true ↔ 540672 < offset dest := by
    rw [BitVec.slt, decide_eq_true_iff, BitVec.toInt_eq_toNat_cond, BitVec.toInt_eq_toNat_cond,
      hlow, show (540672 : Word).toNat = 540672 from rfl]
    rw [if_pos (by omega), if_pos (by omega)]
    omega
  have hsize := size.isLt
  rw [sizeDataflash, hp, arraySize_eq]
  by_cases hbig : 540672 < offset dest
  · rw [if_pos (h1.mpr hbig)]
    exact ⟨fun _ => by omega, fun _ => rfl⟩
  · have h2 : 540672 - (dest &&& 0x0FFFFFFF) < size ↔ 540672 - offset dest < size.toNat := by
      rw [BitVec.lt_def, BitVec.toNat_sub, hlow, show (540672 : Word).toNat = 540672 from rfl]
      omega
    rw [if_neg (fun hn => hbig (h1.mp hn))]
    by_cases hfit : 540672 - offset dest < size.toNat
    · rw [if_pos (h2.mpr hfit)]
      exact ⟨fun _ => by omega, fun _ => rfl⟩
    · rw [if_neg (fun hn => hfit (h2.mp hn))]
      exact ⟨fun hn => absurd hn (by decide), fun hn => by omega⟩

/-! ## Protecting areas -/

structure ProtectCall where
  flag : Word
  startAddr : Word
  endAddr : Word

def ProtectCall.apply (c : ProtectCall) (areas : List Area) : List Area :=
  match protectRange logicAddr areas c.startAddr c.endAddr with
  | none => areas
  | some (area1, area2) => setProtection c.flag area1 area2 areas

def protectAll : List ProtectCall → Service Unit
  | [] => pure ()
  | c :: cs => do
    let _ ← dataflashRealProtect c.flag c.startAddr c.endAddr
    protectAll cs

/-- The areas of a bank after the calls, from the areas of the board. -/
def areasAfter (calls : List ProtectCall) : List Area :=
  calls.foldl (fun areas c => c.apply areas) (layout .set .clear .set)

theorem dataflashRealProtect_spec {k : Bank} (hk : Initialised k) (c : ProtectCall) :
    wp (dataflashRealProtect c.flag c.startAddr c.endAddr)
      (fun _ t => t = { k with areas := c.apply k.areas }) never k := by
  obtain ⟨board, logical, endAddress, areas⟩ := k
  obtain rfl : logical = logicAddr := hk.logicalAddress
  cases hrange : protectRange logicAddr areas c.startAddr c.endAddr with
  | none => simp only [dataflashRealProtect, ProtectCall.apply, wp_bind, wp_get, hrange, wp_pure]
  | some r =>
    simp only [dataflashRealProtect, ProtectCall.apply, wp_bind, wp_get, hrange, wp_modify, wp_pure]

theorem protectAll_spec (calls : List ProtectCall) : ∀ k : Bank, Initialised k →
    wp (protectAll calls) (fun _ t =>
      t = { k with areas := calls.foldl (fun areas c => c.apply areas) k.areas }) never k := by
  induction calls with
  | nil => exact fun k _ => rfl
  | cons c cs ih =>
    intro k hk
    rw [protectAll, wp_bind]
    apply wp_post (dataflashRealProtect_spec hk c)
    rintro _ t rfl
    exact ih _ ⟨hk.board, hk.id, hk.logicalAddress⟩

/-- The areas lie where the board puts them, and none of them is invalid. -/
def Laid (areas : List Area) : Prop :=
  ∃ p q r, areas = layout p q r ∧ ∀ a ∈ areas, a.protection ≠ .invalid

/-- Protecting changes flags, and only to valid ones. -/
theorem ProtectCall.apply_laid (c : ProtectCall) {areas : List Area} (h : Laid areas) :
    Laid (c.apply areas) := by
  obtain ⟨p, q, r, rfl, hvalid⟩ := h
  unfold ProtectCall.apply
  split
  · exact ⟨p, q, r, rfl, hvalid⟩
  · rename_i area1 area2 _
    have hflag : ∀ (j : ℕ) (a : Area), a.protection ≠ .invalid →
        ∃ v, v ≠ .invalid ∧ (if area1 ≤ j ∧ j < area2 + 1 ∧ a.protection ≠ .invalid then
          { a with protection := if c.flag = 0 then .clear else .set } else a) =
            { a with protection := v } := by
      intro j a ha
      split
      · exact ⟨_, by split <;> decide, rfl⟩
      · exact ⟨_, ha, rfl⟩
    simp only [layout, List.forall_mem_cons] at hvalid
    obtain ⟨p', hp, ep⟩ := hflag 0 ⟨0xC0000000, 0xC0003FFF, p⟩ hvalid.1
    obtain ⟨q', hq, eq⟩ := hflag 1 ⟨0xC0004000, 0xC0007FFF, q⟩ hvalid.2.1
    obtain ⟨r', hr, er⟩ := hflag 2 ⟨0xC0008000, 0xC0083FFF, r⟩ hvalid.2.2.1
    have hset : setProtection c.flag area1 area2 (layout p q r) = layout p' q' r' := by
      simp only [setProtection, layout, List.mapIdx_cons, List.mapIdx_nil, Nat.zero_add, ep, eq, er]
    refine ⟨p', q', r', hset, ?_⟩
    rw [hset]
    simp only [layout, List.forall_mem_cons]
    exact ⟨hp, hq, hr, fun _ h => absurd h (List.not_mem_nil)⟩

theorem areasAfter_laid (calls : List ProtectCall) : Laid (areasAfter calls) := by
  have hstep : ∀ (cs : List ProtectCall) (areas : List Area), Laid areas →
      Laid (cs.foldl (fun areas c => c.apply areas) areas) := by
    intro cs
    induction cs with
    | nil => exact fun _ h => h
    | cons c cs ih => exact fun areas h => ih _ (c.apply_laid h)
  exact hstep calls _ ⟨_, _, _, rfl, by decide⟩

theorem Laid.unique {areas : List Area} (h : Laid areas) (addr : Word) : ∀ a ∈ areas, ∀ b ∈ areas,
    a.covers addr = true → b.covers addr = true → a = b := by
  obtain ⟨p, q, r, rfl, -⟩ := h
  have h0 : (0xC0004000 : Word).toNat = 0xC0004000 := rfl
  have h1 : (0xC0003FFF : Word).toNat = 0xC0003FFF := rfl
  have h2 : (0xC0007FFF : Word).toNat = 0xC0007FFF := rfl
  have h3 : (0xC0008000 : Word).toNat = 0xC0008000 := rfl
  intro a ha b hb
  simp only [layout, List.mem_cons, List.not_mem_nil, or_false] at ha hb
  rcases ha with rfl | rfl | rfl <;> rcases hb with rfl | rfl | rfl <;>
    simp only [Area.covers, Bool.and_eq_true, decide_eq_true_eq, BitVec.le_def, BitVec.lt_def] <;>
    first | exact fun _ _ => trivial | exact fun hx hy => by omega

/-- An address is refused when it lies in a protected area, before the area's last byte. -/
theorem protDataflash_eq_zero {areas : List Area} (h : Laid areas) (addr : Word) :
    protDataflash areas addr = 0 ↔ ∃ a ∈ areas, a.protection = .set ∧ a.covers addr = true := by
  have hunique := h.unique addr
  obtain ⟨-, -, -, -, hvalid⟩ := h
  unfold protDataflash
  constructor
  · intro h0
    split at h0
    · exact absurd h0 (by decide)
    · rename_i a hfind
      have ha := List.mem_of_find?_eq_some hfind
      have hc : a.covers addr = true := by simpa using List.find?_some hfind
      refine ⟨a, ha, ?_, hc⟩
      cases hp : a.protection with
      | set => rfl
      | clear =>
        rw [hp] at h0
        exact absurd h0 (by decide)
      | invalid => exact absurd hp (hvalid a ha)
  · rintro ⟨a, ha, hset, hc⟩
    cases hfind : areas.find? (fun a => a.covers addr) with
    | none => exact absurd hc (List.find?_eq_none.mp hfind a ha)
    | some b =>
      have hb : b.covers addr = true := by simpa using List.find?_some hfind
      rw [hunique b (List.mem_of_find?_eq_some hfind) a ha hb hc]
      simp only [hset]

/-! ## Writing -/

/-- A byte of the flash lies in a protected area, whose end is its last byte. -/
def Protected (areas : List Area) (x : ℕ) : Prop :=
  ∃ a ∈ areas, a.protection = .set ∧
    a.start.toNat ≤ logicAddr.toNat + x ∧ logicAddr.toNat + x ≤ a.stop.toNat

def Admitted (areas : List Area) (dest size : Word) : Prop :=
  InBank dest size ∧ protDataflash areas dest ≠ 0

instance (dest size : Word) : Decidable (InBank dest size) := inferInstanceAs (Decidable (_ ∧ _))

instance (areas : List Area) (dest size : Word) : Decidable (Admitted areas dest size) :=
  inferInstanceAs (Decidable (_ ∧ _))

theorem writeDataflash_spec {k : Bank} (hk : Initialised k) (dest src size : Word) :
    wp (writeDataflash dest src size) (fun _ t => ∀ x, t.board.chip.flash x =
      if Admitted k.areas dest size ∧ offset dest ≤ x ∧ x < offset dest + size.toNat then
        view k.board.mem src (x - offset dest)
      else k.board.chip.flash x) never k := by
  have hrefuse : ¬ Admitted k.areas dest size → ∀ x, k.board.chip.flash x =
      if Admitted k.areas dest size ∧ offset dest ≤ x ∧ x < offset dest + size.toNat then
        view k.board.mem src (x - offset dest)
      else k.board.chip.flash x := fun hn x => by rw [if_neg (fun h => hn h.1)]
  simp only [writeDataflash, wp_bind, wp_get, dataflashSelect_eq hk]
  by_cases htop : dest.toNat / 2 ^ 24 = 0xC0
  · rw [if_pos htop]
    simp only [hk.board.device, wp_ite, sizeDataflash_eq_zero htop]
    split
    · rename_i hbig
      exact hrefuse (fun h => by have := h.1.2; omega)
    rename_i hfit
    split
    · rename_i hprot
      exact hrefuse (fun h => h.2 hprot)
    rename_i hprot
    have hoff := sub_logicAddr_toNat htop
    have hin : (dest - logicAddr).toNat + size.toNat ≤ arraySize := by omega
    split
    · rename_i hm1
      rw [hm1, arraySize_eq] at hin
      exact absurd hin (by rw [show (-1 : Word).toNat = 2 ^ 32 - 1 from rfl]; omega)
    · rw [onBank, wp_onPart]
      apply wp_post (dataFlashWrite_spec (dataFlashWaitReady_waits _) hk.board src
        (rangeError_eq_false hin))
      rintro _ t ⟨-, hw⟩ x
      have hadm : Admitted k.areas dest size := ⟨⟨htop, by omega⟩, hprot⟩
      simp only [hw.flash, patch_writePlan hin, hoff, hadm, true_and]
  · rw [if_neg htop]
    exact hrefuse (fun h => htop h.1.1)

/-! ## When the protected areas are safe -/

/-- After the calls, no write of `size` bytes to `dest` changes a protected byte. -/
def KeepsProtected (calls : List ProtectCall) (dest size : Word) : Prop :=
  ∀ k t : Bank, Initialised k → k.areas = layout .set .clear .set → protectAll calls k = .ok () t →
    ∀ src x, Protected t.areas x →
      (final (writeDataflash dest src size t)).board.chip.flash x = t.board.chip.flash x

def freshBank (flash : ℕ → Byte) (mem : Word → Byte) : Bank where
  board := freshBoard flash mem
  logicalAddress := logicAddr
  endAddress := 0
  areas := layout .set .clear .set

theorem freshBank_initialised (flash : ℕ → Byte) (mem : Word → Byte) :
    Initialised (freshBank flash mem) :=
  ⟨freshBoard_installed flash mem, show at45db041 ≠ 0 by decide, rfl⟩

theorem keepsProtected_of_disjoint {calls : List ProtectCall} {dest size : Word}
    (h : Admitted (areasAfter calls) dest size →
      ∀ i < size.toNat, ¬ Protected (areasAfter calls) (offset dest + i)) :
    KeepsProtected calls dest size := by
  intro k t hk hareas hrun src x hx
  obtain rfl := wp_of_ok (protectAll_spec calls k hk) hrun
  have hafter : calls.foldl (fun areas c => c.apply areas) k.areas = areasAfter calls := by
    rw [hareas, areasAfter]
  simp only [hafter] at hx ⊢
  obtain ⟨_, u, hw, hu⟩ := wp_never.mp (writeDataflash_spec
    (k := { k with areas := areasAfter calls }) ⟨hk.board, hk.id, hk.logicalAddress⟩ dest src size)
  rw [hw]
  refine (hu x).trans (if_neg ?_)
  rintro ⟨hadm, hle, hlt⟩
  have hno := h hadm (x - offset dest) (by omega)
  rw [Nat.add_sub_of_le hle] at hno
  exact hno hx

/-- A zeroed flash is changed by a source without zeros. -/
theorem not_keepsProtected (calls : List ProtectCall) (dest size : Word) {i : ℕ}
    (h : Admitted (areasAfter calls) dest size) (hi : i < size.toNat)
    (hp : Protected (areasAfter calls) (offset dest + i)) : ¬ KeepsProtected calls dest size := by
  intro hkeeps
  have hk := freshBank_initialised (fun _ => 0) (fun _ => 0xFF)
  obtain ⟨_, t, hrun, rfl⟩ := wp_never.mp (protectAll_spec calls _ hk)
  have hsame := hkeeps _ _ hk rfl hrun 0 _ hp
  obtain ⟨_, u, hw, hu⟩ := wp_never.mp (writeDataflash_spec
    (k := { freshBank (fun _ => 0) (fun _ => 0xFF) with areas := areasAfter calls })
    ⟨hk.board, hk.id, hk.logicalAddress⟩ dest 0 size)
  have hx := hu (offset dest + i)
  rw [if_pos ⟨h, by omega, by omega⟩] at hx
  change (final (writeDataflash dest 0 size
    { freshBank (fun _ => 0) (fun _ => 0xFF) with areas := areasAfter calls })).board.chip.flash _ =
      (0 : Byte) at hsame
  rw [hw] at hsame
  exact absurd (hx.symm.trans hsame) (show (0xFF : Byte) ≠ 0 by decide)

/-- After any sequence of `dataflash_real_protect` calls, writes of `size` bytes to `dest` leave the
protected areas alone if and only if they are refused (outside the bank, too large, or starting in
a protected area before its last byte) or none of their bytes is protected. -/
theorem keepsProtected_iff (calls : List ProtectCall) (dest size : Word) :
    KeepsProtected calls dest size ↔
      ¬ InBank dest size ∨
      (∃ a ∈ areasAfter calls, a.protection = .set ∧ a.covers dest = true) ∨
      ∀ i < size.toNat, ¬ Protected (areasAfter calls) (offset dest + i) := by
  rw [← protDataflash_eq_zero (areasAfter_laid calls)]
  constructor
  · intro h
    by_contra hno
    obtain ⟨hin, hrest⟩ := not_or.mp hno
    obtain ⟨hprot, hbyte⟩ := not_or.mp hrest
    apply hbyte
    intro i hi hp
    exact not_keepsProtected calls dest size ⟨not_not.mp hin, hprot⟩ hi hp h
  · intro h
    apply keepsProtected_of_disjoint
    intro hadm
    rcases h with h | h | h
    · exact absurd hadm.1 h
    · exact absurd h hadm.2
    · exact h

/-- The last byte of the first boot loader is found in no area and is overwritten. -/
theorem not_keepsProtected_last : ¬ ∀ calls dest size, KeepsProtected calls dest size := fun h =>
  not_keepsProtected [] 0xC0003FFF 1 (i := 0) (by decide) (by decide)
    ⟨⟨0xC0000000, 0xC0003FFF, .set⟩, by decide, rfl, by decide, by decide⟩ (h [] 0xC0003FFF 1)

end Armboard.Uboot
