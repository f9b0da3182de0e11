import Armboard.DataFlash.Init
import Armboard.DataFlash.WritePlan

/-! # Where a write goes

The chunks of a plan take the source in order, and until the 32-bit address wraps
each of them lands at its flat address. Inside the array this makes a write
exact: the requested cells, nothing else, and no page programmed twice.
-/

namespace Armboard.DataFlash
open Exec Storage

variable {dest size : Word}

theorem advance_toNat (dest : Word) (n : ℕ) : (advance dest n).toNat = (dest.toNat + n) % 2 ^ 32 := by
  simp [advance, BitVec.toNat_add]

/-- What the leading partial page leaves of the size. -/
theorem rest_toNat (dest size : Word) :
    264 * fullPages (size - BitVec.ofNat 32 (leadLength dest size)) +
      tailLength (size - BitVec.ofNat 32 (leadLength dest size)) ≤
        size.toNat - leadLength dest size := by
  rw [← sub_lead_toNat]
  exact planLength_le _

/-! ## The plan takes the source in order -/

private theorem pages_tile (f : ℕ → ℕ) (m : ℕ) :
    Tiles 0 ((List.range m).map (fun k => (⟨f k, 0, 264, 264 * k⟩ : Chunk))) (264 * m) := by
  induction m with
  | zero => rfl
  | succ m ih =>
    rw [List.range_succ, List.map_append]
    exact ih.append ⟨rfl, by simp [Tiles, Nat.mul_succ]⟩

theorem writePlan_tiles (dest size : Word) :
    Tiles 0 (writePlan dest size) (planLength dest size) := by
  have hlead : Tiles 0 (leadPlan dest size) (leadLength dest size) := by
    unfold leadPlan
    split
    · rename_i h0
      rw [leadLength, if_pos h0]
      rfl
    · exact ⟨rfl, Nat.zero_add _⟩
  have hrest : ∀ d s : Word, Tiles 0 (pagesPlan d s ++ tailPlan d s)
      (264 * fullPages s + tailLength s) := by
    intro d s
    apply (pages_tile _ _).append
    unfold tailPlan
    split
    · rename_i h
      rw [h]
      rfl
    · exact ⟨rfl, rfl⟩
  exact hlead.append ((hrest _ _).shift _)

/-- A size below the point where the loop's first subtraction wraps is taken as a whole. -/
theorem planLength_eq (h : size.toNat < 2 ^ 31 + 264) : planLength dest size = size.toNat := by
  have hsub := sub_lead_toNat dest size
  have hle := leadLength_le dest size
  simp only [planLength, fullPages, tailLength, hsub]
  rw [if_pos (by omega), if_pos (by omega)]
  omega

/-! ## Where the chunks land -/

/-- The page of a chunk comes from the wrapped address of its first byte; as long as that
address has not wrapped, so does its place in the page. Only the first chunk starts inside one. -/
structure Placed (dest : Word) (c : Chunk) : Prop where
  page : c.page = (dest.toNat + c.src) % 2 ^ 32 / 264 % 2048
  len : c.len ≤ 264
  fits : dest.toNat + c.src < 2 ^ 32 → c.offset = (dest.toNat + c.src) % 264 ∧ c.Fits 264
  aligned : 0 < c.src → (dest.toNat + c.src) % 264 = 0

theorem lead_aligned (h : leadLength dest size < size.toNat) :
    (dest.toNat + leadLength dest size) % 264 = 0 := by
  unfold leadLength at h ⊢
  split
  · rename_i h0
    simpa using h0
  · rename_i h0
    rw [if_neg h0] at h
    rw [Nat.min_eq_right (by omega)]
    omega

private theorem leadPlan_placed : ∀ c ∈ leadPlan dest size, Placed dest c := by
  have hd := dest.isLt
  intro c hc
  unfold leadPlan at hc
  split at hc
  · simp at hc
  · rename_i h0
    obtain rfl := List.mem_singleton.mp hc
    have hlen : leadLength dest size ≤ 264 - dest.toNat % 264 := by
      rw [leadLength, if_neg h0]
      exact Nat.min_le_right _ _
    have ho : dest.toNat % 264 < 264 := Nat.mod_lt _ (by omega)
    refine ⟨?_, hlen.trans (Nat.sub_le _ _), fun _ => ⟨rfl, ho, ?_⟩, fun h => absurd h (lt_irrefl 0)⟩
    · change dest.toNat / 264 % 2048 = (dest.toNat + 0) % 2 ^ 32 / 264 % 2048
      rw [Nat.add_zero, Nat.mod_eq_of_lt hd]
    · change dest.toNat % 264 + leadLength dest size ≤ 264
      omega

private theorem page_chunk_placed {n k : ℕ} (h : (dest.toNat + n) % 264 = 0) :
    Placed dest (Chunk.shift n
      ⟨(advance (advance dest n) (264 * k)).toNat / 264 % 2048, 0, 264, 264 * k⟩) := by
  have hal : (dest.toNat + (n + 264 * k)) % 264 = 0 := by omega
  refine ⟨?_, le_rfl, fun _ => ⟨hal.symm, Nat.zero_lt_succ _, le_rfl⟩, fun _ => hal⟩
  change (advance (advance dest n) (264 * k)).toNat / 264 % 2048 =
    (dest.toNat + (n + 264 * k)) % 2 ^ 32 / 264 % 2048
  rw [advance_add, advance_toNat]

private theorem tail_chunk_placed {n k len : ℕ} (h : (dest.toNat + n) % 264 = 0)
    (hlen : len ≤ 264) :
    Placed dest (Chunk.shift n (chunkAt (advance (advance dest n) (264 * k)) len (264 * k))) := by
  have hal : (dest.toNat + (n + 264 * k)) % 264 = 0 := by omega
  have ho (hlt : dest.toNat + (n + 264 * k) < 2 ^ 32) :
      (advance (advance dest n) (264 * k)).toNat % 264 = 0 := by
    rw [advance_add, advance_toNat, Nat.mod_eq_of_lt hlt, hal]
  refine ⟨?_, hlen, fun hlt => ⟨?_, ?_, ?_⟩, fun _ => hal⟩
  · change (advance (advance dest n) (264 * k)).toNat / 264 % 2048 =
      (dest.toNat + (n + 264 * k)) % 2 ^ 32 / 264 % 2048
    rw [advance_add, advance_toNat]
  · change (advance (advance dest n) (264 * k)).toNat % 264 = (dest.toNat + (n + 264 * k)) % 264
    rw [ho hlt]
    exact hal.symm
  · change (advance (advance dest n) (264 * k)).toNat % 264 < 264
    exact Nat.mod_lt _ (by omega)
  · change (advance (advance dest n) (264 * k)).toNat % 264 + len ≤ 264
    rw [ho hlt]
    omega

theorem writePlan_placed : ∀ c ∈ writePlan dest size, Placed dest c := by
  have hrest := rest_toNat dest size
  intro c hc
  rw [writePlan] at hc
  rcases List.mem_append.mp hc with hc | hc
  · exact leadPlan_placed c hc
  · obtain ⟨d, hd, rfl⟩ := List.mem_map.mp hc
    rcases List.mem_append.mp hd with hd | hd
    · obtain ⟨k, hk, rfl⟩ := List.mem_map.mp hd
      have hk' := List.mem_range.mp hk
      exact page_chunk_placed (lead_aligned (by omega))
    · unfold tailPlan at hd
      split at hd
      · simp at hd
      · rename_i h0
        obtain rfl := List.mem_singleton.mp hd
        apply tail_chunk_placed (lead_aligned (by omega))
        unfold tailLength
        split <;> omega

theorem writePlan_nonempty (h : 0 < size.toNat) : ∀ c ∈ writePlan dest size, 0 < c.len := by
  intro c hc
  rw [writePlan] at hc
  rcases List.mem_append.mp hc with hc | hc
  · unfold leadPlan at hc
    split at hc
    · simp at hc
    · rename_i h0
      obtain rfl := List.mem_singleton.mp hc
      change 0 < leadLength dest size
      rw [leadLength, if_neg h0]
      omega
  · obtain ⟨d, hd, rfl⟩ := List.mem_map.mp hc
    rcases List.mem_append.mp hd with hd | hd
    · obtain ⟨k, -, rfl⟩ := List.mem_map.mp hd
      exact Nat.zero_lt_succ _
    · unfold tailPlan at hd
      split at hd
      · simp at hd
      · rename_i h0
        obtain rfl := List.mem_singleton.mp hd
        exact Nat.pos_of_ne_zero h0

theorem writePlan_bound {c : Chunk} (hc : c ∈ writePlan dest size) :
    c.src + c.len ≤ size.toNat := by
  have h := ((writePlan_tiles dest size).bound hc).2
  have hrest := rest_toNat dest size
  have hlead := leadLength_le dest size
  simp only [planLength] at h
  omega

/-! ## Writes inside the array -/

theorem Placed.page_eq {c : Chunk} (h : Placed dest c) (hin : dest.toNat + c.src < arraySize) :
    c.page = (dest.toNat + c.src) / 264 := by
  rw [arraySize_eq] at hin
  rw [h.page, Nat.mod_eq_of_lt (by omega), Nat.mod_eq_of_lt (by omega)]

/-- As long as the address has not wrapped, a chunk lies at its flat address modulo the array. -/
theorem Placed.first_mod {c : Chunk} (h : Placed dest c) (hlt : dest.toNat + c.src < 2 ^ 32) :
    c.Fits 264 ∧ c.first 264 = (dest.toNat + c.src) % arraySize := by
  obtain ⟨ho, hf⟩ := h.fits hlt
  constructor
  · exact hf
  rw [Chunk.first, h.page, ho, Nat.mod_eq_of_lt hlt, arraySize_eq]
  omega

theorem Placed.first_eq {c : Chunk} (h : Placed dest c) (hin : dest.toNat + c.src < arraySize) :
    c.Fits 264 ∧ c.first 264 = dest.toNat + c.src := by
  have hsize := arraySize_eq
  obtain ⟨hf, hfirst⟩ := h.first_mod (by omega)
  exact ⟨hf, hfirst.trans (Nat.mod_eq_of_lt hin)⟩

theorem Placed.hits_iff {c : Chunk} (h : Placed dest c)
    (hin : dest.toNat + (c.src + c.len) ≤ arraySize) (x : ℕ) :
    c.hits 264 x ↔ dest.toNat + c.src ≤ x ∧ x < dest.toNat + (c.src + c.len) := by
  rcases Nat.eq_zero_or_pos c.len with h0 | hpos
  · constructor
    · exact fun hx => absurd hx.2 (by omega)
    · omega
  · obtain ⟨hf, hfirst⟩ := h.first_eq (by omega)
    rw [hf.hits_iff, hfirst, Nat.add_assoc]

theorem Placed.index_eq {c : Chunk} (h : Placed dest c)
    (hin : dest.toNat + (c.src + c.len) ≤ arraySize) {x : ℕ} (hx : c.hits 264 x) :
    dest.toNat + (c.src + c.index 264 x) = x := by
  have hpos : 0 < c.len := (Nat.zero_le _).trans_lt hx.2
  obtain ⟨hf, hfirst⟩ := h.first_eq (by omega)
  obtain ⟨hle, hi⟩ := hf.index_eq hx
  rw [hi]
  omega

/-- Each page is programmed once: every chunk but the first starts a new page. -/
theorem writePlan_nodup (h : dest.toNat + size.toNat ≤ arraySize) :
    ((writePlan dest size).map Chunk.page).Nodup := by
  rcases Nat.eq_zero_or_pos size.toNat with h0 | hpos
  · have hz : size = 0 := BitVec.eq_of_toNat_eq h0
    have hp : ∀ d, pagesPlan d (0 - BitVec.ofNat 32 0) = [] := fun _ => rfl
    have ht : ∀ d, tailPlan d (0 - BitVec.ofNat 32 0) = [] := fun _ => rfl
    have hl : leadLength dest 0 = 0 := by
      unfold leadLength
      split <;> simp
    rw [writePlan, hz, hl, hp, ht, leadPlan]
    split <;> simp
  · rw [List.Nodup, List.pairwise_map]
    apply (writePlan_tiles dest size).pairwise.imp_of_mem
    intro c d hc hd hcd
    have hclen := writePlan_nonempty hpos c hc
    have hdlen := writePlan_nonempty hpos d hd
    have hdb := writePlan_bound hd
    have hc' := writePlan_placed c hc
    have hd' := writePlan_placed d hd
    rw [hc'.page_eq (by omega), hd'.page_eq (by omega)]
    rw [arraySize_eq] at h
    have hal := hd'.aligned (by omega)
    omega

/-- A write inside the array puts the source where it belongs and leaves the rest alone. -/
theorem patch_writePlan (h : dest.toNat + size.toNat ≤ arraySize) (data f : ℕ → Byte) (x : ℕ) :
    patchAll 264 data (writePlan dest size) f x =
      if dest.toNat ≤ x ∧ x < dest.toNat + size.toNat then data (x - dest.toNat) else f x := by
  have hlen : planLength dest size = size.toNat :=
    planLength_eq (by rw [arraySize_eq] at h; omega)
  have htiles := writePlan_tiles dest size
  rw [hlen] at htiles
  have hb : ∀ c ∈ writePlan dest size, dest.toNat + (c.src + c.len) ≤ arraySize := by
    intro c hc
    have := writePlan_bound hc
    omega
  split
  · rename_i hx
    obtain ⟨c, hc, hle, hlt⟩ := htiles.exists_mem (i := x - dest.toNat) (Nat.zero_le _) (by omega)
    have hhit : c.hits 264 x := by
      rw [(writePlan_placed c hc).hits_iff (hb c hc)]
      omega
    have hidx := (writePlan_placed c hc).index_eq (hb c hc) hhit
    rw [patchAll_hit (writePlan_nodup h) hc hhit]
    congr 1
    omega
  · rename_i hx
    refine patchAll_miss (fun c hc hhit => hx ?_)
    rw [(writePlan_placed c hc).hits_iff (hb c hc)] at hhit
    have := htiles.bound hc
    omega

/-- `AT91F_DataFlashWrite` inside the array: the flash holds the source bytes at `dest`, every
other byte is as before, and no page is programmed twice. -/
theorem dataFlashWrite_correct {b : Board} (hb : Installed b) (src dest size : Word)
    (h : dest.toNat + size.toNat ≤ arraySize) :
    ∃ t pages, dataFlashWrite dataFlashWaitReady src dest size b = .ok dataflashOk t ∧
      (∀ i < size.toNat, t.chip.flash (dest.toNat + i) = view b.mem src i) ∧
      (∀ x, x < dest.toNat ∨ dest.toNat + size.toNat ≤ x → t.chip.flash x = b.chip.flash x) ∧
      t.chip.programmed = pages ++ b.chip.programmed ∧ pages.Nodup := by
  obtain ⟨r, t, hrun, rfl, hw⟩ := wp_never.mp
    (dataFlashWrite_spec dataFlashWaitReady_spec.waits hb src (rangeError_eq_false h))
  refine ⟨t, _, hrun, ?_, ?_, hw.programmed, List.nodup_reverse.mpr (writePlan_nodup h)⟩
  · intro i hi
    rw [hw.flash, patch_writePlan h, if_pos (by omega), Nat.add_sub_cancel_left]
  · intro x hx
    rw [hw.flash, patch_writePlan h, if_neg (by omega)]

/-- Three pages of an erased array: the end of page 0, page 1 and the start of page 2. -/
theorem dataFlashWrite_correct_three_pages :
    ∃ t pages, dataFlashWrite dataFlashWaitReady 0x20000000 200 400
        (freshBoard (fun _ => 0xFF) (fun a => a.setWidth 8)) = .ok dataflashOk t ∧
      (∀ i < (400 : Word).toNat, t.chip.flash ((200 : Word).toNat + i) =
        view (freshBoard (fun _ => 0xFF) (fun a => a.setWidth 8)).mem 0x20000000 i) ∧
      (∀ x, x < (200 : Word).toNat ∨ (200 : Word).toNat + (400 : Word).toNat ≤ x →
        t.chip.flash x = (freshBoard (fun _ => 0xFF) (fun a => a.setWidth 8)).chip.flash x) ∧
      t.chip.programmed =
        pages ++ (freshBoard (fun _ => 0xFF) (fun a => a.setWidth 8)).chip.programmed ∧
      pages.Nodup :=
  dataFlashWrite_correct (freshBoard_installed _ _) 0x20000000 200 400 (by decide)

end Armboard.DataFlash
