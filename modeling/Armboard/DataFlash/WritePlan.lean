import Armboard.DataFlash.Commands

/-! # A write is a list of page patches

`writePlan` says which source bytes go to which cells of which page, for every
32-bit destination and size the range test lets through, wrapped ones included.
The driver refines it: a run of `dataFlashWrite` patches the flash by its plan and
programs each page of the plan once.
-/

namespace Armboard.DataFlash
open Exec Storage

/-! ## The plan -/

def chunkAt (dest : Word) (len src : ℕ) : Chunk :=
  ⟨dest.toNat / 264 % 2048, dest.toNat % 264, len, src⟩

/-- Passes of the whole-page loop. Sizes are signed there, but the first subtraction of a size just
above the most negative one wraps to a large positive number. -/
def fullPages (size : Word) : ℕ := if size.toNat < 2 ^ 31 + 264 then size.toNat / 264 else 0

def tailLength (size : Word) : ℕ := if size.toNat < 2 ^ 31 + 264 then size.toNat % 264 else 0

def leadLength (dest size : Word) : ℕ :=
  if dest.toNat % 264 = 0 then 0 else min size.toNat (264 - dest.toNat % 264)

def advance (dest : Word) (n : ℕ) : Word := dest + BitVec.ofNat 32 n

def pagesPlan (dest size : Word) : List Chunk :=
  (List.range (fullPages size)).map (fun k =>
    ⟨(advance dest (264 * k)).toNat / 264 % 2048, 0, 264, 264 * k⟩)

def tailPlan (dest size : Word) : List Chunk :=
  if tailLength size = 0 then []
  else [chunkAt (advance dest (264 * fullPages size)) (tailLength size) (264 * fullPages size)]

def leadPlan (dest size : Word) : List Chunk :=
  if dest.toNat % 264 = 0 then [] else [chunkAt dest (leadLength dest size) 0]

/-- The chunks of a write, in the order in which they are programmed. -/
def writePlan (dest size : Word) : List Chunk :=
  let n := leadLength dest size
  leadPlan dest size ++
    (pagesPlan (advance dest n) (size - BitVec.ofNat 32 n) ++
      tailPlan (advance dest n) (size - BitVec.ofNat 32 n)).map (Chunk.shift n)

theorem advance_add (dest : Word) (n k : ℕ) : advance (advance dest n) k = advance dest (n + k) := by
  simp only [advance, BitVec.add_assoc, BitVec.ofNat_add]

theorem pagesPlan_succ {dest size : Word} {k : ℕ} (hk : fullPages size = k + 1)
    (hs : fullPages (size - 264) = k) :
    pagesPlan dest size = ⟨dest.toNat / 264 % 2048, 0, 264, 0⟩ ::
      (pagesPlan (advance dest 264) (size - 264)).map (Chunk.shift 264) := by
  rw [pagesPlan, pagesPlan, hk, hs, List.range_succ_eq_map]
  simp only [List.map_cons, List.map_map, advance, Nat.mul_zero, BitVec.add_zero]
  congr 1
  apply List.map_congr_left
  intro j _
  simp only [Function.comp, Chunk.shift, Nat.succ_eq_add_one, Nat.mul_add, Nat.mul_one,
    Nat.add_comm (264 * j), BitVec.ofNat_add, ← BitVec.add_assoc]

theorem tailPlan_succ {dest size : Word} {k : ℕ} (hk : fullPages size = k + 1)
    (hs : fullPages (size - 264) = k) (ht : tailLength (size - 264) = tailLength size) :
    tailPlan dest size = (tailPlan (advance dest 264) (size - 264)).map (Chunk.shift 264) := by
  unfold tailPlan
  rw [ht]
  split
  · rfl
  · simp only [hk, hs, advance_add, List.map_cons, List.map_nil, chunkAt, Chunk.shift,
      Nat.mul_add, Nat.mul_one, Nat.add_comm 264]

/-! ## Refinement -/

/-- The run from `b` to `t` took `n` bytes from `src` and patched the flash by `cs`. The bytes taken
are lost: the receiver overwrote them. -/
structure Written (b t : Board) (src : Word) (cs : List Chunk) (n : ℕ) : Prop where
  installed : Installed t
  bound : ∀ c ∈ cs, c.src + c.len ≤ n
  flash : t.chip.flash = patchAll 264 (view b.mem src) cs b.chip.flash
  programmed : t.chip.programmed = (cs.map Chunk.page).reverse ++ b.chip.programmed
  mem : ∀ i, n ≤ i → i < 2 ^ 32 → view t.mem src i = view b.mem src i

theorem Written.refl {b : Board} (hb : Installed b) (src : Word) : Written b b src [] 0 :=
  ⟨hb, by simp, rfl, rfl, fun _ _ _ => rfl⟩

theorem Written.kept {b t u : Board} {src : Word} {cs : List Chunk} {n : ℕ}
    (h : Written b t src cs n) (hk : Kept t u) : Written b u src cs n :=
  ⟨hk.installed h.installed, h.bound, hk.flash.trans h.flash, hk.programmed.trans h.programmed,
    fun i hi hw => by rw [hk.mem]; exact h.mem i hi hw⟩

/-- Two runs in a row: the second takes its bytes behind the first's. -/
theorem Written.append {b t u : Board} {src : Word} {cs ds : List Chunk} {n m : ℕ}
    (h : Written b t src cs n) (h' : Written t u (src + BitVec.ofNat 32 n) ds m)
    (hnm : n + m ≤ 2 ^ 32) : Written b u src (cs ++ ds.map (Chunk.shift n)) (n + m) where
  installed := h'.installed
  bound := by
    intro c hc
    rcases List.mem_append.mp hc with hc | hc
    · exact (h.bound c hc).trans (Nat.le_add_right n m)
    · obtain ⟨d, hd, rfl⟩ := List.mem_map.mp hc
      have := h'.bound d hd
      simp only [Chunk.shift_src, Chunk.shift_len]
      omega
  flash := by
    rw [h'.flash, h.flash, patchAll_append, patchAll_shift]
    apply patchAll_congr
    intro c hc i hi
    have := h'.bound c hc
    rw [view_add, h.mem _ (Nat.le_add_right _ _) (by omega)]
  programmed := by
    rw [h'.programmed, h.programmed, List.map_append, List.reverse_append, List.append_assoc,
      List.map_map]
    rfl
  mem := by
    intro i hi hw
    have hsplit : i = n + (i - n) := by omega
    rw [hsplit, ← view_add, h'.mem _ (by omega) (by omega), view_add]
    exact h.mem _ (by omega) (by omega)

theorem program_erased (page : ℕ) (buf f : ℕ → Byte) :
    programPage page buf (erasePage page f) = fun x => if x / 264 = page then buf (x % 264) else f x := by
  funext x
  unfold programPage erasePage
  split
  · have h : (0xFF : Byte) = BitVec.allOnes 8 := rfl
    rw [h, BitVec.allOnes_and]
  · rfl

/-- A page rewritten from a buffer that held it, with the chunk's bytes shifted in. -/
theorem rewritten_page {page o len : ℕ} (hlen : len ≤ 264) (data f : ℕ → Byte) :
    programPage page (shiftIn o len data (fun x => f (page * 264 + x))) (erasePage page f) =
      (⟨page, o, len, 0⟩ : Chunk).patch 264 data f := by
  rw [program_erased]
  funext x
  by_cases hp : x / 264 = page
  · have hx : page * 264 + x % 264 = x := by omega
    have hr : (⟨page, o, len, 0⟩ : Chunk).index 264 x < 264 := Nat.mod_lt _ (by omega)
    have hi : (x % 264 % 264 + (264 - o % 264)) % 264 =
        (⟨page, o, len, 0⟩ : Chunk).index 264 x := by
      simp only [Chunk.index, Nat.mod_mod]
    rw [if_pos hp]
    unfold shiftIn
    rw [Nat.mod_mod] at hi
    simp only [hi]
    by_cases hl : (⟨page, o, len, 0⟩ : Chunk).index 264 x < len
    · rw [if_pos hl, Chunk.patch_hit ⟨hp, hl⟩]
      congr 1
      simp only [Nat.zero_add]
      omega
    · rw [if_neg hl, Chunk.patch_miss (fun h => hl h.2), hx]
  · rw [if_neg hp, Chunk.patch_miss (fun h => hp h.1)]

theorem pages_toNat (dest : Word) : (dest / 264).toNat = dest.toNat / 264 ∧
    (dest % 264).toNat = dest.toNat % 264 := by
  simp [BitVec.toNat_udiv, BitVec.toNat_umod]

theorem partialPageWrite_spec {wait : Driver Word} (hw : Waits wait) {b : Board} (hb : Installed b)
    {src dest size : Word} (hsize : size.toNat ≤ 264) :
    wp (partialPageWrite wait src dest size) (fun r t => r = dataflashOk ∧
      Written b t src [chunkAt dest size.toNat 0] size.toNat) never b := by
  obtain ⟨hdiv, hmod⟩ := pages_toNat dest
  have hlt := dest.isLt
  have hz : ¬ (264 : Word) = 0 := by decide
  have hps : at45db041Features.pagesSize = 264 := rfl
  have hp : (dest / 264).toNat * 264 < 2 ^ 32 := by omega
  simp only [partialPageWrite, divisor, wp_bind, wp_get, hb.device, hps, if_neg hz, wp_pure]
  apply wp_post (mainMemoryToBufferTransfert_spec hb hp)
  rintro - b₁ ⟨hi₁, hf₁, hbuf₁, hl₁, hm₁⟩
  apply wp_post (hw b₁ hi₁.idle)
  rintro - b₂ hk₂
  have hi₂ := hk₂.installed hi₁
  apply wp_post (dataFlashWriteBuffer_spec hi₂ (by omega : (dest % 264).toNat < 264))
  rintro - b₃ ⟨hi₃, hf₃, hbuf₃, hl₃, hm₃⟩
  apply wp_post (hw b₃ hi₃.idle)
  rintro - b₄ hk₄
  have hi₄ := hk₄.installed hi₃
  have hlarge : ¬ at45db041Features.large = true := by decide
  rw [hi₄.device, if_neg hlarge]
  apply wp_post (writeBufferToMain_spec hi₄ (Or.inr rfl) _)
  rintro r t ⟨hr, hi, hf, hl, hm⟩
  have hpage := page_mul_toNat hp
  rw [hps] at hpage
  have hflash : b₄.chip.flash = b.chip.flash := by rw [hk₄.flash, hf₃, hk₂.flash, hf₁]
  have hmem₂ : b₂.mem = b.mem := hk₂.mem.trans hm₁
  have hbuf : b₄.chip.buffer = shiftIn (dest.toNat % 264) size.toNat (view b.mem src)
      (fun x => b.chip.flash (dest.toNat / 264 % 2048 * 264 + x)) := by
    rw [hk₄.buffer, hbuf₃, hk₂.buffer, hbuf₁, hmem₂, hmod, hdiv]
  refine ⟨hr, ⟨hi, by simp [chunkAt], ?_, ?_, ?_⟩⟩
  · rw [hf, hpage, hdiv, hflash, hbuf]
    exact rewritten_page hsize _ _
  · rw [hl, hpage, hdiv, hk₄.programmed, hl₃, hk₂.programmed, hl₁]
    rfl
  · intro i hn hi32
    simp only [view]
    rw [hm, hk₄.mem, hm₃ _ (by rw [offset_toNat src hi32]; exact hn), hmem₂]

theorem writePart_spec {wait : Driver Word} (hw : Waits wait) {b : Board} (hb : Installed b)
    {src dest size : Word} (hsize : size.toNat ≤ 264) :
    wp (writePart wait src dest size) (fun good t => good = true ∧
      Written b t src [chunkAt dest size.toNat 0] size.toNat) never b := by
  rw [writePart, wp_bind]
  apply wp_post (partialPageWrite_spec hw hb hsize)
  rintro r t ⟨rfl, ht⟩
  rw [if_neg (by decide), wp_bind]
  exact wp_post (hw t ht.installed.idle) (fun _ u hu => ⟨rfl, ht.kept hu⟩)

theorem writePage_spec {wait : Driver Word} (hw : Waits wait) {b : Board} (hb : Installed b)
    (src dest : Word) :
    wp (writePage wait src dest) (fun good t => good = true ∧
      Written b t src [⟨dest.toNat / 264 % 2048, 0, 264, 0⟩] 264) never b := by
  obtain ⟨hdiv, -⟩ := pages_toNat dest
  have hlt := dest.isLt
  have hz : ¬ (264 : Word) = 0 := by decide
  have hps : at45db041Features.pagesSize = 264 := rfl
  have hp : (dest / 264).toNat * 264 < 2 ^ 32 := by omega
  simp only [writePage, divisor, wp_bind, wp_get, hb.device, hps, if_neg hz, wp_pure]
  apply wp_post (dataFlashWriteBuffer_spec hb (by decide : (0 : Word).toNat < 264))
  rintro - b₁ ⟨hi₁, hf₁, hbuf₁, hl₁, hm₁⟩
  apply wp_post (hw b₁ hi₁.idle)
  rintro - b₂ hk₂
  have hi₂ := hk₂.installed hi₁
  apply wp_post (pageErase_spec hi₂ hp)
  rintro r b₃ ⟨rfl, hi₃, hf₃, hbuf₃, hl₃, hm₃⟩
  apply wp_post (hw b₃ hi₃.idle)
  rintro - b₄ hk₄
  have hi₄ := hk₄.installed hi₃
  rw [if_neg (by decide), wp_bind]
  apply wp_post (writeBufferToMain_spec hi₄ (Or.inl rfl) dest)
  rintro r t ⟨rfl, hi, hf, hl, hm⟩
  rw [if_neg (by decide), wp_bind]
  apply wp_post (hw t hi.idle)
  rintro - u hu
  refine ⟨rfl, Written.kept ⟨hi, by simp, ?_, ?_, ?_⟩ hu⟩
  · rw [hf, if_pos rfl, hk₄.flash, hf₃, hk₂.flash, hf₁, hdiv, hk₄.buffer, hbuf₃, hk₂.buffer, hbuf₁]
    -- a whole page shifted in leaves nothing of the old buffer, so it may as well hold the page
    have hfull : shiftIn (0 : Word).toNat (264 : Word).toNat (view b.mem src) b.chip.buffer =
        shiftIn 0 264 (view b.mem src)
          (fun x => b.chip.flash (dest.toNat / 264 % 2048 * 264 + x)) := by
      funext x
      have hx : (x + 264) % 264 < 264 := Nat.mod_lt _ (by omega)
      simp only [shiftIn, show (0 : Word).toNat = 0 from rfl, show (264 : Word).toNat = 264 from rfl,
        Nat.zero_mod, Nat.sub_zero, if_pos hx]
    rw [hfull]
    exact rewritten_page le_rfl _ _
  · rw [hl, hk₄.programmed, hl₃, hk₂.programmed, hl₁]
    rfl
  · intro i hn hi32
    simp only [view]
    rw [hm, hk₄.mem, hm₃, hk₂.mem, hm₁ _ (by rw [offset_toNat src hi32]; exact hn)]

/-! ## The whole-page loop -/

theorem sub_page_toNat (size : Word) :
    (size - 264).toNat = (size.toNat + (2 ^ 32 - 264)) % 2 ^ 32 := by
  rw [BitVec.toNat_sub, Nat.add_comm]
  rfl

/-- The signed loop test in terms of the number of passes still to make. -/
theorem loop_test (size : Word) : 0 ≤ (size - 264).toInt ↔ 0 < fullPages size := by
  have hlt := size.isLt
  have hsub := sub_page_toNat size
  rw [BitVec.toInt_eq_toNat_cond, fullPages]
  split <;> split <;> omega

theorem tail_test {size : Word} (h : fullPages size = 0) :
    0 < size.toInt ↔ tailLength size ≠ 0 := by
  have hlt := size.isLt
  rw [BitVec.toInt_eq_toNat_cond]
  unfold fullPages at h
  unfold tailLength
  by_cases hu : size.toNat < 2 ^ 31 + 264
  · rw [if_pos hu] at h ⊢
    split <;> omega
  · rw [if_neg hu, if_neg (by omega)]
    omega

theorem fullPages_sub {size : Word} {k : ℕ} (h : fullPages size = k + 1) :
    fullPages (size - 264) = k ∧ tailLength (size - 264) = tailLength size := by
  have hlt := size.isLt
  have hsub := sub_page_toNat size
  have hu : size.toNat < 2 ^ 31 + 264 ∧ size.toNat / 264 = k + 1 := by
    unfold fullPages at h
    split at h
    · exact ⟨by assumption, h⟩
    · omega
  have hs : (size - 264).toNat = size.toNat - 264 := by omega
  constructor
  · rw [fullPages, if_pos (by omega), hs]
    omega
  · rw [tailLength, tailLength, if_pos (by omega), if_pos hu.1, hs]
    omega

theorem planLength_le (size : Word) : 264 * fullPages size + tailLength size ≤ size.toNat := by
  unfold fullPages tailLength
  split <;> omega

/-- The loop and the last partial page: by induction on the whole pages still to write. -/
theorem writePages_spec {wait : Driver Word} (hw : Waits wait) (k : ℕ) :
    ∀ fuel, k < fuel → ∀ (b : Board) (src dest size : Word), Installed b → fullPages size = k →
      wp (writePages wait fuel src dest size) (fun r t => r = dataflashOk ∧
        Written b t src (pagesPlan dest size ++ tailPlan dest size)
          (264 * k + tailLength size)) never b := by
  have hps : at45db041Features.pagesSize = 264 := rfl
  induction k with
  | zero =>
    rintro (_ | fuel) hfuel b src dest size hb hk
    · omega
    have htest : ¬ 0 ≤ (size - 264).toInt := by rw [loop_test]; omega
    have hpages : pagesPlan dest size = [] := by simp [pagesPlan, hk]
    simp only [writePages, wp_bind, wp_get, hb.device, hps, if_neg htest]
    by_cases ht : tailLength size = 0
    · rw [if_neg (by rw [tail_test hk]; exact not_not.mpr ht), hpages, tailPlan, if_pos ht, ht]
      exact ⟨rfl, Written.refl hb src⟩
    · have hlen : tailLength size = size.toNat ∧ size.toNat < 264 := by
        have hlt := size.isLt
        unfold fullPages at hk
        unfold tailLength at ht ⊢
        by_cases hu : size.toNat < 2 ^ 31 + 264
        · rw [if_pos hu] at hk ⊢
          omega
        · rw [if_neg hu] at ht
          exact absurd rfl ht
      rw [if_pos ((tail_test hk).mpr ht), wp_bind, hpages, tailPlan, if_neg ht, hk]
      apply wp_post (writePart_spec hw hb (by omega))
      rintro good t ⟨rfl, hwr⟩
      constructor
      · rfl
      have hdest : advance dest (264 * 0) = dest := by simp [advance]
      rw [hdest, hlen.1]
      simpa using hwr
  | succ k ih =>
    rintro (_ | fuel) hfuel b src dest size hb hk
    · omega
    obtain ⟨hk', ht'⟩ := fullPages_sub hk
    have htest : 0 ≤ (size - 264).toInt := by rw [loop_test]; omega
    simp only [writePages, wp_bind, wp_get, hb.device, hps, if_pos htest]
    apply wp_post (writePage_spec hw hb src dest)
    rintro good t ⟨rfl, hwr⟩
    rw [if_pos rfl]
    apply wp_post (ih fuel (by omega) t (src + 264) (dest + 264) (size - 264) hwr.installed hk')
    rintro r u ⟨hr, hwr'⟩
    constructor
    · exact hr
    have hn : 264 * k + tailLength size + 264 ≤ 2 ^ 32 := by
      have hlt := size.isLt
      have hle := planLength_le size
      omega
    rw [ht'] at hwr'
    have hall := hwr.append (n := 264) (m := 264 * k + tailLength size) hwr' (by omega)
    rw [pagesPlan_succ hk hk', tailPlan_succ hk hk' ht', List.cons_append, ← List.map_append,
      show 264 * (k + 1) + tailLength size = 264 + (264 * k + tailLength size) by omega]
    exact hall

def planLength (dest size : Word) : ℕ :=
  let n := leadLength dest size
  n + (264 * fullPages (size - BitVec.ofNat 32 n) + tailLength (size - BitVec.ofNat 32 n))

theorem leadLength_le (dest size : Word) : leadLength dest size ≤ size.toNat := by
  unfold leadLength
  split <;> omega

theorem sub_lead_toNat (dest size : Word) :
    (size - BitVec.ofNat 32 (leadLength dest size)).toNat =
      size.toNat - leadLength dest size := by
  have h := leadLength_le dest size
  have hlt := size.isLt
  generalize leadLength dest size = n at h
  have hn : n % 2 ^ 32 = n := Nat.mod_eq_of_lt (by omega)
  rw [BitVec.toNat_sub, BitVec.toNat_ofNat, hn]
  omega

/-- Every request that the range test lets through runs to its end and follows its plan. -/
theorem dataFlashWrite_spec {wait : Driver Word} (hw : Waits wait) {b : Board} (hb : Installed b)
    (src : Word) {dest size : Word} (hr : rangeError at45db041Features dest size = false) :
    wp (dataFlashWrite wait src dest size) (fun r t => r = dataflashOk ∧
      Written b t src (writePlan dest size) (planLength dest size)) never b := by
  obtain ⟨-, hmod⟩ := pages_toNat dest
  have hz : ¬ (264 : Word) = 0 := by decide
  have hps : at45db041Features.pagesSize = 264 := rfl
  have hrange : ¬ rangeError at45db041Features dest size = true := by simp [hr]
  have hfuel : ∀ s : Word, fullPages s < 2 ^ 32 := by
    intro s
    have := planLength_le s
    omega
  simp only [dataFlashWrite, wp_bind, wp_get, hb.device, if_neg hrange, divisor, hps, if_neg hz,
    wp_pure]
  have hzero : dest % 264 = 0 ↔ dest.toNat % 264 = 0 := by
    rw [← hmod, ← BitVec.toNat_inj]
    rfl
  by_cases h0 : dest.toNat % 264 = 0
  · have hlead : leadLength dest size = 0 := by rw [leadLength, if_pos h0]
    have hid : ∀ l : List Chunk, l.map (Chunk.shift 0) = l := by
      intro l
      conv_rhs => rw [← List.map_id l]
      apply List.map_congr_left
      intro c _
      simp [Chunk.shift]
    rw [if_neg (not_not.mpr (hzero.mpr h0)), writePlan, planLength, leadPlan, if_pos h0, hlead]
    simp only [advance, BitVec.ofNat_eq_ofNat, BitVec.add_zero, BitVec.sub_zero, hid, List.nil_append,
      Nat.zero_add]
    exact writePages_spec hw _ _ (hfuel size) b src dest size hb rfl
  · rw [if_pos (fun h => h0 (hzero.mp h)), wp_bind]
    have hlen : (if size < 264 - dest % 264 then size else 264 - dest % 264) =
        BitVec.ofNat 32 (leadLength dest size) := by
      have hsub : (264 - dest % 264).toNat = 264 - dest.toNat % 264 := by
        rw [BitVec.toNat_sub, hmod]
        have := Nat.mod_lt dest.toNat (by omega : 0 < 264)
        simp only [show (264 : Word).toNat = 264 from rfl]
        omega
      apply BitVec.eq_of_toNat_eq
      have hlt := size.isLt
      rw [BitVec.toNat_ofNat, leadLength, if_neg h0]
      simp only [BitVec.lt_def, hsub]
      split <;> omega
    have hn : leadLength dest size ≤ 264 := by
      rw [leadLength, if_neg h0]
      omega
    have hnat : (BitVec.ofNat 32 (leadLength dest size)).toNat = leadLength dest size := by
      rw [BitVec.toNat_ofNat, Nat.mod_eq_of_lt (by omega)]
    rw [hlen]
    apply wp_post (writePart_spec hw hb (by omega))
    rintro good t ⟨rfl, hwr⟩
    rw [if_pos rfl]
    apply wp_post (writePages_spec hw _ _ (hfuel _) t _ _ _ hwr.installed rfl)
    rintro r u ⟨hr', hwr'⟩
    constructor
    · exact hr'
    rw [hnat] at hwr
    have hle := planLength_le (size - BitVec.ofNat 32 (leadLength dest size))
    have hsub := sub_lead_toNat dest size
    have hlt := size.isLt
    rw [writePlan, planLength, leadPlan, if_neg h0]
    exact hwr.append hwr' (by omega)

theorem dataFlashWrite_rejected {wait : Driver Word} {b : Board} (hb : Installed b)
    {src dest size : Word} (hr : rangeError at45db041Features dest size = true) :
    dataFlashWrite wait src dest size b = .ok dataflashMemoryOverflow b := by
  have h : wp (dataFlashWrite wait src dest size)
      (fun r t => r = dataflashMemoryOverflow ∧ t = b) never b := by
    simp only [dataFlashWrite, wp_bind, wp_get, hb.device, if_pos hr, wp_pure, and_self]
  obtain ⟨r, t, hx, rfl, rfl⟩ := wp_never.mp h
  exact hx

end Armboard.DataFlash
