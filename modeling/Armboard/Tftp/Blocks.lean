import Armboard.Tftp.Session

/-! # A block comes in

A block of the file goes to its place, or came before and changes nothing. The short block at
the end finds all others stored.
-/

namespace Armboard.Tftp
open Env Exec Net Storage

variable {file : List Byte} {port : Word} {c₀ : Client} {transfers : Word → Option (Transfer file)}
  {t : Transfer file} {c : Client}

/-! ## Storing a block -/

section Store
variable {a : Answer file} {k : ℕ}

theorem area_storeBlock {block : Word} {o n i : ℕ}
    (hoff : block * c.blkSize.setWidth 32 + c.blockWrapOffset = BitVec.ofNat 32 o)
    (hfit : o + n < 2 ^ 32) (src : List Byte) (hi : i < 2 ^ 32) :
    (storeBlock block src (BitVec.ofNat 32 n) c).area i =
      if o ≤ i ∧ i < o + n then src.getD (i - o) 0 else c.area i := by
  have hlen : (BitVec.ofNat 32 n).toNat = n := by
    rw [BitVec.toNat_ofNat, Nat.mod_eq_of_lt (by omega)]
  rw [Client.area, storeBlock, hoff, hlen]
  by_cases h0 : n = 0
  · have hout : ¬ (o ≤ i ∧ i < o + n) := by omega
    rw [if_neg hout, h0]
    exact congrArg (fun m => view m c.loadAddr i) (store_zero c.mem
      (c.loadAddr + BitVec.ofNat 32 o) fun j => src.getD j 0)
  · exact view_store_at c.mem c.loadAddr (fun j => src.getD j 0) hfit.le (Nat.pos_of_ne_zero h0) hi

theorem size_storeBlock {block : Word} {o n : ℕ}
    (hoff : block * c.blkSize.setWidth 32 + c.blockWrapOffset = BitVec.ofNat 32 o)
    (hfit : o + n < 2 ^ 32) (src : List Byte) :
    (storeBlock block src (BitVec.ofNat 32 n) c).netBootFileXferSize.toNat =
      max c.netBootFileXferSize.toNat (o + n) := by
  have hnew : (BitVec.ofNat 32 o + BitVec.ofNat 32 n).toNat = o + n := by
    rw [← BitVec.ofNat_add, BitVec.toNat_ofNat, Nat.mod_eq_of_lt hfit]
  simp only [storeBlock, hoff, BitVec.lt_def, hnew]
  split
  · rw [hnew]
    omega
  · omega

theorem area_storeBlock_file {block : Word} {blk k i : ℕ}
    (hoff : block * c.blkSize.setWidth 32 + c.blockWrapOffset = BitVec.ofNat 32 (k * blk))
    (hk : k ≤ file.length / blk) (hfile : file.length < 2 ^ 32) (rest : List Byte) (hi : i < 2 ^ 32) :
    (storeBlock block (fileBlock file blk k ++ rest) (BitVec.ofNat 32 (fileBlock file blk k).length)
        c).area i =
      if k * blk ≤ i ∧ i < k * blk + (fileBlock file blk k).length then file.getD i 0
      else c.area i := by
  have hend := fileBlock_end_le hk
  rw [area_storeBlock hoff (by omega) _ hi]
  split
  · rename_i hin
    have hlt : i - k * blk < (fileBlock file blk k).length := by omega
    have hget := fileBlock_getD hlt
    rw [Nat.add_sub_cancel' hin.1] at hget
    rw [List.getD_append _ _ _ _ hlt, hget]
  · rfl

theorem storeBlock_offset (hblk : c.blkSize.toNat = a.blk) (hwrap : c.blockWrapOffset = 0) :
    BitVec.ofNat 32 k * c.blkSize.setWidth 32 + c.blockWrapOffset = BitVec.ofNat 32 (k * a.blk) := by
  have hsize : c.blkSize.setWidth 32 = BitVec.ofNat 32 a.blk := by
    rw [← hblk]
    exact (BitVec.ofNat_toNat 32 c.blkSize).symm
  rw [hwrap, hsize, ← BitVec.ofNat_mul]
  exact BitVec.add_zero _

/-- What is in place stays in place when more of the file comes in. -/
theorem Stored.mono {f f' : ℕ → Byte} {j : ℕ} (h : Stored a f j)
    (hf : ∀ i < file.length, f i = file.getD i 0 → f' i = file.getD i 0) : Stored a f' j := by
  cases j with
  | zero => trivial
  | succ j =>
    intro i hi
    have hi' := hi
    rw [Answer.block, fileBlock_length] at hi'
    exact hf _ (by omega) (h i hi)

theorem Sent.mono {f f' : ℕ → Byte} {p : Word} {d : Datagram} (h : Sent port p a f d)
    (hf : ∀ i < file.length, f i = file.getD i 0 → f' i = file.getD i 0) : Sent port p a f' d := by
  cases h.2 with
  | inl hr => exact ⟨h.1, .inl hr⟩
  | inr ha =>
    obtain ⟨hp, j, hj, hd, hs⟩ := ha
    exact ⟨h.1, .inr ⟨hp, j, hj, hd, hs.mono hf⟩⟩

theorem complete_of_stored {f : ℕ → Byte} (h : ∀ j ≤ a.last, Stored a f j) {i : ℕ}
    (hi : i < file.length) : f i = file.getD i 0 := by
  have hdiv := Nat.div_add_mod i a.blk
  have hmod := Nat.mod_lt i a.blk_pos
  have hle : i / a.blk + 1 ≤ a.last := Nat.succ_le_succ (Nat.div_le_div_right hi.le)
  have hcomm := Nat.mul_comm a.blk (i / a.blk)
  have hblock := h _ hle (i % a.blk) (by rw [Answer.block, fileBlock_length]; omega)
  rw [← hcomm, hdiv] at hblock
  exact hblock

end Store

/-! ## Blocks at the client -/

/-- The client in a running loop, about to look at block `k + 1` of the transfer it listens to. -/
structure Offered (port : Word) (c₀ : Client) (transfers : Word → Option (Transfer file))
    (t : Transfer file) (k : ℕ) (c : Client) : Prop
    extends Bounded file port c₀ c, Ready port transfers t c where
  running : c.netState = .netloopContinue
  state : c.state = .data
  block : c.block = BitVec.ofNat 32 (k + 1)
  sent_before : k + 1 ≤ t.pos
  pos_le : t.pos ≤ t.answer.last
  wrap : c.blockWrapOffset = 0
  lastBlock : c.lastBlock = 0 ∨ ∃ j < t.answer.last, c.lastBlock = BitVec.ofNat 32 j ∧
    Stored t.answer c.area j ∧ Acknowledged c j

theorem Offered.le_last {k : ℕ} (h : Offered port c₀ transfers t k c) : k + 1 ≤ t.answer.last :=
  h.sent_before.trans h.pos_le

theorem Offered.lt {k : ℕ} (h : Offered port c₀ transfers t k c) : k + 1 < 0x10000 :=
  h.le_last.trans_lt t.answer.blocks_lt

theorem Offered.block_ne_zero {k : ℕ} (h : Offered port c₀ transfers t k c) : c.block ≠ 0 := by
  intro h0
  have hz := congrArg BitVec.toNat (h.block.symm.trans h0)
  have hlt := h.lt
  rw [BitVec.toNat_ofNat, Nat.mod_eq_of_lt (by omega)] at hz
  cases hz

theorem Offered.repeated {k : ℕ} (h : Offered port c₀ transfers t k c)
    (hsame : c.block = c.lastBlock) : Session port c₀ transfers c := by
  cases h.lastBlock with
  | inl h0 => exact absurd (hsame.trans h0) h.block_ne_zero
  | inr hlast =>
    obtain ⟨j, hlt, hj, hstored, hack⟩ := hlast
    have hpos := h.sent_before
    exact Engaged.session
      ⟨h.toReady, .inl h.state, ⟨j, hlt.trans t.answer.blocks_lt, hsame.trans hj, hstored⟩,
        fun h0 => by omega, fun _ => ⟨h.wrap, j, hlt, hj, hstored, hack⟩⟩
      h.toBounded h.running

theorem Offered.stored {k : ℕ} (h : Offered port c₀ transfers t k c) (rest : List Byte) :
    let len := BitVec.ofNat 32 (t.answer.block k).length
    let c' := storeBlock (c.block - 1) (t.answer.block k ++ rest) len
      { c with lastBlock := c.block, timeHandler := some .tftpTimeout }
    Bounded file port c₀ c' ∧ Ready port transfers t c' ∧ Stored t.answer c'.area (k + 1) ∧
      k * t.answer.blk + (t.answer.block k).length ≤ c'.netBootFileXferSize.toNat := by
  intro len c'
  have hend : k * t.answer.blk + (t.answer.block k).length ≤ file.length :=
    fileBlock_end_le (Nat.le_of_succ_le_succ h.le_last)
  have hfile := t.answer.file_length_lt
  have hk : c.block - 1 = BitVec.ofNat 32 k := by
    rw [h.block, BitVec.ofNat_add]
    exact BitVec.add_sub_cancel _ _
  have hoff : (c.block - 1) * c.blkSize.setWidth 32 + c.blockWrapOffset =
      BitVec.ofNat 32 (k * t.answer.blk) := by
    rw [hk]
    exact storeBlock_offset h.blkSize h.wrap
  have harea : ∀ i < 2 ^ 32, c'.area i = if k * t.answer.blk ≤ i ∧
      i < k * t.answer.blk + (t.answer.block k).length then file.getD i 0 else c.area i :=
    fun i hi => area_storeBlock_file (c := { c with
      lastBlock := c.block, timeHandler := some .tftpTimeout }) hoff
      (Nat.le_of_succ_le_succ h.le_last) hfile rest hi
  have hsize : c'.netBootFileXferSize.toNat = max c.netBootFileXferSize.toNat
      (k * t.answer.blk + (t.answer.block k).length) :=
    size_storeBlock (c := { c with lastBlock := c.block, timeHandler := some .tftpTimeout }) hoff
      (by omega) (t.answer.block k ++ rest)
  have hgrow : ∀ i < file.length, c.area i = file.getD i 0 → c'.area i = file.getD i 0 := by
    intro i hi hc
    rw [harea i (by omega)]
    split
    · rfl
    · exact hc
  have hnew : Stored t.answer c'.area (k + 1) := by
    intro i hi
    rw [harea _ (by omega), if_pos (by omega)]
  refine ⟨⟨h.ourPort, h.loadAddr, ?_, ?_⟩, ⟨h.transfer, h.client, h.blkSize, ?_, ?_⟩, hnew, ?_⟩
  · intro i hi hlt
    rw [harea i hlt, if_neg (by omega)]
    exact h.frame i hi hlt
  · have hold := h.size
    omega
  · intro j hj
    exact (h.before j hj).mono hgrow
  · intro d hd
    exact (h.sent d hd).mono hgrow
  · omega

/-- The short block is the last one, and all others are in place. -/
theorem Offered.complete {k : ℕ} (h : Offered port c₀ transfers t k c) {c' : Client}
    (hb : Bounded file port c₀ c') (hr : Ready port transfers t c')
    (hnew : Stored t.answer c'.area (k + 1))
    (hsize : k * t.answer.blk + (t.answer.block k).length ≤ c'.netBootFileXferSize.toNat)
    (hshort : (t.answer.block k).length < t.answer.blk) : Complete file c' := by
  have hle := Nat.le_of_succ_le_succ h.le_last
  have hdiv := (fileBlock_short t.answer.blk_pos hle).mp hshort
  have hlast : k + 1 = t.answer.last := congrArg (· + 1) hdiv
  have hend := fileBlock_end hle
  have hmul := Nat.lt_div_mul_add (a := file.length) t.answer.blk_pos
  rw [← hdiv] at hmul
  rw [Nat.add_one_mul] at hend
  have hsize' := hb.size
  rw [Answer.block] at hsize
  constructor
  · omega
  · intro i hi
    refine complete_of_stored (a := t.answer) ?_ hi
    intro j hj
    by_cases hjk : j = k + 1
    · rw [hjk]
      exact hnew
    · have hpos := h.sent_before
      exact hr.before j (by omega)

theorem Offered.nextBlock {k : ℕ} (h : Offered port c₀ transfers t k c) (rest : List Byte) :
    Session port c₀ transfers (tftpNextBlock (t.answer.block k ++ rest)
      (BitVec.ofNat 32 (t.answer.block k).length) c) := by
  have hend : k * t.answer.blk + (t.answer.block k).length ≤ file.length :=
    fileBlock_end_le (Nat.le_of_succ_le_succ h.le_last)
  have hfile := t.answer.file_length_lt
  have hlen : (BitVec.ofNat 32 (t.answer.block k).length).toNat = (t.answer.block k).length := by
    rw [BitVec.toNat_ofNat, Nat.mod_eq_of_lt (by omega)]
  by_cases hsame : c.block = c.lastBlock
  · rw [tftpNextBlock, if_pos hsame]
    exact h.repeated hsame
  · obtain ⟨hb, hr, hnew, hsize⟩ := h.stored rest
    have hshort : BitVec.ofNat 32 (t.answer.block k).length < c.blkSize.setWidth 32 ↔
        (t.answer.block k).length < t.answer.blk := by
      have hblk := c.blkSize.isLt
      rw [BitVec.lt_def, hlen, BitVec.toNat_setWidth, Nat.mod_eq_of_lt (by omega), h.blkSize]
    have hblock : ∃ j < 0x10000, c.block = BitVec.ofNat 32 j ∧
        Stored t.answer (storeBlock (c.block - 1) (t.answer.block k ++ rest)
          (BitVec.ofNat 32 (t.answer.block k).length)
          { c with lastBlock := c.block, timeHandler := some .tftpTimeout }).area j :=
      ⟨k + 1, h.lt, h.block, hnew⟩
    have hack := acknowledged_tftpSend (c := storeBlock (c.block - 1) (t.answer.block k ++ rest)
      (BitVec.ofNat 32 (t.answer.block k).length)
      { c with lastBlock := c.block, timeHandler := some .tftpTimeout }) (.inl h.state) h.block
    rw [tftpNextBlock, if_neg hsame]
    by_cases hs : BitVec.ofNat 32 (t.answer.block k).length < c.blkSize.setWidth 32
    · have hc := h.complete hb hr hnew hsize (hshort.mp hs)
      refine (if_pos hs).symm ▸ ⟨⟨hb.ourPort, hb.loadAddr, hb.frame, hb.size⟩, fun _ => hc, ?_⟩
      intro hcont
      cases hcont
    · have hpos := h.sent_before
      have hne : k + 1 ≠ t.answer.last :=
        fun heq => hs (hshort.mpr ((fileBlock_short t.answer.blk_pos
          (Nat.le_of_succ_le_succ h.le_last)).mpr (Nat.succ.inj heq)))
      have hsent : Engaged port transfers t (Tftp.tftpSend (storeBlock (c.block - 1)
          (t.answer.block k ++ rest) (BitVec.ofNat 32 (t.answer.block k).length)
          { c with lastBlock := c.block, timeHandler := some .tftpTimeout })) :=
        ⟨hr.tftpSend hb.ourPort (.inl h.state) hblock, .inl h.state, hblock, fun h0 => by omega,
          fun _ => ⟨h.wrap, k + 1, lt_of_le_of_ne h.le_last hne, h.block, hnew, hack⟩⟩
      exact (if_neg hs).symm ▸ hsent.session ⟨hb.ourPort, hb.loadAddr, hb.frame, hb.size⟩ h.running

end Armboard.Tftp
