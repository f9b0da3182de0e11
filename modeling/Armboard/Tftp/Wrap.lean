import Armboard.Tftp.Turns
import Mathlib.Tactic.LinearCombination

/-! # Files beyond the sequence numbers

The number of a block has 16 bits and wraps around, and `TftpHandler` adds a whole round to
its offset at every block with number 0. So a file of any length finds its place where the
blocks come in order and none of those is heard twice.
-/

namespace Armboard.Tftp
open Env Exec Net Storage

variable {file : List Byte} {blk n : ℕ} {p : Word} {c₀ c : Client}

/-- Packets from the `n`-th block to the `m`-th: each brings the next block or the last one once more,
unless its number is 0. Behind each stands the rest of the buffer. -/
def InOrder : ℕ → List (ℕ × List Byte) → ℕ → Prop
  | n, [], m => n = m
  | n, l :: ls, m => (l.1 = n + 1 ∨ l.1 = n ∧ n % 0x10000 ≠ 0) ∧ InOrder l.1 ls m

theorem InOrder.cons {l : ℕ × List Byte} {ls : List (ℕ × List Byte)} {m : ℕ}
    (hl : l.1 = n + 1 ∨ l.1 = n ∧ n % 0x10000 ≠ 0) (h : InOrder l.1 ls m) : InOrder n (l :: ls) m :=
  ⟨hl, h⟩

theorem InOrder.le {ls : List (ℕ × List Byte)} {m : ℕ} (h : InOrder n ls m) : n ≤ m := by
  induction ls generalizing n with
  | nil => exact le_of_eq h
  | cons l ls ih =>
    have hle := ih h.2
    cases h.1 with
    | inl hnext => omega
    | inr hsame => omega

/-- The packet of block `l.1`, counted from 1, at the client. -/
def hearBlock (file : List Byte) (blk : ℕ) (p : Word) (c : Client) (l : ℕ × List Byte) : Client :=
  tftpHandler (dataPacket file blk (l.1 - 1) ++ l.2) c.ourPort p
    (BitVec.ofNat 32 (dataPacket file blk (l.1 - 1)).length) c

structure Filled (file : List Byte) (blk : ℕ) (c₀ : Client) (n : ℕ) (c : Client) : Prop where
  loadAddr : c.loadAddr = c₀.loadAddr
  blkSize : c.blkSize.toNat = blk
  area : ∀ i < 2 ^ 32, c.area i = if i < min (n * blk) file.length then file.getD i 0 else c₀.area i
  size : c.netBootFileXferSize.toNat = min (n * blk) file.length

structure Steady (file : List Byte) (blk : ℕ) (p : Word) (c₀ : Client) (n : ℕ) (c : Client) : Prop
    extends Filled file blk c₀ n c where
  state : c.state = .data
  serverPort : c.serverPort = p
  lastBlock : c.lastBlock = BitVec.ofNat 32 (n % 0x10000)
  wrap : c.blockWrapOffset = BitVec.ofNat 32 (n / 0x10000 * (0x10000 * blk))
  running : n ≤ file.length / blk → c.netState = .netloopContinue
  success : n = file.length / blk + 1 → c.netState = .netloopSuccess

/-- A number and the rounds before it make an offset. -/
theorem round_offset (r b q n : Word) (h : n + 1 = 0x10000 * q + r) :
    (r - 1) * b + q * (0x10000 * b) = n * b := by
  linear_combination -b * h

theorem block_offset (n : ℕ) {b : BitVec 16} (hb : b.toNat = blk) :
    (BitVec.ofNat 32 ((n + 1) % 0x10000) - 1) * b.setWidth 32 +
      BitVec.ofNat 32 ((n + 1) / 0x10000 * (0x10000 * blk)) = BitVec.ofNat 32 (n * blk) := by
  have hsize : b.setWidth 32 = BitVec.ofNat 32 blk := by
    rw [← hb]
    exact (BitVec.ofNat_toNat 32 b).symm
  have hn := congrArg (BitVec.ofNat 32) (Nat.div_add_mod (n + 1) 0x10000)
  rw [hsize]
  simp only [BitVec.ofNat_add, BitVec.ofNat_mul] at hn ⊢
  exact round_offset _ _ _ _ hn.symm

theorem Filled.next (h : Filled file blk c₀ n c) (hblk : 0 < blk) (hfile : file.length < 2 ^ 32)
    (hn : n ≤ file.length / blk) (hnet : c.netState = .netloopContinue) (hstate : c.state = .data)
    (hport : c.serverPort = p) (hblock : c.block = BitVec.ofNat 32 ((n + 1) % 0x10000))
    (hlast : c.block ≠ c.lastBlock)
    (hwrap : c.blockWrapOffset = BitVec.ofNat 32 ((n + 1) / 0x10000 * (0x10000 * blk)))
    (rest : List Byte) : Steady file blk p c₀ (n + 1) (tftpNextBlock (fileBlock file blk n ++ rest)
      (BitVec.ofNat 32 (fileBlock file blk n).length) c) := by
  have hend := fileBlock_end hn
  have hmul := Nat.mul_le_mul_right blk hn
  have hdiv := Nat.div_mul_le_self file.length blk
  have hoff : (c.block - 1) * c.blkSize.setWidth 32 + c.blockWrapOffset =
      BitVec.ofNat 32 (n * blk) := by
    rw [hblock, hwrap]
    exact block_offset n h.blkSize
  have hfilled : Filled file blk c₀ (n + 1) (storeBlock (c.block - 1) (fileBlock file blk n ++ rest)
      (BitVec.ofNat 32 (fileBlock file blk n).length)
      { c with lastBlock := c.block, timeHandler := some .tftpTimeout }) := by
    refine ⟨h.loadAddr, h.blkSize, ?_, ?_⟩
    · intro i hi
      have hold := h.area i hi
      rw [Nat.min_eq_left (by omega)] at hold
      refine (area_storeBlock_file (c := { c with
        lastBlock := c.block, timeHandler := some .tftpTimeout }) hoff hn hfile rest hi).trans ?_
      rw [hend, show Client.area { c with
        lastBlock := c.block, timeHandler := some .tftpTimeout } i = c.area i from rfl, hold]
      grind
    · have hold := h.size
      rw [Nat.min_eq_left (by omega)] at hold
      refine (size_storeBlock (c := { c with
        lastBlock := c.block, timeHandler := some .tftpTimeout }) hoff (by omega) _).trans ?_
      rw [show ({ c with lastBlock := c.block, timeHandler := some .tftpTimeout } :
        Client).netBootFileXferSize = c.netBootFileXferSize from rfl, hold]
      omega
  have hshort : BitVec.ofNat 32 (fileBlock file blk n).length < c.blkSize.setWidth 32 ↔
      n = file.length / blk := by
    have hlt := c.blkSize.isLt
    rw [← fileBlock_short hblk hn, BitVec.lt_def, BitVec.toNat_ofNat, BitVec.toNat_setWidth,
      Nat.mod_eq_of_lt (by omega), Nat.mod_eq_of_lt (by omega), h.blkSize]
  rw [tftpNextBlock, if_neg hlast]
  by_cases hs : BitVec.ofNat 32 (fileBlock file blk n).length < c.blkSize.setWidth 32
  · have heq := hshort.mp hs
    exact (if_pos hs).symm ▸ ⟨⟨hfilled.loadAddr, hfilled.blkSize, hfilled.area, hfilled.size⟩, hstate,
      hport, hblock, hwrap, fun hle => by omega, fun _ => rfl⟩
  · have hne : n ≠ file.length / blk := fun heq => hs (hshort.mpr heq)
    exact (if_neg hs).symm ▸ ⟨⟨hfilled.loadAddr, hfilled.blkSize, hfilled.area, hfilled.size⟩, hstate,
      hport, hblock, hwrap, fun _ => hnet, fun heq => by omega⟩

/-! ## One packet -/

theorem countBlock_of_zero (h : c.block = 0) : ∃ wrap output, countBlock c =
    { c with
      blockWrap := wrap, output := output
      blockWrapOffset := c.blockWrapOffset + c.blkSize.setWidth 32 * 0x10000 } :=
  ⟨_, _, if_pos h⟩

theorem hearBlock_eq {k : ℕ} {rest : List Byte} (hblk : blk < 0x10000)
    (hsrc : c.state = .rrq ∨ p = c.serverPort) : hearBlock file blk p c (k + 1, rest) =
      tftpData (htons (BitVec.ofNat 32 (k + 1)) ++ (fileBlock file blk k ++ rest)) p
        (BitVec.ofNat 32 (fileBlock file blk k).length) c := by
  have hlen : ¬ BitVec.ofNat 32 (dataPacket file blk k).length < 2 := by
    have hlength : (dataPacket file blk k).length = (fileBlock file blk k).length + 4 := by
      simp only [dataPacket, List.length_append, htons_length]
      omega
    rw [hlength, BitVec.lt_def, BitVec.toNat_ofNat, fileBlock_length, Nat.mod_eq_of_lt (by omega)]
    exact Nat.not_lt.mpr (Nat.le_add_left 2 _)
  rw [← tftpReceive_dataPacket hblk]
  exact tftpHandler_reaches ⟨dataPacket file blk k ++ rest, c.ourPort, p,
    BitVec.ofNat 32 (dataPacket file blk k).length⟩ rfl hsrc hlen

theorem ntohs_number (k : ℕ) (l : List Byte) :
    ntohs (htons (BitVec.ofNat 32 (k + 1)) ++ l) = BitVec.ofNat 32 ((k + 1) % 0x10000) := by
  rw [ntohs_htons_mod, BitVec.toNat_ofNat, Nat.mod_mod_of_dvd _ (by decide)]

theorem tftpData_data {src : List Byte} {k : ℕ} {len : Word} (hstate : c.state = .data) :
    tftpData (htons (BitVec.ofNat 32 (k + 1)) ++ src) p len c = tftpNextBlock src len
      (countBlock { c with block := BitVec.ofNat 32 ((k + 1) % 0x10000) }) := by
  have hcount : (countBlock { c with
      block := BitVec.ofNat 32 ((k + 1) % 0x10000) }).state = .data := by
    by_cases h0 : BitVec.ofNat 32 ((k + 1) % 0x10000) = 0
    · obtain ⟨_, _, hc⟩ := countBlock_of_zero (c := { c with
        block := BitVec.ofNat 32 ((k + 1) % 0x10000) }) h0
      rw [hc]
      exact hstate
    · obtain ⟨_, hc⟩ := countBlock_of_ne (c := { c with
        block := BitVec.ofNat 32 ((k + 1) % 0x10000) }) h0
      rw [hc]
      exact hstate
  simp only [tftpData, ntohs_number, hcount]
  rfl

theorem ofNat_number_ne_zero {k : ℕ} (h : k % 0x10000 ≠ 0) : BitVec.ofNat 32 (k % 0x10000) ≠ 0 := by
  intro h0
  have hnat := congrArg BitVec.toNat h0
  rw [BitVec.toNat_ofNat, Nat.mod_eq_of_lt (by omega)] at hnat
  exact h hnat

theorem Steady.again (h : Steady file blk p c₀ n c) (hblk : blk < 0x10000) (hn : n % 0x10000 ≠ 0)
    (rest : List Byte) : Steady file blk p c₀ n (hearBlock file blk p c (n, rest)) := by
  obtain ⟨k, rfl⟩ : ∃ k, n = k + 1 := ⟨n - 1, by omega⟩
  obtain ⟨output, hcount⟩ := countBlock_of_ne (c := { c with
    block := BitVec.ofNat 32 ((k + 1) % 0x10000) }) (ofNat_number_ne_zero hn)
  rw [hearBlock_eq hblk (.inr h.serverPort.symm), tftpData_data h.state, hcount, tftpNextBlock,
    if_pos h.lastBlock.symm]
  exact ⟨⟨h.loadAddr, h.blkSize, h.area, h.size⟩, h.state, h.serverPort, h.lastBlock, h.wrap,
    h.running, h.success⟩

theorem Steady.after (h : Steady file blk p c₀ n c) (hblk : blk < 0x10000) (hpos : 0 < blk)
    (hfile : file.length < 2 ^ 32) (hn : n ≤ file.length / blk) (rest : List Byte) :
    Steady file blk p c₀ (n + 1) (hearBlock file blk p c (n + 1, rest)) := by
  have hne : BitVec.ofNat 32 ((n + 1) % 0x10000) ≠ c.lastBlock := by
    rw [h.lastBlock]
    intro heq
    have hnat := congrArg BitVec.toNat heq
    rw [BitVec.toNat_ofNat, BitVec.toNat_ofNat, Nat.mod_eq_of_lt (by omega),
      Nat.mod_eq_of_lt (by omega)] at hnat
    omega
  have hnet := h.running hn
  rw [hearBlock_eq hblk (.inr h.serverPort.symm), tftpData_data h.state]
  by_cases h0 : (n + 1) % 0x10000 = 0
  · obtain ⟨wrap, output, hcount⟩ := countBlock_of_zero (c := { c with
      block := BitVec.ofNat 32 ((n + 1) % 0x10000) }) (by rw [h0]; rfl)
    rw [hcount]
    refine Filled.next ?_ hpos hfile hn ?_ ?_ ?_ ?_ ?_ ?_ rest
    · exact ⟨h.loadAddr, h.blkSize, h.area, h.size⟩
    · exact hnet
    · exact h.state
    · exact h.serverPort
    · rfl
    · exact hne
    have hround : (n + 1) / 0x10000 = n / 0x10000 + 1 := by omega
    have hsize : c.blkSize.setWidth 32 = BitVec.ofNat 32 blk := by
      rw [← h.blkSize]
      exact (BitVec.ofNat_toNat 32 c.blkSize).symm
    rw [hround, Nat.add_one_mul, BitVec.ofNat_add, ← h.wrap, Nat.mul_comm 0x10000, BitVec.ofNat_mul,
      ← hsize]
    rfl
  · obtain ⟨output, hcount⟩ := countBlock_of_ne (c := { c with
      block := BitVec.ofNat 32 ((n + 1) % 0x10000) }) (ofNat_number_ne_zero h0)
    rw [hcount]
    refine Filled.next ?_ hpos hfile hn ?_ ?_ ?_ ?_ ?_ ?_ rest
    · exact ⟨h.loadAddr, h.blkSize, h.area, h.size⟩
    · exact hnet
    · exact h.state
    · exact h.serverPort
    · rfl
    · exact hne
    have hround : (n + 1) / 0x10000 = n / 0x10000 := by omega
    rw [hround]
    exact h.wrap

theorem steady_first (hblk : c.blkSize.toNat = blk) (hpos : 0 < blk) (hfile : file.length < 2 ^ 32)
    (hstate : c.state = .rrq ∨ c.state = .oack ∧ p = c.serverPort)
    (hnet : c.netState = .netloopContinue) (hsize : c.netBootFileXferSize = 0) (rest : List Byte) :
    Steady file blk p c 1 (hearBlock file blk p c (1, rest)) := by
  have hlt := c.blkSize.isLt
  obtain ⟨output, hcount⟩ := countBlock_of_ne (c := { c with
    block := BitVec.ofNat 32 ((0 + 1) % 0x10000) }) (by exact ofNat_number_ne_zero (by decide))
  have hone : ¬ BitVec.ofNat 32 ((0 + 1) % 0x10000) ≠ 1 := by decide
  rw [hearBlock_eq (by omega) (hstate.imp id fun ho => ho.2)]
  simp only [tftpData, ntohs_number, hcount]
  rw [if_pos (hstate.imp id fun ho => ho.1), if_neg hone]
  refine Filled.next ?_ hpos hfile (Nat.zero_le _) ?_ ?_ ?_ ?_ ?_ ?_ rest
  · refine ⟨rfl, hblk, ?_, ?_⟩
    · intro i _
      rw [Nat.zero_mul, Nat.zero_min, if_neg (Nat.not_lt_zero i)]
      rfl
    · rw [Nat.zero_mul, Nat.zero_min]
      exact congrArg BitVec.toNat hsize
  · exact hnet
  · rfl
  · rfl
  · rfl
  · exact ofNat_number_ne_zero (k := 1) (by decide)
  · have hround : (0 + 1) / 0x10000 * (0x10000 * blk) = 0 := Nat.zero_mul _
    rw [hround]
    rfl

/-! ## Many packets -/

theorem Steady.run {ls : List (ℕ × List Byte)} {m : ℕ} (hpos : 0 < blk) (hblk : blk < 0x10000)
    (hfile : file.length < 2 ^ 32) (h : Steady file blk p c₀ n c) (hls : InOrder n ls m)
    (hm : m ≤ file.length / blk + 1) :
    Steady file blk p c₀ m (ls.foldl (hearBlock file blk p) c) := by
  induction ls generalizing n c with
  | nil =>
    have hnm : n = m := hls
    exact hnm ▸ h
  | cons l ls ih =>
    obtain ⟨j, rest⟩ := l
    have hle := hls.2.le
    cases hls.1 with
    | inl hnext =>
      have hj : j = n + 1 := hnext
      subst hj
      exact ih (h.after hblk hpos hfile (by omega) rest) hls.2
    | inr hsame =>
      have hj : j = n := hsame.1
      subst hj
      exact ih (h.again hblk hsame.2 rest) hls.2

/-- A file of any length is loaded from its blocks in order. -/
theorem hearBlocks_loaded (file : List Byte) (hfile : file.length < 2 ^ 32) (blk : ℕ) (p : Word)
    (c : Client) (hblk : c.blkSize.toNat = blk) (hpos : 0 < blk)
    (hstate : c.state = .rrq ∨ c.state = .oack ∧ p = c.serverPort)
    (hnet : c.netState = .netloopContinue) (hsize : c.netBootFileXferSize = 0)
    (ls : List (ℕ × List Byte)) (m : ℕ) (hls : InOrder 0 ls m) (hm : m ≤ file.length / blk + 1) :
    let c' := ls.foldl (hearBlock file blk p) c
    (m = file.length / blk + 1 ↔ c'.netState = .netloopSuccess) ∧
      c'.netBootFileXferSize.toNat = min (m * blk) file.length ∧
      ∀ i < 2 ^ 32, view c'.mem c.loadAddr i =
        if i < min (m * blk) file.length then file.getD i 0 else view c.mem c.loadAddr i := by
  cases ls with
  | nil =>
    have h0 : 0 = m := hls
    subst h0
    refine ⟨⟨fun h => absurd h (Nat.succ_ne_zero _).symm, fun h => ?_⟩, ?_, ?_⟩
    · exact NetState.noConfusion (hnet.symm.trans h)
    · rw [Nat.zero_mul, Nat.zero_min]
      exact congrArg BitVec.toNat hsize
    · intro i _
      rw [Nat.zero_mul, Nat.zero_min, if_neg (Nat.not_lt_zero i)]
      rfl
  | cons l ls =>
    obtain ⟨j, rest⟩ := l
    have hj : j = 1 := by
      cases hls.1 with
      | inl hnext => exact hnext
      | inr hsame => exact absurd rfl hsame.2
    subst hj
    have hlt := c.blkSize.isLt
    have h := (steady_first (p := p) hblk hpos hfile hstate hnet hsize rest).run hpos (by omega) hfile
      hls.2 hm
    refine ⟨⟨h.success, fun hs => ?_⟩, h.size, ?_⟩
    · by_contra hne
      exact NetState.noConfusion ((h.running (by omega)).symm.trans hs)
    · intro i hi
      have harea := h.area i hi
      rw [Client.area, h.loadAddr] at harea
      exact harea

theorem inOrder_range (n k : ℕ) :
    InOrder n ((List.range' (n + 1) k).map fun j => (j, [])) (n + k) := by
  induction k generalizing n with
  | zero => rfl
  | succ k ih =>
    rw [List.range'_succ, List.map_cons]
    refine InOrder.cons (.inl rfl) ?_
    rw [Nat.add_comm k 1, ← Nat.add_assoc]
    exact ih (n + 1)

/-- A client that was told blocks of one byte. -/
def byteClient : Client := { Client.initial with state := .oack, serverPort := 7, blkSize := 1 }

def manyBytes : List Byte := List.replicate 0x10000 5

/-- The file in blocks of one byte: the first comes twice, and the last one is empty. -/
def manyBlocks : List (ℕ × List Byte) :=
  (1, []) :: (1, [0xff]) :: (List.range' 2 0x10000).map fun j => (j, [])

theorem manyBytes_length : manyBytes.length = 0x10000 := List.length_replicate

theorem manyBlocks_inOrder : InOrder 0 manyBlocks (1 + 0x10000) :=
  .cons (.inl rfl) (.cons (.inr ⟨rfl, by decide⟩) (inOrder_range 1 0x10000))

/-- The numbers wrap around once. -/
theorem hearBlocks_loaded_wrapped :
    (manyBlocks.foldl (hearBlock manyBytes 1 7) byteClient).netState = .netloopSuccess ∧
    (manyBlocks.foldl (hearBlock manyBytes 1 7) byteClient).netBootFileXferSize.toNat = 0x10000 ∧
    view (manyBlocks.foldl (hearBlock manyBytes 1 7) byteClient).mem 0x21000000 0xffff = 5 := by
  have hblocks : 1 + 0x10000 = manyBytes.length / 1 + 1 := by
    rw [manyBytes_length, Nat.div_one, Nat.add_comm]
  have hmin : min ((1 + 0x10000) * 1) manyBytes.length = 0x10000 := by
    rw [manyBytes_length]
    rfl
  have hshort : manyBytes.length < 2 ^ 32 := by
    rw [manyBytes_length]
    decide
  obtain ⟨hstate, hsize, hbyte⟩ := hearBlocks_loaded manyBytes hshort 1 7 byteClient rfl
    Nat.one_pos (.inr ⟨rfl, rfl⟩) rfl rfl manyBlocks _ manyBlocks_inOrder hblocks.le
  have hlast := hbyte 0xffff (by decide)
  rw [hmin] at hsize hlast
  refine ⟨hstate.mp hblocks, hsize, hlast.trans ((if_pos (by decide)).trans ?_)⟩
  exact List.getD_replicate _ (by decide)

end Armboard.Tftp
