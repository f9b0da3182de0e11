import Armboard.Mmc.Polls

/-! # What a read puts into the buffer

Each word of a block is announced by a status word, so the exchange of the block tells
how many words it delivered. What was delivered is followed through the loop over the
words, the loop over the blocks and the two ends of `mmc_bread`, for every point at
which an error stops it.
-/

namespace Armboard.Mmc
open Exec

variable {s t u : Mci} {i m m' : ℕ}

/-! ## Words -/

/-- From `s` to `t` the next `m` data words went to the buffer from `i` on. -/
structure Stored (i m : ℕ) (s t : Mci) : Prop where
  rdr : t.rdr = s.rdr.drop m
  inside : ∀ k < m, t.buffer (i + k) = swab32 (s.rdr.getD k 0)
  outside : ∀ a, a < i ∨ i + m ≤ a → t.buffer a = s.buffer a

theorem SameData.stored (h : SameData s t) : Stored i 0 s t := by
  constructor
  · simpa using h.rdr
  · intro k hk
    omega
  · intro a _
    rw [h.buffer]

theorem Stored.trans (h : Stored i m s t) (h' : Stored (i + m) m' t u) : Stored i (m + m') s u := by
  constructor
  · rw [h'.rdr, h.rdr, List.drop_drop]
  · intro k hk
    by_cases hkm : k < m
    · rw [h'.outside (i + k) (by omega), h.inside k hkm]
    · have hword := h'.inside (k - m) (by omega)
      rw [h.rdr, List.getD_eq_getElem?_getD, List.getElem?_drop, ← List.getD_eq_getElem?_getD,
        show m + (k - m) = k by omega, show i + m + (k - m) = i + k by omega] at hword
      exact hword
  · intro a ha
    rw [h'.outside a (by omega), h.outside a (by omega)]

theorem Stored.word (i : ℕ) (s : Mci) : Stored i 1 s { s with
    rdr := s.rdr.tail, buffer := Function.update s.buffer i (swab32 (s.rdr.headD 0)) } := by
  constructor
  · simp
  · intro k hk
    cases k with
    | zero => simp [List.head?_eq_getElem?]
    | succ k => omega
  · intro a ha
    simp only [Function.update_apply]
    rw [if_neg (by omega)]

/-! ## Status words before a data word -/

def Delivers (p : Place × Word) : Prop :=
  p.1 = .data ∧ p.2 &&& checked p = 0 ∧ p.2 &&& rxrdy ≠ 0

instance (p : Place × Word) : Decidable (Delivers p) := by
  unfold Delivers
  infer_instance

/-- How many data words the status words announced. -/
def delivered (ps : List (Place × Word)) : ℕ := ps.countP fun p => decide (Delivers p)

@[simp] theorem delivered_append (ps qs : List (Place × Word)) :
    delivered (ps ++ qs) = delivered ps + delivered qs := List.countP_append

theorem delivered_eq_zero {ps : List (Place × Word)} (h : ∀ p ∈ ps, p.1 ≠ .data) :
    delivered ps = 0 := by
  apply List.countP_eq_zero.mpr
  intro p hp
  simpa using fun hd : Delivers p => h p hp hd.1

/-- No status word has a flag that was looked for. -/
def Clear (ps : List (Place × Word)) : Prop := ∀ p ∈ ps, p.2 &&& checked p = 0

theorem Clear.append {ps qs : List (Place × Word)} (h : Clear ps) (h' : Clear qs) :
    Clear (ps ++ qs) := List.forall_mem_append.mpr ⟨h, h'⟩

theorem waitData_outcome (n : ℕ) (s : Mci) : wp (waitData n) (fun ready t => SameData s t ∧
    ∃ ps, Polls ps s t ∧ (ready = true → delivered ps = 1 ∧ Clear ps) ∧
      (ready = false → delivered ps = 0 ∧ ¬ Clear ps)) blocked s := by
  induction n generalizing s with
  | zero => trivial
  | succ n ih =>
    rw [waitData, wp_bind]
    apply wp_post (wp_blocked (readStatus_spec .data s) (readStatus_data .data s))
    rintro x t ⟨ht, hdata⟩
    rw [wp_ite, wp_ite]
    split
    · rename_i hdirty
      have hx : ¬ Delivers (.data, x) := fun h => hdirty h.2.1
      refine ⟨hdata, [(.data, x)], ht, by simp, fun _ => ⟨by simp [delivered, hx], ?_⟩⟩
      simpa [Clear, checked] using hdirty
    · rename_i hclean
      have hclear : Clear [(.data, x)] := by simpa [Clear, checked] using hclean
      split
      · rename_i hready
        refine ⟨hdata, [(.data, x)], ht, fun _ => ⟨?_, hclear⟩, by simp⟩
        have hx : Delivers (.data, x) := ⟨rfl, not_not.mp hclean, hready⟩
        simp [delivered, hx]
      · rename_i hready
        have hx : ¬ Delivers (.data, x) := fun h => hready h.2.2
        have hnone : delivered [(.data, x)] = 0 := by simp [delivered, hx]
        apply wp_post (ih t)
        rintro ready u ⟨hdata', ps, hu, hyes, hno⟩
        refine ⟨hdata.trans hdata', ps ++ [(.data, x)], ht.trans hu, fun h => ?_, fun h => ?_⟩
        · rw [delivered_append, hnone, (hyes h).1]
          exact ⟨rfl, (hyes h).2.append hclear⟩
        · rw [delivered_append, hnone, (hno h).1]
          exact ⟨rfl, fun hall => (hno h).2 fun p hp => hall p (List.mem_append_left _ hp)⟩

/-- The words of a block of 512 bytes from the `k`-th on: all of them, or those before an error. -/
theorem receiveWords_outcome (n k : ℕ) (hk : k < 128) (hn : 128 ≤ n + k) (i : ℕ) (s : Mci) :
    wp (receiveWords 512 n (BitVec.ofNat 32 k) i) (fun o t => ∃ m ps, Stored i m s t ∧
      Polls ps s t ∧ delivered ps = m ∧ (∀ b, o = some b → b = i + m ∧ k + m = 128 ∧ Clear ps) ∧
        (o = none → k + m < 128 ∧ ¬ Clear ps)) blocked s := by
  induction n generalizing k i s with
  | zero => omega
  | succ n ih =>
    rw [receiveWords, wp_bind, wp_get, wp_bind]
    apply wp_post (waitData_outcome _ s)
    rintro ready t ⟨hdata, ps, ht, hyes, hno⟩
    cases ready with
    | false =>
      refine ⟨0, ps, hdata.stored, ht, (hno rfl).1, by simp, fun _ => ?_⟩
      exact ⟨hk, (hno rfl).2⟩
    | true =>
      have hone := (hyes rfl).1
      have hclear := (hyes rfl).2
      have hstored : Stored i 1 s _ := hdata.stored.trans (Stored.word i t)
      have hnext : BitVec.ofNat 32 k + 1 = BitVec.ofNat 32 (k + 1) := by
        rw [BitVec.ofNat_add]
        rfl
      have hlt : BitVec.ofNat 32 (k + 1) < (512 : Word) / 4 ↔ k + 1 < 128 := by
        rw [BitVec.lt_def, BitVec.toNat_ofNat, Nat.mod_eq_of_lt (by omega)]
        rfl
      rw [if_pos rfl, readData, wp_bind, wp_bind, wp_get, wp_bind, wp_set, wp_pure, wp_bind, store,
        wp_modify, wp_ite, hnext]
      split
      · rename_i hmore
        apply wp_post (ih (k + 1) (hlt.mp hmore) (by omega) (i + 1) _)
        rintro o u ⟨m, qs, hu, hpolls, hm, hsome, hnone⟩
        refine ⟨1 + m, qs ++ ps, hstored.trans hu, ht.trans ⟨hpolls.exchanges, hpolls.globals⟩, ?_,
          fun b hb => ?_, fun h => ?_⟩
        · rw [delivered_append, hm, hone]
          omega
        · rcases hsome b hb with ⟨hbi, hkm, hqs⟩
          exact ⟨by omega, by omega, hqs.append hclear⟩
        · refine ⟨by have := (hnone h).1; omega, fun hall => (hnone h).2 fun p hp => ?_⟩
          exact hall p (List.mem_append_left _ hp)
      · rename_i hlast
        refine ⟨1, ps, hstored, ⟨ht.exchanges, ht.globals⟩, hone, fun b hb => ?_, by simp⟩
        cases hb
        rw [hlt] at hlast
        exact ⟨rfl, by omega, hclear⟩

/-! ## Blocks -/

def blockArg (s : Mci) (block : Word) : Word :=
  if s.cardIsSdhc = 0 then block * s.blkdev.blksz else block

/-- The request for `block` that delivered `m` words. -/
structure Requested (s : Mci) (block : Word) (m : ℕ) (e : Exchange) : Prop where
  cmd : e.cmd = readSingleBlock
  arg : e.arg = blockArg s block
  delivered : delivered e.polls = m

theorem readBlock_outcome (start : Word) (i : ℕ) (s : Mci) (hblk : s.blkdev.blksz = 512) :
    wp (readBlock start i) (fun o t => t.globals = s.globals ∧ ∃ m e, Stored i m s t ∧
      t.exchanges = e :: s.exchanges ∧ Requested s start m e ∧
        (∀ b, o = some b → b = i + m ∧ m = 128) ∧ (o = none → m < 128 ∧ ¬ Passed e)) blocked s := by
  rw [readBlock, wp_bind, wp_get, wp_bind]
  apply wp_post (mmcCmd_outcome _ _ _ s)
  rintro r t ⟨hdata, e, he, hfailed, ht, hglobals⟩
  have hquiet : delivered e.polls = 0 := by
    apply delivered_eq_zero
    intro p hp
    rw [he.places p hp]
    simp
  rw [wp_ite]
  split
  · rename_i hr
    refine ⟨hglobals, 0, e, hdata.stored, ht, ⟨he.cmd, he.arg, hquiet⟩, by simp, fun _ => ?_⟩
    exact ⟨by omega, hfailed hr⟩
  rw [hblk, wp_bind]
  apply wp_post (receiveWords_outcome _ 0 (by omega) (by decide) i t)
  rintro o u ⟨m, ps, hstored, hu, hm, hsome, hnone⟩
  have hexchanges := hu.exchanges
  rw [ht, addPolls] at hexchanges
  have hcount : delivered (ps ++ e.polls) = m := by rw [delivered_append, hm, hquiet, Nat.add_zero]
  have hall : Stored i m s u := by simpa using hdata.stored.trans hstored
  cases o with
  | none =>
    refine ⟨hu.globals.trans hglobals, m, _, hall, hexchanges, ⟨he.cmd, he.arg, hcount⟩, by simp,
      fun _ => ⟨by have := (hnone rfl).1; omega, fun hpassed => (hnone rfl).2 fun p hp => ?_⟩⟩
    exact hpassed p (List.mem_append_left _ hp)
  | some b =>
    rcases hsome b rfl with ⟨rfl, h128, -⟩
    rw [waitStatus, wp_bind, wp_bind, wp_get]
    apply wp_post (wp_blocked (waitFor_spec .completion blke _ u) (waitFor_data _ _ _ u))
    rintro w v ⟨⟨-, vs, -, hv⟩, hdata'⟩
    have hexchanges' := hv.exchanges
    rw [hexchanges, addPolls] at hexchanges'
    refine ⟨hv.globals.trans (hu.globals.trans hglobals), m, _, ?_, hexchanges',
      ⟨he.cmd, he.arg, ?_⟩, fun b' hb' => ?_, by simp⟩
    · exact hall.trans hdata'.stored
    · rw [delivered_append, hcount, delivered_eq_zero, Nat.zero_add]
      exact List.forall_mem_map.mpr fun _ _ => by simp
    · cases hb'
      exact ⟨rfl, by omega⟩

theorem blockArg_congr (h : t.globals = s.globals) (block : Word) :
    blockArg t block = blockArg s block := by
  have hsdhc : t.cardIsSdhc = s.cardIsSdhc := congrArg Globals.cardIsSdhc h
  have hblkdev : t.blkdev = s.blkdev := congrArg Globals.blkdev h
  rw [blockArg, blockArg, hsdhc, hblkdev]

theorem Requested.congr {block : Word} {e : Exchange} (h : t.globals = s.globals)
    (he : Requested t block m e) : Requested s block m e := by
  constructor
  · exact he.cmd
  · rw [he.arg, blockArg_congr h]
  · exact he.delivered

/-- The requests of a loop over `n` blocks from `start` on: those that were read in full, and one of
which `m` words were read before an error. -/
structure Progress (s : Mci) (start : Word) (n : ℕ) (full part : List Exchange) (m : ℕ) :
    Prop where
  blocks : ∀ j e, full[j]? = some e → Requested s (start + BitVec.ofNat 32 j) 128 e
  last : ∀ e ∈ part, Requested s (start + BitVec.ofNat 32 full.length) m e
  last_length : part.length ≤ 1
  total : full.length + part.length ≤ n
  rest : m < 128 ∧ (part = [] → m = 0)

variable {start : Word} {n : ℕ} {full part : List Exchange}

theorem Progress.nil : Progress s start n [] [] 0 := by
  constructor
  · simp
  · simp
  · simp
  · simp
  · simp

theorem Progress.stop {e : Exchange} (he : Requested s start m e) (hm : m < 128) :
    Progress s start (n + 1) [] [e] m := by
  constructor
  · simp
  · simpa using he
  · simp
  · simp
  · simpa using hm

theorem Progress.cons {e : Exchange} (he : Requested s start 128 e)
    (h : Progress s (start + 1) n full part m) : Progress s start (n + 1) (e :: full) part m := by
  have hnext : ∀ j, start + 1 + BitVec.ofNat 32 j = start + BitVec.ofNat 32 (j + 1) := by
    intro j
    rw [BitVec.ofNat_add, BitVec.add_assoc, BitVec.add_comm 1]
    rfl
  constructor
  · intro j x hx
    cases j with
    | zero =>
      cases hx
      simpa using he
    | succ j =>
      rw [← hnext]
      exact h.blocks j x hx
  · intro x hx
    rw [List.length_cons, ← hnext]
    exact h.last x hx
  · exact h.last_length
  · have htotal := h.total
    rw [List.length_cons]
    omega
  · exact h.rest

theorem Progress.congr (hglobals : t.globals = s.globals) (h : Progress t start n full part m) :
    Progress s start n full part m := by
  constructor
  · exact fun j e he => (h.blocks j e he).congr hglobals
  · exact fun e he => (h.last e he).congr hglobals
  · exact h.last_length
  · exact h.total
  · exact h.rest

/-- A request is one of the blocks that were read in full, or the one that was not. -/
theorem Progress.requested (h : Progress s start n full part m) {j : ℕ} {e : Exchange}
    (he : (full ++ part)[j]? = some e) : j < n ∧ e.arg = blockArg s (start + BitVec.ofNat 32 j) := by
  have htotal := h.total
  by_cases hj : j < full.length
  · rw [List.getElem?_append_left hj] at he
    exact ⟨by omega, (h.blocks j e he).arg⟩
  · rw [List.getElem?_append_right (by omega)] at he
    have hlast := h.last_length
    have hlt : j - full.length < part.length := (List.getElem?_eq_some_iff.mp he).1
    have heq : j = full.length := by omega
    subst j
    exact ⟨by omega, (h.last e (List.mem_of_getElem? he)).arg⟩

theorem Progress.beyond (h : Progress s start n full part m)
    (hstored : Stored 0 (128 * full.length + m) s t) {a : ℕ}
    (ha : 128 * min (full.length + 1) n ≤ a) : t.buffer a = s.buffer a := by
  apply hstored.outside
  have htotal := h.total
  by_cases hpart : part = []
  · have hm := h.rest.2 hpart
    omega
  · have hpos := List.length_pos_of_ne_nil hpart
    have hm := h.rest.1
    omega

theorem readBlocks_outcome (n : ℕ) (count start : Word) (i : ℕ) (s : Mci)
    (hblk : s.blkdev.blksz = 512) : wp (readBlocks n count start i) (fun o t => ∃ full part m,
      Progress s start n full part m ∧ Stored i (128 * full.length + m) s t ∧
        t.exchanges = (full ++ part).reverse ++ s.exchanges ∧
        o.1 = count + BitVec.ofNat 32 full.length ∧ (o.2 = false → full.length = n) ∧
        (o.2 = true → ∃ e ∈ part, ¬ Passed e)) blocked s := by
  induction n generalizing count start i s with
  | zero => exact ⟨[], [], 0, Progress.nil, (SameData.refl s).stored, rfl, by simp, by simp, by simp⟩
  | succ n ih =>
    rw [readBlocks, wp_bind]
    apply wp_post (readBlock_outcome start i s hblk)
    rintro o t ⟨hglobals, m, e, hstored, ht, he, hsome, hnone⟩
    cases o with
    | none =>
      refine ⟨[], [e], m, Progress.stop he (hnone rfl).1, by simpa using hstored, ht, by simp,
        by simp, ?_⟩
      simpa using (hnone rfl).2
    | some b =>
      rcases hsome b rfl with ⟨rfl, rfl⟩
      have hblk' : t.blkdev.blksz = 512 :=
        (congrArg (fun g => g.blkdev.blksz) hglobals : t.blkdev.blksz = s.blkdev.blksz).trans hblk
      apply wp_post (ih (count + 1) (start + 1) (i + 128) t hblk')
      rintro c u ⟨full, part, m, hprogress, hu, hexchanges, hcount, hdone, hstop⟩
      refine ⟨e :: full, part, m, (hprogress.congr hglobals).cons he, ?_, ?_, ?_, ?_, hstop⟩
      · have hall := hstored.trans hu
        rwa [show 128 + (128 * full.length + m) = 128 * (e :: full).length + m by
          rw [List.length_cons]; omega] at hall
      · rw [hexchanges, ht]
        simp
      · rw [hcount, List.length_cons, BitVec.ofNat_add, BitVec.add_assoc, BitVec.add_comm 1]
        rfl
      · intro hc
        rw [List.length_cons, hdone hc]

/-! ## A call -/

/-- The blocks that are asked for, in order. The record has the newest exchange first. -/
def requests (log : List Exchange) : List Exchange :=
  log.reverse.filter fun e => decide (e.cmd = readSingleBlock)

/-- A call that returns `n` has the first `n` blocks in the buffer, and has touched what is behind
them only within the block that failed. -/
structure ReadExactly (s : Mci) (start blkcnt n : Word) (log : List Exchange) (t : Mci) : Prop where
  le : n ≤ blkcnt
  complete : (∀ e ∈ log.tail, Passed e) → n = blkcnt
  words : ∀ j < n.toNat, ∀ k < 128,
    t.buffer (128 * j + k) = swab32 (s.rdr.getD (128 * j + k) 0)
  -- so word `128 * j + k` of the data register is word `k` of the block of request `j`
  transfers : ∀ j < n.toNat, ∃ e, (requests log)[j]? = some e ∧ delivered e.polls = 128
  requests_length : (requests log).length ≤ min (n.toNat + 1) blkcnt.toNat
  address : ∀ j e, (requests log)[j]? = some e → e.arg.toNat =
    if s.cardIsSdhc = 0 then (start.toNat + j) * 512 else (start.toNat + j) % 2 ^ 32
  beyond : ∀ a, 128 * min (n.toNat + 1) blkcnt.toNat ≤ a → t.buffer a = s.buffer a
  deselected : blkcnt ≠ 0 → ∃ e, log.head? = some e ∧ e.cmd = selectCard ∧ e.arg = 0

theorem readExactly_zero (start : Word) (s : Mci) : ReadExactly s start 0 0 [] s := by
  constructor
  · exact BitVec.le_refl _
  · intro _
    rfl
  · simp
  · simp
  · simp [requests]
  · simp [requests]
  · intro a _
    rfl
  · intro h
    exact absurd rfl h

/-- An end of a call: `n` is what was counted, and the card is deselected last. -/
def Ends (count n : Word) (s t : Mci) : Prop :=
  n = count ∧ SameData s t ∧ ∃ e more, e.cmd = selectCard ∧ e.arg = 0 ∧
    (∀ x ∈ more, x.cmd ≠ readSingleBlock) ∧ t.exchanges = e :: (more ++ s.exchanges)

theorem deselect_ends (count : Word) (s : Mci) :
    wp (deselect count) (fun n t => Ends count n s t) blocked s := by
  rw [deselect, wp_bind]
  apply wp_post (mmcCmd_outcome _ _ _ s)
  rintro r t ⟨hdata, e, he, -, ht, -⟩
  exact ⟨rfl, hdata, e, [], he.cmd, he.arg, by simp, ht⟩

theorem breadFail_ends (cardStatus count : Word) (s : Mci) :
    wp (breadFail cardStatus count) (fun n t => Ends count n s t) blocked s := by
  rw [breadFail, wp_bind, wp_get, wp_bind]
  apply wp_post (mmcCmd_outcome _ _ _ s)
  rintro r t ⟨hdata, e, he, -, ht, -⟩
  rw [printf, wp_bind, wp_modify]
  apply wp_post (deselect_ends count _)
  rintro n u ⟨hn, hdata', d, more, hcmd, harg, hmore, hu⟩
  refine ⟨hn, hdata.trans ⟨hdata'.rdr, hdata'.buffer⟩, d, more ++ [e], hcmd, harg, ?_, ?_⟩
  · refine List.forall_mem_append.mpr ⟨hmore, ?_⟩
    simp [he.cmd]
  · rw [hu, ht]
    simp

theorem blockArg_toNat {j : ℕ} (hblk : s.blkdev.blksz = 512)
    (hfit : s.cardIsSdhc = 0 → start.toNat + j < 2 ^ 23) :
    (blockArg s (start + BitVec.ofNat 32 j)).toNat =
      if s.cardIsSdhc = 0 then (start.toNat + j) * 512 else (start.toNat + j) % 2 ^ 32 := by
  have hblock : (start + BitVec.ofNat 32 j).toNat = (start.toNat + j) % 2 ^ 32 := by
    simp [BitVec.toNat_add]
  rw [blockArg, hblk]
  split
  · rename_i hsdhc
    have hlt := hfit hsdhc
    have hbytes : (start.toNat + j) * 512 < 2 ^ 32 := by omega
    have hsmall : start.toNat + j < 2 ^ 32 := by omega
    rw [BitVec.toNat_mul, hblock, Nat.mod_eq_of_lt hsmall]
    exact Nat.mod_eq_of_lt hbytes
  · exact hblock

/-- The requests, when there are none at either end of the record. -/
theorem requests_eq {e : Exchange} {more head : List Exchange} (he : e.cmd = selectCard)
    (hmore : ∀ x ∈ more, x.cmd ≠ readSingleBlock) (hhead : ∀ x ∈ head, x.cmd ≠ readSingleBlock)
    (h : Progress s start n full part m) :
    requests (e :: (more ++ ((full ++ part).reverse ++ head))) = full ++ part := by
  have hnone : ∀ l : List Exchange, (∀ x ∈ l, x.cmd ≠ readSingleBlock) →
      l.reverse.filter (fun x => decide (x.cmd = readSingleBlock)) = [] := by
    intro l hl
    apply List.filter_eq_nil_iff.mpr
    intro x hx
    simpa using hl x (List.mem_reverse.mp hx)
  have hall : ∀ x ∈ full ++ part, x.cmd = readSingleBlock := by
    refine List.forall_mem_append.mpr ⟨?_, fun x hx => (h.last x hx).cmd⟩
    intro x hx
    rcases List.getElem?_of_mem hx with ⟨j, hj⟩
    exact (h.blocks j x hj).cmd
  have hone : [e].reverse.filter (fun x => decide (x.cmd = readSingleBlock)) = [] := by
    apply hnone
    simp [he]
  calc requests (e :: (more ++ ((full ++ part).reverse ++ head)))
      = (head.reverse ++ (full ++ part) ++ more.reverse ++ [e].reverse).filter
          (fun x => decide (x.cmd = readSingleBlock)) := by simp [requests]
    _ = (full ++ part).filter (fun x => decide (x.cmd = readSingleBlock)) := by
        rw [List.filter_append, List.filter_append, List.filter_append, hnone head hhead,
          hnone more hmore, hone]
        simp
    _ = full ++ part := List.filter_eq_self.mpr fun x hx => by simpa using hall x hx

theorem Ends.readExactly {blkcnt count r : Word} {head : List Exchange}
    (hblk : s.blkdev.blksz = 512)
    (hfit : s.cardIsSdhc = 0 → start.toNat + blkcnt.toNat ≤ 2 ^ 23)
    (hhead : ∀ e ∈ head, e.cmd ≠ readSingleBlock)
    (h : Progress s start blkcnt.toNat full part m)
    (hstored : Stored 0 (128 * full.length + m) s t)
    (ht : t.exchanges = (full ++ part).reverse ++ (head ++ s.exchanges))
    (hcount : count = BitVec.ofNat 32 full.length)
    (hcomplete : full.length = blkcnt.toNat ∨ ∃ e ∈ part ++ head, ¬ Passed e)
    (hends : Ends count r t u) :
    ∃ log, u.exchanges = log ++ s.exchanges ∧ ReadExactly s start blkcnt r log u := by
  rcases hends with ⟨rfl, hdata, d, more, hcmd, harg, hmore, hu⟩
  have htotal := h.total
  have hr : r.toNat = full.length := by
    rw [hcount, BitVec.toNat_ofNat]
    exact Nat.mod_eq_of_lt (by omega)
  have hrequests := requests_eq hcmd hmore hhead h
  refine ⟨d :: (more ++ ((full ++ part).reverse ++ head)), by rw [hu, ht]; simp, ?_⟩
  constructor
  · rw [BitVec.le_def, hr]
    omega
  · intro hpassed
    rcases hcomplete with hall | ⟨e, he, hfailed⟩
    · exact BitVec.eq_of_toNat_eq (hr.trans hall)
    · apply absurd (hpassed e _) hfailed
      rcases List.mem_append.mp he with he | he
      · simp [he]
      · simp [he]
  · intro j hj k hk
    have hword := hstored.inside (128 * j + k) (by omega)
    rw [hdata.buffer, ← hword, Nat.zero_add]
  · intro j hj
    rw [hr] at hj
    rw [hrequests, List.getElem?_append_left hj, List.getElem?_eq_getElem hj]
    exact ⟨full[j], rfl, (h.blocks j _ (List.getElem?_eq_getElem hj)).delivered⟩
  · have hlast := h.last_length
    rw [hrequests, List.length_append, hr]
    omega
  · intro j e he
    rw [hrequests] at he
    rcases h.requested he with ⟨hj, heq⟩
    rw [heq, blockArg_toNat hblk fun hsdhc => by have := hfit hsdhc; omega]
  · intro a ha
    rw [hr] at ha
    rw [hdata.buffer]
    exact h.beyond hstored ha
  · intro _
    exact ⟨d, rfl, hcmd, harg⟩

theorem mmcBread_outcome (cardStatus start blkcnt : Word) (s : Mci) (hblk : s.blkdev.blksz = 512)
    (hfit : s.cardIsSdhc = 0 → start.toNat + blkcnt.toNat ≤ 2 ^ 23) :
    wp (mmcBread cardStatus start blkcnt) (fun n t =>
      ∃ log, t.exchanges = log ++ s.exchanges ∧ ReadExactly s start blkcnt n log t) blocked s := by
  rw [mmcBread, wp_ite]
  split
  · rename_i hzero
    subst hzero
    exact ⟨[], rfl, readExactly_zero start s⟩
  rw [wp_bind, wp_get, wp_bind]
  apply wp_post (mmcCmd_outcome _ _ _ s)
  rintro a t ⟨hdata, sel, hsel, hselFailed, ht, hglobals⟩
  have hselected : ∀ e ∈ [sel], e.cmd ≠ readSingleBlock := by simp [hsel.cmd]
  rw [wp_ite]
  split
  · rename_i ha
    apply wp_post (breadFail_ends cardStatus 0 t)
    intro n u hends
    apply hends.readExactly hblk hfit hselected Progress.nil hdata.stored ht rfl
    exact Or.inr ⟨sel, by simp, hselFailed ha⟩
  rw [wp_bind]
  apply wp_post (mmcCmd_outcome _ _ _ t)
  rintro b u ⟨hdata', len, hlen, hlenFailed, hu, hglobals'⟩
  rw [ht] at hu
  have hhead : ∀ e ∈ [len, sel], e.cmd ≠ readSingleBlock := by
    simp [hlen.cmd, hsel.cmd]
  rw [wp_ite]
  split
  · rename_i hb
    apply wp_post (breadFail_ends cardStatus 0 u)
    intro n v hends
    apply hends.readExactly hblk hfit hhead Progress.nil
      (hdata.trans hdata').stored hu rfl
    exact Or.inr ⟨len, by simp, hlenFailed hb⟩
  have hsame : u.globals = s.globals := hglobals'.trans hglobals
  have hblk' : u.blkdev.blksz = 512 :=
    (congrArg (fun g => g.blkdev.blksz) hsame : u.blkdev.blksz = s.blkdev.blksz).trans hblk
  rw [wp_bind]
  apply wp_post (readBlocks_outcome blkcnt.toNat 0 start 0 u hblk')
  rintro c v ⟨full, part, m, hprogress, hstored, hv, hcount, hdone, hstop⟩
  have hall : Stored 0 (128 * full.length + m) s v := by
    simpa using (hdata.trans hdata').stored.trans hstored
  have hread : c.1 = BitVec.ofNat 32 full.length := hcount.trans (BitVec.zero_add _)
  rw [hu] at hv
  have hprogress' := hprogress.congr hsame
  rw [wp_ite]
  split
  · rename_i hc
    apply wp_post (breadFail_ends cardStatus c.1 v)
    intro n w hends
    apply hends.readExactly hblk hfit hhead hprogress' hall hv hread
    rcases hstop hc with ⟨e, he, hfailed⟩
    exact Or.inr ⟨e, List.mem_append_left _ he, hfailed⟩
  · rename_i hc
    apply wp_post (deselect_ends c.1 v)
    intro n w hends
    apply hends.readExactly hblk hfit hhead hprogress' hall hv hread
    exact Or.inl (hdone (by simpa using hc))

/-- A call returns having read exactly the blocks it counts, wherever an error stops it, or a status
that it waits for never comes: then it has read all that came, and a word that ends any wait came
less often than it waits. -/
theorem mmcBread_exact (cardStatus start blkcnt : Word) (s : Mci) (hblk : s.blkdev.blksz = 512)
    (hfit : s.cardIsSdhc = 0 → start.toNat + blkcnt.toNat ≤ 2 ^ 23) :
    (∃ n t log, mmcBread cardStatus start blkcnt s = .ok n t ∧ t.exchanges = log ++ s.exchanges ∧
      ReadExactly s start blkcnt n log t) ∨
    ∃ t, mmcBread cardStatus start blkcnt s = .error .blocked t ∧ t.status = [] ∧ blkcnt ≠ 0 ∧
      s.status.countP (fun w => decide (Ready w)) < 130 * blkcnt.toNat + 4 := by
  have hread := mmcBread_outcome cardStatus start blkcnt s hblk hfit
  have hneeds := mmcBread_needs cardStatus start blkcnt s hblk
  cases hrun : mmcBread cardStatus start blkcnt s with
  | ok n t =>
    obtain ⟨log, ht, hexact⟩ := wp_of_ok hread hrun
    exact .inl ⟨n, t, log, rfl, ht, hexact⟩
  | error e t =>
    obtain ⟨⟨rfl, hstatus⟩, hready⟩ := wp_of_error hneeds hrun
    by_cases hzero : blkcnt = 0
    · rw [if_pos hzero] at hready
      exact absurd hready (Nat.not_lt_zero _)
    · rw [if_neg hzero] at hready
      exact .inr ⟨t, rfl, hstatus, hzero, hready⟩

/-- Three blocks are asked for; a time-out comes after two words of the second. -/
def secondFails : Mci := { crcFailure with
  status := [cmdrdy, 0, cmdrdy, cmdrdy] ++ List.replicate 128 rxrdy ++ [0, blke, cmdrdy, rxrdy, 0, rxrdy,
    dtoe, cmdrdy, cmdrdy]
  rdr := (List.range 200).map (BitVec.ofNat 32 ·) }

/-- The first block counts, and the request for the second was the last. -/
theorem mmcBread_exact_secondFails : ∃ t log, mmcBread 0 5 3 secondFails = .ok 1 t ∧
    ReadExactly secondFails 5 3 1 log t ∧ (requests log).length ≤ 2 ∧ t.buffer 127 = 0x7f000000 := by
  obtain ⟨u, hu⟩ := ok_of_answerOf (r := mmcBread 0 5 3 secondFails) (a := 1) (by decide +kernel)
  rcases mmcBread_exact 0 5 3 secondFails rfl fun _ => by decide with
    ⟨n, t, log, hrun, -, hexact⟩ | ⟨t, hrun, -⟩
  · cases hu.symm.trans hrun
    exact ⟨u, log, hu, hexact, hexact.requests_length, hexact.words 0 (by decide) 127 (by decide)⟩
  · cases hu.symm.trans hrun

end Armboard.Mmc
