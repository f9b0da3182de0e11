import Armboard.Bits.Agree
import Armboard.Mmc.Commands

/-! # Which errors a read notices

Each status loop of `mmc_bread` looks for some of the error flags, or for none. A
block is counted after its completion was seen, and then the flags that were looked
for are clear; the others can be set.
-/

namespace Armboard.Mmc
open Bits Exec

/-- Time-outs, response errors, CRC errors and overrun. -/
abbrev allFlags : Word := rtoe ||| dtoe ||| rinde ||| rdire ||| rende ||| rcrce ||| dcrce ||| ovre

/-- No status word of an exchange has an error flag. -/
def Clean (e : Exchange) : Prop := ∀ p ∈ e.polls, p.2 &&& allFlags = 0

/-- No status word of an exchange has an error flag that was not looked for. -/
def NotMissed (e : Exchange) : Prop := ∀ p ∈ e.polls, p.2 &&& (allFlags &&& ~~~checked p) = 0

def Completed (e : Exchange) : Prop := ∃ w : Word, (.completion, w) ∈ e.polls ∧ w &&& blke ≠ 0

structure Counted (e : Exchange) : Prop where
  cmd : e.cmd = readSingleBlock
  passed : Passed e
  completed : Completed e

theorem clean_iff (e : Exchange) : Clean e ↔ Passed e ∧ NotMissed e := by
  have hsplit : ∀ p : Place × Word, allFlags = checked p ||| (allFlags &&& ~~~checked p) := by
    rintro ⟨place, w⟩
    cases place with
    | command =>
      rw [checked]
      split
      · decide
      · decide
    | data =>
      rw [checked]
      decide
    | completion =>
      rw [checked]
      decide
  have hword : ∀ p : Place × Word, p.2 &&& allFlags = 0 ↔
      p.2 &&& checked p = 0 ∧ p.2 &&& (allFlags &&& ~~~checked p) = 0 :=
    fun p => and_eq_zero_iff_parts (hsplit p)
  constructor
  · intro h
    exact ⟨fun p hp => ((hword p).mp (h p hp)).1, fun p hp => ((hword p).mp (h p hp)).2⟩
  · intro h p hp
    exact (hword p).mpr ⟨h.1 p hp, h.2 p hp⟩

variable {s : Mci}

/-! ## A block -/

theorem waitData_spec (n : ℕ) (s : Mci) : wp (waitData n) (fun ready t => ∃ ws : List Word,
    Polls (ws.map (Prod.mk .data)) s t ∧
      (ready = true → ∀ w ∈ ws, w &&& (errorFlags ||| ovre) = 0)) blocked s := by
  induction n generalizing s with
  | zero => trivial
  | succ n ih =>
    rw [waitData, wp_bind]
    apply wp_post (readStatus_spec .data s)
    intro x t ht
    rw [wp_ite, wp_ite]
    split
    · exact ⟨[x], ht, fun h => absurd h (by simp)⟩
    · rename_i hx
      have hx0 : x &&& (errorFlags ||| ovre) = 0 := not_not.mp hx
      split
      · exact ⟨[x], ht, fun _ => by simpa using hx0⟩
      · apply wp_post (ih t)
        rintro ready u ⟨ws, hu, hclean⟩
        refine ⟨ws ++ [x], by simpa using ht.trans hu, fun h => ?_⟩
        exact List.forall_mem_append.mpr ⟨hclean h, by simpa using hx0⟩

theorem receiveWords_spec (blksz : Word) (n : ℕ) (wordcount : Word) (i : ℕ) (s : Mci) :
    wp (receiveWords blksz n wordcount i) (fun o t => ∃ ws : List Word,
      Polls (ws.map (Prod.mk .data)) s t ∧
        (o ≠ none → ∀ w ∈ ws, w &&& (errorFlags ||| ovre) = 0)) blocked s := by
  induction n generalizing s wordcount i with
  | zero => trivial
  | succ n ih =>
    rw [receiveWords, wp_bind, wp_get, wp_bind]
    apply wp_post (waitData_spec _ s)
    rintro ready t ⟨ws, ht, hclean⟩
    cases ready with
    | false => exact ⟨ws, ht, fun h => absurd rfl h⟩
    | true =>
      rw [if_pos rfl, readData, wp_bind, wp_bind, wp_get, wp_bind, wp_set, wp_pure, wp_bind, store,
        wp_modify, wp_ite]
      split
      · apply wp_post (ih _ _ _)
        rintro o u ⟨vs, hu, hclean'⟩
        have hall := ht.trans ⟨hu.exchanges, hu.globals⟩
        refine ⟨vs ++ ws, by simpa using hall, fun h => ?_⟩
        exact List.forall_mem_append.mpr ⟨hclean' h, hclean rfl⟩
      · exact ⟨ws, ⟨ht.exchanges, ht.globals⟩, fun _ => hclean rfl⟩

/-- A block was not completed if the completion was not waited for. -/
theorem not_completed {e : Exchange} (h : ∀ p ∈ e.polls, p.1 ≠ .completion) : ¬ Completed e := by
  rintro ⟨w, hw, -⟩
  exact h _ hw rfl

theorem Passed.append {e : Exchange} {ps : List (Place × Word)} (h : Passed e)
    (hps : ∀ p ∈ ps, p.2 &&& checked p = 0) : Passed { e with polls := ps ++ e.polls } := by
  exact List.forall_mem_append.mpr ⟨hps, h⟩

theorem Issued.not_completed {cmd arg : Word} {r : ℤ × List Word} {e : Exchange}
    (h : Issued cmd arg r e) : ¬ Completed e := by
  apply Mmc.not_completed
  intro p hp
  rw [h.places p hp]
  simp

theorem Issued.passed {cmd arg : Word} {r : ℤ × List Word} {e : Exchange}
    (h : Issued cmd arg r e) (hr : r.1 = 0) : Passed e := by
  rcases h.answer with ⟨-, -, hpassed⟩ | ⟨hneg, -⟩
  · exact hpassed
  · omega

theorem readBlock_spec (start : Word) (buffer : ℕ) (s : Mci) : wp (readBlock start buffer)
    (fun o t => t.globals = s.globals ∧ ∃ e, t.exchanges = e :: s.exchanges ∧
      e.cmd = readSingleBlock ∧ (o = none → ¬ Completed e) ∧ (o ≠ none → Counted e)) blocked s := by
  rw [readBlock, wp_bind, wp_get, wp_bind]
  apply wp_post (mmcCmd_spec _ _ _ s)
  rintro r t ⟨e, he, ht, hglobals⟩
  rw [wp_ite]
  split
  · exact ⟨hglobals, e, ht, he.cmd, fun _ => he.not_completed, fun h => absurd rfl h⟩
  rename_i hr
  rw [wp_bind]
  apply wp_post (receiveWords_spec _ _ _ _ t)
  rintro o u ⟨ws, hu, hclean⟩
  have hexchanges := hu.exchanges
  rw [ht, addPolls] at hexchanges
  cases o with
  | none =>
    refine ⟨hu.globals.trans hglobals, _, hexchanges, he.cmd, fun _ => ?_, fun h => absurd rfl h⟩
    apply not_completed
    refine List.forall_mem_append.mpr ⟨?_, ?_⟩
    · exact List.forall_mem_map.mpr fun _ _ => by simp
    · intro p hp
      rw [he.places p hp]
      simp
  | some i =>
    have hdata : Passed { e with polls := ws.map (Prod.mk .data) ++ e.polls } := by
      apply (he.passed (not_not.mp hr)).append
      exact List.forall_mem_map.mpr fun w hw => hclean (by simp) w hw
    rw [waitStatus, wp_bind, wp_bind, wp_get]
    apply wp_post (waitFor_spec .completion blke _ u)
    rintro w v ⟨hw, vs, hvs, hv⟩
    have hexchanges' := hv.exchanges
    rw [hexchanges, addPolls] at hexchanges'
    have hvs : v.globals = s.globals := hv.globals.trans (hu.globals.trans hglobals)
    refine ⟨hvs, _, hexchanges', he.cmd, fun h => ?_, fun _ => ?_⟩
    · cases h
    · constructor
      · exact he.cmd
      · apply hdata.append
        exact List.forall_mem_map.mpr fun _ _ => BitVec.and_zero
      · exact ⟨w, by simp, hw⟩

/-! ## The blocks of a call -/

/-- The loop adds the blocks that are counted and what follows a failure. -/
theorem readBlocks_spec (n : ℕ) (i start : Word) (buffer : ℕ) (s : Mci) :
    wp (readBlocks n i start buffer) (fun c t => ∃ blocks rest : List Exchange,
      t.exchanges = rest ++ (blocks ++ s.exchanges) ∧ (∀ e ∈ rest, ¬ Completed e) ∧
        (∀ e ∈ blocks, Counted e) ∧ blocks.length ≤ n ∧ c.1 = i + BitVec.ofNat 32 blocks.length)
      blocked s := by
  induction n generalizing i start buffer s with
  | zero => exact ⟨[], [], rfl, by simp, by simp, le_refl 0, by simp⟩
  | succ n ih =>
    rw [readBlocks, wp_bind]
    apply wp_post (readBlock_spec start buffer s)
    rintro o t ⟨-, e, ht, -, hfailed, hcounted⟩
    cases o with
    | none => exact ⟨[], [e], ht, by simpa using hfailed rfl, by simp, by simp, by simp⟩
    | some buffer =>
      apply wp_post (ih (i + 1) (start + 1) buffer t)
      rintro c u ⟨blocks, rest, hu, hrest, hblocks, hlength, hcount⟩
      refine ⟨blocks ++ [e], rest, ?_, hrest, ?_, ?_, ?_⟩
      · rw [hu, ht]
        simp
      · exact List.forall_mem_append.mpr ⟨hblocks, by simpa using hcounted (by simp)⟩
      · simpa using hlength
      · rw [hcount, List.length_append, List.length_singleton, BitVec.ofNat_add,
          BitVec.add_assoc, BitVec.add_comm 1]
        rfl

/-- The record of a call, oldest first, and the number it returns. -/
structure Account (n : Word) (log : List Exchange) where
  head : List Exchange
  blocks : List Exchange
  rest : List Exchange
  log_eq : log = head ++ (blocks ++ rest)
  count : blocks.length = n.toNat
  selection : blocks ≠ [] → head.map Exchange.cmd = [selectCard, setBlocklen]
  head_passed : blocks ≠ [] → ∀ e ∈ head, Passed e
  head_open : ∀ e ∈ head, ¬ Completed e
  blocks_counted : ∀ e ∈ blocks, Counted e
  rest_open : ∀ e ∈ rest, ¬ Completed e

def Account.none (log : List Exchange) (h : ∀ e ∈ log, ¬ Completed e) : Account 0 log where
  head := log
  blocks := []
  rest := []
  log_eq := by simp
  count := rfl
  selection := by simp
  head_passed := by simp
  head_open := h
  blocks_counted := by simp
  rest_open := by simp

def Account.counting {n arg arg' : Word} {a b : ℤ × List Word} {sel len : Exchange}
    {blocks rest : List Exchange} (hsel : Issued selectCard arg a sel) (ha : a.1 = 0)
    (hlen : Issued setBlocklen arg' b len) (hb : b.1 = 0) (hblocks : ∀ e ∈ blocks, Counted e)
    (hrest : ∀ e ∈ rest, ¬ Completed e) (hn : n = BitVec.ofNat 32 blocks.length)
    (hlt : blocks.length < 2 ^ 32) : Account n (rest ++ (blocks ++ [len, sel])).reverse where
  head := [sel, len]
  blocks := blocks.reverse
  rest := rest.reverse
  log_eq := by simp
  count := by rw [List.length_reverse, hn, BitVec.toNat_ofNat, Nat.mod_eq_of_lt hlt]
  selection := by simp [hsel.cmd, hlen.cmd]
  head_passed := by simpa using fun _ => ⟨hsel.passed ha, hlen.passed hb⟩
  head_open := by simpa using ⟨hsel.not_completed, hlen.not_completed⟩
  blocks_counted := by simpa using hblocks
  rest_open := by simpa using hrest

theorem deselect_spec (i : Word) (s : Mci) : wp (deselect i) (fun n t => n = i ∧
    ∃ e, ¬ Completed e ∧ t.exchanges = e :: s.exchanges) blocked s := by
  rw [deselect, wp_bind]
  apply wp_post (mmcCmd_spec _ _ _ s)
  rintro r t ⟨e, he, ht, -⟩
  exact ⟨rfl, e, he.not_completed, ht⟩

theorem breadFail_spec (cardStatus i : Word) (s : Mci) : wp (breadFail cardStatus i) (fun n t =>
    n = i ∧ ∃ rest : List Exchange, (∀ e ∈ rest, ¬ Completed e) ∧
      t.exchanges = rest ++ s.exchanges) blocked s := by
  rw [breadFail, wp_bind, wp_get, wp_bind]
  apply wp_post (mmcCmd_spec _ _ _ s)
  rintro r t ⟨e, he, ht, -⟩
  rw [printf, wp_bind, wp_modify]
  apply wp_post (deselect_spec i _)
  rintro n u ⟨rfl, d, hd, hu⟩
  refine ⟨rfl, [d, e], ?_, ?_⟩
  · intro x hx
    rcases List.mem_pair.mp hx with rfl | rfl
    · exact hd
    · exact he.not_completed
  · rw [hu, ht]
    rfl

theorem breadFail_account (cardStatus : Word) (s : Mci) (h : ∀ e ∈ s.exchanges, ¬ Completed e) :
    wp (breadFail cardStatus 0) (fun n t => Nonempty (Account n t.exchanges.reverse)) blocked s := by
  apply wp_post (breadFail_spec cardStatus 0 s)
  rintro n t ⟨rfl, rest, hrest, ht⟩
  constructor
  apply Account.none
  simp only [List.mem_reverse]
  rw [ht]
  exact List.forall_mem_append.mpr ⟨hrest, h⟩

theorem mmcBread_spec (cardStatus start blkcnt : Word) (s : Mci) (hs : s.exchanges = []) :
    wp (mmcBread cardStatus start blkcnt) (fun n t => Nonempty (Account n t.exchanges.reverse))
      blocked s := by
  rw [mmcBread, wp_ite]
  split
  · constructor
    apply Account.none
    simp [hs]
  rw [wp_bind, wp_get, wp_bind]
  apply wp_post (mmcCmd_spec _ _ _ s)
  rintro a t ⟨sel, hsel, ht, -⟩
  rw [hs] at ht
  rw [wp_ite]
  split
  · apply breadFail_account
    rw [ht]
    simpa using hsel.not_completed
  rename_i ha
  rw [wp_bind]
  apply wp_post (mmcCmd_spec _ _ _ t)
  rintro b u ⟨len, hlen, hu, -⟩
  rw [ht] at hu
  rw [wp_ite]
  split
  · apply breadFail_account
    rw [hu]
    simpa using ⟨hlen.not_completed, hsel.not_completed⟩
  rename_i hb
  rw [wp_bind]
  apply wp_post (readBlocks_spec _ _ _ _ u)
  rintro c v ⟨blocks, rest, hv, hrest, hblocks, hlength, hcount⟩
  rw [hu] at hv
  -- what both ends have in common: they count `c.1` and add nothing that was completed
  have account : ∀ (t : Mci) (more : List Exchange), (∀ e ∈ more, ¬ Completed e) →
      t.exchanges = more ++ v.exchanges → Nonempty (Account c.1 t.exchanges.reverse) := by
    intro t more hmore ht
    have hret : c.1 = BitVec.ofNat 32 blocks.length := hcount.trans (BitVec.zero_add _)
    rw [ht, hv, ← List.append_assoc]
    exact ⟨Account.counting hsel (not_not.mp ha) hlen (not_not.mp hb) hblocks
      (List.forall_mem_append.mpr ⟨hmore, hrest⟩) hret (lt_of_le_of_lt hlength blkcnt.isLt)⟩
  rw [wp_ite]
  split
  · apply wp_post (breadFail_spec cardStatus c.1 v)
    rintro n w ⟨rfl, more, hmore, hw⟩
    exact account w more hmore hw
  · apply wp_post (deselect_spec c.1 v)
    rintro n w ⟨rfl, e, he, hw⟩
    exact account w [e] (by simpa using he) hw

/-! ## What a call counts -/

/-- What a call returns from an empty record, and the exchanges, oldest first. -/
def breadRun (cardStatus start blkcnt : Word) (s : Mci) : Option (Word × List Exchange) :=
  match mmcBread cardStatus start blkcnt { s with exchanges := [] } with
  | .ok n t => some (n, t.exchanges.reverse)
  | .error _ _ => none

/-- No block is counted with an error flag in its status words or in those of the selection and the
block length. -/
def CountedClean (n : Word) (log : List Exchange) : Prop :=
  ∀ j < n.toNat, (log.take 2).map Exchange.cmd = [selectCard, setBlocklen] ∧
    ∃ block, log[2 + j]? = some block ∧ block.cmd = readSingleBlock ∧
      ∀ e ∈ block :: log.take 2, Clean e

/-- No error flag shows where it is not looked for: in the words up to the completion of a block, and
in those of the selection and the block length if a block was completed. -/
def NoneOverlooked (log : List Exchange) : Prop :=
  ∀ block ∈ log, Completed block → ∀ e ∈ block :: log.take 2, NotMissed e

variable {n : Word} {log : List Exchange}

theorem Account.head_length (a : Account n log) (h : a.blocks ≠ []) : a.head.length = 2 := by
  rw [← List.length_map Exchange.cmd, a.selection h]
  rfl

theorem Account.take (a : Account n log) (h : a.blocks ≠ []) : log.take 2 = a.head := by
  calc log.take 2 = (a.head ++ (a.blocks ++ a.rest)).take 2 := congrArg (List.take 2) a.log_eq
    _ = a.head := by rw [← a.head_length h, List.take_left]

theorem Account.getElem (a : Account n log) (j : ℕ) (h : j < a.blocks.length) :
    log[2 + j]? = some a.blocks[j] := by
  have hlength := a.head_length (List.ne_nil_of_length_pos (by omega))
  calc log[2 + j]? = (a.head ++ (a.blocks ++ a.rest))[2 + j]? :=
        congrArg (fun l => l[2 + j]?) a.log_eq
    _ = (a.blocks ++ a.rest)[j]? := by
        rw [← hlength, List.getElem?_append_right (by omega), Nat.add_sub_cancel_left]
    _ = some a.blocks[j] := by rw [List.getElem?_append_left h, List.getElem?_eq_getElem h]

/-- The blocks that were completed are those that are counted. -/
theorem Account.mem_blocks (a : Account n log) {e : Exchange} (he : e ∈ log) (h : Completed e) :
    e ∈ a.blocks := by
  rw [a.log_eq] at he
  rcases List.mem_append.mp he with he | he
  · exact absurd h (a.head_open e he)
  · rcases List.mem_append.mp he with he | he
    · exact he
    · exact absurd h (a.rest_open e he)

theorem Account.counted_iff (a : Account n log) : CountedClean n log ↔ NoneOverlooked log := by
  constructor
  · intro h block hblock hcompleted e he
    rcases List.getElem_of_mem (a.mem_blocks hblock hcompleted) with ⟨j, hj, rfl⟩
    rcases h j (a.count ▸ hj) with ⟨-, b, hb, -, hclean⟩
    rw [a.getElem j hj] at hb
    cases hb
    exact ((clean_iff e).mp (hclean e he)).2
  · intro h j hj
    rw [← a.count] at hj
    have hne : a.blocks ≠ [] := List.ne_nil_of_length_pos (by omega)
    have hcounted := a.blocks_counted _ (List.getElem_mem hj)
    refine ⟨a.take hne ▸ a.selection hne, a.blocks[j], a.getElem j hj, hcounted.cmd, ?_⟩
    intro e he
    have hmem : a.blocks[j] ∈ log := List.mem_of_getElem? (a.getElem j hj)
    refine (clean_iff e).mpr ⟨?_, h _ hmem hcounted.completed e he⟩
    rcases List.mem_cons.mp he with rfl | he
    · exact hcounted.passed
    · rw [a.take hne] at he
      exact a.head_passed hne e he

/-- A call counts no corrupted block iff no error flag shows where it is not looked for. -/
theorem countedClean_iff (cardStatus start blkcnt : Word) (s : Mci) :
    (∀ r ∈ breadRun cardStatus start blkcnt s, CountedClean r.1 r.2) ↔
      ∀ r ∈ breadRun cardStatus start blkcnt s, NoneOverlooked r.2 := by
  have h := mmcBread_spec cardStatus start blkcnt { s with exchanges := [] } rfl
  rw [breadRun]
  rw [wp] at h
  split
  · rename_i m t hrun
    rw [hrun] at h
    rcases h with ⟨a⟩
    simpa using a.counted_iff
  · simp

/-- A card with blocks of 512 bytes; the controller reports a CRC error at the end of the first. -/
def crcFailure : Mci where
  status := [cmdrdy, cmdrdy, cmdrdy] ++ List.replicate 128 rxrdy ++ [blke ||| dcrce, cmdrdy]
  rspr := []
  rdr := []
  exchanges := []
  writes := []
  output := []
  rca := 1
  cardIsSd := 1
  cardIsSdhc := 0
  blkdev := ⟨6, 2, 512, 0, ("", []), [], ("", [])⟩
  buffer := fun _ => 0

/-- The exchanges of reading a block from that card. -/
def crcFailureLog : List Exchange :=
  [⟨selectCard, 0x10000, r1 ||| ncr, [(.command, cmdrdy)], some [0]⟩,
    ⟨setBlocklen, 512, r1 ||| ncr, [(.command, cmdrdy)], some [0]⟩,
    ⟨readSingleBlock, 0, r1 ||| ncr ||| trcmdStart ||| trdirRead,
      (.completion, blke ||| dcrce) :: List.replicate 128 (.data, rxrdy) ++ [(.command, cmdrdy)],
      some [0]⟩,
    ⟨selectCard, 0, ncr, [(.command, cmdrdy)], some []⟩]

theorem breadRun_crcFailure : breadRun 0 0 1 crcFailure = some (1, crcFailureLog) := by
  decide +kernel

/-- The block is counted. -/
theorem not_countedClean_crcFailure :
    ¬ ∀ r ∈ breadRun 0 0 1 crcFailure, CountedClean r.1 r.2 := by
  intro h
  rcases h _ breadRun_crcFailure 0 (by decide) with ⟨-, block, hblock, -, hclean⟩
  cases hblock
  have hflag := hclean _ (List.mem_cons_self ..) (.completion, blke ||| dcrce) (List.mem_cons_self ..)
  exact absurd hflag (by decide)

end Armboard.Mmc
