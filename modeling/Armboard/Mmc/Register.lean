import Armboard.Mmc.Flags
import Armboard.Mmc.Identify

/-! # The block device

After the identification `mmc_init` asks for the CSD and reads a block. Neither
touches what was identified, so the record of a call that returns 0 falls into the
identification, the CSD and the reads.
-/

namespace Armboard.Mmc
open Exec

def Reading (e : Exchange) : Prop :=
  e.cmd = selectCard ∨ e.cmd = setBlocklen ∨ e.cmd = readSingleBlock ∨ e.cmd = sendStatus

/-- Reads have nothing to do with the identification or the CSD. -/
theorem Reading.other {e : Exchange} (h : Reading e) :
    e.cmd ≠ sendCsd ∧ Quiet e ∧ ¬ Abandons e := by
  rcases h with h | h | h | h <;> simp [Quiet, WrongEcho, Announces, Abandons, h]

def ReadOnly (s t : Mci) : Prop := t.globals = s.globals ∧ Adds Reading s t

variable {s t u : Mci}

theorem ReadOnly.trans (h : ReadOnly s t) (h' : ReadOnly t u) : ReadOnly s u :=
  ⟨h'.1.trans h.1, h.2.trans h'.2⟩

/-! ## Reads -/

theorem mmcCmd_readOnly (cmd arg flags : Word) (hcmd : ∀ e : Exchange, e.cmd = cmd → Reading e)
    (s : Mci) : wp (mmcCmd cmd arg flags) (fun _ t => ReadOnly s t) blocked s := by
  apply wp_post (mmcCmd_spec cmd arg flags s)
  rintro r t ⟨e, he, ht, hglobals⟩
  exact ⟨hglobals, Adds.one ht (hcmd e he.cmd)⟩

theorem readBlocks_readOnly (n : ℕ) (i start : Word) (buffer : ℕ) (s : Mci) :
    wp (readBlocks n i start buffer) (fun _ t => ReadOnly s t) blocked s := by
  induction n generalizing i start buffer s with
  | zero => exact ⟨rfl, Adds.none rfl⟩
  | succ n ih =>
    rw [readBlocks, wp_bind]
    apply wp_post (readBlock_spec start buffer s)
    rintro o t ⟨hglobals, e, ht, hcmd, -⟩
    have hst : ReadOnly s t := ⟨hglobals, Adds.one ht (Or.inr (Or.inr (Or.inl hcmd)))⟩
    cases o with
    | none => exact hst
    | some buffer =>
      apply wp_post (ih (i + 1) (start + 1) buffer t)
      intro c u hu
      exact hst.trans hu

theorem deselect_readOnly (i : Word) (s : Mci) :
    wp (deselect i) (fun _ t => ReadOnly s t) blocked s := by
  rw [deselect, wp_bind]
  apply wp_post (mmcCmd_readOnly _ _ _ (fun _ h => Or.inl h) s)
  intro r t ht
  exact ht

theorem breadFail_readOnly (cardStatus i : Word) (s : Mci) :
    wp (breadFail cardStatus i) (fun _ t => ReadOnly s t) blocked s := by
  rw [breadFail, wp_bind, wp_get, wp_bind]
  apply wp_post (mmcCmd_readOnly _ _ _ (fun _ h => Or.inr (Or.inr (Or.inr h))) s)
  intro r t ht
  rw [printf, wp_bind, wp_modify]
  apply wp_post (deselect_readOnly i _)
  intro n u hu
  exact ht.trans hu

theorem mmcBread_readOnly (cardStatus start blkcnt : Word) (s : Mci) :
    wp (mmcBread cardStatus start blkcnt) (fun _ t => ReadOnly s t) blocked s := by
  have hfail : ∀ {t : Mci} (i : Word), ReadOnly s t →
      wp (breadFail cardStatus i) (fun _ u => ReadOnly s u) blocked t := by
    intro t i ht
    apply wp_post (breadFail_readOnly cardStatus i t)
    intro n u hu
    exact ht.trans hu
  rw [mmcBread, wp_ite]
  split
  · exact ⟨rfl, Adds.none rfl⟩
  rw [wp_bind, wp_get, wp_bind]
  apply wp_post (mmcCmd_readOnly _ _ _ (fun _ h => Or.inl h) s)
  intro a t ht
  rw [wp_ite]
  split
  · exact hfail 0 ht
  rw [wp_bind]
  apply wp_post (mmcCmd_readOnly _ _ _ (fun _ h => Or.inr (Or.inl h)) t)
  intro b u hu
  rw [wp_ite]
  split
  · exact hfail 0 (ht.trans hu)
  rw [wp_bind]
  apply wp_post (readBlocks_readOnly _ _ _ _ u)
  intro c v hv
  have hsv : ReadOnly s v := ht.trans (hu.trans hv)
  rw [wp_ite]
  split
  · exact hfail c.1 hsv
  · apply wp_post (deselect_readOnly c.1 v)
    intro n x hx
    exact hsv.trans hx

theorem initPart_spec (cardStatus : Word) (stack : ℕ → Word) (s : Mci) :
    wp (initPart cardStatus stack) (fun _ t => Adds Reading s t ∧
      ∃ p, t.globals = { s.globals with blkdev := { s.blkdev with partType := p } }) blocked s := by
  rw [initPart, wp_bind, wp_modify, wp_bind]
  apply wp_post (mmcBread_readOnly cardStatus 0 1 { s with buffer := stack })
  rintro n t ⟨hglobals, hadds⟩
  rw [wp_bind, wp_get, wp_ite]
  split
  · refine ⟨hadds, partTypeDos, ?_⟩
    have hblkdev : t.blkdev = s.blkdev := congrArg Globals.blkdev hglobals
    calc ({ t with blkdev := { t.blkdev with partType := partTypeDos } } : Mci).globals =
        { t.globals with blkdev := { t.blkdev with partType := partTypeDos } } := rfl
      _ = { s.globals with blkdev := { s.blkdev with partType := partTypeDos } } := by
        rw [hglobals, hblkdev]
        rfl
  · exact ⟨hadds, s.blkdev.partType, hglobals⟩

/-! ## Registers and messages -/

theorem mciSetMode_silent (hz blklen : Word) : Silent (mciSetMode hz blklen) := by
  rw [mciSetMode]
  apply Silent.ite (Silent.throw .hang)
  apply Silent.bind (Silent.ite (Silent.printf _ _) Silent.pure)
  exact fun _ => Silent.writel _ _

theorem mciSetDataTimeout_silent (stack : Stack) (clk : Word) (csd : Csd) :
    Silent (mciSetDataTimeout stack clk csd) := by
  apply Silent.get
  intro s
  apply Silent.bind (Silent.ite (Silent.printf _ _) Silent.pure)
  intro _
  apply Silent.bind (Silent.writel _ _)
  exact fun _ => Silent.printf _ _

theorem mmcDumpCsd_silent (csd : Csd) : Silent (mmcDumpCsd csd) := by
  have hprint := Silent.printf
  have hputs := fun text => Silent.printf text []
  rw [mmcDumpCsd]
  repeat' refine Silent.bind ?_ fun _ => ?_
  all_goals first
    | exact hprint _ _
    | exact Silent.ite (hprint _ _) (hputs _)
    | exact Silent.ite (hputs _) Silent.pure

/-! ## What is registered -/

def Reads512 (csd : Csd) : Prop :=
  ¬ ((1 : Word) <<< csd.readBlLen.toNat < 512 ∨
    ((1 : Word) <<< csd.readBlLen.toNat > 512 ∧ csd.readBlPartial = 0))

/-- The entries of the block device that come from the card registers. -/
structure Describes (cid : Cid) (csd : Csd) (b : BlockDev) : Prop where
  vendor : b.vendor = vendorOf cid
  product : b.product = strncpy 21 cid.pnm
  revision : b.revision = revisionOf cid
  blksz : b.blksz = 512
  lba : b.lba = numBlocks csd

theorem registerCard_spec (stack : Stack) (cid : Cid) (csd : Csd) (s : Mci) :
    wp (registerCard stack cid csd) (fun ret t => ret = 0 → Adds Reading s t ∧ t.rca = s.rca ∧
      t.cardIsSd = s.cardIsSd ∧ t.cardIsSdhc = s.cardIsSdhc ∧ Reads512 csd ∧
        Describes cid csd t.blkdev) blocked s := by
  rw [registerCard, wp_bind, wp_modify, wp_ite]
  split
  · rw [printf, wp_bind, wp_modify, wp_pure]
    intro h
    exact absurd h (by decide)
  rename_i haccept
  rw [wp_bind, wp_modify]
  apply Silent.next (mciSetMode_silent _ _)
  intro _ t hexchanges hglobals
  rw [wp_bind]
  apply wp_post (initPart_spec stack.cardStatus stack.block t)
  rintro - u ⟨⟨new, hu, hnew⟩, p, huglobals⟩ -
  rw [hglobals] at huglobals
  have hblkdev := congrArg Globals.blkdev hglobals
  have hublkdev := congrArg Globals.blkdev huglobals
  refine ⟨⟨new, by rw [hu, hexchanges], hnew⟩, congrArg Globals.rca huglobals,
    congrArg Globals.cardIsSd huglobals, congrArg Globals.cardIsSdhc huglobals, haccept, ?_⟩
  change u.blkdev = { t.blkdev with partType := p } at hublkdev
  change t.blkdev = _ at hblkdev
  rw [hublkdev, hblkdev]
  exact ⟨rfl, rfl, rfl, rfl, rfl⟩

/-! ## A call that returns 0 -/

/-- The state after a call of `mmc_init` on an empty record that returns 0. -/
def initRun (stack : Stack) (verbose : Bool) (s : Mci) : Option Mci :=
  match mmcInit stack verbose { s with exchanges := [] } with
  | .ok ret t => if ret = 0 then some t else none
  | .error _ _ => none

def fromCsd (log : List Exchange) : List Exchange := log.dropWhile fun e => e.cmd ≠ sendCsd

/-- The part of the record that belongs to the identification. -/
def identification (log : List Exchange) : List Exchange := (fromCsd log).tail

def csdResponse (log : List Exchange) : Option (List Word) := (fromCsd log).head?.bind (·.response)

/-- The state `t` after a call, that after the identification `u`, the CID and the CSD. -/
structure Call (stack : Stack) (t u : Mci) (cid : Cid) (raw : List Word) : Prop where
  log : ∃ reads e, t.exchanges = reads ++ e :: u.exchanges ∧ (∀ x ∈ reads, Reading x) ∧
    Told sendCsd raw e
  settled : Settled cid u
  rca : t.rca = u.rca
  cardIsSd : t.cardIsSd = u.cardIsSd
  cardIsSdhc : t.cardIsSdhc = u.cardIsSdhc
  reads512 : Reads512 (mmcParseCsd stack.csd (respArray raw stack.aroundCsdRaw))
  describes : Describes cid (mmcParseCsd stack.csd (respArray raw stack.aroundCsdRaw)) t.blkdev

theorem mmcInit_spec (stack : Stack) (verbose : Bool) (s : Mci) (hs : s.exchanges = []) :
    wp (mmcInit stack verbose) (fun ret t => ret = 0 → ∃ u cid raw, Call stack t u cid raw)
      blocked s := by
  rw [mmcInit]
  apply Silent.next (Silent.writel _ _)
  intro _ s₁ h₁ _
  apply Silent.next (Silent.writel _ _)
  intro _ s₂ h₂ _
  apply Silent.next (Silent.writel _ _)
  intro _ s₃ h₃ _
  apply Silent.next (Silent.writel _ _)
  intro _ s₄ h₄ _
  apply Silent.next (mciSetMode_silent _ _)
  intro _ s₅ h₅ _
  have hempty : s₅.exchanges = [] := h₅.trans (h₄.trans (h₃.trans (h₂.trans (h₁.trans hs))))
  rw [wp_bind]
  apply wp_post (identify_spec stack.cid verbose s₅ hempty)
  intro r u hu
  rw [wp_ite]
  split
  · rename_i hr
    exact fun h => absurd h hr
  rename_i hr
  rw [wp_bind, wp_get, wp_bind]
  apply wp_post (mmcCmd_spec _ _ _ u)
  rintro raw v ⟨e, he, hv, hvglobals⟩
  rw [wp_ite]
  split
  · rename_i hraw
    exact fun h => absurd h hraw
  rename_i hraw
  apply Silent.next (Silent.ite (mmcDumpCsd_silent _) Silent.pure)
  intro _ w hw hwglobals
  apply Silent.next (mciSetDataTimeout_silent _ _ _)
  intro _ x hx hxglobals
  apply wp_post (registerCard_spec _ _ _ x)
  intro ret t ht hret
  rcases ht hret with ⟨⟨reads, hreads, hreading⟩, hrca, hsd, hsdhc, haccept, hdescribes⟩
  have hglobals : x.globals = u.globals := hxglobals.trans (hwglobals.trans hvglobals)
  refine ⟨u, r.2, raw.2, ?_⟩
  constructor
  · exact ⟨reads, e, by rw [hreads, hx, hw, hv], hreading, he.told (not_not.mp hraw)⟩
  · exact hu (not_not.mp hr)
  · exact hrca.trans (congrArg Globals.rca hglobals)
  · exact hsd.trans (congrArg Globals.cardIsSd hglobals)
  · exact hsdhc.trans (congrArg Globals.cardIsSdhc hglobals)
  · exact haccept
  · exact hdescribes

theorem initRun_call {stack : Stack} {verbose : Bool} (h : initRun stack verbose s = some t) :
    ∃ u cid raw, Call stack t u cid raw := by
  have hspec := mmcInit_spec stack verbose { s with exchanges := [] } rfl
  rw [initRun] at h
  rw [wp] at hspec
  split at h
  · rename_i ret v hrun
    rw [hrun] at hspec
    split at h
    · rename_i hret
      cases h
      exact hspec hret
    · cases h
  · cases h

section
variable {stack : Stack} {cid : Cid} {raw : List Word}

theorem Call.fromCsd (h : Call stack t u cid raw) :
    ∃ e, Mmc.fromCsd t.exchanges = e :: u.exchanges ∧ Told sendCsd raw e := by
  rcases h.log with ⟨reads, e, hlog, hreading, he⟩
  refine ⟨e, ?_, he⟩
  rw [hlog, Mmc.fromCsd, List.dropWhile_append_of_pos, List.dropWhile_cons_of_neg]
  · simp [he.cmd]
  · intro x hx
    simpa using (hreading x hx).other.1

theorem Call.identification (h : Call stack t u cid raw) :
    Mmc.identification t.exchanges = u.exchanges := by
  rcases h.fromCsd with ⟨e, he, -⟩
  rw [Mmc.identification, he, List.tail_cons]

theorem Call.csdResponse (h : Call stack t u cid raw) :
    Mmc.csdResponse t.exchanges = some raw := by
  rcases h.fromCsd with ⟨e, he, htold⟩
  rw [Mmc.csdResponse, he]
  exact htold.response

/-- How the card answered shows in the identification alone. -/
theorem Call.answered (h : Call stack t u cid raw) :
    Answered t.exchanges ↔ Answered u.exchanges := by
  rcases h.log with ⟨reads, e, hlog, hreading, he⟩
  rw [hlog, List.append_cons]
  apply answered_append
  intro x hx
  rcases List.mem_append.mp hx with hx | hx
  · exact (hreading x hx).other.2
  · rw [List.mem_singleton.mp hx]
    exact ⟨quiet_of_cmd (by simp [he.cmd]) (by simp [he.cmd]), by simp [Abandons, he.cmd]⟩

end

/-! ## Consistency -/

/-- One routine was completed, and the globals and the texts of the block device are what it
established. -/
def Consistent (t : Mci) : Prop :=
  ∃ cid, Identified (identification t.exchanges) cid t ∧ t.blkdev.vendor = vendorOf cid ∧
    t.blkdev.product = strncpy 21 cid.pnm ∧ t.blkdev.revision = revisionOf cid

/-- The identification state is consistent iff the card echoed CMD8 and went through with what it
announced. -/
theorem consistent_iff (stack : Stack) (verbose : Bool) (s : Mci) :
    (∀ t ∈ initRun stack verbose s, Consistent t) ↔
      ∀ t ∈ initRun stack verbose s, Answered t.exchanges := by
  have hstate : ∀ t ∈ initRun stack verbose s, (Consistent t ↔ Answered t.exchanges) := by
    intro t ht
    rcases initRun_call ht with ⟨u, cid, raw, h⟩
    have hidentified : ∀ c, Identified (identification t.exchanges) c t ↔
        Identified u.exchanges c u := by
      intro c
      rw [Identified, Identified, h.identification, h.rca, h.cardIsSd, h.cardIsSdhc]
    rw [h.answered]
    constructor
    · rintro ⟨c, hc, -⟩
      by_contra hanswered
      exact h.settled.stale hanswered c ((hidentified c).mp hc)
    · intro hanswered
      exact ⟨cid, (hidentified cid).mpr (h.settled.identified hanswered), h.describes.vendor,
        h.describes.product, h.describes.revision⟩
  constructor
  · exact fun hall t ht => (hstate t ht).mp (hall t ht)
  · exact fun hall t ht => (hstate t ht).mpr (hall t ht)

def cleanStack : Stack where
  cid := ⟨0, 0, 0, 0, 0, []⟩
  csd := ⟨0, 0, 0, 0, 0, 0, 0, 0, 0, 0, 0, 0, 0, 0, 0, 0, 0, 0, 0, 0, 0, 0, 0, 0, 0, 0, 0, 0, 0, 0, 0⟩
  aroundCsdRaw := fun _ => 0
  cardStatus := 0
  block := fun _ => 0
  shift := 0
  pastDtomulToShift := 0

/-- A standard card. A bit error in its first answer, which has no CRC, announces high capacity, the
CID is lost once, and everything goes well afterwards, except that the first block is not read. -/
def falseAnnouncement : Mci where
  status := List.replicate 5 cmdrdy ++ [cmdrdy ||| rtoe] ++ List.replicate 7 cmdrdy ++
    [cmdrdy ||| rtoe] ++ List.replicate 2 cmdrdy
  rspr := [0x122, 0x20, 0xc0ff8000, 0x20, 0x80ff8000, 0x03534453, 0x44303147, 0x80123456, 0x7800a5c3,
    0x12340000, 0x00260032, 0x5f5983c8, 0xadcfff92, 0x40400000]
  rdr := []
  exchanges := []
  writes := []
  output := []
  rca := 0
  cardIsSd := 0
  cardIsSdhc := 0
  blkdev := ⟨0, 0, 0, 0, ("", []), [], ("", [])⟩
  buffer := fun _ => 0

/-- `sd_init_card` found a standard card; the flag says otherwise. -/
theorem not_consistent_falseAnnouncement :
    ¬ ∀ t ∈ initRun cleanStack false falseAnnouncement, Consistent t := by
  intro h
  have hrun : (initRun cleanStack false falseAnnouncement).map (fun t =>
      (t.cardIsSdhc, (established (identification t.exchanges)).map Ident.cardIsSdhc)) =
      some (1, some 0) := by
    decide +kernel
  rcases Option.map_eq_some_iff.mp hrun with ⟨t, ht, hflags⟩
  rcases h t ht with ⟨cid, hidentified, -⟩
  rw [hidentified] at hflags
  have hone : t.cardIsSdhc = 1 := congrArg Prod.fst hflags
  have hzero : t.cardIsSdhc = 0 := Option.some.inj (congrArg Prod.snd hflags)
  exact absurd (hone.symm.trans hzero) (by decide)

end Armboard.Mmc
