import Armboard.Mmc.Commands
import Armboard.Mmc.Init

/-! # Identification

What a completed routine established is read off the record: the newest three
exchanges are then the address, the CID and the operating conditions. The routines
do what they should, but for two ways out of `sdhc_init_card`: a wrong echo of CMD8
counts as success, and a card that announced its capacity and fails afterwards leaves
the flag behind.
-/

namespace Armboard.Mmc
open Exec

structure Ident where
  rca : Word
  cardIsSd : Word
  cardIsSdhc : Word
  cid : Cid

/-- What was established by the routine that the record, newest first, ends with, if it was
completed. The host gives an MMC card its address, an SD card publishes one. -/
def established : List Exchange → Option Ident
  | a :: c :: o :: _ =>
    match a.response, c.response, o.response with
    | some address, some cid, some ocr =>
      if a.cmd = setRelativeAddr ∧ c.cmd = allSendCid ∧ ocr.getD 0 0 &&& ready ≠ 0 then
        if o.cmd = sdSendOpCond then
          some ⟨address.getD 0 0 >>> 16, 1,
            if o.arg = capacity ∧ ocr.getD 0 0 &&& capacity = capacity then 1 else 0, sdParseCid cid⟩
        else if o.cmd = sendOpCond then some ⟨a.arg >>> 16, 0, 0, mmcParseCid cid⟩
        else none
      else none
    | _, _, _ => none
  | _ => none

def WrongEcho (e : Exchange) : Prop :=
  e.cmd = sdSendIfCond ∧ ∃ w, e.response = some w ∧ w.getD 0 0 ≠ 0x122

def Announces (e : Exchange) : Prop :=
  e.cmd = sdSendOpCond ∧ e.arg = capacity ∧
    ∃ w, e.response = some w ∧ w.getD 0 0 &&& ready ≠ 0 ∧ w.getD 0 0 &&& capacity = capacity

def Abandons (e : Exchange) : Prop :=
  (e.cmd = allSendCid ∨ e.cmd = setRelativeAddr) ∧ e.response = none

/-- Who answers CMD8 echoes it, and who announces high capacity goes through with it. -/
structure Answered (log : List Exchange) : Prop where
  echo : ∀ e ∈ log, ¬ WrongEcho e
  kept : log.Pairwise fun later earlier => Announces earlier → ¬ Abandons later

def Quiet (e : Exchange) : Prop := ¬ WrongEcho e ∧ ¬ Announces e

variable {s t : Mci}

theorem quiet_of_cmd {e : Exchange} (h : e.cmd ≠ sdSendIfCond)
    (h' : e.cmd = sdSendOpCond → e.arg ≠ capacity) : Quiet e :=
  ⟨fun hwrong => h hwrong.1, fun hann => h' hann.1 hann.2.1⟩

theorem Issued.quiet {cmd arg : Word} {r : ℤ × List Word} {e : Exchange} (h : Issued cmd arg r e)
    (hcmd : cmd ≠ sdSendIfCond) (harg : cmd = sdSendOpCond → arg ≠ capacity) : Quiet e := by
  apply quiet_of_cmd
  · rwa [h.cmd]
  · rwa [h.cmd, h.arg]

theorem Issued.response {cmd arg : Word} {r : ℤ × List Word} {e : Exchange}
    (h : Issued cmd arg r e) (hr : r.1 = 0) : e.response = some r.2 := by
  rcases h.answer with ⟨-, hresponse, -⟩ | ⟨hneg, -⟩
  · exact hresponse
  · omega

theorem Issued.no_response {cmd arg : Word} {r : ℤ × List Word} {e : Exchange}
    (h : Issued cmd arg r e) (hr : r.1 ≠ 0) : e.response = none := by
  rcases h.answer with ⟨hzero, -⟩ | ⟨-, hresponse⟩
  · exact absurd hzero hr
  · exact hresponse

/-! ## Answers -/

theorem answered_of_quiet {log : List Exchange} (h : ∀ e ∈ log, Quiet e) : Answered log := by
  constructor
  · exact fun e he => (h e he).1
  · apply List.pairwise_of_forall_mem_list
    intro later _ earlier hearlier hann
    exact absurd hann (h earlier hearlier).2

/-- Exchanges that neither announce nor abandon anything do not change how a card answered. -/
theorem answered_append {new log : List Exchange} (h : ∀ e ∈ new, Quiet e ∧ ¬ Abandons e) :
    Answered (new ++ log) ↔ Answered log := by
  constructor
  · intro hall
    exact ⟨fun e he => hall.echo e (List.mem_append_right new he),
      (List.pairwise_append.mp hall.kept).2.1⟩
  · intro hlog
    constructor
    · exact List.forall_mem_append.mpr ⟨fun e he => (h e he).1.1, hlog.echo⟩
    · apply List.pairwise_append.mpr
      refine ⟨(answered_of_quiet fun e he => (h e he).1).kept, hlog.kept, ?_⟩
      intro later hlater earlier _ _
      exact (h later hlater).2

theorem answered_cons {log : List Exchange} {e : Exchange} (he : ¬ WrongEcho e)
    (h : ∀ e ∈ log, Quiet e) : Answered (e :: log) := by
  constructor
  · exact List.forall_mem_cons.mpr ⟨he, fun x hx => (h x hx).1⟩
  · apply List.pairwise_cons.mpr
    refine ⟨fun x hx hann => absurd hann (h x hx).2, (answered_of_quiet h).kept⟩

theorem not_answered_of_wrongEcho {log : List Exchange} {e : Exchange} (he : e ∈ log)
    (h : WrongEcho e) : ¬ Answered log := fun hlog => hlog.echo e he h

/-- A card that announced its capacity and failed afterwards. -/
theorem not_answered_of_abandons {log : List Exchange} {f o : Exchange} (h : [f, o].Sublist log)
    (ho : Announces o) (hf : Abandons f) : ¬ Answered log := by
  intro hlog
  have hpair := List.pairwise_pair.mp (hlog.kept.sublist h)
  exact hpair ho hf

/-! ## The steps of a routine -/

theorem mmcIdleCards_spec (s : Mci) : wp mmcIdleCards (fun _ t =>
    t.globals = s.globals ∧ Adds Quiet s t) blocked s := by
  rw [mmcIdleCards, wp_bind]
  apply wp_post (mmcCmd_spec _ _ _ s)
  rintro r t ⟨e, he, ht, hglobals⟩
  have hadds : Adds Quiet s t := Adds.one ht (he.quiet (by decide) (by decide))
  rw [wp_ite]
  split
  · exact ⟨hglobals, hadds⟩
  · rw [wp_bind]
    apply wp_post (mmcCmd_spec _ _ _ t)
    rintro r' u ⟨f, hf, hu, hglobals'⟩
    exact ⟨hglobals'.trans hglobals, hadds.trans (Adds.one hu (hf.quiet (by decide) (by decide)))⟩

/-- The newest exchange told the operating conditions of a card that is ready. -/
structure ReadyCard (cmd arg : Word) (w : List Word) (o : Exchange) : Prop where
  cmd : o.cmd = cmd
  arg : o.arg = arg
  response : o.response = some w
  ready : w.getD 0 0 &&& Mmc.ready ≠ 0

/-- A command for the operating conditions, on its own or after CMD55. -/
structure Asks (cmd arg : Word) (r : ℤ × List Word) (s t : Mci) : Prop where
  globals : t.globals = s.globals
  quiet : Adds Quiet s t
  answer : r.1 = 0 → ∃ o rest, t.exchanges = o :: rest ∧ Issued cmd arg r o

theorem mmcCmd_asks (cmd arg flags : Word) (hcmd : cmd ≠ sdSendIfCond)
    (harg : cmd = sdSendOpCond → arg ≠ capacity) (s : Mci) :
    wp (mmcCmd cmd arg flags) (fun r t => Asks cmd arg r s t) blocked s := by
  apply wp_post (mmcCmd_spec _ _ _ s)
  rintro r t ⟨e, he, ht, hglobals⟩
  exact ⟨hglobals, Adds.one ht (he.quiet hcmd harg), fun _ => ⟨e, s.exchanges, ht, he⟩⟩

theorem mmcAcmd_asks (cmd arg flags : Word) (hcmd : cmd ≠ sdSendIfCond)
    (harg : cmd = sdSendOpCond → arg ≠ capacity) (s : Mci) :
    wp (mmcAcmd cmd arg flags) (fun r t => Asks cmd arg r s t) blocked s := by
  apply wp_post (mmcAcmd_spec _ _ _ s)
  rintro r t ⟨hglobals, a, e0, he0, ht⟩
  have hquiet0 : Quiet e0 := he0.quiet (by decide) (by decide)
  rcases ht with ⟨hr, ht⟩ | ⟨e, he, ht⟩
  · exact ⟨hglobals, Adds.one ht hquiet0, fun h => absurd h hr⟩
  · refine ⟨hglobals, ⟨[e, e0], ht, ?_⟩, fun _ => ⟨e, _, ht, he⟩⟩
    simpa using ⟨he.quiet hcmd harg, hquiet0⟩

theorem pollOpCond_spec {sendOpCond : Driver (ℤ × List Word)} {cmd arg : Word}
    (hsend : ∀ s, wp sendOpCond (fun r t => Asks cmd arg r s t) blocked s) (n : ℕ) (ret : ℤ)
    (hn : n = 0 → ret ≠ 0) (s : Mci) : wp (pollOpCond sendOpCond n ret) (fun ret t =>
      t.globals = s.globals ∧ Adds Quiet s t ∧
        (ret = 0 → ∃ o rest w, t.exchanges = o :: rest ∧ ReadyCard cmd arg w o)) blocked s := by
  induction n generalizing ret s with
  | zero => exact ⟨rfl, Adds.none rfl, fun h => absurd h (hn rfl)⟩
  | succ n ih =>
    rw [pollOpCond, wp_bind]
    apply wp_post (hsend s)
    intro r t ht
    rw [wp_ite]
    split
    · rename_i hend
      refine ⟨ht.globals, ht.quiet, fun hr => ?_⟩
      rcases ht.answer hr with ⟨o, rest, hexchanges, ho⟩
      refine ⟨o, rest, r.2, hexchanges, ho.cmd, ho.arg, ho.response hr, ?_⟩
      exact hend.resolve_left (not_not.mpr hr)
    · apply wp_post (ih (-etimedout) (fun _ => by decide) t)
      rintro ret u ⟨hglobals, hquiet, hready⟩
      exact ⟨hglobals.trans ht.globals, ht.quiet.trans hquiet, hready⟩

/-- Without a card that is ready nothing is announced. -/
theorem Issued.quiet_of_not_ready {r : ℤ × List Word} {e : Exchange}
    (h : Issued sdSendOpCond capacity r e) (hr : r.1 = 0 → r.2.getD 0 0 &&& ready = 0) :
    Quiet e := by
  constructor
  · rintro ⟨hcmd, -⟩
    rw [h.cmd] at hcmd
    exact absurd hcmd (by decide)
  · rintro ⟨-, -, w, hw, hready, -⟩
    by_cases hzero : r.1 = 0
    · rw [h.response hzero] at hw
      cases hw
      exact hready (hr hzero)
    · rw [h.no_response hzero] at hw
      cases hw

/-- A right echo, or none. -/
theorem Issued.quiet_of_echo {arg : Word} {r : ℤ × List Word} {e : Exchange}
    (h : Issued sdSendIfCond arg r e) (hr : r.1 = 0 → r.2.getD 0 0 = 0x122) : Quiet e := by
  constructor
  · rintro ⟨-, w, hw, hne⟩
    by_cases hzero : r.1 = 0
    · rw [h.response hzero] at hw
      cases hw
      exact hne (hr hzero)
    · rw [h.no_response hzero] at hw
      cases hw
  · rintro ⟨hcmd, -⟩
    rw [h.cmd] at hcmd
    exact absurd hcmd (by decide)

/-- The flag is set iff the card that is ready is of high capacity. -/
def sdhcFlag (w : List Word) (flag : Word) : Word :=
  if w.getD 0 0 &&& capacity = capacity then 1 else flag

/-- One pass of the loop of `sdhc_init_card`: a card that is ready, or nothing announced. -/
theorem askSdhc_spec (flags : Word) (s : Mci) :
    wp (mmcAcmd sdSendOpCond capacity flags) (fun r t => t.globals = s.globals ∧
      ((r.1 = 0 → r.2.getD 0 0 &&& ready = 0) → Adds Quiet s t) ∧
      (r.1 = 0 → r.2.getD 0 0 &&& ready ≠ 0 → ∃ o u, t.exchanges = o :: u.exchanges ∧
        Adds Quiet s u ∧ ReadyCard sdSendOpCond capacity r.2 o)) blocked s := by
  apply wp_post (mmcAcmd_spec _ _ _ s)
  rintro r t ⟨hglobals, a, e0, he0, ht⟩
  have hquiet0 : Quiet e0 := he0.quiet (by decide) (by decide)
  refine ⟨hglobals, fun hr => ?_, fun hr hbit => ?_⟩
  · rcases ht with ⟨-, ht⟩ | ⟨e, he, ht⟩
    · exact Adds.one ht hquiet0
    · exact ⟨[e, e0], ht, by simpa using ⟨he.quiet_of_not_ready hr, hquiet0⟩⟩
  · rcases ht with ⟨hne, -⟩ | ⟨e, he, ht⟩
    · exact absurd hr hne
    · exact ⟨e, { s with exchanges := e0 :: s.exchanges }, ht, Adds.one rfl hquiet0, he.cmd, he.arg,
        he.response hr, hbit⟩

theorem pollOpCondSdhc_spec (n : ℕ) (ret : ℤ) (hn : n = 0 → ret ≠ 0) (s : Mci) :
    wp (pollOpCondSdhc n ret) (fun ret t =>
      (ret ≠ 0 ∧ t.globals = s.globals ∧ Adds Quiet s t) ∨
      (ret = 0 ∧ ∃ o w u, t.exchanges = o :: u.exchanges ∧ Adds Quiet s u ∧
        ReadyCard sdSendOpCond capacity w o ∧
        t.globals = { s.globals with cardIsSdhc := sdhcFlag w s.cardIsSdhc })) blocked s := by
  induction n generalizing ret s with
  | zero => exact Or.inl ⟨hn rfl, rfl, Adds.none rfl⟩
  | succ n ih =>
    rw [pollOpCondSdhc, wp_bind]
    apply wp_post (askSdhc_spec _ s)
    rintro r t ⟨hglobals, hquiet, hready⟩
    rw [wp_ite]
    split
    · rename_i hflag
      rw [wp_bind, wp_modify]
      rcases hready hflag.1 hflag.2.1 with ⟨o, u, hexchanges, hadds, ho⟩
      refine Or.inr ⟨hflag.1, o, r.2, u, hexchanges, hadds, ho, ?_⟩
      rw [sdhcFlag, if_pos hflag.2.2, ← hglobals]
      rfl
    · rename_i hflag
      rw [wp_ite]
      split
      · rename_i hend
        by_cases hr : r.1 = 0
        · have hbit := hend.resolve_left (not_not.mpr hr)
          rcases hready hr hbit with ⟨o, u, hexchanges, hadds, ho⟩
          refine Or.inr ⟨hr, o, r.2, u, hexchanges, hadds, ho, ?_⟩
          have hcap : ¬ r.2.getD 0 0 &&& capacity = capacity := fun h => hflag ⟨hr, hbit, h⟩
          rw [sdhcFlag, if_neg hcap, hglobals]
          rfl
        · exact Or.inl ⟨hr, hglobals, hquiet fun h => absurd h hr⟩
      · rename_i hend
        have hadds : Adds Quiet s t := hquiet fun _ => not_not.mp fun h => hend (Or.inr h)
        apply wp_post (ih (-etimedout) (fun _ => by decide) t)
        rintro ret v (⟨hret, hv, hadds'⟩ | ⟨hret, o, w, u, hexchanges, hadds', ho, hv⟩)
        · exact Or.inl ⟨hret, hv.trans hglobals, hadds.trans hadds'⟩
        · refine Or.inr ⟨hret, o, w, u, hexchanges, hadds.trans hadds', ho, ?_⟩
          have hsdhc : t.cardIsSdhc = s.cardIsSdhc := congrArg Globals.cardIsSdhc hglobals
          rw [hv, hglobals, hsdhc]

theorem mmcDumpCid_silent (cid : Cid) : Silent (mmcDumpCid cid) :=
  Silent.bind (Silent.printf _ _) fun _ => Silent.bind (Silent.printf _ _) fun _ =>
    Silent.bind (Silent.printf _ _) fun _ => Silent.bind (Silent.printf _ _) fun _ =>
      Silent.bind (Silent.printf _ _) fun _ => Silent.printf _ _

/-- An exchange that asked for the CID or the address and got an answer. -/
structure Told (cmd : Word) (w : List Word) (e : Exchange) : Prop where
  cmd : e.cmd = cmd
  response : e.response = some w

theorem Issued.told {cmd arg : Word} {r : ℤ × List Word} {e : Exchange} (h : Issued cmd arg r e)
    (hr : r.1 = 0) : Told cmd r.2 e := ⟨h.cmd, h.response hr⟩

theorem Told.not_abandons {cmd : Word} {w : List Word} {e : Exchange} (h : Told cmd w e) :
    ¬ Abandons e := by
  rintro ⟨-, hnone⟩
  rw [h.response] at hnone
  cases hnone

/-- An address or a CID that did not come; what was recorded before is still there. -/
def Failed (s t : Mci) : Prop :=
  ∃ f rest, t.exchanges = f :: rest ∧ s.exchanges.Sublist rest ∧ Abandons f

theorem sdAddress_spec {detected : Driver Unit} (hdetected : Silent detected) (cid : Cid)
    (verbose : Bool) (s : Mci) : wp (sdAddress detected cid verbose) (fun r t =>
      (r.1 ≠ 0 ∧ t.globals = s.globals ∧ Adds Quiet s t ∧ Failed s t) ∨
      (r.1 = 0 ∧ ∃ a c wa wc, t.exchanges = a :: c :: s.exchanges ∧ Told sdSendRelativeAddr wa a ∧
        Told allSendCid wc c ∧ r.2 = sdParseCid wc ∧
        t.globals = { s.globals with rca := wa.getD 0 0 >>> 16, cardIsSd := 1 })) blocked s := by
  rw [sdAddress, wp_bind]
  apply wp_post (mmcCmd_spec _ _ _ s)
  rintro rc t ⟨c, hc, ht, hglobals⟩
  have hcquiet : Adds Quiet s t := Adds.one ht (hc.quiet (by decide) (by decide))
  rw [wp_ite]
  split
  · rename_i hr
    exact Or.inl ⟨hr, hglobals, hcquiet, c, s.exchanges, ht, List.Sublist.refl _, Or.inl hc.cmd,
      hc.no_response hr⟩
  rename_i hrc
  apply Silent.next (Silent.ite (mmcDumpCid_silent _) Silent.pure)
  intro _ u hu huglobals
  rw [wp_bind]
  apply wp_post (mmcCmd_spec _ _ _ u)
  rintro ra v ⟨a, ha, hv, hvglobals⟩
  have hvs : v.globals = s.globals := hvglobals.trans (huglobals.trans hglobals)
  rw [hu, ht] at hv
  rw [wp_ite]
  split
  · rename_i hr
    refine Or.inl ⟨hr, hvs, ?_, a, _, hv, List.sublist_cons_self c _, Or.inr ha.cmd,
      ha.no_response hr⟩
    refine ⟨[a, c], hv, ?_⟩
    simpa using ⟨ha.quiet (by decide) (by decide), hc.quiet (by decide) (by decide)⟩
  · rename_i hra
    rw [wp_bind, wp_modify]
    apply Silent.next (Silent.ite hdetected Silent.pure)
    intro _ w hw hwglobals
    rw [wp_bind, wp_modify, wp_pure]
    refine Or.inr ⟨rfl, a, c, ra.2, rc.2, hw.trans hv, ha.told (not_not.mp hra),
      hc.told (not_not.mp hrc), rfl, ?_⟩
    have hw' : w.globals = { s.globals with rca := ra.2.getD 0 0 >>> 16 } := by
      rw [hwglobals, ← hvs]
      rfl
    calc ({ w with cardIsSd := 1 } : Mci).globals = { w.globals with cardIsSd := 1 } := rfl
      _ = { s.globals with rca := ra.2.getD 0 0 >>> 16, cardIsSd := 1 } := by rw [hw']

/-! ## The routines -/

section
variable {arg : Word} {wa wc w : List Word} {a c o : Exchange} {rest : List Exchange}

theorem established_sd (ha : Told sdSendRelativeAddr wa a) (hc : Told allSendCid wc c)
    (ho : ReadyCard sdSendOpCond arg w o) : established (a :: c :: o :: rest) =
      some ⟨wa.getD 0 0 >>> 16, 1, if arg = capacity then sdhcFlag w 0 else 0, sdParseCid wc⟩ := by
  simp only [established, ha.response, hc.response, ho.response]
  rw [if_pos ⟨ha.cmd, hc.cmd, ho.ready⟩, if_pos ho.cmd, ho.arg, sdhcFlag, ite_and]

theorem established_mmc (ha : Told setRelativeAddr wa a) (hc : Told allSendCid wc c)
    (ho : ReadyCard sendOpCond arg w o) : established (a :: c :: o :: rest) =
      some ⟨a.arg >>> 16, 0, 0, mmcParseCid wc⟩ := by
  have hcmd : o.cmd ≠ sdSendOpCond := by
    rw [ho.cmd]
    decide
  simp only [established, ha.response, hc.response, ho.response]
  rw [if_pos ⟨ha.cmd, hc.cmd, ho.ready⟩, if_neg hcmd, if_pos ho.cmd]

theorem established_wrongEcho {e : Exchange} (h : WrongEcho e) : established (e :: rest) = none := by
  have hcmd : e.cmd ≠ setRelativeAddr := by
    rw [h.1]
    decide
  rcases rest with - | ⟨c, - | ⟨o, rest⟩⟩
  · rfl
  · rfl
  · rw [established]
    split
    · rw [if_neg fun hall => hcmd hall.1]
    · rfl

end

/-- What `sd_init_card` leaves; the flag of `sdhc_init_card` stays. -/
theorem sdInitCard_spec (cid : Cid) (verbose : Bool) (s : Mci) :
    wp (sdInitCard cid verbose) (fun r t => Adds Quiet s t ∧ t.cardIsSdhc = s.cardIsSdhc ∧
      ((r.1 ≠ 0 ∧ t.globals = s.globals) ∨
        (r.1 = 0 ∧ established t.exchanges = some ⟨t.rca, t.cardIsSd, 0, r.2⟩))) blocked s := by
  rw [sdInitCard, wp_bind]
  apply wp_post (mmcIdleCards_spec s)
  rintro - t ⟨ht, hidle⟩
  rw [wp_bind]
  apply wp_post (pollOpCond_spec (mmcAcmd_asks _ _ _ (by decide) (by decide)) 1000 0 (by decide) t)
  rintro ret u ⟨hu, hpoll, hready⟩
  have hus : u.globals = s.globals := hu.trans ht
  have hadds : Adds Quiet s u := hidle.trans hpoll
  rw [wp_ite]
  split
  · rename_i hret
    exact ⟨hadds, congrArg Globals.cardIsSdhc hus, Or.inl ⟨hret, hus⟩⟩
  rename_i hret
  rcases hready (not_not.mp hret) with ⟨o, rest, w, hexchanges, ho⟩
  have hdetected : Silent sdDetected := fun _ => ⟨rfl, rfl⟩
  apply wp_post (sdAddress_spec hdetected cid verbose u)
  rintro r v (⟨hr, hv, hquiet, -⟩ | ⟨hr, a, c, wa, wc, hv, ha, hc, hcid, hglobals⟩)
  · exact ⟨hadds.trans hquiet, congrArg Globals.cardIsSdhc (hv.trans hus), Or.inl ⟨hr, hv.trans hus⟩⟩
  · have hquiet : Adds Quiet u v := by
      refine ⟨[a, c], hv, ?_⟩
      simpa using ⟨quiet_of_cmd (by simp [ha.cmd]) (by simp [ha.cmd]),
        quiet_of_cmd (by simp [hc.cmd]) (by simp [hc.cmd])⟩
    rw [hus] at hglobals
    have hrca : v.rca = wa.getD 0 0 >>> 16 := congrArg Globals.rca hglobals
    have hsd : v.cardIsSd = 1 := congrArg Globals.cardIsSd hglobals
    refine ⟨hadds.trans hquiet, congrArg Globals.cardIsSdhc hglobals, Or.inr ⟨hr, ?_⟩⟩
    rw [hv, hexchanges, established_sd ha hc ho, hrca, hsd, hcid, if_neg (by decide)]

theorem mmcInitCard_spec (cid : Cid) (verbose : Bool) (s : Mci) (hs : s.rca = defaultRca)
    (hsd : s.cardIsSd = 0) : wp (mmcInitCard cid verbose) (fun r t =>
      Adds Quiet s t ∧ t.cardIsSdhc = s.cardIsSdhc ∧
        (r.1 = 0 → established t.exchanges = some ⟨t.rca, t.cardIsSd, 0, r.2⟩)) blocked s := by
  rw [mmcInitCard, wp_bind]
  apply wp_post (mmcIdleCards_spec s)
  rintro - t ⟨ht, hidle⟩
  rw [wp_bind]
  apply wp_post (pollOpCond_spec (mmcCmd_asks _ _ _ (by decide) (by decide)) 1000 0 (by decide) t)
  rintro ret u ⟨hu, hpoll, hready⟩
  have hus : u.globals = s.globals := hu.trans ht
  have hadds : Adds Quiet s u := hidle.trans hpoll
  rw [wp_ite]
  split
  · rename_i hret
    exact ⟨hadds, congrArg Globals.cardIsSdhc hus, fun h => absurd h hret⟩
  rename_i hret
  rcases hready (not_not.mp hret) with ⟨o, rest, w, hexchanges, ho⟩
  rw [wp_bind]
  apply wp_post (mmcCmd_spec _ _ _ u)
  rintro rc v ⟨c, hc, hv, hvglobals⟩
  have hadds' : Adds Quiet s v := hadds.trans (Adds.one hv (hc.quiet (by decide) (by decide)))
  have hvs : v.globals = s.globals := hvglobals.trans hus
  rw [wp_ite]
  split
  · rename_i hr
    exact ⟨hadds', congrArg Globals.cardIsSdhc hvs, fun h => absurd h hr⟩
  rename_i hrc
  apply Silent.next (Silent.ite (mmcDumpCid_silent _) Silent.pure)
  intro _ x hx hxglobals
  rw [wp_bind, wp_get, wp_bind]
  apply wp_post (mmcCmd_spec _ _ _ x)
  rintro ra y ⟨a, ha, hy, hyglobals⟩
  have hys : y.globals = s.globals := hyglobals.trans (hxglobals.trans hvs)
  have hxrca : x.rca = defaultRca := (congrArg Globals.rca (hxglobals.trans hvs)).trans hs
  have hyrca : y.rca = defaultRca := (congrArg Globals.rca hys).trans hs
  have hysd : y.cardIsSd = 0 := (congrArg Globals.cardIsSd hys).trans hsd
  have hquiet : Adds Quiet v y :=
    Adds.trans (Adds.none hx) (Adds.one hy (ha.quiet (by decide) fun h => absurd h (by decide)))
  refine ⟨hadds'.trans hquiet, congrArg Globals.cardIsSdhc hys, fun hra => ?_⟩
  rw [hy, hx, hv, hexchanges, established_mmc (ha.told hra) (hc.told (not_not.mp hrc)) ho, ha.arg,
    hxrca, hyrca, hysd]
  rfl

/-- The ways out of `sdhc_init_card`: an error before anything was announced, a wrong echo, an error
after the flag was set, and a completed identification. -/
inductive SdhcOutcome (s : Mci) (r : ℤ × Cid) (t : Mci) : Prop where
  | refused (hr : r.1 ≠ 0) (globals : t.globals = s.globals) (quiet : ∀ e ∈ t.exchanges, Quiet e)
  | echo (hr : r.1 = 0) (e : Exchange) (rest : List Exchange) (log : t.exchanges = e :: rest)
      (wrong : WrongEcho e)
  | abandoned (hr : r.1 ≠ 0) (globals : t.globals = { s.globals with cardIsSdhc := 1 })
      (f o : Exchange) (log : [f, o].Sublist t.exchanges) (announces : Announces o)
      (abandons : Abandons f)
  | completed (hr : r.1 = 0)
      (established : established t.exchanges = some ⟨t.rca, t.cardIsSd, t.cardIsSdhc, r.2⟩)
      (answered : Answered t.exchanges)

theorem sdhcAddress_spec (cid : Cid) (verbose : Bool) {o : Exchange} {w : List Word}
    {rest : List Exchange} (hs : s.cardIsSdhc = 0) (ho : ReadyCard sdSendOpCond capacity w o)
    (hrest : ∀ e ∈ rest, Quiet e) (ht : t.exchanges = o :: rest)
    (hglobals : t.globals = { s.globals with cardIsSdhc := sdhcFlag w s.cardIsSdhc }) :
    wp (sdAddress sdhcDetected cid verbose) (fun r t => SdhcOutcome s r t) blocked t := by
  have hdetected : Silent sdhcDetected := fun _ => ⟨rfl, rfl⟩
  have hecho : ¬ WrongEcho o := by
    rintro ⟨hcmd, -⟩
    rw [ho.cmd] at hcmd
    exact absurd hcmd (by decide)
  apply wp_post (sdAddress_spec hdetected cid verbose t)
  rintro r v (⟨hr, hv, hquiet, f, rest', hf, hsub, habandons⟩ |
    ⟨hr, a, c, wa, wc, hv, ha, hc, hcid, hvglobals⟩)
  · by_cases hcap : w.getD 0 0 &&& capacity = capacity
    · apply SdhcOutcome.abandoned hr ?_ f o ?_ ⟨ho.cmd, ho.arg, w, ho.response, ho.ready, hcap⟩
        habandons
      · rw [hv, hglobals, sdhcFlag, if_pos hcap]
      · rw [hf]
        apply List.Sublist.cons_cons
        rw [ht] at hsub
        exact (List.singleton_sublist.mpr List.mem_cons_self).trans hsub
    · apply SdhcOutcome.refused hr
      · rw [hv, hglobals, sdhcFlag, if_neg hcap]
        rfl
      · rcases hquiet with ⟨new, hnew, hquiet⟩
        have hoquiet : Quiet o := by
          refine ⟨hecho, ?_⟩
          rintro ⟨-, -, w', hw', -, hcap'⟩
          rw [ho.response] at hw'
          cases hw'
          exact hcap hcap'
        rw [hnew, ht]
        exact List.forall_mem_append.mpr ⟨hquiet, List.forall_mem_cons.mpr ⟨hoquiet, hrest⟩⟩
  · have hrca : v.rca = wa.getD 0 0 >>> 16 := congrArg Globals.rca hvglobals
    have hsd : v.cardIsSd = 1 := congrArg Globals.cardIsSd hvglobals
    have hsdhc : v.cardIsSdhc = sdhcFlag w 0 := by
      rw [← hs]
      exact (congrArg Globals.cardIsSdhc hvglobals).trans (congrArg Globals.cardIsSdhc hglobals)
    apply SdhcOutcome.completed hr
    · rw [hv, ht, established_sd ha hc ho, hrca, hsd, hsdhc, hcid, if_pos rfl]
    · have hnew : ∀ e ∈ [a, c], Quiet e ∧ ¬ Abandons e := by
        intro e he
        rcases List.mem_pair.mp he with rfl | rfl
        · exact ⟨quiet_of_cmd (by simp [ha.cmd]) (by simp [ha.cmd]), ha.not_abandons⟩
        · exact ⟨quiet_of_cmd (by simp [hc.cmd]) (by simp [hc.cmd]), hc.not_abandons⟩
      rw [hv, ht]
      exact (answered_append hnew).mpr (answered_cons hecho hrest)

theorem Adds.forall_mem {P : Exchange → Prop} (h : Adds P s t) (hs : s.exchanges = []) :
    ∀ e ∈ t.exchanges, P e := by
  rcases h with ⟨new, ht, hnew⟩
  rw [ht, hs, List.append_nil]
  exact hnew

theorem sdhcInitCard_spec (cid : Cid) (verbose : Bool) (s : Mci) (hs : s.exchanges = [])
    (hflag : s.cardIsSdhc = 0) :
    wp (sdhcInitCard cid verbose) (fun r t => SdhcOutcome s r t) blocked s := by
  rw [sdhcInitCard, wp_bind]
  apply wp_post (mmcIdleCards_spec s)
  rintro - t ⟨ht, hidle⟩
  rw [wp_bind]
  apply wp_post (mmcCmd_spec _ _ _ t)
  rintro r u ⟨e, he, hu, huglobals⟩
  have hus : u.globals = s.globals := huglobals.trans ht
  rw [wp_ite]
  split
  · rename_i hend
    by_cases hr : r.1 = 0
    · exact SdhcOutcome.echo hr e t.exchanges hu
        ⟨he.cmd, r.2, he.response hr, hend.resolve_left (not_not.mpr hr)⟩
    · have hquiet : Quiet e := he.quiet_of_echo fun h => absurd h hr
      exact SdhcOutcome.refused hr hus ((hidle.trans (Adds.one hu hquiet)).forall_mem hs)
  rename_i hgo
  have hquiet : Quiet e := he.quiet_of_echo fun _ => not_not.mp fun h => hgo (Or.inr h)
  have hadds : Adds Quiet s u := hidle.trans (Adds.one hu hquiet)
  rw [wp_bind]
  apply wp_post (pollOpCondSdhc_spec 1000 0 (by decide) u)
  rintro ret v (⟨hret, hv, hpoll⟩ | ⟨hret, o, w, x, hv, hpoll, ho, hglobals⟩)
  · rw [if_pos hret]
    exact SdhcOutcome.refused hret (hv.trans hus) ((hadds.trans hpoll).forall_mem hs)
  · rw [if_neg (not_not.mpr hret)]
    have hglobals' : v.globals = { s.globals with cardIsSdhc := sdhcFlag w s.cardIsSdhc } := by
      have husdhc : u.cardIsSdhc = s.cardIsSdhc := congrArg Globals.cardIsSdhc hus
      rw [hglobals, hus, husdhc]
    exact sdhcAddress_spec cid verbose hflag ho ((hadds.trans hpoll).forall_mem hs) hv hglobals'

/-- The globals and the CID are those that the completed routine established. -/
def Identified (log : List Exchange) (cid : Cid) (t : Mci) : Prop :=
  established log = some ⟨t.rca, t.cardIsSd, t.cardIsSdhc, cid⟩

/-- The globals are those that a completed routine established iff the card answered well. -/
structure Settled (cid : Cid) (t : Mci) : Prop where
  identified : Answered t.exchanges → Identified t.exchanges cid t
  stale : ¬ Answered t.exchanges → ∀ c, ¬ Identified t.exchanges c t

theorem SdhcOutcome.cardIsSd {r : ℤ × Cid} (h : SdhcOutcome s r t) (hr : r.1 ≠ 0) :
    t.cardIsSd = s.cardIsSd := by
  cases h with
  | refused _ globals => exact congrArg Globals.cardIsSd globals
  | echo hzero => exact absurd hzero hr
  | abandoned _ globals => exact congrArg Globals.cardIsSd globals
  | completed hzero => exact absurd hzero hr

theorem settled_after {u : Mci} {r q : ℤ × Cid} (h : SdhcOutcome s r t) (hr : r.1 ≠ 0)
    (hs : s.cardIsSdhc = 0) (htu : u.cardIsSdhc = t.cardIsSdhc)
    (hadds : ∃ new, u.exchanges = new ++ t.exchanges ∧ ∀ e ∈ new, Quiet e)
    (hu : established u.exchanges = some ⟨u.rca, u.cardIsSd, 0, q.2⟩) : Settled q.2 u := by
  rcases hadds with ⟨new, hnew, hquiet⟩
  cases h with
  | refused _ globals quiet =>
    have hflag : u.cardIsSdhc = 0 := by
      rw [htu, ← hs]
      exact congrArg Globals.cardIsSdhc globals
    have hall : ∀ e ∈ u.exchanges, Quiet e := by
      rw [hnew]
      exact List.forall_mem_append.mpr ⟨hquiet, quiet⟩
    constructor
    · intro _
      rw [Identified, hu, hflag]
    · intro h
      exact absurd (answered_of_quiet hall) h
  | echo hzero => exact absurd hzero hr
  | abandoned _ globals f o log announces abandons =>
    have hflag : u.cardIsSdhc = 1 := by
      rw [htu]
      exact congrArg Globals.cardIsSdhc globals
    constructor
    · intro h
      rw [hnew] at h
      exact absurd h
        (not_answered_of_abandons (log.trans (List.sublist_append_right new _)) announces abandons)
    · intro _ c h
      rw [Identified, hu, hflag] at h
      cases h
  | completed hzero => exact absurd hzero hr

theorem identify_spec (cid : Cid) (verbose : Bool) (s : Mci) (hs : s.exchanges = []) :
    wp (identify cid verbose) (fun r t => r.1 = 0 → Settled r.2 t) blocked s := by
  rw [identify, wp_bind, wp_modify, wp_bind]
  apply wp_post (sdhcInitCard_spec cid verbose { s with cardIsSd := 0, cardIsSdhc := 0 } hs rfl)
  intro r t ht
  rw [wp_ite]
  split
  · rename_i hr
    intro _
    cases ht with
    | refused hne => exact absurd hr hne
    | echo _ e rest log wrong =>
      have hwrong : e ∈ t.exchanges := by
        rw [log]
        exact List.mem_cons_self
      constructor
      · intro h
        exact absurd h (not_answered_of_wrongEcho hwrong wrong)
      · intro _ c h
        rw [Identified, log, established_wrongEcho wrong] at h
        cases h
    | abandoned hne => exact absurd hr hne
    | completed _ established answered => exact ⟨fun _ => established, fun h => absurd answered h⟩
  rename_i hr
  rw [wp_bind]
  apply wp_post (sdInitCard_spec r.2 verbose t)
  rintro q u ⟨hadds, hsdhc, hu⟩
  rw [wp_ite]
  split
  · rename_i hq
    intro _
    rcases hu with ⟨hne, -⟩ | ⟨-, hestablished⟩
    · exact absurd hq hne
    · exact settled_after ht hr rfl hsdhc hadds hestablished
  rename_i hq
  have hsd : u.cardIsSd = 0 := by
    rcases hu with ⟨-, hglobals⟩ | ⟨hzero, -⟩
    · exact (congrArg Globals.cardIsSd hglobals).trans (ht.cardIsSd hr)
    · exact absurd hzero hq
  rw [wp_bind, wp_modify]
  apply wp_post (mmcInitCard_spec q.2 verbose { u with rca := defaultRca } rfl hsd)
  rintro p v ⟨hadds', hsdhc', hv⟩ hp
  have hall : ∃ new, v.exchanges = new ++ t.exchanges ∧ ∀ e ∈ new, Quiet e := hadds.trans hadds'
  exact settled_after ht hr rfl (hsdhc'.trans hsdhc) hall (hv hp)

end Armboard.Mmc
