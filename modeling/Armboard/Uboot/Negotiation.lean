import Armboard.Uboot.LinkMode

/-! # How a link speed is found

What the driver answers and what EMAC_CFG holds then depends on the values of the
status register that come, on what the partner offers and on EMAC_CFG before. The
accesses in between do not matter, but for the advertisement: it offers all modes.
-/

namespace Armboard.Uboot.Phy
open Exec

/-- The values of XSR that were not read yet. -/
def Mac.xsr (s : Mac) (i : ℕ) : BitVec 16 := s.chip.reads xsrReg (s.count xsrReg + i)

def Up (stat : BitVec 16) : Prop := stat &&& xsrLink ≠ 0

def Complete (stat : BitVec 16) : Prop := stat &&& xsrAnComplete ≠ 0

/-- The last status that was read had the link up. -/
def LinkUp (s : Mac) : Prop := Up (s.chip.reads xsrReg (s.count xsrReg - 1))

def OffersAll (s : Mac) : Prop := ∀ m : LinkMode, s.written anaReg &&& m.anaBit ≠ 0

instance (stat : BitVec 16) : Decidable (Up stat) := by
  unfold Up
  infer_instance

instance (stat : BitVec 16) : Decidable (Complete stat) := by
  unfold Complete
  infer_instance

variable {s t u : Mac} {n k : ℕ}

/-- From `s` to `t` the status was read `n` times, and all modes are still offered if they were. -/
structure Passes (n : ℕ) (s t : Mac) : Prop where
  chip : t.chip = s.chip
  count : t.count xsrReg = s.count xsrReg + n
  offers : OffersAll s → OffersAll t

theorem Passes.trans (h : Passes n s t) (h' : Passes k t u) : Passes (n + k) s u := by
  constructor
  · rw [h'.chip, h.chip]
  · rw [h'.count, h.count, Nat.add_assoc]
  · exact fun hs => h'.offers (h.offers hs)

theorem Passes.xsr (h : Passes n s t) (i : ℕ) : t.xsr i = s.xsr (n + i) := by
  rw [Mac.xsr, Mac.xsr, h.chip, h.count, Nat.add_assoc]

/-- Neither the status register nor EMAC_CFG is touched. -/
def Idle {α : Type} (x : Driver α) : Prop :=
  ∀ s, wp x (fun _ t => Passes 0 s t ∧ t.cfg = s.cfg) never s

theorem Idle.next {α β : Type} {x : Driver α} {y : α → Driver β} {Q : β → Mac → Prop}
    (hx : Idle x) (h : ∀ a t, Passes 0 s t → t.cfg = s.cfg → wp (y a) Q never t) :
    wp (x >>= y) Q never s := by
  rw [wp_bind]
  apply wp_post (hx s)
  rintro a t ⟨hpasses, hcfg⟩
  exact h a t hpasses hcfg

theorem Idle.bind {α β : Type} {x : Driver α} {y : α → Driver β} (hx : Idle x)
    (hy : ∀ a, Idle (y a)) : Idle (x >>= y) := by
  intro s
  apply hx.next
  intro a t ht hcfg
  apply wp_post (hy a t)
  rintro b u ⟨hu, hcfg'⟩
  exact ⟨ht.trans hu, hcfg'.trans hcfg⟩

theorem Idle.ite {α : Type} {c : Prop} [Decidable c] {x y : Driver α} (hx : Idle x)
    (hy : Idle y) : Idle (if c then x else y) := by
  split
  · exact hx
  · exact hy

theorem Idle.pure {α : Type} (a : α) : Idle (pure a) := fun _ => ⟨⟨rfl, rfl, fun h => h⟩, rfl⟩

theorem Idle.printf (format : String) (args : List Arg) : Idle (printf format args) :=
  fun _ => ⟨⟨rfl, rfl, fun h => h⟩, rfl⟩

theorem Idle.debugPrintf (debug : Bool) (format : String) (args : List Arg) :
    Idle (debugPrintf debug format args) := Idle.ite (Idle.printf format args) (Idle.pure ())

theorem Idle.enable : Idle emacEnableMdio := fun _ => ⟨⟨rfl, rfl, fun h => h⟩, rfl⟩

theorem Idle.disable : Idle emacDisableMdio := fun _ => ⟨⟨rfl, rfl, fun h => h⟩, rfl⟩

theorem Idle.read {reg : ℕ} (h : reg ≠ xsrReg) : Idle (emacReadPhy reg) := by
  intro s
  rw [emacReadPhy, wp_bind, wp_get, wp_bind, wp_set, wp_pure]
  refine ⟨⟨rfl, ?_, fun h => h⟩, rfl⟩
  exact Function.update_of_ne h.symm _ _

theorem Idle.write {reg : ℕ} (value : BitVec 16) (h : reg ≠ anaReg) :
    Idle (emacWritePhy reg value) := by
  intro s
  rw [emacWritePhy, wp_bind, wp_modify, wp_pure]
  refine ⟨⟨rfl, rfl, fun hs m => ?_⟩, rfl⟩
  simp only [Function.update_of_ne h.symm]
  exact hs m

theorem wp_writeAna {value : BitVec 16} (h : ∀ m : LinkMode, value &&& m.anaBit ≠ 0) (s : Mac) :
    wp (emacWritePhy anaReg value)
      (fun ok t => ok = true ∧ OffersAll t ∧ Passes 0 s t ∧ t.cfg = s.cfg) never s := by
  rw [emacWritePhy, wp_bind, wp_modify, wp_pure]
  have hoffers : OffersAll { s with written := Function.update s.written anaReg value } := by
    intro m
    simpa using h m
  exact ⟨rfl, hoffers, ⟨rfl, rfl, fun _ => hoffers⟩, rfl⟩

theorem Idle.writeAna {value : BitVec 16} (h : ∀ m : LinkMode, value &&& m.anaBit ≠ 0) :
    Idle (emacWritePhy anaReg value) := by
  intro s
  apply wp_post (wp_writeAna h s)
  rintro ok t ⟨-, -, ht, hcfg⟩
  exact ⟨ht, hcfg⟩

theorem wp_readAnlp (s : Mac) : wp (emacReadPhy anlpReg)
    (fun r t => r = (true, s.chip.anlp) ∧ Passes 0 s t ∧ t.cfg = s.cfg) never s := by
  rw [emacReadPhy, wp_bind, wp_get, wp_bind, wp_set, wp_pure]
  refine ⟨?_, ⟨rfl, ?_, fun h => h⟩, rfl⟩
  · rw [s.chip.anlp_const]
  · exact Function.update_of_ne (show xsrReg ≠ anlpReg by decide) (s.count anlpReg + 1) s.count

theorem wp_readXsr (s : Mac) : wp (emacReadPhy xsrReg)
    (fun r t => r = (true, s.xsr 0) ∧ Passes 1 s t ∧ t.cfg = s.cfg) never s := by
  rw [emacReadPhy, wp_bind, wp_get, wp_bind, wp_set, wp_pure]
  refine ⟨rfl, ⟨rfl, ?_, fun h => h⟩, rfl⟩
  simp

/-! ## Reset and link -/

theorem waitReset_idle (debug : Bool) (n : ℕ) : Idle (waitReset debug n) := by
  induction n with
  | zero => exact Idle.pure ()
  | succ n ih =>
    rw [waitReset]
    apply (Idle.read (by decide)).bind
    intro r
    exact Idle.ite (Idle.debugPrintf debug _ _) ih

/-- Something idle in front of what ends in `P`. -/
theorem Idle.skip {α β : Type} {x : Driver α} {y : α → Driver β} {P : Mac → Prop} (hx : Idle x)
    (h : ∀ a t, wp (y a) (fun _ u => P u ∧ Passes 0 t u ∧ u.cfg = t.cfg) never t) (s : Mac) :
    wp (x >>= y) (fun _ u => P u ∧ Passes 0 s u ∧ u.cfg = s.cfg) never s := by
  apply hx.next
  intro a t ht hcfg
  apply wp_post (h a t)
  rintro b u ⟨hP, hu, hcfg'⟩
  exact ⟨hP, ht.trans hu, hcfg'.trans hcfg⟩

theorem phyReset_spec (debug : Bool) (s : Mac) : wp (phyReset debug)
    (fun _ t => OffersAll t ∧ Passes 0 s t ∧ t.cfg = s.cfg) never s := by
  rw [phyReset]
  apply (Idle.debugPrintf debug _ _).skip
  intro _ t
  apply Idle.enable.skip
  intro _ t
  apply (Idle.read (by decide)).skip
  intro r t
  apply (Idle.write _ (by decide)).skip
  intro _ t
  apply (waitReset_idle debug 99).skip
  intro _ t
  rw [wp_bind]
  apply wp_post (wp_writeAna (fun m => by cases m <;> decide) t)
  rintro ok u ⟨-, hoffers, hu, hcfg⟩
  have hrest : Idle (do
      let r ← emacReadPhy xieReg
      let _ ← emacWritePhy xieReg (r.2 &&& ~~~xieAll)
      let r ← emacReadPhy xcrReg
      let _ ← emacWritePhy xcrReg (r.2 ||| (xcrAn ||| xcrRstrtAn))
      emacDisableMdio) := by
    apply (Idle.read (by decide)).bind
    intro r
    apply (Idle.write _ (by decide)).bind
    intro _
    apply (Idle.read (by decide)).bind
    intro r
    apply (Idle.write _ (by decide)).bind
    intro _
    exact Idle.disable
  apply wp_post (hrest u)
  rintro _ v ⟨hv, hcfg'⟩
  exact ⟨hv.offers hoffers, hu.trans hv, hcfg'.trans hcfg⟩

theorem deisolate_idle : Idle deisolate := by
  rw [deisolate]
  apply (Idle.write _ (by decide)).bind
  intro _
  apply (Idle.write _ (by decide)).bind
  intro _
  apply Idle.ite
  · apply (Idle.write _ (by decide)).bind
    intro _
    apply (Idle.read (by decide)).bind
    intro _
    exact Idle.pure ()
  · exact Idle.pure ()

/-- How often the status is read until the link is up, and at most `n + 1` times. -/
def waited (x : ℕ → BitVec 16) : ℕ → ℕ
  | 0 => 1
  | n + 1 => if Up (x 0) then 1 else 1 + waited (fun i => x (1 + i)) n

theorem toNat_next {loop : Word} (h : loop.toNat + 1 < 2 ^ 32) :
    (loop + 1).toNat = loop.toNat + 1 := by
  rw [BitVec.toNat_add]
  exact Nat.mod_eq_of_lt h

theorem waitForLinkLoop_spec (timeout loop : Word) (n k : ℕ) (hk : loop.toNat + k = timeout.toNat)
    (hn : k < n) (htimeout : timeout.toNat + 1 < 2 ^ 32) (s : Mac) :
    wp (waitForLinkLoop timeout n loop)
      (fun _ t => Passes (waited s.xsr k) s t ∧ t.cfg = s.cfg) never s := by
  induction k generalizing loop n s with
  | zero =>
    cases n with
    | zero => omega
    | succ n =>
      rw [waitForLinkLoop, wp_bind]
      apply wp_post (wp_readXsr s)
      rintro r t ⟨rfl, ht, hcfg⟩
      have hover : loop + 1 > timeout := by
        rw [gt_iff_lt, BitVec.lt_def, toNat_next (by omega)]
        omega
      rw [wp_ite, wp_ite, if_pos hover]
      split
      · exact ⟨ht, hcfg⟩
      · exact ⟨ht, hcfg⟩
  | succ k ih =>
    cases n with
    | zero => omega
    | succ n =>
      rw [waitForLinkLoop, wp_bind]
      apply wp_post (wp_readXsr s)
      rintro r t ⟨rfl, ht, hcfg⟩
      have hnext : (loop + 1).toNat = loop.toNat + 1 := toNat_next (by omega)
      have hmore : ¬ loop + 1 > timeout := by
        rw [gt_iff_lt, BitVec.lt_def, hnext]
        omega
      rw [wp_ite, wp_ite, if_neg hmore, waited]
      split
      · rename_i hup
        rw [if_pos (show Up (s.xsr 0) from hup)]
        exact ⟨ht, hcfg⟩
      · rename_i hdown
        rw [if_neg (show ¬ Up (s.xsr 0) from hdown)]
        apply wp_post (ih (loop + 1) n (by omega) (by omega) t)
        rintro _ u ⟨hu, hcfg'⟩
        have hrest : t.xsr = fun i => s.xsr (1 + i) := funext fun i => ht.xsr i
        rw [hrest] at hu
        exact ⟨ht.trans hu, hcfg'.trans hcfg⟩

theorem waitForLink_spec (s : Mac) :
    wp (waitForLink 500) (fun _ t => Passes (waited s.xsr 500) s t ∧ t.cfg = s.cfg) never s :=
  waitForLinkLoop_spec 500 0 501 500 rfl (by omega) (by simp) s

/-! ## What the driver does -/

/-- What a part of the driver does: its answer, EMAC_CFG after it, and how often it reads XSR. -/
structure Outcome where
  ret : Bool
  cfg : Word
  reads : ℕ

def Outcome.after (n : ℕ) (o : Outcome) : Outcome := { o with reads := n + o.reads }

/-- `ste100p_GetLinkSpeed` for the values of XSR that come: 100 full, if the link is up. -/
def speedOutcome (x : ℕ → BitVec 16) (cfg : Word) : Outcome :=
  if Up (x 0) then ⟨true, cfg ||| (emacSpd ||| emacFd), 1⟩
  else if Up (x 1) then ⟨true, cfg ||| (emacSpd ||| emacFd), 2⟩
  else ⟨false, cfg, 2⟩

/-- One of two reads of the status sees the link up: the first can return a failure that is over. -/
def Sees (x : ℕ → BitVec 16) (i : ℕ) : Prop := Up (x i) ∨ Up (x (i + 1))

variable {x : ℕ → BitVec 16} {cfg : Word}

theorem speedOutcome_up (cfg : Word) (h : Sees x 0) : ∃ n, Up (x n) ∧
    speedOutcome x cfg = ⟨true, cfg ||| (emacSpd ||| emacFd), n + 1⟩ := by
  by_cases hfirst : Up (x 0)
  · exact ⟨0, hfirst, if_pos hfirst⟩
  · have hsecond : Up (x 1) := h.resolve_left hfirst
    refine ⟨1, hsecond, ?_⟩
    rw [speedOutcome, if_neg hfirst, if_pos hsecond]

theorem speedOutcome_down (h : ¬ Sees x 0) : speedOutcome x cfg = ⟨false, cfg, 2⟩ := by
  have hfirst : ¬ Up (x 0) := fun hup => h (Or.inl hup)
  have hsecond : ¬ Up (x 1) := fun hup => h (Or.inr hup)
  rw [speedOutcome, if_neg hfirst, if_neg hsecond]

theorem speedOutcome_failed (h : (speedOutcome x cfg).ret = false) :
    speedOutcome x cfg = ⟨false, cfg, 2⟩ := by
  by_cases hsees : Sees x 0
  · rcases speedOutcome_up cfg hsees with ⟨n, -, hspeed⟩
    rw [hspeed] at h
    cases h
  · exact speedOutcome_down hsees

/-- `ste100p_AutoNegotiate`, with what the partner offers and the next value of XSR. -/
def autoOutcome (anlp stat : BitVec 16) (cfg : Word) : Outcome :=
  if ¬ Complete stat then ⟨false, cfg, 1⟩
  else if Offered anlp .full100 then ⟨true, cfg ||| (emacSpd ||| emacFd), 1⟩
  else if Offered anlp .half100 then ⟨true, (cfg &&& ~~~(emacSpd ||| emacFd)) ||| emacFd, 1⟩
  else ⟨false, cfg, 1⟩

structure Done (o : Outcome) (s : Mac) (ret : Bool) (t : Mac) : Prop where
  ret : ret = o.ret
  cfg : t.cfg = o.cfg
  passes : Passes o.reads s t

theorem Passes.done {o : Outcome} {ret : Bool} (h : Passes n s t) (h' : Done o t ret u) :
    Done (o.after n) s ret u := by
  constructor
  · exact h'.ret
  · exact h'.cfg
  · exact h.trans h'.passes

@[simp] theorem Outcome.after_zero (o : Outcome) : o.after 0 = o := by
  simp [Outcome.after]

theorem Outcome.after_after (o : Outcome) : (o.after n).after k = o.after (k + n) := by
  simp [Outcome.after, Nat.add_assoc]

theorem Done.idle {o : Outcome} {ret : Bool} (h : Done o s ret t) (hu : Passes 0 t u)
    (hcfg : u.cfg = t.cfg) : Done o s ret u := by
  constructor
  · exact h.ret
  · exact hcfg.trans h.cfg
  · exact h.passes.trans hu

/-- The outcome depends on what the partner offers, the values of XSR that come and EMAC_CFG. -/
def Does (out : BitVec 16 → (ℕ → BitVec 16) → Word → Outcome) (x : Driver Bool) : Prop :=
  ∀ s, wp x (Done (out s.chip.anlp s.xsr s.cfg) s) never s

variable {out : BitVec 16 → (ℕ → BitVec 16) → Word → Outcome}

theorem Does.from {x : Driver Bool} (h : Does out x) (ht : Passes n s t) (hcfg : t.cfg = s.cfg) :
    wp x (Done ((out s.chip.anlp (fun i => s.xsr (n + i)) s.cfg).after n) s) never t := by
  have hxsr : t.xsr = fun i => s.xsr (n + i) := funext fun i => ht.xsr i
  apply wp_post (h t)
  intro ret u hu
  rw [ht.chip, hxsr, hcfg] at hu
  exact ht.done hu

theorem Does.fromIdle {x : Driver Bool} (h : Does out x) (ht : Passes 0 s t)
    (hcfg : t.cfg = s.cfg) : wp x (Done (out s.chip.anlp s.xsr s.cfg) s) never t := by
  simpa using h.from ht hcfg

theorem Idle.does {α : Type} {x : Driver α} {y : α → Driver Bool} (hx : Idle x)
    (hy : ∀ a, Does out (y a)) : Does out (x >>= y) := by
  intro s
  apply hx.next
  intro a t ht hcfg
  exact (hy a).fromIdle ht hcfg

theorem setLinkSpeed_spec (stat : BitVec 16) (h : stat &&& 0x7800 = 0x7800) (s : Mac) :
    wp (setLinkSpeed stat) (Done ⟨true, s.cfg ||| (emacSpd ||| emacFd), 0⟩ s) never s := by
  have hfull : stat &&& xsr100txFull ≠ 0 := by
    intro hzero
    have hbit : (stat &&& 0x7800) &&& xsr100txFull = 0 := by
      rw [BitVec.and_assoc]
      exact hzero
    rw [h] at hbit
    exact absurd hbit (by decide)
  rw [setLinkSpeed, if_pos hfull, wp_bind, wp_modify, printf, wp_bind, wp_modify, wp_pure]
  exact ⟨rfl, rfl, rfl, rfl, fun hs => hs⟩

theorem Mac.xsr_abilities (s : Mac) (i : ℕ) : s.xsr i &&& 0x7800 = 0x7800 := s.chip.abilities _

theorem getLinkSpeed_spec : Does (fun _ => speedOutcome) getLinkSpeed := by
  intro s
  change wp getLinkSpeed (Done (speedOutcome s.xsr s.cfg) s) never s
  rw [getLinkSpeed, wp_bind]
  apply wp_post (wp_readXsr s)
  rintro r t ⟨rfl, ht, hcfg⟩
  rw [wp_ite, if_neg (by simp), wp_ite, speedOutcome]
  split
  · rename_i hdown
    rw [if_neg (show ¬ Up (s.xsr 0) from not_not.mpr hdown), wp_bind]
    apply wp_post (wp_readXsr t)
    rintro r u ⟨rfl, hu, hcfg'⟩
    have hsecond : t.xsr 0 = s.xsr 1 := ht.xsr 0
    have hboth : Passes 2 s u := ht.trans hu
    simp only [Bool.true_eq_false, false_or, hsecond, wp_ite]
    split
    · rename_i hdown'
      rw [if_neg (show ¬ Up (s.xsr 1) from not_not.mpr hdown'), printf, wp_bind, wp_modify]
      exact ⟨rfl, hcfg'.trans hcfg, hboth.chip, hboth.count, hboth.offers⟩
    · rename_i hup
      rw [if_pos (show Up (s.xsr 1) from hup)]
      apply wp_post (setLinkSpeed_spec _ (s.xsr_abilities 1) u)
      intro ret v hv
      rw [hcfg', hcfg] at hv
      exact hboth.done hv
  · rename_i hup
    rw [if_pos (show Up (s.xsr 0) from hup)]
    apply wp_post (setLinkSpeed_spec _ (s.xsr_abilities 0) t)
    intro ret v hv
    rw [hcfg] at hv
    exact ht.done hv

theorem wp_readOrFail {Q : Bool → Mac → Prop} (reg : ℕ) (next : BitVec 16 → Driver Bool) :
    wp (readOrFail reg next) Q never s ↔
      wp (emacReadPhy reg) (fun r t => wp (next r.2) Q never t) never s := Iff.rfl

theorem wp_writeOrFail {Q : Bool → Mac → Prop} (reg : ℕ) (value : BitVec 16) (next : Driver Bool) :
    wp (writeOrFail reg value next) Q never s ↔
      wp (emacWritePhy reg value) (fun _ t => wp next Q never t) never s := Iff.rfl

theorem Does.read {reg : ℕ} {next : BitVec 16 → Driver Bool} (hreg : reg ≠ xsrReg)
    (h : ∀ value, Does out (next value)) : Does out (readOrFail reg next) := by
  intro s
  rw [wp_readOrFail]
  apply wp_post (Idle.read hreg s)
  rintro r t ⟨ht, hcfg⟩
  exact (h r.2).fromIdle ht hcfg

theorem Does.write {reg : ℕ} {value : BitVec 16} {next : Driver Bool}
    (hwrite : Idle (emacWritePhy reg value)) (h : Does out next) :
    Does out (writeOrFail reg value next) := by
  intro s
  rw [wp_writeOrFail]
  apply wp_post (hwrite s)
  rintro _ t ⟨ht, hcfg⟩
  exact h.fromIdle ht hcfg

/-- The end of `ste100p_AutoNegotiate`: the status and what the partner offers. -/
theorem autoNegotiate_end : Does (fun anlp x => autoOutcome anlp (x 0)) (do
    let r ← emacReadPhy xsrReg
    if r.2 &&& xsrAnComplete = 0 then pure false
    else readOrFail anlpReg fun phyAnalpar =>
      if phyAnar &&& anaTxf ≠ 0 ∧ phyAnalpar &&& anlpLptxf ≠ 0 then do
        modify fun s => { s with cfg := s.cfg ||| (emacSpd ||| emacFd) }
        pure true
      else if phyAnar &&& ana10f ≠ 0 ∧ phyAnalpar &&& anlpLptxh ≠ 0 then do
        modify fun s => { s with cfg := (s.cfg &&& ~~~(emacSpd ||| emacFd)) ||| emacFd }
        pure true
      else pure false) := by
  intro s
  change wp _ (Done (autoOutcome s.chip.anlp (s.xsr 0) s.cfg) s) never s
  -- all modes are in `phyAnar`, so only what the partner offers counts
  have hlptxf : (phyAnar &&& anaTxf ≠ 0 ∧ s.chip.anlp &&& anlpLptxf ≠ 0) ↔
      Offered s.chip.anlp .full100 := and_iff_right (by decide)
  have hlptxh : (phyAnar &&& ana10f ≠ 0 ∧ s.chip.anlp &&& anlpLptxh ≠ 0) ↔
      Offered s.chip.anlp .half100 := and_iff_right (by decide)
  rw [wp_bind]
  apply wp_post (wp_readXsr s)
  rintro r t ⟨rfl, ht, hcfg⟩
  rw [wp_ite, autoOutcome]
  split
  · rename_i hopen
    rw [if_pos (show ¬ Complete (s.xsr 0) from not_not.mpr hopen)]
    exact ⟨rfl, hcfg, ht⟩
  rename_i hcomplete
  rw [if_neg (not_not.mpr (show Complete (s.xsr 0) from hcomplete)), wp_readOrFail]
  apply wp_post (wp_readAnlp t)
  rintro r u ⟨rfl, hu, hcfg'⟩
  have hall : Passes 1 s u := ht.trans hu
  simp only [wp_ite, wp_bind, wp_modify, wp_pure, hcfg', hcfg, ht.chip]
  split
  · rename_i hfull
    rw [if_pos (hlptxf.mp hfull)]
    exact ⟨rfl, rfl, hall.chip, hall.count, hall.offers⟩
  rename_i hfull
  rw [if_neg (hlptxf.not.mp hfull)]
  split
  · rename_i hhalf
    rw [if_pos (hlptxh.mp hhalf)]
    exact ⟨rfl, rfl, hall.chip, hall.count, hall.offers⟩
  · rename_i hhalf
    rw [if_neg (hlptxh.not.mp hhalf)]
    exact ⟨rfl, hcfg'.trans hcfg, hall⟩

theorem autoNegotiate_spec (debug : Bool) :
    Does (fun anlp x => autoOutcome anlp (x 0)) (autoNegotiate debug) := by
  apply (Idle.debugPrintf debug _ _).does
  intro _
  apply Does.read (by decide)
  intro value
  apply Does.write (Idle.write _ (by decide))
  apply Does.read (by decide)
  intro _
  apply Does.write (Idle.writeAna fun m => by cases m <;> decide)
  apply Does.read (by decide)
  intro value
  apply Does.write (Idle.write _ (by decide))
  apply Does.write (Idle.write _ (by decide))
  apply Does.read (by decide)
  intro _
  exact autoNegotiate_end

theorem autoOutcome_reads (anlp stat : BitVec 16) (cfg : Word) :
    (autoOutcome anlp stat cfg).reads = 1 := by
  unfold autoOutcome
  split_ifs <;> rfl

/-- The outcome when no link speed was found: the status decides once more, if `again`. -/
def negotiateOutcome (again : Bool) (anlp : BitVec 16) (x : ℕ → BitVec 16) (cfg : Word) : Outcome :=
  if again then (speedOutcome (fun i => x (1 + i)) (autoOutcome anlp (x 0) cfg).cfg).after 1
  else autoOutcome anlp (x 0) cfg

theorem negotiateLink_spec (debug : Bool) (anegStatus : Word) :
    Does (negotiateOutcome (debug && decide (anegStatus ≠ 0))) (negotiateLink debug anegStatus) := by
  intro s
  rw [negotiateLink, wp_bind]
  apply wp_post (autoNegotiate_spec debug s)
  intro ret t ht
  have hone := ht.passes
  rw [autoOutcome_reads] at hone
  cases debug with
  | false => exact ht
  | true =>
    by_cases hstatus : anegStatus = 0
    · subst hstatus
      exact ht.idle ⟨rfl, rfl, fun h => h⟩ rfl
    · have hagain : (true && decide (anegStatus ≠ 0)) = true := by simpa using hstatus
      rw [hagain, negotiateOutcome, if_pos rfl, if_pos rfl, if_pos hstatus, wp_bind]
      apply wp_post (Idle.printf _ _ t)
      rintro _ u ⟨hu, hcfg⟩
      apply wp_post (getLinkSpeed_spec.fromIdle hu hcfg)
      intro ret v hv
      have hxsr : t.xsr = fun i => s.xsr (1 + i) := funext fun i => hone.xsr i
      rw [hxsr, ht.cfg] at hv
      exact hone.done hv

def initOutcome (again : Bool) (anlp : BitVec 16) (x : ℕ → BitVec 16) (cfg : Word) : Outcome :=
  if (speedOutcome (fun i => x (waited x 500 + i)) cfg).ret then
    (speedOutcome (fun i => x (waited x 500 + i)) cfg).after (waited x 500)
  else (negotiateOutcome again anlp (fun i => x (waited x 500 + 2 + i)) cfg).after
    (waited x 500 + 2)

/-- The end of `ste100p_InitPhy` keeps what was found. -/
theorem initPhy_end {o : Outcome} {ret : Bool} (debug : Bool) (h : Done o s ret t) : wp (do
      let r ← emacReadPhy xieReg
      let _ ← emacWritePhy xieReg (r.2 &&& ~~~xieAll)
      emacDisableMdio
      debugPrintf debug "ste100p InitPhy [" []
      debugPrintf debug (if ret then "OK]\n" else "FAILED]\n") []
      pure ret) (Done o s) never t := by
  apply (Idle.read (by decide)).next
  intro r u hu hcfg
  replace h := h.idle hu hcfg
  apply (Idle.write _ (by decide)).next
  intro _ u hu hcfg
  replace h := h.idle hu hcfg
  apply Idle.disable.next
  intro _ u hu hcfg
  replace h := h.idle hu hcfg
  apply (Idle.debugPrintf debug _ _).next
  intro _ u hu hcfg
  replace h := h.idle hu hcfg
  apply (Idle.debugPrintf debug _ _).next
  intro _ u hu hcfg
  exact h.idle hu hcfg

theorem initPhy_rest (debug : Bool) (anegStatus : Word) :
    Does (initOutcome (debug && decide (anegStatus ≠ 0))) (do
      emacEnableMdio
      deisolate
      emacDisableMdio
      emacEnableMdio
      let _ ← waitForLink 500
      let ret ← getLinkSpeed
      let ret ← (if ret then pure true else negotiateLink debug anegStatus)
      let r ← emacReadPhy xieReg
      let _ ← emacWritePhy xieReg (r.2 &&& ~~~xieAll)
      emacDisableMdio
      debugPrintf debug "ste100p InitPhy [" []
      debugPrintf debug (if ret then "OK]\n" else "FAILED]\n") []
      pure ret) := by
  apply Idle.enable.does
  intro _
  apply deisolate_idle.does
  intro _
  apply Idle.disable.does
  intro _
  apply Idle.enable.does
  intro _ s
  rw [wp_bind]
  apply wp_post (waitForLink_spec s)
  rintro _ t ⟨ht, hcfg⟩
  rw [wp_bind]
  apply wp_post (getLinkSpeed_spec.from ht hcfg)
  intro ret u hu
  have hret : ret = (speedOutcome (fun i => s.xsr (waited s.xsr 500 + i)) s.cfg).ret := hu.ret
  rw [initOutcome, wp_bind, ← hret]
  cases ret with
  | true => exact initPhy_end debug hu
  | false =>
    rw [speedOutcome_failed hret.symm] at hu
    apply wp_post ((negotiateLink_spec debug anegStatus).from hu.passes hu.cfg)
    intro found v hv
    exact initPhy_end debug hv

/-- `ste100p_InitPhy` returns, with all modes offered. -/
theorem initPhy_spec (debug : Bool) (anegStatus : Word) (s : Mac) :
    wp (initPhy debug anegStatus) (fun ret t => OffersAll t ∧
      Done (initOutcome (debug && decide (anegStatus ≠ 0)) s.chip.anlp s.xsr s.cfg) s ret t)
        never s := by
  rw [initPhy, wp_bind]
  apply wp_post (phyReset_spec debug s)
  rintro _ t ⟨hoffers, ht, hcfg⟩
  have hxsr : t.xsr = s.xsr := funext fun i => by rw [ht.xsr, Nat.zero_add]
  apply wp_post (initPhy_rest debug anegStatus t)
  intro ret u hu
  have hall := ht.done hu
  rw [Outcome.after_zero, ht.chip, hxsr, hcfg] at hall
  exact ⟨hu.passes.offers hoffers, hall⟩

end Armboard.Uboot.Phy
