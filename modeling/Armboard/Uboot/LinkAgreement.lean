import Armboard.Uboot.Negotiation

/-! # Which partners the MAC is set right for

The driver sets the MAC from the ability bits of the status register, which are
constant, or from what the partner offers, with the wrong pairs of bits. Both fit some
partners only.
-/

namespace Armboard.Uboot.Phy
open Bits Exec

/-- The call set the MAC to the mode both ends agree on if it returns TRUE with the link up, and left
SPD and FD alone if it returns FALSE. -/
structure Agrees (s t : Mac) (ret : Bool) : Prop where
  up : ret = true → LinkUp t →
    bestCommon (t.written anaReg) t.chip.anlp = some (mode t.cfg)
  down : ret = false → AgreeOn (emacSpd ||| emacFd) t.cfg s.cfg

/-- When the outcome is right, after `w` values of XSR were read to wait for the link. If the link is
seen then, or once more after negotiation, the partner has to offer 100 full. If it is asked for again
(`again`) and not seen, what negotiation wrote has to be what EMAC_CFG held. If it is not asked for
again, 100 half must not be the best mode of the partner while the link is up. -/
def Fits (again : Bool) (anlp : BitVec 16) (x : ℕ → BitVec 16) (cfg : Word) (w : ℕ) : Prop :=
  (Sees x w → Offered anlp .full100) ∧
  (¬ Sees x w → again = true → Sees x (w + 3) → Offered anlp .full100) ∧
  (¬ Sees x w → again = true → ¬ Sees x (w + 3) → Complete (x (w + 2)) →
    (Offered anlp .full100 → mode cfg = .full100) ∧
    (¬ Offered anlp .full100 → Offered anlp .half100 → mode cfg = .full10)) ∧
  (¬ Sees x w → again = false → Complete (x (w + 2)) → Up (x (w + 2)) →
    Offered anlp .half100 → Offered anlp .full100)

/-- What `Agrees` says of an outcome, when all modes are offered. -/
structure Right (anlp : BitVec 16) (x : ℕ → BitVec 16) (cfg : Word) (o : Outcome) : Prop where
  up : o.ret = true → Up (x (o.reads - 1)) →
    LinkMode.all.find? (fun m => decide (Offered anlp m)) = some (mode o.cfg)
  down : o.ret = false → mode o.cfg = mode cfg

variable {s t : Mac} {n k : ℕ} {anlp : BitVec 16} {x : ℕ → BitVec 16} {cfg cfg' : Word}

theorem right_full100_iff (hup : Up (x (n - 1))) :
    Right anlp x cfg ⟨true, cfg' ||| (emacSpd ||| emacFd), n⟩ ↔ Offered anlp .full100 := by
  rw [← best_full100]
  constructor
  · intro h
    have hmode := h.up rfl hup
    rwa [mode_full100] at hmode
  · intro h
    constructor
    · intro _ _
      rwa [mode_full100]
    · intro hret
      cases hret

theorem right_full10_iff (hfull : ¬ Offered anlp .full100) (hhalf : Offered anlp .half100) :
    Right anlp x cfg ⟨true, (cfg' &&& ~~~(emacSpd ||| emacFd)) ||| emacFd, n⟩ ↔
      ¬ Up (x (n - 1)) := by
  constructor
  · intro h hup
    have hmode := h.up rfl hup
    rw [best_half100 hfull hhalf, mode_full10] at hmode
    cases hmode
  · intro h
    constructor
    · intro _ hup
      exact absurd hup h
    · intro hret
      cases hret

theorem right_failed_iff : Right anlp x cfg ⟨false, cfg', n⟩ ↔ mode cfg' = mode cfg := by
  constructor
  · intro h
    exact h.down rfl
  · intro h
    constructor
    · intro hret
      cases hret
    · intro _
      exact h

theorem right_full100 (h : Offered anlp .full100) :
    Right anlp x cfg ⟨true, cfg' ||| (emacSpd ||| emacFd), n⟩ := by
  constructor
  · intro _ _
    rw [mode_full100]
    exact (best_full100 anlp).mpr h
  · intro hret
    cases hret

theorem right_speed_iff (h : Sees x k) :
    Right anlp x cfg ((speedOutcome (fun i => x (k + i)) cfg').after k) ↔
      Offered anlp .full100 := by
  rcases speedOutcome_up (x := fun i => x (k + i)) cfg' h with ⟨n, hup, hspeed⟩
  rw [hspeed]
  exact right_full100_iff hup

theorem right_again_failed_iff (h : ¬ Sees x k) :
    Right anlp x cfg ((speedOutcome (fun i => x (k + i)) cfg').after k) ↔ mode cfg' = mode cfg := by
  rw [speedOutcome_down (x := fun i => x (k + i)) h]
  exact right_failed_iff

theorem mode_autoOutcome_iff (stat : BitVec 16) :
    mode (autoOutcome anlp stat cfg).cfg = mode cfg ↔ (Complete stat →
      (Offered anlp .full100 → mode cfg = .full100) ∧
      (¬ Offered anlp .full100 → Offered anlp .half100 → mode cfg = .full10)) := by
  by_cases hcomplete : Complete stat
  · rw [autoOutcome, if_neg (not_not.mpr hcomplete)]
    split
    · rename_i hfull
      rw [mode_full100]
      simp [hcomplete, hfull, eq_comm]
    rename_i hfull
    split
    · rename_i hhalf
      rw [mode_full10]
      simp [hcomplete, hfull, hhalf, eq_comm]
    · rename_i hhalf
      simp [hfull, hhalf]
  · rw [autoOutcome, if_pos hcomplete]
    simp [hcomplete]

theorem right_auto_iff (k : ℕ) :
    Right anlp x cfg ((autoOutcome anlp (x k) cfg).after k) ↔ (Complete (x k) → Up (x k) →
      Offered anlp .half100 → Offered anlp .full100) := by
  by_cases hcomplete : Complete (x k)
  · rw [autoOutcome, if_neg (not_not.mpr hcomplete)]
    split
    · rename_i hfull
      exact iff_of_true (right_full100 hfull) fun _ _ _ => hfull
    rename_i hfull
    split
    · rename_i hhalf
      refine (right_full10_iff hfull hhalf).trans ?_
      simp [hcomplete, hfull, hhalf]
    · rename_i hhalf
      exact iff_of_true (right_failed_iff.mpr rfl) fun _ _ h => absurd h hhalf
  · rw [autoOutcome, if_pos hcomplete]
    exact iff_of_true (right_failed_iff.mpr rfl) fun h => absurd h hcomplete

theorem initOutcome_right_iff (again : Bool) :
    Right anlp x cfg (initOutcome again anlp x cfg) ↔ Fits again anlp x cfg (waited x 500) := by
  generalize hw : waited x 500 = w
  rw [initOutcome, hw, Fits]
  by_cases hsees : Sees x w
  · rcases speedOutcome_up (x := fun i => x (w + i)) cfg hsees with ⟨n, -, hspeed⟩
    rw [if_pos (by rw [hspeed]), right_speed_iff hsees]
    simp [hsees]
  have hdown : speedOutcome (fun i => x (w + i)) cfg = ⟨false, cfg, 2⟩ := speedOutcome_down hsees
  rw [if_neg (by rw [hdown]; simp)]
  cases again with
  | false =>
    have hstep : Right anlp x cfg ((negotiateOutcome false anlp (fun i => x (w + 2 + i)) cfg).after
        (w + 2)) ↔ _ := right_auto_iff (w + 2)
    rw [hstep]
    simp [hsees]
  | true =>
    have hstep : (negotiateOutcome true anlp (fun i => x (w + 2 + i)) cfg).after (w + 2) =
        (speedOutcome (fun i => x (w + 3 + i)) (autoOutcome anlp (x (w + 2)) cfg).cfg).after
          (w + 3) := by
      have hshift : (fun i => x (w + 2 + (1 + i))) = fun i => x (w + 3 + i) := by
        funext i
        rw [show w + 2 + (1 + i) = w + 3 + i by omega]
      rw [negotiateOutcome, if_pos rfl, hshift, Outcome.after_after]
    rw [hstep]
    by_cases hagain : Sees x (w + 3)
    · rw [right_speed_iff hagain]
      simp [hsees, hagain]
    · rw [right_again_failed_iff hagain, mode_autoOutcome_iff]
      simp [hsees, hagain]

theorem initOutcome_reads (again : Bool) : 0 < (initOutcome again anlp x cfg).reads := by
  rw [initOutcome]
  split
  · rename_i hret
    by_cases hsees : Sees x (waited x 500)
    · rcases speedOutcome_up (x := fun i => x (waited x 500 + i)) cfg hsees with
        ⟨n, -, hspeed⟩
      rw [hspeed]
      exact Nat.succ_pos _
    · rw [speedOutcome_down (x := fun i => x (waited x 500 + i)) hsees] at hret
      cases hret
  · rw [Outcome.after]
    exact Nat.add_pos_left (Nat.succ_pos _) _

theorem Done.agrees_right {o : Outcome} {ret : Bool} (h : Done o s ret t) (hoffers : OffersAll t)
    (hreads : 0 < o.reads) : Agrees s t ret ↔ Right s.chip.anlp s.xsr s.cfg o := by
  have hlink : LinkUp t ↔ Up (s.xsr (o.reads - 1)) := by
    rw [LinkUp, Mac.xsr, h.passes.chip, h.passes.count, Nat.add_sub_assoc hreads]
  have hbest : bestCommon (t.written anaReg) t.chip.anlp =
      LinkMode.all.find? (fun m => decide (Offered s.chip.anlp m)) := by
    rw [bestCommon, h.passes.chip]
    congr 1
    funext m
    exact decide_eq_decide.mpr (and_iff_right (hoffers m))
  constructor
  · intro ha
    constructor
    · intro hret hup
      rw [← hbest, ← h.cfg]
      exact ha.up (h.ret.trans hret) (hlink.mpr hup)
    · intro hret
      rw [← h.cfg]
      exact (agreeOn_iff_mode _ _).mp (ha.down (h.ret.trans hret))
  · intro hr
    constructor
    · intro hret hup
      rw [hbest, h.cfg]
      exact hr.up (h.ret.symm.trans hret) (hlink.mp hup)
    · intro hret
      rw [h.cfg]
      exact (agreeOn_iff_mode _ _).mpr (hr.down (h.ret.symm.trans hret))

theorem initPhy_outcome (debug : Bool) (anegStatus : Word) (s : Mac) :
    wp (initPhy debug anegStatus) (fun ret t => Agrees s t ret ↔
      Fits (debug && decide (anegStatus ≠ 0)) s.chip.anlp s.xsr s.cfg (waited s.xsr 500))
        never s := by
  apply wp_post (initPhy_spec debug anegStatus s)
  rintro ret t ⟨hoffers, hdone⟩
  exact (hdone.agrees_right hoffers (initOutcome_reads _)).trans (initOutcome_right_iff _)

/-- `ste100p_InitPhy` returns, and MAC and PHY agree afterwards just when the outcome fits. -/
theorem initPhy_agrees_iff (debug : Bool) (anegStatus : Word) (s : Mac) :
    ∃ ret t, initPhy debug anegStatus s = .ok ret t ∧ (Agrees s t ret ↔
      Fits (debug && decide (anegStatus ≠ 0)) s.chip.anlp s.xsr s.cfg (waited s.xsr 500)) :=
  wp_never.mp (initPhy_outcome debug anegStatus s)

/-- Negotiation is complete, the link is up, and the partner offers only 10 half. -/
def tenHalf : Mac where
  chip := ⟨fun reg _ => if reg = xsrReg then 0x782D else if reg = anlpReg then 0x0021 else 0, 0x0021,
    fun _ => rfl, fun _ => rfl⟩
  count := fun _ => 0
  written := fun _ => 0
  cfg := 0
  ctl := 0
  output := []

/-- The MAC is set to 100 full. -/
theorem not_agrees_tenHalf : ∃ ret t, initPhy true 0 tenHalf = .ok ret t ∧ ¬ Agrees tenHalf t ret := by
  rcases wp_never.mp (initPhy_outcome true 0 tenHalf) with ⟨ret, t, hrun, hiff⟩
  refine ⟨ret, t, hrun, fun hagrees => ?_⟩
  have hsees : Sees tenHalf.xsr (waited tenHalf.xsr 500) := Or.inl (by decide)
  exact absurd ((hiff.mp hagrees).1 hsees) (by decide)

end Armboard.Uboot.Phy
