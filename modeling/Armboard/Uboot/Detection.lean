import Armboard.Bits.Agree
import Armboard.Uboot.Phy
import Mathlib.Tactic

/-! # Detection of the PHY

`ste100p_IsPhyConnected` reads the identifier up to 100 times. It tells that it has run
out of tries from their number alone, so an identifier that is seen on the last try
counts as missed, and no exit without tries left releases the management port.
-/

namespace Armboard.Uboot.Phy
open Bits Exec

/-! ## What is asked for -/

/-- Try `i` from here reads the expected identifier in both registers. -/
def Mac.Recognises (s : Mac) (i : ℕ) : Prop :=
  s.chip.reads pid1Reg (s.count pid1Reg + i) = pid1PhyidVal ∧
    (s.chip.reads pid2Reg (s.count pid2Reg + i) &&& pid2PhyidMask) >>> 6 = pid2PhyidVal

instance (s : Mac) (i : ℕ) : Decidable (s.Recognises i) := inferInstanceAs (Decidable (_ ∧ _))

/-- The answer is right, the management port is disabled, and EMAC_CTL is as before otherwise. -/
structure Answered (s : Mac) (ret : Bool) (t : Mac) : Prop where
  answer : ret = true ↔ ∃ i < 100, s.Recognises i
  released : t.ctl &&& emacMpe = 0
  others : AgreeOn (~~~emacMpe) t.ctl s.ctl

def Detects (debug : Bool) (s : Mac) : Prop :=
  ∃ ret t, isPhyConnected debug s = .ok ret t ∧ Answered s ret t

/-! ## The loop -/

def Mac.tried (s : Mac) : Mac :=
  let count := Function.update s.count pid1Reg (s.count pid1Reg + 1)
  { s with count := Function.update count pid2Reg (count pid2Reg + 1) }

theorem Mac.recognises_tried (s : Mac) (i : ℕ) : s.tried.Recognises i ↔ s.Recognises (i + 1) := by
  have hpid1 : s.tried.count pid1Reg = s.count pid1Reg + 1 := by simp [tried]
  have hpid2 : s.tried.count pid2Reg = s.count pid2Reg + 1 := by simp [tried]
  rw [Recognises, Recognises, hpid1, hpid2, Nat.add_assoc, Nat.add_assoc, Nat.add_comm 1 i]
  rfl

/-- What the loop has found: tries are left exactly if it stopped before its last pass, and EMAC_CTL
is as it was. -/
structure Found (s : Mac) (tries : ℕ) (r : Identified) (t : Mac) : Prop where
  left : r.tries ≠ 0 ↔ ∃ i < tries, s.Recognises i
  result : r.tries ≠ 0 → r.result = true
  ctl : t.ctl = s.ctl

theorem identify_found (tries : ℕ) (s : Mac) :
    wp (identify tries) (fun r t => Found s tries r t) never s := by
  induction tries generalizing s with
  | zero =>
    constructor
    · simp
    · intro h
      exact absurd rfl h
    · rfl
  | succ tries ih =>
    rw [identify]
    change wp (ite (s.Recognises 0) _ _) _ _ s.tried
    split
    · rename_i hid
      constructor
      · simp only [ne_eq, Nat.add_eq_zero_iff, one_ne_zero, and_false, not_false_eq_true, true_iff]
        exact ⟨0, Nat.succ_pos tries, hid⟩
      · intro _
        rfl
      · rfl
    · rename_i hid
      apply wp_post (ih s.tried)
      intro r t hfound
      constructor
      · rw [hfound.left]
        simp only [s.recognises_tried]
        constructor
        · rintro ⟨i, hi, h⟩
          exact ⟨i + 1, Nat.succ_lt_succ hi, h⟩
        · rintro ⟨i, hi, h⟩
          cases i with
          | zero => exact absurd h hid
          | succ i => exact ⟨i, Nat.lt_of_succ_lt_succ hi, h⟩
      · exact hfound.result
      · exact hfound.ctl

/-! ## The call -/

/-- The answer is TRUE, and the port disabled, exactly if tries were left. -/
structure Exits (found : Prop) (s : Mac) (ret : Bool) (t : Mac) : Prop where
  answer : ret = true ↔ found
  released : found → t.ctl = (s.ctl ||| emacMpe) &&& ~~~emacMpe
  kept : ¬ found → t.ctl = s.ctl ||| emacMpe

theorem isPhyConnected_exits (debug : Bool) (s : Mac) : wp (isPhyConnected debug)
    (fun ret t => Exits (∃ i < 99, s.Recognises i) s ret t) never s := by
  have hdebug : ∀ format args u, wp (debugPrintf debug format args)
      (fun _ v => v.ctl = u.ctl) never u := by
    intro format args u
    cases debug with
    | false => rfl
    | true => rfl
  rw [isPhyConnected, emacEnableMdio, wp_bind, wp_modify, wp_bind]
  apply wp_post (identify_found 99 _)
  intro r t hfound
  have hleft : r.tries ≠ 0 ↔ ∃ i < 99, s.Recognises i := hfound.left
  rw [wp_ite]
  split
  · rename_i hnone
    have hmissed : ¬ ∃ i < 99, s.Recognises i := fun h => hleft.mpr h hnone
    rw [wp_bind]
    apply wp_post (hdebug _ _ t)
    intro _ u hu
    constructor
    · exact ⟨fun h => absurd h Bool.false_ne_true, fun h => absurd h hmissed⟩
    · intro h
      exact absurd h hmissed
    · intro _
      exact hu.trans hfound.ctl
  · rename_i hsome
    have hseen := hleft.mp hsome
    rw [emacDisableMdio, wp_bind, wp_modify, wp_bind]
    apply wp_post (hdebug _ _ _)
    intro _ u hu
    constructor
    · exact ⟨fun _ => hseen, fun _ => hfound.result hsome⟩
    · intro _
      exact hu.trans (congrArg (fun ctl => ctl &&& ~~~emacMpe) hfound.ctl)
    · intro h
      exact absurd hseen h

theorem and_emacMpe_ne (ctl : Word) : (ctl ||| emacMpe) &&& emacMpe ≠ 0 := by
  rw [and_of_set]
  decide

/-- With a try left, the answer is right and the port is disabled. -/
theorem detects_of_seen (debug : Bool) {s : Mac} (hseen : ∃ i < 99, s.Recognises i) :
    Detects debug s := by
  rcases wp_never.mp (isPhyConnected_exits debug s) with ⟨ret, t, hrun, hexit⟩
  refine ⟨ret, t, hrun, ?_⟩
  constructor
  · rw [hexit.answer]
    rcases hseen with ⟨i, hi, hid⟩
    exact ⟨fun _ => ⟨i, hi.trans (by decide), hid⟩, fun _ => ⟨i, hi, hid⟩⟩
  · rw [hexit.released hseen]
    exact and_of_cleared _ _
  · rw [hexit.released hseen]
    exact (agreeOn_and BitVec.and_self).trans (agreeOn_or (BitVec.and_not_self _))

/-- Without a try left, the port stays enabled. -/
theorem not_detects_of_missed (debug : Bool) {s : Mac} (hmissed : ¬ ∃ i < 99, s.Recognises i) :
    ¬ Detects debug s := by
  rcases wp_never.mp (isPhyConnected_exits debug s) with ⟨ret, t, hrun, hexit⟩
  rintro ⟨ret', t', hrun', hanswered⟩
  rw [hrun] at hrun'
  cases hrun'
  have hreleased := hanswered.released
  rw [hexit.kept hmissed] at hreleased
  exact and_emacMpe_ne s.ctl hreleased

/-- The call answers right and disables the management port if and only if the identifier is read
on one of the first 99 tries. -/
theorem isPhyConnected_detects_iff (debug : Bool) (s : Mac) :
    Detects debug s ↔ ∃ i < 99, s.Recognises i := by
  constructor
  · intro h
    by_contra hmissed
    exact not_detects_of_missed debug hmissed h
  · exact detects_of_seen debug

/-- A PHY whose first identifier register reads 0 `n` times. -/
def slowChip (n : ℕ) : Chip where
  reads reg i :=
    if reg = pid1Reg then if i < n then 0 else pid1PhyidVal
    else if reg = pid2Reg then 0 else 0xFFFF
  anlp := 0xFFFF
  abilities _ := by simp
  anlp_const _ := by simp

theorem slowChip_missed {n i : ℕ} (hi : i < n) :
    ¬ Mac.Recognises ⟨slowChip n, fun _ => 0, fun _ => 0, 0, 0, []⟩ i := by
  simp [Mac.Recognises, slowChip, hi]

/-- A PHY that is slow enough for the last try. -/
theorem isPhyConnected_misses : ¬ ∀ debug s, Detects debug s := by
  intro h
  apply not_detects_of_missed false _ (h false ⟨slowChip 99, fun _ => 0, fun _ => 0, 0, 0, []⟩)
  rintro ⟨i, hi, hid⟩
  exact slowChip_missed hi hid

end Armboard.Uboot.Phy
