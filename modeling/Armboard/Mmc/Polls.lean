import Armboard.Exec.Supply
import Armboard.Mmc.Flags

/-! # How many status words a read needs

Each status loop ends at the latest with a word that has all three bits that are waited for.
A read makes a bounded number of such loops, so that many of these words, wherever they
come, are enough for it to return.
-/

namespace Armboard.Mmc
open Exec

/-- A status word that ends every loop that reads it. -/
def Ready (w : Word) : Prop := w &&& cmdrdy ≠ 0 ∧ w &&& rxrdy ≠ 0 ∧ w &&& blke ≠ 0

instance (w : Word) : Decidable (Ready w) := inferInstanceAs (Decidable (_ ∧ _ ∧ _))

def readyWords (s : Mci) : ℕ := s.status.countP fun w => decide (Ready w)

/-- The driver waits, and there is nothing more to read. -/
def Dry (e : Halt) (t : Mci) : Prop := e = .blocked ∧ t.status = []

variable {α : Type} {s t : Mci}

theorem readyWords_congr (h : t.status = s.status) : readyWords t = readyWords s := by
  rw [readyWords, readyWords, h]

theorem readyWords_eq_zero (h : s.status = []) : readyWords s = 0 := by rw [readyWords, h]; rfl

theorem readyWords_cons {w : Word} (h : s.status = w :: t.status) :
    readyWords s = readyWords t + if Ready w then 1 else 0 := by
  simp only [readyWords, h, List.countP_cons, decide_eq_true_eq]

/-! ## Loops -/

theorem readStatus_status (place : Place) (s : Mci) : wp (readStatus place)
    (fun w t => s.status = w :: t.status) (fun e t => Dry e t ∧ readyWords s < 1) s := by
  rw [readStatus, wp_bind, wp_get]
  cases hs : s.status with
  | nil => exact ⟨⟨rfl, hs⟩, by simp [readyWords_eq_zero hs]⟩
  | cons w ws => rfl

/-- A pass of a loop: it is the last one if the word that it reads is ready. -/
theorem readStatus_needs (place : Place) {x : Word → Driver α}
    (hlast : ∀ w t, Ready w → Needs readyWords Dry 0 (x w) t)
    (hmore : ∀ w t, s.status = w :: t.status → Needs readyWords Dry 1 (x w) t) :
    Needs readyWords Dry 1 (readStatus place >>= x) s := by
  rw [Needs, wp_bind]
  apply wp_post (readStatus_status place s)
  intro w t hs
  have hready := readyWords_cons hs
  by_cases hw : Ready w
  · rw [if_pos hw] at hready
    apply wp_mono (hlast w t hw)
    · intro _ u hu
      omega
    · rintro e u ⟨-, hlt⟩
      omega
  · rw [if_neg hw, Nat.add_zero] at hready
    rw [hready]
    exact hmore w t hs

theorem waitFor_needs (place : Place) {bits : Word} (hbits : ∀ w, Ready w → w &&& bits ≠ 0) {n : ℕ}
    (hn : s.status.length ≤ n) : Needs readyWords Dry 1 (waitFor place bits n) s := by
  induction n generalizing s with
  | zero =>
    have hs : s.status = [] := List.length_eq_zero_iff.mp (Nat.le_zero.mp hn)
    exact ⟨⟨rfl, hs⟩, by simp [readyWords_eq_zero hs]⟩
  | succ n ih =>
    apply readStatus_needs
    · intro w t hw
      rw [if_pos (hbits w hw)]
      exact .pure _
    · intro w t hs
      apply Needs.ite
      · intro _
        exact Needs.pure _
      · intro _
        apply ih
        rw [hs, List.length_cons] at hn
        omega

theorem waitStatus_needs (place : Place) {bits : Word} (hbits : ∀ w, Ready w → w &&& bits ≠ 0)
    (s : Mci) : Needs readyWords Dry 1 (waitStatus place bits) s :=
  .get (waitFor_needs place hbits le_rfl)

theorem waitData_needs {n : ℕ} (hn : s.status.length ≤ n) :
    Needs readyWords Dry 1 (waitData n) s := by
  induction n generalizing s with
  | zero =>
    have hs : s.status = [] := List.length_eq_zero_iff.mp (Nat.le_zero.mp hn)
    exact ⟨⟨rfl, hs⟩, by simp [readyWords_eq_zero hs]⟩
  | succ n ih =>
    apply readStatus_needs
    · intro w t hw
      rw [if_pos hw.2.1]
      exact .ite (fun _ => .pure _) fun _ => .pure _
    · intro w t hs
      apply Needs.ite
      · intro _
        exact Needs.pure _
      · intro _
        apply Needs.ite
        · intro _
          exact Needs.pure _
        · intro _
          apply ih
          rw [hs, List.length_cons] at hn
          omega

/-! ## A block -/

theorem readResponse_eq (n : ℕ) (s : Mci) :
    ∃ ws t, readResponse n s = .ok ws t ∧ t.status = s.status := by
  induction n generalizing s with
  | zero => exact ⟨[], s, rfl, rfl⟩
  | succ n ih =>
    obtain ⟨ws, t, hws, ht⟩ := ih { s with rspr := s.rspr.tail }
    exact ⟨s.rspr.headD 0 :: ws, t, bind_ok hws fun ws => pure (s.rspr.headD 0 :: ws), ht⟩

theorem mmcCmd_needs (cmd arg flags : Word) (s : Mci) :
    Needs readyWords Dry 1 (mmcCmd cmd arg flags) s := by
  refine .step rfl rfl (.bind (m := 0) (waitStatus_needs .command (fun _ hw => hw.1) _) ?_ le_rfl)
  intro w t _
  apply Needs.ite
  · intro _
    exact .step rfl rfl (.pure _)
  · intro _
    obtain ⟨ws, u, hws, hu⟩ := readResponse_eq _ t
    exact .step hws (readyWords_congr hu) (.step rfl rfl (.pure _))

theorem receiveWords_needs (n k : ℕ) (hk : k < 128) (hn : 128 ≤ n + k) (i : ℕ) (s : Mci) :
    Needs readyWords Dry (128 - k) (receiveWords 512 n (BitVec.ofNat 32 k) i) s := by
  induction n generalizing k i s with
  | zero => omega
  | succ n ih =>
    have hnext : BitVec.ofNat 32 k + 1 = BitVec.ofNat 32 (k + 1) := by
      rw [BitVec.ofNat_add]
      rfl
    have hlt : BitVec.ofNat 32 (k + 1) < (512 : Word) / 4 ↔ k + 1 < 128 := by
      rw [BitVec.lt_def, BitVec.toNat_ofNat, Nat.mod_eq_of_lt (by omega)]
      rfl
    rw [receiveWords]
    refine .get (.bind (m := 127 - k) (waitData_needs le_rfl) ?_ (by omega))
    intro ready t _
    cases ready with
    | false => exact Needs.pure _
    | true =>
      rw [if_pos rfl, hnext]
      refine .step rfl rfl (.step rfl rfl (.ite ?_ ?_))
      · intro hmore
        exact Needs.mono (ih (k + 1) (hlt.mp hmore) (by omega) (i + 1) _) (by omega)
      · intro _
        exact Needs.pure _

theorem readBlock_needs (start : Word) (i : ℕ) (s : Mci) (hblk : s.blkdev.blksz = 512) :
    Needs readyWords Dry 130 (readBlock start i) s := by
  refine .get (.bind (m := 129) (mmcCmd_needs _ _ _ s) ?_ le_rfl)
  intro r t _
  apply Needs.ite
  · intro _
    exact Needs.pure _
  · intro _
    rw [hblk]
    refine .bind (m := 1) (receiveWords_needs _ 0 (by omega) (by decide) i t) ?_ le_rfl
    intro o u _
    cases o with
    | none => exact Needs.pure _
    | some b =>
      exact .bind (m := 0) (waitStatus_needs .completion (fun _ hw => hw.2.2) u)
        (fun _ _ _ => .pure _) le_rfl

/-! ## A call -/

theorem readBlocks_needs (n : ℕ) (count start : Word) (i : ℕ) (s : Mci)
    (hblk : s.blkdev.blksz = 512) :
    Needs readyWords Dry (130 * n) (readBlocks n count start i) s := by
  induction n generalizing count start i s with
  | zero => exact .pure _
  | succ n ih =>
    refine .bind (m := 130 * n) (readBlock_needs start i s hblk) ?_ (by omega)
    intro o t ht
    cases o with
    | none => exact Needs.pure _
    | some b =>
      have hglobals : t.globals = s.globals := (wp_of_ok (readBlock_spec start i s) ht).1
      have hsame : t.blkdev.blksz = s.blkdev.blksz := congrArg (fun g => g.blkdev.blksz) hglobals
      exact ih _ _ _ t (hsame.trans hblk)

theorem deselect_needs (i : Word) (s : Mci) : Needs readyWords Dry 1 (deselect i) s :=
  .bind (m := 0) (mmcCmd_needs _ _ _ s) (fun _ _ _ => .pure _) le_rfl

theorem breadFail_needs (cardStatus i : Word) (s : Mci) :
    Needs readyWords Dry 2 (breadFail cardStatus i) s := by
  refine .get (.bind (m := 1) (mmcCmd_needs _ _ _ s) ?_ le_rfl)
  intro r t _
  exact .step rfl rfl (deselect_needs i _)

/-- One status loop for each of the two commands in front and of the two at the end, and 130 for a
block: the command, its words and its completion. -/
theorem mmcBread_needs (cardStatus start blkcnt : Word) (s : Mci) (hblk : s.blkdev.blksz = 512) :
    Needs readyWords Dry (if blkcnt = 0 then 0 else 130 * blkcnt.toNat + 4)
      (mmcBread cardStatus start blkcnt) s := by
  rw [mmcBread]
  split
  · exact .pure _
  refine .get (.bind (m := 130 * blkcnt.toNat + 3) (mmcCmd_needs _ _ _ s) ?_ (by omega))
  intro a t ht
  apply Needs.ite
  · intro _
    exact (breadFail_needs cardStatus 0 t).mono (by omega)
  intro _
  refine .bind (m := 130 * blkcnt.toNat + 2) (mmcCmd_needs _ _ _ t) ?_ (by omega)
  intro b u hu
  apply Needs.ite
  · intro _
    exact (breadFail_needs cardStatus 0 u).mono (by omega)
  intro _
  obtain ⟨-, -, -, ht'⟩ := wp_of_ok (mmcCmd_spec _ _ _ s) ht
  obtain ⟨-, -, -, hu'⟩ := wp_of_ok (mmcCmd_spec _ _ _ t) hu
  have hsame : u.blkdev.blksz = s.blkdev.blksz :=
    congrArg (fun g => g.blkdev.blksz) (hu'.trans ht')
  refine .bind (readBlocks_needs _ 0 start 0 u (hsame.trans hblk)) ?_ le_rfl
  intro c v _
  apply Needs.ite
  · intro _
    exact breadFail_needs cardStatus c.1 v
  · intro _
    exact (deselect_needs c.1 v).mono (by omega)

end Armboard.Mmc
