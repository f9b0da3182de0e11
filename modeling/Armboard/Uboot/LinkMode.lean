import Armboard.Bits.Agree
import Armboard.Uboot.Phy
import Mathlib.Tactic.Common

/-! # Link modes

The two ends of a link agree on the best mode that both offer, and the MAC has to be
set to it.
-/

namespace Armboard.Uboot.Phy
open Bits

/-- The modes of a link, best first. -/
inductive LinkMode where
  | full100
  | half100
  | full10
  | half10
  deriving DecidableEq

def LinkMode.all : List LinkMode := [.full100, .half100, .full10, .half10]

def LinkMode.anaBit : LinkMode → BitVec 16
  | .full100 => anaTxf
  | .half100 => anaTxh
  | .full10 => ana10f
  | .half10 => ana10h

def LinkMode.anlpBit : LinkMode → BitVec 16
  | .full100 => anlpLptxf
  | .half100 => anlpLptxh
  | .full10 => anlpLp10f
  | .half10 => anlpLp10h

def Offered (anlp : BitVec 16) (m : LinkMode) : Prop := anlp &&& m.anlpBit ≠ 0

instance (anlp : BitVec 16) (m : LinkMode) : Decidable (Offered anlp m) := by
  unfold Offered
  infer_instance

/-- The best mode that both registers offer. -/
def bestCommon (ana anlp : BitVec 16) : Option LinkMode :=
  LinkMode.all.find? fun m => decide (ana &&& m.anaBit ≠ 0 ∧ Offered anlp m)

/-- The mode that SPD and FD of EMAC_CFG stand for. -/
def mode (cfg : Word) : LinkMode :=
  if cfg &&& emacSpd ≠ 0 then
    if cfg &&& emacFd ≠ 0 then .full100 else .half100
  else if cfg &&& emacFd ≠ 0 then .full10 else .half10

theorem and_emacSpd (cfg : Word) : cfg &&& emacSpd = if cfg.getLsbD 0 then emacSpd else 0 :=
  BitVec.and_twoPow cfg 0

theorem and_emacFd (cfg : Word) : cfg &&& emacFd = if cfg.getLsbD 1 then emacFd else 0 :=
  BitVec.and_twoPow cfg 1

theorem mode_eq (cfg : Word) : mode cfg = match cfg.getLsbD 0, cfg.getLsbD 1 with
    | true, true => .full100
    | true, false => .half100
    | false, true => .full10
    | false, false => .half10 := by
  rw [mode, and_emacSpd, and_emacFd]
  cases cfg.getLsbD 0 <;> cases cfg.getLsbD 1 <;> rfl

theorem mode_full100 (cfg : Word) : mode (cfg ||| (emacSpd ||| emacFd)) = .full100 := by
  simp [mode_eq]

theorem mode_full10 (cfg : Word) :
    mode ((cfg &&& ~~~(emacSpd ||| emacFd)) ||| emacFd) = .full10 := by
  simp [mode_eq]

theorem agreeOn_iff_mode (a b : Word) : AgreeOn (emacSpd ||| emacFd) a b ↔ mode a = mode b := by
  constructor
  · intro h
    have hspd : a &&& emacSpd = b &&& emacSpd := h.mono (by decide)
    have hfd : a &&& emacFd = b &&& emacFd := h.mono (by decide)
    rw [mode, mode, hspd, hfd]
  · intro h
    rw [mode_eq, mode_eq] at h
    have hbits : a.getLsbD 0 = b.getLsbD 0 ∧ a.getLsbD 1 = b.getLsbD 1 := by
      cases ha : a.getLsbD 0 <;> cases hb : b.getLsbD 0 <;> cases ha' : a.getLsbD 1 <;>
        cases hb' : b.getLsbD 1 <;> simp_all
    rw [AgreeOn, BitVec.and_or_distrib_left, BitVec.and_or_distrib_left, and_emacSpd, and_emacFd,
      and_emacSpd, and_emacFd, hbits.1, hbits.2]

theorem best_full100 (anlp : BitVec 16) :
    LinkMode.all.find? (fun m => decide (Offered anlp m)) = some .full100 ↔
      Offered anlp .full100 := by
  by_cases h : Offered anlp .full100 <;> simp [LinkMode.all, h]

theorem best_half100 (hfull : ¬ Offered anlp .full100) (hhalf : Offered anlp .half100) :
    LinkMode.all.find? (fun m => decide (Offered anlp m)) = some .half100 := by
  simp [LinkMode.all, hfull, hhalf]

example : bestCommon phyAnar 0x00A1 = some .half100 := by decide

end Armboard.Uboot.Phy
