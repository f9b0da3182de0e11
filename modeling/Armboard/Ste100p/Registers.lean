import Armboard.Bits.Agree
import Armboard.Ste100p.Driver

/-! # What the calls do to the control register

Each successful call leaves XCR and XIE in a state that depends on what they held
before. Comparing it with what the call is meant for gives the runs that are right.
-/

namespace Armboard.Ste100p
open Bits Exec

inductive Call where
  | configInit
  | configAneg
  | configIntr (enabled : Bool)
  | suspend
  | resume (temp : Word)

def perform : Call → Driver ℤ
  | .configInit => configInit
  | .configAneg => configAneg
  | .configIntr enabled => configIntr enabled
  | .suspend => suspend
  | .resume temp => resume temp

def Phy.xcr (s : Phy) : BitVec 16 := s.regs xcrReg
def Phy.xie (s : Phy) : BitVec 16 := s.regs xieReg

/-- Negotiation is switched on and restarted, the PHY is connected, and RESET, LOOPBACK, PWRDN,
COLLEN and the reserved bits are as before. -/
structure Negotiates (s t : Phy) : Prop where
  an : t.xcr &&& 0x1000 = 0x1000
  rstrtAn : t.xcr &&& 0x0200 = 0x0200
  isolate : t.xcr &&& 0x0400 = 0
  others : AgreeOn 0xC8FF t.xcr s.xcr

def Meets (s t : Phy) : Call → Prop
  | .configInit => Negotiates s t
  | .configAneg => Negotiates s t
  | .configIntr _ => AgreeOn 0xFF80 t.xie s.xie ∧ ∀ r ≠ xieReg, t.regs r = s.regs r
  | .suspend => t.xcr = s.xcr ||| 0x0800
  | .resume _ => t.xcr = s.xcr &&& ~~~0x0800

/-- When it does that: `temp` stands for what `ste100p_resume` finds in its variable. -/
def CallOk (s : Phy) : Call → Prop
  | .configInit => False
  | .configAneg => False
  | .configIntr _ => True
  | .suspend => True
  | .resume temp => s.xcr &&& 0x07FF = 0 ∧ AgreeOn 0xF000 (temp.setWidth 16) s.xcr

variable {s : Phy}

/-! ## Single accesses -/

theorem wp_phyRead {Q : Word → Phy → Prop} {E : Halt → Phy → Prop} (regnum : ℕ) :
    wp (phyRead regnum) Q E s ↔ Q ((s.regs regnum).setWidth 32) s := Iff.rfl

theorem phyWrite_spec (regnum : ℕ) (val : Word) (s : Phy) : wp (phyWrite regnum val) (fun err t =>
    (∀ r ≠ regnum, t.regs r = s.regs r) ∧ (0 ≤ err → t.regs regnum = val.setWidth 16)) never s := by
  simp only [phyWrite, wp_bind, wp_get, wp_ite, wp_set, wp_pure]
  split
  · rename_i hneg
    constructor
    · simp
    · intro hpos
      exact absurd hneg (not_lt.mpr hpos)
  · constructor
    · intro r hr
      exact Function.update_of_ne hr _ _
    · intro _
      exact Function.update_self _ _ _

/-- The end of `ste100p_config_init` and `ste100p_config_aneg`: with the mask for ISOLATE the bit
RSTRT_AN that was just set is lost. -/
theorem restart_spec (val : Word) (s : Phy) : wp (do
      let err ← phyWrite xcrReg (val &&& notXcrIsolate)
      let _ ← phyRead xcrReg
      if err < 0 then pure err else pure 0)
    (fun ret t => 0 ≤ ret → t.xcr &&& 0x0200 = 0) never s := by
  rw [wp_bind]
  apply wp_post (phyWrite_spec xcrReg _ s)
  rintro err t ⟨-, hxcr⟩
  rw [wp_bind, phyRead, wp_bind, wp_get, wp_pure]
  split
  · rename_i hneg
    intro hpos
    exact absurd hneg (not_lt.mpr hpos)
  · rename_i hpos
    intro _
    have hmask : notXcrIsolate.setWidth 16 &&& 0x0200 = (0 : BitVec 16) := by decide
    rw [Phy.xcr, hxcr (not_lt.mp hpos), BitVec.setWidth_and, BitVec.and_assoc, hmask]
    simp

/-! ## Calls -/

theorem not_negotiates {t : Phy} (h : t.xcr &&& 0x0200 = 0) : ¬ Negotiates s t := by
  intro hn
  have hset := hn.rstrtAn
  rw [h] at hset
  exact absurd hset (by decide)

theorem returns_error {x : Driver ℤ} {P : Phy → Prop} {err : ℤ} {t : Phy}
    (hx : ¬ err < 0 → wp x (fun ret u => 0 ≤ ret → P u) never t) :
    wp (if err < 0 then pure err else x) (fun ret u => 0 ≤ ret → P u) never t := by
  split
  · rename_i hneg
    intro hpos
    exact absurd hneg (not_lt.mpr hpos)
  · rename_i hpos
    exact hx hpos

theorem configInit_fails (s : Phy) :
    wp configInit (fun ret t => 0 ≤ ret → t.xcr &&& 0x0200 = 0) never s := by
  rw [configInit, wp_bind, wp_phyRead, wp_bind]
  apply wp_post (phyWrite_spec xcrReg _ s)
  intro _ t₁ _
  rw [wp_bind, wp_phyRead, wp_bind]
  apply wp_post (phyWrite_spec xcrReg _ t₁)
  intro _ t₂ _
  rw [wp_bind, wp_phyRead]
  apply returns_error
  intro _
  rw [wp_bind, wp_phyRead, wp_bind]
  apply wp_post (phyWrite_spec anaReg _ t₂)
  intro _ t₃ _
  apply returns_error
  intro _
  exact restart_spec _ t₃

theorem configAneg_fails (s : Phy) :
    wp configAneg (fun ret t => 0 ≤ ret → t.xcr &&& 0x0200 = 0) never s := by
  rw [configAneg, wp_bind, wp_phyRead, wp_bind]
  apply wp_post (phyWrite_spec xcrReg _ s)
  intro _ t₁ _
  rw [wp_bind, wp_phyRead]
  apply returns_error
  intro _
  rw [wp_bind]
  apply wp_post (phyWrite_spec anaReg _ t₁)
  intro _ t₂ _
  apply returns_error
  intro _
  rw [wp_bind]
  apply wp_post (phyWrite_spec xcrReg _ t₂)
  intro _ t₃ _
  apply returns_error
  intro _
  exact restart_spec _ t₃

theorem configIntr_meets (enabled : Bool) (s : Phy) : wp (configIntr enabled) (fun ret t =>
    0 ≤ ret → Meets s t (.configIntr enabled)) never s := by
  have hwrite : ∀ val : Word, AgreeOn 0xFF80 (val.setWidth 16) s.xie →
      wp (phyWrite xieReg val) (fun ret t => 0 ≤ ret → Meets s t (.configIntr enabled)) never s := by
    intro val hval
    apply wp_post (phyWrite_spec xieReg val s)
    rintro err t ⟨hother, hxie⟩ hpos
    constructor
    · rw [Phy.xie, hxie hpos]
      exact hval
    · exact hother
  cases enabled with
  | true =>
    apply hwrite
    rw [BitVec.setWidth_or, BitVec.setWidth_setWidth_of_le _ (by simp), BitVec.setWidth_eq]
    exact agreeOn_or (by decide)
  | false =>
    apply hwrite
    rw [BitVec.setWidth_and, BitVec.setWidth_setWidth_of_le _ (by simp), BitVec.setWidth_eq]
    exact agreeOn_and (by decide)

theorem suspend_meets (s : Phy) :
    wp suspend (fun ret t => 0 ≤ ret → t.xcr = s.xcr ||| 0x0800) never s := by
  rw [suspend, wp_bind, phyRead, wp_bind, wp_get, wp_pure, wp_bind]
  apply wp_post (phyWrite_spec xcrReg _ s)
  rintro err t ⟨-, hxcr⟩ hpos
  rw [Phy.xcr, hxcr hpos, BitVec.setWidth_or, BitVec.setWidth_setWidth_of_le _ (by simp),
    BitVec.setWidth_eq]
  rfl

theorem resume_writes (temp : Word) (s : Phy) :
    wp (resume temp) (fun ret t => 0 ≤ ret → t.xcr = temp.setWidth 16 &&& 0xF000) never s := by
  rw [resume, wp_bind]
  apply wp_post (phyWrite_spec xcrReg _ s)
  rintro err t ⟨-, hxcr⟩ hpos
  rw [Phy.xcr, hxcr hpos, BitVec.setWidth_and]
  rfl

theorem garbage_fits_iff (g x : BitVec 16) :
    g &&& 0xF000 = x &&& ~~~0x0800 ↔ x &&& 0x07FF = 0 ∧ AgreeOn 0xF000 g x := by
  have hsplit : x &&& ~~~0x0800 = (x &&& 0xF000) ||| (x &&& 0x07FF) := by
    rw [← BitVec.and_or_distrib_left]
    rfl
  constructor
  · intro h
    have hlow : x &&& 0x07FF = 0 := by
      calc x &&& 0x07FF = (x &&& ~~~0x0800) &&& 0x07FF := by
            rw [BitVec.and_assoc]
            rfl
        _ = 0 := by
            rw [← h, BitVec.and_assoc]
            exact BitVec.and_zero
    have hzero : x &&& 0xF000 ||| (0 : BitVec 16) = x &&& 0xF000 := BitVec.or_zero
    rw [hsplit, hlow, hzero] at h
    exact ⟨hlow, h⟩
  · rintro ⟨hlow, h⟩
    rw [hsplit, hlow, h]
    exact BitVec.or_zero.symm

/-! ## Runs -/

/-- A successful call does what it is meant for exactly under its condition. -/
theorem perform_meets_iff (c : Call) (s : Phy) :
    wp (perform c) (fun ret t => 0 ≤ ret → (Meets s t c ↔ CallOk s c)) never s := by
  cases c with
  | configInit =>
    apply wp_post (configInit_fails s)
    intro _ t ht hpos
    exact iff_of_false (not_negotiates (ht hpos)) (fun h => h)
  | configAneg =>
    apply wp_post (configAneg_fails s)
    intro _ t ht hpos
    exact iff_of_false (not_negotiates (ht hpos)) (fun h => h)
  | configIntr enabled =>
    apply wp_post (configIntr_meets enabled s)
    intro _ t ht hpos
    exact iff_of_true (ht hpos) trivial
  | suspend =>
    apply wp_post (suspend_meets s)
    intro _ t ht hpos
    exact iff_of_true (ht hpos) trivial
  | resume temp =>
    apply wp_post (resume_writes temp s)
    intro _ t ht hpos
    rw [Meets, ht hpos]
    exact garbage_fits_iff _ _

/-- In a run of successful calls every call does what it is meant for. -/
def RunMeets (s : Phy) : List Call → Prop
  | [] => True
  | c :: cs => ∀ ret t, perform c s = .ok ret t → 0 ≤ ret → Meets s t c ∧ RunMeets t cs

/-- In a run of successful calls every call is made under its condition. -/
def RunOk (s : Phy) : List Call → Prop
  | [] => True
  | c :: cs => ∀ ret t, perform c s = .ok ret t → 0 ≤ ret → CallOk s c ∧ RunOk t cs

theorem runMeets_iff_runOk (cs : List Call) (s : Phy) : RunMeets s cs ↔ RunOk s cs := by
  induction cs generalizing s with
  | nil => rfl
  | cons c cs ih =>
    apply forall₂_congr
    intro ret t
    apply forall₂_congr
    intro hrun hpos
    have hc : Meets s t c ↔ CallOk s c := wp_of_ok (perform_meets_iff c s) hrun hpos
    rw [hc, ih t]

/-- A successful `ste100p_suspend` and `ste100p_resume` after it leave the register as it was. -/
def Restores (s : Phy) (temp : Word) : Prop :=
  ∀ ret t, suspend s = .ok ret t → 0 ≤ ret →
    ∀ ret' u, resume temp t = .ok ret' u → 0 ≤ ret' → u.xcr = s.xcr

theorem restores_iff (temp : Word) (hclear : s.xcr &&& 0x0800 = 0) :
    Restores s temp ↔ RunMeets s [.suspend, .resume temp] := by
  apply forall₂_congr
  intro ret t
  apply forall₂_congr
  intro hsuspend hpos
  have ht : t.xcr = s.xcr ||| 0x0800 := wp_of_ok (suspend_meets s) hsuspend hpos
  have hback : t.xcr &&& ~~~0x0800 = s.xcr := by
    rw [ht]
    exact clear_of_set hclear
  simp only [RunMeets, Meets, ht, and_true, true_and]
  rw [← ht, hback]
  rfl

/-- In just those runs of successful calls every call does what it is meant for which contain no
`ste100p_config_init` and no `ste100p_config_aneg`, and resume with bits 0 to 10 of XCR clear and a
`temp` that happens to have bits 12 to 15 of XCR. Suspending and resuming restores XCR just then. -/
theorem runMeets_iff (s : Phy) (cs : List Call) :
    (RunMeets s cs ↔ RunOk s cs) ∧ ∀ temp, s.xcr &&& 0x0800 = 0 →
      (Restores s temp ↔ RunOk s [.suspend, .resume temp]) := by
  constructor
  · exact runMeets_iff_runOk cs s
  · intro temp hclear
    rw [restores_iff temp hclear, runMeets_iff_runOk]

/-- The driver initialises a PHY after reset, which negotiates: the restart is lost. -/
theorem not_runMeets_init : ¬ RunMeets ⟨fun r => if r = xcrReg then 0x1000 else 0, []⟩ [.configInit] := by
  intro h
  have hmeets := (h 0 _ rfl le_rfl).1
  have hrestart := hmeets.rstrtAn
  revert hrestart
  decide

end Armboard.Ste100p
