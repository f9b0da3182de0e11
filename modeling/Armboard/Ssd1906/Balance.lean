import Armboard.Ssd1906.Probe
import Mathlib.Tactic

/-! # Which runs of the driver are balanced

A failed probe gives back what it holds if and only if the cleanup releases just
that. The cleanup releases both memory regions always, and what a stored `fb_info`
points to, so it is wrong where a region was not granted or the stored `fb_info` is
an old one.
-/

namespace Armboard.Ssd1906
open Exec

variable {k : Kernel} {freed : Pointers}

/-! ## The cleanup -/

def Idle (k : Kernel) : Prop := k.ledger.faults = 0 ∧ k.ledger.held = 0

def infoResources (info : ℕ) (p : Pointers) : List Resource :=
  p.regs.toList.map .mapping ++ (if p.cmap then [.cmap info] else []) ++
    p.screenBase.toList.map .mapping ++ [.fbInfo info]

def removal (k : Kernel) : List Resource :=
  (match k.drvdata with
    | some info => infoResources info (k.infos info)
    | none => []) ++ memRegions

theorem releaseOpt_spec (f : ℕ → Resource) (id : Option ℕ) (k : Kernel) :
    wp (releaseOpt f id) (fun _ t =>
      t = { k with ledger := k.ledger.releaseAll (id.toList.map f) }) never k := by
  cases id with
  | none => rfl
  | some id => rfl

theorem fbDeallocCmap_spec (info : ℕ) (k : Kernel) : wp (fbDeallocCmap info) (fun _ t =>
    t.ledger = k.ledger.releaseAll (if (k.infos info).cmap then [.cmap info] else []) ∧
    t.drvdata = k.drvdata ∧ (t.infos info).screenBase = (k.infos info).screenBase) never k := by
  rw [fbDeallocCmap, wp_bind, wp_get, wp_ite]
  split
  · simp [release, modifyPointers]
  · simp

theorem removeInfo_spec (info : ℕ) (freed : Pointers) (k : Kernel) :
    wp (removeInfo info freed) (fun _ t =>
      t.ledger = k.ledger.releaseAll (infoResources info (k.infos info))) never k := by
  rw [removeInfo, wp_bind, wp_get, wp_bind]
  apply wp_post (releaseOpt_spec _ _ _)
  rintro _ _ rfl
  rw [wp_bind]
  apply wp_post (fbDeallocCmap_spec info _)
  rintro _ t ⟨ht, -, -⟩
  rw [wp_bind]
  apply wp_post (releaseOpt_spec _ _ _)
  rintro _ _ rfl
  simp only [framebufferRelease, release, modifyPointers, wp_bind, wp_modify, ht, infoResources,
    Ledger.releaseAll_append]
  rfl

theorem remove_spec (freed : Pointers) (k : Kernel) : wp (remove freed) (fun _ t =>
    t.ledger = k.ledger.releaseAll (removal k)) never k := by
  rw [remove, wp_bind, wp_get, wp_bind, removal]
  cases hd : k.drvdata with
  | none => rfl
  | some info =>
    apply wp_post (removeInfo_spec info freed k)
    intro _ t ht
    simp only [release, wp_bind, wp_modify, ht, Ledger.releaseAll_append]
    rfl

/-- The cleanup is right exactly if it releases what is held. -/
theorem remove_idle_iff (freed : Pointers) (k : Kernel) (hk : k.ledger.faults = 0) :
    wp (remove freed) (fun _ t => Idle t ↔ (removal k : Multiset Resource) = k.ledger.held)
      never k := by
  apply wp_post (remove_spec freed k)
  intro _ t ht
  have hfaults := Ledger.releaseAll_faults_eq_iff (removal k) k.ledger
  rw [hk] at hfaults
  rw [Idle, ht, hfaults, Ledger.releaseAll_held, tsub_eq_zero_iff_le]
  exact le_antisymm_iff.symm

theorem remove_registered (freed : Pointers) (k : Kernel) {id : ℕ}
    (hk : .registered id ∈ k.ledger.held) :
    wp (remove freed) (fun _ t => .registered id ∈ t.ledger.held) never k := by
  have hnot : Resource.registered id ∉ (removal k : Multiset Resource) := by
    rw [removal]
    cases k.drvdata with
    | none => simp
    | some info => simp [infoResources]
  apply wp_post (remove_spec freed k)
  intro _ t ht
  rw [ht, Ledger.releaseAll_held, ← Multiset.count_pos, Multiset.count_sub,
    Multiset.count_eq_zero_of_notMem hnot, Nat.sub_zero, Multiset.count_pos]
  exact hk

/-! ## Probes -/

structure Active (k : Kernel) : Prop where
  faults : k.ledger.faults = 0
  region : .memRegion 0 ∈ k.ledger.held
  registered : ∃ id, .registered id ∈ k.ledger.held

/-- What a probe leaves: an active device, or nothing held. -/
def Settled (ret : ℤ) (k : Kernel) : Prop := (ret = 0 ∧ Active k) ∨ (ret < 0 ∧ Idle k)

/-- A probe is settled if and only if `P` holds, and fails otherwise. -/
def SettledIf (P : Prop) (ret : ℤ) (k : Kernel) : Prop :=
  (ret = 0 ∧ Active k ∧ P) ∨ (ret < 0 ∧ (Idle k ↔ P))

theorem settledIf_true {ret : ℤ} : SettledIf True ret k ↔ Settled ret k := by
  simp [SettledIf, Settled]

theorem Settled.settledIf {P : Prop} {ret : ℤ} (h : Settled ret k) (hP : P) :
    SettledIf P ret k := by
  cases h with
  | inl h => exact Or.inl ⟨h.1, h.2, hP⟩
  | inr h => exact Or.inr ⟨h.1, iff_of_true h.2 hP⟩

theorem fail_settledIf {P : Prop} (freed : Pointers) {errno : ℤ} (herrno : 0 < errno)
    (hk : k.ledger.faults = 0) (hP : (removal k : Multiset Resource) = k.ledger.held ↔ P) :
    wp (fail freed errno) (SettledIf P) never k := by
  rw [fail, wp_bind]
  apply wp_post (remove_idle_iff freed k hk)
  intro _ t ht
  exact Or.inr ⟨neg_neg_of_pos herrno, ht.trans hP⟩

/-- What is held is what the cleanup would release, with the pointers `p` in the `fb_info`. -/
structure Cleanable (info : ℕ) (p : Pointers) (k : Kernel) : Prop where
  faults : k.ledger.faults = 0
  drvdata : k.drvdata = some info
  pointers : k.infos info = p
  held : k.ledger.held = (infoResources info p : Multiset Resource) + {.memRegion 0, .memRegion 1}

variable {info : ℕ} {p : Pointers}

theorem Cleanable.fail_settled (h : Cleanable info p k) (freed : Pointers) {errno : ℤ}
    (herrno : 0 < errno) : wp (fail freed errno) Settled never k := by
  have hheld : (removal k : Multiset Resource) = k.ledger.held := by
    rw [removal, h.drvdata, h.held, ← h.pointers]
    rfl
  apply wp_post (fail_settledIf freed herrno h.faults (iff_true_intro hheld))
  intro ret t ht
  exact settledIf_true.mp ht

/-- The pointers of a `fb_info` as a sum, so that one of them can be set. -/
theorem infoResources_coe (info : ℕ) (p : Pointers) : (infoResources info p : Multiset Resource) =
    (p.regs.toList.map Resource.mapping : Multiset Resource) +
      (if p.cmap then {.cmap info} else 0) +
      (p.screenBase.toList.map Resource.mapping : Multiset Resource) + {.fbInfo info} := by
  rw [infoResources, ← Multiset.coe_add, ← Multiset.coe_add, ← Multiset.coe_add]
  cases p.cmap with
  | false => rfl
  | true => rfl

/-- One more resource is held, and the `fb_info` leads to it. -/
theorem Cleanable.acquire (h : Cleanable info p k) (r : Resource) (q : Pointers)
    (hq : (infoResources info q : Multiset Resource) = r ::ₘ (infoResources info p : Multiset Resource))
    {t : Kernel} (hl : t.ledger = k.ledger.acquire r) (hd : t.drvdata = k.drvdata)
    (ht : t.infos info = q) : Cleanable info q t := by
  constructor
  · rw [hl]
    exact h.faults
  · rw [hd]
    exact h.drvdata
  · exact ht
  · rw [hl, Ledger.acquire_held, h.held, hq, Multiset.cons_add]

theorem mapRegs_spec (succeeds : Bool) (h : Cleanable info p k) (hp : p.regs = none) :
    wp (mapRegs succeeds info) (fun regs t => Cleanable info { p with regs := regs } t) never k := by
  cases succeeds with
  | false =>
    constructor
    · exact h.faults
    · exact h.drvdata
    · simp [h.pointers]
    · simpa [infoResources, hp] using h.held
  | true =>
    apply h.acquire (.mapping k.next)
    · simp [infoResources_coe, hp]
    · rfl
    · rfl
    · simp [h.pointers]

theorem mapScreen_spec (succeeds : Bool) (h : Cleanable info p k) (hp : p.screenBase = none) :
    wp (mapScreen succeeds info)
      (fun screenBase t => Cleanable info { p with screenBase := screenBase } t) never k := by
  cases succeeds with
  | false =>
    constructor
    · exact h.faults
    · exact h.drvdata
    · simp [h.pointers]
    · simpa [infoResources, hp] using h.held
  | true =>
    apply h.acquire (.mapping k.next)
    · rw [infoResources_coe, infoResources_coe, hp, ← Multiset.singleton_add]
      simp only [Option.toList_some, Option.toList_none, List.map_cons, List.map_nil,
        Multiset.coe_singleton, Multiset.coe_nil]
      abel
    · rfl
    · rfl
    · simp [h.pointers]

theorem fbAllocCmap_spec (succeeds : Bool) (h : Cleanable info p k) (hp : p.cmap = false) :
    wp (fbAllocCmap succeeds info)
      (fun _ t => Cleanable info { p with cmap := succeeds } t) never k := by
  cases succeeds with
  | false =>
    constructor
    · exact h.faults
    · exact h.drvdata
    · simp [h.pointers, ← hp]
    · simpa [infoResources, hp] using h.held
  | true =>
    apply h.acquire (.cmap info)
    · rw [infoResources_coe, infoResources_coe, hp, ← Multiset.singleton_add, if_pos rfl,
        if_neg (by simp)]
      abel
    · rfl
    · rfl
    · simp [h.pointers]

theorem bringUp_spec (o : Outcome) (freed : Pointers) (h : Cleanable info ⟨none, none, false⟩ k) :
    wp (bringUp o freed info) Settled never k := by
  rw [bringUp, wp_bind]
  apply wp_post (mapRegs_spec o.mapsRegs h rfl)
  intro regs k₁ h₁
  split
  · exact h₁.fail_settled freed (by simp)
  rw [wp_bind]
  apply wp_post (mapScreen_spec o.mapsScreen h₁ rfl)
  intro screenBase k₂ h₂
  split
  · exact h₂.fail_settled freed (by simp)
  split
  · exact h₂.fail_settled freed (by simp)
  rw [wp_bind]
  apply wp_post (fbAllocCmap_spec o.allocatesCmap h₂ rfl)
  intro _ k₃ h₃
  split
  · left
    constructor
    · rfl
    constructor
    · exact h₃.faults
    · simp [h₃.held]
    · exact ⟨info, by simp⟩
  · exact h₃.fail_settled freed (by simp)

/-- What a probe must meet for its failure to be cleaned up. -/
structure ProbeOk (o : Outcome) (k : Kernel) : Prop where
  count : o.numResources = 2
  memory : ∀ i, o.flags i = ioresourceMem
  granted : ∀ i, o.free i = true
  fresh : o.allocates = true ∨ k.drvdata = none

/-- A region that is not held makes the cleanup wrong. -/
theorem removal_ne_of_region (i : Fin 2) (hi : Resource.memRegion i ∉ k.ledger.held) :
    (removal k : Multiset Resource) ≠ k.ledger.held := by
  intro h
  apply hi
  rw [← h, removal, ← Multiset.coe_add]
  fin_cases i <;> simp

theorem allocate_spec (o : Outcome) (freed : Pointers) (hfaults : k.ledger.faults = 0)
    (hheld : k.ledger.held = {.memRegion 1, .memRegion 0}) :
    wp (allocate o freed) (SettledIf (o.allocates = true ∨ k.drvdata = none)) never k := by
  rw [allocate, wp_bind, framebufferAlloc]
  cases ha : o.allocates with
  | true =>
    have hclean : Cleanable k.next ⟨none, none, false⟩
        ⟨k.ledger.acquire (.fbInfo k.next), some k.next,
          Function.update k.infos k.next ⟨none, none, false⟩, k.next + 1⟩ := by
      constructor
      · exact hfaults
      · rfl
      · simp
      · rw [Ledger.acquire_held, hheld, Multiset.pair_comm]
        rfl
    apply wp_post (bringUp_spec o freed hclean)
    intro ret t ht
    exact ht.settledIf (Or.inl rfl)
  | false =>
    apply fail_settledIf freed (by simp) hfaults
    cases hd : k.drvdata with
    | none =>
      rw [removal, hd, hheld, Multiset.pair_comm]
      exact iff_of_true rfl (Or.inr rfl)
    | some info =>
      -- the stored `fb_info` is an old one
      have hnot : Resource.fbInfo info ∉ k.ledger.held := by simp [hheld]
      have hmem : Resource.fbInfo info ∈ (removal k : Multiset Resource) := by
        simp [removal, hd, infoResources]
      constructor
      · intro h
        rw [h] at hmem
        exact absurd hmem hnot
      · rintro (h | h)
        · cases h
        · cases h

/-- A region nobody in the driver holds is granted if it is free. -/
theorem requestMemRegion_spec (i : Fin 2) (free : Bool) (k : Kernel)
    (hi : .memRegion i ∉ k.ledger.held) : wp (requestMemRegion i free) (fun got t => got = free ∧
      t = if free then { k with ledger := k.ledger.acquire (.memRegion i) } else k) never k := by
  cases free with
  | false => simp [requestMemRegion]
  | true => simp [requestMemRegion, hi, acquire]

theorem probe_spec (o : Outcome) (freed : Pointers) (h : Idle k) :
    wp (probe o freed) (SettledIf (ProbeOk o k)) never k := by
  have hregion : ∀ i, Resource.memRegion i ∉ k.ledger.held := by simp [h.2]
  have hearly : ¬ ProbeOk o k → ∀ {errno : ℤ}, 0 < errno →
      wp (fail freed errno) (SettledIf (ProbeOk o k)) never k := by
    intro hn errno herrno
    apply fail_settledIf freed herrno h.1
    exact iff_of_false (removal_ne_of_region 0 (hregion 0)) hn
  rw [probe]
  split
  · rename_i hcount
    exact hearly (fun hok => hcount hok.count) (by simp)
  split
  · rename_i hcount hflags
    apply hearly _ (by simp)
    intro hok
    cases hflags with
    | inl hf => exact hf (hok.memory 0)
    | inr hf => exact hf (hok.memory 1)
  rename_i hcount hflags
  rw [wp_bind]
  apply wp_post (requestMemRegion_spec 0 (o.free 0) k (hregion 0))
  rintro _ _ ⟨rfl, rfl⟩
  cases h0 : o.free 0 with
  | false =>
    apply hearly _ (by simp)
    intro hok
    rw [hok.granted 0] at h0
    cases h0
  | true =>
    have hone : Resource.memRegion 1 ∉ (k.ledger.acquire (.memRegion 0)).held := by simp [h.2]
    rw [if_pos rfl, if_pos rfl, wp_bind]
    apply wp_post (requestMemRegion_spec 1 (o.free 1) _ hone)
    rintro _ _ ⟨rfl, rfl⟩
    cases h1 : o.free 1 with
    | false =>
      apply fail_settledIf freed (by simp)
      · exact h.1
      · apply iff_of_false
        · exact removal_ne_of_region 1 hone
        · intro hok
          rw [hok.granted 1] at h1
          cases h1
    | true =>
      have hok : ProbeOk o k ↔ o.allocates = true ∨ k.drvdata = none := by
        constructor
        · exact ProbeOk.fresh
        · intro hfresh
          rw [not_or, not_not, not_not] at hflags
          constructor
          · exact not_not.mp hcount
          · exact Fin.forall_fin_two.mpr hflags
          · exact Fin.forall_fin_two.mpr ⟨h0, h1⟩
          · exact hfresh
      rw [hok]
      apply allocate_spec
      · exact h.1
      · simp [h.2]

/-! ## Active devices -/

/-- A framebuffer whose device is removed stays registered. -/
theorem remove_active (freed : Pointers) (h : Active k) :
    wp (remove freed) (fun _ t => t.ledger.held ≠ 0) never k := by
  cases h.registered with
  | intro id hid =>
    apply wp_post (remove_registered freed k hid)
    intro _ t ht hzero
    simp [hzero] at ht

/-- So does that of a device which is probed while it is in use. -/
theorem probe_active (o : Outcome) (freed : Pointers) (h : Active k) :
    wp (probe o freed) (fun ret t => ret < 0 ∧ t.ledger.held ≠ 0) never k := by
  have hfail : ∀ {errno : ℤ}, 0 < errno →
      wp (fail freed errno) (fun ret t => ret < 0 ∧ t.ledger.held ≠ 0) never k := by
    intro errno herrno
    rw [fail, wp_bind]
    apply wp_post (remove_active freed h)
    intro _ t ht
    exact ⟨neg_neg_of_pos herrno, ht⟩
  rw [probe]
  split
  · exact hfail (by simp)
  split
  · exact hfail (by simp)
  have hnot : ¬ (o.free 0 = true ∧ Resource.memRegion 0 ∉ k.ledger.held) := by
    intro hand
    exact hand.2 h.region
  rw [wp_bind, requestMemRegion, wp_bind, wp_get, if_neg hnot, wp_pure, if_neg (by simp)]
  exact hfail (by simp)

/-! ## Runs -/

/-- The driver, and whether its last probe succeeded and was not undone by a remove. -/
structure Device where
  kernel : Kernel
  bound : Bool

inductive Step where
  | probe (o : Outcome) (freed : Pointers)
  | remove (freed : Pointers)

def Device.next (x : Device) : Step → Device
  | .probe o freed =>
    match probe o freed x.kernel with
    | .ok ret k => ⟨k, decide (ret = 0)⟩
    | .error _ k => ⟨k, false⟩
  | .remove freed => ⟨final (remove freed x.kernel), false⟩

/-- Nothing was released wrongly, and an unbound driver holds nothing. -/
structure Kept (x : Device) : Prop where
  faults : x.kernel.ledger.faults = 0
  held : x.bound = false → x.kernel.ledger.held = 0

/-- Every step of a run keeps the resources in balance. -/
def Balanced (x : Device) : List Step → Prop
  | [] => True
  | s :: ss => Kept (x.next s) ∧ Balanced (x.next s) ss

def StepOk (x : Device) : Step → Prop
  | .probe o _ => x.bound = false ∧ ProbeOk o x.kernel
  | .remove _ => False

def AllOk (x : Device) : List Step → Prop
  | [] => True
  | s :: ss => StepOk x s ∧ AllOk (x.next s) ss

def Inv (x : Device) : Prop := if x.bound then Active x.kernel else Idle x.kernel

theorem kept_unbound (k : Kernel) : Kept ⟨k, false⟩ ↔ Idle k :=
  ⟨fun h => ⟨h.faults, h.held rfl⟩, fun h => ⟨h.1, fun _ => h.2⟩⟩

theorem next_probe {x : Device} {o : Outcome} {freed : Pointers} {ret : ℤ}
    (hrun : probe o freed x.kernel = .ok ret k) :
    x.next (.probe o freed) = ⟨k, decide (ret = 0)⟩ := by
  rw [Device.next, hrun]

theorem next_remove {x : Device} {freed : Pointers} (hrun : remove freed x.kernel = .ok () k) :
    x.next (.remove freed) = ⟨k, false⟩ := by
  rw [Device.next, hrun]
  rfl

/-- Of an idle driver a probe is kept in balance exactly if it is one the driver is made for. -/
theorem step_idle (x : Device) (s : Step) (hb : x.bound = false) (h : Idle x.kernel) :
    (Kept (x.next s) ↔ StepOk x s) ∧ (StepOk x s → Inv (x.next s)) := by
  cases s with
  | probe o freed =>
    rcases wp_never.mp (probe_spec o freed h) with ⟨ret, t, hrun, hset⟩
    rw [next_probe hrun]
    cases hset with
    | inl hset =>
      rcases hset with ⟨rfl, hactive, hok⟩
      constructor
      · exact iff_of_true ⟨hactive.faults, fun hf => by simp at hf⟩ ⟨hb, hok⟩
      · intro _
        exact hactive
    | inr hset =>
      rcases hset with ⟨hneg, hidle⟩
      have hne : decide (ret = 0) = false := decide_eq_false hneg.ne
      rw [hne, kept_unbound]
      constructor
      · exact hidle.trans ⟨fun hok => ⟨hb, hok⟩, fun hok => hok.2⟩
      · intro hok
        exact hidle.mpr hok.2
  | remove freed =>
    rcases wp_never.mp (remove_idle_iff freed x.kernel h.1) with ⟨_, t, hrun, hidle⟩
    have hregion : Resource.memRegion 0 ∉ x.kernel.ledger.held := by simp [h.2]
    rw [next_remove hrun, kept_unbound, hidle]
    constructor
    · exact iff_of_false (removal_ne_of_region 0 hregion) (fun hok => hok)
    · exact False.elim

/-- Of an active device nothing more can be kept in balance. -/
theorem step_active (x : Device) (s : Step) (hb : x.bound = true) (h : Active x.kernel) :
    ¬ Kept (x.next s) ∧ ¬ StepOk x s := by
  cases s with
  | probe o freed =>
    rcases wp_never.mp (probe_active o freed h) with ⟨ret, t, hrun, hneg, hheld⟩
    rw [next_probe hrun, decide_eq_false hneg.ne, kept_unbound]
    constructor
    · exact fun hidle => hheld hidle.2
    · intro hok
      rw [StepOk, hb] at hok
      exact absurd hok.1 (by simp)
  | remove freed =>
    rcases wp_never.mp (remove_active freed h) with ⟨_, t, hrun, hheld⟩
    rw [next_remove hrun, kept_unbound]
    constructor
    · exact fun hidle => hheld hidle.2
    · exact fun hok => hok

/-- From a state with the invariant a step keeps the balance exactly if the driver is made for it,
and then the invariant holds again. -/
theorem step_spec (x : Device) (s : Step) (h : Inv x) :
    (Kept (x.next s) ↔ StepOk x s) ∧ (StepOk x s → Inv (x.next s)) := by
  rw [Inv] at h
  cases hb : x.bound with
  | false =>
    rw [hb] at h
    exact step_idle x s hb h
  | true =>
    rw [hb] at h
    have hnot := step_active x s hb h
    constructor
    · exact iff_of_false hnot.1 hnot.2
    · exact fun hok => absurd hok hnot.2

/-- Just those runs are balanced whose probes all find a device that is not in use, with two memory
resources that are granted, and get a `fb_info` unless an earlier one is stored; and which remove
nothing. -/
theorem balanced_iff (steps : List Step) (infos : ℕ → Pointers) (next : ℕ) :
    let x : Device := ⟨⟨Ledger.empty, none, infos, next⟩, false⟩
    Balanced x steps ↔ AllOk x steps := by
  have hrun : ∀ x, Inv x → (Balanced x steps ↔ AllOk x steps) := by
    induction steps with
    | nil =>
      intro x h
      rfl
    | cons s ss ih =>
      intro x h
      have hstep := step_spec x s h
      rw [Balanced, AllOk, hstep.1]
      apply and_congr_right
      intro hok
      exact ih _ (hstep.2 hok)
  apply hrun
  exact ⟨rfl, rfl⟩

/-- The first probe finds the display memory in the hands of another driver. -/
def busy : Outcome where
  numResources := 2
  flags _ := ioresourceMem
  free i := decide (i.val = 1)
  allocates := true
  mapsRegs := true
  mapsScreen := true
  revision := 0x78
  allocatesCmap := true
  registers := true

theorem not_balanced_busy :
    ¬ Balanced ⟨⟨Ledger.empty, none, fun _ => ⟨none, none, false⟩, 0⟩, false⟩
      [.probe busy ⟨none, none, false⟩] := by
  intro h
  have hfaults := h.1.faults
  revert hfaults
  decide

end Armboard.Ssd1906
