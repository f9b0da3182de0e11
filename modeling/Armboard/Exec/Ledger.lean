import Mathlib.Data.Multiset.AddSub

/-! # Ledgers of resources

A ledger says what a program holds and what it has released without holding it.
Releasing a whole list is without fault exactly if the list is part of what is held,
and what is held afterwards is the difference.
-/

namespace Armboard.Exec

universe u
variable {ρ : Type u}

/-- What is held, and what was released without being held. -/
structure Ledger (ρ : Type u) where
  held : Multiset ρ
  faults : Multiset ρ

namespace Ledger

def empty : Ledger ρ := ⟨0, 0⟩

def acquire (r : ρ) (l : Ledger ρ) : Ledger ρ := { l with held := r ::ₘ l.held }

@[simp] theorem acquire_held (r : ρ) (l : Ledger ρ) : (l.acquire r).held = r ::ₘ l.held := rfl

@[simp] theorem acquire_faults (r : ρ) (l : Ledger ρ) : (l.acquire r).faults = l.faults := rfl

variable [DecidableEq ρ]

def release (r : ρ) (l : Ledger ρ) : Ledger ρ :=
  if r ∈ l.held then { l with held := l.held.erase r } else { l with faults := r ::ₘ l.faults }

def releaseAll (rs : List ρ) (l : Ledger ρ) : Ledger ρ := rs.foldl (fun l r => l.release r) l

@[simp] theorem releaseAll_nil (l : Ledger ρ) : l.releaseAll [] = l := rfl

@[simp] theorem releaseAll_cons (r : ρ) (rs : List ρ) (l : Ledger ρ) :
    l.releaseAll (r :: rs) = (l.release r).releaseAll rs := rfl

theorem releaseAll_append (rs ts : List ρ) (l : Ledger ρ) :
    l.releaseAll (rs ++ ts) = (l.releaseAll rs).releaseAll ts := List.foldl_append

theorem release_held (r : ρ) (l : Ledger ρ) : (l.release r).held = l.held.erase r := by
  rw [release]
  split
  · rfl
  · rename_i hr
    exact (Multiset.erase_of_notMem hr).symm

theorem releaseAll_held (rs : List ρ) (l : Ledger ρ) :
    (l.releaseAll rs).held = l.held - (rs : Multiset ρ) := by
  induction rs generalizing l with
  | nil => simp
  | cons r rs ih => rw [releaseAll_cons, ih, release_held, ← Multiset.cons_coe, Multiset.sub_cons]

theorem release_faults_eq_iff (r : ρ) (l : Ledger ρ) :
    (l.release r).faults = l.faults ↔ r ∈ l.held := by
  rw [release]
  split
  · rename_i hr
    simp [hr]
  · rename_i hr
    constructor
    · intro h
      have hcard := congrArg Multiset.card h
      simp at hcard
    · intro h
      exact absurd h hr

theorem faults_le_release (r : ρ) (l : Ledger ρ) : l.faults ≤ (l.release r).faults := by
  rw [release]
  split
  · exact le_rfl
  · exact Multiset.le_cons_self _ _

theorem faults_le_releaseAll (rs : List ρ) (l : Ledger ρ) : l.faults ≤ (l.releaseAll rs).faults := by
  induction rs generalizing l with
  | nil => exact le_rfl
  | cons r rs ih => exact (faults_le_release r l).trans (ih (l.release r))

theorem cons_le_iff (r : ρ) (s t : Multiset ρ) : r ::ₘ s ≤ t ↔ r ∈ t ∧ s ≤ t.erase r := by
  constructor
  · intro h
    have herase := Multiset.erase_le_erase r h
    rw [Multiset.erase_cons_head] at herase
    exact ⟨Multiset.mem_of_le h (Multiset.mem_cons_self r s), herase⟩
  · rintro ⟨hr, h⟩
    rw [← Multiset.cons_erase hr]
    exact Multiset.cons_le_cons r h

/-- Nothing goes wrong exactly if everything released is held. -/
theorem releaseAll_faults_eq_iff (rs : List ρ) (l : Ledger ρ) :
    (l.releaseAll rs).faults = l.faults ↔ (rs : Multiset ρ) ≤ l.held := by
  induction rs generalizing l with
  | nil => exact iff_of_true rfl (Multiset.zero_le _)
  | cons r rs ih =>
    rw [releaseAll_cons, ← Multiset.cons_coe, cons_le_iff, ← release_held, ← ih,
      ← release_faults_eq_iff]
    constructor
    · intro h
      have hfirst : (l.release r).faults = l.faults := by
        apply le_antisymm
        · rw [← h]
          exact faults_le_releaseAll rs _
        · exact faults_le_release r l
      exact ⟨hfirst, h.trans hfirst.symm⟩
    · rintro ⟨hfirst, hrest⟩
      exact hrest.trans hfirst

end Ledger

end Armboard.Exec
