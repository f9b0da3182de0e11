import Armboard.Exec.Loop

/-! # Programs that can only lose a property

A program narrows a property of the state when it returns from every state, and the
property holds behind it exactly if it held before and some condition is true. What a
program appends to a log is of this kind: the log is good behind it if it was good
before and the new entries are. The conditions of the parts add up to that of the whole.
-/

namespace Armboard.Exec

universe u
variable {ε σ α β : Type u}

/-- `x` returns, and `A` holds behind it exactly if it held before and `C` is true. -/
def Narrows (A : σ → Prop) (C : Prop) (x : EStateM ε σ α) : Prop :=
  ∀ s, wp x (fun _ t => A t ↔ A s ∧ C) never s

variable {A : σ → Prop} {C D : Prop}

namespace Narrows

theorem pure (a : α) : Narrows A True (pure a : EStateM ε σ α) := fun _ => (and_iff_left trivial).symm

theorem modify {f : σ → σ} (h : ∀ s, A (f s) ↔ A s ∧ C) :
    Narrows A C (modify f : EStateM ε σ PUnit) := h

theorem congr (h : C ↔ D) {x : EStateM ε σ α} (hx : Narrows A C x) : Narrows A D x := by
  intro s
  apply wp_post (hx s)
  intro _ t ht
  rw [ht, h]

theorem bind {x : EStateM ε σ α} {f : α → EStateM ε σ β} (hx : Narrows A C x)
    (hf : ∀ a, Narrows A D (f a)) : Narrows A (C ∧ D) (x >>= f) := by
  intro s
  rw [wp_bind]
  apply wp_post (hx s)
  intro a t ht
  apply wp_post (hf a t)
  intro _ u hu
  rw [hu, ht, and_assoc]

theorem ite {c : Prop} [Decidable c] {x y : EStateM ε σ α} (hx : Narrows A C x)
    (hy : Narrows A C y) : Narrows A C (if c then x else y) := by
  split
  · exact hx
  · exact hy

/-- A loop of `n` passes whose carried value meets `inv k` before pass `k`. -/
theorem loop_count {stuck : ε} {cond : α → Bool} {body : α → EStateM ε σ α} (inv : ℕ → α → Prop)
    (C : ℕ → Prop) {n fuel : ℕ} (hn : n < fuel) {a : α} (ha : inv 0 a)
    (hcond : ∀ k < n, ∀ a, inv k a → cond a = true)
    (hstep : ∀ k < n, ∀ a, inv k a → ∀ s,
      wp (body a) (fun b t => inv (k + 1) b ∧ (A t ↔ A s ∧ C k)) never s)
    (hend : ∀ a, inv n a → cond a = false) :
    Narrows A (∀ k < n, C k) (loop stuck cond body fuel a) := by
  intro s
  refine wp_loop_count (fun k a t => inv k a ∧ (A t ↔ A s ∧ ∀ i < k, C i)) n ?_ ?_ fuel 0
    (Nat.zero_le n) hn a s ⟨ha, by simp⟩
  · rintro k hk a t ⟨hinv, ht⟩
    constructor
    · exact hcond k hk a hinv
    · apply wp_post (hstep k hk a hinv t)
      rintro b u ⟨hb, hu⟩
      refine ⟨hb, ?_⟩
      rw [hu, ht, Nat.forall_lt_succ_right, and_assoc]
  · rintro a t ⟨hinv, ht⟩
    exact ⟨hend a hinv, ht⟩

end Narrows

end Armboard.Exec
