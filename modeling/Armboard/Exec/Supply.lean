import Armboard.Exec.Wp

/-! # Programs that live on a supply

A program takes its input from a supply, of which some part is known to serve it. It needs
at most `k` of that part when it returns having used no more, and stops only where the
supply is dry, and then only if there was less. What the parts need adds up.
-/

namespace Armboard.Exec

universe u
variable {ε σ α β : Type u}

/-- From `s`, `x` uses at most `k` of what `avail` counts, and stops only for want of it. -/
def Needs (avail : σ → ℕ) (dry : ε → σ → Prop) (k : ℕ) (x : EStateM ε σ α) (s : σ) : Prop :=
  wp x (fun _ t => avail s ≤ avail t + k) (fun e t => dry e t ∧ avail s < k) s

variable {avail : σ → ℕ} {dry : ε → σ → Prop} {k m : ℕ} {s : σ}

namespace Needs

theorem pure (a : α) : Needs avail dry k (pure a : EStateM ε σ α) s := Nat.le_add_right _ _

theorem mono {x : EStateM ε σ α} (h : Needs avail dry k x s) (hk : k ≤ m) :
    Needs avail dry m x s :=
  wp_mono h (fun _ _ ht => Nat.le_trans ht (Nat.add_le_add_left hk _))
    (fun _ _ he => ⟨he.1, Nat.lt_of_lt_of_le he.2 hk⟩)

theorem get {f : σ → EStateM ε σ β} (h : Needs avail dry k (f s) s) :
    Needs avail dry k (get >>= f) s := by
  rw [Needs, wp_bind]
  exact h

/-- What leaves the supply alone goes in front. -/
theorem step {x : EStateM ε σ α} {f : α → EStateM ε σ β} {a : α} {t : σ} (hx : x s = .ok a t)
    (ht : avail t = avail s) (h : Needs avail dry k (f a) t) :
    Needs avail dry k (x >>= f) s := by
  rw [Needs, wp, bind_ok hx, ← ht]
  exact h

theorem bind {x : EStateM ε σ α} {f : α → EStateM ε σ β} {n : ℕ} (hx : Needs avail dry k x s)
    (hf : ∀ a t, x s = .ok a t → Needs avail dry m (f a) t) (hn : k + m ≤ n) :
    Needs avail dry n (x >>= f) s := by
  rw [Needs, wp_bind]
  unfold Needs wp at *
  cases h : x s with
  | ok a t =>
    rw [h] at hx
    apply wp_mono (hf a t h)
    · intro _ u hu
      omega
    · rintro e u ⟨hdry, hlt⟩
      exact ⟨hdry, by omega⟩
  | error e t =>
    rw [h] at hx
    exact ⟨hx.1, by omega⟩

theorem ite {c : Prop} [Decidable c] {x y : EStateM ε σ α} (hx : c → Needs avail dry k x s)
    (hy : ¬ c → Needs avail dry k y s) : Needs avail dry k (if c then x else y) s := by
  split
  · exact hx ‹_›
  · exact hy ‹_›

end Needs

end Armboard.Exec
