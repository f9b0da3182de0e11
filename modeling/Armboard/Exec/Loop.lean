import Armboard.Exec.Wp

/-! # Loops with a bound

`loop` repeats a body while a condition on its carried value holds, at most a
given number of times; running past the bound stops with a chosen error. A bound
above the number of passes is never noticed, and the counted rule proves it.
-/

namespace Armboard.Exec

universe u
variable {ε σ α : Type u}

/-- `while cond do body`, stopping with `stuck` after `fuel` passes. -/
def loop (stuck : ε) (cond : α → Bool) (body : α → EStateM ε σ α) : ℕ → α → EStateM ε σ α
  | 0, _ => throw stuck
  | fuel + 1, a => if cond a then body a >>= loop stuck cond body fuel else pure a

variable {stuck : ε} {cond : α → Bool} {body : α → EStateM ε σ α}
  {Q : α → σ → Prop} {E : ε → σ → Prop}

/-- The counted rule: `inv k` holds after `k` passes, and the loop makes exactly `n`. -/
theorem wp_loop_count (inv : ℕ → α → σ → Prop) (n : ℕ)
    (hstep : ∀ k < n, ∀ a s, inv k a s → cond a = true ∧ wp (body a) (inv (k + 1)) E s)
    (hend : ∀ a s, inv n a s → cond a = false ∧ Q a s) :
    ∀ fuel k, k ≤ n → n < fuel + k → ∀ a s, inv k a s →
      wp (loop stuck cond body fuel a) Q E s := by
  intro fuel
  induction fuel with
  | zero => intro k hk hn; omega
  | succ fuel ih =>
    intro k hk hn a s h
    rcases Nat.lt_or_eq_of_le hk with hlt | rfl
    · obtain ⟨hc, hb⟩ := hstep k hlt a s h
      rw [loop, hc, if_pos rfl, wp_bind]
      exact wp_post hb (fun a t ht => ih (k + 1) hlt (by omega) a t ht)
    · obtain ⟨hc, hq⟩ := hend a s h
      rw [loop, hc]
      simpa using hq

-- A loop whose condition computes must not be run by unfolding: the rule says all about it.
attribute [irreducible] loop

end Armboard.Exec
