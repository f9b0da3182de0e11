import Armboard.Exec.Wp

/-! # Invariants of programs

A program maintains an invariant when it holds again whenever the program returns,
with a separate condition on the states in which it stops. The rules follow the
program's structure, so that a run is dealt with piece by piece.
-/

namespace Armboard.Exec

universe u
variable {ε σ τ α β : Type u}

/-- From a state with `Inv` the program returns to one, or stops as `E` allows. -/
def Maintains (Inv : σ → Prop) (E : ε → σ → Prop) (x : EStateM ε σ α) : Prop :=
  ∀ s, Inv s → wp x (fun _ t => Inv t) E s

variable {Inv : σ → Prop} {E : ε → σ → Prop}

namespace Maintains

theorem pure (a : α) : Maintains Inv E (pure a : EStateM ε σ α) := fun _ h => h

theorem get : Maintains Inv E (get : EStateM ε σ σ) := fun _ h => h

theorem throw {e : ε} (h : ∀ s, Inv s → E e s) : Maintains Inv E (throw e : EStateM ε σ α) := h

theorem modify {f : σ → σ} (h : ∀ s, Inv s → Inv (f s)) :
    Maintains Inv E (modify f : EStateM ε σ PUnit) := h

theorem bind {x : EStateM ε σ α} {f : α → EStateM ε σ β} (hx : Maintains Inv E x)
    (hf : ∀ a, Maintains Inv E (f a)) : Maintains Inv E (x >>= f) := by
  intro s hs
  rw [wp_bind]
  exact wp_post (hx s hs) (fun a t ht => hf a t ht)

theorem ite {c : Prop} [Decidable c] {x y : EStateM ε σ α} (hx : c → Maintains Inv E x)
    (hy : ¬ c → Maintains Inv E y) : Maintains Inv E (if c then x else y) := by
  split
  · exact hx ‹_›
  · exact hy ‹_›

theorem forM {κ : Type u} (l : List κ) {f : κ → EStateM ε σ PUnit}
    (hf : ∀ a, Maintains Inv E (f a)) : Maintains Inv E (l.forM f) := by
  induction l with
  | nil => exact pure _
  | cons a l ih => exact bind (hf a) (fun _ => ih)

end Maintains

end Armboard.Exec
