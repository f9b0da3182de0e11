import Mathlib.Logic.Basic
import Mathlib.Tactic.Common

/-! # Weakest preconditions of stateful programs that may stop

A program is an `EStateM` computation; stopping keeps the state it stopped in.
The normal and the stopped outcome have separate postconditions, so a proof can
ask for total correctness, for an invariant of every outcome, or for both.
-/

namespace Armboard.Exec

universe u
variable {ε σ τ α β : Type u}

/-- Every outcome of `x` from `s` meets `Q` when it returns and `E` when it stops. -/
def wp (x : EStateM ε σ α) (Q : α → σ → Prop) (E : ε → σ → Prop) (s : σ) : Prop :=
  match x s with
  | .ok a t => Q a t
  | .error e t => E e t

/-- The state an outcome leaves behind, whichever way the run ended. -/
def final : EStateM.Result ε σ α → σ
  | .ok _ t => t
  | .error _ t => t

def never (_ : ε) (_ : σ) : Prop := False

variable {Q Q' : α → σ → Prop} {E E' : ε → σ → Prop} {s : σ}

@[simp] theorem wp_pure (a : α) : wp (pure a : EStateM ε σ α) Q E s ↔ Q a s := Iff.rfl

@[simp] theorem wp_throw (e : ε) : wp (throw e : EStateM ε σ α) Q E s ↔ E e s := Iff.rfl

@[simp] theorem wp_get {Q : σ → σ → Prop} : wp (get : EStateM ε σ σ) Q E s ↔ Q s s := Iff.rfl

@[simp] theorem wp_set {Q : PUnit → σ → Prop} (t : σ) :
    wp (set t : EStateM ε σ PUnit) Q E s ↔ Q ⟨⟩ t := Iff.rfl

@[simp] theorem wp_modify {Q : PUnit → σ → Prop} (f : σ → σ) :
    wp (modify f : EStateM ε σ PUnit) Q E s ↔ Q ⟨⟩ (f s) := Iff.rfl

@[simp] theorem wp_bind {Q : β → σ → Prop} (x : EStateM ε σ α) (f : α → EStateM ε σ β) :
    wp (x >>= f) Q E s ↔ wp x (fun a t => wp (f a) Q E t) E s := by
  simp only [wp, bind, EStateM.bind]
  cases x s <;> rfl

@[simp] theorem wp_map {Q : β → σ → Prop} (f : α → β) (x : EStateM ε σ α) :
    wp (f <$> x) Q E s ↔ wp x (fun a t => Q (f a) t) E s := by
  simp only [wp, Functor.map, EStateM.map]
  cases x s <;> rfl

@[simp] theorem wp_ite (c : Prop) [Decidable c] (x y : EStateM ε σ α) :
    wp (if c then x else y) Q E s ↔ if c then wp x Q E s else wp y Q E s := by
  split <;> rfl

theorem wp_mono {x : EStateM ε σ α} (h : wp x Q E s) (hQ : ∀ a t, Q a t → Q' a t)
    (hE : ∀ e t, E e t → E' e t) : wp x Q' E' s := by
  unfold wp at *
  cases hx : x s with
  | ok a t => rw [hx] at h; exact hQ a t h
  | error e t => rw [hx] at h; exact hE e t h

theorem wp_post {x : EStateM ε σ α} (h : wp x Q E s) (hQ : ∀ a t, Q a t → Q' a t) :
    wp x Q' E s := wp_mono h hQ (fun _ _ he => he)

/-- A total specification may be used under any condition on stops. -/
theorem wp_total {x : EStateM ε σ α} (h : wp x Q never s) (hQ : ∀ a t, Q a t → Q' a t) :
    wp x Q' E s := wp_mono h hQ (fun _ _ he => he.elim)

theorem wp_and {x : EStateM ε σ α} (h : wp x Q E s) (h' : wp x Q' E' s) :
    wp x (fun a t => Q a t ∧ Q' a t) (fun e t => E e t ∧ E' e t) s := by
  unfold wp at *
  cases hx : x s with
  | ok a t =>
    rw [hx] at h h'
    exact ⟨h, h'⟩
  | error e t =>
    rw [hx] at h h'
    exact ⟨h, h'⟩

theorem wp_of_forall {x : EStateM ε σ α} (hQ : ∀ a t, Q a t) (hE : ∀ e t, E e t) : wp x Q E s := by
  unfold wp
  cases x s with
  | ok a t => exact hQ a t
  | error e t => exact hE e t

/-- A program with a total specification returns, in a state that meets it. -/
theorem wp_never {x : EStateM ε σ α} : wp x Q never s ↔ ∃ a t, x s = .ok a t ∧ Q a t := by
  unfold wp
  cases hx : x s with
  | ok a t => simp
  | error e t => simp [never]

theorem wp_of_ok {x : EStateM ε σ α} {a : α} {t : σ} (h : wp x Q E s) (hx : x s = .ok a t) :
    Q a t := by
  unfold wp at h
  rwa [hx] at h

theorem wp_of_error {x : EStateM ε σ α} {e : ε} {t : σ} (h : wp x Q E s)
    (hx : x s = .error e t) : E e t := by
  unfold wp at h
  rwa [hx] at h

theorem wp_final {x : EStateM ε σ α} {P : σ → Prop} (h : wp x (fun _ => P) (fun _ => P) s) :
    P (final (x s)) := by
  unfold wp at h
  cases hx : x s <;> rw [hx] at h <;> exact h

def answerOf : EStateM.Result ε σ α → Option α
  | .ok a _ => some a
  | .error _ _ => none

theorem ok_of_answerOf {r : EStateM.Result ε σ α} {a : α} (h : answerOf r = some a) :
    ∃ t, r = .ok a t := by
  cases r with
  | ok b t =>
    cases h
    exact ⟨t, rfl⟩
  | error e t => cases h

theorem bind_ok {x : EStateM ε σ α} {a : α} {t : σ} (h : x s = .ok a t) (f : α → EStateM ε σ β) :
    (x >>= f) s = f a t := by
  change EStateM.bind x f s = f a t
  rw [EStateM.bind, h]

/-- Run a program on the part of a larger state that `view` and `put` select. -/
def onPart (view : τ → σ) (put : σ → τ → τ) (x : EStateM ε σ α) : EStateM ε τ α := fun t =>
  match x (view t) with
  | .ok a s => .ok a (put s t)
  | .error e s => .error e (put s t)

theorem wp_onPart (view : τ → σ) (put : σ → τ → τ) (x : EStateM ε σ α)
    {Q : α → τ → Prop} {E : ε → τ → Prop} {t : τ} :
    wp (onPart view put x) Q E t ↔
      wp x (fun a s => Q a (put s t)) (fun e s => E e (put s t)) (view t) := by
  simp only [wp, onPart]
  cases x (view t) <;> rfl

end Armboard.Exec
