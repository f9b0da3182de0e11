import Mathlib.Tactic.Common

/-! # Runs of a transition system

A system takes labelled steps, and a run is one step for each label of a list. What a
step keeps is kept by every run, and a relation between two systems that matches single
steps matches runs.
-/

namespace Armboard.Exec

universe u v w x
variable {κ : Type u} {σ : Type v} {τ : Type w} {κ' : Type x}

def Run (step : κ → σ → σ → Prop) : List κ → σ → σ → Prop
  | [], s, t => s = t
  | e :: es, s, t => ∃ u, step e s u ∧ Run step es u t

variable {step : κ → σ → σ → Prop} {step' : κ → τ → τ → Prop}

theorem Run.keeps {es : List κ} {P : σ → Prop} (hstep : ∀ e ∈ es, ∀ s t, P s → step e s t → P t)
    {s t : σ} (hrun : Run step es s t) (hs : P s) : P t := by
  induction es generalizing s with
  | nil =>
    cases hrun
    exact hs
  | cons e es ih =>
    obtain ⟨u, hu, hrest⟩ := hrun
    exact ih (fun e he => hstep e (List.mem_cons_of_mem _ he)) hrest
      (hstep e List.mem_cons_self s u hs hu)

/-- A forward simulation of steps is one of runs. -/
theorem Run.simulate {R : σ → τ → Prop}
    (hsim : ∀ e s t a, R s a → step e s t → ∃ b, step' e a b ∧ R t b) {es : List κ} {s t : σ}
    (hrun : Run step es s t) {a : τ} (h : R s a) : ∃ b, Run step' es a b ∧ R t b := by
  induction es generalizing s a with
  | nil =>
    cases hrun
    exact ⟨a, rfl, h⟩
  | cons e es ih =>
    obtain ⟨u, hu, hrest⟩ := hrun
    obtain ⟨b, hb, hub⟩ := hsim e s u a h hu
    obtain ⟨c, hc, htc⟩ := ih hrest hub
    exact ⟨c, ⟨b, hb, hc⟩, htc⟩

end Armboard.Exec
