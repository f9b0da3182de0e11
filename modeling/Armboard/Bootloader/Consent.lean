import Armboard.Bootloader.Run

/-! # No flash write without consent

In every run, from any state of board and buffer, each recorded call of
`write_dataflash` has the answers that allow it right in front of it.
-/

namespace Armboard.Bootloader
open Exec DataFlash

def Authorised : List Event → Prop :=
  EveryWrite (fun addr size _ _ before => Consented addr size before)

/-- Whatever the driver does to the board, the record only grows by writes with consent. -/
theorem authorised_rules :
    Rules (fun _ => True) Authorised (fun _ t => Authorised t.events) where
  mem _ _ _ := trivial
  asked _ _ _ hl := hl
  downloaded _ _ hl := hl
  stop _ _ hl := ⟨hl, hl⟩
  read addr size p w _ hl := by
    rw [wp_onBoard]
    exact wp_of_forall (fun _ _ => ⟨trivial, rfl⟩) (fun _ _ => hl)
  write addr src size w _ hl hc := by
    rw [wp_writeFlash]
    exact wp_of_forall (fun _ _ => ⟨trivial, hc, hl⟩) (fun _ _ => ⟨hc, hl⟩)
  start w _ hl := by
    rw [startUboot, wp_bind, wp_printf, wp_bind, wp_onBoard]
    exact wp_of_forall (fun _ _ => hl) (fun _ _ => hl)

theorem Enters.line_eq {keys line line' : List Byte} (h : Enters keys line)
    (h' : Enters keys line') : line = line' := by
  obtain ⟨typed, c, hk, ht, hc, rfl⟩ := h
  obtain ⟨typed', c', hk', ht', hc', rfl⟩ := h'
  obtain ⟨rfl, -, -⟩ := typed_unique (hk ▸ hk') ht ht' (Or.inl hc) (Or.inl hc')
  rfl

theorem Enters.not_breaks {keys line : List Byte} (h : Enters keys line) : ¬ Breaks keys := by
  rintro ⟨typed', hk', ht'⟩
  obtain ⟨typed, c, hk, ht, hc, -⟩ := h
  obtain ⟨-, rfl, -⟩ := typed_unique (hk ▸ hk') ht ht' (Or.inl hc) (Or.inr rfl)
  exact absurd hc (by decide)

/-- `^C`, an empty line and a line whose `y` was deleted again are no consent. -/
theorem not_saysYes {keys : List Byte} (h : Breaks keys ∨
    ∃ line, Enters keys line ∧ line.head? ≠ some 0x59 ∧ line.head? ≠ some 0x79) :
    ¬ SaysYes keys := by
  rintro (⟨line, hline, hhead⟩ | ⟨line, hline, hhead⟩)
  all_goals
    rcases h with hb | ⟨line', hline', hY, hy⟩
    · exact hline.not_breaks hb
    · rw [hline.line_eq hline'] at hhead
      first | exact hY hhead | exact hy hhead

/-- In every run of the main loop, and of the whole program, `write_dataflash` is called only with
consent, and only a line that begins with `y` or `Y` consents. -/
theorem writes_authorised {γ : Type} [DecidableEq γ] (rom : Rom γ) (w : World) (passes : ℕ) :
    Authorised (final (mainLoop rom passes { w with events := [] })).events ∧
    (∀ inTime, Authorised (final (main rom inTime passes { w with events := [] })).events) ∧
    ∀ keys, (Breaks keys ∨
      ∃ line, Enters keys line ∧ line.head? ≠ some 0x59 ∧ line.head? ≠ some 0x79) →
        ¬ SaysYes keys := by
  refine ⟨?_, fun inTime => ?_, fun keys => not_saysYes⟩
  · exact Rules.record (authorised_rules.mainLoop rom passes { w with events := [] } ⟨trivial, trivial⟩)
  · have hinit : wp (onBoard dataflashInit) (fun _ t => Rules.Inv (fun _ => True) Authorised t)
        (fun _ t => Authorised t.events) { w with events := [] } := by
      rw [wp_onBoard]
      exact wp_of_forall (fun _ _ => ⟨trivial, trivial⟩) (fun _ _ => trivial)
    exact Rules.record (authorised_rules.main rom inTime passes hinit)

end Armboard.Bootloader
