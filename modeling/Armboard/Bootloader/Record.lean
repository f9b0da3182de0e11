import Armboard.Bootloader.Monitor

/-! # Reading the record of a run

Answers are judged by the reference editor: what counts is the line that the keys of
a question edit to. A call of `write_dataflash` is consented to when the questions
that allow it stand right in front of it in the record.
-/

namespace Armboard.Bootloader
open Exec DataFlash Storage

/-! ## What the record has to show -/

/-- The keys make up one call of the editor, ended by Enter, whose line begins with `c`. -/
def Begins (keys : List Byte) (c : Byte) : Prop :=
  ∃ line, Enters keys line ∧ line.head? = some c

def SaysYes (keys : List Byte) : Prop := Begins keys 0x59 ∨ Begins keys 0x79

/-- The record `before` a call of `write_dataflash` allows the call. -/
inductive Consented (addr size : Word) : List Event → Prop
  | erase {k k₀ : List Byte} {before : List Event} (hmenu : Begins k₀ 0x35) (hyes : SaysYes k) :
      Consented addr size
        (.asked (some eraseQuestion) k :: .asked (some menuPrompt) k₀ :: before)
  | update {k₁ k₀ : List Byte} {before : List Event} (hmenu : Begins k₀ 0x31) (hyes : SaysYes k₁)
      (haddr : addr ≠ 0) :
      Consented addr size
        (.asked (some "") k₁ :: .downloaded size :: .asked (some menuPrompt) k₀ :: before)
  | danger {k₂ k₁ k₀ : List Byte} {before : List Event} (hmenu : Begins k₀ 0x31)
      (hyes : SaysYes k₁) (hdanger : SaysYes k₂) :
      Consented addr size (.asked (some dangerQuestion) k₂ :: .asked (some "") k₁ ::
        .downloaded size :: .asked (some menuPrompt) k₀ :: before)

/-- Every write of the record, with its address, its size and the flash before and after, has
property `p` in view of the record before it. -/
def EveryWrite (p : Word → Word → (ℕ → Byte) → (ℕ → Byte) → List Event → Prop) :
    List Event → Prop
  | [] => True
  | .wrote addr _ size f g :: before => p addr size f g before ∧ EveryWrite p before
  | .asked _ _ :: before => EveryWrite p before
  | .downloaded _ :: before => EveryWrite p before

/-! ## Reading a line -/

/-- What is in `message[0]` behind a call of the editor that took `keys`. -/
def Shows (keys : List Byte) (message : ℕ → Byte) : Prop :=
  ∀ c, c ≠ 0 → message 0 = c → Begins keys c

theorem take_consumed (typed rest : List Byte) (c : Byte) :
    (typed ++ c :: rest).take ((typed ++ c :: rest).length - rest.length) = typed ++ [c] := by
  have h : typed ++ c :: rest = (typed ++ [c]) ++ rest := by simp
  rw [h, List.length_append, Nat.add_sub_cancel, List.take_left]

/-- What the buffer shows in its first place is the first character of the edited line. -/
theorem Finished.shows {keys : List Byte} {buf : ℕ → Byte} {r : ReadResult}
    (h : Finished keys [] buf r) :
    Shows (keys.take (keys.length - r.rest.length)) r.edit.buf := by
  intro c hc h0
  cases h with
  | @enter typed d _ hk ht hd hret hs hb =>
    rw [hk, take_consumed]
    refine ⟨lineOf typed, ⟨typed, d, rfl, ht, hd, rfl⟩, ?_⟩
    rw [hb] at h0
    rcases Nat.eq_zero_or_pos (typed.foldl press []).length with hz | hpos
    · rw [hz, Function.update_self] at h0
      exact absurd h0.symm hc
    · rw [Function.update_of_ne (Nat.ne_of_lt hpos), hs.get hpos] at h0
      have hlen : 0 < (typed.foldl press []).reverse.length := by rwa [List.length_reverse]
      rw [lineOf, List.head?_eq_getElem?, List.getElem?_eq_getElem hlen, ← h0,
        List.getD_eq_getElem _ _ hlen]
  | @breaks typed _ hk ht hret hb =>
    rw [hb, Function.update_self] at h0
    exact absurd h0.symm hc

theorem readLine_spec (prompt : Option String) (w : World) :
    wp (readLine prompt) (fun _ t => t.board = w.board ∧
      ∃ k, t.events = .asked prompt k :: w.events ∧ Shows k t.message)
      (fun e t => e = .blocked ∧ t = w) w := by
  cases hr : readLineKeys (promptLength prompt) w.keys w.message with
  | none =>
    simp only [readLine, wp_bind, wp_get, hr]
    exact ⟨rfl, rfl⟩
  | some r =>
    simp only [readLine, wp_bind, wp_get, hr, wp_set, wp_pure]
    exact ⟨trivial, _, rfl, (readKeys_finished _ _ _ [] r ⟨rfl, rfl, trivial⟩ hr).shows⟩

/-! ## Calls of the main program -/

theorem wp_printf {format : String} {args : List Arg} {Q : Unit → World → Prop}
    {E : Halt → World → Prop} {w : World} :
    wp (printf format args) Q E w ↔
      Q () { w with output := .printf format args :: w.output } := Iff.rfl

theorem wp_onBoard {α : Type} {x : Driver α} {Q : α → World → Prop} {E : Halt → World → Prop}
    {w : World} : wp (onBoard x) Q E w ↔
      wp x (fun a b => Q a { w with board := b }) (fun e b => E e { w with board := b }) w.board :=
  wp_onPart _ _ _

theorem wp_writeFlash {addr src size : Word} {Q : Word → World → Prop} {E : Halt → World → Prop}
    {w : World} :
    wp (writeFlash addr src size) Q E w ↔
      wp (writeDataflash addr src size)
        (fun r b => Q r { w with
          board := b
          events := .wrote addr src size w.board.chip.flash b.chip.flash :: w.events })
        (fun e b => E e { w with
          board := b
          events := .wrote addr src size w.board.chip.flash b.chip.flash :: w.events }) w.board := by
  simp only [wp, writeFlash]
  cases writeDataflash addr src size w.board <;> rfl

end Armboard.Bootloader
