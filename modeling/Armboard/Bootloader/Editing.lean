import Armboard.Bootloader.LineEditor
import Mathlib.Data.List.GetD
import Mathlib.Tactic

/-! # Editing as an operation on lines

The reference editor works on a list of characters, the last one typed first. The
buffer refines it: up to the cursor it holds the line, and every byte is the one
last typed in its place, so what a deleted character leaves behind is known too.
-/

namespace Armboard.Bootloader
open DataFlash

/-! ## The reference editor -/

/-- `^W` removes characters up to and including the first space. -/
def eraseWord : List Byte → List Byte
  | [] => []
  | c :: l => if c = space then l else eraseWord l

/-- One key on a line; the head of the line is the character before the cursor. -/
def press (l : List Byte) (c : Byte) : List Byte :=
  if c = ctrlU then []
  else if c = ctrlW then eraseWord l
  else if c = backspace ∨ c = del then l.tail
  else if l.length < 38 then c :: l
  else l

def Ends (c : Byte) : Prop := (c = cr ∨ c = lf) ∨ c = ctrlC

instance (c : Byte) : Decidable (Ends c) := inferInstanceAs (Decidable (_ ∨ _))

/-- The line that a sequence of keys edits, read from left to right. -/
def lineOf (keys : List Byte) : List Byte := (keys.foldl press []).reverse

theorem lineOf_length (typed : List Byte) : (lineOf typed).length = (typed.foldl press []).length :=
  List.length_reverse

/-- The keys make up one call of the editor that Enter ends, with the given line. -/
def Enters (keys line : List Byte) : Prop :=
  ∃ typed c, keys = typed ++ [c] ∧ (∀ k ∈ typed, ¬ Ends k) ∧ (c = cr ∨ c = lf) ∧ line = lineOf typed

/-- The keys make up one call of the editor that `^C` ends. -/
def Breaks (keys : List Byte) : Prop :=
  ∃ typed, keys = typed ++ [ctrlC] ∧ ∀ k ∈ typed, ¬ Ends k

def Types (l : List Byte) (c : Byte) : Prop :=
  c ≠ ctrlU ∧ c ≠ ctrlW ∧ c ≠ backspace ∧ c ≠ del ∧ l.length < 38

instance (l : List Byte) (c : Byte) : Decidable (Types l c) :=
  inferInstanceAs (Decidable (_ ∧ _ ∧ _ ∧ _ ∧ _))

/-- In every place the character last typed there, or what was there before the first. -/
def lastTyped : List Byte → List Byte → (ℕ → Byte) → ℕ → Byte
  | [], _, old => old
  | c :: cs, l, old =>
    lastTyped cs (press l c) (if Types l c then Function.update old l.length c else old)

/-! ## The buffer holds the line -/

def Spells (buf : ℕ → Byte) : List Byte → Prop
  | [] => True
  | c :: l => buf l.length = c ∧ Spells buf l

theorem Spells.update {buf : ℕ → Byte} {l : List Byte} (h : Spells buf l) {k : ℕ}
    (hk : l.length ≤ k) (c : Byte) : Spells (Function.update buf k c) l := by
  induction l with
  | nil => trivial
  | cons d l ih =>
    rw [List.length_cons] at hk
    refine ⟨?_, ih h.2 (by omega)⟩
    rw [Function.update_of_ne (by omega)]
    exact h.1

theorem Spells.get {buf : ℕ → Byte} {l : List Byte} (h : Spells buf l) {i : ℕ}
    (hi : i < l.length) : buf i = l.reverse.getD i 0 := by
  induction l with
  | nil => simp at hi
  | cons c l ih =>
    rw [List.length_cons] at hi
    rw [List.reverse_cons]
    rcases Nat.lt_or_eq_of_le (Nat.lt_succ_iff.mp hi) with hlt | rfl
    · rw [List.getD_append _ _ _ _ (by simpa using hlt)]
      exact ih h.2 hlt
    · rw [List.getD_append_right _ _ _ _ (by simp)]
      simpa using h.1

/-- The variables of the editor stand for line `l`. -/
structure Holds (e : Edit) (l : List Byte) : Prop where
  n : e.n = l.length
  p : e.p = l.length
  spells : Spells e.buf l

namespace Edit

/-- Two states that differ in what the terminal shows only. -/
structure SameLine (e f : Edit) : Prop where
  buf : f.buf = e.buf
  p : f.p = e.p
  n : f.n = e.n

theorem SameLine.trans {e f g : Edit} (h : SameLine e f) (h' : SameLine f g) : SameLine e g :=
  ⟨h'.buf.trans h.buf, h'.p.trans h.p, h'.n.trans h.n⟩

theorem eraseColumns_same (k : ℕ) : ∀ e, SameLine e (eraseColumns k e) := by
  induction k with
  | zero => exact fun e => ⟨rfl, rfl, rfl⟩
  | succ k ih =>
    intro e
    have h := ih { e.puts eraseSeq with col := e.col - 1 }
    exact ⟨h.buf, h.p, h.n⟩

theorem retype_same (k : ℕ) : ∀ s e, SameLine e (retype k s e) := by
  induction k with
  | zero => exact fun s e => ⟨rfl, rfl, rfl⟩
  | succ k ih =>
    intro s e
    rw [retype]
    split
    · have h := ih (s + 1)
        { e.puts (tabSeq.drop (e.col % 8).toNat) with col := e.col + (8 - e.col % 8) }
      exact ⟨h.buf, h.p, h.n⟩
    · have h := ih (s + 1) { e.puts [e.buf s] with col := e.col + 1 }
      exact ⟨h.buf, h.p, h.n⟩

theorem removeShown_same (plen : ℤ) (e : Edit) :
    SameLine e (if e.buf e.p = tab then retype e.p 0 (eraseColumns (e.col - plen).toNat e)
      else { e.puts eraseSeq with col := e.col - 1 }) := by
  split
  · exact (eraseColumns_same _ e).trans (retype_same e.p 0 _)
  · exact ⟨rfl, rfl, rfl⟩

theorem deleteChar_holds (plen : ℤ) {e : Edit} {l : List Byte} (h : Holds e l) :
    Holds (e.deleteChar plen) l.tail ∧ (e.deleteChar plen).buf = e.buf := by
  cases l with
  | nil =>
    have hn : e.n = 0 := h.n
    rw [deleteChar, if_pos hn]
    exact ⟨h, rfl⟩
  | cons c l =>
    have hn : e.n = l.length + 1 := h.n
    have hp : e.p = l.length + 1 := h.p
    rw [deleteChar, if_neg (by omega)]
    have hbuf : ∀ f : Edit, SameLine { e with p := e.p - 1 } f →
        Holds { f with n := f.n - 1 } l ∧ { f with n := f.n - 1 }.buf = e.buf := by
      intro f hf
      refine ⟨⟨?_, ?_, ?_⟩, hf.buf⟩
      · change f.n - 1 = l.length
        rw [hf.n]
        exact Nat.sub_eq_of_eq_add hn
      · change f.p = l.length
        rw [hf.p]
        exact Nat.sub_eq_of_eq_add hp
      · change Spells f.buf l
        rw [hf.buf]
        exact h.spells.2
    apply hbuf
    exact removeShown_same plen _

/-- The loop of `^W`, behind the deletion of `c`: by induction on what is left of the line. -/
theorem deleteWord_holds (plen : ℤ) (l : List Byte) : ∀ (e : Edit) (c : Byte), Holds e l →
    e.buf l.length = c → Holds (e.deleteWord plen l.length) (if c = space then l else eraseWord l) ∧
      (e.deleteWord plen l.length).buf = e.buf := by
  induction l with
  | nil =>
    intro e c h _
    refine ⟨?_, rfl⟩
    split <;> exact h
  | cons d l ih =>
    intro e c h hc
    have hn : 0 < e.n := h.n ▸ Nat.succ_pos _
    rw [List.length_cons, deleteWord, h.p, hc]
    by_cases hsp : c = space
    · rw [if_neg (fun hh => hh.2 hsp), if_pos hsp]
      exact ⟨h, rfl⟩
    · obtain ⟨hd, hbuf⟩ := deleteChar_holds plen h
      rw [if_pos ⟨hn, hsp⟩, if_neg hsp]
      obtain ⟨hw, hb⟩ := ih (e.deleteChar plen) d hd (by rw [hbuf]; exact h.spells.1)
      exact ⟨hw, hb.trans hbuf⟩

/-- Each key does to the buffer what it does to the line. -/
theorem key_holds (plen : ℤ) {e : Edit} {l : List Byte} (h : Holds e l) (c : Byte) :
    Holds (e.key plen c) (press l c) ∧
      (e.key plen c).buf = if Types l c then Function.update e.buf l.length c else e.buf := by
  unfold key press
  by_cases hu : c = ctrlU
  · have hs := eraseColumns_same (e.col - plen).toNat e
    rw [if_pos hu, if_pos hu, if_neg (fun ht : Types l c => ht.1 hu)]
    exact ⟨⟨rfl, rfl, trivial⟩, hs.buf⟩
  by_cases hw : c = ctrlW
  · obtain ⟨hd, hbuf⟩ := deleteChar_holds plen h
    rw [if_neg hu, if_neg hu, if_pos hw, if_pos hw, if_neg (fun ht : Types l c => ht.2.1 hw)]
    change Holds ((e.deleteChar plen).deleteWord plen (e.deleteChar plen).n) _ ∧
      ((e.deleteChar plen).deleteWord plen (e.deleteChar plen).n).buf = e.buf
    rw [hd.n]
    cases l with
    | nil => exact ⟨hd, hbuf⟩
    | cons d l =>
      obtain ⟨hw', hb⟩ := deleteWord_holds plen l (e.deleteChar plen) d hd
        (by rw [hbuf]; exact h.spells.1)
      exact ⟨hw', hb.trans hbuf⟩
  by_cases hb : c = backspace ∨ c = del
  · have ht : ¬ Types l c := fun ht => hb.elim ht.2.2.1 ht.2.2.2.1
    rw [if_neg hu, if_neg hu, if_neg hw, if_neg hw, if_pos hb, if_pos hb, if_neg ht]
    exact deleteChar_holds plen h
  · obtain ⟨hb₁, hb₂⟩ := not_or.mp hb
    have hcb : cbSize - 2 = 38 := rfl
    rw [if_neg hu, if_neg hu, if_neg hw, if_neg hw, if_neg hb, if_neg hb, h.n, hcb]
    by_cases hlen : l.length < 38
    · rw [if_pos hlen, if_pos hlen, if_pos (show Types l c from ⟨hu, hw, hb₁, hb₂, hlen⟩)]
      refine ⟨⟨rfl, congrArg (· + 1) h.p, ?_, ?_⟩, ?_⟩
      · change Function.update e.buf e.p c l.length = c
        rw [h.p, Function.update_self]
      · change Spells (Function.update e.buf e.p c) l
        exact h.spells.update h.p.ge c
      · change Function.update e.buf e.p c = _
        rw [h.p]
    · rw [if_neg hlen, if_neg hlen, if_neg (fun ht : Types l c => hlen ht.2.2.2.2)]
      exact ⟨⟨h.n, h.p, h.spells⟩, rfl⟩

end Edit

/-! ## Whole calls -/

/-- How a call of the editor ends, seen from a line `l` in buffer `e.buf`. -/
inductive Finished (keys : List Byte) (l : List Byte) (buf : ℕ → Byte) : ReadResult → Prop
  | enter {typed : List Byte} {c : Byte} {r : ReadResult} (hk : keys = typed ++ c :: r.rest)
      (ht : ∀ k ∈ typed, ¬ Ends k) (hc : c = cr ∨ c = lf)
      (hret : r.ret = ((typed.foldl press l).length : ℤ))
      (hs : Spells (lastTyped typed l buf) (typed.foldl press l))
      (hb : r.edit.buf = Function.update (lastTyped typed l buf) (typed.foldl press l).length 0) :
      Finished keys l buf r
  | breaks {typed : List Byte} {r : ReadResult} (hk : keys = typed ++ ctrlC :: r.rest)
      (ht : ∀ k ∈ typed, ¬ Ends k) (hret : r.ret = -1)
      (hb : r.edit.buf = Function.update (lastTyped typed l buf) 0 0) : Finished keys l buf r

/-- The editor on the buffer refines the reference editor: by induction on the keys. -/
theorem readKeys_finished (plen : ℤ) (keys : List Byte) : ∀ (e : Edit) (l : List Byte)
    (r : ReadResult), Holds e l → readKeys plen keys e = some r → Finished keys l e.buf r := by
  induction keys with
  | nil => intro e l r _ h; simp [readKeys] at h
  | cons c cs ih =>
    intro e l r hl h
    rw [readKeys] at h
    by_cases hc : c = cr ∨ c = lf
    · rw [if_pos hc] at h
      obtain rfl := Option.some.inj h
      refine @Finished.enter _ _ _ [] c _ rfl (by simp) hc ?_ hl.spells ?_
      · exact congrArg _ hl.p
      · change Function.update e.buf e.p 0 = _
        rw [hl.p]
        rfl
    · rw [if_neg hc] at h
      by_cases hcc : c = ctrlC
      · rw [if_pos hcc] at h
        obtain rfl := Option.some.inj h
        exact @Finished.breaks _ _ _ [] _ (by rw [hcc]; rfl) (by simp) rfl rfl
      · rw [if_neg hcc] at h
        obtain ⟨hl', hbuf⟩ := Edit.key_holds plen hl c
        have hend : ¬ Ends c := not_or.mpr ⟨hc, hcc⟩
        have hf := ih _ _ r hl' h
        rw [hbuf] at hf
        cases hf with
        | enter hk ht hc' hret hs hb =>
          exact .enter (congrArg (c :: ·) hk) (List.forall_mem_cons.mpr ⟨hend, ht⟩) hc' hret hs hb
        | breaks hk ht hret hb =>
          exact .breaks (congrArg (c :: ·) hk) (List.forall_mem_cons.mpr ⟨hend, ht⟩) hret hb

theorem readKeys_isSome (plen : ℤ) {c : Byte} (hc : Ends c) (rest typed : List Byte) :
    ∀ e, (readKeys plen (typed ++ c :: rest) e).isSome := by
  induction typed with
  | nil =>
    intro e
    rw [List.nil_append, readKeys]
    by_cases h : c = cr ∨ c = lf
    · rw [if_pos h]
      rfl
    · rw [if_neg h, if_pos (hc.resolve_left h)]
      rfl
  | cons d typed ih =>
    intro e
    rw [List.cons_append, readKeys]
    split
    · rfl
    · split
      · rfl
      · exact ih _

theorem typed_unique {s t u v : List Byte} {c d : Byte} (h : s ++ c :: u = t ++ d :: v)
    (hs : ∀ k ∈ s, ¬ Ends k) (ht : ∀ k ∈ t, ¬ Ends k) (hc : Ends c) (hd : Ends d) :
    s = t ∧ c = d ∧ u = v := by
  induction s generalizing t with
  | nil =>
    cases t with
    | nil => simpa using h
    | cons k t =>
      obtain ⟨rfl, -⟩ := List.cons.inj h
      exact absurd hc (ht _ List.mem_cons_self)
  | cons k s ih =>
    cases t with
    | nil =>
      obtain ⟨rfl, -⟩ := List.cons.inj h
      exact absurd hd (hs _ List.mem_cons_self)
    | cons j t =>
      obtain ⟨rfl, h'⟩ := List.cons.inj h
      obtain ⟨rfl, h''⟩ := ih h' (fun k hk => hs k (List.mem_cons_of_mem _ hk))
        (fun k hk => ht k (List.mem_cons_of_mem _ hk))
      exact ⟨rfl, h''⟩

end Armboard.Bootloader
