import Armboard.Bootloader.ReadLine

/-! # What the operator sees

The cursor of the terminal against the column counter of `AT91F_ReadLine`. A tab is
echoed as it is but counted as one column, so the two agree as long as every tab is typed
where it takes one column, and part at the first other one.
-/

namespace Armboard.Bootloader
open DataFlash

/-! ## The terminal -/

def advance (column : ℕ) (b : Byte) : ℕ :=
  if b = backspace then column - 1
  else if b = tab then column + (8 - column % 8)
  else if b = bell then column
  else column + 1

def columnAfter (bytes : List Byte) : ℕ := bytes.foldl advance 0

def Behind (k : ℕ) : ℕ → List Byte → Prop
  | column, [] => k ≤ column
  | column, b :: bytes => k ≤ column ∧ Behind k (advance column b) bytes

theorem Behind.append {k column : ℕ} {s t : List Byte} (hs : Behind k column s)
    (ht : Behind k (s.foldl advance column) t) : Behind k column (s ++ t) := by
  induction s generalizing column with
  | nil => exact ht
  | cons b s ih => exact ⟨hs.1, ih hs.2 ht⟩

theorem Behind.start {k column : ℕ} {s : List Byte} (h : Behind k column s) : k ≤ column := by
  cases s with
  | nil => exact h
  | cons b s => exact h.1

/-- At any time while the bytes are shown. -/
theorem Behind.cut {k column : ℕ} {s t : List Byte} (h : Behind k column (s ++ t)) :
    k ≤ s.foldl advance column := by
  induction s generalizing column with
  | nil => exact h.start
  | cons b s ih => exact ih h.2

def Printable (b : Byte) : Prop := 0x20 ≤ b ∧ b ≠ del

instance (b : Byte) : Decidable (Printable b) := inferInstanceAs (Decidable (_ ∧ _))

/-- The character takes one column when it is shown there. -/
def Narrow (column : ℕ) (b : Byte) : Prop := Printable b ∨ b = tab ∧ column % 8 = 7

theorem Printable.advance {b : Byte} (h : Printable b) (column : ℕ) :
    advance column b = column + 1 := by
  have hne : ∀ d : Byte, d < 0x20 → b ≠ d := by
    rintro d hd rfl
    exact BitVec.not_lt.mpr h.1 hd
  rw [Bootloader.advance, if_neg (hne _ (by decide)), if_neg (hne _ (by decide)),
    if_neg (hne _ (by decide))]

theorem advance_tab (column : ℕ) : advance column tab = column + (8 - column % 8) := rfl

theorem Narrow.advance {b : Byte} {column : ℕ} (h : Narrow column b) :
    advance column b = column + 1 := by
  rcases h with h | ⟨rfl, h⟩
  · exact h.advance column
  · rw [advance_tab]
    omega

theorem foldl_advance_printable {s : List Byte} (hs : ∀ b ∈ s, Printable b) (column : ℕ) :
    s.foldl advance column = column + s.length := by
  induction s generalizing column with
  | nil => rfl
  | cons b s ih =>
    have ⟨hb, ht⟩ := List.forall_mem_cons.mp hs
    rw [List.foldl_cons, hb.advance, ih ht, List.length_cons]
    omega

theorem columnAfter_append {prompt : List Byte} (hprompt : ∀ b ∈ prompt, Printable b)
    (s : List Byte) : columnAfter (prompt ++ s) = s.foldl advance prompt.length := by
  rw [columnAfter, List.foldl_append, foldl_advance_printable hprompt, Nat.zero_add]

/-! ## The counter -/

namespace Edit

/-- The counter and the cursor are `k` columns behind the prompt, which nothing has touched. -/
structure At (plen : ℕ) (e : Edit) (k : ℕ) : Prop where
  col : e.col = plen + k
  cursor : e.out.foldl advance plen = plen + k
  behind : Behind plen plen e.out

variable {plen : ℕ}

theorem At.puts {e : Edit} {k k' : ℕ} (h : e.At plen k) {s : List Byte} {col : ℤ}
    (hs : s.foldl advance (plen + k) = plen + k') (hb : Behind plen (plen + k) s)
    (hcol : col = plen + k') : At plen { e.puts s with col := col } k' := by
  have hcursor := h.cursor
  refine ⟨hcol, ?_, ?_⟩
  · change (e.out ++ s).foldl advance plen = plen + k'
    rw [List.foldl_append, hcursor, hs]
  · exact h.behind.append (by rw [hcursor]; exact hb)

theorem At.congr {e f : Edit} {k : ℕ} (h : e.At plen k) (hcol : f.col = e.col)
    (hout : f.out = e.out) : f.At plen k :=
  ⟨hcol.trans h.col, by rw [hout]; exact h.cursor, by rw [hout]; exact h.behind⟩

theorem At.echo {e : Edit} {k : ℕ} (h : e.At plen k) {c : Byte} (hc : Narrow (plen + k) c) :
    At plen { e.puts [c] with col := e.col + 1 } (k + 1) := by
  have hcol := h.col
  apply h.puts
  · change advance (plen + k) c = plen + (k + 1)
    exact hc.advance
  · refine ⟨by omega, ?_⟩
    rw [hc.advance]
    exact Nat.le_add_right_of_le (Nat.le_add_right _ _)
  · push_cast
    omega

theorem At.erase {e : Edit} {k : ℕ} (h : e.At plen (k + 1)) :
    At plen { e.puts eraseSeq with col := e.col - 1 } k := by
  have hcol := h.col
  apply h.puts rfl
  · exact ⟨by omega, by change plen ≤ plen + k; omega, by change plen ≤ plen + k + 1; omega,
      by change plen ≤ plen + k; omega⟩
  · push_cast at hcol
    omega

theorem eraseColumns_at (k : ℕ) : ∀ e : Edit, e.At plen k → (eraseColumns k e).At plen 0 := by
  induction k with
  | zero => exact fun e h => h
  | succ k ih => exact fun e h => ih _ h.erase

theorem At.eraseLine {e : Edit} {k : ℕ} (h : e.At plen k) :
    (eraseColumns (e.col - plen).toNat e).At plen 0 := by
  have hcount : (e.col - plen).toNat = k := by
    rw [h.col]
    omega
  rw [hcount]
  exact eraseColumns_at k e h

/-- Retyping expands a tab to the next multiple of 8, so it takes as many columns as before. -/
theorem retype_at (k : ℕ) : ∀ (s : ℕ) (e : Edit), e.At plen s →
    (∀ i < s + k, Narrow (plen + i) (e.buf i)) → (retype k s e).At plen (s + k) := by
  induction k with
  | zero => exact fun s e h _ => h
  | succ k ih =>
    intro s e h hnarrow
    have hcol := h.col
    have hs := hnarrow s (by omega)
    rw [retype, show s + (k + 1) = s + 1 + k by omega]
    by_cases htab : e.buf s = tab
    · have hlast : (plen + s) % 8 = 7 := by
        rw [htab] at hs
        exact (hs.resolve_left (by decide)).2
      have hstop : (e.col % 8).toNat = 7 := by
        rw [hcol]
        omega
      rw [if_pos htab, hstop]
      apply ih (s + 1)
      · apply h.puts
        · change plen + s + 1 = plen + (s + 1)
          rfl
        · exact ⟨by omega, by change plen ≤ plen + s + 1; omega⟩
        · push_cast
          omega
      · exact fun i hi => hnarrow i (by omega)
    · rw [if_neg htab]
      exact ih (s + 1) _ (h.echo hs) fun i hi => hnarrow i (by omega)

/-- Between two keys: the line stands behind the prompt, one column for each character. -/
structure Shown (plen : ℕ) (e : Edit) : Prop where
  pointer : e.p = e.n
  counter : e.At plen e.n
  narrow : ∀ i < e.n, Narrow (plen + i) (e.buf i)

theorem deleteChar_shown {e : Edit} (h : Shown plen e) : Shown plen (e.deleteChar plen) := by
  have hnarrow := h.narrow
  rw [deleteChar]
  by_cases hn : e.n = 0
  · rw [if_pos hn]
    exact h
  · have hp : e.p - 1 = e.n - 1 := by rw [h.pointer]
    have hat : At plen { e with p := e.p - 1 } e.n := h.counter.congr rfl rfl
    -- only the counter is left to show: the buffer and the indices do not depend on the branch
    have hdone : ∀ f : Edit, SameLine { e with p := e.p - 1 } f → f.At plen (e.n - 1) →
        Shown plen { f with n := f.n - 1 } := by
      intro f hf hfat
      have hfn : f.n = e.n := hf.n
      refine ⟨?_, ?_, ?_⟩
      · change f.p = f.n - 1
        rw [hf.p, hfn]
        exact hp
      · change At plen { f with n := f.n - 1 } (f.n - 1)
        rw [hfn]
        exact hfat.congr rfl rfl
      · change ∀ i < f.n - 1, Narrow (plen + i) (f.buf i)
        rw [hf.buf, hfn]
        exact fun i hi => hnarrow i (by omega)
    rw [if_neg hn]
    apply hdone
    · exact removeShown_same plen _
    · split
      · have hbuf := (eraseColumns_same (e.col - plen).toNat { e with p := e.p - 1 }).buf
        have hretype := retype_at (e.p - 1) 0 _ hat.eraseLine (by
          intro i hi
          rw [hbuf]
          exact hnarrow i (by omega))
        rw [Nat.zero_add] at hretype
        rw [← hp]
        exact hretype
      · have hlast : At plen { e with p := e.p - 1 } (e.n - 1 + 1) := by
          rw [Nat.sub_add_cancel (by omega)]
          exact hat
        exact hlast.erase

theorem deleteWord_shown (k : ℕ) : ∀ e : Edit, Shown plen e → Shown plen (e.deleteWord plen k) := by
  induction k with
  | zero => exact fun e h => h
  | succ k ih =>
    intro e h
    rw [deleteWord]
    split
    · exact ih _ (deleteChar_shown h)
    · exact h

end Edit

/-- The keys of the console, less those that end a line. -/
def EditingKey (k : Byte) : Prop :=
  Printable k ∨ k = tab ∨ k = backspace ∨ k = del ∨ k = ctrlU ∨ k = ctrlW

instance (k : Byte) : Decidable (EditingKey k) := inferInstanceAs (Decidable (_ ∨ _))

theorem EditingKey.not_ends {k : Byte} (h : EditingKey k) : ¬ Ends k := by
  rcases h with h | rfl | rfl | rfl | rfl | rfl
  · rintro ((rfl | rfl) | rfl) <;> exact absurd h (by decide)
  all_goals decide

namespace Edit
variable {plen : ℕ}

/-- A key keeps what is shown, a tab where it is one column wide. -/
theorem key_shown {e : Edit} (h : Shown plen e) {k : Byte} (hk : EditingKey k)
    (htab : k = tab → e.n < 38 → (plen + e.n) % 8 = 7) : Shown plen (e.key plen k) := by
  have hat := h.counter
  have hnarrow := h.narrow
  rw [key]
  by_cases hu : k = ctrlU
  · rw [if_pos hu]
    exact ⟨rfl, hat.eraseLine.congr rfl rfl, fun i hi => absurd hi (Nat.not_lt_zero i)⟩
  by_cases hw : k = ctrlW
  · rw [if_neg hu, if_pos hw]
    exact deleteWord_shown _ _ (deleteChar_shown h)
  by_cases hb : k = backspace ∨ k = del
  · rw [if_neg hu, if_neg hw, if_pos hb]
    exact deleteChar_shown h
  have hcb : cbSize - 2 = 38 := rfl
  rw [if_neg hu, if_neg hw, if_neg hb, hcb]
  by_cases hn : e.n < 38
  · have hone : Narrow (plen + e.n) k := by
      rcases hk with hk | hk | hk | hk | hk | hk
      · exact .inl hk
      · exact .inr ⟨hk, htab hk hn⟩
      · exact absurd (.inl hk) hb
      · exact absurd (.inr hk) hb
      · exact absurd hk hu
      · exact absurd hk hw
    rw [if_pos hn]
    refine ⟨congrArg (· + 1) h.pointer, (hat.echo hone).congr rfl rfl, ?_⟩
    intro i hi
    change i < e.n + 1 at hi
    change Narrow (plen + i) (Function.update e.buf e.p k i)
    rw [h.pointer]
    rcases Nat.lt_succ_iff_lt_or_eq.mp hi with hlt | rfl
    · rw [Function.update_of_ne (by omega)]
      exact hnarrow i hlt
    · rw [Function.update_self]
      exact hone
  · have hrung : At plen { e.puts [bell] with col := e.col } e.n :=
      hat.puts rfl ⟨by omega, by change plen ≤ plen + e.n; omega⟩ hat.col
    rw [if_neg hn]
    exact ⟨h.pointer, hrung.congr rfl rfl, hnarrow⟩

theorem after_append (plen : ℤ) (typed : List Byte) (k : Byte) (buf : ℕ → Byte) :
    after plen (typed ++ [k]) buf = (after plen typed buf).key plen k := by
  rw [after, List.foldl_append]
  rfl

theorem after_n (plen : ℤ) (typed : List Byte) (buf : ℕ → Byte) :
    (after plen typed buf).n = (lineOf typed).length := (after_mirrors plen typed buf).index

/-- A run in which every tab is one column wide: by induction on the keys from the last one. -/
theorem after_shown {keys : List Byte} (hkeys : ∀ k ∈ keys, EditingKey k) (buf : ℕ → Byte)
    (htabs : ∀ typed rest, keys = typed ++ tab :: rest → Shown plen (after plen typed buf) →
      (lineOf typed).length < 38 → (plen + (lineOf typed).length) % 8 = 7) (typed : List Byte) :
    ∀ rest, keys = typed ++ rest → Shown plen (after plen typed buf) := by
  induction typed using List.reverseRecOn with
  | nil =>
    intro rest _
    exact ⟨rfl, ⟨by change (plen : ℤ) = plen + (0 : ℕ); omega, rfl, le_rfl⟩,
      fun i hi => absurd hi (Nat.not_lt_zero i)⟩
  | append_singleton typed k ih =>
    intro rest hrest
    rw [List.append_assoc, List.singleton_append] at hrest
    have hbefore := ih (k :: rest) hrest
    have hk : EditingKey k := hkeys k (by simp [hrest])
    rw [after_append]
    apply key_shown hbefore hk
    intro htab hn
    rw [after_n] at hn ⊢
    exact htabs typed rest (by rw [hrest, htab]) hbefore hn

end Edit

/-! ## The screen and the line -/

/-- The screen behind `prompt` and the keys `typed`, when the variables are `e`: the cursor is where
the counter says and where the line ends, just behind the prompt after `^U`, and no erase
sequence has blanked a column of the prompt. -/
structure ScreenMatches (prompt typed : List Byte) (e : Edit) : Prop where
  counter : (columnAfter (prompt ++ e.out) : ℤ) = e.col
  line : columnAfter (prompt ++ e.out) = columnAfter (prompt ++ (List.range e.n).map e.buf)
  erased : typed.getLast? = some ctrlU → columnAfter (prompt ++ e.out) = columnAfter prompt
  kept : ∀ a b, e.out = a ++ eraseSeq ++ b →
    columnAfter prompt ≤ columnAfter (prompt ++ a ++ [backspace])

/-- Every tab that is put on the line is typed in the last column before a tab stop. -/
def TabsNarrow (plen : ℕ) (keys : List Byte) : Prop :=
  ∀ typed rest, keys = typed ++ tab :: rest → (lineOf typed).length < 38 →
    (plen + (lineOf typed).length) % 8 = 7

theorem foldl_advance_narrow {plen : ℕ} {buf : ℕ → Byte} (n : ℕ)
    (h : ∀ i < n, Narrow (plen + i) (buf i)) :
    ((List.range n).map buf).foldl advance plen = plen + n := by
  induction n with
  | zero => rfl
  | succ n ih =>
    rw [List.range_succ, List.map_append, List.foldl_append, ih fun i hi => h i (by omega)]
    exact (h n (Nat.lt_succ_self n)).advance

theorem columnAfter_prompt {prompt : List Byte} (hprompt : ∀ b ∈ prompt, Printable b) :
    columnAfter prompt = prompt.length := by
  rw [columnAfter, foldl_advance_printable hprompt, Nat.zero_add]

theorem lineOf_ctrlU {typed : List Byte} (h : typed.getLast? = some ctrlU) : lineOf typed = [] := by
  have ⟨_, heq⟩ := List.getLast?_eq_some_iff.mp h
  rw [heq, lineOf, List.foldl_append]
  rfl

theorem Edit.Shown.matches {prompt typed : List Byte} {buf : ℕ → Byte}
    (hprompt : ∀ b ∈ prompt, Printable b)
    (h : Edit.Shown prompt.length (Edit.after prompt.length typed buf)) :
    ScreenMatches prompt typed (Edit.after prompt.length typed buf) := by
  have hcursor := h.counter.cursor
  have hcolumn := columnAfter_append hprompt
  refine ⟨?_, ?_, ?_, ?_⟩
  · rw [hcolumn, hcursor, h.counter.col]
    push_cast
    rfl
  · rw [hcolumn, hcolumn, hcursor, foldl_advance_narrow _ h.narrow]
  · intro hlast
    rw [hcolumn, hcursor, Edit.after_n, lineOf_ctrlU hlast, columnAfter_prompt hprompt]
    rfl
  · intro a b hout
    have hbehind := h.counter.behind
    rw [hout, eraseSeq, List.append_assoc, ← List.singleton_append (x := backspace),
      List.append_assoc, ← List.append_assoc a] at hbehind
    rw [columnAfter_prompt hprompt, List.append_assoc, hcolumn]
    exact hbehind.cut

/-- A tab somewhere else takes more columns than are counted. -/
theorem Edit.Shown.tab_narrow {prompt typed : List Byte} {e : Edit}
    (hprompt : ∀ b ∈ prompt, Printable b) (h : Edit.Shown prompt.length e)
    (hn : e.n < 38) (hmatches : ScreenMatches prompt typed (e.key prompt.length tab)) :
    (prompt.length + e.n) % 8 = 7 := by
  have hcounter := hmatches.counter
  have htyped : e.key prompt.length tab = { e.puts [tab] with
      buf := Function.update e.buf e.p tab, p := e.p + 1, n := e.n + 1, col := e.col + 1 } := by
    have hcb : cbSize - 2 = 38 := rfl
    rw [Edit.key, if_neg (by decide), if_neg (by decide), if_neg (by decide), hcb, if_pos hn]
  have hout : columnAfter (prompt ++ (e.out ++ [tab])) = advance (prompt.length + e.n) tab := by
    rw [columnAfter_append hprompt, List.foldl_append, h.counter.cursor]
    rfl
  rw [htyped] at hcounter
  change (columnAfter (prompt ++ (e.out ++ [tab])) : ℤ) = e.col + 1 at hcounter
  rw [hout, h.counter.col, advance_tab] at hcounter
  push_cast at hcounter
  omega

/-- The screen shows the edited line behind every key iff every tab on the line was typed in the
last column before a tab stop. -/
theorem screen_matches_iff (prompt keys : List Byte) (buf : ℕ → Byte)
    (hprompt : ∀ b ∈ prompt, Printable b) (hkeys : ∀ k ∈ keys, EditingKey k) :
    (∀ typed rest, keys = typed ++ rest → readLineKeys prompt.length keys buf =
      readKeys prompt.length rest (Edit.after prompt.length typed buf)) ∧
    ((∀ typed rest, keys = typed ++ rest →
      ScreenMatches prompt typed (Edit.after prompt.length typed buf)) ↔
        TabsNarrow prompt.length keys) := by
  apply And.intro
  · intro typed rest hrest
    rw [readLineKeys, hrest, readKeys_append]
    · rfl
    · exact fun k hk => (hkeys k (by simp [hrest, hk])).not_ends
  apply Iff.intro
  · intro hmatches typed rest hrest hn
    have hnarrow : ∀ typed rest, keys = typed ++ tab :: rest →
        Edit.Shown prompt.length (Edit.after prompt.length typed buf) →
        (lineOf typed).length < 38 → (prompt.length + (lineOf typed).length) % 8 = 7 := by
      intro typed rest hrest hshown hn
      have htab := hmatches (typed ++ [tab]) rest (by simp [hrest])
      rw [Edit.after_append] at htab
      rw [← Edit.after_n prompt.length typed buf] at hn ⊢
      exact hshown.tab_narrow hprompt hn htab
    have hshown := Edit.after_shown hkeys buf hnarrow typed (tab :: rest) hrest
    exact hnarrow typed rest hrest hshown hn
  · intro htabs typed rest hrest
    have hshown := Edit.after_shown hkeys buf (fun typed rest hrest _ => htabs typed rest hrest)
      typed rest hrest
    exact hshown.matches hprompt

/-- The prompt of the main menu. -/
def enterPrompt : List Byte := [0x45, 0x6E, 0x74, 0x65, 0x72, 0x3A, 0x20]

/-- Behind it a tab is one column wide, so it may be typed first. -/
theorem screen_matches_tab_first :
    ScreenMatches enterPrompt [tab, 0x61]
      (Edit.after enterPrompt.length [tab, 0x61] fun _ => 0) := by
  have h := screen_matches_iff enterPrompt [tab, 0x61] (fun _ => 0) (by decide) (by decide)
  apply h.2.mpr _ [tab, 0x61] [] rfl
  intro typed rest hrest _
  cases typed with
  | nil => rfl
  | cons c typed =>
    have hmem : tab ∈ [(0x61 : Byte)] := by
      rw [(List.cons.inj hrest).2]
      simp
    exact absurd hmem (by decide)

/-- Behind one character it is eight columns wide and counted as one. -/
theorem tab_miscounted :
    ¬ ∀ (prompt keys : List Byte) (buf : ℕ → Byte), (∀ b ∈ prompt, Printable b) →
      (∀ k ∈ keys, EditingKey k) → ∀ typed rest, keys = typed ++ rest →
        ScreenMatches prompt typed (Edit.after prompt.length typed buf) := by
  intro h
  have hmatches := h enterPrompt [0x61, tab] (fun _ => 0) (by decide) (by decide) [0x61, tab] [] rfl
  have hcursor : columnAfter
      (enterPrompt ++ (Edit.after enterPrompt.length [0x61, tab] fun _ => 0).out) = 16 := by decide
  have hcol : (Edit.after enterPrompt.length [0x61, tab] fun _ => 0).col = 9 := by decide
  have hcounter := hmatches.counter
  rw [hcursor, hcol] at hcounter
  exact absurd hcounter (by decide)

end Armboard.Bootloader
