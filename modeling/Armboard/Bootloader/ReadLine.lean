import Armboard.Bootloader.Editing

/-! # The editor and its buffer

Between two keys the pointer and the index of `AT91F_ReadLine` agree, the buffer
starts with the line of the reference editor, and the line never takes more than 38
of the 40 bytes. So the terminator fits behind every line.
-/

namespace Armboard.Bootloader
open DataFlash

/-! ## The line stays short -/

theorem eraseWord_length_le (l : List Byte) : (eraseWord l).length ≤ l.length := by
  induction l with
  | nil => exact le_rfl
  | cons c l ih =>
    rw [eraseWord, List.length_cons]
    split
    · exact Nat.le_succ _
    · exact ih.trans (Nat.le_succ _)

theorem press_length_le {l : List Byte} (h : l.length ≤ 38) (c : Byte) :
    (press l c).length ≤ 38 := by
  unfold press
  split
  · exact Nat.zero_le _
  split
  · exact (eraseWord_length_le l).trans h
  split
  · exact l.tail_sublist.length_le.trans h
  split
  · assumption
  · exact h

/-- Whatever is typed, the places behind the longest line keep their bytes. -/
theorem lastTyped_beyond (typed : List Byte) : ∀ (l : List Byte) (old : ℕ → Byte) {i : ℕ},
    l.length ≤ 38 → 38 ≤ i → lastTyped typed l old i = old i := by
  induction typed with
  | nil => exact fun _ _ _ _ _ => rfl
  | cons c typed ih =>
    intro l old i hl hi
    rw [lastTyped, ih _ _ (press_length_le hl c) hi]
    split
    · rename_i ht
      exact Function.update_of_ne (by have := ht.2.2.2.2; omega) _ _
    · rfl

theorem foldl_press_length_le (typed : List Byte) : ∀ l : List Byte, l.length ≤ 38 →
    (typed.foldl press l).length ≤ 38 := by
  induction typed with
  | nil => exact fun _ h => h
  | cons c typed ih => exact fun l h => ih _ (press_length_le h c)

/-! ## Between two keys -/

def Edit.after (plen : ℤ) (typed : List Byte) (buf : ℕ → Byte) : Edit :=
  typed.foldl (Edit.key plen) ⟨buf, 0, 0, plen, []⟩

/-- The variables stand for a line of the reference editor, and nothing behind index 38 has been
written over `old`. -/
structure Edit.Mirrors (e : Edit) (line : List Byte) (old : ℕ → Byte) : Prop where
  pointer : e.p = e.n
  index : e.n = line.length
  short : e.n ≤ 38
  text : ∀ i < e.n, e.buf i = line.getD i 0
  beyond : ∀ i, 38 < i → e.buf i = old i

theorem foldl_key_holds (plen : ℤ) (typed : List Byte) : ∀ (e : Edit) (l : List Byte), Holds e l →
    Holds (typed.foldl (Edit.key plen) e) (typed.foldl press l) ∧
      (typed.foldl (Edit.key plen) e).buf = lastTyped typed l e.buf := by
  induction typed with
  | nil => exact fun e l h => ⟨h, rfl⟩
  | cons c typed ih =>
    intro e l h
    obtain ⟨hk, hbuf⟩ := Edit.key_holds plen h c
    obtain ⟨hrun, hlast⟩ := ih _ _ hk
    refine ⟨hrun, ?_⟩
    rw [List.foldl_cons, hlast, hbuf]
    rfl

theorem Edit.after_mirrors (plen : ℤ) (typed : List Byte) (buf : ℕ → Byte) :
    (Edit.after plen typed buf).Mirrors (lineOf typed) buf := by
  obtain ⟨h, hbuf⟩ := foldl_key_holds plen typed ⟨buf, 0, 0, plen, []⟩ [] ⟨rfl, rfl, trivial⟩
  have hn : (Edit.after plen typed buf).n = (lineOf typed).length :=
    h.n.trans (lineOf_length typed).symm
  refine ⟨h.p.trans h.n.symm, hn, ?_, ?_, ?_⟩
  · exact h.n.trans_le (foldl_press_length_le typed [] (Nat.zero_le _))
  · intro i hi
    rw [hn, lineOf_length] at hi
    exact h.spells.get hi
  · intro i hi
    rw [Edit.after, hbuf]
    exact lastTyped_beyond typed [] buf (Nat.zero_le _) (Nat.le_of_lt hi)

theorem readKeys_append (plen : ℤ) (rest typed : List Byte) : ∀ e : Edit,
    (∀ k ∈ typed, ¬ Ends k) →
      readKeys plen (typed ++ rest) e = readKeys plen rest (typed.foldl (Edit.key plen) e) := by
  induction typed with
  | nil => exact fun _ _ => rfl
  | cons c typed ih =>
    intro e h
    obtain ⟨hc, ht⟩ := List.forall_mem_cons.mp h
    obtain ⟨henter, hbreak⟩ := not_or.mp hc
    rw [List.cons_append, readKeys, if_neg henter, if_neg hbreak, ih _ ht]
    rfl

/-! ## Whole calls -/

/-- The call that key `c` ends behind the keys `typed`: `^C` makes the buffer the empty string and
returns -1, Enter terminates the line and returns its length. -/
structure Returned (typed : List Byte) (c : Byte) (old : ℕ → Byte) (r : ReadResult) : Prop where
  broken : c = ctrlC → r.ret = -1 ∧ r.edit.buf 0 = 0
  entered : c = cr ∨ c = lf → r.ret = ((lineOf typed).length : ℤ) ∧
    (∀ i < (lineOf typed).length, r.edit.buf i = (lineOf typed).getD i 0) ∧
    r.edit.buf (lineOf typed).length = 0
  beyond : ∀ i, 38 < i → r.edit.buf i = old i

theorem Finished.returned {keys : List Byte} {buf : ℕ → Byte} {r : ReadResult}
    (h : Finished keys [] buf r) : ∃ typed c, keys = typed ++ c :: r.rest ∧
      (∀ k ∈ typed, ¬ Ends k) ∧ Ends c ∧ Returned typed c buf r := by
  cases h with
  | @enter typed c _ hk ht hc hret hs hb =>
    refine ⟨typed, c, hk, ht, Or.inl hc, ⟨?_, ?_, ?_⟩⟩
    · rintro rfl
      exact absurd hc (by decide)
    · intro _
      rw [lineOf_length, hb]
      refine ⟨hret, fun i hi => ?_, Function.update_self ..⟩
      rw [Function.update_of_ne (Nat.ne_of_lt hi)]
      exact hs.get hi
    · intro i hi
      have hle := foldl_press_length_le typed [] (Nat.zero_le _)
      rw [hb, Function.update_of_ne (by omega)]
      exact lastTyped_beyond typed [] buf (Nat.zero_le _) (Nat.le_of_lt hi)
  | @breaks typed _ hk ht hret hb =>
    refine ⟨typed, ctrlC, hk, ht, Or.inr rfl, ⟨?_, ?_, ?_⟩⟩
    · intro _
      rw [hb]
      exact ⟨hret, Function.update_self ..⟩
    · intro hc
      exact absurd hc (by decide)
    · intro i hi
      rw [hb, Function.update_of_ne (by omega)]
      exact lastTyped_beyond typed [] buf (Nat.zero_le _) (Nat.le_of_lt hi)

/-- `AT91F_ReadLine` is the reference editor, for every sequence of keys: the variables mirror the
line before each key, a call returns at the first key that ends it, and it waits for more while no
key does. -/
theorem readLineKeys_correct (plen : ℤ) (keys : List Byte) (buf : ℕ → Byte) :
    (∀ typed rest, keys = typed ++ rest → (∀ k ∈ typed, ¬ Ends k) →
      readLineKeys plen keys buf = readKeys plen rest (Edit.after plen typed buf) ∧
        (Edit.after plen typed buf).Mirrors (lineOf typed) buf) ∧
    (∀ r, readLineKeys plen keys buf = some r → ∃ typed c, keys = typed ++ c :: r.rest ∧
      (∀ k ∈ typed, ¬ Ends k) ∧ Ends c ∧ Returned typed c buf r) ∧
    (readLineKeys plen keys buf = none ↔ ∀ k ∈ keys, ¬ Ends k) := by
  refine ⟨?_, ?_, ?_⟩
  · rintro typed rest rfl ht
    exact ⟨readKeys_append plen rest typed _ ht, Edit.after_mirrors plen typed buf⟩
  · intro r hr
    exact (readKeys_finished plen keys _ [] r ⟨rfl, rfl, trivial⟩ hr).returned
  · constructor
    · intro hnone k hk hend
      obtain ⟨typed, rest, rfl⟩ := List.append_of_mem hk
      have hsome := readKeys_isSome plen hend rest typed ⟨buf, 0, 0, plen, []⟩
      rw [readLineKeys] at hnone
      rw [hnone] at hsome
      exact absurd hsome (by decide)
    · intro h
      rw [readLineKeys, ← List.append_nil keys, readKeys_append plen [] keys _ h]
      rfl

end Armboard.Bootloader
