import Armboard.Stdio.Vfprintf

/-! # Where format processing ends

The outer loop tests for the terminator behind every character and every conversion,
the inner loop never does. So the scanner stays inside a format exactly when there is
a first character and no conversion is still open when the terminator comes.
-/

namespace Armboard.Stdio
open Exec

/-! ## Open conversions -/

/-- No conversion is open at the end of the text; the flag says whether one is open at its start.
Digits and dots leave it open, every other character closes it. -/
def closed : Bool → List Byte → Bool
  | inside, [] => !inside
  | false, c :: l => closed (decide (c = 0x25)) l
  | true, c :: l => closed (isDigit c || decide (c = 0x2E)) l

/-- The offsets up to `n` have been read, and the byte at `n` has not been sent. -/
structure Inside (n : ℕ) (s : Stream) : Prop where
  reads : ∀ i ∈ s.reads, i ≤ n
  copied : n ∉ s.copied

theorem Inside.deref {n p : ℕ} {s : Stream} (h : Inside n s) (hp : p ≤ n) :
    Inside n { s with reads := p :: s.reads } :=
  ⟨List.forall_mem_cons.mpr ⟨hp, h.reads⟩, h.copied⟩

theorem Inside.copy {n p : ℕ} {s : Stream} (h : Inside n s) (hp : p < n) (out : List Byte) :
    Inside n { out := out, reads := p :: s.reads, copied := p :: s.copied } :=
  ⟨List.forall_mem_cons.mpr ⟨Nat.le_of_lt hp, h.reads⟩,
    List.not_mem_cons_of_ne_of_not_mem (Nat.ne_of_gt hp) h.copied⟩

/-- The offsets of the format that the end of a conversion sends: a character that is no conversion
is sent once, and `%` twice. -/
def echoed (c : Byte) (p : ℕ) : List ℕ :=
  if c = 0x73 ∨ c = 0x63 ∨ c = 0x64 ∨ c = 0x78 ∨ c = 0x58 then []
  else if c = 0x25 then [p, p] else [p]

/-- The end of a conversion reads and sends of the format what it echoes. -/
theorem convert_effect (mem : ℕ → Byte) (va : VaList) (c : Byte) (p k : ℕ) (type precision : Word)
    (s : Stream) : wp (convert mem va c p k type precision) (fun _ t =>
      t.reads = echoed c p ++ s.reads ∧ t.copied = echoed c p ++ s.copied) never s := by
  unfold convert
  split
  · rename_i hs
    simp only [wp_bind, wp_fputs, wp_pure, echoed, hs, true_or, if_true]
    exact ⟨rfl, rfl⟩
  split
  · rename_i hc
    simp only [wp_bind, wp_fputc, wp_pure, echoed, hc, true_or, or_true, if_true]
    exact ⟨rfl, rfl⟩
  split
  · rename_i hd
    rw [wp_bind]
    refine wp_number (Or.inl rfl) fun l => ?_
    simp only [wp_pure, echoed, hd, true_or, or_true, if_true]
    exact ⟨rfl, rfl⟩
  split
  · rename_i hx
    rw [wp_bind]
    refine wp_number (Or.inr rfl) fun l => ?_
    simp only [wp_pure, echoed, hx, true_or, or_true, if_true]
    exact ⟨rfl, rfl⟩
  split
  · rename_i hX
    rw [wp_bind]
    refine wp_number (Or.inr rfl) fun l => ?_
    simp only [wp_pure, echoed, hX, or_true, if_true]
    exact ⟨rfl, rfl⟩
  · rename_i hs hc hd hx hX
    simp only [wp_bind, wp_ite, wp_copy, wp_fputc, wp_pure, echoed, hs, hc, hd, hx, hX, or_self,
      if_false]
    split
    · exact ⟨rfl, rfl⟩
    · exact ⟨rfl, rfl⟩

theorem eq_of_mem_echoed {c : Byte} {p i : ℕ} (h : i ∈ echoed c p) : i = p := by
  unfold echoed at h
  split_ifs at h
  · cases h
  · simpa using h
  · simpa using h

theorem convert_inside (mem : ℕ → Byte) (va : VaList) (c : Byte) {n p : ℕ} (hp : p < n) (k : ℕ)
    (type precision : Word) {s : Stream} (h : Inside n s) :
    wp (convert mem va c p k type precision) (fun _ t => Inside n t) never s := by
  apply wp_post (convert_effect mem va c p k type precision s)
  rintro _ t ⟨hreads, hcopied⟩
  constructor
  · rw [hreads]
    refine List.forall_mem_append.mpr ⟨fun i hi => ?_, h.reads⟩
    exact (eq_of_mem_echoed hi).trans_le (Nat.le_of_lt hp)
  · rw [hcopied]
    intro hn
    rcases List.mem_append.mp hn with hn | hn
    · exact Nat.ne_of_gt hp (eq_of_mem_echoed hn)
    · exact h.copied hn

/-- Behind `q` the text goes on with fewer than `len` characters that end at `n`, and no conversion is
open there. -/
def Resumes (mem : ℕ → Byte) (n len q : ℕ) : Prop :=
  ∃ l, Spells mem (q + 1) l ∧ closed false l = true ∧ l.length < len ∧ q + 1 + l.length = n

/-- The inner loop closes the conversion: by induction on what is left of the text. -/
theorem scan_inside (mem : ℕ → Byte) (va : VaList) (l : List Byte) : ∀ (fuel p k : ℕ)
    (type precision : Word) (s : Stream), Spells mem (p + 1) l → closed true l = true →
      l.length ≤ fuel → Inside (p + 1 + l.length) s →
      wp (scan mem va fuel p k type precision) (fun r t => Inside (p + 1 + l.length) t ∧
        Resumes mem (p + 1 + l.length) l.length r.1) never s := by
  induction l with
  | nil => intro fuel p k type precision s _ h; exact absurd h (by decide)
  | cons c l ih =>
    intro fuel p k type precision s hs hc hfuel h
    obtain ⟨rfl, -, hrest⟩ := hs
    rw [List.length_cons] at hfuel h ⊢
    have hn : p + 1 + (l.length + 1) = p + 1 + 1 + l.length := by omega
    rw [hn] at h ⊢
    obtain ⟨fuel, rfl⟩ : ∃ m, fuel = m + 1 := ⟨fuel - 1, by omega⟩
    have hread := h.deref (p := p + 1) (by omega)
    have hopen : ∀ type' precision', closed true l = true →
        wp (scan mem va fuel (p + 1) k type' precision') (fun r t =>
          Inside (p + 1 + 1 + l.length) t ∧ Resumes mem (p + 1 + 1 + l.length) (l.length + 1) r.1)
          never { s with reads := (p + 1) :: s.reads } := by
      intro type' precision' hcl
      apply wp_post (ih fuel (p + 1) k type' precision' _ hrest hcl (by omega) hread)
      rintro r t ⟨ht, l', hs', hc', hlen, hpos⟩
      exact ⟨ht, l', hs', hc', by omega, hpos⟩
    rw [scan]
    simp only [wp_bind, wp_deref, wp_ite]
    rw [closed] at hc
    split
    · rename_i hd
      rw [hd, Bool.true_or] at hc
      exact hopen _ _ hc
    split
    · rename_i hdot
      rw [decide_eq_true hdot, Bool.or_true] at hc
      exact hopen _ _ hc
    · rename_i hd hdot
      rw [Bool.eq_false_of_not_eq_true hd, decide_eq_false hdot, Bool.or_false] at hc
      apply wp_post (convert_inside mem va _ (by omega) k type precision hread)
      intro k' t ht
      exact ⟨ht, l, hrest, hc, Nat.lt_succ_self _, rfl⟩

/-- The outer loop stops at the terminator: by induction on the bound, which is the length at
least. -/
theorem process_inside (mem : ℕ → Byte) (va : VaList) (fuel : ℕ) : ∀ (p k : ℕ) (l : List Byte)
    (s : Stream), Spells mem p l → l ≠ [] → closed false l = true → l.length ≤ fuel →
      Inside (p + l.length) s →
      wp (process mem va fuel p k) (fun _ t => Inside (p + l.length) t) never s := by
  induction fuel with
  | zero =>
    intro p k l s _ hne _ hfuel
    exact absurd (List.length_eq_zero_iff.mp (Nat.le_zero.mp hfuel)) hne
  | succ fuel ih =>
    intro p k l s hs hne hc hfuel h
    cases l with
    | nil => exact absurd rfl hne
    | cons c l =>
      obtain ⟨rfl, -, hrest⟩ := hs
      rw [List.length_cons] at hfuel h ⊢
      have hn : p + (l.length + 1) = p + 1 + l.length := by omega
      rw [hn] at h ⊢
      have hread := h.deref (p := p) (by omega)
      have hnext : ∀ (q k' : ℕ) (t : Stream), Resumes mem (p + 1 + l.length) (l.length + 1) q →
          Inside (p + 1 + l.length) t → wp (do
            let next ← deref mem (q + 1)
            if next ≠ 0 then process mem va fuel (q + 1) k' else pure 0)
            (fun _ u => Inside (p + 1 + l.length) u) never t := by
        rintro q k' t ⟨l', hs', hc', hlen, hpos⟩ ht
        have ht' := ht.deref (p := q + 1) (by omega)
        simp only [wp_bind, wp_deref, wp_ite, wp_pure]
        cases l' with
        | nil =>
          have hzero : mem (q + 1) = 0 := hs'
          rw [if_neg (not_not.mpr hzero)]
          exact ht'
        | cons d l' =>
          rw [if_pos (by rw [hs'.1]; exact hs'.2.1), ← hpos]
          rw [← hpos] at ht'
          exact ih (q + 1) k' (d :: l') _ hs' (List.cons_ne_nil _ _) hc' (by omega) ht'
      rw [process, wp_bind, wp_deref, wp_bind, wp_ite]
      rw [closed] at hc
      split
      · rename_i hpercent
        rw [decide_eq_true hpercent] at hc
        apply wp_post (scan_inside mem va l (fuel + 1) p k 0 0 _ hrest hc (by omega) hread)
        rintro r t ⟨ht, l', hs', hc', hlen, hpos⟩
        exact hnext r.1 r.2 t ⟨l', hs', hc', by omega, hpos⟩ ht
      · rename_i hpercent
        rw [decide_eq_false hpercent] at hc
        rw [wp_bind, wp_copy, wp_pure]
        exact hnext p k _ ⟨l, hrest, hc, Nat.lt_succ_self _, rfl⟩ (hread.copy (by omega) _)

/-! ## Scanning past the terminator -/

def Grows (s t : Stream) : Prop := ∀ i ∈ s.copied, i ∈ t.copied

theorem convert_grows (mem : ℕ → Byte) (va : VaList) (c : Byte) (p k : ℕ) (type precision : Word)
    (s : Stream) :
    wp (convert mem va c p k type precision) (fun _ t => Grows s t) (fun _ _ => True) s := by
  apply wp_total (convert_effect mem va c p k type precision s)
  rintro _ t ⟨-, hcopied⟩ i hi
  rw [hcopied]
  exact List.mem_append_right _ hi

theorem scan_grows (mem : ℕ → Byte) (va : VaList) (fuel : ℕ) : ∀ (p k : ℕ) (type precision : Word)
    (s : Stream),
    wp (scan mem va fuel p k type precision) (fun _ t => Grows s t) (fun _ _ => True) s := by
  induction fuel with
  | zero => exact fun _ _ _ _ _ => trivial
  | succ fuel ih =>
    intro p k type precision s
    rw [scan, wp_bind, wp_deref, wp_ite]
    split
    · exact ih _ _ _ _ _
    rw [wp_ite]
    split
    · exact ih _ _ _ _ _
    · rw [wp_bind]
      exact convert_grows mem va _ _ _ _ _ _

theorem process_grows (mem : ℕ → Byte) (va : VaList) (fuel : ℕ) : ∀ (p k : ℕ) (s : Stream),
    wp (process mem va fuel p k) (fun _ t => Grows s t) (fun _ _ => True) s := by
  induction fuel with
  | zero => exact fun _ _ _ => trivial
  | succ fuel ih =>
    intro p k s
    have hnext : ∀ (q k' : ℕ) (t : Stream), Grows s t → wp (do
        let next ← deref mem (q + 1)
        if next ≠ 0 then process mem va fuel (q + 1) k' else pure 0)
        (fun _ u => Grows s u) (fun _ _ => True) t := by
      intro q k' t ht
      rw [wp_bind, wp_deref, wp_ite]
      split
      · exact wp_post (ih _ _ _) (fun _ _ h i hi => h i (ht i hi))
      · exact ht
    rw [process, wp_bind, wp_deref, wp_bind, wp_ite]
    split
    · exact wp_post (scan_grows mem va _ _ _ _ _ _) (fun r t h => hnext r.1 r.2 t h)
    · rw [wp_bind, wp_copy, wp_pure]
      exact hnext _ _ _ (fun _ h => List.mem_cons_of_mem _ h)

/-- A conversion that the terminator closes sends the terminator. -/
theorem convert_terminator (mem : ℕ → Byte) (va : VaList) (p k : ℕ) (type precision : Word)
    (s : Stream) :
    wp (convert mem va 0 p k type precision) (fun _ t => p ∈ t.copied) (fun _ _ => True) s := by
  apply wp_total (convert_effect mem va 0 p k type precision s)
  rintro _ t ⟨-, hcopied⟩
  rw [hcopied]
  exact List.mem_append_left _ (List.mem_singleton_self p)

theorem scan_open (mem : ℕ → Byte) (va : VaList) (l : List Byte) : ∀ (fuel p k : ℕ)
    (type precision : Word) (s : Stream), Spells mem (p + 1) l → closed true l = false →
      wp (scan mem va fuel p k type precision) (fun r t => p + 1 + l.length ∈ t.copied ∨
        ∃ l', Spells mem (r.1 + 1) l' ∧ closed false l' = false ∧
          r.1 + 1 + l'.length = p + 1 + l.length) (fun _ _ => True) s := by
  induction l with
  | nil =>
    intro fuel p k type precision s hs _
    have hzero : mem (p + 1) = 0 := hs
    cases fuel with
    | zero => trivial
    | succ fuel =>
      rw [scan, wp_bind, wp_deref, hzero, if_neg (by decide), if_neg (by decide), wp_bind]
      exact wp_post (convert_terminator mem va _ _ _ _ _) (fun _ _ h => Or.inl h)
  | cons c l ih =>
    intro fuel p k type precision s hs hc
    obtain ⟨rfl, -, hrest⟩ := hs
    have hn : p + 1 + (l.length + 1) = p + 1 + 1 + l.length := by omega
    rw [List.length_cons, hn]
    cases fuel with
    | zero => trivial
    | succ fuel =>
      rw [scan, wp_bind, wp_deref, wp_ite]
      rw [closed] at hc
      split
      · rename_i hd
        rw [hd, Bool.true_or] at hc
        exact ih _ _ _ _ _ _ hrest hc
      rw [wp_ite]
      split
      · rename_i hdot
        rw [decide_eq_true hdot, Bool.or_true] at hc
        exact ih _ _ _ _ _ _ hrest hc
      · rename_i hd hdot
        rw [Bool.eq_false_of_not_eq_true hd, decide_eq_false hdot, Bool.or_false] at hc
        rw [wp_bind]
        exact wp_post (convert_grows mem va _ _ _ _ _ _)
          (fun _ _ _ => Or.inr ⟨l, hrest, hc, rfl⟩)

/-- If there is no first character, or the terminator comes in a conversion, it is sent. -/
theorem process_open (mem : ℕ → Byte) (va : VaList) (fuel : ℕ) : ∀ (p k : ℕ) (l : List Byte)
    (s : Stream), Spells mem p l → (l = [] ∨ closed false l = false) →
      wp (process mem va fuel p k) (fun _ t => p + l.length ∈ t.copied) (fun _ _ => True) s := by
  induction fuel with
  | zero => exact fun _ _ _ _ _ _ => trivial
  | succ fuel ih =>
    intro p k l s hs hopen
    have hsent : ∀ (q k' : ℕ) (t : Stream), p + l.length ∈ t.copied → wp (do
        let next ← deref mem (q + 1)
        if next ≠ 0 then process mem va fuel (q + 1) k' else pure 0)
        (fun _ u => p + l.length ∈ u.copied) (fun _ _ => True) t := by
      intro q k' t ht
      rw [wp_bind, wp_deref, wp_ite]
      split
      · exact wp_post (process_grows mem va fuel _ _ _) (fun _ _ h => h _ ht)
      · exact ht
    have hagain : ∀ (q k' : ℕ) (l' : List Byte) (t : Stream), Spells mem (q + 1) l' →
        closed false l' = false → q + 1 + l'.length = p + l.length → wp (do
          let next ← deref mem (q + 1)
          if next ≠ 0 then process mem va fuel (q + 1) k' else pure 0)
          (fun _ u => p + l.length ∈ u.copied) (fun _ _ => True) t := by
      intro q k' l' t hs' hc' hpos
      cases l' with
      | nil => exact absurd hc' (by decide)
      | cons d l' =>
        rw [wp_bind, wp_deref, if_pos (by rw [hs'.1]; exact hs'.2.1), ← hpos]
        exact ih _ _ _ _ hs' (Or.inr hc')
    rw [process, wp_bind, wp_deref, wp_bind, wp_ite]
    cases l with
    | nil =>
      have hzero : mem p = 0 := hs
      rw [hzero, if_neg (by decide), wp_bind, wp_copy, wp_pure]
      exact hsent _ _ _ List.mem_cons_self
    | cons c l =>
      obtain ⟨rfl, -, hrest⟩ := hs
      have hc := hopen.resolve_left (List.cons_ne_nil _ _)
      have hn : p + (l.length + 1) = p + 1 + l.length := by omega
      rw [closed] at hc
      split
      · rename_i hpercent
        rw [decide_eq_true hpercent] at hc
        apply wp_post (scan_open mem va l (fuel + 1) p k 0 0 _ hrest hc)
        rintro r t (ht | ⟨l', hs', hc', hpos⟩)
        · exact hsent _ _ _ (by rw [List.length_cons, hn]; exact ht)
        · exact hagain _ _ l' _ hs' hc' (by rw [List.length_cons, hn]; exact hpos)
      · rename_i hpercent
        rw [decide_eq_false hpercent] at hc
        rw [wp_bind, wp_copy, wp_pure]
        exact hagain _ _ l _ hrest hc (by rw [List.length_cons, hn])

/-! ## The three entries -/

/-- The call ends, whatever its bound from some value on, has read nothing behind the terminator at
`n` and has not sent the terminator. -/
def EndsInside (call : ℕ → Printer Word) (n : ℕ) : Prop :=
  ∀ out : List Byte, ∃ bound, ∀ fuel ≥ bound, ∃ r t,
    call fuel ⟨out, [], []⟩ = .ok r t ∧ Inside n t

inductive Entry where
  | printf
  | fprintf
  | vfprintf
  deriving DecidableEq

def Entry.call : Entry → (ℕ → Byte) → VaList → ℕ → Printer Word
  | .printf, mem, va, fuel => Stdio.printf fuel mem va
  | .fprintf, mem, va, fuel => Stdio.fprintf fuel mem va
  | .vfprintf, mem, va, fuel => Stdio.vfprintf fuel mem va

theorem fprintf_hangs (fuel : ℕ) : ∀ (mem : ℕ → Byte) (va : VaList) (s : Stream),
    fprintf fuel mem va s = .error .hang s := by
  induction fuel with
  | zero => exact fun _ _ _ => rfl
  | succ fuel ih => exact fun mem va s => ih mem va s

theorem vfprintf_endsInside_iff (f : Format) (va : VaList) :
    EndsInside (fun fuel => vfprintf fuel f.mem va) f.text.length ↔
      f.text ≠ [] ∧ closed false f.text = true := by
  constructor
  · intro h
    obtain ⟨bound, hb⟩ := h []
    obtain ⟨r, t, hrun, ht⟩ := hb bound le_rfl
    by_contra hn
    have hopen : f.text = [] ∨ closed false f.text = false := by
      by_cases he : f.text = []
      · exact Or.inl he
      · exact Or.inr (Bool.eq_false_of_not_eq_true (fun hc => hn ⟨he, hc⟩))
    have hsent := wp_of_ok (process_open f.mem va bound 0 0 f.text _ f.spells hopen) hrun
    rw [Nat.zero_add] at hsent
    exact ht.copied hsent
  · rintro ⟨hne, hc⟩ out
    refine ⟨f.text.length, fun fuel hfuel => ?_⟩
    have h := process_inside f.mem va fuel 0 0 f.text ⟨out, [], []⟩ f.spells hne hc hfuel
      ⟨by simp, by simp⟩
    rw [Nat.zero_add] at h
    exact wp_never.mp h

/-- A call ends and stays inside its format if and only if it is not `fprintf`, the format is not
empty, and its last conversion is closed. -/
theorem endsInside_iff (e : Entry) (f : Format) (va : VaList) :
    EndsInside (e.call f.mem va) f.text.length ↔
      e ≠ .fprintf ∧ f.text ≠ [] ∧ closed false f.text = true := by
  cases e with
  | printf =>
    rw [← vfprintf_endsInside_iff f va]
    exact ⟨fun h => ⟨by decide, h⟩, fun h => h.2⟩
  | vfprintf =>
    rw [← vfprintf_endsInside_iff f va]
    exact ⟨fun h => ⟨by decide, h⟩, fun h => h.2⟩
  | fprintf =>
    constructor
    · intro h
      obtain ⟨bound, hb⟩ := h []
      obtain ⟨r, t, hrun, -⟩ := hb bound le_rfl
      rw [Entry.call, fprintf_hangs] at hrun
      cases hrun
    · exact fun h => absurd rfl h.1

/-- `printf("5%")`: the terminator closes the conversion and is sent. -/
theorem not_endsInside_percent :
    ¬ ∀ (e : Entry) (f : Format) (va : VaList), EndsInside (e.call f.mem va) f.text.length := by
  intro h
  have hp := (vfprintf_endsInside_iff ⟨fun i => [0x35, 0x25].getD i 0, [0x35, 0x25],
    ⟨rfl, by decide, rfl, by decide, rfl⟩⟩ ⟨fun _ => 0, fun _ => none⟩).mp (h .printf _ _)
  exact absurd hp.2 (by decide)

end Armboard.Stdio
