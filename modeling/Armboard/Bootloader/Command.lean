import Armboard.Bootloader.Editing

/-! # From the edited line to command and address

`main` takes the command from `message[0]` and the address from `message[2]` on,
wherever the line ends. A line of one character ends before the address, and what
is parsed then is what deleted characters left behind.
-/

namespace Armboard.Bootloader
open DataFlash

/-! ## The parser -/

def hexDigit (c : Byte) : Option Word :=
  if 0x30 ≤ c ∧ c ≤ 0x39 then some (c.setWidth 32 - 0x30)
  else if 0x61 ≤ c ∧ c ≤ 0x66 then some (c.setWidth 32 - 0x57)
  else if 0x41 ≤ c ∧ c ≤ 0x46 then some (c.setWidth 32 - 0x37)
  else none

/-- The loop of `AsciiToHex`, with `k` digits to go; a character that is no digit ends it behind
the shift. -/
def hexLoop (s : ℕ → Byte) : ℕ → ℕ → Word → Bool × Word
  | 0, _, val => (true, val)
  | k + 1, n, val =>
    if s n = 0 then (true, val)
    else
      match hexDigit (s n) with
      | some d => hexLoop s k (n + 1) (val <<< 4 + d)
      | none => (false, val <<< 4)

def skipPrefix (s : ℕ → Byte) : ℕ → Byte :=
  if s 0 = 0x30 ∧ (s 1 = 0x78 ∨ s 1 = 0x58) then fun i => s (2 + i) else s

/-- `AsciiToHex`: the return value and `*val`. -/
def asciiToHex (s : ℕ → Byte) : Bool × Word := hexLoop (skipPrefix s) 8 0 0

def TakesAddress (c : Byte) : Prop := c = 0x31 ∨ c = 0x32 ∨ c = 0x33

instance (c : Byte) : Decidable (TakesAddress c) := inferInstanceAs (Decidable (_ ∨ _ ∨ _))

/-- `command` and `arg` as `main` derives them from the message buffer. -/
def parseCommand (message : ℕ → Byte) : Byte × Word :=
  if TakesAddress (message 0) then
    let parsed := asciiToHex (fun i => message (2 + i))
    (if parsed.1 then message 0 else 0, parsed.2)
  else (message 0, 0)

/-- The buffer as `main` prepares it for the menu prompt. -/
def prepare (message : ℕ → Byte) : ℕ → Byte := Function.update (Function.update message 0 0) 2 0

/-! ## Strings up to their terminator -/

def SameString (s t : ℕ → Byte) : Prop := ∀ i, (∀ j < i, s j ≠ 0) → s i = t i

def prefixLength (s : ℕ → Byte) : ℕ := if s 0 = 0x30 ∧ (s 1 = 0x78 ∨ s 1 = 0x58) then 2 else 0

def hexLoopReads (s : ℕ → Byte) : ℕ → ℕ → List ℕ
  | 0, _ => []
  | k + 1, n => n :: if s n = 0 ∨ hexDigit (s n) = none then [] else hexLoopReads s k (n + 1)

/-- The offsets that `AsciiToHex` reads; `s[1]` is looked at behind a `0` only. -/
def asciiToHexReads (s : ℕ → Byte) : List ℕ :=
  0 :: ((if s 0 = 0x30 then [1] else []) ++
    (hexLoopReads (skipPrefix s) 8 0).map (prefixLength s + ·))

theorem skipPrefix_apply (s : ℕ → Byte) (i : ℕ) : skipPrefix s i = s (prefixLength s + i) := by
  unfold skipPrefix prefixLength
  split
  · rfl
  · rw [Nat.zero_add]

theorem hexLoop_eq_of_reads {s t : ℕ → Byte} (k : ℕ) : ∀ n val,
    (∀ i ∈ hexLoopReads s k n, s i = t i) → hexLoop s k n val = hexLoop t k n val := by
  induction k with
  | zero => exact fun _ _ _ => rfl
  | succ k ih =>
    intro n val h
    obtain ⟨hn, hrest⟩ := List.forall_mem_cons.mp h
    rw [hexLoop, hexLoop, ← hn]
    by_cases h0 : s n = 0
    · rw [if_pos h0, if_pos h0]
    · rw [if_neg h0, if_neg h0]
      cases hd : hexDigit (s n) with
      | none => rfl
      | some d =>
        rw [if_neg (not_or.mpr ⟨h0, by rw [hd]; exact Option.some_ne_none d⟩)] at hrest
        exact ih (n + 1) _ hrest

theorem hexLoopReads_inside {s : ℕ → Byte} (k : ℕ) : ∀ n, (∀ j < n, s j ≠ 0) →
    ∀ i ∈ hexLoopReads s k n, ∀ j < i, s j ≠ 0 := by
  induction k with
  | zero => exact fun _ _ _ hi => absurd hi List.not_mem_nil
  | succ k ih =>
    intro n hn
    refine List.forall_mem_cons.mpr ⟨hn, ?_⟩
    split
    · exact fun _ hi => absurd hi List.not_mem_nil
    · rename_i hgo
      apply ih
      intro j hj
      rcases Nat.lt_succ_iff_lt_or_eq.mp hj with hlt | rfl
      · exact hn j hlt
      · exact (not_or.mp hgo).1

/-- The parser depends on nothing but what it reads. -/
theorem asciiToHex_eq_of_reads {s t : ℕ → Byte} (h : ∀ i ∈ asciiToHexReads s, s i = t i) :
    asciiToHex s = asciiToHex t := by
  obtain ⟨h0, hrest⟩ := List.forall_mem_cons.mp h
  obtain ⟨h1, hloop⟩ := List.forall_mem_append.mp hrest
  have hprefix : prefixLength s = prefixLength t := by
    unfold prefixLength
    rw [← h0]
    by_cases hz : s 0 = 0x30
    · rw [if_pos hz] at h1
      rw [h1 1 List.mem_cons_self]
    · rw [if_neg (fun hp => hz hp.1), if_neg (fun hp => hz hp.1)]
  apply hexLoop_eq_of_reads
  intro i hi
  rw [skipPrefix_apply, skipPrefix_apply, ← hprefix]
  exact hloop _ (List.mem_map.mpr ⟨i, hi, rfl⟩)

theorem asciiToHexReads_inside (s : ℕ → Byte) : ∀ i ∈ asciiToHexReads s, ∀ j < i, s j ≠ 0 := by
  have hfirst : s 0 = 0x30 → s 0 ≠ 0 := fun h => by rw [h]; decide
  refine List.forall_mem_cons.mpr ⟨fun j hj => absurd hj (Nat.not_lt_zero j),
    List.forall_mem_append.mpr ⟨?_, ?_⟩⟩
  · split
    · rename_i hz
      intro i hi j hj
      rw [List.mem_singleton.mp hi, Nat.lt_one_iff] at hj
      rw [hj]
      exact hfirst hz
    · exact fun _ hi => absurd hi List.not_mem_nil
  · intro i hi j hj
    obtain ⟨m, hm, rfl⟩ := List.mem_map.mp hi
    have hinside := hexLoopReads_inside 8 0 (by simp) m hm
    by_cases hlt : j < prefixLength s
    · unfold prefixLength at hlt
      split at hlt
      · rename_i hp
        rcases Nat.lt_succ_iff_lt_or_eq.mp hlt with h1 | rfl
        · rw [Nat.lt_one_iff.mp h1]
          exact hfirst hp.1
        · rcases hp.2 with hx | hx <;> rw [hx] <;> decide
      · exact absurd hlt (Nat.not_lt_zero j)
    · have hne := hinside (j - prefixLength s) (by omega)
      rwa [skipPrefix_apply, Nat.add_sub_cancel' (Nat.not_lt.mp hlt)] at hne

theorem asciiToHex_congr {s t : ℕ → Byte} (h : SameString s t) : asciiToHex s = asciiToHex t :=
  asciiToHex_eq_of_reads (fun i hi => h i (asciiToHexReads_inside s i hi))

/-- Behind the prefix there are only digits `0`, up to the terminator or eight of them. -/
def Zeros (s : ℕ → Byte) : Prop :=
  ∃ m ≤ 8, (∀ j < m, skipPrefix s j = 0x30) ∧ (m = 8 ∨ skipPrefix s m = 0)

private theorem hexDigit_all : ∀ c : Byte,
    (hexDigit c).all (fun d => decide (d.toNat < 16) && decide (d = 0 ↔ c = 0x30)) = true := by
  decide +kernel

private theorem hexDigit_some {c : Byte} {d : Word} (h : hexDigit c = some d) :
    d.toNat < 16 ∧ (d = 0 ↔ c = 0x30) := by
  have hall := hexDigit_all c
  rw [h, Option.all_some, Bool.and_eq_true, decide_eq_true_iff, decide_eq_true_iff] at hall
  exact hall

theorem digit_toNat {k : ℕ} (hk : k + 1 ≤ 8) {val d : Word}
    (hval : val.toNat < 16 ^ (8 - (k + 1))) (hd : d.toNat < 16) :
    (val <<< 4 + d).toNat = val.toNat * 16 + d.toNat ∧ (val <<< 4 + d).toNat < 16 ^ (8 - k) := by
  have hpow : 16 ^ (8 - k) = 16 ^ (8 - (k + 1)) * 16 := by
    rw [← Nat.pow_succ]
    congr 1
    omega
  have hle : 16 ^ (8 - k) ≤ 16 ^ 8 := Nat.pow_le_pow_right (by omega) (by omega)
  have hsum : (val <<< 4 + d).toNat = val.toNat * 16 + d.toNat := by
    rw [BitVec.toNat_add, BitVec.toNat_shiftLeft, Nat.shiftLeft_eq]
    omega
  omega

/-- By induction on the digits to go; the value so far leaves room for them. -/
private theorem hexLoop_zero_iff (s : ℕ → Byte) (k : ℕ) : ∀ (n : ℕ) (val : Word), k ≤ 8 →
    val.toNat < 16 ^ (8 - k) → (hexLoop s k n val = (true, 0) ↔
      val = 0 ∧ ∃ m ≤ k, (∀ j < m, s (n + j) = 0x30) ∧ (m = k ∨ s (n + m) = 0)) := by
  induction k with
  | zero =>
    intro n val _ _
    rw [hexLoop, Prod.mk.injEq]
    exact ⟨fun h => ⟨h.2, 0, le_rfl, by simp, Or.inl rfl⟩, fun h => ⟨rfl, h.1⟩⟩
  | succ k ih =>
    intro n val hk hval
    rw [hexLoop]
    by_cases h0 : s n = 0
    · rw [if_pos h0, Prod.mk.injEq]
      exact ⟨fun h => ⟨h.2, 0, Nat.zero_le _, by simp, Or.inr h0⟩, fun h => ⟨rfl, h.1⟩⟩
    rw [if_neg h0]
    have hfirst : ∀ m, (∀ j < m, s (n + j) = 0x30) → (m = k + 1 ∨ s (n + m) = 0) →
        s n = 0x30 ∧ m = m - 1 + 1 := by
      intro m hz hend
      cases m with
      | zero => exact absurd hend (not_or.mpr ⟨by omega, h0⟩)
      | succ m => exact ⟨hz 0 (Nat.succ_pos _), rfl⟩
    cases hd : hexDigit (s n) with
    | none =>
      constructor
      · exact fun h => absurd (Prod.mk.inj h).1 (by decide)
      · rintro ⟨-, m, -, hz, hend⟩
        rw [(hfirst m hz hend).1] at hd
        exact absurd hd (by decide)
    | some d =>
      obtain ⟨hlt, hzero⟩ := hexDigit_some hd
      obtain ⟨hsum, hroom⟩ := digit_toNat hk hval hlt
      have hval0 : val <<< 4 + d = 0 ↔ val = 0 ∧ d = 0 := by
        have hz : (0 : Word).toNat = 0 := rfl
        simp only [← BitVec.toNat_inj, hsum, hz]
        omega
      rw [ih (n + 1) (val <<< 4 + d) (by omega) hroom, hval0, hzero]
      constructor
      · rintro ⟨⟨hv, hs⟩, m, hm, hz, hend⟩
        refine ⟨hv, m + 1, by omega, fun j hj => ?_, ?_⟩
        · cases j with
          | zero => exact hs
          | succ j =>
            rw [← Nat.add_assoc, Nat.add_right_comm]
            exact hz j (by omega)
        · rw [← Nat.add_assoc, Nat.add_right_comm]
          exact hend.imp (congrArg (· + 1)) id
      · rintro ⟨hv, m, hm, hz, hend⟩
        obtain ⟨hs, hm'⟩ := hfirst m hz hend
        refine ⟨⟨hv, hs⟩, m - 1, by omega, fun j hj => ?_, ?_⟩
        · rw [Nat.add_assoc, Nat.add_comm 1]
          exact hz (j + 1) (by omega)
        · rw [Nat.add_assoc, Nat.add_comm 1, ← hm']
          exact hend.imp (by omega) id

theorem asciiToHex_zero_iff (s : ℕ → Byte) : asciiToHex s = (true, 0) ↔ Zeros s := by
  rw [asciiToHex, hexLoop_zero_iff _ 8 0 0 le_rfl (by decide), Zeros]
  simp only [Nat.zero_add, true_and]

/-! ## The command of a line -/

/-- A buffer that holds the line and zeros behind it. -/
def ofLine (line : List Byte) : ℕ → Byte := fun i => line.getD i 0

/-- The command and the address that stand on a line. -/
def lineCommand (line : List Byte) : Byte × Word := parseCommand (ofLine line)

/-- The line as a NUL-terminated string: a typed NUL ends it. -/
def cut (line : List Byte) : List Byte := line.takeWhile (fun c => decide (c ≠ 0))

theorem lineCommand_short {line : List Byte} (h : line.length < 3) : (lineCommand line).2 = 0 := by
  have h2 : ofLine line 2 = 0 := List.getD_eq_default _ _ (by omega)
  unfold lineCommand parseCommand
  split
  · have hz : asciiToHex (fun i => ofLine line (2 + i)) = (true, 0) := by
      have hs : skipPrefix (fun i => ofLine line (2 + i)) = fun i => ofLine line (2 + i) := by
        apply if_neg
        intro hp
        have : ofLine line 2 = 0x30 := hp.1
        rw [h2] at this
        exact absurd this (by decide)
      rw [asciiToHex, hs, hexLoop, if_pos h2]
    simp only [hz]
  · rfl

theorem cut_get {line : List Byte} {i : ℕ} (hi : i < (cut line).length) :
    (cut line).getD i 0 = line.getD i 0 ∧ line.getD i 0 ≠ 0 := by
  induction line generalizing i with
  | nil => simp [cut] at hi
  | cons c line ih =>
    rw [cut, List.takeWhile_cons] at hi ⊢
    by_cases hc : c = 0
    · simp [hc] at hi
    · rw [if_pos (by simpa using hc)] at hi ⊢
      cases i with
      | zero => exact ⟨rfl, by simpa using hc⟩
      | succ i =>
        rw [List.length_cons] at hi
        exact ih (by simpa [cut] using hi)

theorem cut_end (line : List Byte) : line.getD (cut line).length 0 = 0 := by
  induction line with
  | nil => rfl
  | cons c line ih =>
    rw [cut, List.takeWhile_cons]
    by_cases hc : c = 0
    · rw [if_neg (by simpa using hc)]
      exact hc
    · rw [if_pos (by simpa using hc)]
      exact ih

theorem cut_length_le (line : List Byte) : (cut line).length ≤ line.length :=
  (List.takeWhile_sublist _).length_le

/-! ## What the buffer adds -/

/-- The bytes Enter leaves in the buffer: in every place the character last typed there (or what
was there before), and the terminator behind the line. -/
def leftBehind (typed : List Byte) (message : ℕ → Byte) : ℕ → Byte :=
  Function.update (lastTyped typed [] message) (lineOf typed).length 0

/-- `main` reads the menu line and derives command and argument from it. -/
def menuCommand (keys : List Byte) (message : ℕ → Byte) : Option (Byte × Word) :=
  (readLineKeys 7 keys (prepare message)).map (fun r => parseCommand r.edit.buf)

/-- Keys that Enter ends leave the edited line in the buffer. -/
theorem readLineKeys_enter {typed : List Byte} {c : Byte} (plen : ℤ) (rest : List Byte)
    (buf : ℕ → Byte) (ht : ∀ k ∈ typed, ¬ Ends k) (hc : c = cr ∨ c = lf) :
    ∃ r, readLineKeys plen (typed ++ c :: rest) buf = some r ∧ r.rest = rest ∧
      r.ret = ((lineOf typed).length : ℤ) ∧ r.edit.buf = leftBehind typed buf ∧
      ∀ i < (lineOf typed).length, r.edit.buf i = (lineOf typed).getD i 0 := by
  obtain ⟨r, hr⟩ := Option.isSome_iff_exists.mp
    (readKeys_isSome plen (Or.inl hc : Ends c) rest typed ⟨buf, 0, 0, plen, []⟩)
  refine ⟨r, hr, ?_⟩
  have hl : Holds ⟨buf, 0, 0, plen, []⟩ [] := ⟨rfl, rfl, trivial⟩
  cases readKeys_finished plen _ _ [] r hl hr with
  | @enter typed' c' _ hk ht' hc' hret hs hb =>
    obtain ⟨rfl, rfl, hrest⟩ := typed_unique hk ht ht' (Or.inl hc) (Or.inl hc')
    refine ⟨hrest.symm, by rw [hret, lineOf_length], ?_, ?_⟩
    · rw [hb, leftBehind, lineOf_length]
    · intro i hi
      rw [lineOf_length] at hi
      rw [hb, Function.update_of_ne (Nat.ne_of_lt hi)]
      exact hs.get hi
  | @breaks typed' _ hk ht' hret hb =>
    obtain ⟨rfl, rfl, hrest⟩ := typed_unique hk ht ht' (Or.inl hc) (Or.inr rfl)
    exact absurd hc (by decide)

/-- The NUL-terminated string in the buffer is the line. -/
theorem leftBehind_string {typed : List Byte} (buf : ℕ → Byte) (ht : ∀ k ∈ typed, ¬ Ends k) :
    (∀ i < (cut (lineOf typed)).length,
      leftBehind typed buf i = ofLine (cut (lineOf typed)) i ∧ leftBehind typed buf i ≠ 0) ∧
    leftBehind typed buf (cut (lineOf typed)).length = 0 := by
  obtain ⟨r, -, -, -, hb, hline⟩ := readLineKeys_enter (c := cr) 7 [] buf ht (Or.inl rfl)
  rw [hb] at hline
  have hle := cut_length_le (lineOf typed)
  constructor
  · intro i hi
    obtain ⟨hcut, hne⟩ := cut_get hi
    rw [hline i (by omega)]
    exact ⟨hcut.symm, hne⟩
  · rcases Nat.lt_or_eq_of_le hle with hlt | heq
    · rw [hline _ hlt]
      exact cut_end _
    · rw [leftBehind, heq, Function.update_self]

def Bare (line : List Byte) : Prop := ∃ c, TakesAddress c ∧ line = [c]

theorem parse_leftBehind {typed : List Byte} (buf : ℕ → Byte) (ht : ∀ k ∈ typed, ¬ Ends k) :
    parseCommand (leftBehind typed buf) = lineCommand (cut (lineOf typed)) ↔
      (Bare (cut (lineOf typed)) →
        asciiToHex (fun i => leftBehind typed buf (2 + i)) = (true, 0)) := by
  obtain ⟨hsame, hend⟩ := leftBehind_string buf ht
  generalize hl : cut (lineOf typed) = l at hsame hend
  generalize leftBehind typed buf = m at hsame hend
  have hafter : ofLine l l.length = 0 := List.getD_eq_default _ _ le_rfl
  rcases l with _ | ⟨c, _ | ⟨d, l⟩⟩
  · have h0 : m 0 = 0 := hend
    have hz : parseCommand m = lineCommand [] := by
      unfold lineCommand parseCommand
      rw [h0]
      rfl
    exact ⟨fun _ ⟨c, _, h⟩ => absurd h (by simp), fun _ => hz⟩
  · have h0 : m 0 = c ∧ m 0 ≠ 0 := hsame 0 (by simp)
    have hshort : (lineCommand [c]).2 = 0 := lineCommand_short (by simp)
    by_cases hta : TakesAddress c
    · have hline : lineCommand [c] = (c, 0) := by
        rcases hta with rfl | rfl | rfl <;> rfl
      rw [hline, parseCommand, h0.1, if_pos hta]
      have hc : c ≠ 0 := h0.1 ▸ h0.2
      constructor
      · rintro h -
        obtain ⟨h1, h2⟩ := Prod.mk.inj h
        refine Prod.ext ?_ h2
        by_contra hf
        rw [if_neg hf] at h1
        exact hc h1.symm
      · intro h
        rw [h ⟨c, hta, rfl⟩]
        rfl
    · have hz : parseCommand m = lineCommand [c] := by
        unfold lineCommand parseCommand
        rw [h0.1, if_neg hta, if_neg (show ¬ TakesAddress (ofLine [c] 0) from hta)]
        rfl
      refine ⟨fun _ ⟨c', hta', h⟩ => ?_, fun _ => hz⟩
      obtain ⟨rfl, -⟩ := List.cons.inj h
      exact absurd hta' hta
  · have h0 := (hsame 0 (by simp)).1
    have hs : SameString (fun i => m (2 + i)) (fun i => ofLine (c :: d :: l) (2 + i)) := by
      intro i hi
      rcases Nat.lt_trichotomy i l.length with hlt | heq | hgt
      · exact (hsame (2 + i) (by simp only [List.length_cons]; omega)).1
      · have : 2 + i = (c :: d :: l).length := by simp only [List.length_cons]; omega
        change m (2 + i) = ofLine (c :: d :: l) (2 + i)
        rw [this, hend, hafter]
      · have hz := hi l.length hgt
        have : 2 + l.length = (c :: d :: l).length := by simp only [List.length_cons]; omega
        change m (2 + l.length) ≠ 0 at hz
        rw [this] at hz
        exact absurd hend hz
    have hz : parseCommand m = lineCommand (c :: d :: l) := by
      unfold lineCommand parseCommand
      rw [h0, asciiToHex_congr hs]
    exact ⟨fun _ ⟨c', _, h⟩ => absurd h (by simp), fun _ => hz⟩

/-- The pair `main` derives is the one on the edited line if and only if the line is not a bare
`1`, `2` or `3`, or what is left behind it from the third place on is empty or a row of zeros. -/
theorem menuCommand_iff (message : ℕ → Byte) (typed rest : List Byte) (c : Byte)
    (ht : ∀ k ∈ typed, ¬ Ends k) (hc : c = cr ∨ c = lf) :
    menuCommand (typed ++ c :: rest) message = some (lineCommand (cut (lineOf typed))) ↔
      (Bare (cut (lineOf typed)) →
        Zeros (fun i => leftBehind typed (prepare message) (2 + i))) := by
  obtain ⟨r, hr, -, -, hb, -⟩ := readLineKeys_enter 7 rest (prepare message) ht hc
  rw [menuCommand, hr, Option.map_some, Option.some_inj, hb]
  rw [parse_leftBehind (prepare message) ht, asciiToHex_zero_iff]

def lineBefore : ℕ → Byte := ofLine [0x33, 0x20, 0x32, 0x30, 0x30, 0x30]

/-- Behind that line, `1 5` with two deletions reads the address 5000: the 5 was deleted, and
the zeros are left from before. `14` with one deletion reads none. -/
theorem menuCommand_iff_edited :
    (∀ k ∈ [0x31, 0x20, 0x35, backspace, backspace], ¬ Ends k) ∧
    (∀ k ∈ [0x31, 0x34, backspace], ¬ Ends k) ∧ (cr = cr ∨ cr = lf) ∧
    menuCommand ([0x31, 0x20, 0x35, backspace, backspace] ++ cr :: []) lineBefore ≠
      some (lineCommand (cut (lineOf [0x31, 0x20, 0x35, backspace, backspace]))) ∧
    menuCommand ([0x31, 0x20, 0x35, backspace, backspace] ++ cr :: []) lineBefore =
      some (0x31, 0x5000) ∧
    menuCommand ([0x31, 0x34, backspace] ++ cr :: []) lineBefore = some (0x31, 0) := by
  have hfirst : ∀ k ∈ [0x31, 0x20, 0x35, backspace, backspace], ¬ Ends k := by decide
  have hsecond : ∀ k ∈ [0x31, 0x34, backspace], ¬ Ends k := by decide
  have hleft := menuCommand_iff lineBefore _ [] cr hfirst (Or.inl rfl)
  have hclear := menuCommand_iff lineBefore _ [] cr hsecond (Or.inl rfl)
  refine ⟨hfirst, hsecond, Or.inl rfl, fun h => ?_, by decide, hclear.mpr fun _ => ?_⟩
  · have hzeros := hleft.mp h ⟨0x31, by decide, by decide⟩
    revert hzeros
    unfold Zeros
    decide
  · exact ⟨0, by decide, by decide, Or.inr (by decide)⟩

/-- Type `1 5`, delete two characters and press Enter: the line is `1`, the address is 5. -/
theorem menuCommand_deleted : ¬ ∀ (message : ℕ → Byte) (typed rest : List Byte) (c : Byte),
    (∀ k ∈ typed, ¬ Ends k) → (c = cr ∨ c = lf) →
      menuCommand (typed ++ c :: rest) message = some (lineCommand (cut (lineOf typed))) := by
  intro h
  have hline := h (fun _ => 0) [0x31, 0x20, 0x35, backspace, backspace] [] cr (by decide) (Or.inl rfl)
  have hread : menuCommand ([0x31, 0x20, 0x35, backspace, backspace] ++ cr :: []) (fun _ => 0) =
      some (0x31, 5) := by decide
  have hwant : lineCommand (cut (lineOf [0x31, 0x20, 0x35, backspace, backspace])) = (0x31, 0) := by
    decide
  rw [hread, hwant] at hline
  exact absurd hline (by decide)

end Armboard.Bootloader
