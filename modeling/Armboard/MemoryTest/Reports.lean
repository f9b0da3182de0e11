import Armboard.MemoryTest.March

/-! # The failure reports

The march test and the address test compare in a helper that keeps the value it read
to itself, and print variables of their own that nothing sets. What they should print
is the sequence of the comparisons that fail, which `scan` makes over any bus; what they
print has its length, but values of its own.
-/

namespace Armboard.MemoryTest
open Exec

variable {μ : Type} {bus : Bus μ} {n : ℕ}

/-! ## Comparisons that fail -/

/-- A failed comparison: where, what was read there, and what had been written. -/
structure Failure where
  addr : Word
  found : Word
  expected : Word
  deriving DecidableEq

def Bus.read (bus : Bus μ) (n : ℕ) (a : Word) (m : μ) : Word × μ :=
  if n = 1 then ((bus.loadByte a m).1.setWidth 32, (bus.loadByte a m).2) else bus.loadWord a m

def truncated (n : ℕ) (v : Word) : Word := if n = 1 then (v.setWidth 8).setWidth 32 else v

/-- Compare cell after cell with what was written there: the failures, oldest first, and the memory
behind the loads. -/
def scan (bus : Bus μ) (n : ℕ) (cell : ℕ → Word × Word) (m : μ) : ℕ → List Failure × μ
  | 0 => ([], m)
  | k + 1 =>
    let before := scan bus n cell m k
    let r := bus.read n (cell k).1 before.2
    if r.1 = truncated n (cell k).2 then (before.1, r.2)
    else (before.1 ++ [⟨(cell k).1, r.1, truncated n (cell k).2⟩], r.2)

/-- A pass of the march test with value `v`: a sweep of stores, and a sweep of loads from the end. -/
def marchScan (bus : Bus μ) (n : ℕ) (v : Word) (m : μ) : List Failure × μ :=
  scan bus n (fun k => (downAddr n k, v)) (filled bus n v m) (cellCount n)

def marchScans (bus : Bus μ) (n : ℕ) (m : μ) : List Failure × List Failure :=
  let first := marchScan bus n 1 (filled bus 4 0 m)
  (first.1, (marchScan bus n (~~~1) first.2).1)

def fillNumbers (bus : Bus μ) (n : ℕ) (m : μ) : ℕ → μ
  | 0 => m
  | k + 1 => bus.put n (BitVec.ofNat 32 k) (cellAddr n k) (fillNumbers bus n m k)

/-- The address test: every cell is compared with its number. -/
def addressScan (bus : Bus μ) (n : ℕ) (m : μ) : List Failure :=
  (scan bus n (fun k => (cellAddr n k, BitVec.ofNat 32 k)) (fillNumbers bus n m (cellCount n))
    (cellCount n)).1

/-! ## Reports -/

def errorText : String := "\n\r    - Memory error at 0x%x: found 0x%x, expected 0x%x !!!"

/-- The failures that were printed, oldest first. -/
def reports : List Output → List Failure
  | [] => []
  | .printf format args :: l =>
    match args with
    | [.word a, .word r, .word e] =>
      if format = errorText then reports l ++ [⟨a, r, e⟩] else reports l
    | _ => reports l
  | .echo _ :: l => reports l

/-- A test ends, reports the failures of its comparisons, and prints TEST FAILED if there are any. -/
def Accurate (x : Test μ Unit) (m : μ) (failures : List Failure) : Prop :=
  ∃ t, x ⟨m, []⟩ = .ok () t ∧ reports t.output = failures ∧
    (failedText ∈ t.output ↔ failures ≠ [])

theorem reports_bare {l : List Output} {format : String} :
    reports (.printf format [] :: l) = reports l := rfl

/-- A reported failure, with TEST FAILED left for the end. -/
theorem memoryError_reports (testResult : Bool) (a r e : Word) {t : Tester μ}
    (hq : Quiet t.output) : wp (memoryError testResult a r e) (fun res u => res = true ∧
      u.mem = t.mem ∧ Quiet u.output ∧ reports u.output = reports t.output ++ [⟨a, r, e⟩]) never t := by
  cases testResult with
  | true => exact ⟨rfl, rfl, hq.printf _ (by decide) (by decide), rfl⟩
  | false =>
    exact ⟨rfl, rfl, (hq.printf [] (by decide) (by decide)).printf _ (by decide) (by decide), rfl⟩

theorem setWidth_byte_inj (b c : Byte) : b.setWidth 32 = c.setWidth 32 ↔ b = c := by
  have hb := b.isLt
  have hc := c.isLt
  rw [← BitVec.toNat_inj, ← BitVec.toNat_inj, BitVec.toNat_setWidth, BitVec.toNat_setWidth]
  omega

/-- The helper compares what a load returns with the truncated value, and keeps it to itself. -/
theorem checkMemoryValue_read (bus : Bus μ) (h : Accepted n) (a v : Word) (t : Tester μ) :
    wp (checkMemoryValue bus a v (BitVec.ofNat 32 n)) (fun good u =>
      u = { t with mem := (bus.read n a t.mem).2 } ∧
      (good = true ↔ (bus.read n a t.mem).1 = truncated n v)) never t := by
  rcases h with rfl | rfl
  · constructor
    · rfl
    · rw [decide_eq_true_iff]
      exact (low_byte_eq_iff _ v).trans (setWidth_byte_inj _ _).symm
  · constructor
    · rfl
    · rw [decide_eq_true_iff]
      exact Iff.rfl

/-! ## A sweep of comparisons -/

/-- What a sweep has done since `t`: its loads, and one report `printed` for each failure. -/
structure Swept (printed : Failure → Failure) (t : Tester μ) (old : Bool) (s : List Failure × μ)
    (testResult : Bool) (u : Tester μ) : Prop where
  mem : u.mem = s.2
  quiet : Quiet u.output
  result : testResult = true ↔ old = true ∨ s.1 ≠ []
  reports : reports u.output = reports t.output ++ s.1.map printed

/-- The body of the two reading loops, with the three values that are printed. -/
def checkCell (bus : Bus μ) (accessSize a v x y z : Word) (testResult : Bool) : Test μ Bool := do
  let good ← checkMemoryValue bus a v accessSize
  if good then pure testResult else memoryError testResult x y z

theorem checkCell_swept {printed : Failure → Failure} {t u : Tester μ} {old testResult : Bool}
    {cell : ℕ → Word × Word} {m : μ} {k : ℕ} {x y z : Word} (h : Accepted n)
    (hs : Swept printed t old (scan bus n cell m k) testResult u)
    (hp : ∀ r, printed ⟨(cell k).1, r, truncated n (cell k).2⟩ = ⟨x, y, z⟩) :
    wp (checkCell bus (BitVec.ofNat 32 n) (cell k).1 (cell k).2 x y z testResult)
      (fun res w => Swept printed t old (scan bus n cell m (k + 1)) res w) never u := by
  rw [checkCell, wp_bind]
  apply wp_post (checkMemoryValue_read bus h _ _ u)
  rintro good _ ⟨rfl, hgood⟩
  rw [hs.mem] at hgood ⊢
  cases good with
  | true =>
    have hstep : scan bus n cell m (k + 1) = ((scan bus n cell m k).1,
        (bus.read n (cell k).1 (scan bus n cell m k).2).2) := if_pos (hgood.mp rfl)
    rw [hstep]
    exact ⟨rfl, hs.quiet, hs.result, hs.reports⟩
  | false =>
    have hne : ¬ (bus.read n (cell k).1 (scan bus n cell m k).2).1 = truncated n (cell k).2 :=
      fun heq => absurd (hgood.mpr heq) Bool.false_ne_true
    have hstep : scan bus n cell m (k + 1) = ((scan bus n cell m k).1 ++
        [⟨(cell k).1, (bus.read n (cell k).1 (scan bus n cell m k).2).1, truncated n (cell k).2⟩],
        (bus.read n (cell k).1 (scan bus n cell m k).2).2) := if_neg hne
    rw [hstep]
    have herror := memoryError_reports testResult x y z
      (t := ⟨(bus.read n (cell k).1 (scan bus n cell m k).2).2, u.output⟩) hs.quiet
    apply wp_post herror
    rintro res w ⟨rfl, hm, hq, hr⟩
    refine ⟨hm, hq, by simp, ?_⟩
    rw [hr, hs.reports, List.map_append, List.map_singleton, hp, List.append_assoc]

theorem Swept.nil {printed : Failure → Failure} {t : Tester μ} (hq : Quiet t.output)
    (old : Bool) : Swept printed t old ([], t.mem) old t :=
  ⟨rfl, hq, by simp, by simp⟩

/-- The verdict of a test whose sweeps have failures `l`, behind its reports. -/
theorem verdict_reports {testResult : Bool} {l : List Failure} {t : Tester μ}
    (hresult : testResult = true ↔ l ≠ []) (hq : Quiet t.output) :
    wp (verdict testResult) (fun _ u => reports u.output = reports t.output ∧
      (failedText ∈ u.output ↔ l ≠ [])) never t := by
  have hkeep : wp (verdict testResult) (fun _ u => reports u.output = reports t.output) never t := by
    cases testResult with
    | true => rfl
    | false => rfl
  apply wp_mono (wp_and hkeep (verdict_spec (P := l = []) hresult hq))
  · rintro _ u ⟨hr, -, hv⟩
    exact ⟨hr, hv.failed⟩
  · intro _ _ h
    exact h.1

/-! ## The march test -/

theorem printValue_reports (h : Accepted n) (v : Word) {t : Tester μ} (hq : Quiet t.output) :
    wp (printValue v (BitVec.ofNat 32 n)) (fun _ u => u.mem = t.mem ∧ Quiet u.output ∧
      reports u.output = reports t.output) never t := by
  rcases h with rfl | rfl
  · exact ⟨rfl, hq.printf _ (by decide) (by decide), rfl⟩
  · exact ⟨rfl, hq.printf _ (by decide) (by decide), rfl⟩

/-- Every failure of a pass is reported with the same three values. -/
theorem marchPass_swept (h : Accepted n) (addr readback v : Word) (testResult : Bool) {t : Tester μ}
    (hq : Quiet t.output) : wp (marchPass bus addr readback (BitVec.ofNat 32 n) (v, testResult))
      (fun c u => c.1 = ~~~v ∧ Swept (fun _ => ⟨addr, readback, v⟩) t testResult
        (marchScan bus n v t.mem) c.2 u) never t := by
  have hpasses : cellCount n < passes + 0 := (Nat.div_le_self _ _).trans_lt (by decide)
  rw [marchPass, wp_bind, wp_printf, wp_bind]
  apply wp_post (printValue_reports h v (hq.printf [] (by decide) (by decide)))
  rintro _ w ⟨hw, hqw, hrw⟩
  rw [wp_bind]
  apply wp_post (writeSweep_spec h v w)
  rintro _ _ rfl
  rw [hw, wp_bind, wp_printf, wp_bind, ← downAddr_zero]
  -- the sweep that reads follows the scan cell by cell
  apply wp_loop_count (fun k c u => c.1 = downAddr n k ∧ Swept (fun _ => ⟨addr, readback, v⟩) t
      testResult (scan bus n (fun k => (downAddr n k, v)) (filled bus n v t.mem) k) c.2 u)
      (cellCount n) _ _ _ 0 (Nat.zero_le _) hpasses
  · constructor
    · rfl
    · refine ⟨rfl, hqw.printf [] (by decide) (by decide), by simp [scan], ?_⟩
      rw [reports_bare, hrw, reports_bare]
      simp [scan]
  · rintro k hk ⟨a, res⟩ u ⟨rfl, hs⟩
    constructor
    · exact decide_eq_true ((base_le_downAddr_iff h hk.le).mpr hk)
    rw [wp_bind]
    apply wp_post (checkCell_swept h hs (fun _ => rfl))
    intro r x hx
    exact ⟨downAddr_succ n k, hx⟩
  · rintro ⟨a, res⟩ u ⟨rfl, hs⟩
    constructor
    · exact decide_eq_false fun hle => lt_irrefl _ ((base_le_downAddr_iff h le_rfl).mp hle)
    · exact ⟨rfl, hs⟩

theorem append_ne_nil_iff (l l' : List Failure) : l ++ l' ≠ [] ↔ l ≠ [] ∨ l' ≠ [] := by
  rw [ne_eq, List.append_eq_nil_iff, not_and_or]

theorem marchTest_reports (bus : Bus μ) (h : Accepted n) (addr readback : Word) (m : μ) :
    wp (marchTest bus addr readback (BitVec.ofNat 32 n)) (fun _ t =>
      reports t.output = (marchScans bus n m).1.map (fun _ => ⟨addr, readback, 1⟩) ++
        (marchScans bus n m).2.map (fun _ => ⟨addr, readback, ~~~1⟩) ∧
      (failedText ∈ t.output ↔ (marchScans bus n m).1 ++ (marchScans bus n m).2 ≠ []))
      never ⟨m, []⟩ := by
  have hsize : ¬ (BitVec.ofNat 32 n ≠ 1 ∧ BitVec.ofNat 32 n ≠ 4) := by
    rcases h with rfl | rfl <;> simp
  rw [marchTest, wp_bind, wp_printf, if_neg hsize, wp_bind]
  apply wp_post (clearSDRAM_fill bus _)
  rintro _ _ rfl
  have hq : Quiet [Output.printf "\n\rPerforming memory march test (%d-byte access)"
      [.word (BitVec.ofNat 32 n)]] := Quiet.nil.printf _ (by decide) (by decide)
  rw [wp_bind]
  apply wp_post (marchPass_swept h addr readback 1 false hq)
  rintro ⟨v, res⟩ u ⟨rfl, hfirst⟩
  rw [wp_bind]
  apply wp_post (marchPass_swept h addr readback (~~~1) res hfirst.quiet)
  rintro ⟨v', res'⟩ w ⟨-, hsecond⟩
  rw [hfirst.mem] at hsecond
  have hresult : res' = true ↔ (marchScans bus n m).1 ++ (marchScans bus n m).2 ≠ [] := by
    rw [hsecond.result, hfirst.result, or_iff_right Bool.false_ne_true, append_ne_nil_iff]
    exact Iff.rfl
  apply wp_post (verdict_reports hresult hsecond.quiet)
  rintro _ x ⟨hx, hfailed⟩
  constructor
  · rw [hx, hsecond.reports, hfirst.reports]
    rfl
  · exact hfailed

/-! ## The address test -/

def opening (n : ℕ) : List Output :=
  [.printf "\n\r  * writing" [],
    .printf "\n\rPerforming memory address test (%d-byte access)" [.word (BitVec.ofNat 32 n)]]

theorem quiet_opening (n : ℕ) : Quiet (.printf "\n\r  * reading" [] :: opening n) :=
  ((Quiet.nil.printf _ (by decide) (by decide)).printf [] (by decide) (by decide)).printf []
    (by decide) (by decide)

theorem addressTest_reports (bus : Bus μ) (h : Accepted n) (readback : Word) (m : μ) :
    wp (addressTest bus readback (BitVec.ofNat 32 n)) (fun _ t =>
      reports t.output = (addressScan bus n m).map
        (fun f => ⟨f.addr, readback, BitVec.ofNat 32 (index n f.addr)⟩) ∧
      (failedText ∈ t.output ↔ addressScan bus n m ≠ [])) never ⟨m, []⟩ := by
  have hpasses : cellCount n < passes + 0 := (Nat.div_le_self _ _).trans_lt (by decide)
  have hsize : ¬ (BitVec.ofNat 32 n ≠ 1 ∧ BitVec.ofNat 32 n ≠ 4) := by
    rcases h with rfl | rfl <;> simp
  have hnext : ∀ k : ℕ, BitVec.ofNat 32 k + 1 = BitVec.ofNat 32 (k + 1) := fun k => by
    rw [BitVec.ofNat_add]
    rfl
  rw [addressTest, wp_bind, wp_printf, if_neg hsize, wp_bind, wp_printf, wp_bind]
  -- the sweep that writes
  apply wp_loop_count (fun k c u => c = (cellAddr n k, BitVec.ofNat 32 k) ∧
      u = ⟨fillNumbers bus n m k, opening n⟩) (cellCount n) _ _ _ 0 (Nat.zero_le _) hpasses
  · constructor
    · rw [cellAddr_zero]
      rfl
    · rfl
  · rintro k hk _ _ ⟨rfl, rfl⟩
    constructor
    · exact decide_eq_true (cellAddr_lt_end (h.mul_lt hk))
    · rw [wp_bind, wp_storeValue h, wp_pure]
      exact ⟨by rw [cellAddr_succ, hnext], rfl⟩
  rintro _ _ ⟨rfl, rfl⟩
  constructor
  · exact decide_eq_false (cellAddr_count h)
  rw [wp_bind, wp_printf, wp_bind]
  -- the sweep that reads follows the scan cell by cell
  apply wp_loop_count (fun k c u => c.1 = cellAddr n k ∧ c.2.1 = BitVec.ofNat 32 k ∧
      Swept (fun f => ⟨f.addr, readback, BitVec.ofNat 32 (index n f.addr)⟩)
        ⟨fillNumbers bus n m (cellCount n), .printf "\n\r  * reading" [] :: opening n⟩ false
        (scan bus n (fun k => (cellAddr n k, BitVec.ofNat 32 k))
          (fillNumbers bus n m (cellCount n)) k) c.2.2 u)
      (cellCount n) _ _ _ 0 (Nat.zero_le _) hpasses
  · exact ⟨(cellAddr_zero n).symm, rfl, Swept.nil (quiet_opening n) false⟩
  · rintro k hk ⟨a, v, res⟩ u ⟨rfl, rfl, hs⟩
    constructor
    · exact decide_eq_true (cellAddr_lt_end (h.mul_lt hk))
    rw [wp_bind]
    apply wp_post (checkCell_swept h hs (fun r => by rw [index_cellAddr h hk]))
    intro r x hx
    exact ⟨cellAddr_succ n k, hnext k, hx⟩
  · rintro ⟨a, v, res⟩ u ⟨rfl, rfl, hs⟩
    constructor
    · exact decide_eq_false (cellAddr_count h)
    have hresult : res = true ↔ addressScan bus n m ≠ [] := by
      rw [hs.result]
      simp [addressScan]
    apply wp_post (verdict_reports hresult hs.quiet)
    rintro _ x ⟨hx, hfailed⟩
    constructor
    · rw [hx, hs.reports]
      rfl
    · exact hfailed

/-! ## When the reports are accurate -/

theorem scan_mem {cell : ℕ → Word × Word} {m : μ} {f : Failure} {k : ℕ}
    (hf : f ∈ (scan bus n cell m k).1) :
    ∃ i < k, f.addr = (cell i).1 ∧ f.expected = truncated n (cell i).2 := by
  induction k with
  | zero => cases hf
  | succ k ih =>
    have hlast : f ∈ (scan bus n cell m k).1 →
        ∃ i < k + 1, f.addr = (cell i).1 ∧ f.expected = truncated n (cell i).2 := by
      intro hold
      rcases ih hold with ⟨i, hi, hcell⟩
      exact ⟨i, by omega, hcell⟩
    rw [scan] at hf
    split at hf
    · exact hlast hf
    · rcases List.mem_append.mp hf with hold | hnew
      · exact hlast hold
      · rw [List.mem_singleton.mp hnew]
        exact ⟨k, Nat.lt_succ_self k, rfl, rfl⟩

theorem mem_scan (bus : Bus μ) (n : ℕ) (cell : ℕ → Word × Word) (m : μ) {k N : ℕ} (hk : k < N)
    (hne : (bus.read n (cell k).1 (scan bus n cell m k).2).1 ≠ truncated n (cell k).2) :
    ⟨(cell k).1, (bus.read n (cell k).1 (scan bus n cell m k).2).1, truncated n (cell k).2⟩ ∈
      (scan bus n cell m N).1 := by
  induction N with
  | zero => exact absurd hk (Nat.not_lt_zero k)
  | succ N ih =>
    rcases Nat.lt_succ_iff_lt_or_eq.mp hk with hlt | rfl
    · rw [scan]
      split
      · exact ih hlt
      · exact List.mem_append_left _ (ih hlt)
    · rw [scan, if_neg hne]
      exact List.mem_append_right _ (List.mem_singleton_self _)

/-- The values a pass prints are those of each of its failures. -/
def PassHonest (addr readback v : Word) (n : ℕ) (failures : List Failure) : Prop :=
  ∀ f ∈ failures, f.addr = addr ∧ f.found = readback ∧ truncated n v = v

theorem map_const_eq_iff {addr readback v : Word} {l : List Failure}
    (hexpected : ∀ f ∈ l, f.expected = truncated n v) :
    l.map (fun _ => (⟨addr, readback, v⟩ : Failure)) = l ↔ PassHonest addr readback v n l := by
  have hid := List.map_inj_left (l := l) (f := fun _ => (⟨addr, readback, v⟩ : Failure)) (g := id)
  rw [List.map_id] at hid
  rw [hid, PassHonest]
  apply forall₂_congr
  intro f hf
  have he := hexpected f hf
  cases f with
  | mk a r e =>
    simp only [id, Failure.mk.injEq] at he ⊢
    rw [he]
    exact and_congr eq_comm (and_congr eq_comm eq_comm)

theorem map_append_eq_iff {g h : Failure → Failure} {l l' : List Failure} :
    l.map g ++ l'.map h = l ++ l' ↔ l.map g = l ∧ l'.map h = l' := by
  constructor
  · intro heq
    exact List.append_inj heq (List.length_map _)
  · rintro ⟨hl, hl'⟩
    rw [hl, hl']

theorem marchScans_expected (bus : Bus μ) (n : ℕ) (m : μ) :
    (∀ f ∈ (marchScans bus n m).1, f.expected = truncated n 1) ∧
      ∀ f ∈ (marchScans bus n m).2, f.expected = truncated n (~~~1) := by
  have hexpected : ∀ v m', ∀ f ∈ (marchScan bus n v m').1, f.expected = truncated n v := by
    intro v m' f hf
    rcases scan_mem hf with ⟨i, -, -, he⟩
    exact he
  exact ⟨hexpected _ _, hexpected _ _⟩

/-- The numbers fit the access size, and the value printed for what was found is the one found. -/
def NumbersHonest (readback : Word) (n : ℕ) (failures : List Failure) : Prop :=
  ∀ f ∈ failures, f.found = readback ∧
    truncated n (BitVec.ofNat 32 (index n f.addr)) = BitVec.ofNat 32 (index n f.addr)

theorem map_number_eq_iff (h : Accepted n) (readback : Word) (m : μ) :
    (addressScan bus n m).map
      (fun f => (⟨f.addr, readback, BitVec.ofNat 32 (index n f.addr)⟩ : Failure)) =
      addressScan bus n m ↔ NumbersHonest readback n (addressScan bus n m) := by
  have hid := List.map_inj_left (l := addressScan bus n m)
    (f := fun f => (⟨f.addr, readback, BitVec.ofNat 32 (index n f.addr)⟩ : Failure)) (g := id)
  rw [List.map_id] at hid
  rw [hid, NumbersHonest]
  apply forall₂_congr
  intro f hf
  rcases scan_mem hf with ⟨i, hi, ha, he⟩
  rw [ha, index_cellAddr h hi]
  cases f with
  | mk a r e =>
    simp only [id, Failure.mk.injEq] at ha he ⊢
    rw [ha, he]
    exact ⟨fun heq => ⟨heq.2.1.symm, heq.2.2.symm⟩, fun heq => ⟨rfl, heq.1.symm, heq.2.symm⟩⟩

/-- A test with the right verdict is accurate exactly if its reports are. -/
theorem accurate_iff_reports {x : Test μ Unit} {m : μ} {t : Tester μ} {failures : List Failure}
    (hrun : x ⟨m, []⟩ = .ok () t) (hfailed : failedText ∈ t.output ↔ failures ≠ []) :
    Accurate x m failures ↔ reports t.output = failures := by
  constructor
  · rintro ⟨t', hrun', hreports, -⟩
    rw [hrun] at hrun'
    cases hrun'
    exact hreports
  · intro hreports
    exact ⟨t, hrun, hreports, hfailed⟩

theorem marchTest_accurate_iff (bus : Bus μ) (h : Accepted n) (addr readback : Word) (m : μ) :
    Accurate (marchTest bus addr readback (BitVec.ofNat 32 n)) m
      ((marchScans bus n m).1 ++ (marchScans bus n m).2) ↔
        PassHonest addr readback 1 n (marchScans bus n m).1 ∧
          PassHonest addr readback (~~~1) n (marchScans bus n m).2 := by
  rcases wp_never.mp (marchTest_reports bus h addr readback m) with
    ⟨_, t, hrun, hreports, hfailed⟩
  have hexpected := marchScans_expected bus n m
  rw [accurate_iff_reports hrun hfailed, hreports, map_append_eq_iff, map_const_eq_iff hexpected.1,
    map_const_eq_iff hexpected.2]

theorem addressTest_accurate_iff (bus : Bus μ) (h : Accepted n) (readback : Word) (m : μ) :
    Accurate (addressTest bus readback (BitVec.ofNat 32 n)) m (addressScan bus n m) ↔
      NumbersHonest readback n (addressScan bus n m) := by
  rcases wp_never.mp (addressTest_reports bus h readback m) with
    ⟨_, t, hrun, hreports, hfailed⟩
  rw [accurate_iff_reports hrun hfailed, hreports, map_number_eq_iff h]

/-- Over every memory the march test is accurate if and only if the values it prints happen to be
those of each of its failures, and so is the address test. -/
theorem memoryReports_accurate_iff (bus : Bus μ) (m : μ) (n : ℕ) (h : Accepted n)
    (addr readback readback' : Word) :
    (Accurate (marchTest bus addr readback (BitVec.ofNat 32 n)) m
      ((marchScans bus n m).1 ++ (marchScans bus n m).2) ↔
        PassHonest addr readback 1 n (marchScans bus n m).1 ∧
          PassHonest addr readback (~~~1) n (marchScans bus n m).2) ∧
    (Accurate (addressTest bus readback' (BitVec.ofNat 32 n)) m (addressScan bus n m) ↔
      NumbersHonest readback' n (addressScan bus n m)) :=
  ⟨marchTest_accurate_iff bus h addr readback m, addressTest_accurate_iff bus h readback' m⟩

def deadBus : Bus Unit where
  loadByte _ m := (0, m)
  loadWord _ m := (0, m)
  storeByte _ _ m := m
  storeWord _ _ m := m

theorem memoryReports_accurate_iff_dead :
    (Accurate (marchTest deadBus 0 0 (BitVec.ofNat 32 4)) ()
      ((marchScans deadBus 4 ()).1 ++ (marchScans deadBus 4 ()).2) ↔
        PassHonest 0 0 1 4 (marchScans deadBus 4 ()).1 ∧
          PassHonest 0 0 (~~~1) 4 (marchScans deadBus 4 ()).2) ∧
    (Accurate (addressTest deadBus 0 (BitVec.ofNat 32 4)) () (addressScan deadBus 4 ()) ↔
      NumbersHonest 0 4 (addressScan deadBus 4 ())) :=
  memoryReports_accurate_iff deadBus () 4 (Or.inr rfl) 0 0 0

theorem deadBus_fails (m : Unit) :
    (⟨downAddr 4 0, 0, 1⟩ : Failure) ∈ (marchScans deadBus 4 m).1 := by
  have hne : (0 : Word) ≠ 1 := by decide
  have hcount : 0 < cellCount 4 := by decide
  have hmem := mem_scan deadBus 4 (fun k => (downAddr 4 k, 1))
    (filled deadBus 4 1 (filled deadBus 4 0 m)) hcount hne
  rw [marchScans, marchScan]
  exact hmem

/-- The march test of a dead memory reports the contents of its variables. -/
theorem memoryReports_inaccurate : ¬ ∀ (bus : Bus Unit) (m : Unit) (n : ℕ), Accepted n →
    ∀ addr readback readback' : Word,
      Accurate (marchTest bus addr readback (BitVec.ofNat 32 n)) m
        ((marchScans bus n m).1 ++ (marchScans bus n m).2) ∧
      Accurate (addressTest bus readback' (BitVec.ofNat 32 n)) m (addressScan bus n m) := by
  intro h
  have hmarch := (h deadBus () 4 (Or.inr rfl) 0 0 0).1
  rw [marchTest_accurate_iff deadBus (Or.inr rfl)] at hmarch
  have haddr := (hmarch.1 _ (deadBus_fails ())).1
  exact absurd (show downAddr 4 0 = 0 from haddr) (by decide)

end Armboard.MemoryTest
