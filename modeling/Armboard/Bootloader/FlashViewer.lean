import Armboard.Bootloader.BootSection
import Armboard.DataFlash.Range

/-! # What the flash viewer shows

`AT91F_MemoryDisplay` fills one buffer line after line and looks at no status. A line
inside the array shows the flash; every other line shows either what the buffer held
before or the bytes of an alias, so the view is right for requests inside the array.
-/

namespace Armboard.Bootloader
open Exec DataFlash Storage

/-! ## Lines -/

/-- A line of the display: where it begins, its elements, and what is sent for its characters. -/
structure Line where
  addr : Word
  elements : List Word
  text : List Output

def charOutput (c : Byte) : Output :=
  if c < 0x20 ∨ 0x7E < c then .printf ".." [] else .printf "%c " [.word (c.setWidth 32)]

def Line.output (size : Word) (l : Line) : List Output :=
  .printf "%08x:" [.word l.addr] ::
    (l.elements.map (fun v => .printf (elementFormat size) [.word v]) ++
      .printf "    " [] :: (l.text ++ [.printf "\n\r" []]))

/-- The lines on the terminal, behind the elements and the characters that come before the first
address. -/
def readOutput (size : Word) : List Output → List Word × List Output × List Line
  | [] => ([], [], [])
  | .printf format args :: rest =>
    let r := readOutput size rest
    match args with
    | [.word v] =>
      if format = "%08x:" then ([], [], ⟨v, r.1, r.2.1⟩ :: r.2.2)
      else if format = elementFormat size then (v :: r.1, r.2)
      else (r.1, .printf format args :: r.2.1, r.2.2)
    | _ => if format = ".." then (r.1, .printf format args :: r.2.1, r.2.2) else r
  | .echo _ :: rest => readOutput size rest

def readLines (size : Word) (l : List Output) : List Line := (readOutput size l).2.2

/-- The little-endian element of `n` bytes at a flash address. -/
def flashElement (f : ℕ → Byte) (a : ℕ) : ℕ → Word
  | 0 => 0
  | n + 1 => (f a).setWidth 32 + flashElement f (a + 1) n <<< 8

/-- The bytes that a request of `total` bytes leaves for its line at `a`. -/
def lineBytes (addr : Word) (total : ℕ) (a : Word) : ℕ := min 16 (total - (a - addr).toNat)

/-- A line of `count` bytes is right: its elements are those of the flash, and it is bare if its
bytes are not all in the array. -/
structure Line.Truthful (f : ℕ → Byte) (size : Word) (count : ℕ) (l : Line) : Prop where
  element : ∀ i v, l.elements[i]? = some v →
    v = flashElement f (l.addr.toNat + size.toNat * i) size.toNat
  outside : arraySize < l.addr.toNat + count → l.elements = [] ∧ l.text = []

/-- The request shows the truth: every line that it puts on the terminal is right. -/
def ShowsTruth {γ : Type} (rom : Rom γ) (addr size length : Word) (w : World) : Prop :=
  ∃ (t : World) (shown : List Output), memoryDisplay rom addr size length true w = .ok () t ∧
    t.output = shown.reverse ++ w.output ∧ ∀ l ∈ readLines size shown,
      l.Truthful w.board.chip.flash size (lineBytes addr (length * size).toNat l.addr)

/-! ## Sending a line -/

theorem wp_forM_output {ι : Type} {x : ι → Monitor Unit} {f : ι → Output}
    (hx : ∀ i w (Q : Unit → World → Prop), wp (x i) Q never w ↔
      Q () { w with output := f i :: w.output }) (l : List ι) (w : World)
    (Q : Unit → World → Prop) :
    wp (l.forM x) Q never w ↔ Q () { w with output := (l.map f).reverse ++ w.output } := by
  induction l generalizing w with
  | nil => exact Iff.rfl
  | cons i l ih =>
    change wp (x i >>= fun _ => l.forM x) Q never w ↔ _
    rw [wp_bind, hx, ih]
    simp

theorem wp_showChar (c : Byte) (w : World) (Q : Unit → World → Prop) :
    wp (showChar c) Q never w ↔ Q () { w with output := charOutput c :: w.output } := by
  unfold showChar charOutput
  split
  · exact Iff.rfl
  · exact Iff.rfl

theorem littleEndian_eq {m : Word → Byte} {buffer : Word} {f : ℕ → Byte} (n : ℕ) : ∀ i a : ℕ,
    (∀ j < n, view m buffer (i + j) = f (a + j)) →
    littleEndian m (buffer + BitVec.ofNat 32 i) n = flashElement f a n := by
  induction n with
  | zero => exact fun _ _ _ => rfl
  | succ n ih =>
    intro i a h
    have hhead : m (buffer + BitVec.ofNat 32 i) = f a := h 0 (Nat.succ_pos n)
    have hnext : buffer + BitVec.ofNat 32 i + 1 = buffer + BitVec.ofNat 32 (i + 1) := by
      rw [BitVec.add_assoc, BitVec.ofNat_add]
      rfl
    rw [littleEndian, flashElement, hhead, hnext, ih (i + 1) (a + 1)]
    intro j hj
    rw [Nat.add_assoc, Nat.add_comm 1 j, Nat.add_assoc a, Nat.add_comm 1 j]
    exact h (j + 1) (by omega)

def ElementSize (size : Word) : Prop := size = 1 ∨ size = 2 ∨ size = 4

theorem elementWidth_eq {size : Word} (h : ElementSize size) : elementWidth size = size.toNat := by
  rcases h with rfl | rfl | rfl
  · rfl
  · rfl
  · rfl

def shownLine (m : Word → Byte) (buffer addr size : Word) (count : ℕ) : Line where
  addr := addr
  elements := (List.range (count / size.toNat)).map fun i =>
    littleEndian m (buffer + BitVec.ofNat 32 (size.toNat * i)) size.toNat
  text := (List.range count).map fun i => charOutput (m (buffer + BitVec.ofNat 32 i))

theorem shownLine_text (m : Word → Byte) (buffer addr size : Word) (count : ℕ) :
    ∃ bytes : List Byte, (shownLine m buffer addr size count).text = bytes.map charOutput :=
  ⟨(List.range count).map fun i => m (buffer + BitVec.ofNat 32 i), by simp [shownLine]⟩

variable {γ : Type} {rom : Rom γ} {addr size : Word} {w : World}

/-- One line: the buffer is shown as the read leaves it, whatever the read returned. -/
theorem displayLine_spec (hb : Installed w.board) (hs : ElementSize size) (linebytes : Word) :
    wp (displayLine rom addr size linebytes (linebytes.toNat / size.toNat) true) (fun _ t =>
      Fetched w.board t.board addr rom.linebuf
        (delivered ((linebytes / size * size).toNat + 1) addr (linebytes / size * size)) ∧
      t.output = ((shownLine t.board.mem rom.linebuf addr size linebytes.toNat).output size).reverse ++
        w.output) never w := by
  rw [displayLine, wp_bind, printf, wp_modify, wp_bind, fetchLine, if_pos rfl, wp_bind, wp_onBoard]
  apply wp_post (readDataflash_spec hb addr (linebytes / size * size) rom.linebuf)
  rintro _ b ⟨-, hf⟩
  rw [wp_pure, wp_bind, wp_get, wp_bind, wp_forM_output (fun _ _ _ => Iff.rfl), wp_bind, printf,
    wp_modify, wp_bind, wp_forM_output (fun _ _ _ => wp_showChar _ _ _)]
  constructor
  · exact hf
  · simp [shownLine, Line.output, elementWidth_eq hs, Function.comp_def]

/-! ## When a line is right -/

theorem ElementSize.pos (hs : ElementSize size) : 0 < size.toNat := by
  rcases hs with rfl | rfl | rfl
  · decide
  · decide
  · decide

theorem div_mul_size {linebytes : Word}
    (hdvd : size.toNat ∣ linebytes.toNat) : linebytes / size * size = linebytes := by
  have hlt := linebytes.isLt
  apply BitVec.eq_of_toNat_eq
  rw [BitVec.toNat_mul, BitVec.toNat_udiv, Nat.div_mul_cancel hdvd, Nat.mod_eq_of_lt hlt]

theorem shownLine_inside {m : Word → Byte} {f : ℕ → Byte} {count : ℕ}
    (hm : ∀ i < count, view m rom.linebuf i = f (addr.toNat + i))
    (hin : addr.toNat + count ≤ arraySize) :
    (shownLine m rom.linebuf addr size count).Truthful f size count := by
  constructor
  · intro i v hv
    have hmap := List.getElem?_eq_some_iff.mp hv
    rcases hmap with ⟨hlt, rfl⟩
    simp only [shownLine, List.length_map, List.length_range] at hlt
    have hlast : size.toNat * (i + 1) ≤ count :=
      (Nat.mul_le_mul_left _ hlt).trans (Nat.mul_div_le count size.toNat)
    rw [Nat.mul_succ] at hlast
    simp only [shownLine, List.getElem_map, List.getElem_range]
    apply littleEndian_eq
    intro j hj
    rw [hm _ (by omega), Nat.add_assoc]
  · intro hout
    exact absurd hout (Nat.not_lt.mpr hin)

/-- A line with bytes outside the array is not bare. -/
theorem shownLine_outside {m : Word → Byte} {f : ℕ → Byte} {count : ℕ} (hs : ElementSize size)
    (hdvd : size.toNat ∣ count) (hpos : 0 < count) (hout : arraySize < addr.toNat + count) :
    ¬ (shownLine m rom.linebuf addr size count).Truthful f size count := by
  intro h
  have hbare := congrArg List.length (h.outside hout).1
  have hdiv : 0 < count / size.toNat := Nat.div_pos (Nat.le_of_dvd hpos hdvd) hs.pos
  simp only [shownLine, List.length_map, List.length_range, List.length_nil] at hbare
  omega

/-- A line is right exactly if it is empty or its bytes are all in the array. -/
theorem shownLine_truthful_iff {t : Board} {linebytes : Word} (hs : ElementSize size)
    (hdvd : size.toNat ∣ linebytes.toNat) (hle : linebytes.toNat ≤ 16)
    (hf : Fetched w.board t addr rom.linebuf (delivered (linebytes.toNat + 1) addr linebytes)) :
    (shownLine t.mem rom.linebuf addr size linebytes.toNat).Truthful w.board.chip.flash size
      linebytes.toNat ↔ linebytes.toNat = 0 ∨ addr.toNat + linebytes.toNat ≤ arraySize := by
  constructor
  · intro h
    by_contra hno
    rw [not_or, Nat.not_le] at hno
    exact shownLine_outside hs hdvd (Nat.pos_of_ne_zero hno.1) hno.2 h
  · rintro (hzero | hin)
    · rw [hzero]
      constructor
      · intro i v hv
        simp [shownLine] at hv
      · intro _
        simp [shownLine]
    · apply shownLine_inside _ hin
      intro i hi
      rw [delivered_eq _ _ _ (Nat.lt_succ_self _) hin] at hf
      rw [hf.mem, view_store_lt _ _ _ hi (by omega), readCell_eq (by omega)]

/-! ## The loop over the lines -/

def nextBytes (nbytes : Word) : Word := if 16 < nbytes then 16 else nbytes

theorem nextBytes_toNat (nbytes : Word) : (nextBytes nbytes).toNat = min 16 nbytes.toNat := by
  unfold nextBytes
  split
  · rename_i h
    rw [BitVec.lt_def] at h
    simp only [BitVec.reduceToNat] at h ⊢
    omega
  · rename_i h
    rw [BitVec.lt_def] at h
    simp only [BitVec.reduceToNat] at h
    omega

theorem nextBytes_dvd (hs : ElementSize size) {nbytes : Word} (h : size.toNat ∣ nbytes.toNat) :
    size.toNat ∣ (nextBytes nbytes).toNat := by
  rw [nextBytes_toNat]
  rcases Nat.le_total 16 nbytes.toNat with hle | hle
  · rw [Nat.min_eq_left hle]
    rcases hs with rfl | rfl | rfl
    · decide
    · decide
    · decide
  · rwa [Nat.min_eq_right hle]

theorem sub_nextBytes_toNat (nbytes : Word) :
    (nbytes - nextBytes nbytes).toNat = nbytes.toNat - min 16 nbytes.toNat := by
  have h := nextBytes_toNat nbytes
  have hlt := nbytes.isLt
  rw [BitVec.toNat_sub, h]
  omega

/-- A full line ends where the next one begins. -/
theorem elements_mul_size {linebytes : Word} (hdvd : size.toNat ∣ linebytes.toNat) :
    BitVec.ofNat 32 (linebytes.toNat / size.toNat) * size = linebytes := by
  have hlt := linebytes.isLt
  have hle : linebytes.toNat / size.toNat ≤ linebytes.toNat := Nat.div_le_self _ _
  apply BitVec.eq_of_toNat_eq
  rw [BitVec.toNat_mul, BitVec.toNat_ofNat, Nat.mod_eq_of_lt (hle.trans_lt hlt),
    Nat.div_mul_cancel hdvd, Nat.mod_eq_of_lt hlt]

theorem elements_count (hs : ElementSize size) {n : ℕ} (hdvd : size.toNat ∣ n) :
    (n + size.toNat - 1) / size.toNat = n / size.toNat := by
  rcases hs with rfl | rfl | rfl
  · simp
  · simp only [BitVec.reduceToNat] at hdvd ⊢
    omega
  · simp only [BitVec.reduceToNat] at hdvd ⊢
    omega

/-- The lines from address `a` on are right exactly if the rest of the request fits the array. -/
structure Shown (size a nbytes : Word) (w t : World) (lines : List Line) : Prop where
  output : t.output = (lines.flatMap (Line.output size)).reverse ++ w.output
  text : ∀ l ∈ lines, ∃ bytes : List Byte, l.text = bytes.map charOutput
  truthful_iff : ∀ (addr : Word) (total : ℕ), total < 2 ^ 32 →
    (a - addr).toNat + nbytes.toNat = total →
      ((∀ l ∈ lines, l.Truthful w.board.chip.flash size (lineBytes addr total l.addr)) ↔
        nbytes.toNat = 0 ∨ a.toNat + nbytes.toNat ≤ arraySize)

/-- The first line of such a rest, from `w` to `t`. -/
structure LineShown (size a nbytes : Word) (w t : World) (l : Line) : Prop where
  addr : l.addr = a
  output : t.output = (l.output size).reverse ++ w.output
  text : ∃ bytes : List Byte, l.text = bytes.map charOutput
  flash : t.board.chip.flash = w.board.chip.flash
  truthful_iff : l.Truthful w.board.chip.flash size (nextBytes nbytes).toNat ↔
    (nextBytes nbytes).toNat = 0 ∨ a.toNat + (nextBytes nbytes).toNat ≤ arraySize

variable {a nbytes : Word} {t u : World} {l : Line} {lines : List Line}

theorem LineShown.count (addr : Word) {total : ℕ}
    (htotal : (a - addr).toNat + nbytes.toNat = total) :
    lineBytes addr total a = (nextBytes nbytes).toNat := by
  rw [lineBytes, nextBytes_toNat]
  omega

theorem displayLine_shown (hb : Installed w.board) (hs : ElementSize size)
    (hdvd : size.toNat ∣ nbytes.toNat) :
    wp (displayLine rom a size (nextBytes nbytes) ((nextBytes nbytes).toNat / size.toNat) true)
      (fun _ t => Installed t.board ∧ ∃ l, LineShown size a nbytes w t l) never w := by
  have hnext := nextBytes_toNat nbytes
  have hndvd := nextBytes_dvd hs hdvd
  apply wp_post (displayLine_spec hb hs (nextBytes nbytes))
  rintro _ t ⟨hf, ht⟩
  rw [div_mul_size hndvd] at hf
  refine ⟨hf.installed, shownLine t.board.mem rom.linebuf a size (nextBytes nbytes).toNat, ?_⟩
  constructor
  · rfl
  · exact ht
  · exact shownLine_text ..
  · exact hf.flash
  · exact shownLine_truthful_iff hs hndvd (by omega) hf

theorem LineShown.last (h : LineShown size a nbytes w t l) (hall : nbytes.toNat ≤ 16) :
    Shown size a nbytes w t [l] := by
  have hnext := nextBytes_toNat nbytes
  rw [Nat.min_eq_right hall] at hnext
  constructor
  · simpa using h.output
  · exact List.forall_mem_singleton.mpr h.text
  · intro addr total _ htotal
    rw [List.forall_mem_singleton, h.addr, LineShown.count addr htotal, h.truthful_iff, hnext]

theorem LineShown.cons (h : LineShown size a nbytes w t l) (hmore : 16 < nbytes.toNat)
    (hu : Shown size (a + nextBytes nbytes) (nbytes - nextBytes nbytes) t u lines) :
    Shown size a nbytes w u (l :: lines) := by
  have hnext := nextBytes_toNat nbytes
  have hrest := sub_nextBytes_toNat nbytes
  constructor
  · rw [hu.output, h.output]
    simp
  · exact List.forall_mem_cons.mpr ⟨h.text, hu.text⟩
  · intro addr total hbound htotal
    have ha := a.isLt
    have hstep : (a + nextBytes nbytes - addr).toNat = (a - addr).toNat + 16 := by
      rw [add_sub_right_comm, BitVec.toNat_add, hnext]
      omega
    have htail := hu.truthful_iff addr total hbound (by omega)
    rw [h.flash] at htail
    rw [List.forall_mem_cons, htail, h.addr, LineShown.count addr htotal, h.truthful_iff,
      BitVec.toNat_add]
    simp only [arraySize_eq]
    omega

theorem displayLines_spec (hs : ElementSize size) (fuel : ℕ) : ∀ (a nbytes : Word) (w : World),
    Installed w.board → size.toNat ∣ nbytes.toNat → nbytes.toNat / 16 < fuel →
    wp (displayLines rom size true fuel a nbytes)
      (fun _ t => ∃ lines, Shown size a nbytes w t lines) never w := by
  induction fuel with
  | zero =>
    intro a nbytes w _ _ hfuel
    omega
  | succ fuel ih =>
    intro a nbytes w hb hdvd hfuel
    have hnext := nextBytes_toNat nbytes
    have hndvd := nextBytes_dvd hs hdvd
    have hrest := sub_nextBytes_toNat nbytes
    have hlt := nbytes.isLt
    change wp (displayLine rom a size (nextBytes nbytes)
      (((nextBytes nbytes).toNat + size.toNat - 1) / size.toNat) true >>= fun _ =>
        if nbytes - nextBytes nbytes = 0 then pure ()
        else displayLines rom size true fuel (a + BitVec.ofNat 32
          (((nextBytes nbytes).toNat + size.toNat - 1) / size.toNat) * size)
          (nbytes - nextBytes nbytes)) _ _ _
    rw [wp_bind, elements_count hs hndvd, elements_mul_size hndvd]
    apply wp_post (displayLine_shown hb hs hdvd)
    rintro _ t ⟨ht, l, hl⟩
    by_cases hlast : nbytes - nextBytes nbytes = 0
    · have hall : nbytes.toNat ≤ 16 := by
        rw [hlast] at hrest
        simp only [BitVec.reduceToNat] at hrest
        omega
      rw [if_pos hlast, wp_pure]
      exact ⟨[l], hl.last hall⟩
    · have hmore : 16 < nbytes.toNat := by
        by_contra hle
        exact hlast (BitVec.eq_of_toNat_eq (by rw [hrest]; simp only [BitVec.reduceToNat]; omega))
      have hrestdvd : size.toNat ∣ (nbytes - nextBytes nbytes).toNat := by
        rw [hrest, ← hnext]
        exact Nat.dvd_sub hdvd hndvd
      rw [if_neg hlast]
      apply wp_post (ih _ _ t ht hrestdvd (by omega))
      rintro _ u ⟨lines, hu⟩
      exact ⟨l :: lines, hl.cons hmore hu⟩

/-! ## Reading the terminal -/

theorem readOutput_word (size : Word) (format : String) (v : Word) (l : List Output) :
    readOutput size (.printf format [.word v] :: l) =
      if format = "%08x:" then
        ([], [], ⟨v, (readOutput size l).1, (readOutput size l).2.1⟩ :: (readOutput size l).2.2)
      else if format = elementFormat size then (v :: (readOutput size l).1, (readOutput size l).2)
      else ((readOutput size l).1, .printf format [.word v] :: (readOutput size l).2.1,
        (readOutput size l).2.2) := rfl

theorem readOutput_bare (size : Word) (format : String) (l : List Output) :
    readOutput size (.printf format [] :: l) = if format = ".." then
      ((readOutput size l).1, .printf format [] :: (readOutput size l).2.1, (readOutput size l).2.2)
      else readOutput size l := rfl

theorem elementFormat_ne (size : Word) :
    elementFormat size ≠ "%08x:" ∧ elementFormat size ≠ "%c " := by
  unfold elementFormat
  split
  · decide
  split
  · decide
  · decide

theorem readOutput_text (size : Word) (bytes : List Byte) (l : List Output) :
    readOutput size (bytes.map charOutput ++ l) =
      ((readOutput size l).1, bytes.map charOutput ++ (readOutput size l).2.1,
        (readOutput size l).2.2) := by
  induction bytes with
  | nil => rfl
  | cons b bytes ih =>
    have hformat := (elementFormat_ne size).2.symm
    rw [List.map_cons, List.cons_append, charOutput]
    split
    · rw [readOutput_bare, ih]
      simp
    · rw [readOutput_word, ih]
      simp [hformat]

theorem readOutput_elements (size : Word) (elements : List Word) (l : List Output) :
    readOutput size (elements.map (fun v => .printf (elementFormat size) [.word v]) ++ l) =
      (elements ++ (readOutput size l).1, (readOutput size l).2) := by
  induction elements with
  | nil => rfl
  | cons v elements ih =>
    rw [List.map_cons, List.cons_append, readOutput_word, ih]
    simp [(elementFormat_ne size).1]

/-- The terminal shows the lines that were sent, and nothing in front of them. -/
theorem readOutput_lines (size : Word) (lines : List Line)
    (htext : ∀ l ∈ lines, ∃ bytes : List Byte, l.text = bytes.map charOutput) :
    readOutput size (lines.flatMap (Line.output size)) = ([], [], lines) := by
  induction lines with
  | nil => rfl
  | cons line lines ih =>
    rcases List.forall_mem_cons.mp htext with ⟨⟨bytes, hbytes⟩, hrest⟩
    rw [List.flatMap_cons, Line.output, List.cons_append, List.append_assoc, readOutput_word,
      readOutput_elements, List.cons_append, readOutput_bare, hbytes, List.append_assoc,
      readOutput_text, List.singleton_append, readOutput_bare, ih hrest]
    simp [← hbytes]

/-! ## The view -/

theorem elements_dvd (hs : ElementSize size) (length : Word) :
    size.toNat ∣ (length * size).toNat := by
  have hword : size.toNat ∣ 2 ^ 32 := by
    rcases hs with rfl | rfl | rfl
    · decide
    · decide
    · decide
  rw [BitVec.toNat_mul]
  exact (Nat.dvd_mod_iff hword).mpr (Nat.dvd_mul_left _ _)

theorem memoryDisplay_spec (rom : Rom γ) (addr : Word) (hs : ElementSize size) (length : Word)
    (hb : Installed w.board) : wp (memoryDisplay rom addr size length true) (fun _ t =>
      ∃ lines, Shown size addr (length * size) w t lines) never w :=
  displayLines_spec hs _ _ _ w hb (elements_dvd hs length) (Nat.lt_succ_self _)

theorem Shown.readLines {t : World} {nbytes : Word} {lines : List Line}
    (h : Shown size addr nbytes w t lines) {shown : List Output}
    (ht : t.output = shown.reverse ++ w.output) : readLines size shown = lines := by
  have hshown : shown = lines.flatMap (Line.output size) :=
    List.reverse_injective (List.append_cancel_right (ht.symm.trans h.output))
  rw [hshown, Bootloader.readLines, readOutput_lines size lines h.text]

/-- The truth of a request, from the lines it sends. -/
theorem Shown.showsTruth_iff_fits {length : Word} {t : World} {lines : List Line}
    (hlines : Shown size addr (length * size) w t lines)
    (hrun : memoryDisplay rom addr size length true w = .ok () t) :
    ShowsTruth rom addr size length w ↔
      (length * size).toNat = 0 ∨ addr.toNat + (length * size).toNat ≤ arraySize := by
  rw [← hlines.truthful_iff addr _ (length * size).isLt (by simp)]
  constructor
  · rintro ⟨t', shown, hrun', ht', htruth⟩
    rw [hrun] at hrun'
    cases hrun'
    rwa [hlines.readLines ht'] at htruth
  · intro htruth
    refine ⟨t, lines.flatMap (Line.output size), hrun, hlines.output, ?_⟩
    rwa [hlines.readLines hlines.output]

theorem not_showsTruth_outside (rom : Rom γ) (hs : ElementSize size) {length : Word}
    (hb : Installed w.board) (hpos : (length * size).toNat ≠ 0)
    (hout : arraySize < addr.toNat + (length * size).toNat) :
    ¬ ShowsTruth rom addr size length w := by
  rcases wp_never.mp (memoryDisplay_spec rom addr hs length hb) with ⟨_, t, hrun, lines, hlines⟩
  rw [hlines.showsTruth_iff_fits hrun]
  omega

/-- With the AT45DB041 installed, the view of a request shows the truth if and only if the request
is empty or fits the array. -/
theorem showsTruth_iff {γ : Type} (rom : Rom γ) (w : World) (addr size length : Word)
    (hs : ElementSize size) (hb : Installed w.board) : ShowsTruth rom addr size length w ↔
      (length * size).toNat = 0 ∨ addr.toNat + (length * size).toNat ≤ arraySize := by
  rcases wp_never.mp (memoryDisplay_spec rom addr hs length hb) with ⟨_, t, hrun, lines, hlines⟩
  exact hlines.showsTruth_iff_fits hrun

def viewedWorld : World :=
  { careless with board := freshBoard (fun x => BitVec.ofNat 8 x) (fun _ => 0) }

/-- The last 256 bytes of the array, as command 3 shows them. -/
theorem showsTruth_iff_last : ShowsTruth plainRom 0x83F00 4 64 viewedWorld ↔
    ((64 : Word) * 4).toNat = 0 ∨ (0x83F00 : Word).toNat + ((64 : Word) * 4).toNat ≤ arraySize :=
  showsTruth_iff plainRom viewedWorld 0x83F00 4 64 (Or.inr (Or.inr rfl)) (freshBoard_installed _ _)

/-- Behind the end of the array the view shows data all the same. -/
theorem not_showsTruth_behind : ¬ ∀ (rom : Rom (List Byte)) (w : World) (addr size length : Word),
    ElementSize size → Installed w.board → ShowsTruth rom addr size length w := by
  intro h
  have hs : ElementSize 4 := Or.inr (Or.inr rfl)
  have hb : Installed viewedWorld.board := freshBoard_installed _ _
  exact not_showsTruth_outside plainRom hs hb (by decide) (by decide)
    (h plainRom viewedWorld 0x84000 4 64 hs hb)

end Armboard.Bootloader
