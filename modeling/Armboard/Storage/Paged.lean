import Mathlib.Data.List.Nodup
import Mathlib.Data.List.Range
import Mathlib.Tactic.Common

/-! # Patching a paged store

A store is numbered through, `P` cells to a page. A chunk replaces a run of cells
of one page by a run of a data sequence, wrapping at the end of the page. The
effect of a list of chunks is read off cell by cell: no chunk hits the cell and it
keeps its value, or exactly one page entry decides it.
-/

namespace Armboard.Storage

/-- `len` items of the data, from item `src` on, go to cells `offset, offset + 1, ...` of a page. -/
structure Chunk where
  page : ℕ
  offset : ℕ
  len : ℕ
  src : ℕ
  deriving DecidableEq

namespace Chunk
variable {α : Type*} (P : ℕ)

def index (c : Chunk) (x : ℕ) : ℕ := (x % P + (P - c.offset % P)) % P

def hits (c : Chunk) (x : ℕ) : Prop := x / P = c.page ∧ c.index P x < c.len

instance (c : Chunk) (x : ℕ) : Decidable (c.hits P x) := inferInstanceAs (Decidable (_ ∧ _))

def patch (data : ℕ → α) (c : Chunk) (f : ℕ → α) : ℕ → α := fun x =>
  if c.hits P x then data (c.src + c.index P x) else f x

variable {P}

theorem patch_hit {data : ℕ → α} {c : Chunk} {f : ℕ → α} {x : ℕ} (h : c.hits P x) :
    c.patch P data f x = data (c.src + c.index P x) := if_pos h

theorem patch_miss {data : ℕ → α} {c : Chunk} {f : ℕ → α} {x : ℕ} (h : ¬ c.hits P x) :
    c.patch P data f x = f x := if_neg h

/-- A chunk that starts in the page meets its cells in order up to the end of the page. -/
theorem index_of_le {c : Chunk} {x : ℕ} (ho : c.offset < P) (hx : c.offset ≤ x % P) :
    c.index P x = x % P - c.offset := by
  have hlt : x % P < P := Nat.mod_lt _ (by omega)
  rw [index, Nat.mod_eq_of_lt ho, show x % P + (P - c.offset) = (x % P - c.offset) + P by omega,
    Nat.add_mod_right, Nat.mod_eq_of_lt (by omega)]

/-- The cells before its start are met only after wrapping. -/
theorem index_of_lt {c : Chunk} {x : ℕ} (ho : c.offset < P) (hx : x % P < c.offset) :
    c.index P x = x % P + (P - c.offset) := by
  rw [index, Nat.mod_eq_of_lt ho, Nat.mod_eq_of_lt (by omega)]

variable (P) in
def Fits (c : Chunk) : Prop := c.offset < P ∧ c.offset + c.len ≤ P

variable (P) in
def first (c : Chunk) : ℕ := c.page * P + c.offset

theorem Fits.index_eq {c : Chunk} {x : ℕ} (h : c.Fits P) (hx : c.hits P x) :
    c.first P ≤ x ∧ c.index P x = x - c.first P := by
  have hdiv := Nat.div_add_mod' x P
  obtain ⟨hp, hi⟩ := hx
  rw [hp] at hdiv
  have hlt : x % P < P := Nat.mod_lt _ (by have := h.1; omega)
  have ho : c.offset ≤ x % P := by
    by_contra hn
    rw [index_of_lt h.1 (by omega)] at hi
    have := h.2
    omega
  rw [first, index_of_le h.1 ho]
  omega

theorem Fits.hits_iff {c : Chunk} {x : ℕ} (h : c.Fits P) :
    c.hits P x ↔ c.first P ≤ x ∧ x < c.first P + c.len := by
  constructor
  · intro hx
    obtain ⟨hle, hi⟩ := h.index_eq hx
    have := hx.2
    omega
  · rintro ⟨hle, hlt⟩
    obtain ⟨ho, hlen⟩ := h
    have hp : x / P = c.page := by
      apply Nat.div_eq_of_lt_le
      · exact (Nat.le_add_right _ _).trans hle
      · rw [first] at hlt
        rw [Nat.succ_mul]
        omega
    have hdiv := Nat.div_add_mod' x P
    rw [hp] at hdiv
    rw [first] at hle hlt
    constructor
    · exact hp
    rw [index_of_le ho (by omega)]
    omega

end Chunk

variable {α : Type*} {P : ℕ}

/-! ## Chunks that take the data in order -/

/-- The chunks take the items from `a` up to `b`, one after the other. -/
def Tiles : ℕ → List Chunk → ℕ → Prop
  | a, [], b => a = b
  | a, c :: l, b => c.src = a ∧ Tiles (a + c.len) l b

theorem Tiles.append {a b d : ℕ} {l l' : List Chunk} (h : Tiles a l b) (h' : Tiles b l' d) :
    Tiles a (l ++ l') d := by
  induction l generalizing a with
  | nil => exact h ▸ h'
  | cons c l ih => exact ⟨h.1, ih h.2⟩

theorem Tiles.le {a b : ℕ} {l : List Chunk} (h : Tiles a l b) : a ≤ b := by
  induction l generalizing a with
  | nil => exact Nat.le_of_eq h
  | cons c l ih => exact (Nat.le_add_right a c.len).trans (ih h.2)

theorem Tiles.bound {a b : ℕ} {l : List Chunk} (h : Tiles a l b) {c : Chunk} (hc : c ∈ l) :
    a ≤ c.src ∧ c.src + c.len ≤ b := by
  induction l generalizing a with
  | nil => simp at hc
  | cons d l ih =>
    rcases List.mem_cons.mp hc with rfl | hc
    · exact ⟨h.1.ge, h.1 ▸ h.2.le⟩
    · obtain ⟨hle, hb⟩ := ih h.2 hc
      exact ⟨by omega, hb⟩

theorem Tiles.pairwise {a b : ℕ} {l : List Chunk} (h : Tiles a l b) :
    l.Pairwise (fun c d => c.src + c.len ≤ d.src) := by
  induction l generalizing a with
  | nil => exact List.Pairwise.nil
  | cons c l ih =>
    refine List.Pairwise.cons (fun d hd => ?_) (ih h.2)
    rw [h.1]
    exact (h.2.bound hd).1

theorem Tiles.exists_mem {a b i : ℕ} {l : List Chunk} (h : Tiles a l b) (ha : a ≤ i) (hb : i < b) :
    ∃ c ∈ l, c.src ≤ i ∧ i < c.src + c.len := by
  induction l generalizing a with
  | nil => exact absurd (h ▸ ha) (Nat.not_le.mpr hb)
  | cons c l ih =>
    by_cases hi : i < c.src + c.len
    · exact ⟨c, List.mem_cons_self, h.1.le.trans ha, hi⟩
    · have ha' : a + c.len ≤ i := by rw [← h.1]; omega
      obtain ⟨d, hd, hdi⟩ := ih h.2 ha'
      exact ⟨d, List.mem_cons_of_mem _ hd, hdi⟩

/-! ## Patching -/

def patchAll (P : ℕ) (data : ℕ → α) (l : List Chunk) (f : ℕ → α) : ℕ → α :=
  l.foldl (fun g c => c.patch P data g) f

theorem patchAll_append (data : ℕ → α) (l l' : List Chunk) (f : ℕ → α) :
    patchAll P data (l ++ l') f = patchAll P data l' (patchAll P data l f) :=
  List.foldl_append

/-- The frame: a cell that no chunk hits keeps its value. -/
theorem patchAll_miss {data : ℕ → α} {l : List Chunk} {f : ℕ → α} {x : ℕ}
    (h : ∀ c ∈ l, ¬ c.hits P x) : patchAll P data l f x = f x := by
  induction l generalizing f with
  | nil => rfl
  | cons c l ih =>
    change patchAll P data l (c.patch P data f) x = f x
    rw [ih (fun d hd => h d (List.mem_cons_of_mem _ hd)),
      Chunk.patch_miss (h c List.mem_cons_self)]

/-- With each page patched once, the chunk that hits a cell decides it. -/
theorem patchAll_hit {data : ℕ → α} {l : List Chunk} {f : ℕ → α} {x : ℕ} {c : Chunk}
    (hl : (l.map Chunk.page).Nodup) (hc : c ∈ l) (hx : c.hits P x) :
    patchAll P data l f x = data (c.src + c.index P x) := by
  induction l generalizing f with
  | nil => simp at hc
  | cons d l ih =>
    rw [List.map_cons, List.nodup_cons] at hl
    change patchAll P data l (d.patch P data f) x = _
    rcases List.mem_cons.mp hc with rfl | hc
    · rw [patchAll_miss, Chunk.patch_hit hx]
      intro e he hex
      exact hl.1 (List.mem_map.mpr ⟨e, he, hex.1.symm.trans hx.1⟩)
    · exact ih hl.2 hc

/-- Chunks that put back what is there change nothing. -/
theorem patchAll_fixed {data : ℕ → α} {l : List Chunk} {f : ℕ → α}
    (h : ∀ c ∈ l, ∀ x, c.hits P x → data (c.src + c.index P x) = f x) :
    patchAll P data l f = f := by
  induction l with
  | nil => rfl
  | cons c l ih =>
    have hc : c.patch P data f = f := by
      funext x
      by_cases hx : c.hits P x
      · rw [Chunk.patch_hit hx, h c List.mem_cons_self x hx]
      · exact Chunk.patch_miss hx
    change patchAll P data l (c.patch P data f) = f
    rw [hc]
    exact ih (fun d hd => h d (List.mem_cons_of_mem _ hd))

theorem patchAll_congr {d d' : ℕ → α} {l : List Chunk} {f : ℕ → α}
    (h : ∀ c ∈ l, ∀ i < c.len, d (c.src + i) = d' (c.src + i)) :
    patchAll P d l f = patchAll P d' l f := by
  induction l generalizing f with
  | nil => rfl
  | cons c l ih =>
    have hc : c.patch P d f = c.patch P d' f := by
      funext x
      by_cases hx : c.hits P x
      · rw [Chunk.patch_hit hx, Chunk.patch_hit hx, h c List.mem_cons_self _ hx.2]
      · rw [Chunk.patch_miss hx, Chunk.patch_miss hx]
    change patchAll P d l (c.patch P d f) = patchAll P d' l (c.patch P d' f)
    rw [hc]
    exact ih (fun e he => h e (List.mem_cons_of_mem _ he))

def Chunk.shift (n : ℕ) (c : Chunk) : Chunk := { c with src := n + c.src }

@[simp] theorem Chunk.shift_page (n : ℕ) (c : Chunk) : (c.shift n).page = c.page := rfl
@[simp] theorem Chunk.shift_len (n : ℕ) (c : Chunk) : (c.shift n).len = c.len := rfl
@[simp] theorem Chunk.shift_src (n : ℕ) (c : Chunk) : (c.shift n).src = n + c.src := rfl

theorem Chunk.shift_hits (n : ℕ) (c : Chunk) (x : ℕ) : (c.shift n).hits P x ↔ c.hits P x := Iff.rfl

theorem Tiles.shift {a b : ℕ} {l : List Chunk} (n : ℕ) (h : Tiles a l b) :
    Tiles (n + a) (l.map (Chunk.shift n)) (n + b) := by
  induction l generalizing a with
  | nil => exact congrArg (n + ·) h
  | cons c l ih =>
    constructor
    · exact congrArg (n + ·) h.1
    rw [Chunk.shift_len, Nat.add_assoc]
    exact ih h.2

theorem patchAll_shift (n : ℕ) (d : ℕ → α) (l : List Chunk) (f : ℕ → α) :
    patchAll P d (l.map (Chunk.shift n)) f = patchAll P (fun i => d (n + i)) l f := by
  induction l generalizing f with
  | nil => rfl
  | cons c l ih =>
    have hc : (c.shift n).patch P d f = c.patch P (fun i => d (n + i)) f := by
      funext x
      by_cases hx : c.hits P x
      · rw [Chunk.patch_hit hx, Chunk.patch_hit ((c.shift_hits n x).mpr hx)]
        exact congrArg d (Nat.add_assoc n c.src (c.index P x))
      · rw [Chunk.patch_miss hx, Chunk.patch_miss (fun h => hx ((c.shift_hits n x).mp h))]
    change patchAll P d (l.map (Chunk.shift n)) ((c.shift n).patch P d f) = _
    rw [hc, ih]
    rfl

end Armboard.Storage
