import Armboard.Bits.Agree
import Armboard.Machine
import Armboard.Queue.Ring
import Armboard.Storage.Block
import Mathlib.Data.List.GetD
import Mathlib.Tactic

/-! # The receive descriptors of the EMAC

The EMAC stores a frame in the buffer of its current descriptor, unless the software
still owns it, and hands it over by the ownership bit; behind the descriptor with the
wrap bit it goes on with the first one. Both drivers use `0x600` bytes for a buffer.
-/

namespace Armboard.Emac
open Bits Queue Storage

structure Rbf where
  addr : Word
  size : Word

abbrev rbfAddr : Word := 0xfffffffc
abbrev rbfOwner : Word := 1
abbrev rbfWrap : Word := 2
abbrev rbfSize : Word := 0x07ff
abbrev rbfFramelen : ℕ := 0x600

/-- A frame on the wire with its check sequence, and the status bits the EMAC has for it. -/
structure Frame where
  bytes : List Byte
  status : Word
  longEnough : 4 ≤ bytes.length
  shortEnough : bytes.length ≤ rbfFramelen
  beside : status &&& rbfSize = 0

/-- What the EMAC and the software share, and the descriptor the EMAC is at. -/
structure Dma where
  desc : ℕ → Rbf
  mem : Word → Byte
  rbq : ℕ

def setDesc (desc : ℕ → Rbf) (i : ℕ) (r : Rbf) : ℕ → Rbf := Function.update desc i r

def Dma.available (d : Dma) : Bool := decide ((d.desc d.rbq).addr &&& rbfOwner = 0)

def Dma.receive (f : Frame) (d : Dma) : Dma :=
  if d.available then
    let r := d.desc d.rbq
    { desc := setDesc d.desc d.rbq
        ⟨r.addr ||| rbfOwner, f.status ||| BitVec.ofNat 32 f.bytes.length⟩
      mem := store d.mem (r.addr &&& rbfAddr) f.bytes.length (fun i => f.bytes.getD i 0)
      rbq := if r.addr &&& rbfWrap ≠ 0 then 0 else d.rbq + 1 }
  else d

/-- The bytes in the buffer of a descriptor, as many as its size says. -/
def Dma.frame (d : Dma) (i : ℕ) : List Byte :=
  (List.range ((d.desc i).size &&& rbfSize).toNat).map (view d.mem ((d.desc i).addr &&& rbfAddr))

def Dma.release (i : ℕ) (d : Dma) : Dma :=
  { d with desc := setDesc d.desc i { d.desc i with addr := (d.desc i).addr &&& ~~~rbfOwner } }

/-- The descriptors as a driver sets them up, for `n` buffers from `p` on. -/
def descriptors (n : ℕ) (p : Word) : ℕ → Rbf := fun i =>
  ⟨if i = n - 1 then (p + BitVec.ofNat 32 (i * rbfFramelen)) ||| rbfWrap
    else p + BitVec.ofNat 32 (i * rbfFramelen), 0⟩

/-! ## The descriptors as a ring -/

/-- What arrives with a frame: its bytes and the size word. -/
abbrev Entry := List Byte × Word

def Frame.entry (f : Frame) : Entry := (f.bytes, f.status ||| BitVec.ofNat 32 f.bytes.length)

def Dma.slot (d : Dma) (i : ℕ) : Option Entry :=
  if (d.desc i).addr &&& rbfOwner = 0 then none else some (d.frame i, (d.desc i).size)

/-- Each descriptor has its own buffer, and the last one the wrap bit. -/
structure Formed (n : ℕ) (p : Word) (d : Dma) : Prop where
  bound : n * rbfFramelen < 2 ^ 32
  fits : ∀ i < n, ((d.desc i).size &&& rbfSize).toNat ≤ rbfFramelen
  buffer : ∀ i < n, (d.desc i).addr &&& rbfAddr = p + BitVec.ofNat 32 (i * rbfFramelen)
  wrap : ∀ i < n, (d.desc i).addr &&& rbfWrap ≠ 0 ↔ i = n - 1

variable {n : ℕ} {p : Word} {d : Dma}

/-! ### The bits of a descriptor's address -/

theorem own_addr (a : Word) : (a ||| rbfOwner) &&& rbfAddr = a &&& rbfAddr := agreeOn_or rfl

theorem own_wrap (a : Word) : (a ||| rbfOwner) &&& rbfWrap = a &&& rbfWrap := agreeOn_or rfl

theorem own_owner (a : Word) : (a ||| rbfOwner) &&& rbfOwner = rbfOwner := and_of_set a rbfOwner

theorem release_addr (a : Word) : (a &&& ~~~rbfOwner) &&& rbfAddr = a &&& rbfAddr :=
  agreeOn_and rfl

theorem release_wrap (a : Word) : (a &&& ~~~rbfOwner) &&& rbfWrap = a &&& rbfWrap :=
  agreeOn_and rfl

theorem release_owner (a : Word) : (a &&& ~~~rbfOwner) &&& rbfOwner = 0 := and_of_cleared a rbfOwner

/-! ### Frames in their buffers -/

theorem available_iff : d.available = true ↔ d.slot d.rbq = none := by
  unfold Dma.available Dma.slot
  split <;> simp_all

theorem Formed.frame_eq (h : Formed n p d) {i : ℕ} (hi : i < n) :
    d.frame i = (List.range ((d.desc i).size &&& rbfSize).toNat).map
      fun j => view d.mem p (i * rbfFramelen + j) := by
  rw [Dma.frame, h.buffer i hi]
  exact List.map_congr_left fun j _ => view_add d.mem p (i * rbfFramelen) j

theorem Formed.buffer_le (h : Formed n p d) {i k : ℕ} (hi : i < n) (hk : k ≤ rbfFramelen) :
    i * rbfFramelen + k < 2 ^ 32 := by
  have hin := Nat.mul_le_mul_right rbfFramelen (Nat.succ_le_of_lt hi)
  rw [Nat.succ_mul] at hin
  exact ((Nat.add_le_add_left hk _).trans hin).trans_lt h.bound

theorem buffer_disjoint {i k j l : ℕ} (hne : i ≠ k) (hj : j < rbfFramelen) (hl : l ≤ rbfFramelen) :
    ¬ (k * rbfFramelen ≤ i * rbfFramelen + j ∧ i * rbfFramelen + j < k * rbfFramelen + l) := by
  rcases Nat.lt_or_gt_of_ne hne with hlt | hgt
  · have hle := Nat.mul_le_mul_right rbfFramelen (Nat.succ_le_of_lt hlt)
    rw [Nat.succ_mul] at hle
    omega
  · have hle := Nat.mul_le_mul_right rbfFramelen (Nat.succ_le_of_lt hgt)
    rw [Nat.succ_mul] at hle
    omega

theorem Formed.slot_congr {d' : Dma} (h : Formed n p d) (h' : Formed n p d') {i : ℕ} (hi : i < n)
    (hdesc : d'.desc i = d.desc i)
    (hmem : ∀ j < rbfFramelen, view d'.mem p (i * rbfFramelen + j) =
      view d.mem p (i * rbfFramelen + j)) : d'.slot i = d.slot i := by
  have hframe : d'.frame i = d.frame i := by
    rw [h.frame_eq hi, h'.frame_eq hi, hdesc]
    apply List.map_congr_left
    intro j hj
    exact hmem j ((List.mem_range.mp hj).trans_le (h.fits i hi))
  rw [Dma.slot, Dma.slot, hframe, hdesc]

/-- The length of a frame is what its size word says. -/
theorem Frame.size_toNat (f : Frame) :
    ((f.status ||| BitVec.ofNat 32 f.bytes.length) &&& rbfSize).toNat = f.bytes.length := by
  have hlen : f.bytes.length ≤ 1536 := f.shortEnough
  have hmask : (BitVec.ofNat 32 f.bytes.length &&& rbfSize).toNat = f.bytes.length := by
    rw [BitVec.toNat_and, BitVec.toNat_ofNat, show rbfSize.toNat = 2 ^ 11 - 1 from rfl,
      Nat.and_two_pow_sub_one_eq_mod, Nat.mod_mod_of_dvd _ (by decide), Nat.mod_eq_of_lt (by omega)]
  rw [BitVec.and_or_distrib_right, f.beside]
  simpa using hmask

variable (f : Frame)

theorem receive_of_available (ha : d.available = true) : d.receive f =
    { desc := setDesc d.desc d.rbq
        ⟨(d.desc d.rbq).addr ||| rbfOwner, f.status ||| BitVec.ofNat 32 f.bytes.length⟩
      mem := store d.mem ((d.desc d.rbq).addr &&& rbfAddr) f.bytes.length
        (fun i => f.bytes.getD i 0)
      rbq := if (d.desc d.rbq).addr &&& rbfWrap ≠ 0 then 0 else d.rbq + 1 } := by
  rw [Dma.receive, if_pos ha]

theorem receive_of_not_available (ha : d.available = false) : d.receive f = d := by
  rw [Dma.receive, if_neg (by simp [ha])]

theorem Formed.receive (h : Formed n p d) : Formed n p (d.receive f) := by
  cases ha : d.available with
  | false => rwa [receive_of_not_available f ha]
  | true =>
    rw [receive_of_available f ha]
    refine ⟨h.bound, fun i hi => ?_, fun i hi => ?_, fun i hi => ?_⟩ <;>
      by_cases hr : i = d.rbq <;> simp only [setDesc, hr, Function.update_self, ne_eq,
        not_false_eq_true, Function.update_of_ne]
    · rw [f.size_toNat]
      exact f.shortEnough
    · exact h.fits i hi
    · rw [own_addr, ← hr]
      exact h.buffer i hi
    · exact h.buffer i hi
    · rw [own_wrap, ← hr]
      exact h.wrap i hi
    · exact h.wrap i hi

theorem Formed.receive_rbq (h : Formed n p d) (hq : d.rbq < n) (ha : d.available = true) :
    (d.receive f).rbq = next n d.rbq := by
  rw [receive_of_available f ha, next]
  simp only [h.wrap d.rbq hq]

theorem Formed.receive_slot (h : Formed n p d) (hq : d.rbq < n) (ha : d.available = true) :
    (d.receive f).slot d.rbq = some f.entry := by
  have hstore := h.buffer_le hq f.shortEnough
  have hpos : 0 < f.bytes.length := lt_of_lt_of_le (by decide) f.longEnough
  have hown : ¬ rbfOwner = 0 := by decide
  have hframe : (d.receive f).frame d.rbq = f.bytes := by
    rw [(h.receive f).frame_eq hq, receive_of_available f ha]
    simp only [setDesc, Function.update_self, f.size_toNat, h.buffer d.rbq hq]
    apply List.ext_getElem
    · simp
    intro j hj hj'
    have hread : d.rbq * rbfFramelen + j < 2 ^ 32 := by omega
    rw [List.getElem_map, List.getElem_range, view_store_at _ _ _ hstore.le hpos hread,
      if_pos ⟨Nat.le_add_right _ _, Nat.add_lt_add_left hj' _⟩, Nat.add_sub_cancel_left,
      List.getD_eq_getElem _ _ hj']
  rw [Dma.slot, hframe, receive_of_available f ha]
  simp only [setDesc, Function.update_self, own_owner, if_neg hown, Frame.entry]

theorem Formed.receive_slot_ne (h : Formed n p d) (hq : d.rbq < n) {i : ℕ} (hi : i < n)
    (hne : i ≠ d.rbq) : (d.receive f).slot i = d.slot i := by
  cases ha : d.available with
  | false => rw [receive_of_not_available f ha]
  | true =>
    have hstore := h.buffer_le hq f.shortEnough
    have hpos : 0 < f.bytes.length := lt_of_lt_of_le (by decide) f.longEnough
    apply h.slot_congr (h.receive f) hi
    · rw [receive_of_available f ha]
      exact Function.update_of_ne hne _ _
    intro j hj
    rw [receive_of_available f ha]
    simp only [h.buffer d.rbq hq]
    rw [view_store_at _ _ _ hstore.le hpos (h.buffer_le hi hj.le),
      if_neg (buffer_disjoint hne hj f.shortEnough)]

/-! ### The software's side -/

theorem Formed.release (h : Formed n p d) (i : ℕ) : Formed n p (d.release i) := by
  refine ⟨h.bound, fun k hk => ?_, fun k hk => ?_, fun k hk => ?_⟩ <;>
    by_cases hr : k = i <;> simp only [Dma.release, setDesc, hr, Function.update_self, ne_eq,
      not_false_eq_true, Function.update_of_ne]
  · rw [← hr]
    exact h.fits k hk
  · exact h.fits k hk
  · rw [release_addr, ← hr]
    exact h.buffer k hk
  · exact h.buffer k hk
  · rw [release_wrap, ← hr]
    exact h.wrap k hk
  · exact h.wrap k hk

theorem release_slot (d : Dma) (i : ℕ) : (d.release i).slot i = none := by
  rw [Dma.slot, Dma.release]
  simp only [setDesc, Function.update_self, release_owner, if_true]

theorem Formed.release_slot_ne (h : Formed n p d) {i k : ℕ} (hk : k < n) (hne : k ≠ i) :
    (d.release i).slot k = d.slot k :=
  h.slot_congr (h.release i) hk (Function.update_of_ne hne _ _) (fun _ _ => rfl)

def Dma.write (a : Word) (b : Byte) (d : Dma) : Dma := { d with mem := Function.update d.mem a b }

theorem Formed.write (h : Formed n p d) (a : Word) (b : Byte) : Formed n p (d.write a b) :=
  ⟨h.bound, h.fits, h.buffer, h.wrap⟩

theorem Formed.write_slot (h : Formed n p d) (b : Byte) {a : Word} {i : ℕ} (hi : i < n)
    (ha : (a - p).toNat / rbfFramelen ≠ i) : (d.write a b).slot i = d.slot i := by
  apply h.slot_congr (h.write a b) hi rfl
  intro j hj
  apply Function.update_of_ne
  intro heq
  apply ha
  rw [← heq, offset_toNat p (h.buffer_le hi hj.le), Nat.mul_comm, Nat.mul_add_div (by decide),
    Nat.div_eq_of_lt hj, Nat.add_zero]

/-! ### The ring the drivers set up -/

theorem aligned_base {p : Word} (hp : p &&& 3 = 0) (i : ℕ) :
    (p + BitVec.ofNat 32 (i * rbfFramelen)) &&& 3 = 0 := by
  have h : ∀ x : Word, (x &&& 3).toNat = x.toNat % 4 := by
    intro x
    rw [BitVec.toNat_and, show (3 : Word).toNat = 2 ^ 2 - 1 from rfl, Nat.and_two_pow_sub_one_eq_mod]
  have hp' : p.toNat % 4 = 0 := by rw [← h, hp]; rfl
  have hzero : (0 : Word).toNat = 0 := rfl
  apply BitVec.eq_of_toNat_eq
  rw [h, BitVec.toNat_add, BitVec.toNat_ofNat, hzero, show rbfFramelen = 1536 from rfl]
  omega

theorem formed_descriptors (hp : p &&& 3 = 0) (hb : n * rbfFramelen < 2 ^ 32) (m : Word → Byte) :
    Formed n p ⟨descriptors n p, m, 0⟩ := by
  have hwrap : ∀ i, (p + BitVec.ofNat 32 (i * rbfFramelen)) &&& rbfWrap = 0 := fun i =>
    ((and_eq_zero_iff_parts (show (3 : Word) = rbfOwner ||| rbfWrap from rfl)).mp
      (aligned_base hp i)).2
  have haddr : ∀ i, (p + BitVec.ofNat 32 (i * rbfFramelen)) &&& rbfAddr =
      p + BitVec.ofNat 32 (i * rbfFramelen) := by
    intro i
    have hsplit := BitVec.and_or_distrib_left (x := p + BitVec.ofNat 32 (i * rbfFramelen))
      (y := rbfAddr) (z := 3)
    rw [aligned_base hp i, show rbfAddr ||| 3 = BitVec.allOnes 32 from rfl, BitVec.and_allOnes] at hsplit
    simpa using hsplit.symm
  have hsize : ((0 : Word) &&& rbfSize).toNat ≤ rbfFramelen := by decide
  refine ⟨hb, fun i _ => hsize, fun i _ => ?_, fun i _ => ?_⟩
  · simp only [descriptors]
    split
    · rw [agreeOn_or (show rbfWrap &&& rbfAddr = 0 from rfl), haddr]
    · exact haddr i
  · simp only [descriptors]
    split
    · rename_i hlast
      rw [and_of_set]
      exact iff_of_true (by decide) hlast
    · rename_i hlast
      exact iff_of_false (by rw [hwrap]; decide) hlast

theorem descriptors_slot (hp : p &&& 3 = 0) (m : Word → Byte) (i : ℕ) :
    (Dma.slot ⟨descriptors n p, m, 0⟩ i) = none := by
  have hown : (p + BitVec.ofNat 32 (i * rbfFramelen)) &&& rbfOwner = 0 :=
    ((and_eq_zero_iff_parts (show (3 : Word) = rbfOwner ||| rbfWrap from rfl)).mp
      (aligned_base hp i)).1
  have howner : (descriptors n p i).addr &&& rbfOwner = 0 := by
    simp only [descriptors]
    split
    · rw [agreeOn_or (show rbfWrap &&& rbfOwner = 0 from rfl), hown]
    · exact hown
  rw [Dma.slot, if_pos howner]

end Armboard.Emac
