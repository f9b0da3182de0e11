import Armboard.Emac.Descriptors

/-! # The receive path of the Linux driver

`at91ether_rx` runs in the interrupt and takes frames as long as the descriptor at
`rxBuffIndex` is done. It copies a frame without its check sequence, or counts it as
dropped when there is no memory, and then gives the descriptor back; the EMAC may
receive between any two of these steps.
-/

namespace Armboard.Emac
open Queue Storage

abbrev maxRxDescr : ℕ := 9
abbrev emacDescDone : Word := 1
abbrev emacMulticast : Word := 0x40000000

/-- Where `at91ether_rx` is: not running, at its loop condition, or before it resets the ownership
bit. -/
inductive Stage where
  | outside
  | testing
  | freeing
  deriving DecidableEq

/-- The driver and the EMAC. `taken` are the frames the EMAC took, oldest first. -/
structure At91State where
  dma : Dma
  recvBuf : Word
  rxBuffIndex : ℕ
  stage : Stage
  netifRx : List (List Byte)
  rxBytes : Word
  rxDropped : Word
  multicast : Word
  taken : List Frame

/-- `dlist->descriptors[lp->rxBuffIndex].addr & EMAC_DESC_DONE`. -/
def At91State.done (s : At91State) : Bool :=
  decide ((s.dma.desc s.rxBuffIndex).addr &&& emacDescDone ≠ 0)

def At91State.pktlen (s : At91State) : Word := ((s.dma.desc s.rxBuffIndex).size &&& 0x7ff) - 4

/-- What `memcpy` copies from `p_recv`. -/
def At91State.copied (s : At91State) : List Byte :=
  (List.range s.pktlen.toNat).map
    (view s.dma.mem (s.recvBuf + BitVec.ofNat 32 (s.rxBuffIndex * rbfFramelen)))

/-- The loop body up to the ownership bit, for an allocation that succeeds or fails. -/
def takeFrame (alloc : Bool) (s : At91State) : At91State :=
  let t := if alloc then
      { s with netifRx := s.netifRx ++ [s.copied], rxBytes := s.rxBytes + s.pktlen }
    else { s with rxDropped := s.rxDropped + 1 }
  { t with
    multicast := if (s.dma.desc s.rxBuffIndex).size &&& emacMulticast ≠ 0 then t.multicast + 1
      else t.multicast
    stage := .freeing }

inductive At91Event where
  | frame (f : Frame)
  | receiveComplete
  | loopTest (alloc : Bool)
  | freeDescriptor

def at91Step (s : At91State) : At91Event → At91State
  | .frame f =>
    if s.dma.available then { s with dma := s.dma.receive f, taken := s.taken ++ [f] } else s
  | .receiveComplete => if s.stage = .outside then { s with stage := .testing } else s
  | .loopTest alloc =>
    if s.stage = .testing then
      if s.done then takeFrame alloc s else { s with stage := .outside }
    else s
  | .freeDescriptor =>
    if s.stage = .freeing then
      { s with
        dma := s.dma.release s.rxBuffIndex
        rxBuffIndex := if s.rxBuffIndex = maxRxDescr - 1 then 0 else s.rxBuffIndex + 1
        stage := .testing }
    else s

def at91Run (s : At91State) (es : List At91Event) : At91State := es.foldl at91Step s

def Frame.payload (f : Frame) : List Byte := f.bytes.take (f.bytes.length - 4)

def Frame.isMulticast (f : Frame) : Bool := decide (f.status &&& emacMulticast ≠ 0)

/-- What the driver has to show for the frames it handled, `true` for those it could allocate
memory for. -/
structure Accounts (s : At91State) (handled : List (Frame × Bool)) : Prop where
  netifRx : s.netifRx = (handled.filter Prod.snd).map fun h => h.1.payload
  rxBytes : s.rxBytes = BitVec.ofNat 32 ((s.netifRx.map List.length).sum)
  rxDropped : s.rxDropped = BitVec.ofNat 32 (handled.countP fun h => !h.2)
  multicast : s.multicast = BitVec.ofNat 32 (handled.countP fun h => h.1.isMulticast)

/-- The ring holds the frames that wait, behind the one whose descriptor is yet to be freed. -/
structure Books (recvBuf : Word) (s : At91State) (handled : List (Frame × Bool))
    (waiting : List Frame) : Prop where
  recvBuf_eq : s.recvBuf = recvBuf
  formed : Formed maxRxDescr recvBuf s.dma
  holds : ∃ old, Holds maxRxDescr s.dma.slot s.rxBuffIndex s.dma.rbq
    (old ++ waiting.map Frame.entry) ∧ old.length = if s.stage = .freeing then 1 else 0
  taken_eq : s.taken = handled.map Prod.fst ++ waiting
  accounts : Accounts s handled

variable {recvBuf : Word} {s : At91State} {handled : List (Frame × Bool)} {waiting : List Frame}

theorem Books.frame (h : Books recvBuf s handled waiting) (f : Frame) :
    ∃ handled' waiting', Books recvBuf (at91Step s (.frame f)) handled' waiting' := by
  rw [at91Step]
  split
  · rename_i ha
    obtain ⟨old, hholds, hold⟩ := h.holds
    have htail := hholds.tail_lt
    have hpush := hholds.push (hholds.slot_tail_eq_none_iff.mp (available_iff.mp ha))
      (h.formed.receive_slot f htail ha) (fun i hi hne => h.formed.receive_slot_ne f htail hi hne)
    rw [← h.formed.receive_rbq f htail ha, List.append_assoc] at hpush
    refine ⟨handled, waiting ++ [f], h.recvBuf_eq, h.formed.receive f, ⟨old, ?_, hold⟩, ?_, ?_⟩
    · rw [List.map_append]
      exact hpush
    · rw [h.taken_eq, List.append_assoc]
    · exact ⟨h.accounts.netifRx, h.accounts.rxBytes, h.accounts.rxDropped, h.accounts.multicast⟩
  · exact ⟨handled, waiting, h⟩

theorem Books.receiveComplete (h : Books recvBuf s handled waiting) :
    ∃ handled' waiting', Books recvBuf (at91Step s .receiveComplete) handled' waiting' := by
  rw [at91Step]
  split
  · rename_i hs
    obtain ⟨old, hholds, hold⟩ := h.holds
    refine ⟨handled, waiting, h.recvBuf_eq, h.formed, ⟨old, hholds, ?_⟩, h.taken_eq, ?_⟩
    · rw [hold, hs]
      rfl
    · exact ⟨h.accounts.netifRx, h.accounts.rxBytes, h.accounts.rxDropped, h.accounts.multicast⟩
  · exact ⟨handled, waiting, h⟩

/-- At the loop condition the ring holds exactly the waiting frames. -/
theorem Books.holds_testing (h : Books recvBuf s handled waiting) (hs : s.stage = .testing) :
    Holds maxRxDescr s.dma.slot s.rxBuffIndex s.dma.rbq (waiting.map Frame.entry) := by
  obtain ⟨old, hholds, hold⟩ := h.holds
  rw [hs, if_neg (by decide), List.length_eq_zero_iff] at hold
  rwa [hold, List.nil_append] at hholds

theorem Books.done_iff (h : Books recvBuf s handled waiting) (hs : s.stage = .testing) :
    s.done = true ↔ waiting ≠ [] := by
  have hslot := (h.holds_testing hs).slot_head
  rw [At91State.done, decide_eq_true_iff, ne_eq, ne_eq, not_iff_not]
  rw [Dma.slot] at hslot
  split at hslot
  · rename_i hown
    have hnil : waiting.map Frame.entry = [] := List.head?_eq_none_iff.mp hslot.symm
    exact iff_of_true hown (List.map_eq_nil_iff.mp hnil)
  · rename_i hown
    refine iff_of_false hown ?_
    intro hw
    rw [hw] at hslot
    simp at hslot

theorem status_multicast (f : Frame) :
    (f.status ||| BitVec.ofNat 32 f.bytes.length) &&& emacMulticast = f.status &&& emacMulticast := by
  have hlen : f.bytes.length ≤ 1536 := f.shortEnough
  apply Bits.agreeOn_or
  apply BitVec.eq_of_getLsbD_eq
  intro i hi
  rw [BitVec.getLsbD_and]
  by_cases h30 : i = 30
  · rw [h30, BitVec.getLsbD_ofNat, Nat.testBit_lt_two_pow (by omega)]
    rfl
  · have hbit : ∀ i < 32, i ≠ 30 → emacMulticast.getLsbD i = false := by decide
    rw [hbit i hi h30]
    simp

theorem Books.first (h : Books recvBuf s handled (f :: waiting)) (hs : s.stage = .testing) :
    s.copied = f.payload ∧ s.pktlen = BitVec.ofNat 32 (f.bytes.length - 4) ∧
      ((s.dma.desc s.rxBuffIndex).size &&& emacMulticast ≠ 0 ↔ f.isMulticast = true) := by
  have hhead := (h.holds_testing hs).head_lt
  have hslot := (h.holds_testing hs).slot_head
  have hmin := f.longEnough
  have hmax : f.bytes.length ≤ 1536 := f.shortEnough
  rw [Dma.slot] at hslot
  split at hslot
  · simp at hslot
  rw [List.map_cons, List.head?_cons, Option.some.injEq, Frame.entry, Prod.mk.injEq] at hslot
  obtain ⟨hframe, hsize⟩ := hslot
  have hlen : s.pktlen.toNat = f.bytes.length - 4 := by
    rw [At91State.pktlen, hsize, BitVec.toNat_sub, f.size_toNat]
    change (2 ^ 32 - 4 + f.bytes.length) % 2 ^ 32 = _
    omega
  refine ⟨?_, ?_, ?_⟩
  · rw [h.formed.frame_eq hhead, hsize, f.size_toNat] at hframe
    rw [At91State.copied, hlen, h.recvBuf_eq, Frame.payload, ← hframe, ← List.map_take,
      List.take_range, List.length_map, List.length_range, Nat.min_eq_left (by omega)]
    exact List.map_congr_left fun j _ => view_add _ _ _ _
  · apply BitVec.eq_of_toNat_eq
    rw [hlen, BitVec.toNat_ofNat, Nat.mod_eq_of_lt (by omega)]
  · rw [hsize, status_multicast, Frame.isMulticast, decide_eq_true_iff]

theorem Accounts.takeFrame (h : Accounts s handled) (f : Frame) (alloc : Bool)
    (hcopied : s.copied = f.payload) (hlen : s.pktlen = BitVec.ofNat 32 (f.bytes.length - 4))
    (hmulti : (s.dma.desc s.rxBuffIndex).size &&& emacMulticast ≠ 0 ↔ f.isMulticast = true) :
    Accounts (takeFrame alloc s) (handled ++ [(f, alloc)]) := by
  have hpay : f.payload.length = f.bytes.length - 4 := by
    rw [Frame.payload, List.length_take]
    omega
  have hcount : (if (s.dma.desc s.rxBuffIndex).size &&& emacMulticast ≠ 0 then s.multicast + 1
      else s.multicast) = BitVec.ofNat 32 ((handled ++ [(f, alloc)]).countP fun h =>
        h.1.isMulticast) := by
    rw [h.multicast]
    simp only [hmulti, List.countP_append, List.countP_singleton]
    split
    · rw [BitVec.ofNat_add]
      rfl
    · rfl
  cases alloc with
  | true =>
    refine ⟨?_, ?_, ?_, hcount⟩
    · simp [Emac.takeFrame, h.netifRx, hcopied]
    · simp only [Emac.takeFrame, if_true, h.rxBytes, hlen, hcopied, List.map_append, List.sum_append,
        List.map_cons, List.map_nil, List.sum_cons, List.sum_nil, Nat.add_zero, hpay,
        BitVec.ofNat_add]
    · simp [Emac.takeFrame, h.rxDropped]
  | false =>
    refine ⟨?_, ?_, ?_, hcount⟩
    · simp [Emac.takeFrame, h.netifRx]
    · simp [Emac.takeFrame, h.rxBytes]
    · simp only [Emac.takeFrame, Bool.false_eq_true, if_false, h.rxDropped, List.countP_append,
        List.countP_singleton, Bool.not_false, if_true, BitVec.ofNat_add]
      rfl

theorem Books.loopTest (h : Books recvBuf s handled waiting) (alloc : Bool) :
    ∃ handled' waiting', Books recvBuf (at91Step s (.loopTest alloc)) handled' waiting' := by
  rw [at91Step]
  split
  · rename_i hs
    have hring := h.holds_testing hs
    split
    · rename_i hdone
      cases waiting with
      | nil => exact absurd rfl ((h.done_iff hs).mp hdone)
      | cons f waiting =>
        obtain ⟨hcopied, hlen, hmulti⟩ := h.first hs
        refine ⟨handled ++ [(f, alloc)], waiting, ?_, ?_, ⟨[f.entry], ?_, ?_⟩, ?_,
          h.accounts.takeFrame f alloc hcopied hlen hmulti⟩
        all_goals simp only [takeFrame]
        · cases alloc <;> exact h.recvBuf_eq
        · cases alloc <;> exact h.formed
        · cases alloc <;> exact hring
        · rfl
        · cases alloc <;> simp [h.taken_eq]
    · refine ⟨handled, waiting, h.recvBuf_eq, h.formed, ⟨[], hring, rfl⟩, h.taken_eq, ?_⟩
      exact ⟨h.accounts.netifRx, h.accounts.rxBytes, h.accounts.rxDropped, h.accounts.multicast⟩
  · exact ⟨handled, waiting, h⟩

theorem Books.freeDescriptor (h : Books recvBuf s handled waiting) :
    ∃ handled' waiting', Books recvBuf (at91Step s .freeDescriptor) handled' waiting' := by
  rw [at91Step]
  split
  · rename_i hs
    obtain ⟨old, hholds, hold⟩ := h.holds
    rw [if_pos hs, List.length_eq_one_iff] at hold
    obtain ⟨e, rfl⟩ := hold
    have hpop := hholds.pop (release_slot s.dma s.rxBuffIndex)
      (fun i hi hne => h.formed.release_slot_ne hi hne)
    refine ⟨handled, waiting, h.recvBuf_eq, h.formed.release _, ⟨[], hpop, rfl⟩, h.taken_eq, ?_⟩
    exact ⟨h.accounts.netifRx, h.accounts.rxBytes, h.accounts.rxDropped, h.accounts.multicast⟩
  · exact ⟨handled, waiting, h⟩

theorem Books.step (h : Books recvBuf s handled waiting) (e : At91Event) :
    ∃ handled' waiting', Books recvBuf (at91Step s e) handled' waiting' := by
  cases e with
  | frame f => exact h.frame f
  | receiveComplete => exact h.receiveComplete
  | loopTest alloc => exact h.loopTest alloc
  | freeDescriptor => exact h.freeDescriptor

theorem Books.run (h : Books recvBuf s handled waiting) (es : List At91Event) :
    ∃ handled' waiting', Books recvBuf (at91Run s es) handled' waiting' := by
  induction es generalizing s handled waiting with
  | nil => exact ⟨handled, waiting, h⟩
  | cons e es ih =>
    obtain ⟨handled', waiting', h'⟩ := h.step e
    exact ih h'

end Armboard.Emac
