import Armboard.Emac.Descriptors

/-! # The receive path of U-Boot

`eth_rx` passes the frame at `rbfp` to `NetReceive` and gives the descriptor back only
afterwards, while the EMAC goes on receiving. `NetReceive` answers some packets in
place and stores loaded data elsewhere, so it may write to the buffer of its frame and
to everything outside the receive buffers. An event that cannot happen leaves the state
as it is.
-/

namespace Armboard.Emac
open Queue

abbrev rbfFramemax : ℕ := 64

/-- The driver and the EMAC. `taken` are the frames the EMAC took from the wire and `passed` those
`NetReceive` was called with, both oldest first. -/
structure EthState where
  dma : Dma
  framebuf : Word
  rbfp : ℕ
  inNetReceive : Bool
  taken : List (List Byte)
  passed : List (List Byte)

/-- `eth_init`, as far as it sets up the buffers. -/
def ethInit (framebuf : Word) (mem : Word → Byte) : EthState where
  dma := ⟨descriptors rbfFramemax framebuf, mem, 0⟩
  framebuf := framebuf
  rbfp := 0
  inNetReceive := false
  taken := []
  passed := []

/-- Address `a` is in the buffer of a descriptor other than `rbfp`. -/
def EthState.foreign (s : EthState) (a : Word) : Bool :=
  decide ((a - s.framebuf).toNat / rbfFramelen < rbfFramemax) &&
    decide ((a - s.framebuf).toNat / rbfFramelen ≠ s.rbfp)

inductive EthEvent where
  | frame (f : Frame)
  | ethRx
  | netReceiveStores (a : Word) (b : Byte)
  | netReceiveReturns

def EthState.ethRxReturnsZero (s : EthState) : Bool :=
  decide ((s.dma.desc s.rbfp).addr &&& rbfOwner = 0)

def ethStep (s : EthState) : EthEvent → EthState
  | .frame f =>
    if s.dma.available then { s with dma := s.dma.receive f, taken := s.taken ++ [f.bytes] } else s
  | .ethRx =>
    if s.inNetReceive || s.ethRxReturnsZero then s
    else { s with inNetReceive := true, passed := s.passed ++ [s.dma.frame s.rbfp] }
  | .netReceiveStores a b =>
    if s.inNetReceive && !s.foreign a then { s with dma := s.dma.write a b } else s
  | .netReceiveReturns =>
    if s.inNetReceive then
      let dma := s.dma.release s.rbfp
      { s with
        dma := dma
        rbfp := if (dma.desc s.rbfp).addr &&& rbfWrap ≠ 0 then 0 else s.rbfp + 1
        inNetReceive := false }
    else s

def ethRun (s : EthState) (es : List EthEvent) : EthState := es.foldl ethStep s

/-- The ring holds `q`, and nothing that was taken got lost on its way to `NetReceive`. The entry
`NetReceive` works on is in the ring but no longer waiting. -/
structure Flow (framebuf : Word) (s : EthState) (q : List Entry) : Prop where
  framebuf_eq : s.framebuf = framebuf
  formed : Formed rbfFramemax framebuf s.dma
  holds : Holds rbfFramemax s.dma.slot s.rbfp s.dma.rbq q
  busy : s.inNetReceive = true → q ≠ []
  taken_eq : s.taken = s.passed ++ (if s.inNetReceive then q.tail else q).map Prod.fst

variable {framebuf : Word} {s : EthState} {q : List Entry}

theorem flow_ethInit (h : framebuf &&& 3 = 0) (mem : Word → Byte) :
    Flow framebuf (ethInit framebuf mem) [] where
  framebuf_eq := rfl
  formed := formed_descriptors h (by decide) mem
  holds := holds_empty (by decide) (fun i _ => descriptors_slot h mem i)
  busy h := by simp [ethInit] at h
  taken_eq := rfl

theorem Flow.frame (h : Flow framebuf s q) (f : Frame) :
    ∃ q', Flow framebuf (ethStep s (.frame f)) q' := by
  rw [ethStep]
  split
  · rename_i ha
    have htail := h.holds.tail_lt
    have hfree : q.length < rbfFramemax :=
      h.holds.slot_tail_eq_none_iff.mp (available_iff.mp ha)
    have hholds := h.holds.push hfree (h.formed.receive_slot f htail ha)
      (fun i hi hne => h.formed.receive_slot_ne f htail hi hne)
    rw [← h.formed.receive_rbq f htail ha] at hholds
    refine ⟨q ++ [f.entry], h.framebuf_eq, h.formed.receive f, hholds, by simp, ?_⟩
    rw [h.taken_eq, List.append_assoc]
    cases hb : s.inNetReceive with
    | false => simp [Frame.entry]
    | true => simp [Frame.entry, List.tail_append_of_ne_nil (h.busy hb)]
  · exact ⟨q, h⟩

theorem Flow.returnsZero_iff (h : Flow framebuf s q) : s.ethRxReturnsZero = true ↔ q = [] := by
  have hslot := h.holds.slot_head
  rw [EthState.ethRxReturnsZero, decide_eq_true_iff]
  rw [Dma.slot] at hslot
  split at hslot
  · rename_i hown
    exact iff_of_true hown (List.head?_eq_none_iff.mp hslot.symm)
  · rename_i hown
    refine iff_of_false hown ?_
    intro hq
    rw [hq] at hslot
    simp at hslot

theorem Flow.ethRx (h : Flow framebuf s q) : ∃ q', Flow framebuf (ethStep s .ethRx) q' := by
  rw [ethStep]
  split
  · exact ⟨q, h⟩
  · rename_i hc
    obtain ⟨hidle, hready⟩ : s.inNetReceive = false ∧ s.ethRxReturnsZero = false := by
      simpa using hc
    have hne : q ≠ [] := by
      intro hq
      rw [h.returnsZero_iff.mpr hq] at hready
      simp at hready
    cases q with
    | nil => exact absurd rfl hne
    | cons e q =>
      have hframe : s.dma.frame s.rbfp = e.1 := by
        have hslot := h.holds.slot_head
        rw [Dma.slot] at hslot
        split at hslot
        · simp at hslot
        · rw [List.head?_cons, Option.some.injEq] at hslot
          rw [← hslot]
      refine ⟨e :: q, h.framebuf_eq, h.formed, h.holds, fun _ => hne, ?_⟩
      rw [h.taken_eq, hidle, hframe]
      simp

theorem Flow.stores (h : Flow framebuf s q) (a : Word) (b : Byte) :
    ∃ q', Flow framebuf (ethStep s (.netReceiveStores a b)) q' := by
  rw [ethStep]
  split
  · rename_i hc
    obtain ⟨hbusy, hown⟩ : s.inNetReceive = true ∧ s.foreign a = false := by simpa using hc
    cases q with
    | nil => exact absurd rfl (h.busy hbusy)
    | cons e q =>
      have hother : ∀ i < rbfFramemax, i ≠ s.rbfp → (s.dma.write a b).slot i = s.dma.slot i := by
        intro i hi hne
        apply h.formed.write_slot b hi
        intro hin
        rw [EthState.foreign, h.framebuf_eq, hin] at hown
        simp [hi, hne] at hown
      have hfirst : ∃ e', (s.dma.write a b).slot s.rbfp = some e' := by
        have hslot := h.holds.slot_head
        rw [Dma.slot] at hslot ⊢
        split at hslot
        · simp at hslot
        · rename_i hset
          exact ⟨_, if_neg hset⟩
      obtain ⟨e', he'⟩ := hfirst
      refine ⟨e' :: q, h.framebuf_eq, h.formed.write a b, h.holds.replace he' hother, by simp, ?_⟩
      rw [h.taken_eq, hbusy]
      simp
  · exact ⟨q, h⟩

theorem Flow.returns (h : Flow framebuf s q) :
    ∃ q', Flow framebuf (ethStep s .netReceiveReturns) q' := by
  rw [ethStep]
  split
  · rename_i hbusy
    cases q with
    | nil => exact absurd rfl (h.busy hbusy)
    | cons e q =>
      have hhead := h.holds.head_lt
      have hformed := h.formed.release s.rbfp
      have hnext : (if ((s.dma.release s.rbfp).desc s.rbfp).addr &&& rbfWrap ≠ 0 then 0
          else s.rbfp + 1) = next rbfFramemax s.rbfp := by
        rw [next]
        simp only [hformed.wrap s.rbfp hhead]
      have hholds := h.holds.pop (release_slot s.dma s.rbfp)
        (fun i hi hne => h.formed.release_slot_ne hi hne)
      rw [← hnext] at hholds
      refine ⟨q, h.framebuf_eq, hformed, hholds, by simp, ?_⟩
      rw [h.taken_eq, hbusy]
      simp
  · exact ⟨q, h⟩

theorem Flow.step (h : Flow framebuf s q) (e : EthEvent) :
    ∃ q', Flow framebuf (ethStep s e) q' := by
  cases e with
  | frame f => exact h.frame f
  | ethRx => exact h.ethRx
  | netReceiveStores a b => exact h.stores a b
  | netReceiveReturns => exact h.returns

theorem Flow.run (h : Flow framebuf s q) (es : List EthEvent) :
    ∃ q', Flow framebuf (ethRun s es) q' := by
  induction es generalizing s q with
  | nil => exact ⟨q, h⟩
  | cons e es ih =>
    obtain ⟨q', h'⟩ := h.step e
    exact ih h'

/-- However the EMAC and `eth_rx` interleave, `NetReceive` gets the frames the EMAC took, each once,
whole and in order. The EMAC is turned away only when 64 frames wait or are worked on, and `eth_rx`
returns 0 only when none waits. -/
theorem ethRx_queue (framebuf : Word) (h : framebuf &&& 3 = 0) (mem : Word → Byte)
    (es : List EthEvent) : ∃ waiting,
      let s := ethRun (ethInit framebuf mem) es
      s.taken = s.passed ++ waiting ∧
      (s.dma.available = true ↔ waiting.length + s.inNetReceive.toNat < rbfFramemax) ∧
      (s.inNetReceive = false → (s.ethRxReturnsZero = true ↔ waiting = [])) := by
  obtain ⟨q, hq⟩ := (flow_ethInit h mem).run es
  refine ⟨_, hq.taken_eq, ?_, ?_⟩
  · rw [available_iff, hq.holds.slot_tail_eq_none_iff]
    cases hb : (ethRun (ethInit framebuf mem) es).inNetReceive with
    | false => simp
    | true =>
      have hpos := List.length_pos_of_ne_nil (hq.busy hb)
      simp
      omega
  · intro hidle
    rw [hq.returnsZero_iff, hidle]
    simp

theorem ethRx_queue_one_frame : ∃ waiting,
    let s := ethRun (ethInit 0x20000000 fun _ => 0)
      [.frame ⟨[1, 2, 3, 4], 0, by decide, by decide, by decide⟩, .ethRx, .netReceiveReturns]
    s.taken = s.passed ++ waiting ∧
    (s.dma.available = true ↔ waiting.length + s.inNetReceive.toNat < rbfFramemax) ∧
    (s.inNetReceive = false → (s.ethRxReturnsZero = true ↔ waiting = [])) :=
  ethRx_queue 0x20000000 (by decide) (fun _ => 0) _

end Armboard.Emac
