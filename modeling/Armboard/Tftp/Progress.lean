import Armboard.Tftp.Transfer

/-! # A transfer can be finished

As long as the client has not given up, there is a way on from every state of a session to
the whole file: the server's packet is one the client takes, or the acknowledgement that
the server waits for was sent.
-/

namespace Armboard.Tftp
open Env Exec Net Storage

variable {file : List Byte} {port : Word} {c₀ : Client} {w : World file} {t : Transfer file}
  {c : Client}

def CanLoad (w : World file) : Prop :=
  ∃ es w', Run step es w w' ∧ ∃ size, w'.outcome = .loaded size

theorem CanLoad.after {e : Event file} {w' : World file} (hs : step e w w') (h : CanLoad w') :
    CanLoad w := by
  obtain ⟨es, w'', hrun, hsize⟩ := h
  exact ⟨e :: es, w'', ⟨w', hs, hrun⟩, hsize⟩

theorem CanLoad.now {size : Word} (h : w.outcome = .loaded size) : CanLoad w :=
  ⟨[], w, rfl, size, h⟩

structure Going (port : Word) (c₀ : Client) (w : World file) : Prop where
  inv : Inv port c₀ w
  running : w.outcome = .running
  handler : w.client.packetHandler = .tftpHandler

/-- The next packet, and nothing else in this turn. -/
def hear (call : Call) : Event file := .turn ⟨some call, false, false, false⟩

def World.hear (w : World file) (call : Call) : World file :=
  let c := tftpHandler call.pkt call.dest call.src call.len w.client
  { w with client := c, outcome := Tftp.outcome c }

theorem World.hear_success {call : Call} (h : (w.hear call).client.netState = .netloopSuccess) :
    CanLoad (w.hear call) := by
  have hloaded : (w.hear call).outcome = .loaded (w.hear call).client.netBootFileXferSize := by
    rw [show (w.hear call).outcome = Tftp.outcome (w.hear call).client from rfl, Tftp.outcome, h]
  exact CanLoad.now hloaded

theorem Going.hear (h : Going port c₀ w) {call : Call} (ha : Arrives w call) :
    step (hear call) w (w.hear call) := by
  refine ⟨h.running, ?_, ?_⟩
  · intro call' hcall
    cases hcall
    exact ha
  · have hturn : netLoopTurn ⟨some call, false, false, false⟩ w.client =
        ((w.hear call).client, (w.hear call).outcome) := by
      simp only [netLoopTurn, handlePacket, h.handler]
      rfl
    rw [hturn]
    rfl

theorem Answer.packet_length (a : Answer file) (k : ℕ) :
    ¬ BitVec.ofNat 32 (a.packet k).length < 2 := by
  have hlen : 2 ≤ (a.packet k).length ∧ (a.packet k).length < 2 ^ 32 := by
    cases k with
    | zero =>
      rw [packet, List.length_append, htons_length]
      cases ho : a.options with
      | none => exact ⟨by omega, by simp [cstrings]⟩
      | some l =>
        have hl := (a.acknowledges l ho).2
        rw [Option.getD_some]
        omega
    | succ k =>
      have hblk := a.blk_lt
      rw [packet, dataPacket, List.length_append, List.length_append, htons_length, htons_length,
        fileBlock_length]
      omega
  rw [BitVec.lt_def, BitVec.toNat_ofNat, Nat.mod_eq_of_lt hlen.2]
  exact Nat.not_lt.mpr hlen.1

/-! ## What the client takes -/

/-- A block that the client stores: it comes next, or it is the first one. -/
theorem tftpData_takes {k : ℕ} (hk : k + 1 < 0x10000) (src : List Byte) (p len : Word)
    (h : c.state = .data ∧ c.lastBlock ≠ BitVec.ofNat 32 (k + 1) ∧ p = c.serverPort ∨
      (c.state = .rrq ∨ c.state = .oack) ∧ k = 0) :
    let c' := tftpData (htons (BitVec.ofNat 32 (k + 1)) ++ src) p len c
    c'.packetHandler = c.packetHandler ∧ c'.state = .data ∧ c'.serverPort = p ∧
      c'.lastBlock = BitVec.ofNat 32 (k + 1) ∧
      (c'.netState = .netloopSuccess ∨ c'.netState = c.netState) := by
  have hne : BitVec.ofNat 32 (k + 1) ≠ 0 := by
    intro h0
    have hz := congrArg BitVec.toNat h0
    rw [BitVec.toNat_ofNat, Nat.mod_eq_of_lt (by omega)] at hz
    cases hz
  have hnum : ntohs (htons (BitVec.ofNat 32 (k + 1)) ++ src) = BitVec.ofNat 32 (k + 1) :=
    ntohs_ofNat hk _
  obtain ⟨output, hcount⟩ := countBlock_of_ne (c := { c with block := BitVec.ofNat 32 (k + 1) }) hne
  have hnext : ∀ c' : Client, c'.block = BitVec.ofNat 32 (k + 1) → c'.block ≠ c'.lastBlock →
      let d := tftpNextBlock ((htons (BitVec.ofNat 32 (k + 1)) ++ src).drop 2) len c'
      d.packetHandler = c'.packetHandler ∧ d.state = c'.state ∧ d.serverPort = c'.serverPort ∧
        d.lastBlock = BitVec.ofNat 32 (k + 1) ∧
        (d.netState = .netloopSuccess ∨ d.netState = c'.netState) := by
    intro c' hblock hlast
    simp only [tftpNextBlock, if_neg hlast]
    split
    · exact ⟨rfl, rfl, rfl, hblock, .inl rfl⟩
    · exact ⟨rfl, rfl, rfl, hblock, .inr rfl⟩
  simp only [tftpData, hnum, hcount]
  cases h with
  | inl h =>
    obtain ⟨hdata, hlast, rfl⟩ := h
    have hs : ¬ (c.state = .rrq ∨ c.state = .oack) := by
      rw [hdata]
      decide
    have hd := hnext { c with block := BitVec.ofNat 32 (k + 1), output := output } rfl hlast.symm
    rw [if_neg hs]
    exact ⟨hd.1, hd.2.1.trans hdata, hd.2.2⟩
  | inr h =>
    obtain ⟨hs, rfl⟩ := h
    have hone : ¬ BitVec.ofNat 32 (0 + 1) ≠ 1 := by decide
    rw [if_pos hs, if_neg hone]
    exact hnext { c with
      block := BitVec.ofNat 32 (0 + 1), output := output, state := .data, serverPort := p
      lastBlock := 0, blockWrap := 0, blockWrapOffset := 0 } rfl hne

theorem tftpOack_takes (pkt : List Byte) (p len : Word) :
    (tftpOack pkt p len c).packetHandler = c.packetHandler ∧ (tftpOack pkt p len c).state = .oack ∧
      (tftpOack pkt p len c).serverPort = p ∧ (tftpOack pkt p len c).netState = c.netState := by
  simp only [tftpOack]
  split <;> exact ⟨rfl, rfl, rfl, rfl⟩

/-! ## One step on -/

structure Took (w w' : World file) (p : Word) (state : State) : Prop where
  transfers : w'.transfers = w.transfers
  handler : w'.client.packetHandler = .tftpHandler
  state_eq : w'.client.state = state
  serverPort : w'.client.serverPort = p

theorem Going.took {p : Word} {state : State} {call : Call} (h : Going port c₀ w)
    (ha : Arrives w call) (hstate : state ≠ .rrq) (ht : Took w (w.hear call) p state)
    (hnet : (w.hear call).client.netState = .netloopContinue) (htransfer : w.transfers p = some t) :
    Going port c₀ (w.hear call) ∧ Engaged port w.transfers t (w.hear call).client := by
  have hinv := h.inv.step _ (h.hear ha)
  have hgoing : Going port c₀ (w.hear call) := by
    refine ⟨hinv, ?_, ht.handler⟩
    rw [show (w.hear call).outcome = outcome (w.hear call).client from rfl, outcome, hnet]
  refine ⟨hgoing, ?_⟩
  cases hinv.session.active hnet ht.handler with
  | inl hw => exact absurd (ht.state_eq.symm.trans hw.state) hstate
  | inr he =>
    obtain ⟨t', he⟩ := he
    rw [ht.transfers] at he
    have htt : some t' = some t := by
      rw [← he.transfer, ht.serverPort]
      exact htransfer
    cases htt
    exact he

/-- The client takes a block of a transfer, and is done or waits for the next one. -/
theorem Going.block {p : Word} {k : ℕ} (h : Going port c₀ w) (ht : w.transfers p = some t)
    (hclient : t.client = port) (hfirst : t.answer.first ≤ k + 1) (hk : k + 1 ≤ t.pos)
    (hcase : w.client.state = .data ∧ w.client.lastBlock ≠ BitVec.ofNat 32 (k + 1) ∧
        p = w.client.serverPort ∨
      (w.client.state = .rrq ∨ w.client.state = .oack ∧ p = w.client.serverPort) ∧ k = 0)
    (hnext : ∀ w' : World file, Going port c₀ w' → w'.transfers = w.transfers →
      Engaged port w'.transfers t w'.client → w'.client.state = .data →
      w'.client.lastBlock = BitVec.ofNat 32 (k + 1) → CanLoad w') : CanLoad w := by
  have hlast := t.answer.blocks_lt
  have hpos := (h.inv.placed p t ht).2
  have hlt : k + 1 < 0x10000 := by
    rw [Answer.last] at hpos
    omega
  have ha : Arrives w ⟨t.answer.packet (k + 1) ++ [], t.client, p,
      BitVec.ofNat 32 (t.answer.packet (k + 1)).length⟩ := .packet [] ht hfirst hk
  have hdest : t.client = w.client.ourPort := hclient.trans h.inv.session.ourPort.symm
  have hsrc : w.client.state = .rrq ∨ p = w.client.serverPort := by
    cases hcase with
    | inl hd => exact .inr hd.2.2
    | inr hs => exact hs.1.imp id fun ho => ho.2
  have hcase' : w.client.state = .data ∧ w.client.lastBlock ≠ BitVec.ofNat 32 (k + 1) ∧
        p = w.client.serverPort ∨
      (w.client.state = .rrq ∨ w.client.state = .oack) ∧ k = 0 :=
    hcase.imp id fun hs => ⟨hs.1.imp id fun ho => ho.1, hs.2⟩
  have hclient' := tftpHandler_reaches ⟨t.answer.packet (k + 1) ++ [], t.client, p,
    BitVec.ofNat 32 (t.answer.packet (k + 1)).length⟩ hdest hsrc (t.answer.packet_length (k + 1))
  rw [Answer.packet, tftpReceive_dataPacket t.answer.blk_lt] at hclient'
  have htakes := tftpData_takes hlt (fileBlock file t.answer.blk k ++ []) p
    (BitVec.ofNat 32 (fileBlock file t.answer.blk k).length) hcase'
  rw [← hclient'] at htakes
  obtain ⟨hhandler, hstate, hport, hblock, hnet⟩ := htakes
  refine CanLoad.after (h.hear ha) ?_
  cases hnet with
  | inl hs => exact World.hear_success hs
  | inr hc =>
    have htook := h.took ha (by decide) ⟨rfl, hhandler.trans h.handler, hstate, hport⟩
      (hc.trans (h.inv.running h.running)) ht
    exact hnext _ htook.1 rfl htook.2 hstate hblock

theorem Going.acknowledge (h : Going port c₀ w) (he : Engaged port w.transfers t w.client)
    (hack : Acknowledged w.client t.pos) (hpos : t.pos < t.answer.last)
    (hnext : ∀ w' : World file, Going port c₀ w' → w'.client = w.client →
      Engaged port w'.transfers { t with pos := t.pos + 1 } w'.client → CanLoad w') : CanLoad w := by
  obtain ⟨d, hd, hport, hpayload⟩ := hack
  have ht : w.transfers d.dport = some t := by
    rw [hport]
    exact he.transfer
  have hs : step (.acknowledge d) w { w with
      transfers := Function.update w.transfers d.dport (some { t with pos := t.pos + 1 }) } :=
    ⟨hd, t, ht, hpayload, hpos, rfl⟩
  have hinv := h.inv.step _ hs
  refine CanLoad.after hs (hnext _ ⟨hinv, h.running, h.handler⟩ rfl ?_)
  cases hinv.session.active (h.inv.running h.running) h.handler with
  | inl hw =>
    have hrrq := hw.state
    cases he.state with
    | inl hd => exact State.noConfusion (hd.symm.trans hrrq)
    | inr ho => exact State.noConfusion (ho.symm.trans hrrq)
  | inr he' =>
    obtain ⟨t', he'⟩ := he'
    have htt : some t' = some { t with pos := t.pos + 1 } := by
      rw [← he'.transfer, ← hport]
      exact Function.update_self ..
    cases htt
    exact he'

/-! ## To the end -/

theorem ofNat_ne {j k : ℕ} (hj : j < 0x10000) (hk : k < 0x10000) (h : j ≠ k) :
    BitVec.ofNat 32 j ≠ BitVec.ofNat 32 k := by
  intro heq
  have hnat := congrArg BitVec.toNat heq
  rw [BitVec.toNat_ofNat, BitVec.toNat_ofNat, Nat.mod_eq_of_lt (by omega),
    Nat.mod_eq_of_lt (by omega)] at hnat
  exact h hnat

/-- In the middle of the blocks. The induction is on what the server still has to send. -/
theorem canLoad_data (n : ℕ) : ∀ (w : World file) (t : Transfer file), Going port c₀ w →
    Engaged port w.transfers t w.client → w.client.state = .data → t.answer.last - t.pos = n →
    CanLoad w := by
  induction n using Nat.strong_induction_on with
  | _ n ih =>
    intro w t h he hdata hn
    have hlt := t.answer.blocks_lt
    have hplaced := h.inv.placed _ _ he.transfer
    have hacked : ∀ w' : World file, Going port c₀ w' → Engaged port w'.transfers t w'.client →
        w'.client.state = .data → Acknowledged w'.client t.pos → t.pos < t.answer.last →
        CanLoad w' := by
      intro w' h' he' hdata' hack hpos
      refine h'.acknowledge he' hack hpos ?_
      intro w'' h'' hclient he''
      exact ih (t.answer.last - (t.pos + 1)) (by omega) w'' _ h'' he'' (hclient ▸ hdata') rfl
    obtain ⟨_, j, hj, hlast, _, hack⟩ := he.data hdata
    by_cases h0 : t.pos = 0
    · have hpos : t.pos < t.answer.last := by
        rw [h0]
        exact Nat.succ_pos _
      exact hacked w h he hdata (h0 ▸ he.opened h0) hpos
    · by_cases hjpos : j = t.pos
      · rw [hjpos] at hack hj
        exact hacked w h he hdata hack hj
      · obtain ⟨k, hk⟩ : ∃ k, t.pos = k + 1 := ⟨t.pos - 1, by omega⟩
        have hne : w.client.lastBlock ≠ BitVec.ofNat 32 (k + 1) := by
          rw [hlast, ← hk]
          exact ofNat_ne (hj.trans hlt) (hplaced.2.trans_lt hlt) hjpos
        refine h.block he.transfer he.client (hk ▸ hplaced.1) hk.ge (.inl ⟨hdata, hne, rfl⟩) ?_
        intro w' h' htransfers he' hdata' hlast'
        obtain ⟨_, i, hi, hlasti, _, hacki⟩ := he'.data hdata'
        have hik : i = k + 1 := by
          by_contra hik
          exact ofNat_ne (hi.trans hlt) (hk ▸ hplaced.2.trans_lt hlt) hik (hlasti.symm.trans hlast')
        rw [hik, ← hk] at hacki hi
        exact hacked w' h' he' hdata' hacki hi

theorem canLoad_oack (h : Going port c₀ w) (he : Engaged port w.transfers t w.client)
    (hoack : w.client.state = .oack) : CanLoad w := by
  have hfirst : ∀ w' : World file, ∀ t : Transfer file, Going port c₀ w' →
      Engaged port w'.transfers t w'.client → w'.client.state = .oack → 1 ≤ t.pos → CanLoad w' := by
    intro w' t h' he' hoack' hpos
    refine h'.block (k := 0) he'.transfer he'.client t.answer.first_le_one hpos
      (.inr ⟨.inr ⟨hoack', rfl⟩, rfl⟩) ?_
    intro w'' h'' _ he'' hdata _
    exact canLoad_data _ w'' t h'' he'' hdata rfl
  by_cases h0 : t.pos = 0
  · have hpos : t.pos < t.answer.last := by
      rw [h0]
      exact Nat.succ_pos _
    refine h.acknowledge he (h0 ▸ he.opened h0) hpos ?_
    intro w' h' hclient he'
    exact hfirst w' _ h' he' (hclient ▸ hoack) (Nat.succ_pos _)
  · exact hfirst w t h he hoack (Nat.pos_of_ne_zero h0)

/-- A server has answered, and the client has not heard it yet. -/
theorem canLoad_answered {p : Word} (h : Going port c₀ w) (hw : Waiting port w.transfers w.client)
    (ht : w.transfers p = some t) : CanLoad w := by
  obtain ⟨hclient, hpos⟩ := hw.first p t ht
  by_cases h0 : t.answer.first = 0
  · have ha : Arrives w ⟨t.answer.packet 0 ++ [], t.client, p,
        BitVec.ofNat 32 (t.answer.packet 0).length⟩ := .packet [] ht h0.le (Nat.zero_le _)
    have hreaches := tftpHandler_reaches ⟨t.answer.packet 0 ++ [], t.client, p,
      BitVec.ofNat 32 (t.answer.packet 0).length⟩ (hclient.trans h.inv.session.ourPort.symm)
      (.inl hw.state) (t.answer.packet_length 0)
    have hop : ntohs (t.answer.packet 0 ++ []) = 6 := by
      rw [List.append_nil]
      exact ntohs_htons (by decide) _
    rw [tftpReceive, if_pos hop] at hreaches
    have htakes := tftpOack_takes (c := w.client) ((t.answer.packet 0 ++ []).drop 2) p
      (BitVec.ofNat 32 (t.answer.packet 0).length - 2)
    rw [← hreaches] at htakes
    obtain ⟨hhandler, hstate, hport, hnet⟩ := htakes
    have htook := h.took ha (by decide) ⟨rfl, hhandler.trans h.handler, hstate, hport⟩
      (hnet.trans (h.inv.running h.running)) ht
    exact CanLoad.after (h.hear ha) (canLoad_oack htook.1 htook.2 hstate)
  · have hle := t.answer.first_le_one
    refine h.block (k := 0) ht hclient hle (by omega) (.inr ⟨.inl hw.state, rfl⟩) ?_
    intro w' h' _ he' hdata _
    exact canLoad_data _ w' t h' he' hdata rfl

/-- No server has answered, or none has heard the request. -/
theorem canLoad_waiting (h : Going port c₀ w) (hw : Waiting port w.transfers w.client)
    (answer : Answer file) : CanLoad w := by
  by_cases hnone : ∃ p t, w.transfers p = some t
  · obtain ⟨p, t, ht⟩ := hnone
    exact canLoad_answered h hw ht
  · obtain ⟨d, hd⟩ := List.exists_mem_of_ne_nil _ hw.asked
    have hp : w.transfers 0 = none := Option.eq_none_iff_forall_not_mem.mpr
      fun t ht => hnone ⟨0, t, ht⟩
    have hs : step (.request d 0 answer) w { w with
        transfers := Function.update w.transfers 0 (some ⟨answer, d.sport, answer.first⟩) } :=
      ⟨hd, (hw.sent d hd).2, hp, rfl⟩
    have hinv := h.inv.step _ hs
    refine CanLoad.after hs ?_
    cases hinv.session.active (h.inv.running h.running) h.handler with
    | inl hw' =>
      exact canLoad_answered ⟨hinv, h.running, h.handler⟩ hw' (Function.update_self ..)
    | inr he =>
      obtain ⟨t, he⟩ := he
      cases he.state with
      | inl hdata => exact State.noConfusion (hdata.symm.trans hw.state)
      | inr ho => exact State.noConfusion (ho.symm.trans hw.state)

/-- A session that has neither ended nor given up can still load the whole file, whatever the network
did before. -/
theorem run_canLoad (es : List (Event file)) (timer : Word) (c : Client) (w : World file)
    (hrun : Run step es (start timer c) w) (hout : w.outcome = .running)
    (hhandler : w.client.packetHandler = .tftpHandler) (answer : Answer file) :
    ∃ es' w', Run step es' w w' ∧ w'.outcome = .loaded (BitVec.ofNat 32 file.length) := by
  have hinv := inv_run hrun
  have hgoing : Going (1024 + timer % 3072) c w := ⟨hinv, hout, hhandler⟩
  have hcan : CanLoad w := by
    cases hinv.session.active (hinv.running hout) hhandler with
    | inl hw => exact canLoad_waiting hgoing hw answer
    | inr he =>
      obtain ⟨t, he⟩ := he
      cases he.state with
      | inl hdata => exact canLoad_data _ w t hgoing he hdata rfl
      | inr hoack => exact canLoad_oack hgoing he hoack
  obtain ⟨es', w', hrun', size, hsize⟩ := hcan
  have hinv' := hrun'.keeps (fun e _ _ _ h hs => h.step e hs) hinv
  obtain ⟨hs, rfl⟩ := hinv'.loaded size hsize
  have hlen := (hinv'.session.success hs).1
  refine ⟨es', w', hrun', ?_⟩
  rw [hsize, ← hlen, BitVec.ofNat_toNat, BitVec.setWidth_eq]

def tenBytes : List Byte := [1, 2, 3, 4, 5, 6, 7, 8, 9, 10]

theorem eight_acknowledges : ∀ l ∈ some [ascii "blksize", decimal 8],
    OptionsFor 8 l ∧ (cstrings l).length < 0x10000 := by
  intro l hl
  cases hl
  exact ⟨.inr ⟨[], [], rfl, List.forall_mem_nil _⟩, by decide⟩

/-- The server agrees to blocks of eight bytes. -/
def eightAnswer : Answer tenBytes where
  options := some [ascii "blksize", decimal 8]
  blk := 8
  blk_pos := Nat.succ_pos 7
  blk_lt := Nat.lt_of_sub_eq_succ rfl
  plain h := absurd h (Option.some_ne_none _)
  acknowledges := eight_acknowledges
  blocks_lt := Nat.lt_of_sub_eq_succ rfl

def World.turn (w : World file) (t : Turn) : World file :=
  { w with client := (netLoopTurn t w.client).1, outcome := (netLoopTurn t w.client).2 }

/-- Packet `k` of the server on port 7. -/
def eightPacket (k : ℕ) : Turn :=
  ⟨some ⟨eightAnswer.packet k ++ [], 1024, 7, BitVec.ofNat 32 (eightAnswer.packet k).length⟩,
    false, false, false⟩

def World.serve (w : World tenBytes) (pos : ℕ) : World tenBytes :=
  { w with transfers := Function.update w.transfers 7 (some ⟨eightAnswer, 1024, pos⟩) }

/-- The options were acknowledged and came again; the first block is stored. -/
def halfway : World tenBytes :=
  ((((start 0 .initial).serve 0).turn (eightPacket 0)).serve 1).turn (eightPacket 0)
    |>.turn (eightPacket 1)

theorem run_halfway : ∃ es, Run step es (start 0 .initial) halfway := by
  let s : World tenBytes := start 0 .initial
  let w₀ := s.serve 0
  let w₁ := w₀.turn (eightPacket 0)
  let w₂ := (w₁.serve 1).turn (eightPacket 0)
  have hzero : ∀ w : World tenBytes, ∀ pos, w.transfers 7 = some ⟨eightAnswer, 1024, pos⟩ →
      ∀ call ∈ (eightPacket 0).received, Arrives w call := by
    intro w pos ht call hcall
    cases hcall
    exact .packet (t := ⟨eightAnswer, 1024, pos⟩) (k := 0) [] ht le_rfl (Nat.zero_le pos)
  have hone : ∀ call ∈ (eightPacket 1).received, Arrives w₂ call := by
    intro call hcall
    cases hcall
    exact .packet (t := ⟨eightAnswer, 1024, 1⟩) (k := 1) [] rfl (Nat.zero_le 1) le_rfl
  refine ⟨[.request ⟨0, 69, 1024, tftpPacket s.client⟩ 7 eightAnswer, .turn (eightPacket 0),
    .acknowledge ⟨0, 7, 1024, ackPacket 0⟩, .turn (eightPacket 0), .turn (eightPacket 1)], ?_⟩
  refine ⟨w₀, ⟨List.mem_cons_self, rfl, rfl, rfl⟩, w₁, ⟨rfl, hzero w₀ 0 rfl, rfl⟩, w₁.serve 1, ?_, w₂,
    ⟨by decide +kernel, hzero (w₁.serve 1) 1 rfl, rfl⟩, halfway, ⟨by decide +kernel, hone, rfl⟩, rfl⟩
  exact ⟨by decide +kernel, ⟨eightAnswer, 1024, 0⟩, rfl, rfl, by decide, rfl⟩

theorem run_canLoad_halfway : halfway.outcome = .running ∧
    view halfway.client.mem 0x21000000 7 = 8 ∧ view halfway.client.mem 0x21000000 8 = 0 ∧
    ∃ es' w', Run step es' halfway w' ∧ w'.outcome = .loaded 10 := by
  obtain ⟨es, hrun⟩ := run_halfway
  have hout : halfway.outcome = .running := by decide +kernel
  have hhandler : halfway.client.packetHandler = .tftpHandler := by decide +kernel
  refine ⟨hout, by decide +kernel, by decide +kernel, ?_⟩
  exact run_canLoad es 0 .initial halfway hrun hout hhandler eightAnswer

end Armboard.Tftp
