import Armboard.Tftp.Blocks

/-! # A turn of the loop

What arrives is a packet of a transfer, an error or a stray datagram. With each of them the
client stays in its session.
-/

namespace Armboard.Tftp
open Env Exec Net Storage

variable {file : List Byte} {port : Word} {c₀ : Client} {transfers : Word → Option (Transfer file)}
  {t : Transfer file} {c : Client}

/-! ## Packets at the client -/

def Placed (transfers : Word → Option (Transfer file)) : Prop :=
  ∀ p t, transfers p = some t → t.answer.first ≤ t.pos ∧ t.pos ≤ t.answer.last

theorem Placed.update (h : Placed transfers) {p : Word}
    (ht : t.answer.first ≤ t.pos ∧ t.pos ≤ t.answer.last) :
    Placed (Function.update transfers p (some t)) := by
  intro q t' ht'
  by_cases hq : q = p
  · rw [hq, Function.update_self] at ht'
    cases ht'
    exact ht
  · rw [Function.update_of_ne hq] at ht'
    exact h q t' ht'

/-- The client in a running loop that a packet of a transfer gets to. -/
structure Reached (port : Word) (c₀ : Client) (transfers : Word → Option (Transfer file)) (p : Word)
    (t : Transfer file) (c : Client) : Prop extends Bounded file port c₀ c where
  running : c.netState = .netloopContinue
  transfer : transfers p = some t
  active : Waiting port transfers c ∨ c.serverPort = p ∧ Engaged port transfers t c

/-- The client listens to the transfer from now on. -/
theorem Reached.ready {p : Word} {b : BitVec 16} (h : Reached port c₀ transfers p t c)
    (hb : b.toNat = t.answer.blk) :
    Ready port transfers t { c with serverPort := p, blkSize := b } := by
  cases h.active with
  | inl hw =>
    constructor
    · exact h.transfer
    · exact (hw.first p t h.transfer).1
    · exact hb
    · intro k hk
      rw [(hw.first p t h.transfer).2] at hk
      have hle := t.answer.first_le_one
      have h0 : k = 0 := by omega
      rw [h0]
      trivial
    · intro d hd
      have hsent := hw.sent d hd
      exact ⟨hsent.1, .inl hsent.2⟩
  | inr he =>
    obtain ⟨rfl, he⟩ := he
    exact ⟨he.transfer, he.client, hb, he.before, he.sent⟩

/-- The block size is the one the server uses, unless that is still to be heard. -/
theorem Reached.blkSize_eq {p : Word} (h : Reached port c₀ transfers p t c)
    (hplain : Waiting port transfers c → t.answer.blk = 512) : c.blkSize.toNat = t.answer.blk := by
  cases h.active with
  | inl hw =>
    rw [hplain hw]
    exact congrArg BitVec.toNat hw.blkSize
  | inr he => exact he.2.blkSize

theorem Answer.first_pos_iff (a : Answer file) : 0 < a.first ↔ a.options = none := by
  rw [Answer.first]
  cases a.options with
  | none => simp
  | some l => simp

/-- The client takes the options and acknowledges what it has. -/
theorem Reached.tftpSend_oack {p : Word} {b : BitVec 16} (h : Reached port c₀ transfers p t c)
    (hb : b.toNat = t.answer.blk) : Session port c₀ transfers
      (tftpSend { c with state := .oack, serverPort := p, blkSize := b }) := by
  have hready := h.ready hb
  have hr : Ready port transfers t { c with state := .oack, serverPort := p, blkSize := b } :=
    ⟨hready.transfer, hready.client, hready.blkSize, hready.before, hready.sent⟩
  have hblock : ∃ k < 0x10000, c.block = BitVec.ofNat 32 k ∧ Stored t.answer c.area k := by
    cases h.active with
    | inl hw => exact ⟨0, by decide, hw.block, trivial⟩
    | inr he => exact he.2.block
  have hopened : t.pos = 0 → Acknowledged
      (Tftp.tftpSend { c with state := .oack, serverPort := p, blkSize := b }) 0 := by
    intro hpos
    cases h.active with
    | inl hw => exact acknowledged_tftpSend (.inr rfl) hw.block
    | inr he =>
      obtain ⟨rfl, he⟩ := he
      have hack : Acknowledged
          { c with state := .oack, serverPort := c.serverPort, blkSize := b } 0 := he.opened hpos
      exact hack.tftpSend
  exact Engaged.session ⟨hr.tftpSend h.ourPort (.inr rfl) hblock, .inr rfl, hblock, hopened,
    fun hs => State.noConfusion hs⟩ ⟨h.ourPort, h.loadAddr, h.frame, h.size⟩ h.running

theorem Answer.blksizeOption (a : Answer file) {l : List (List Byte)} (hl : a.options = some l)
    (rest : List Byte) : blksizeOption ((cstrings l).length - 8) (cstrings l ++ rest) =
      some (BitVec.ofNat 16 a.blk) ∨
    blksizeOption ((cstrings l).length - 8) (cstrings l ++ rest) = none ∧ a.blk = 512 := by
  cases (a.acknowledges l hl).1 with
  | inl h => exact .inr ⟨blksizeOption_none h.1 rest (Nat.sub_le _ _), h.2⟩
  | inr h =>
    obtain ⟨l₁, l₂, rfl, hplain⟩ := h
    have hlen : (cstrings (l₁ ++ ascii "blksize" :: decimal a.blk :: l₂)).length - 8 =
        (cstrings l₁).length + ((decimal a.blk).length + (cstrings l₂).length + 1) := by
      simp only [cstrings_append, cstrings_cons, List.length_append, List.length_cons]
      rw [show (ascii "blksize").length = 7 from rfl]
      omega
    rw [hlen]
    exact .inl (blksizeOption_some hplain a.blk_pos rest _)

theorem ofNat_length_sub {n m : ℕ} (hm : m ≤ n) :
    BitVec.ofNat 32 n - BitVec.ofNat 32 m = BitVec.ofNat 32 (n - m) := by
  have h := BitVec.ofNat_add (n := 32) (n - m) m
  rw [Nat.sub_add_cancel hm] at h
  rw [h]
  exact BitVec.add_sub_cancel _ _

theorem Reached.oack {p : Word} (h : Reached port c₀ transfers p t c) (hfirst : t.answer.first ≤ 0)
    (rest : List Byte) : Session port c₀ transfers (tftpReceive (t.answer.packet 0 ++ rest) p
      (BitVec.ofNat 32 (t.answer.packet 0).length) c) := by
  have hsome : t.answer.options ≠ none := fun hno =>
    absurd (t.answer.first_pos_iff.mpr hno) (by omega)
  obtain ⟨l, hl⟩ := Option.ne_none_iff_exists'.mp hsome
  have hshort := (t.answer.acknowledges l hl).2
  have hpacket : t.answer.packet 0 = htons 6 ++ cstrings l := by
    rw [Answer.packet, hl]
    rfl
  have hop : ntohs (htons 6 ++ cstrings l ++ rest) = 6 := by
    rw [List.append_assoc]
    exact ntohs_htons (by decide) _
  have hlen : (BitVec.ofNat 32 (htons 6 ++ cstrings l).length - 2).toNat = (cstrings l).length := by
    have hsub := ofNat_length_sub (n := (htons 6 ++ cstrings l).length) (m := 2) (by simp [htons])
    rw [show (2 : Word) = BitVec.ofNat 32 2 from rfl, hsub, List.length_append, htons_length,
      Nat.add_sub_cancel_left, BitVec.toNat_ofNat, Nat.mod_eq_of_lt (by omega)]
  have hblk := t.answer.blk_lt
  rw [hpacket, tftpReceive, if_pos hop, tftpOack, hlen, List.append_assoc]
  rw [show (htons 6 ++ (cstrings l ++ rest)).drop 2 = cstrings l ++ rest from rfl]
  cases t.answer.blksizeOption hl rest with
  | inl hb =>
    rw [hb]
    exact h.tftpSend_oack (by rw [BitVec.toNat_ofNat, Nat.mod_eq_of_lt hblk])
  | inr hb =>
    rw [hb.1]
    exact h.tftpSend_oack (b := c.blkSize) (h.blkSize_eq fun _ => hb.2)

theorem countBlock_of_ne (h : c.block ≠ 0) : ∃ output, countBlock c = { c with output := output } := by
  rw [countBlock, if_neg h]
  split
  · exact ⟨_, rfl⟩
  · split
    · exact ⟨_, rfl⟩
    · exact ⟨c.output, rfl⟩

theorem Reached.block {p : Word} {k : ℕ} (h : Reached port c₀ transfers p t c)
    (hplaced : Placed transfers) (hk : k + 1 ≤ t.pos) (rest : List Byte) :
    Session port c₀ transfers
      (tftpData (htons (BitVec.ofNat 32 (k + 1)) ++ (t.answer.block k ++ rest)) p
        (BitVec.ofNat 32 (t.answer.block k).length) c) := by
  have hpos := (hplaced p t h.transfer).2
  have hlast := t.answer.blocks_lt
  have hlt : k + 1 < 0x10000 := by
    rw [Answer.last] at hpos
    omega
  have hne : BitVec.ofNat 32 (k + 1) ≠ 0 := by
    intro h0
    have hz := congrArg BitVec.toNat h0
    rw [BitVec.toNat_ofNat, Nat.mod_eq_of_lt (by omega)] at hz
    cases hz
  have hnum : ntohs (htons (BitVec.ofNat 32 (k + 1)) ++ (t.answer.block k ++ rest)) =
      BitVec.ofNat 32 (k + 1) := ntohs_ofNat hlt _
  have hblk : c.blkSize.toNat = t.answer.blk := by
    refine h.blkSize_eq fun hw => t.answer.plain (t.answer.first_pos_iff.mp ?_)
    have hstart := (hw.first p t h.transfer).2
    omega
  obtain ⟨output, hcount⟩ := countBlock_of_ne (c := { c with block := BitVec.ofNat 32 (k + 1) }) hne
  simp only [tftpData, hnum, hcount]
  rw [show (htons (BitVec.ofNat 32 (k + 1)) ++ (t.answer.block k ++ rest)).drop 2 =
    t.answer.block k ++ rest from rfl]
  split
  · -- the first block, or one behind repeated options
    have hready := h.ready hblk
    split
    · exact Bounded.netStartAgain ⟨h.ourPort, h.loadAddr, h.frame, h.size⟩ fun hs =>
        NetState.noConfusion (h.running.symm.trans hs)
    · refine Offered.nextBlock ?_ rest
      exact
        { ourPort := h.ourPort, loadAddr := h.loadAddr, frame := h.frame, size := h.size
          transfer := h.transfer, client := hready.client, blkSize := hblk, before := hready.before
          sent := hready.sent, running := h.running
          state := rfl, block := rfl, sent_before := hk, pos_le := hpos, wrap := rfl
          lastBlock := .inl rfl }
  · rename_i hstate
    cases h.active with
    | inl hw => exact absurd (Or.inl hw.state) hstate
    | inr he =>
      obtain ⟨rfl, he⟩ := he
      have hd : c.state = .data := he.state.resolve_right fun ho => hstate (.inr ho)
      refine Offered.nextBlock ?_ rest
      exact
        { ourPort := h.ourPort, loadAddr := h.loadAddr, frame := h.frame, size := h.size
          transfer := h.transfer, client := he.client, blkSize := hblk, before := he.before
          sent := he.sent, running := h.running
          state := hd, block := rfl, sent_before := hk, pos_le := hpos, wrap := (he.data hd).1
          lastBlock := .inr (he.data hd).2 }

theorem tftpReceive_dataPacket {blk : ℕ} (hblk : blk < 0x10000) (k : ℕ) (rest : List Byte) (p : Word)
    (c : Client) :
    tftpReceive (dataPacket file blk k ++ rest) p (BitVec.ofNat 32 (dataPacket file blk k).length) c =
      tftpData (htons (BitVec.ofNat 32 (k + 1)) ++ (fileBlock file blk k ++ rest)) p
        (BitVec.ofNat 32 (fileBlock file blk k).length) c := by
  have hpacket : dataPacket file blk k ++ rest =
      htons 3 ++ (htons (BitVec.ofNat 32 (k + 1)) ++ (fileBlock file blk k ++ rest)) := by
    simp only [dataPacket, List.append_assoc]
  have hlength : (dataPacket file blk k).length = (fileBlock file blk k).length + 2 + 2 := by
    simp only [dataPacket, List.length_append, htons_length]
    omega
  have hop : ntohs (htons 3 ++ (htons (BitVec.ofNat 32 (k + 1)) ++ (fileBlock file blk k ++ rest))) =
      3 := ntohs_htons (by decide) _
  have hshort : (fileBlock file blk k).length < 0x10000 := by
    rw [fileBlock_length]
    omega
  have hsub : BitVec.ofNat 32 ((fileBlock file blk k).length + 2 + 2) - 2 =
      BitVec.ofNat 32 ((fileBlock file blk k).length + 2) := ofNat_length_sub (m := 2) (by omega)
  have hsub' : BitVec.ofNat 32 ((fileBlock file blk k).length + 2) - 2 =
      BitVec.ofNat 32 (fileBlock file blk k).length := ofNat_length_sub (m := 2) (by omega)
  have hge : ¬ BitVec.ofNat 32 ((fileBlock file blk k).length + 2) < 2 := by
    rw [BitVec.lt_def, BitVec.toNat_ofNat, Nat.mod_eq_of_lt (by omega)]
    exact Nat.not_lt.mpr (Nat.le_add_left 2 _)
  rw [hpacket, hlength, tftpReceive, hop, if_neg (by decide), if_pos rfl, hsub, if_neg hge, hsub']
  rfl

/-! ## A turn of the loop -/

theorem tftpHandler_cases (call : Call) (c : Client) :
    tftpHandler call.pkt call.dest call.src call.len c = c ∨
      call.dest = c.ourPort ∧ (c.state = .rrq ∨ call.src = c.serverPort) ∧
      tftpHandler call.pkt call.dest call.src call.len c = tftpReceive call.pkt call.src call.len c := by
  rw [tftpHandler]
  split
  · exact .inl rfl
  · rename_i hdest
    split
    · exact .inl rfl
    · rename_i hsrc
      split
      · exact .inl rfl
      · refine .inr ⟨not_not.mp hdest, ?_, rfl⟩
        by_cases hs : c.state = .rrq
        · exact .inl hs
        · exact .inr (not_not.mp fun hne => hsrc ⟨hs, hne⟩)

theorem Session.tftpHandler {w : World file} (h : Session port c₀ w.transfers w.client)
    (hplaced : Placed w.transfers) (hrun : w.client.netState = .netloopContinue)
    (hhandler : w.client.packetHandler = .tftpHandler) {call : Call} (ha : Arrives w call) :
    Session port c₀ w.transfers
      (tftpHandler call.pkt call.dest call.src call.len w.client) := by
  cases tftpHandler_cases call w.client with
  | inl hsame =>
    rw [hsame]
    exact h
  | inr hto =>
    obtain ⟨hdest, hsrc, heq⟩ := hto
    rw [heq]
    have hactive : Waiting port w.transfers w.client ∨
        w.client.serverPort = call.src ∧ ∃ t, Engaged port w.transfers t w.client := by
      cases h.active hrun hhandler with
      | inl hw => exact .inl hw
      | inr he =>
        obtain ⟨t, he⟩ := he
        refine .inr ⟨?_, t, he⟩
        cases hsrc with
        | inl hs =>
          cases he.state with
          | inl hd => rw [hd] at hs; cases hs
          | inr ho => rw [ho] at hs; cases hs
        | inr hs => exact hs.symm
    cases ha with
    | @packet p t k rest ht hfirst hk =>
      have hreached : Reached port c₀ w.transfers p t w.client := by
        refine ⟨h.toBounded, hrun, ht, ?_⟩
        cases hactive with
        | inl hw => exact .inl hw
        | inr he =>
          obtain ⟨hp, t', he⟩ := he
          have htt : some t' = some t := by
            rw [← he.transfer, hp]
            exact ht
          cases htt
          exact .inr ⟨hp, he⟩
      cases k with
      | zero => exact hreached.oack hfirst rest
      | succ k =>
        rw [Answer.packet, tftpReceive_dataPacket t.answer.blk_lt]
        exact hreached.block hplaced hk rest
    | @error p t body len ht =>
      have hop : ntohs (htons 5 ++ body) = 5 := ntohs_htons (by decide) body
      rw [tftpReceive, hop, if_neg (by decide), if_neg (by decide), if_pos rfl]
      exact ((h.say _ _).say _ _).netStartAgain
    | stray hstray =>
      cases hstray with
      | inl hd => exact absurd hdest hd
      | inr hs =>
        cases hsrc with
        | inl hr => exact absurd hr hs.1
        | inr hp => exact absurd hp hs.2

theorem Session.received {w : World file} (h : Session port c₀ w.transfers w.client)
    (hplaced : Placed w.transfers) (hrun : w.client.netState = .netloopContinue)
    (received : Option Call) : (∀ call ∈ received, Arrives w call) →
    Session port c₀ w.transfers (match received with
      | some call => handlePacket call w.client
      | none => w.client) := by
  intro ha
  cases received with
  | none => exact h
  | some call =>
    simp only [handlePacket]
    split
    · rename_i hhandler
      exact h.tftpHandler hplaced hrun hhandler (ha call rfl)
    · exact h

theorem Session.netLoopTurn {w : World file} (h : Session port c₀ w.transfers w.client)
    (hplaced : Placed w.transfers) (hrun : w.client.netState = .netloopContinue) (turn : Turn)
    (ha : ∀ call ∈ turn.received, Arrives w call) :
    Session port c₀ w.transfers (netLoopTurn turn w.client).1 := by
  have hreceive := h.received hplaced hrun turn.received ha
  simp only [Tftp.netLoopTurn]
  split
  · exact hreceive.say _ _
  · have harp : ∀ c, Session port c₀ w.transfers c → Session port c₀ w.transfers
        (if turn.arpGivesUp then
          Tftp.netStartAgain (Tftp.say "\nARP Retry count exceeded; starting again\n" [] c)
        else c) := by
      intro c hc
      split
      · exact (hc.say _ _).netStartAgain
      · exact hc
    split
    · exact (harp _ hreceive).handleTimer
    · exact harp _ hreceive

theorem outcome_loaded {size : Word} (h : outcome c = .loaded size) :
    c.netState = .netloopSuccess ∧ c.netBootFileXferSize = size := by
  cases hs : c.netState with
  | netloopSuccess =>
    rw [outcome, hs] at h
    exact ⟨rfl, Outcome.loaded.inj h⟩
  | _ =>
    rw [outcome, hs] at h
    cases h

theorem outcome_running (h : outcome c = .running) : c.netState = .netloopContinue := by
  cases hs : c.netState with
  | netloopContinue => rfl
  | _ =>
    rw [outcome, hs] at h
    cases h

/-- A turn ends the loop as its state says, unless a key was pressed. -/
theorem netLoopTurn_outcome (turn : Turn) (c : Client) :
    (netLoopTurn turn c).2 = .failed ∨ (netLoopTurn turn c).2 = outcome (netLoopTurn turn c).1 := by
  simp only [netLoopTurn]
  split
  · exact .inl rfl
  · exact .inr rfl

end Armboard.Tftp
