import Armboard.Tftp.Server

/-! # The client of a transfer

Until a server answers, the client waits with its request sent. From then on it listens to one
transfer: what it acknowledged is stored. Sending again and giving up keep this.
-/

namespace Armboard.Tftp
open Env Exec Net Storage

variable {file : List Byte} {port : Word} {c₀ : Client} {transfers : Word → Option (Transfer file)}
  {t : Transfer file} {c : Client}

/-- The memory from the load address on. -/
def Client.area (c : Client) : ℕ → Byte := view c.mem c.loadAddr

/-- What packet `k` carries is in place. -/
def Stored (a : Answer file) (f : ℕ → Byte) : ℕ → Prop
  | 0 => True
  | k + 1 => ∀ i < (a.block k).length, f (k * a.blk + i) = file.getD (k * a.blk + i) 0

/-- A datagram of the session: a request, or what server port `p` gets acknowledged. -/
def Sent (port p : Word) (a : Answer file) (f : ℕ → Byte) (d : Datagram) : Prop :=
  d.sport = port ∧ (d.payload.take 2 = htons 1 ∨
    d.dport = p ∧ ∃ k < 0x10000, d.payload = ackPacket k ∧ Stored a f k)

/-- No server has been heard. -/
structure Waiting (port : Word) (transfers : Word → Option (Transfer file)) (c : Client) : Prop where
  state : c.state = .rrq
  blkSize : c.blkSize = 512
  block : c.block = 0
  first : ∀ p t, transfers p = some t → t.client = port ∧ t.pos = t.answer.first
  asked : c.sent ≠ []
  sent : ∀ d ∈ c.sent, d.sport = port ∧ d.payload.take 2 = htons 1

/-- The transfer the client listens to. -/
structure Ready (port : Word) (transfers : Word → Option (Transfer file)) (t : Transfer file)
    (c : Client) : Prop where
  transfer : transfers c.serverPort = some t
  client : t.client = port
  blkSize : c.blkSize.toNat = t.answer.blk
  before : ∀ k < t.pos, Stored t.answer c.area k
  sent : ∀ d ∈ c.sent, Sent port c.serverPort t.answer c.area d

/-- The server of the transfer was sent the acknowledgement of packet `k`. -/
def Acknowledged (c : Client) (k : ℕ) : Prop :=
  ∃ d ∈ c.sent, d.dport = c.serverPort ∧ d.payload = ackPacket k

/-- The client holds what it would acknowledge, and has acknowledged what it does not take again. -/
structure Engaged (port : Word) (transfers : Word → Option (Transfer file)) (t : Transfer file)
    (c : Client) : Prop extends Ready port transfers t c where
  state : c.state = .data ∨ c.state = .oack
  block : ∃ k < 0x10000, c.block = BitVec.ofNat 32 k ∧ Stored t.answer c.area k
  opened : t.pos = 0 → Acknowledged c 0
  data : c.state = .data → c.blockWrapOffset = 0 ∧
    ∃ k < t.answer.last, c.lastBlock = BitVec.ofNat 32 k ∧ Stored t.answer c.area k ∧ Acknowledged c k

def Complete (file : List Byte) (c : Client) : Prop :=
  c.netBootFileXferSize.toNat = file.length ∧ ∀ i < file.length, c.area i = file.getD i 0

/-- What never changes on the way. -/
structure Bounded (file : List Byte) (port : Word) (c₀ : Client) (c : Client) : Prop where
  ourPort : c.ourPort = port
  loadAddr : c.loadAddr = c₀.loadAddr
  frame : ∀ i, file.length ≤ i → i < 2 ^ 32 → c.area i = c₀.area i
  size : c.netBootFileXferSize.toNat ≤ file.length

/-- The client of a session that listens on `port` and began with `c₀`. -/
structure Session (port : Word) (c₀ : Client) (transfers : Word → Option (Transfer file))
    (c : Client) : Prop extends Bounded file port c₀ c where
  success : c.netState = .netloopSuccess → Complete file c
  active : c.netState = .netloopContinue → c.packetHandler = .tftpHandler →
    Waiting port transfers c ∨ ∃ t, Engaged port transfers t c

/-! ## Sending -/

theorem Waiting.tftpSend (h : Waiting port transfers c) (hport : c.ourPort = port) :
    Waiting port transfers (tftpSend c) where
  state := h.state
  blkSize := h.blkSize
  block := h.block
  first := h.first
  asked := List.cons_ne_nil _ _
  sent := by
    intro d hd
    cases List.mem_cons.mp hd with
    | inl hd =>
      rw [hd]
      have hpacket : (tftpPacket c).take 2 = htons 1 := by
        rw [tftpPacket, h.state]
        rfl
      exact ⟨hport, hpacket⟩
    | inr hd => exact h.sent d hd

theorem tftpPacket_ack {k : ℕ} (hstate : c.state = .data ∨ c.state = .oack)
    (hk : c.block = BitVec.ofNat 32 k) : tftpPacket c = ackPacket k := by
  cases hstate with
  | inl h => rw [tftpPacket, h, hk, ackPacket]
  | inr h => rw [tftpPacket, h, hk, ackPacket]

theorem Acknowledged.tftpSend {k : ℕ} (h : Acknowledged c k) : Acknowledged (tftpSend c) k := by
  obtain ⟨d, hd, hport, hpayload⟩ := h
  exact ⟨d, List.mem_cons_of_mem _ hd, hport, hpayload⟩

theorem acknowledged_tftpSend {k : ℕ} (hstate : c.state = .data ∨ c.state = .oack)
    (hk : c.block = BitVec.ofNat 32 k) : Acknowledged (tftpSend c) k :=
  ⟨_, List.mem_cons_self, rfl, tftpPacket_ack hstate hk⟩

theorem Ready.tftpSend (h : Ready port transfers t c) (hport : c.ourPort = port)
    (hstate : c.state = .data ∨ c.state = .oack)
    (hblock : ∃ k < 0x10000, c.block = BitVec.ofNat 32 k ∧ Stored t.answer c.area k) :
    Ready port transfers t (tftpSend c) where
  transfer := h.transfer
  client := h.client
  blkSize := h.blkSize
  before := h.before
  sent := by
    intro d hd
    cases List.mem_cons.mp hd with
    | inl hd =>
      obtain ⟨k, hlt, hk, hstored⟩ := hblock
      rw [hd]
      exact ⟨hport, .inr ⟨rfl, k, hlt, tftpPacket_ack hstate hk, hstored⟩⟩
    | inr hd => exact h.sent d hd

theorem Engaged.tftpSend (h : Engaged port transfers t c) (hport : c.ourPort = port) :
    Engaged port transfers t (tftpSend c) where
  toReady := h.toReady.tftpSend hport h.state h.block
  state := h.state
  block := h.block
  opened hpos := (h.opened hpos).tftpSend
  data hd := by
    obtain ⟨hwrap, k, hlt, hk, hstored, hack⟩ := h.data hd
    exact ⟨hwrap, k, hlt, hk, hstored, hack.tftpSend⟩

/-! ## Giving up and waiting -/

structure Same (c c' : Client) : Prop where
  ourPort : c'.ourPort = c.ourPort
  loadAddr : c'.loadAddr = c.loadAddr
  serverPort : c'.serverPort = c.serverPort
  block : c'.block = c.block
  lastBlock : c'.lastBlock = c.lastBlock
  blockWrapOffset : c'.blockWrapOffset = c.blockWrapOffset
  state : c'.state = c.state
  blkSize : c'.blkSize = c.blkSize
  area : c'.area = c.area
  size : c'.netBootFileXferSize = c.netBootFileXferSize
  sent : c'.sent = c.sent

variable {c' : Client}

theorem Waiting.congr (h : Waiting port transfers c) (hs : Same c c') : Waiting port transfers c' where
  state := hs.state.trans h.state
  blkSize := hs.blkSize.trans h.blkSize
  block := hs.block.trans h.block
  first := h.first
  asked := by
    rw [hs.sent]
    exact h.asked
  sent := by
    rw [hs.sent]
    exact h.sent

theorem Engaged.congr (h : Engaged port transfers t c) (hs : Same c c') :
    Engaged port transfers t c' := by
  constructor
  · constructor
    · rw [hs.serverPort]
      exact h.transfer
    · exact h.client
    · rw [hs.blkSize]
      exact h.blkSize
    · rw [hs.area]
      exact h.before
    · rw [hs.sent, hs.serverPort, hs.area]
      exact h.sent
  · rw [hs.state]
    exact h.state
  · rw [hs.block, hs.area]
    exact h.block
  · rw [Acknowledged, hs.sent, hs.serverPort]
    exact h.opened
  · intro hd
    rw [hs.state] at hd
    obtain ⟨hwrap, k, hlt, hk, hstored, hack⟩ := h.data hd
    refine ⟨hs.blockWrapOffset.trans hwrap, k, hlt, hs.lastBlock.trans hk, ?_, ?_⟩
    · rw [hs.area]
      exact hstored
    · rw [Acknowledged, hs.sent, hs.serverPort]
      exact hack

theorem Complete.congr (h : Complete file c) (hs : Same c c') : Complete file c' := by
  rw [Complete, hs.size, hs.area]
  exact h

/-- A session goes on where only the state of the loop changes, and not for the better. -/
theorem Session.congr (h : Session port c₀ transfers c) (hs : Same c c')
    (hsuccess : c'.netState = .netloopSuccess → c.netState = .netloopSuccess)
    (hactive : c'.netState = .netloopContinue → c'.packetHandler = .tftpHandler →
      c.netState = .netloopContinue ∧ c.packetHandler = .tftpHandler) :
    Session port c₀ transfers c' where
  ourPort := hs.ourPort.trans h.ourPort
  loadAddr := hs.loadAddr.trans h.loadAddr
  frame := by
    rw [hs.area]
    exact h.frame
  size := by
    rw [hs.size]
    exact h.size
  success hc := (h.success (hsuccess hc)).congr hs
  active hc hp := by
    obtain ⟨hc, hp⟩ := hactive hc hp
    cases h.active hc hp with
    | inl hw => exact .inl (hw.congr hs)
    | inr he =>
      obtain ⟨t, he⟩ := he
      exact .inr ⟨t, he.congr hs⟩

theorem Waiting.session (h : Waiting port transfers c) (hb : Bounded file port c₀ c)
    (hrun : c.netState = .netloopContinue) : Session port c₀ transfers c where
  toBounded := hb
  success hs := by
    rw [hrun] at hs
    cases hs
  active _ _ := .inl h

theorem Engaged.session (h : Engaged port transfers t c) (hb : Bounded file port c₀ c)
    (hrun : c.netState = .netloopContinue) : Session port c₀ transfers c where
  toBounded := hb
  success hs := by
    rw [hrun] at hs
    cases hs
  active _ _ := .inr ⟨t, h⟩

/-- No transfer rests on the timer or the output. -/
theorem Session.aside (h : Session port c₀ transfers c) (n : ℕ) (timer : Option TimeHandler)
    (output : List Output) : Session port c₀ transfers
      { c with timeoutCount := n, timeHandler := timer, output := output } :=
  h.congr ⟨rfl, rfl, rfl, rfl, rfl, rfl, rfl, rfl, rfl, rfl, rfl⟩ id And.intro

theorem Session.say (h : Session port c₀ transfers c) (format : String) (args : List Arg) :
    Session port c₀ transfers (say format args c) := h.aside _ _ _

theorem Bounded.netStartAgain (h : Bounded file port c₀ c)
    (hsuccess : c.netState = .netloopSuccess → Complete file c) :
    Session port c₀ transfers (netStartAgain c) := by
  have hsame : Same c (Tftp.netStartAgain c) := by
    rw [Tftp.netStartAgain]
    split <;> exact ⟨rfl, rfl, rfl, rfl, rfl, rfl, rfl, rfl, rfl, rfl, rfl⟩
  constructor
  · exact ⟨hsame.ourPort.trans h.ourPort, hsame.loadAddr.trans h.loadAddr, hsame.area ▸ h.frame,
      hsame.size ▸ h.size⟩
  · rw [Tftp.netStartAgain]
    split
    · exact fun hs => NetState.noConfusion hs
    · exact hsuccess
  · rw [Tftp.netStartAgain]
    split
    · exact fun hs => NetState.noConfusion hs
    · exact fun _ hp => PacketHandler.noConfusion hp

theorem Session.netStartAgain (h : Session port c₀ transfers c) :
    Session port c₀ transfers (netStartAgain c) := h.toBounded.netStartAgain h.success

theorem Session.tftpSend (h : Session port c₀ transfers c) :
    Session port c₀ transfers (tftpSend c) where
  ourPort := h.ourPort
  loadAddr := h.loadAddr
  frame := h.frame
  size := h.size
  success := h.success
  active hc hp := by
    cases h.active hc hp with
    | inl hw => exact .inl (hw.tftpSend h.ourPort)
    | inr he =>
      obtain ⟨t, he⟩ := he
      exact .inr ⟨t, he.tftpSend h.ourPort⟩

theorem Session.tftpTimeout (h : Session port c₀ transfers c) :
    Session port c₀ transfers (tftpTimeout c) := by
  simp only [Tftp.tftpTimeout]
  split
  · exact (h.aside _ _ _).netStartAgain
  · exact (h.aside _ _ _).tftpSend

theorem Session.handleTimer (h : Session port c₀ transfers c) :
    Session port c₀ transfers (handleTimer c) := by
  simp only [Tftp.handleTimer]
  split
  · exact h
  · exact (h.aside _ _ _).tftpTimeout
  · exact h.congr ⟨rfl, rfl, rfl, rfl, rfl, rfl, rfl, rfl, rfl, rfl, rfl⟩ (by simp) (by simp)

end Armboard.Tftp
