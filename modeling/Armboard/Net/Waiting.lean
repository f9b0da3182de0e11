import Armboard.Net.Arp

/-! # What waits for an address goes out once

Between two calls of `NetSendUDPPacket` or `PingSend` a station hears any frames, with the
packet handler called for those that bring something for it, and its loop looks at the time
for the reply. The packet that waits stays as it is until the reply comes that is asked for,
and goes out then, once, with the address in that reply.
-/

namespace Armboard.Net

/-- What `packetHandler` points to. -/
abbrev Handler := Call → Globals → Globals

/-- A frame that is heard, with the handler that is set then, or a look at the time. -/
inductive Event where
  | hear (handler : Handler) (inpkt : List Byte) (len : Word)
  | look (expired : Bool)

/-- `NetReceive`, the call of the packet handler included. -/
def hear (handler : Handler) (inpkt : List Byte) (len : Word) (net : Globals) : Globals :=
  match netReceive inpkt len net with
  | (net, none) => net
  | (net, some call) => handler call net

def step (net : Globals) : Event → Globals
  | .hear handler inpkt len => hear handler inpkt len net
  | .look expired => (arpTimeoutCheck expired net).1

def run (net : Globals) (es : List Event) : Globals := es.foldl step net

structure Replies (arp : List Byte) (len : Word) (net : Globals) (addr : List Byte) : Prop where
  length : len.slt 28 = false
  format : arpFormat arp = true
  ourIP : net.ourIP ≠ 0
  tpa : netReadIP (arp.drop 24) = net.ourIP
  op : ntohs (arp.drop 6) = 2
  spa : netReadIP (arp.drop 14) = net.arpWaitReplyIP
  sha : addr = (arp.drop 8).take 6

def Answers (net : Globals) (addr : List Byte) : Event → Prop
  | .hear _ inpkt len => ∃ link, linkHeader inpkt len net = some link ∧ ¬ otherVlan link net = true ∧
      link.prot = protArp ∧ Replies (inpkt.drop link.start) link.len net addr
  | .look _ => False

structure Idle (net : Globals) : Prop where
  mac : net.arpWaitPacketMAC = none
  ip : net.arpWaitPacketIP = 0

structure SameWait (net net' : Globals) : Prop where
  mac : net'.arpWaitPacketMAC = net.arpWaitPacketMAC
  ip : net'.arpWaitPacketIP = net.arpWaitPacketIP
  packet : net'.arpWaitTxPacket = net.arpWaitTxPacket

/-- The handler, if it is called, sends nothing that would have to wait. -/
def Quiet (net : Globals) : Event → Prop
  | .hear handler inpkt len => ∀ call, (netReceive inpkt len net).2 = some call →
      SameWait (netReceive inpkt len net).1 (handler call (netReceive inpkt len net).1)
  | .look _ => True

/-- So it is at every event of a run. -/
def QuietRun (net : Globals) : List Event → Prop
  | [] => True
  | e :: es => Quiet net e ∧ QuietRun (step net e) es

variable {net net' : Globals} {place : Ether} {frame addr inpkt : List Byte} {start : ℕ} {len : Word}

/-! ## One event -/

theorem SameWait.trans {net'' : Globals} (h : SameWait net net') (h' : SameWait net' net'') :
    SameWait net net'' :=
  ⟨h'.mac.trans h.mac, h'.ip.trans h.ip, h'.packet.trans h.packet⟩

theorem Waits.of_same (h : Waits net place frame) (hs : SameWait net net') :
    Waits net' place frame :=
  ⟨hs.mac.trans h.mac, hs.ip ▸ h.ip, hs.packet.trans h.packet⟩

theorem Idle.of_same (h : Idle net) (hs : SameWait net net') : Idle net' :=
  ⟨hs.mac.trans h.mac, hs.ip.trans h.ip⟩

theorem receiveIcmp_sameWait : SameWait net (receiveIcmp inpkt start len net).1 := by
  rw [receiveIcmp]
  split_ifs <;> exact ⟨rfl, rfl, rfl⟩

theorem receiveIp_sameWait : SameWait net (receiveIp inpkt start len net).1 := by
  simp only [receiveIp]
  split_ifs <;> first | exact ⟨rfl, rfl, rfl⟩ | exact receiveIcmp_sameWait

theorem receiveRarp_sameWait : SameWait net (receiveRarp inpkt start len net).1 := by
  simp only [receiveRarp]
  split_ifs <;> exact ⟨rfl, rfl, rfl⟩

theorem arpRequest_sameWait (net : Globals) : SameWait net (arpRequest net) := by
  obtain ⟨output, h⟩ := arpRequest_eq net
  rw [h]
  exact ⟨rfl, rfl, rfl⟩

/-- An ARP packet that is no reply to the request. -/
theorem receiveArp_sameWait (hno : ∀ addr, ¬ Replies (inpkt.drop start) len net addr) :
    SameWait net (receiveArp inpkt start len net) := by
  simp only [receiveArp]
  split_ifs with hlen hformat hip htpa hop hop'
  all_goals try exact ⟨rfl, rfl, rfl⟩
  rw [arpReply]
  split
  · exact ⟨rfl, rfl, rfl⟩
  · by_cases hspa : netReadIP ((inpkt.drop start).drop 14) = net.arpWaitReplyIP
    · refine absurd ⟨?_, ?_, hip, not_not.mp htpa, hop', hspa, rfl⟩ (hno _)
      · simpa using hlen
      · simpa using hformat
    · rw [if_pos (.inr hspa)]
      exact ⟨rfl, rfl, rfl⟩

theorem receiveProt_sameWait {prot : Word}
    (hno : prot = protArp → ∀ addr, ¬ Replies (inpkt.drop start) len net addr) :
    SameWait net (receiveProt prot inpkt start len net).1 := by
  rw [receiveProt]
  split_ifs with harp
  · exact receiveArp_sameWait (hno harp)
  · exact receiveRarp_sameWait
  · exact receiveIp_sameWait
  · exact ⟨rfl, rfl, rfl⟩

theorem netReceive_sameWait {handler : Handler}
    (hno : ∀ addr, ¬ Answers net addr (.hear handler inpkt len)) :
    SameWait net (netReceive inpkt len net).1 := by
  rw [netReceive]
  cases hlink : linkHeader inpkt len net with
  | none => exact ⟨rfl, rfl, rfl⟩
  | some link =>
    by_cases hother : otherVlan link net = true
    · simp only [hother, if_true]
      exact ⟨rfl, rfl, rfl⟩
    · simp only [hother]
      exact receiveProt_sameWait fun harp addr h => hno addr ⟨link, hlink, hother, harp, h⟩

theorem hear_sameWait {handler : Handler} (hquiet : Quiet net (.hear handler inpkt len))
    (hno : ∀ addr, ¬ Answers net addr (.hear handler inpkt len)) :
    SameWait net (hear handler inpkt len net) := by
  have hreceive := netReceive_sameWait hno
  rw [hear]
  split
  · rename_i net' hnet'
    rw [hnet'] at hreceive
    exact hreceive
  · rename_i net' call hnet'
    have hhandler := hquiet call (congrArg Prod.snd hnet')
    rw [hnet'] at hreceive hhandler
    exact hreceive.trans hhandler

theorem look_sameWait (expired : Bool) : SameWait net (arpTimeoutCheck expired net).1 := by
  simp only [arpTimeoutCheck]
  split_ifs
  · exact ⟨rfl, rfl, rfl⟩
  · exact ⟨rfl, rfl, rfl⟩
  · have hs := arpRequest_sameWait { net with arpWaitTry := net.arpWaitTry + 1 }
    exact ⟨hs.mac, hs.ip, hs.packet⟩

/-- A reply to the request, which is not handed on. -/
theorem hear_reply {handler : Handler} (ha : Answers net addr (.hear handler inpkt len)) :
    ∃ arp, hear handler inpkt len net = arpReply arp net ∧
      netReadIP (arp.drop 14) = net.arpWaitReplyIP ∧ addr = (arp.drop 8).take 6 := by
  obtain ⟨link, hlink, hother, hprot, hr⟩ := ha
  have hop : ¬ (2 : Word) = 1 := by decide
  refine ⟨inpkt.drop link.start, ?_, hr.spa, hr.sha⟩
  have hreceive : netReceive inpkt len net = (arpReply (inpkt.drop link.start) net, none) := by
    simp only [netReceive, hlink, hother]
    rw [if_neg (by decide), hprot, receiveProt_arp]
    simp only [receiveArp, hr.length, hr.format, if_neg hr.ourIP, hr.tpa, hr.op, if_neg hop]
    simp only [Bool.false_eq_true, if_false, Bool.not_true, ne_eq, not_true_eq_false, if_true]
  rw [hear, hreceive]

theorem step_sameWait {e : Event} (hquiet : Quiet net e) (hno : ∀ addr, ¬ Answers net addr e) :
    SameWait net (step net e) := by
  cases e with
  | hear handler inpkt len => exact hear_sameWait hquiet hno
  | look expired => exact look_sameWait expired

theorem Waits.step {e : Event} (h : Waits net place frame) (ha : Answers net addr e) :
    step net e = release place frame addr net := by
  cases e with
  | hear handler inpkt len =>
    obtain ⟨arp, hreceive, hspa, hsha⟩ := hear_reply ha
    rw [hsha]
    exact hreceive.trans (h.reply hspa)
  | look expired => exact ha.elim

theorem Idle.step {e : Event} (h : Idle net) (hquiet : Quiet net e) : Idle (step net e) := by
  by_cases ha : ∃ addr, Answers net addr e
  · obtain ⟨addr, ha⟩ := ha
    cases e with
    | look expired => exact ha.elim
    | hear handler inpkt len =>
      obtain ⟨arp, hreceive, -⟩ := hear_reply ha
      have hsame : Net.step net (.hear handler inpkt len) = net := by
        rw [Net.step, hreceive, arpReply, h.mac]
      rw [hsame]
      exact h
  · exact h.of_same (step_sameWait hquiet fun addr haddr => ha ⟨addr, haddr⟩)

/-! ## Runs -/

theorem Idle.run {es : List Event} (h : Idle net) (hquiet : QuietRun net es) :
    Idle (run net es) := by
  induction es generalizing net with
  | nil => exact h
  | cons e es ih => exact ih (h.step hquiet.1) hquiet.2

end Armboard.Net
