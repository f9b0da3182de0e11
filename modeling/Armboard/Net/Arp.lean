import Armboard.Net.Datagram

/-! # The search for a hardware address

A datagram for a station whose hardware address is not known waits while `ArpRequest` asks
for it. The station that has the address answers, the address is kept, and the datagram goes
out with it.
-/

namespace Armboard.Net

variable {A B : Globals} {addr sha tha rest : List Byte} {op spa tpa prot len : Word}

/-! ## An ARP packet -/

theorem exists_six {l : List Byte} (h : l.length = 6) : ∃ a b c d e f, l = [a, b, c, d, e, f] := by
  match l, h with
  | [a, b, c, d, e, f], _ => exact ⟨a, b, c, d, e, f, rfl⟩

theorem arpPacket_length (hsha : sha.length = 6) (htha : tha.length = 6) :
    (arpPacket op sha spa tha tpa).length = arpHdrSize := by
  simp [arpPacket, htons, netWriteIP, hsha, htha]

theorem arpFormat_arpPacket (l : List Byte) : arpFormat (arpPacket op sha spa tha tpa ++ l) = true := by
  have hhrd : ntohs (arpPacket op sha spa tha tpa ++ l) = 1 := ntohs_htons (by decide) _
  have hpro : ntohs ((arpPacket op sha spa tha tpa ++ l).drop 2) = protIp :=
    ntohs_htons (by decide) _
  have hhln : (arpPacket op sha spa tha tpa ++ l).getD 4 0 = 6 := rfl
  have hpln : (arpPacket op sha spa tha tpa ++ l).getD 5 0 = 4 := rfl
  rw [arpFormat, hhrd, hpro, hhln, hpln]
  rfl

theorem arpPacket_op (hop : op.toNat < 0x10000) (l : List Byte) :
    ntohs ((arpPacket op sha spa tha tpa ++ l).drop 6) = op :=
  ntohs_htons hop _

theorem arpPacket_sha (hsha : sha.length = 6) (l : List Byte) :
    ((arpPacket op sha spa tha tpa ++ l).drop 8).take 6 = sha := by
  obtain ⟨a, b, c, d, e, f, rfl⟩ := exists_six hsha
  rfl

theorem arpPacket_spa (hsha : sha.length = 6) (l : List Byte) :
    netReadIP ((arpPacket op sha spa tha tpa ++ l).drop 14) = spa := by
  obtain ⟨a, b, c, d, e, f, rfl⟩ := exists_six hsha
  exact netReadIP_netWriteIP spa _

theorem arpPacket_tpa (hsha : sha.length = 6) (htha : tha.length = 6) (l : List Byte) :
    netReadIP ((arpPacket op sha spa tha tpa ++ l).drop 24) = tpa := by
  obtain ⟨a, b, c, d, e, f, rfl⟩ := exists_six hsha
  obtain ⟨a', b', c', d', e', f', rfl⟩ := exists_six htha
  exact netReadIP_netWriteIP tpa _

theorem arpPacket_spaBytes (hsha : sha.length = 6) (l : List Byte) :
    ((arpPacket op sha spa tha tpa ++ l).drop 14).take 4 = netWriteIP spa := by
  obtain ⟨a, b, c, d, e, f, rfl⟩ := exists_six hsha
  rfl

/-! ## The answer -/

theorem splice_middle {k : ℕ} {old new : List Byte} (front : List Byte) (hfront : front.length = k)
    (h : old.length = new.length) (l : List Byte) :
    splice (front ++ (old ++ l)) k new = front ++ (new ++ l) := by
  rw [splice, ← hfront, List.take_left, List.append_assoc, ← h, List.drop_length_add_append,
    List.drop_left]

theorem splice_op (op' : Word) (l : List Byte) :
    splice (arpPacket op sha spa tha tpa ++ l) 6 (htons op') =
      arpPacket op' sha spa tha tpa ++ l := by
  simp only [arpPacket, List.append_assoc]
  exact splice_middle [_, _, _, _, _, _] rfl rfl _

theorem splice_sha {sha' : List Byte} (hsha : sha.length = sha'.length) (l : List Byte) :
    splice (arpPacket op sha spa tha tpa ++ l) 8 sha' = arpPacket op sha' spa tha tpa ++ l := by
  simp only [arpPacket, List.append_assoc]
  exact splice_middle [_, _, _, _, _, _, _, _] rfl hsha _

theorem splice_spa (hsha : sha.length = 6) (spa' : Word) (l : List Byte) :
    splice (arpPacket op sha spa tha tpa ++ l) 14 (netWriteIP spa') =
      arpPacket op sha spa' tha tpa ++ l := by
  obtain ⟨a, b, c, d, e, f, rfl⟩ := exists_six hsha
  simp only [arpPacket, List.append_assoc]
  exact splice_middle [_, _, _, _, _, _, _, _, a, b, c, d, e, f] rfl rfl _

theorem splice_tha {tha' : List Byte} (hsha : sha.length = 6) (htha : tha.length = tha'.length)
    (l : List Byte) : splice (arpPacket op sha spa tha tpa ++ l) 18 tha' =
      arpPacket op sha spa tha' tpa ++ l := by
  obtain ⟨a, b, c, d, e, f, rfl⟩ := exists_six hsha
  simp only [arpPacket, List.append_assoc]
  exact splice_middle [_, _, _, _, _, _, _, _, a, b, c, d, e, f, _, _, _, _] rfl htha _

theorem splice_tpa (hsha : sha.length = 6) (htha : tha.length = 6) (tpa' : Word) (l : List Byte) :
    splice (arpPacket op sha spa tha tpa ++ l) 24 (netWriteIP tpa') =
      arpPacket op sha spa tha tpa' ++ l := by
  obtain ⟨a, b, c, d, e, f, rfl⟩ := exists_six hsha
  obtain ⟨a', b', c', d', e', f', rfl⟩ := exists_six htha
  simp only [arpPacket, List.append_assoc]
  exact splice_middle
    [_, _, _, _, _, _, _, _, a, b, c, d, e, f, _, _, _, _, a', b', c', d', e', f'] rfl rfl _

theorem splice_append (front l bytes : List Byte) (k : ℕ) :
    splice (front ++ l) (front.length + k) bytes = front ++ splice l k bytes := by
  rw [splice, splice, List.take_length_add_append, Nat.add_assoc, List.drop_length_add_append]
  simp only [List.append_assoc]

theorem splice_zero {old new : List Byte} (h : old.length = new.length) (l : List Byte) :
    splice (old ++ l) 0 new = new ++ l := by
  rw [splice, List.take_zero, List.nil_append, Nat.zero_add, ← h, List.drop_left]

/-- Source and destination exchanged, with our own address as the source. -/
theorem arpAnswer_arpPacket {front : List Byte} (hfront : front.length = netEthHdrSize B)
    (haddr : ((front ++ (arpPacket op sha spa tha tpa ++ rest)).drop 6).take 6 = addr)
    (hlength : addr.length = 6) (hB : B.ourEther.length = 6) (hsha : sha.length = 6)
    (htha : tha.length = 6) :
    arpAnswer (front ++ (arpPacket op sha spa tha tpa ++ rest)) (netEthHdrSize B) B =
      ethSend (netSetEther B addr protArp ++ arpPacket 2 B.ourEther B.ourIP sha spa) B := by
  have hheader : (netSetEther B addr protArp).length = netEthHdrSize B :=
    netSetEther_length hlength hB
  simp only [arpAnswer, haddr]
  rw [splice_zero (hfront.trans hheader.symm), ← hheader]
  generalize netSetEther B addr protArp = header
  simp only [splice_append, List.drop_length_add_append]
  rw [splice_op, arpPacket_sha hsha, splice_tha hsha (htha.trans hsha.symm), arpPacket_spaBytes hsha,
    splice_tpa hsha hsha, splice_sha (hsha.trans hB.symm), splice_spa hB,
    List.take_length_add_append, List.take_left' (arpPacket_length hB hsha)]

/-! ## What waits -/

/-- The station that is asked: the one with the address, or the gateway. -/
def wanted (net : Globals) (ip : Word) : Word :=
  if ip &&& net.ourSubnetMask ≠ net.ourIP &&& net.ourSubnetMask ∧ net.ourGatewayIP ≠ 0 then
    net.ourGatewayIP
  else ip

def request (net : Globals) (ip : Word) : List Byte :=
  netSetEther net (List.replicate 6 0xff) protArp ++
    arpPacket 1 net.ourEther net.ourIP (List.replicate 6 0) ip

theorem arpRequest_eq (net : Globals) : ∃ output, arpRequest net = { net with
    arpWaitReplyIP := wanted net net.arpWaitPacketIP
    sent := request net (wanted net net.arpWaitPacketIP) :: net.sent
    output := output } := by
  rw [arpRequest, wanted]
  by_cases hsubnet : net.arpWaitPacketIP &&& net.ourSubnetMask ≠ net.ourIP &&& net.ourSubnetMask
  · by_cases hgateway : net.ourGatewayIP = 0
    · rw [if_pos hsubnet, if_pos hgateway, if_neg fun h => h.2 hgateway]
      exact ⟨_, rfl⟩
    · rw [if_pos hsubnet, if_neg hgateway, if_pos ⟨hsubnet, hgateway⟩]
      exact ⟨_, rfl⟩
  · rw [if_neg hsubnet, if_neg fun h => hsubnet h.1]
    exact ⟨_, rfl⟩

structure Waits (net : Globals) (place : Ether) (frame : List Byte) : Prop where
  mac : net.arpWaitPacketMAC = some place
  ip : net.arpWaitPacketIP ≠ 0
  packet : net.arpWaitTxPacket = frame

/-- The address is there, and the packet goes out with it. -/
def release (place : Ether) (frame addr : List Byte) (net : Globals) : Globals :=
  { ethSend (splice frame 0 addr) (net.setEther addr place) with
    arpWaitPacketIP := 0
    arpWaitTxPacket := []
    arpWaitPacketMAC := none }

theorem release_sent (place : Ether) (frame addr : List Byte) (net : Globals) :
    (release place frame addr net).sent = splice frame 0 addr :: net.sent := by
  cases place <;> rfl

theorem release_ether {place : Ether} (h : place ≠ .bcast) (frame addr : List Byte)
    (net : Globals) : (release place frame addr net).ether place = addr := by
  cases place with
  | bcast => exact absurd rfl h
  | server => rfl
  | ping => rfl

theorem Waits.reply {net : Globals} {place : Ether} {frame arp : List Byte}
    (h : Waits net place frame) (hreply : netReadIP (arp.drop 14) = net.arpWaitReplyIP) :
    arpReply arp net = release place frame ((arp.drop 8).take 6) net := by
  have hcond : ¬ (net.arpWaitPacketIP = 0 ∨ netReadIP (arp.drop 14) ≠ net.arpWaitReplyIP) := by
    intro hor
    cases hor with
    | inl hip => exact h.ip hip
    | inr hne => exact hne hreply
  simp only [arpReply, h.mac, if_neg hcond, release]
  cases place <;> rw [← h.packet] <;> rfl

/-! ## The exchange -/

structure Neighbours (A B : Globals) : Prop where
  ether : A.ourEther.length = 6
  ether' : B.ourEther.length = 6
  vlan : vlanOf A = vlanOf B
  ip : A.ourIP ≠ 0
  ip' : B.ourIP ≠ 0

theorem Neighbours.symm (h : Neighbours A B) : Neighbours B A :=
  ⟨h.ether', h.ether, h.vlan.symm, h.ip', h.ip⟩

theorem Neighbours.hdrSize (h : Neighbours A B) : netEthHdrSize A = netEthHdrSize B := by
  have hiff : A.untagged = B.untagged := by
    rw [Bool.eq_iff_iff, untagged_iff, untagged_iff, h.vlan]
  rw [netEthHdrSize, netEthHdrSize, hiff]

theorem receiveProt_arp (inpkt : List Byte) (start : ℕ) (len : Word) (net : Globals) :
    receiveProt protArp inpkt start len net = (receiveArp inpkt start len net, none) :=
  if_pos rfl

theorem netReceive_arpPacket (h : Neighbours A B) (haddr : addr.length = 6)
    (hop : op.toNat < 0x10000) (hsha : sha.length = 6) (htha : tha.length = 6)
    (hlen : (netSetEther A addr protArp ++ arpPacket op sha spa tha B.ourIP).length ≤ len.toNat)
    (hlt : len.toNat < 2 ^ 31) (rest : List Byte) :
    netReceive (netSetEther A addr protArp ++ (arpPacket op sha spa tha B.ourIP ++ rest)) len B =
      (if op = 1 then arpAnswer (netSetEther A addr protArp ++
          (arpPacket op sha spa tha B.ourIP ++ rest)) (netEthHdrSize A) B
        else if op = 2 then arpReply (arpPacket op sha spa tha B.ourIP ++ rest) B else B, none) := by
  have hhdr := netEthHdrSize_le A
  rw [List.length_append, netSetEther_length haddr h.ether, arpPacket_length hsha htha,
    show arpHdrSize = 28 from rfl] at hlen
  have hsub : (len - BitVec.ofNat 32 (netEthHdrSize A)).toNat = len.toNat - netEthHdrSize A :=
    toNat_sub_hdrSize A len (by omega)
  have hslt : (len - BitVec.ofNat 32 (netEthHdrSize A)).slt 28 = false :=
    slt_of_le (k := 28) (by omega) (by omega)
  have hdrop : (netSetEther A addr protArp ++ (arpPacket op sha spa tha B.ourIP ++ rest)).drop
      (netEthHdrSize A) = arpPacket op sha spa tha B.ourIP ++ rest :=
    List.drop_left' (netSetEther_length haddr h.ether)
  rw [netReceive_sameVlan haddr h.ether (.inr rfl) h.vlan (by omega) hlt, receiveProt_arp]
  simp only [receiveArp, hdrop, hslt, arpFormat_arpPacket, arpPacket_tpa hsha htha, arpPacket_op hop]
  simp only [Bool.false_eq_true, if_false, Bool.not_true, h.ip', ne_eq, not_true_eq_false]

theorem netSetEther_src (haddr : addr.length = 6) (hA : A.ourEther.length = 6) (l : List Byte) :
    ((netSetEther A addr prot ++ l).drop 6).take 6 = A.ourEther := by
  rw [netSetEther]
  split <;> simp only [List.append_assoc] <;> rw [List.drop_left' haddr, List.take_left' hA]

theorem netReceive_request (h : Neighbours A B)
    (hlen : (request A B.ourIP).length ≤ len.toNat) (hlt : len.toNat < 2 ^ 31) (rest : List Byte) :
    netReceive (request A B.ourIP ++ rest) len B =
      (ethSend (netSetEther B A.ourEther protArp ++
        arpPacket 2 B.ourEther B.ourIP A.ourEther A.ourIP) B, none) := by
  rw [request, List.append_assoc, netReceive_arpPacket h rfl (by decide) h.ether rfl hlen hlt,
    if_pos rfl, h.hdrSize, arpAnswer_arpPacket ((netSetEther_length rfl h.ether).trans h.hdrSize)
      (netSetEther_src rfl h.ether _) h.ether h.ether' h.ether rfl]

theorem netReceive_answer (h : Neighbours B A) {place : Ether} {frame : List Byte}
    (hwaits : Waits A place frame) (hreply : A.arpWaitReplyIP = B.ourIP)
    (hlen : (netSetEther B A.ourEther protArp ++
      arpPacket 2 B.ourEther B.ourIP A.ourEther A.ourIP).length ≤ len.toNat)
    (hlt : len.toNat < 2 ^ 31) (rest : List Byte) :
    netReceive (netSetEther B A.ourEther protArp ++
      arpPacket 2 B.ourEther B.ourIP A.ourEther A.ourIP ++ rest) len A =
      (release place frame B.ourEther A, none) := by
  rw [List.append_assoc, netReceive_arpPacket h h.ether' (by decide) h.ether h.ether' hlen hlt,
    if_neg (by decide), if_pos rfl,
    hwaits.reply ((arpPacket_spa h.ether rest).trans hreply.symm), arpPacket_sha h.ether]

theorem udpFrame_splice {old new payload : List Byte} {dest dport sport : Word}
    (h : old.length = new.length) : splice (udpFrame A old dest dport sport payload) 0 new =
      udpFrame A new dest dport sport payload := by
  simp only [udpFrame, netSetEther]
  split <;> simp only [List.append_assoc] <;> exact splice_middle [] rfl h _

/-- A datagram for a station whose hardware address is not known: `B`, which has the address or is
the gateway, answers the request, and the answer lets the datagram out to `B`, with its payload
for the station it is for. -/
theorem netSendUDPPacket_resolves {place : Ether} {dest dport sport : Word} {payload : List Byte}
    (h : Neighbours A B) (hnull : A.ether place = List.replicate 6 0)
    (hdest : target dest ≠ 0xFFFFFFFF) (hwanted : wanted A (target dest) = B.ourIP)
    (hfits : Fits dport sport payload) :
    ∃ request answer frame,
      (netSendUDPPacket place dest dport sport payload A).sent = request :: A.sent ∧
      (∀ (rest : List Byte) (len : Word), request.length ≤ len.toNat → len.toNat < 2 ^ 31 →
        netReceive (request ++ rest) len B = (ethSend answer B, none)) ∧
      (∀ (rest : List Byte) (len : Word), answer.length ≤ len.toNat → len.toNat < 2 ^ 31 →
        let A' := (netReceive (answer ++ rest) len
          (netSendUDPPacket place dest dport sport payload A)).1
        A'.sent = frame :: request :: A.sent ∧ A'.ether place = B.ourEther ∧
          A'.arpWaitPacketMAC = none) ∧
      ∀ (C : Globals) (rest : List Byte) (len : Word), vlanOf A = vlanOf C →
        Takes C (target dest) → frame.length ≤ len.toNat → len.toNat < 2 ^ 31 →
          netReceive (frame ++ rest) len C = (C, some (callOf dport sport payload rest)) := by
  have hvia : via place (target dest) = place := if_neg hdest
  have hlength : (A.ether place).length = 6 := by rw [hnull]; rfl
  have hplace : place ≠ .bcast := by
    intro hb
    subst hb
    have hbcast : List.replicate 6 (0xff : Byte) ≠ List.replicate 6 0 := by decide
    exact hbcast hnull
  have htarget : target dest ≠ 0 := by
    rw [target]
    split
    · decide
    · assumption
  let A₁ : Globals := { A with
    ipId := A.ipId + 1
    arpWaitPacketIP := target dest
    arpWaitPacketMAC := some place
    arpWaitTxPacket := udpFrame A (A.ether place) (target dest) dport sport payload
    arpWaitTry := 1 }
  have hsend : netSendUDPPacket place dest dport sport payload A = arpRequest A₁ := by
    rw [netSendUDPPacket_eq, hvia, if_pos hnull]
  obtain ⟨output, hrequest⟩ := arpRequest_eq A₁
  have hwanted' : wanted A₁ A₁.arpWaitPacketIP = B.ourIP := hwanted
  rw [hwanted'] at hrequest
  rw [hsend, hrequest]
  have hn : Neighbours B { A₁ with
      arpWaitReplyIP := B.ourIP
      sent := request A₁ B.ourIP :: A₁.sent
      output := output } := ⟨h.ether', h.ether, h.vlan.symm, h.ip', h.ip⟩
  have hwaits : Waits { A₁ with
      arpWaitReplyIP := B.ourIP
      sent := request A₁ B.ourIP :: A₁.sent
      output := output } place (udpFrame A (A.ether place) (target dest) dport sport payload) :=
    ⟨rfl, htarget, rfl⟩
  refine ⟨request A B.ourIP, netSetEther B A.ourEther protArp ++
    arpPacket 2 B.ourEther B.ourIP A.ourEther A.ourIP,
    udpFrame A B.ourEther (target dest) dport sport payload, rfl, ?_, ?_, ?_⟩
  · intro rest len hlen hlt
    exact netReceive_request h hlen hlt rest
  · intro rest len hlen hlt A'
    have hA' : A' = release place _ B.ourEther _ :=
      congrArg Prod.fst (netReceive_answer hn hwaits rfl hlen hlt rest)
    rw [hA', release_ether hplace, release_sent, udpFrame_splice (hlength.trans h.ether'.symm)]
    exact ⟨rfl, rfl, rfl⟩
  · intro C rest len hvlan htakes hlen hlt
    exact netReceive_udpFrame_takes h.ether' h.ether hfits hvlan htakes hlen hlt rest

/-- A station of a small net without a mask. -/
def Globals.station (n : Byte) : Globals :=
  { Globals.initial with ourEther := [2, 0, 0, 0, 0, n], ourIP := n.setWidth 32 }

/-- A read request to the next station. -/
theorem netSendUDPPacket_resolves_next : ∃ request answer frame,
    (netSendUDPPacket .server 2 69 1024 [0, 1] (.station 1)).sent = [request] ∧
    (∀ (rest : List Byte) (len : Word), answer.length ≤ len.toNat → len.toNat < 2 ^ 31 →
      (netReceive (answer ++ rest) len
        (netSendUDPPacket .server 2 69 1024 [0, 1] (.station 1))).1.sent = [frame, request]) ∧
    ∀ (rest : List Byte) (len : Word), frame.length ≤ len.toNat → len.toNat < 2 ^ 31 →
      netReceive (frame ++ rest) len (.station 2) =
        (.station 2, some (callOf 69 1024 [0, 1] rest)) := by
  obtain ⟨request, answer, frame, hsent, -, hanswer, hframe⟩ :=
    netSendUDPPacket_resolves (A := .station 1) (B := .station 2)
      ⟨rfl, rfl, rfl, by decide, by decide⟩
      (show (Globals.station 1).ether .server = List.replicate 6 0 from rfl)
      (show target 2 ≠ 0xFFFFFFFF by decide) (by decide)
      (show Fits 69 1024 [0, 1] from ⟨by decide, by decide, by decide⟩)
  refine ⟨request, answer, frame, hsent, ?_, ?_⟩
  · intro rest len hlen hlt
    exact (hanswer rest len hlen hlt).1
  · intro rest len hlen hlt
    exact hframe (.station 2) rest len rfl (.inr (.inl (by decide))) hlen hlt

end Armboard.Net
