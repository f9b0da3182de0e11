import Armboard.Net.Checksum

/-! # Datagrams from one station to another

What `NetSendUDPPacket` builds, `NetReceive` takes apart. The other station may have another
address or another VLAN, and the frame may come with bytes behind it or with too small a
length: the handler gets the payload as it was sent, or it is not called.
-/

namespace Armboard.Net

variable {A B : Globals} {addr payload rest : List Byte} {prot dest dport sport len : Word}

/-! ## Words -/

theorem netReadIP_netWriteIP (ip : Word) (l : List Byte) : netReadIP (netWriteIP ip ++ l) = ip := by
  apply BitVec.eq_of_getLsbD_eq
  intro i hi
  simp only [netReadIP, netWriteIP, List.cons_append, List.nil_append, List.getD_cons_zero,
    List.getD_cons_succ, BitVec.getLsbD_append, BitVec.getLsbD_setWidth, BitVec.getLsbD_ushiftRight]
  split_ifs with h0 h1 h2
  · rw [decide_eq_true h0, Bool.true_and]
  · rw [decide_eq_true h1, Bool.true_and, Nat.add_sub_cancel' (by omega)]
  · rw [decide_eq_true h2, Bool.true_and, Nat.sub_sub, Nat.add_sub_cancel' (by omega)]
  · rw [decide_eq_true (by omega), Bool.true_and, Nat.sub_sub, Nat.sub_sub,
      Nat.add_sub_cancel' (by omega)]

theorem slt_of_le {len : Word} {k : ℕ} (hk : k ≤ len.toNat) (hlen : len.toNat < 2 ^ 31) :
    len.slt (BitVec.ofNat 32 k) = false := by
  rw [BitVec.slt_eq_decide, BitVec.toInt_eq_toNat_of_lt (by omega),
    BitVec.toInt_eq_toNat_of_lt (by rw [BitVec.toNat_ofNat]; omega), BitVec.toNat_ofNat]
  apply decide_eq_false
  omega

/-! ## The Ethernet header -/

def vlanOf (net : Globals) : Word := vlanId net.ourVLAN &&& vlanIdmask

theorem untagged_iff : A.untagged = true ↔ vlanOf A = vlanNone := decide_eq_true_iff

theorem vlanOf_lt (net : Globals) : (vlanOf net).toNat < 0x10000 := by
  rw [vlanOf, BitVec.toNat_and]
  exact Nat.and_le_right.trans_lt (by decide)

theorem netSetEther_length (haddr : addr.length = 6) (hA : A.ourEther.length = 6) :
    (netSetEther A addr prot).length = netEthHdrSize A := by
  rw [netSetEther, netEthHdrSize]
  split <;> simp [haddr, hA, htons_length]

/-- What `NetReceive` reads from the header of another station. -/
def linkOf (net : Globals) (prot len : Word) : Link :=
  ⟨prot, netEthHdrSize net, len - BitVec.ofNat 32 (netEthHdrSize net), vlanOf net⟩

/-- The protocols of the frames that the code builds. -/
def Sends (prot : Word) : Prop := prot = protIp ∨ prot = protArp

theorem Sends.lt (h : Sends prot) : prot.toNat < 0x10000 := by
  cases h with
  | inl h => subst h; decide
  | inr h => subst h; decide

theorem Sends.not_length (h : Sends prot) : ¬ prot < 1514 ∧ prot ≠ protVlan := by
  cases h with
  | inl h => subst h; decide
  | inr h => subst h; decide

theorem linkHeader_netSetEther (haddr : addr.length = 6) (hA : A.ourEther.length = 6)
    (hprot : Sends prot) (l : List Byte) :
    linkHeader (netSetEther A addr prot ++ l) len B =
      if len.slt (BitVec.ofNat 32 (netEthHdrSize A)) ∨
        vlanOf A ≠ vlanNone ∧ B.ourVLAN &&& vlanIdmask = vlanNone then none
      else some (linkOf A prot len) := by
  have h12 : (addr ++ A.ourEther).length = 12 := by rw [List.length_append, haddr, hA]
  by_cases hv : vlanOf A = vlanNone
  · have hu := untagged_iff.mpr hv
    have hdrop : (netSetEther A addr prot ++ l).drop 12 = htons prot ++ l := by
      rw [netSetEther, if_pos hu, List.append_assoc]
      exact List.drop_left' h12
    have hx : ntohs (htons prot ++ l) = prot := ntohs_htons hprot.lt l
    simp only [linkHeader, hdrop, hx, if_neg hprot.not_length.1, if_pos hprot.not_length.2,
      netEthHdrSize, linkOf, if_pos hu, hv, ne_eq, not_true_eq_false, false_and, or_false]
    rfl
  · have hu : ¬ A.untagged = true := fun h => hv (untagged_iff.mp h)
    have hdrop : (netSetEther A addr prot ++ l).drop 12 =
        htons protVlan ++ (htons (vlanOf A) ++ (htons prot ++ l)) := by
      rw [netSetEther, if_neg hu]
      simp only [List.append_assoc]
      rw [← List.append_assoc]
      exact List.drop_left' h12
    have hdrop' : (netSetEther A addr prot ++ l).drop 14 = htons (vlanOf A) ++ (htons prot ++ l) := by
      rw [show 14 = 12 + 2 from rfl, ← List.drop_drop, hdrop]
      rfl
    have hdrop'' : (netSetEther A addr prot ++ l).drop 16 = htons prot ++ l := by
      rw [show 16 = 14 + 2 from rfl, ← List.drop_drop, hdrop']
      rfl
    have hx : ntohs (htons protVlan ++ (htons (vlanOf A) ++ (htons prot ++ l))) = protVlan :=
      ntohs_htons (by decide) _
    have htag : ntohs (htons (vlanOf A) ++ (htons prot ++ l)) &&& vlanIdmask = vlanOf A := by
      rw [ntohs_htons (vlanOf_lt A), vlanOf, BitVec.and_assoc, BitVec.and_self]
    have hx' : ntohs (htons prot ++ l) = prot := ntohs_htons hprot.lt l
    have h1514 : ¬ protVlan < 1514 := by decide
    have hshort : len.slt 14 = true → len.slt 18 = true := by
      simp only [BitVec.slt_eq_decide, decide_eq_true_eq]
      exact fun h => h.trans (by decide)
    simp only [linkHeader, hdrop, hdrop', hdrop'', hx, hx', htag, if_neg h1514, ne_eq,
      not_true_eq_false, if_false, netEthHdrSize, linkOf, if_neg hu, hv, not_false_eq_true, true_and]
    change (if len.slt 14 = true then none else if len.slt 18 = true then none else _) =
      if len.slt 18 = true ∨ _ then none else _
    by_cases h18 : len.slt 18 = true
    · rw [if_pos h18, ite_self, if_pos (.inl h18)]
    · rw [if_neg (fun h => h18 (hshort h)), if_neg h18]
      simp only [h18, Bool.false_eq_true, false_or]
      rfl

/-- `NetReceive` drops the frame of another station or comes to the switch. -/
theorem netReceive_netSetEther (haddr : addr.length = 6) (hA : A.ourEther.length = 6)
    (hprot : Sends prot) (len : Word) (B : Globals) (l : List Byte) :
    netReceive (netSetEther A addr prot ++ l) len B = (B, none) ∨
      netReceive (netSetEther A addr prot ++ l) len B = receiveProt prot
        (netSetEther A addr prot ++ l) (netEthHdrSize A)
        (len - BitVec.ofNat 32 (netEthHdrSize A)) B := by
  rw [netReceive, linkHeader_netSetEther haddr hA hprot]
  split_ifs with hnone
  · exact .inl rfl
  · by_cases hother : otherVlan (linkOf A prot len) B = true
    · exact .inl (if_pos hother)
    · exact .inr (if_neg hother)

theorem not_otherVlan (hvlan : vlanOf A = vlanOf B) : ¬ otherVlan (linkOf A prot len) B = true := by
  intro h
  rw [otherVlan, Bool.and_eq_true, Bool.not_eq_true', decide_eq_true_iff] at h
  have hv : vlanOf A ≠ vlanNone := by
    intro hv
    rw [untagged_iff.mpr (hvlan ▸ hv)] at h
    exact Bool.noConfusion h.1
  exact h.2 ((if_neg hv).trans hvlan)

theorem ourVLAN_ne (h : vlanOf B ≠ vlanNone) : B.ourVLAN &&& vlanIdmask ≠ vlanNone := by
  intro hB
  apply h
  rw [vlanOf, vlanId]
  split
  · decide
  · exact hB

theorem netReceive_sameVlan (haddr : addr.length = 6) (hA : A.ourEther.length = 6)
    (hprot : Sends prot) (hvlan : vlanOf A = vlanOf B) (hlen : netEthHdrSize A ≤ len.toNat)
    (hlt : len.toNat < 2 ^ 31) (l : List Byte) :
    netReceive (netSetEther A addr prot ++ l) len B = receiveProt prot
      (netSetEther A addr prot ++ l) (netEthHdrSize A)
      (len - BitVec.ofNat 32 (netEthHdrSize A)) B := by
  have hlong := slt_of_le hlen hlt
  rw [netReceive, linkHeader_netSetEther haddr hA hprot, if_neg]
  · exact if_neg (not_otherVlan hvlan)
  · intro h
    cases h with
    | inl h => exact Bool.noConfusion (hlong.symm.trans h)
    | inr h => exact ourVLAN_ne (hvlan ▸ h.1) h.2

/-! ## The IP header -/

theorem ipHeader_length (len id off ttl p sum src dst : Word) :
    (ipHeader len id off ttl p sum src dst).length = ipHdrSizeNoUdp := rfl

theorem netSetIP_length (n : ℕ) : (netSetIP A dest dport sport n).length = ipHdrSize := rfl

theorem netCksumOk_ipHeader (len id off ttl p src dst : Word) (l : List Byte) :
    netCksumOk (ipHeader len id off ttl p
      (~~~(netCksum (ipHeader len id off ttl p 0 src dst) 10)) src dst ++ l) 10 = true := by
  have hfill := netCksumOk_fill (n := 10) (i := 5) (by decide) (by decide)
    ([0x45, 0] ++ htons len ++ htons id ++ htons off ++ [ttl.setWidth 8, p.setWidth 8])
    (netWriteIP src ++ netWriteIP dst) rfl
  rw [netCksumOk_append (by decide) (ipHeader_length ..).ge]
  exact hfill

theorem netCksumOk_netSetIP (A : Globals) (dest dport sport : Word) (n : ℕ) (l : List Byte) :
    netCksumOk (netSetIP A dest dport sport n ++ l) (ipHdrSizeNoUdp / 2) = true := by
  rw [netSetIP, List.append_assoc]
  exact netCksumOk_ipHeader ..

theorem receiveIp_netSetIP {inpkt : List Byte} {start : ℕ}
    (hdrop : inpkt.drop start = netSetIP A dest dport sport payload.length ++ (payload ++ rest))
    (hpayload : payload.length ≤ 65507) (hdport : dport.toNat < 0x10000)
    (hsport : sport.toNat < 0x10000) :
    receiveIp inpkt start len B =
      if len < 28 then (B, none)
      else if len.slt (BitVec.ofNat 32 (28 + payload.length)) then
        (say "len bad %d < %d\n" [.word len, .word (BitVec.ofNat 32 (28 + payload.length))] B, none)
      else if B.ourIP ≠ 0 ∧ dest ≠ B.ourIP ∧ dest ≠ 0xFFFFFFFF then (B, none)
      else (B, some ⟨payload ++ rest, dport, sport, BitVec.ofNat 32 payload.length⟩) := by
  have hck := netCksumOk_netSetIP A dest dport sport payload.length (payload ++ rest)
  have hipLen : ntohs ((inpkt.drop start).drop 2) = BitVec.ofNat 32 (28 + payload.length) := by
    rw [hdrop]
    exact ntohs_ofNat (k := 28 + payload.length) (by omega) _
  have hdest : netReadIP ((inpkt.drop start).drop 16) = dest := by
    rw [hdrop]
    exact netReadIP_netWriteIP dest _
  have hdport' : ntohs ((inpkt.drop start).drop 22) = dport := by
    rw [hdrop]
    exact ntohs_htons hdport _
  have hsport' : ntohs ((inpkt.drop start).drop 20) = sport := by
    rw [hdrop]
    exact ntohs_htons hsport _
  have hudpLen : ntohs ((inpkt.drop start).drop 24) - 8 = BitVec.ofNat 32 payload.length := by
    have hlen : ntohs ((inpkt.drop start).drop 24) = BitVec.ofNat 32 (8 + payload.length) := by
      rw [hdrop]
      exact ntohs_ofNat (by omega) _
    rw [hlen, BitVec.ofNat_add, BitVec.add_comm]
    exact BitVec.add_sub_cancel _ _
  rw [← hdrop] at hck
  have hversion : (inpkt.drop start).getD 0 0 = 0x45 := by
    rw [hdrop]
    rfl
  have hoff : ntohs ((inpkt.drop start).drop 6) = 0x4000 := by
    rw [hdrop]
    exact ntohs_htons (by decide) _
  have hp : (inpkt.drop start).getD 9 0 = 17 := by
    rw [hdrop]
    rfl
  have hdata : (inpkt.drop start).drop ipHdrSize = payload ++ rest := by
    rw [hdrop]
    rfl
  rw [receiveIp]
  simp only [hck, hipLen, hdest, hdport', hsport', hudpLen, hversion, hoff, hp, hdata]
  rfl

theorem receiveProt_ip (inpkt : List Byte) (start : ℕ) (len : Word) (net : Globals) :
    receiveProt protIp inpkt start len net = receiveIp inpkt start len net := by
  have hprot : protIp ≠ protArp ∧ protIp ≠ protRarp := by decide
  rw [receiveProt, if_neg hprot.1, if_neg hprot.2, if_pos rfl]

theorem netEthHdrSize_le (net : Globals) : netEthHdrSize net ≤ 18 := by
  rw [netEthHdrSize]
  split <;> decide

theorem toNat_sub_hdrSize (net : Globals) (len : Word) (h : netEthHdrSize net ≤ len.toNat) :
    (len - BitVec.ofNat 32 (netEthHdrSize net)).toNat = len.toNat - netEthHdrSize net := by
  have hhdr := netEthHdrSize_le net
  rw [BitVec.toNat_sub, BitVec.toNat_ofNat]
  omega

/-! ## A datagram on its way -/

/-- Where a datagram goes: address zero is the old broadcast. -/
def target (dest : Word) : Word := if dest = 0 then 0xFFFFFFFF else dest

def Takes (net : Globals) (dest : Word) : Prop :=
  net.ourIP = 0 ∨ dest = net.ourIP ∨ dest = 0xFFFFFFFF

structure Fits (dport sport : Word) (payload : List Byte) : Prop where
  dport : dport.toNat < 0x10000
  sport : sport.toNat < 0x10000
  payload : payload.length ≤ 65507

def callOf (dport sport : Word) (payload rest : List Byte) : Call :=
  ⟨payload ++ rest, dport, sport, BitVec.ofNat 32 payload.length⟩

theorem udpFrame_drop (haddr : addr.length = 6) (hA : A.ourEther.length = 6) (rest : List Byte) :
    (netSetEther A addr protIp ++ (netSetIP A dest dport sport payload.length ++ payload ++ rest)).drop
      (netEthHdrSize A) = netSetIP A dest dport sport payload.length ++ (payload ++ rest) := by
  rw [List.drop_left' (netSetEther_length haddr hA), List.append_assoc]

theorem udpFrame_length (haddr : addr.length = 6) (hA : A.ourEther.length = 6) :
    (udpFrame A addr dest dport sport payload).length =
      netEthHdrSize A + (ipHdrSize + payload.length) := by
  rw [udpFrame, List.length_append, netSetEther_length haddr hA, List.length_append, netSetIP_length]

/-- Whoever hears the frame of a datagram, with whatever behind it and whatever length: the handler
gets the payload or is not called. -/
theorem netReceive_udpFrame (haddr : addr.length = 6) (hA : A.ourEther.length = 6)
    (hfits : Fits dport sport payload) (B : Globals) (rest : List Byte) (len : Word) :
    (netReceive (udpFrame A addr dest dport sport payload ++ rest) len B).2 = none ∨
      (netReceive (udpFrame A addr dest dport sport payload ++ rest) len B).2 =
        some (callOf dport sport payload rest) := by
  rw [udpFrame, List.append_assoc]
  rcases netReceive_netSetEther haddr hA (.inl rfl) len B
    (netSetIP A dest dport sport payload.length ++ payload ++ rest) with h | h
  · exact .inl (congrArg Prod.snd h)
  · rw [h, receiveProt_ip, receiveIp_netSetIP (udpFrame_drop haddr hA rest) hfits.payload
      hfits.dport hfits.sport]
    split_ifs
    · exact .inl rfl
    · exact .inl rfl
    · exact .inl rfl
    · exact .inr rfl

/-- A station of the same VLAN and with the address of the datagram gets it. -/
theorem netReceive_udpFrame_takes (haddr : addr.length = 6) (hA : A.ourEther.length = 6)
    (hfits : Fits dport sport payload) (hvlan : vlanOf A = vlanOf B) (htakes : Takes B dest)
    (hlen : (udpFrame A addr dest dport sport payload).length ≤ len.toNat)
    (hlt : len.toNat < 2 ^ 31) (rest : List Byte) :
    netReceive (udpFrame A addr dest dport sport payload ++ rest) len B =
      (B, some (callOf dport sport payload rest)) := by
  have hhdr := netEthHdrSize_le A
  have hpayload := hfits.payload
  rw [udpFrame_length haddr hA, show ipHdrSize = 28 from rfl] at hlen
  have hsub : (len - BitVec.ofNat 32 (netEthHdrSize A)).toNat = len.toNat - netEthHdrSize A :=
    toNat_sub_hdrSize A len (by omega)
  have hshort : ¬ len - BitVec.ofNat 32 (netEthHdrSize A) < 28 := by
    rw [BitVec.lt_def, hsub]
    change ¬ _ < 28
    omega
  have hslt : (len - BitVec.ofNat 32 (netEthHdrSize A)).slt (BitVec.ofNat 32 (28 + payload.length)) =
      false := slt_of_le (by omega) (by omega)
  have hip : ¬ (B.ourIP ≠ 0 ∧ dest ≠ B.ourIP ∧ dest ≠ 0xFFFFFFFF) := by
    intro h
    rcases htakes with ht | ht | ht
    · exact h.1 ht
    · exact h.2.1 ht
    · exact h.2.2 ht
  rw [udpFrame, List.append_assoc, netReceive_sameVlan haddr hA (.inl rfl) hvlan (by omega) hlt,
    receiveProt_ip, receiveIp_netSetIP (udpFrame_drop haddr hA rest) hpayload hfits.dport
      hfits.sport, if_neg hshort, hslt, if_neg Bool.false_ne_true, if_neg hip]
  rfl

/-- The broadcast address needs no search. -/
def via (place : Ether) (dest : Word) : Ether := if dest = 0xFFFFFFFF then .bcast else place

theorem netSendUDPPacket_eq (place : Ether) : netSendUDPPacket place dest dport sport payload A =
    if A.ether (via place (target dest)) = List.replicate 6 0 then
      arpRequest { A with
        ipId := A.ipId + 1
        arpWaitPacketIP := target dest
        arpWaitPacketMAC := some (via place (target dest))
        arpWaitTxPacket :=
          udpFrame A (A.ether (via place (target dest))) (target dest) dport sport payload
        arpWaitTry := 1 }
    else { A with
      ipId := A.ipId + 1
      sent := udpFrame A (A.ether (via place (target dest))) (target dest) dport sport payload ::
        A.sent } := rfl

theorem ether_via_length {place : Ether} (h : (A.ether place).length = 6) (dest : Word) :
    (A.ether (via place dest)).length = 6 := by
  rw [via]
  split
  · rfl
  · exact h

theorem ether_via_ne {place : Ether}
    (h : dest = 0xFFFFFFFF ∨ A.ether place ≠ List.replicate 6 0) :
    A.ether (via place dest) ≠ List.replicate 6 0 := by
  rw [via]
  split
  · exact of_decide_eq_true rfl
  · exact h.resolve_left ‹_›

/-- A datagram that goes out at once: every station that hears its frame, with whatever behind it
and whatever length, passes the payload on as it is or drops it, and in the same VLAN a station
with its address passes it on. -/
theorem netSendUDPPacket_delivers {place : Ether} (hA : A.ourEther.length = 6)
    (hlength : (A.ether place).length = 6)
    (hknown : target dest = 0xFFFFFFFF ∨ A.ether place ≠ List.replicate 6 0)
    (hfits : Fits dport sport payload) :
    ∃ frame, (netSendUDPPacket place dest dport sport payload A).sent = frame :: A.sent ∧
      ∀ (B : Globals) (rest : List Byte) (len : Word),
        ((netReceive (frame ++ rest) len B).2 = none ∨
          (netReceive (frame ++ rest) len B).2 = some (callOf dport sport payload rest)) ∧
        (vlanOf A = vlanOf B → Takes B (target dest) → frame.length ≤ len.toNat →
          len.toNat < 2 ^ 31 → netReceive (frame ++ rest) len B =
            (B, some (callOf dport sport payload rest))) := by
  have haddr := ether_via_length hlength (target dest)
  refine ⟨udpFrame A (A.ether (via place (target dest))) (target dest) dport sport payload, ?_, ?_⟩
  · rw [netSendUDPPacket_eq, if_neg (ether_via_ne hknown)]
  · intro B rest len
    refine ⟨netReceive_udpFrame haddr hA hfits B rest len, ?_⟩
    intro hvlan htakes hlen hlt
    exact netReceive_udpFrame_takes haddr hA hfits hvlan htakes hlen hlt rest

theorem netSendUDPPacket_delivers_broadcast :
    ∃ frame, (netSendUDPPacket .server 0 67 68 [1, 2, 3] .initial).sent = frame :: [] ∧
      ∀ (B : Globals) (rest : List Byte) (len : Word),
        ((netReceive (frame ++ rest) len B).2 = none ∨
          (netReceive (frame ++ rest) len B).2 = some (callOf 67 68 [1, 2, 3] rest)) ∧
        (vlanOf Globals.initial = vlanOf B → Takes B (target 0) → frame.length ≤ len.toNat →
          len.toNat < 2 ^ 31 → netReceive (frame ++ rest) len B =
            (B, some (callOf 67 68 [1, 2, 3] rest))) :=
  netSendUDPPacket_delivers rfl rfl (.inl rfl) ⟨by decide, by decide, by decide⟩

/-! ## A damaged header -/

/-- Nothing happens but a message on the console. -/
def Dropped (net : Globals) (r : Globals × Option Call) : Prop :=
  r.2 = none ∧ { r.1 with output := net.output } = net

theorem receiveIp_dropped {inpkt : List Byte} {start : ℕ}
    (h : netCksumOk (inpkt.drop start) (ipHdrSizeNoUdp / 2) = false) :
    Dropped B (receiveIp inpkt start len B) := by
  simp only [receiveIp, h, Bool.not_false, if_true]
  split_ifs <;> exact ⟨rfl, rfl⟩

/-- The header of an IP packet is right. With another half word in it the packet is dropped, unless
the two are the half words of zeros and of ones. -/
theorem netReceive_damaged {front back : List Byte} {i : ℕ} {a b a' b' : Byte}
    (haddr : addr.length = 6) (hA : A.ourEther.length = 6) (hfront : front.length = 2 * i)
    (hi : i < 10) (hok : netCksumOk (front ++ ([a, b] ++ back)) 10 = true)
    (hne : [a, b] ≠ [a', b']) (hzero : ¬ ([a, b] = [0, 0] ∧ [a', b'] = [0xff, 0xff]))
    (hones : ¬ ([a, b] = [0xff, 0xff] ∧ [a', b'] = [0, 0])) (B : Globals) (len : Word) :
    Dropped B
      (netReceive (netSetEther A addr protIp ++ (front ++ ([a', b'] ++ back))) len B) := by
  have hbad : netCksumOk (front ++ ([a', b'] ++ back)) 10 = false := by
    rw [← Bool.not_eq_true]
    intro hok'
    rcases netCksumOk_damage (by decide) hfront hi hok hok' with h | h | h
    · exact hne h
    · exact hzero h
    · exact hones h
  rcases netReceive_netSetEther haddr hA (.inl rfl) len B (front ++ ([a', b'] ++ back)) with h | h
  · rw [h]
    exact ⟨rfl, rfl⟩
  · rw [h, receiveProt_ip]
    apply receiveIp_dropped
    rw [List.drop_left' (netSetEther_length haddr hA)]
    exact hbad

/-- The time to live of a header, counted down without a new checksum. -/
theorem netReceive_damaged_ttl : Dropped .initial (netReceive
    (netSetEther .initial (List.replicate 6 0xff) protIp ++ ([0x45, 0, 0, 28, 0, 0, 0x40, 0] ++
      ([0xfe, 0x11] ++ [0x7b, 0xd1, 0, 0, 0, 0, 0xff, 0xff, 0xff, 0xff]))) 42 .initial) :=
  netReceive_damaged (i := 4) (a := 0xff) (b := 0x11) rfl rfl rfl (by decide) (by decide)
    (by decide) (by decide) (by decide) .initial 42

end Armboard.Net
