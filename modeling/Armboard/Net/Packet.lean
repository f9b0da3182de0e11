import Armboard.Machine

/-! # Packets on the Ethernet

The part of `net/net.c` that builds frames and takes them apart. A frame is the list of the
bytes in its buffer, and what lies behind its length may be anything. An IP address is a
word as it lies in memory, and the VLAN numbers are those of the host.
-/

namespace Armboard.Net

/-! ## Bytes -/

/-- `htons`, as it lies in memory. -/
def htons (w : Word) : List Byte := [(w >>> 8).setWidth 8, w.setWidth 8]

/-- `ntohs` of the first two bytes. -/
def ntohs (pkt : List Byte) : Word := (pkt.getD 0 0 ++ pkt.getD 1 0).setWidth 32

theorem htons_length (w : Word) : (htons w).length = 2 := rfl

theorem ntohs_htons_mod (w : Word) (l : List Byte) :
    ntohs (htons w ++ l) = BitVec.ofNat 32 (w.toNat % 0x10000) := by
  apply BitVec.eq_of_toNat_eq
  have hw := w.isLt
  simp only [ntohs, htons, List.cons_append, List.nil_append, List.getD_cons_zero,
    List.getD_cons_succ, BitVec.toNat_setWidth, BitVec.toNat_append, BitVec.toNat_ushiftRight,
    Nat.shiftRight_eq_div_pow, Nat.shiftLeft_eq, BitVec.toNat_ofNat]
  rw [← Nat.shiftLeft_eq, ← Nat.shiftLeft_add_eq_or_of_lt (by omega), Nat.shiftLeft_eq]
  omega

theorem ntohs_htons {w : Word} (h : w.toNat < 0x10000) (l : List Byte) :
    ntohs (htons w ++ l) = w := by
  rw [ntohs_htons_mod, Nat.mod_eq_of_lt h, BitVec.ofNat_toNat, BitVec.setWidth_eq]

theorem ntohs_ofNat {k : ℕ} (h : k < 0x10000) (l : List Byte) :
    ntohs (htons (BitVec.ofNat 32 k) ++ l) = BitVec.ofNat 32 k :=
  ntohs_htons (by rw [BitVec.toNat_ofNat]; omega) l

def netReadIP (p : List Byte) : Word := p.getD 3 0 ++ p.getD 2 0 ++ p.getD 1 0 ++ p.getD 0 0

def netWriteIP (ip : Word) : List Byte :=
  [ip.setWidth 8, (ip >>> 8).setWidth 8, (ip >>> 16).setWidth 8, (ip >>> 24).setWidth 8]

def splice (buf : List Byte) (i : ℕ) (bytes : List Byte) : List Byte :=
  buf.take i ++ bytes ++ buf.drop (i + bytes.length)

/-- The loop of `NetCksum` over so many half words. -/
def sumWords : ℕ → List Byte → Word
  | 0, _ => 0
  | len + 1, p => (p.getD 1 0 ++ p.getD 0 0).setWidth 32 + sumWords len (p.drop 2)

def netCksum (p : List Byte) (len : ℕ) : Word :=
  let xsum := sumWords len p
  let xsum := (xsum &&& (0xffff : Word)) + (xsum >>> 16)
  let xsum := (xsum &&& (0xffff : Word)) + (xsum >>> 16)
  xsum &&& 0xffff

def netCksumOk (p : List Byte) (len : ℕ) : Bool := decide ((netCksum p len + 1) &&& 0xfffe = 0)

/-- A half word of the host, as it lies in memory. -/
def hostShort (w : Word) : List Byte := [w.setWidth 8, (w >>> 8).setWidth 8]

/-! ## Variables -/

abbrev protIp : Word := 0x0800
abbrev protArp : Word := 0x0806
abbrev protRarp : Word := 0x8035
abbrev protVlan : Word := 0x8100
abbrev vlanNone : Word := 4095
abbrev vlanIdmask : Word := 0x0fff
abbrev etherHdrSize : ℕ := 14
abbrev e802HdrSize : ℕ := 22
abbrev vlanEtherHdrSize : ℕ := 18
abbrev arpHdrSize : ℕ := 28
abbrev ipHdrSizeNoUdp : ℕ := 20
abbrev ipHdrSize : ℕ := 28
abbrev arpTimeoutCount : ℕ := 20

inductive NetState where
  | netloopContinue
  | netloopRestart
  | netloopSuccess
  | netloopFail
  deriving DecidableEq

/-- Where a hardware address is kept: `NetBcastAddr`, `NetServerEther` or the buffer of a ping. -/
inductive Ether where
  | bcast
  | server
  | ping
  deriving DecidableEq

/-- The variables of `net.c`, and the frames handed to `eth_send`, newest first. -/
structure Globals where
  ourIP : Word
  ourSubnetMask : Word
  ourGatewayIP : Word
  ourEther : List Byte
  ourVLAN : Word
  ourNativeVLAN : Word
  serverIP : Word
  serverEther : List Byte
  pingEther : List Byte
  pingIP : Word
  pingSeqNo : BitVec 16
  ipId : Word
  arpWaitPacketIP : Word
  arpWaitReplyIP : Word
  arpWaitPacketMAC : Option Ether
  arpWaitTxPacket : List Byte
  arpWaitTry : ℕ
  netState : NetState
  sent : List (List Byte)
  output : List Output

def Globals.initial : Globals where
  ourIP := 0
  ourSubnetMask := 0
  ourGatewayIP := 0
  ourEther := List.replicate 6 0
  ourVLAN := 0xFFFF
  ourNativeVLAN := 0xFFFF
  serverIP := 0
  serverEther := List.replicate 6 0
  pingEther := List.replicate 6 0
  pingIP := 0
  pingSeqNo := 0
  ipId := 0
  arpWaitPacketIP := 0
  arpWaitReplyIP := 0
  arpWaitPacketMAC := none
  arpWaitTxPacket := []
  arpWaitTry := 0
  netState := .netloopContinue
  sent := []
  output := []

def Globals.ether (net : Globals) : Ether → List Byte
  | .bcast => List.replicate 6 0xff
  | .server => net.serverEther
  | .ping => net.pingEther

/-- The address of a reply. Nothing waits for the broadcast address, which is not null. -/
def Globals.setEther (net : Globals) (addr : List Byte) : Ether → Globals
  | .bcast => net
  | .server => { net with serverEther := addr }
  | .ping => { net with pingEther := addr }

def ethSend (frame : List Byte) (net : Globals) : Globals := { net with sent := frame :: net.sent }

def say (format : String) (args : List Arg) (net : Globals) : Globals :=
  { net with output := .printf format args :: net.output }

/-- `myvlanid`, whose value -1 stands for none. -/
def vlanId (vlan : Word) : Word := if vlan = 0xffff then vlanNone else vlan

def Globals.untagged (net : Globals) : Bool := decide (vlanId net.ourVLAN &&& vlanIdmask = vlanNone)

/-! ## Building -/

def netEthHdrSize (net : Globals) : ℕ := if net.untagged then etherHdrSize else vlanEtherHdrSize

def netSetEther (net : Globals) (addr : List Byte) (prot : Word) : List Byte :=
  if net.untagged then addr ++ net.ourEther ++ htons prot
  else
    addr ++ net.ourEther ++ htons protVlan ++ htons (vlanId net.ourVLAN &&& vlanIdmask) ++
      htons prot

def ipHeader (len id off ttl p sum src dst : Word) : List Byte :=
  [0x45, 0] ++ htons len ++ htons id ++ htons off ++ [ttl.setWidth 8, p.setWidth 8] ++
    hostShort sum ++ netWriteIP src ++ netWriteIP dst

/-- `NetSetIP`, except for counting up `NetIPID`. -/
def netSetIP (net : Globals) (dest dport sport : Word) (len : ℕ) : List Byte :=
  let header := fun sum => ipHeader (BitVec.ofNat 32 (ipHdrSize + len)) net.ipId 0x4000 255 17 sum
    net.ourIP dest
  header (~~~(netCksum (header 0) (ipHdrSizeNoUdp / 2))) ++
    (htons sport ++ htons dport ++ htons (BitVec.ofNat 32 (8 + len)) ++ htons 0)

/-- The headers in front of what the caller has put behind them. -/
def udpFrame (net : Globals) (addr : List Byte) (dest dport sport : Word) (payload : List Byte) :
    List Byte :=
  netSetEther net addr protIp ++ (netSetIP net dest dport sport payload.length ++ payload)

/-- An `ARP_t` for Ethernet and IP, with its source and its destination. -/
def arpPacket (op : Word) (sha : List Byte) (spa : Word) (tha : List Byte) (tpa : Word) : List Byte :=
  htons 1 ++ htons protIp ++ [6, 4] ++ htons op ++ sha ++ netWriteIP spa ++ tha ++ netWriteIP tpa

def arpRequest (net : Globals) : Globals :=
  let net :=
    if net.arpWaitPacketIP &&& net.ourSubnetMask ≠ net.ourIP &&& net.ourSubnetMask then
      if net.ourGatewayIP = 0 then
        { say "## Warning: gatewayip needed but not set\n" [] net with
          arpWaitReplyIP := net.arpWaitPacketIP }
      else { net with arpWaitReplyIP := net.ourGatewayIP }
    else { net with arpWaitReplyIP := net.arpWaitPacketIP }
  ethSend (netSetEther net (net.ether .bcast) protArp ++
    arpPacket 1 net.ourEther net.ourIP (List.replicate 6 0) net.arpWaitReplyIP) net

/-- `NetSendUDPPacket`: it waits for the hardware address or sends. -/
def netSendUDPPacket (ether : Ether) (dest dport sport : Word) (payload : List Byte)
    (net : Globals) : Globals :=
  let dest := if dest = 0 then 0xFFFFFFFF else dest
  let ether := if dest = 0xFFFFFFFF then .bcast else ether
  let frame := udpFrame net (net.ether ether) dest dport sport payload
  let net := { net with ipId := net.ipId + 1 }
  if net.ether ether = List.replicate 6 0 then
    arpRequest { net with
      arpWaitPacketIP := dest
      arpWaitPacketMAC := some ether
      arpWaitTxPacket := frame
      arpWaitTry := 1 }
  else ethSend frame net

/-- `ArpTimeoutCheck`, with whether the time for a reply is over, and whether it gives up. -/
def arpTimeoutCheck (expired : Bool) (net : Globals) : Globals × Bool :=
  if net.arpWaitPacketIP = 0 ∨ expired = false then (net, false)
  else
    let net := { net with arpWaitTry := net.arpWaitTry + 1 }
    if arpTimeoutCount ≤ net.arpWaitTry then
      ({ say "\nARP Retry count exceeded; starting again\n" [] net with arpWaitTry := 0 }, true)
    else (arpRequest net, false)

/-- The echo request of `PingSend`. -/
def echoRequest (seqNo sum : Word) : List Byte :=
  htons 0x0800 ++ hostShort sum ++ hostShort 0 ++ htons seqNo

def pingSend (net : Globals) : Globals :=
  let net := { net with
    pingEther := List.replicate 6 0
    arpWaitPacketIP := net.pingIP
    arpWaitPacketMAC := some .ping }
  let header := fun sum => ipHeader (BitVec.ofNat 32 (ipHdrSizeNoUdp + 8)) net.ipId 0x4000 255 1 sum
    net.ourIP net.pingIP
  let echo := echoRequest (net.pingSeqNo.setWidth 32)
  arpRequest { net with
    ipId := net.ipId + 1
    pingSeqNo := net.pingSeqNo + 1
    arpWaitTxPacket := netSetEther net (net.ether .ping) protIp ++
      header (~~~(netCksum (header 0) (ipHdrSizeNoUdp / 2))) ++ echo (~~~(netCksum (echo 0) 4))
    arpWaitTry := 1 }

/-! ## Receiving -/

structure Call where
  pkt : List Byte
  dest : Word
  src : Word
  len : Word

/-- The protocol of a frame, where its packet begins, how long it is and from which VLAN it is. -/
structure Link where
  prot : Word
  start : ℕ
  len : Word
  vlanid : Word

/-- The Ethernet header, in one of its three forms. -/
def linkHeader (inpkt : List Byte) (len : Word) (net : Globals) : Option Link :=
  let x := ntohs (inpkt.drop 12)
  if len.slt 14 then none
  else if x < 1514 then some ⟨ntohs (inpkt.drop 20), e802HdrSize, len - 22, vlanNone⟩
  else if x ≠ protVlan then some ⟨x, etherHdrSize, len - 14, vlanNone⟩
  else if len.slt 18 then none
  else if net.ourVLAN &&& vlanIdmask = vlanNone then none
  else
    some ⟨ntohs (inpkt.drop 16), vlanEtherHdrSize, len - 18,
      ntohs (inpkt.drop 14) &&& vlanIdmask⟩

def otherVlan (link : Link) (net : Globals) : Bool :=
  let vlanid :=
    if link.vlanid = vlanNone then vlanId net.ourNativeVLAN &&& vlanIdmask else link.vlanid
  !net.untagged && decide (vlanid ≠ vlanId net.ourVLAN &&& vlanIdmask)

/-- The hardware and protocol types of `ARP_t`. -/
def arpFormat (arp : List Byte) : Bool :=
  decide (ntohs arp = 1) && decide (ntohs (arp.drop 2) = protIp) && decide (arp.getD 4 0 = 6) &&
    decide (arp.getD 5 0 = 4)

/-- The answer to an ARP request, put together in the frame. -/
def arpAnswer (inpkt : List Byte) (start : ℕ) (net : Globals) : Globals :=
  let header := netSetEther net ((inpkt.drop 6).take 6) protArp
  let pkt := splice inpkt 0 header
  let pkt := splice pkt (start + 6) (htons 2)
  let pkt := splice pkt (start + 18) ((pkt.drop (start + 8)).take 6)
  let pkt := splice pkt (start + 24) ((pkt.drop (start + 14)).take 4)
  let pkt := splice pkt (start + 8) net.ourEther
  let pkt := splice pkt (start + 14) (netWriteIP net.ourIP)
  ethSend (pkt.take (header.length + arpHdrSize)) net

/-- An ARP reply: the packet that waits goes out if the reply is for it. -/
def arpReply (arp : List Byte) (net : Globals) : Globals :=
  match net.arpWaitPacketMAC with
  | none => net
  | some place =>
    if net.arpWaitPacketIP = 0 ∨ netReadIP (arp.drop 14) ≠ net.arpWaitReplyIP then net
    else
      let addr := (arp.drop 8).take 6
      let net := net.setEther addr place
      { ethSend (splice net.arpWaitTxPacket 0 addr) net with
        arpWaitPacketIP := 0
        arpWaitTxPacket := []
        arpWaitPacketMAC := none }

/-- The case `PROT_ARP` of `NetReceive`. -/
def receiveArp (inpkt : List Byte) (start : ℕ) (len : Word) (net : Globals) : Globals :=
  let arp := inpkt.drop start
  if len.slt 28 then say "bad length %d < %d\n" [.word len, .word 28] net
  else if !arpFormat arp then net
  else if net.ourIP = 0 then net
  else if netReadIP (arp.drop 24) ≠ net.ourIP then net
  else if ntohs (arp.drop 6) = 1 then arpAnswer inpkt start net
  else if ntohs (arp.drop 6) = 2 then arpReply arp net
  else net

/-- The case `PROT_RARP` of `NetReceive`. -/
def receiveRarp (inpkt : List Byte) (start : ℕ) (len : Word) (net : Globals) :
    Globals × Option Call :=
  let arp := inpkt.drop start
  if len.slt 28 then (say "bad length %d < %d\n" [.word len, .word 28] net, none)
  else if ntohs (arp.drop 6) ≠ 4 ∨ !arpFormat arp then
    (say "invalid RARP header\n" [] net, none)
  else
    ({ net with
        ourIP := netReadIP (arp.drop 24)
        serverIP := if net.serverIP = 0 then netReadIP (arp.drop 14) else net.serverIP
        serverEther := (arp.drop 8).take 6 }, some ⟨[], 0, 0, 0⟩)

def echoAnswer (inpkt : List Byte) (start : ℕ) (len : Word) (net : Globals) : Globals :=
  let pkt := splice inpkt 0 ((inpkt.drop 6).take 6)
  let pkt := splice pkt 6 net.ourEther
  let pkt := splice pkt (start + 10) (hostShort 0)
  let pkt := splice pkt (start + 6) (hostShort 0)
  let pkt := splice pkt (start + 16) ((pkt.drop (start + 12)).take 4)
  let pkt := splice pkt (start + 12) (netWriteIP net.ourIP)
  let pkt := splice pkt (start + 10)
    (hostShort (~~~(netCksum (pkt.drop start) (ipHdrSizeNoUdp / 2))))
  let pkt := splice pkt (start + 20) [0]
  let pkt := splice pkt (start + 22) (hostShort 0)
  let pkt := splice pkt (start + 22)
    (hostShort (~~~(netCksum (pkt.drop (start + 20)) ((len - 20) >>> 1).toNat)))
  ethSend (pkt.take (etherHdrSize + len.toNat)) net

def receiveIcmp (inpkt : List Byte) (start : ℕ) (len : Word) (net : Globals) :
    Globals × Option Call :=
  let icmph := inpkt.drop (start + 20)
  if icmph.getD 0 0 = 5 then
    if icmph.getD 1 0 ≠ 1 then (net, none)
    else
      (say " ICMP Host Redirect to %d.%d.%d.%d "
        ((List.range 4).map fun i => .word ((icmph.getD (4 + i) 0).setWidth 32)) net, none)
  else if icmph.getD 0 0 = 0 then (net, some ⟨inpkt.drop start, 0, 0, 0⟩)
  else if icmph.getD 0 0 = 8 then (echoAnswer inpkt start len net, none)
  else (net, none)

/-- The case `PROT_IP` of `NetReceive`. -/
def receiveIp (inpkt : List Byte) (start : ℕ) (len : Word) (net : Globals) :
    Globals × Option Call :=
  let ip := inpkt.drop start
  let ipLen := ntohs (ip.drop 2)
  let tmp := netReadIP (ip.drop 16)
  if len < 28 then (net, none)
  else if len.slt ipLen then (say "len bad %d < %d\n" [.word len, .word ipLen] net, none)
  else if ip.getD 0 0 &&& 0xf0 ≠ 0x40 then (net, none)
  else if ntohs (ip.drop 6) &&& 0x1fff ≠ 0 then (net, none)
  else if !netCksumOk ip (ipHdrSizeNoUdp / 2) then (say "checksum bad\n" [] net, none)
  else if net.ourIP ≠ 0 ∧ tmp ≠ net.ourIP ∧ tmp ≠ 0xFFFFFFFF then (net, none)
  else if ip.getD 9 0 = 1 then receiveIcmp inpkt start ipLen net
  else if ip.getD 9 0 ≠ 17 then (net, none)
  else
    (net,
      some ⟨ip.drop ipHdrSize, ntohs (ip.drop 22), ntohs (ip.drop 20), ntohs (ip.drop 24) - 8⟩)

/-- The switch of `NetReceive`. -/
def receiveProt (prot : Word) (inpkt : List Byte) (start : ℕ) (len : Word) (net : Globals) :
    Globals × Option Call :=
  if prot = protArp then (receiveArp inpkt start len net, none)
  else if prot = protRarp then receiveRarp inpkt start len net
  else if prot = protIp then receiveIp inpkt start len net
  else (net, none)

/-- `NetReceive`, and the call of the packet handler it ends with. -/
def netReceive (inpkt : List Byte) (len : Word) (net : Globals) : Globals × Option Call :=
  match linkHeader inpkt len net with
  | none => (net, none)
  | some link =>
    if otherVlan link net then (net, none)
    else receiveProt link.prot inpkt link.start link.len net

def pingHandler (pkt : List Byte) (net : Globals) : Globals :=
  if netReadIP (pkt.drop 12) ≠ net.pingIP then net else { net with netState := .netloopSuccess }

end Armboard.Net
