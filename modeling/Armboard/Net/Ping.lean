import Armboard.Net.Arp

/-! # Echo requests and their answers

A station turns an echo request around in the buffer it came in: it exchanges the addresses
and computes both checksums anew. `NetCksum` adds whole half words, so the last byte of a
message of odd length is not in its checksum.
-/

namespace Armboard.Net

variable {A B : Globals} {pre off mid sum src dst data rest : List Byte} {code : Byte} {len : Word}

/-! ## The parts of a packet -/

theorem hostShort_length (w : Word) : (hostShort w).length = 2 := rfl

/-- An IP header up to the fragment offset, from there to the checksum, and the addresses. -/
def ipBytes (pre off mid sum src dst : List Byte) : List Byte :=
  pre ++ (off ++ (mid ++ (sum ++ (src ++ dst))))

def icmpBytes (type code : Byte) (sum data : List Byte) : List Byte :=
  [type] ++ ([code] ++ (sum ++ data))

structure IpParts (pre off mid sum src dst : List Byte) : Prop where
  pre : pre.length = 6
  off : off.length = 2
  mid : mid.length = 2
  sum : sum.length = 2
  src : src.length = 4
  dst : dst.length = 4

theorem IpParts.length (h : IpParts pre off mid sum src dst) :
    (ipBytes pre off mid sum src dst).length = ipHdrSizeNoUdp := by
  simp only [ipBytes, List.length_append, h.pre, h.off, h.mid, h.sum, h.src, h.dst]

theorem splice_front {front : List Byte} {m : ℕ} (h : front.length = m) (k : ℕ)
    (l bytes : List Byte) : splice (front ++ l) (m + k) bytes = front ++ splice l k bytes := by
  rw [← h, splice_append]

theorem IpParts.splice_off (h : IpParts pre off mid sum src dst) {off' : List Byte}
    (ho : off'.length = 2) (l : List Byte) :
    splice (ipBytes pre off mid sum src dst ++ l) 6 off' = ipBytes pre off' mid sum src dst ++ l := by
  simp only [ipBytes, List.append_assoc]
  exact splice_middle pre h.pre (h.off.trans ho.symm) _

theorem IpParts.splice_sum (h : IpParts pre off mid sum src dst) {sum' : List Byte}
    (hs : sum'.length = 2) (l : List Byte) :
    splice (ipBytes pre off mid sum src dst ++ l) 10 sum' = ipBytes pre off mid sum' src dst ++ l := by
  simp only [ipBytes, List.append_assoc]
  rw [splice_front h.pre 4, splice_front h.off 2, splice_middle mid h.mid (h.sum.trans hs.symm)]

theorem IpParts.splice_src (h : IpParts pre off mid sum src dst) {src' : List Byte}
    (hs : src'.length = 4) (l : List Byte) :
    splice (ipBytes pre off mid sum src dst ++ l) 12 src' = ipBytes pre off mid sum src' dst ++ l := by
  simp only [ipBytes, List.append_assoc]
  rw [splice_front h.pre 6, splice_front h.off 4, splice_front h.mid 2,
    splice_middle sum h.sum (h.src.trans hs.symm)]

theorem IpParts.splice_dst (h : IpParts pre off mid sum src dst) {dst' : List Byte}
    (hd : dst'.length = 4) (l : List Byte) :
    splice (ipBytes pre off mid sum src dst ++ l) 16 dst' = ipBytes pre off mid sum src dst' ++ l := by
  simp only [ipBytes, List.append_assoc]
  rw [splice_front h.pre 10, splice_front h.off 8, splice_front h.mid 6, splice_front h.sum 4,
    splice_middle src h.src (h.dst.trans hd.symm)]

theorem IpParts.drop_src (h : IpParts pre off mid sum src dst) :
    (ipBytes pre off mid sum src dst).drop 12 = src ++ dst := by
  have hfront : (pre ++ (off ++ (mid ++ sum))).length = 12 := by
    simp only [List.length_append, h.pre, h.off, h.mid, h.sum]
  have hsplit : ipBytes pre off mid sum src dst = (pre ++ (off ++ (mid ++ sum))) ++ (src ++ dst) := by
    simp only [ipBytes, List.append_assoc]
  rw [hsplit, List.drop_left' hfront]

theorem IpParts.srcBytes (h : IpParts pre off mid sum src dst) (l : List Byte) :
    ((ipBytes pre off mid sum src dst ++ l).drop 12).take 4 = src := by
  have hle : 12 ≤ (ipBytes pre off mid sum src dst).length := by
    rw [h.length]
    decide
  rw [List.drop_append_of_le_length hle, h.drop_src, List.append_assoc, List.take_left' h.src]

theorem netCksumOk_ipBytes (h : IpParts pre off mid sum src dst) (l : List Byte) :
    netCksumOk (ipBytes pre off mid
      (hostShort (~~~(netCksum (ipBytes pre off mid (hostShort 0) src dst ++ l) 10))) src dst) 10 =
        true := by
  have hfill := netCksumOk_fill (n := 10) (i := 5) (by decide) (by decide) (pre ++ (off ++ mid))
    (src ++ dst) (by simp only [List.length_append, h.pre, h.off, h.mid])
  have hzero : IpParts pre off mid (hostShort 0) src dst := ⟨h.pre, h.off, h.mid, rfl, h.src, h.dst⟩
  rw [netCksum_append (by decide) hzero.length.ge]
  simp only [ipBytes]
  simpa only [List.append_assoc] using hfill

theorem netCksumOk_icmpBytes {n : ℕ} (type code : Byte) (data l : List Byte) (hn : 2 ≤ n)
    (hdata : 2 * n ≤ data.length + 4) (hlt : n ≤ 0x10000) :
    netCksumOk (icmpBytes type code
      (hostShort (~~~(netCksum (icmpBytes type code (hostShort 0) data ++ l) n))) data) n = true := by
  have hfill := netCksumOk_fill (n := n) (i := 1) hlt hn [type, code] data rfl
  have hlength : (icmpBytes type code (hostShort 0) data).length = data.length + 4 := rfl
  rw [netCksum_append hlt (hdata.trans hlength.ge)]
  exact hfill

theorem splice_type {t t' : Byte} {sum' : List Byte} (l : List Byte) :
    splice (icmpBytes t code sum' data ++ l) 0 [t'] = icmpBytes t' code sum' data ++ l := rfl

theorem splice_icmpSum {t : Byte} {sum' : List Byte} (h : sum'.length = 2) (w : Word)
    (l : List Byte) : splice (icmpBytes t code sum' data ++ l) 2 (hostShort w) =
      icmpBytes t code (hostShort w) data ++ l := by
  simp only [icmpBytes, List.append_assoc]
  exact splice_middle [t, code] rfl h _

theorem drop_front {front : List Byte} {m : ℕ} (h : front.length = m) (k : ℕ) (l : List Byte) :
    (front ++ l).drop (m + k) = l.drop k := by
  rw [← h, List.drop_length_add_append]

/-! ## The answer -/

theorem echoAnswer_eq {dstE srcE prot sum' : List Byte} (code : Byte) (data rest : List Byte)
    (hdstE : dstE.length = 6) (hsrcE : srcE.length = 6) (hprot : prot.length = 2)
    (hB : B.ourEther.length = 6)
    (h : IpParts pre off mid sum src dst) (hsum' : sum'.length = 2)
    (hlen : len.toNat = 24 + data.length) (hlt : len.toNat < 0x10000) :
    ∃ s s', netCksumOk (ipBytes pre [0, 0] mid (hostShort s) (netWriteIP B.ourIP) src) 10 = true ∧
      netCksumOk (icmpBytes 0 code (hostShort s') data) ((data.length + 4) / 2) = true ∧
      echoAnswer (dstE ++ (srcE ++ (prot ++ (ipBytes pre off mid sum src dst ++
        (icmpBytes 8 code sum' data ++ rest))))) 14 len B =
      ethSend (srcE ++ (B.ourEther ++ (prot ++
        (ipBytes pre [0, 0] mid (hostShort s) (netWriteIP B.ourIP) src ++
          icmpBytes 0 code (hostShort s') data)))) B := by
  have h₁ : IpParts pre off mid (hostShort 0) src dst := ⟨h.pre, h.off, h.mid, rfl, h.src, h.dst⟩
  have h₂ : IpParts pre (hostShort 0) mid (hostShort 0) src dst :=
    ⟨h.pre, rfl, h.mid, rfl, h.src, h.dst⟩
  have h₃ : IpParts pre (hostShort 0) mid (hostShort 0) src src :=
    ⟨h.pre, rfl, h.mid, rfl, h.src, h.src⟩
  have h₄ : IpParts pre (hostShort 0) mid (hostShort 0) (netWriteIP B.ourIP) src :=
    ⟨h.pre, rfl, h.mid, rfl, rfl, h.src⟩
  have hn : ((len - 20) >>> 1).toNat = (data.length + 4) / 2 := by
    rw [BitVec.toNat_ushiftRight, BitVec.toNat_sub, Nat.shiftRight_eq_div_pow]
    change (2 ^ 32 - 20 + len.toNat) % 2 ^ 32 / 2 ^ 1 = _
    omega
  have hbytes : ((dstE ++ (srcE ++ (prot ++ (ipBytes pre off mid sum src dst ++
      (icmpBytes 8 code sum' data ++ rest))))).drop 6).take 6 = srcE := by
    rw [List.drop_left' hdstE, List.take_left' hsrcE]
  have heth : (srcE ++ (B.ourEther ++ prot)).length = 14 := by
    simp only [List.length_append, hsrcE, hB, hprot]
  have hip := netCksumOk_ipBytes h₄ (icmpBytes 8 code sum' data ++ rest)
  have hicmp := netCksumOk_icmpBytes (n := (data.length + 4) / 2) 0 code data rest (by omega)
    (by omega) (by omega)
  refine ⟨_, _, hip, hicmp, ?_⟩
  simp only [echoAnswer, hbytes, hn]
  rw [splice_zero (hdstE.trans hsrcE.symm), splice_middle srcE hsrcE (hsrcE.trans hB.symm)]
  have hassoc (l : List Byte) :
      srcE ++ (B.ourEther ++ (prot ++ l)) = srcE ++ (B.ourEther ++ prot) ++ l := by
    simp only [List.append_assoc]
  simp only [hassoc]
  generalize srcE ++ (B.ourEther ++ prot) = eth at heth
  simp only [splice_front heth, drop_front heth]
  rw [h.splice_sum rfl, h₁.splice_off rfl, h₂.srcBytes, h₂.splice_dst h.src, h₃.splice_src rfl,
    List.drop_left' heth, h₄.splice_sum rfl]
  generalize (~~~netCksum _ (ipHdrSizeNoUdp / 2)) = s
  have h₅ : (ipBytes pre (hostShort 0) mid (hostShort s) (netWriteIP B.ourIP) src).length = 20 :=
    IpParts.length ⟨h.pre, rfl, h.mid, rfl, rfl, h.src⟩
  rw [splice_front h₅ 0, splice_type, splice_front h₅ 2, splice_icmpSum hsum', splice_front h₅ 2,
    splice_icmpSum rfl, List.drop_left' h₅]
  generalize (~~~netCksum _ _) = s'
  have hlength : (eth ++ (ipBytes pre (hostShort 0) mid (hostShort s) (netWriteIP B.ourIP) src ++
      icmpBytes 0 code (hostShort s') data)).length = etherHdrSize + len.toNat := by
    rw [List.length_append, List.length_append, heth, h₅, hlen]
    change 14 + (20 + (data.length + 4)) = 14 + (24 + data.length)
    omega
  rw [← List.append_assoc (ipBytes _ _ _ _ _ _), ← List.append_assoc eth, List.take_left' hlength]
  rfl

/-- The checksum is right, with a zero behind a message of odd length. -/
def Right (p : List Byte) : Prop := netCksumOk p ((p.length + 1) / 2) = true

theorem right_iff {p : List Byte} (hlt : p.length < 0x10000)
    (hok : netCksumOk p (p.length / 2) = true) :
    Right p ↔ p.length % 2 = 0 ∨ p.getD (p.length - 1) 0 = 0 := by
  rcases Nat.mod_two_eq_zero_or_one p.length with heven | hodd
  · rw [Right, show (p.length + 1) / 2 = p.length / 2 by omega]
    exact ⟨fun _ => .inl heven, fun _ => hok⟩
  · have hlast : halfAt p (p.length / 2) = (p.getD (p.length - 1) 0).toNat := by
      have hend : 2 * (p.length / 2) = p.length - 1 := by omega
      have hnext : (p.drop (p.length - 1)).getD 1 0 = 0 := by
        rw [List.getD_eq_getElem?_getD, List.getElem?_drop, List.getElem?_eq_none (by omega)]
        rfl
      rw [halfAt, hend, halves, hnext]
      simp only [List.getD_eq_getElem?_getD, List.getElem?_drop, halves]
      rfl
    rw [netCksumOk_iff (by omega)] at hok
    rw [Right, show (p.length + 1) / 2 = p.length / 2 + 1 by omega, netCksumOk_iff (by omega),
      halves_split (Nat.lt_succ_self _), Nat.sub_self, halves, Nat.add_zero,
      (Nat.dvd_add_right hok), hlast]
    have hbyte := (p.getD (p.length - 1) 0).isLt
    rw [← BitVec.toNat_inj]
    change _ ∣ _ ↔ _ ∨ _ = 0
    omega

/-! ## The requests that are answered -/

structure IsIcmp (net : Globals) (ip : List Byte) (total : ℕ) : Prop where
  version : ip.getD 0 0 &&& 0xf0 = 0x40
  length : ntohs (ip.drop 2) = BitVec.ofNat 32 total
  off : ntohs (ip.drop 6) &&& 0x1fff = 0
  cksum : netCksumOk ip 10 = true
  takes : Takes net (netReadIP (ip.drop 16))
  p : ip.getD 9 0 = 1

theorem receiveIp_icmp {inpkt : List Byte} {start total : ℕ}
    (h : IsIcmp B (inpkt.drop start) total) (hlong : 28 ≤ len.toNat) (htotal : total ≤ len.toNat)
    (hlt : len.toNat < 2 ^ 31) :
    receiveIp inpkt start len B = receiveIcmp inpkt start (BitVec.ofNat 32 total) B := by
  have hshort : ¬ len < 28 := by
    rw [BitVec.lt_def]
    exact Nat.not_lt.mpr hlong
  have hslt : len.slt (BitVec.ofNat 32 total) = false := slt_of_le htotal hlt
  have hip : ¬ (B.ourIP ≠ 0 ∧ netReadIP ((inpkt.drop start).drop 16) ≠ B.ourIP ∧
      netReadIP ((inpkt.drop start).drop 16) ≠ 0xFFFFFFFF) := by
    intro hno
    rcases h.takes with ht | ht | ht
    · exact hno.1 ht
    · exact hno.2.1 ht
    · exact hno.2.2 ht
  have hcksum : netCksumOk (inpkt.drop start) (ipHdrSizeNoUdp / 2) = true := h.cksum
  simp only [receiveIp, if_neg hshort, h.length, hslt, h.version, h.off, hcksum, if_neg hip, h.p]
  rfl

/-- A frame with an ICMP message, from one hardware address to another. -/
def icmpFrame (dstE srcE ip icmp : List Byte) : List Byte :=
  dstE ++ (srcE ++ (htons protIp ++ (ip ++ icmp)))

theorem icmpFrame_append (dstE srcE ip icmp rest : List Byte) :
    icmpFrame dstE srcE ip icmp ++ rest = icmpFrame dstE srcE ip (icmp ++ rest) := by
  simp only [icmpFrame, List.append_assoc]

theorem icmpFrame_drop {dstE srcE ip icmp : List Byte} (hdstE : dstE.length = 6)
    (hsrcE : srcE.length = 6) : (icmpFrame dstE srcE ip icmp).drop 14 = ip ++ icmp := by
  have hfront : (dstE ++ (srcE ++ htons protIp)).length = 14 := by
    simp only [List.length_append, hdstE, hsrcE, htons_length]
  have hsplit : icmpFrame dstE srcE ip icmp = dstE ++ (srcE ++ htons protIp) ++ (ip ++ icmp) := by
    simp only [icmpFrame, List.append_assoc]
  rw [hsplit, List.drop_left' hfront]

theorem icmpFrame_drop_ip {dstE srcE ip icmp : List Byte} (hdstE : dstE.length = 6)
    (hsrcE : srcE.length = 6) (hip : ip.length = 20) :
    (icmpFrame dstE srcE ip icmp).drop (14 + 20) = icmp := by
  rw [← List.drop_drop, icmpFrame_drop hdstE hsrcE, List.drop_left' hip]

theorem netSetEther_untagged {prot : Word} (hu : A.untagged = true) (addr l : List Byte) :
    netSetEther A addr prot ++ l = addr ++ (A.ourEther ++ (htons prot ++ l)) := by
  rw [netSetEther, if_pos hu]
  simp only [List.append_assoc]

theorem netReceive_icmpFrame {dstE srcE ip icmp : List Byte} {total : ℕ} (hdstE : dstE.length = 6)
    (hsrcE : srcE.length = 6) (hu : B.untagged = true) (h : IsIcmp B (ip ++ icmp) total)
    (hlong : 42 ≤ len.toNat) (htotal : total + 14 ≤ len.toNat) (hlt : len.toNat < 2 ^ 31) :
    netReceive (icmpFrame dstE srcE ip icmp) len B =
      receiveIcmp (icmpFrame dstE srcE ip icmp) 14 (BitVec.ofNat 32 total) B := by
  have hu' : Globals.untagged { B with ourEther := srcE } = true := hu
  have hframe : netSetEther { B with ourEther := srcE } dstE protIp ++ (ip ++ icmp) =
      icmpFrame dstE srcE ip icmp := netSetEther_untagged hu' dstE _
  have hhdr : netEthHdrSize { B with ourEther := srcE } = 14 := if_pos hu
  have hdrop : (icmpFrame dstE srcE ip icmp).drop 14 = ip ++ icmp := icmpFrame_drop hdstE hsrcE
  have hsub := toNat_sub_hdrSize { B with ourEther := srcE } len (by omega)
  rw [hhdr] at hsub
  have hreceive := netReceive_sameVlan (A := { B with ourEther := srcE }) (B := B) hdstE hsrcE
    (.inl rfl) rfl (by omega) hlt (ip ++ icmp)
  rw [hframe, hhdr, receiveProt_ip] at hreceive
  rw [hreceive]
  exact receiveIp_icmp (hdrop ▸ h) (by rw [hsub]; omega) (by rw [hsub]; omega) (by rw [hsub]; omega)

theorem netReceive_echo {dstE srcE sum' : List Byte} (hdstE : dstE.length = 6)
    (hsrcE : srcE.length = 6) (hB : B.ourEther.length = 6) (hu : B.untagged = true)
    (h : IpParts pre off mid sum src dst) (hsum' : sum'.length = 2)
    (hicmp : IsIcmp B (ipBytes pre off mid sum src dst ++ (icmpBytes 8 code sum' data ++ rest))
      (24 + data.length)) (hdata : 24 + data.length < 0x10000) (hlong : 42 ≤ len.toNat)
    (hlen : 24 + data.length + 14 ≤ len.toNat) (hlt : len.toNat < 2 ^ 31) :
    ∃ s s', netReceive (icmpFrame dstE srcE (ipBytes pre off mid sum src dst)
        (icmpBytes 8 code sum' data ++ rest)) len B = (ethSend (icmpFrame srcE B.ourEther
          (ipBytes pre [0, 0] mid (hostShort s) (netWriteIP B.ourIP) src)
          (icmpBytes 0 code (hostShort s') data)) B, none) ∧
      netCksumOk (ipBytes pre [0, 0] mid (hostShort s) (netWriteIP B.ourIP) src) 10 = true ∧
      netCksumOk (icmpBytes 0 code (hostShort s') data) ((data.length + 4) / 2) = true := by
  have hicmph : (icmpFrame dstE srcE (ipBytes pre off mid sum src dst)
      (icmpBytes 8 code sum' data ++ rest)).drop (14 + 20) = icmpBytes 8 code sum' data ++ rest :=
    icmpFrame_drop_ip hdstE hsrcE h.length
  have htotal : (BitVec.ofNat 32 (24 + data.length)).toNat = 24 + data.length := by
    rw [BitVec.toNat_ofNat]
    omega
  obtain ⟨s, s', hok, hok', hanswer⟩ := echoAnswer_eq code data rest hdstE hsrcE
    (htons_length protIp) hB h hsum' htotal (htotal.trans_lt hdata)
  have htype : (icmpBytes 8 code sum' data ++ rest).getD 0 0 = 8 := rfl
  have htypes : ¬ (8 : Byte) = 5 ∧ ¬ (8 : Byte) = 0 := by decide
  refine ⟨s, s', ?_, hok, hok'⟩
  rw [netReceive_icmpFrame hdstE hsrcE hu hicmp hlong hlen hlt]
  simp only [receiveIcmp, hicmph, htype, if_neg htypes.1, if_neg htypes.2, if_true]
  exact congrArg (·, none) hanswer

theorem icmpBytes_right_iff {t : Byte} {w : Word} (hdata : 24 + data.length < 0x10000)
    (hok : netCksumOk (icmpBytes t code (hostShort w) data) ((data.length + 4) / 2) = true) :
    Right (icmpBytes t code (hostShort w) data) ↔
      data.length % 2 = 0 ∨ data.getD (data.length - 1) 0 = 0 := by
  have hlength : (icmpBytes t code (hostShort w) data).length = data.length + 4 := rfl
  rw [right_iff (by omega) (by rw [hlength]; exact hok), hlength]
  rcases Nat.mod_two_eq_zero_or_one data.length with heven | hodd
  · exact iff_of_true (.inl (by omega)) (.inl heven)
  · have hlast : (icmpBytes t code (hostShort w) data).getD (data.length + 4 - 1) 0 =
        data.getD (data.length - 1) 0 := by
      rw [show data.length + 4 - 1 = data.length - 1 + 4 by omega]
      rfl
    rw [hlast, show (data.length + 4) % 2 = data.length % 2 by omega]

/-- Every echo request is answered: the header of the answer is right and exchanges the addresses,
and its message is that of the request with another checksum, which is right if and only if the
message has even length or ends with zero. -/
theorem netReceive_echoRequest {dstE srcE sum' : List Byte} (hdstE : dstE.length = 6)
    (hsrcE : srcE.length = 6) (hB : B.ourEther.length = 6) (hu : B.untagged = true)
    (h : IpParts pre off mid sum src dst) (hsum' : sum'.length = 2)
    (hicmp : IsIcmp B (ipBytes pre off mid sum src dst ++ (icmpBytes 8 code sum' data ++ rest))
      (24 + data.length)) (hdata : 24 + data.length < 0x10000) (hlong : 42 ≤ len.toNat)
    (hlen : 24 + data.length + 14 ≤ len.toNat) (hlt : len.toNat < 2 ^ 31) :
    ∃ s s', netReceive (icmpFrame dstE srcE (ipBytes pre off mid sum src dst)
        (icmpBytes 8 code sum' data ++ rest)) len B = (ethSend (icmpFrame srcE B.ourEther
          (ipBytes pre [0, 0] mid (hostShort s) (netWriteIP B.ourIP) src)
          (icmpBytes 0 code (hostShort s') data)) B, none) ∧
      netCksumOk (ipBytes pre [0, 0] mid (hostShort s) (netWriteIP B.ourIP) src) 10 = true ∧
      (Right (icmpBytes 0 code (hostShort s') data) ↔
        data.length % 2 = 0 ∨ data.getD (data.length - 1) 0 = 0) := by
  obtain ⟨s, s', hreply, hok, hok'⟩ := netReceive_echo hdstE hsrcE hB hu h hsum' hicmp hdata hlong
    hlen hlt
  exact ⟨s, s', hreply, hok, icmpBytes_right_iff hdata hok'⟩

/-- One byte of data, which the checksum of the answer leaves out. -/
theorem netReceive_echoRequest_byte : ∃ frame s', netReceive (icmpFrame [2, 0, 0, 0, 0, 2]
    [2, 0, 0, 0, 0, 1] (ipBytes [0x45, 0, 0, 25, 0, 0] [0x40, 0] [255, 1] [0x78, 0xe4] [1, 0, 0, 0]
      [2, 0, 0, 0]) (icmpBytes 8 0 [0, 0] [7] ++ [0, 0, 0])) 42 (.station 2) =
        (ethSend frame (.station 2), none) ∧ ¬ Right (icmpBytes 0 0 (hostShort s') [7]) := by
  obtain ⟨s, s', hreply, -, hright⟩ := netReceive_echoRequest (B := .station 2)
    (show [2, 0, 0, 0, 0, 2].length = 6 from rfl) (show [2, 0, 0, 0, 0, 1].length = 6 from rfl) rfl
    (by decide)
    (show IpParts [0x45, 0, 0, 25, 0, 0] [0x40, 0] [255, 1] [0x78, 0xe4] [1, 0, 0, 0] [2, 0, 0, 0]
      from ⟨rfl, rfl, rfl, rfl, rfl, rfl⟩)
    (show [0, 0].length = 2 from rfl)
    (show IsIcmp (.station 2) (ipBytes _ _ _ _ _ _ ++ (icmpBytes 8 0 [0, 0] [7] ++ [0, 0, 0])) 25
      from ⟨by decide, by decide, by decide, by decide, .inr (.inl (by decide)), by decide⟩)
    (by decide) (show 42 ≤ (42 : Word).toNat by decide) (by decide) (by decide)
  exact ⟨_, s', hreply, fun h => absurd (hright.mp h) (by decide)⟩

/-! ## A ping -/

def pingHeader (net : Globals) (sum : Word) : List Byte :=
  ipHeader (BitVec.ofNat 32 28) net.ipId 0x4000 255 1 sum net.ourIP net.pingIP

def pingIp (net : Globals) : List Byte := pingHeader net (~~~(netCksum (pingHeader net 0) 10))

def pingIcmp (net : Globals) : List Byte :=
  icmpBytes 8 0 (hostShort (~~~(netCksum (echoRequest (net.pingSeqNo.setWidth 32) 0) 4)))
    (hostShort 0 ++ htons (net.pingSeqNo.setWidth 32))

theorem pingSend_eq (net : Globals) : ∃ output, pingSend net = { net with
    pingEther := List.replicate 6 0
    pingSeqNo := net.pingSeqNo + 1
    ipId := net.ipId + 1
    arpWaitPacketIP := net.pingIP
    arpWaitReplyIP := wanted net net.pingIP
    arpWaitPacketMAC := some .ping
    arpWaitTxPacket := netSetEther net (List.replicate 6 0) protIp ++ pingIp net ++ pingIcmp net
    arpWaitTry := 1
    sent := request net (wanted net net.pingIP) :: net.sent
    output := output } := by
  obtain ⟨output, h⟩ := arpRequest_eq { net with
    pingEther := List.replicate 6 0
    pingSeqNo := net.pingSeqNo + 1
    ipId := net.ipId + 1
    arpWaitPacketIP := net.pingIP
    arpWaitPacketMAC := some .ping
    arpWaitTxPacket := netSetEther net (List.replicate 6 0) protIp ++ pingIp net ++ pingIcmp net
    arpWaitTry := 1 }
  exact ⟨output, h⟩

theorem isIcmp_ping (hB : B.ourIP = A.pingIP) (l : List Byte) : IsIcmp B (pingIp A ++ l) 28 where
  version := by
    have hversion : (pingIp A ++ l).getD 0 0 = 0x45 := rfl
    rw [hversion]
    rfl
  length := ntohs_ofNat (k := 28) (by decide) _
  off := by
    have hoff : ntohs ((pingIp A ++ l).drop 6) = 0x4000 := ntohs_htons (by decide) _
    rw [hoff]
    rfl
  cksum := netCksumOk_ipHeader ..
  takes := by
    have hdst : netReadIP ((pingIp A ++ l).drop 16) = A.pingIP := netReadIP_netWriteIP _ _
    exact .inr (.inl (hdst.trans hB.symm))
  p := rfl

def pingPre (net : Globals) : List Byte := [0x45, 0] ++ htons (BitVec.ofNat 32 28) ++ htons net.ipId

theorem isIcmp_reply {A' : Globals} {s src : Word} (hip : A'.ourIP = A.ourIP)
    (hok : netCksumOk (ipBytes (pingPre A) [0, 0] [255, 1] (hostShort s) (netWriteIP src)
      (netWriteIP A.ourIP)) 10 = true) (l : List Byte) :
    IsIcmp A' (ipBytes (pingPre A) [0, 0] [255, 1] (hostShort s) (netWriteIP src)
      (netWriteIP A.ourIP) ++ l) 28 where
  version := by
    have hversion : (ipBytes (pingPre A) [0, 0] [255, 1] (hostShort s) (netWriteIP src)
        (netWriteIP A.ourIP) ++ l).getD 0 0 = 0x45 := rfl
    rw [hversion]
    rfl
  length := ntohs_ofNat (k := 28) (by decide) _
  off := by
    have hoff : ntohs ((ipBytes (pingPre A) [0, 0] [255, 1] (hostShort s) (netWriteIP src)
        (netWriteIP A.ourIP) ++ l).drop 6) = 0 := ntohs_htons (w := 0) (by decide) _
    rw [hoff]
    rfl
  cksum := by
    rw [netCksumOk_append (by decide) (IpParts.length ⟨rfl, rfl, rfl, rfl, rfl, rfl⟩).ge]
    exact hok
  takes := by
    have hdst : netReadIP ((ipBytes (pingPre A) [0, 0] [255, 1] (hostShort s) (netWriteIP src)
        (netWriteIP A.ourIP) ++ l).drop 16) = A.ourIP := netReadIP_netWriteIP _ _
    exact .inr (.inl (hdst.trans hip.symm))
  p := rfl

theorem netReceive_ping (h : Neighbours A B) (hu : B.untagged = true) (hping : A.pingIP = B.ourIP)
    (hlong : 42 ≤ len.toNat) (hlt : len.toNat < 2 ^ 31) (rest : List Byte) :
    ∃ s s', netReceive (icmpFrame B.ourEther A.ourEther (pingIp A) (pingIcmp A ++ rest)) len B =
        (ethSend (icmpFrame A.ourEther B.ourEther
          (ipBytes (pingPre A) [0, 0] [255, 1] (hostShort s) (netWriteIP B.ourIP)
            (netWriteIP A.ourIP))
          (icmpBytes 0 0 (hostShort s') (hostShort 0 ++ htons (A.pingSeqNo.setWidth 32)))) B, none) ∧
      netCksumOk (ipBytes (pingPre A) [0, 0] [255, 1] (hostShort s) (netWriteIP B.ourIP)
        (netWriteIP A.ourIP)) 10 = true := by
  have hparts : IpParts (pingPre A) (htons 0x4000) [255, 1]
      (hostShort (~~~(netCksum (pingHeader A 0) 10))) (netWriteIP A.ourIP) (netWriteIP A.pingIP) :=
    ⟨rfl, rfl, rfl, rfl, rfl, rfl⟩
  have hicmp := isIcmp_ping hping.symm (pingIcmp A ++ rest)
  obtain ⟨s, s', hreply, hok, -⟩ := netReceive_echo h.ether' h.ether h.ether' hu hparts
    (hostShort_length _) hicmp (show 28 < 0x10000 by decide) hlong hlong hlt
  exact ⟨s, s', hreply, hok⟩

theorem netReceive_reply {dstE srcE ip icmp : List Byte} (hdstE : dstE.length = 6)
    (hsrcE : srcE.length = 6) (hu : B.untagged = true) (h : IsIcmp B (ip ++ (icmp ++ rest)) 28)
    (hip : ip.length = 20) (htype : (icmp ++ rest).getD 0 0 = 0) (hlong : 42 ≤ len.toNat)
    (hlt : len.toNat < 2 ^ 31) : netReceive (icmpFrame dstE srcE ip icmp ++ rest) len B =
      (B, some ⟨ip ++ (icmp ++ rest), 0, 0, 0⟩) := by
  have htypes : ¬ (0 : Byte) = 5 := by decide
  rw [icmpFrame_append, netReceive_icmpFrame hdstE hsrcE hu h hlong hlong hlt]
  simp only [receiveIcmp, icmpFrame_drop_ip hdstE hsrcE hip, icmpFrame_drop hdstE hsrcE, htype,
    if_neg htypes, if_true]

/-- The same station later: what it is and whom it pings. -/
structure Later (net net' : Globals) : Prop where
  ether : net'.ourEther = net.ourEther
  ip : net'.ourIP = net.ourIP
  vlan : net'.ourVLAN = net.ourVLAN
  pingIP : net'.pingIP = net.pingIP

theorem Later.untagged {net net' : Globals} (h : Later net net') : net'.untagged = net.untagged := by
  rw [Globals.untagged, Globals.untagged, h.vlan]

theorem Later.netSetEther {net net' : Globals} (h : Later net net') (addr : List Byte) (prot : Word) :
    netSetEther net' addr prot = netSetEther net addr prot := by
  rw [Net.netSetEther, Net.netSetEther, h.untagged, h.ether, h.vlan]

theorem Later.neighbours {B' : Globals} (hB : Later B B') (h : Neighbours A B) : Neighbours A B' where
  ether := h.ether
  ether' := hB.ether ▸ h.ether'
  vlan := by rw [h.vlan, vlanOf, vlanOf, hB.vlan]
  ip := h.ip
  ip' := hB.ip ▸ h.ip'

theorem release_later {net₀ net : Globals} (place : Ether) (frame addr : List Byte)
    (h : Later net₀ net) : Later net₀ (release place frame addr net) := by
  cases place <;> exact ⟨h.ether, h.ip, h.vlan, h.pingIP⟩

theorem netSetEther_length_untagged {C : Globals} {addr : List Byte} {prot : Word}
    (hu : C.untagged = true) (haddr : addr.length = 6) (hether : C.ourEther.length = 6) :
    (netSetEther C addr prot).length = 14 := by
  rw [netSetEther_length haddr hether, netEthHdrSize, if_pos hu]

/-- The answer to the request for the address lets the echo request out. -/
theorem pingSend_released (h : Neighbours A B) (hu : A.untagged = true)
    (hping : A.pingIP = B.ourIP) (hwanted : wanted A B.ourIP = B.ourIP) {len : Word}
    (hlong : 42 ≤ len.toNat) (hlt : len.toNat < 2 ^ 31) (rest : List Byte) :
    let A' := (netReceive (netSetEther B A.ourEther protArp ++
      arpPacket 2 B.ourEther B.ourIP A.ourEther A.ourIP ++ rest) len (pingSend A)).1
    A'.sent = icmpFrame B.ourEther A.ourEther (pingIp A) (pingIcmp A) ::
      request A B.ourIP :: A.sent ∧ Later A A' := by
  obtain ⟨output, hsend⟩ := pingSend_eq A
  rw [hping, hwanted] at hsend
  have huB : B.untagged = true := by rw [untagged_iff, ← h.vlan, ← untagged_iff, hu]
  have hn : Neighbours B (pingSend A) := by
    rw [hsend]
    exact ⟨h.ether', h.ether, h.vlan.symm, h.ip', h.ip⟩
  have hwaits : Waits (pingSend A) .ping
      (netSetEther A (List.replicate 6 0) protIp ++ pingIp A ++ pingIcmp A) := by
    rw [hsend]
    exact ⟨rfl, h.ip', rfl⟩
  have hlater : Later A (pingSend A) := by
    rw [hsend]
    exact ⟨rfl, rfl, rfl, hping.symm⟩
  have hreply : (pingSend A).arpWaitReplyIP = B.ourIP := by rw [hsend]
  have hsent : (pingSend A).sent = request A B.ourIP :: A.sent := by rw [hsend]
  have hlen : (netSetEther B (pingSend A).ourEther protArp ++ arpPacket 2 B.ourEther B.ourIP
      (pingSend A).ourEther (pingSend A).ourIP).length ≤ len.toNat := by
    rw [hlater.ether, List.length_append, netSetEther_length_untagged huB h.ether h.ether',
      arpPacket_length h.ether' h.ether]
    exact hlong
  have hanswer := netReceive_answer hn hwaits hreply hlen hlt rest
  rw [hlater.ether, hlater.ip] at hanswer
  have hzero : (List.replicate 6 (0 : Byte)).length = B.ourEther.length := h.ether'.symm
  intro A'
  have hA' : A' = release .ping _ B.ourEther (pingSend A) := congrArg Prod.fst hanswer
  rw [hA']
  refine ⟨?_, release_later _ _ _ hlater⟩
  rw [release_sent, hsent, List.append_assoc, netSetEther_untagged hu, splice_zero hzero]
  rfl

/-- The echo request is answered, and the answer gets to `PingHandler`. -/
theorem pingSend_answered (h : Neighbours A B) (hu : A.untagged = true)
    (hping : A.pingIP = B.ourIP) {B' : Globals} (hB : Later B B') {len : Word}
    (hlong : 42 ≤ len.toNat) (hlt : len.toNat < 2 ^ 31) (rest : List Byte) :
    ∃ reply, netReceive (icmpFrame B.ourEther A.ourEther (pingIp A) (pingIcmp A) ++ rest) len B' =
        (ethSend reply B', none) ∧
      ∀ (A' : Globals) (rest : List Byte) (len : Word), Later A A' → 42 ≤ len.toNat →
        len.toNat < 2 ^ 31 → ∃ pkt, netReceive (reply ++ rest) len A' =
          (A', some ⟨pkt, 0, 0, 0⟩) ∧
            pingHandler pkt A' = { A' with netState := .netloopSuccess } := by
  have huB : B.untagged = true := by rw [untagged_iff, ← h.vlan, ← untagged_iff, hu]
  obtain ⟨s, s', hreply, hok⟩ := netReceive_ping (hB.neighbours h) (hB.untagged.trans huB)
    (hping.trans hB.ip.symm) hlong hlt rest
  rw [hB.ether] at hreply
  refine ⟨_, by rw [icmpFrame_append]; exact hreply, ?_⟩
  intro A' rest' len' hA hlong' hlt'
  have hicmp := isIcmp_reply hA.ip hok (icmpBytes 0 0 (hostShort s')
    (hostShort 0 ++ htons (A.pingSeqNo.setWidth 32)) ++ rest')
  refine ⟨_, netReceive_reply h.ether h.ether' (hA.untagged.trans hu) hicmp rfl rfl hlong' hlt', ?_⟩
  rw [pingHandler, if_neg]
  have hip := (hA.pingIP.trans (hping.trans hB.ip.symm)).symm
  exact not_not.mpr ((netReadIP_netWriteIP B'.ourIP _).trans hip)

/-- A ping of a neighbour without VLAN that is asked directly: it answers the request for its address,
the echo request goes out to it, it answers that, and its answer ends the loop with success. -/
theorem pingSend_succeeds (h : Neighbours A B) (hu : A.untagged = true) (hping : A.pingIP = B.ourIP)
    (hwanted : wanted A B.ourIP = B.ourIP) :
    ∃ request answer echo,
      (pingSend A).sent = request :: A.sent ∧
      (∀ (B' : Globals) (rest : List Byte) (len : Word), Later B B' → 42 ≤ len.toNat →
        len.toNat < 2 ^ 31 → netReceive (request ++ rest) len B' = (ethSend answer B', none)) ∧
      (∀ (rest : List Byte) (len : Word), 42 ≤ len.toNat → len.toNat < 2 ^ 31 →
        let A' := (netReceive (answer ++ rest) len (pingSend A)).1
        A'.sent = echo :: request :: A.sent ∧ Later A A') ∧
      ∀ (B' : Globals) (rest : List Byte) (len : Word), Later B B' → 42 ≤ len.toNat →
        len.toNat < 2 ^ 31 → ∃ reply, netReceive (echo ++ rest) len B' = (ethSend reply B', none) ∧
          ∀ (A' : Globals) (rest : List Byte) (len : Word), Later A A' → 42 ≤ len.toNat →
            len.toNat < 2 ^ 31 → ∃ pkt, netReceive (reply ++ rest) len A' =
              (A', some ⟨pkt, 0, 0, 0⟩) ∧
                pingHandler pkt A' = { A' with netState := .netloopSuccess } := by
  obtain ⟨output, hsend⟩ := pingSend_eq A
  rw [hping, hwanted] at hsend
  refine ⟨request A B.ourIP, netSetEther B A.ourEther protArp ++
    arpPacket 2 B.ourEther B.ourIP A.ourEther A.ourIP,
    icmpFrame B.ourEther A.ourEther (pingIp A) (pingIcmp A), ?_, ?_, ?_, ?_⟩
  · rw [hsend]
  · intro B' rest len hB hlong hlt
    have hlen : (request A B'.ourIP).length ≤ len.toNat := by
      rw [request, List.length_append, netSetEther_length_untagged hu rfl h.ether,
        arpPacket_length h.ether rfl]
      exact hlong
    have hreceive := netReceive_request (hB.neighbours h) hlen hlt rest
    rwa [hB.ip, hB.ether, hB.netSetEther] at hreceive
  · intro rest len hlong hlt
    exact pingSend_released h hu hping hwanted hlong hlt rest
  · intro B' rest len hB hlong hlt
    exact pingSend_answered h hu hping hB hlong hlt rest

/-- A ping of the next station, with frames that are padded to 60 bytes. -/
theorem pingSend_succeeds_next : ∃ request answer echo reply pkt B' A',
    (pingSend { Globals.station 1 with pingIP := 2 }).sent = [request] ∧
    netReceive (request ++ List.replicate 18 0) 60 (.station 2) = (B', none) ∧ B'.sent = [answer] ∧
    A' = (netReceive (answer ++ List.replicate 18 0) 60
      (pingSend { Globals.station 1 with pingIP := 2 })).1 ∧ A'.sent = [echo, request] ∧
    netReceive (echo ++ List.replicate 18 0) 60 B' = (ethSend reply B', none) ∧
    netReceive (reply ++ List.replicate 18 0) 60 A' = (A', some ⟨pkt, 0, 0, 0⟩) ∧
    (pingHandler pkt A').netState = .netloopSuccess := by
  obtain ⟨request, answer, echo, hsent, hrequest, hanswer, hecho⟩ :=
    pingSend_succeeds (A := { Globals.station 1 with pingIP := 2 }) (B := .station 2)
      ⟨rfl, rfl, rfl, by decide, by decide⟩ (by decide) rfl (by decide)
  have hlong : 42 ≤ (60 : Word).toNat := by decide
  have hlt : (60 : Word).toNat < 2 ^ 31 := by decide
  let pad : List Byte := List.replicate 18 0
  have hA := hanswer pad 60 hlong hlt
  obtain ⟨reply, hreply, hpkt⟩ := hecho (ethSend answer (.station 2)) pad 60 ⟨rfl, rfl, rfl, rfl⟩
    hlong hlt
  obtain ⟨pkt, hpkt, hhandler⟩ := hpkt _ pad 60 hA.2 hlong hlt
  exact ⟨request, answer, echo, reply, pkt, _, _, hsent,
    hrequest _ pad 60 ⟨rfl, rfl, rfl, rfl⟩ hlong hlt, rfl, rfl, hA.1, hreply, hpkt,
    congrArg Globals.netState hhandler⟩

end Armboard.Net
