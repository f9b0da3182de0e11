import Armboard.Exec.Simulation
import Armboard.Tftp.Packets

/-! # The client, its server and the network between them

A server that works in lock-step answers each request from a port of its own, offers one
packet until that is acknowledged, and goes on to the next. The network loses, repeats,
delays and reorders: whatever was ever sent may arrive at any time and any number of
times, beside packets that have nothing to do with the transfer.
-/

namespace Armboard.Tftp
open Env Exec Net

/-- The data of block `k`, counted from 0. -/
def fileBlock (file : List Byte) (blk k : ℕ) : List Byte := (file.drop (k * blk)).take blk

/-- The packet of block `k`. Its number counts from 1 and has 16 bits. -/
def dataPacket (file : List Byte) (blk k : ℕ) : List Byte :=
  htons 3 ++ (htons (BitVec.ofNat 32 (k + 1)) ++ fileBlock file blk k)

/-- The strings of an acknowledgement that make the block size `blk`. -/
def OptionsFor (blk : ℕ) (options : List (List Byte)) : Prop :=
  (∀ s ∈ options, Plain s) ∧ blk = 512 ∨
    ∃ l l', options = l ++ ascii "blksize" :: decimal blk :: l' ∧ ∀ s ∈ l, Plain s

/-- How a server answers a request for `file`: with acknowledged options or with the first block.
The number of blocks stays below the one at which sequence numbers repeat. -/
structure Answer (file : List Byte) where
  options : Option (List (List Byte))
  blk : ℕ
  blk_pos : 0 < blk
  blk_lt : blk < 0x10000
  plain : options = none → blk = 512
  acknowledges : ∀ l ∈ options, OptionsFor blk l ∧ (cstrings l).length < 0x10000
  blocks_lt : file.length / blk + 1 < 0x10000

variable {file : List Byte}

namespace Answer

/-- The number of the first packet, 0 for an acknowledgement of options. -/
def first (a : Answer file) : ℕ := if a.options.isSome then 0 else 1

def last (a : Answer file) : ℕ := file.length / a.blk + 1

def block (a : Answer file) (k : ℕ) : List Byte := fileBlock file a.blk k

def packet (a : Answer file) : ℕ → List Byte
  | 0 => htons 6 ++ cstrings (a.options.getD [])
  | k + 1 => dataPacket file a.blk k

end Answer

/-- A transfer of the server, to port `client`, waiting for the acknowledgement of packet `pos`. -/
structure Transfer (file : List Byte) where
  answer : Answer file
  client : Word
  pos : ℕ

structure World (file : List Byte) where
  client : Client
  outcome : Outcome
  transfers : Word → Option (Transfer file)

/-- What may arrive: a packet that a transfer has sent, with `rest` behind it in the buffer, an
error of the server, or anything that is not from it. -/
inductive Arrives (w : World file) : Call → Prop where
  | packet {p : Word} {t : Transfer file} {k : ℕ} (rest : List Byte) (ht : w.transfers p = some t)
      (hfirst : t.answer.first ≤ k) (hk : k ≤ t.pos) :
      Arrives w ⟨t.answer.packet k ++ rest, t.client, p, BitVec.ofNat 32 (t.answer.packet k).length⟩
  | error {p : Word} {t : Transfer file} (body : List Byte) (len : Word)
      (ht : w.transfers p = some t) : Arrives w ⟨htons 5 ++ body, t.client, p, len⟩
  | stray {call : Call} (h : call.dest ≠ w.client.ourPort ∨
      w.client.state ≠ .rrq ∧ call.src ≠ w.client.serverPort) : Arrives w call

/-- A turn of the client's loop, or a packet of the client that reaches the server. -/
inductive Event (file : List Byte) where
  | turn (t : Turn)
  | request (d : Datagram) (port : Word) (answer : Answer file)
  | acknowledge (d : Datagram)

def ackPacket (k : ℕ) : List Byte := htons 4 ++ htons (BitVec.ofNat 32 k)

def step : Event file → World file → World file → Prop
  | .turn t, w, w' =>
    w.outcome = .running ∧ (∀ call ∈ t.received, Arrives w call) ∧
      w' = { w with client := (netLoopTurn t w.client).1, outcome := (netLoopTurn t w.client).2 }
  | .request d port answer, w, w' =>
    d ∈ w.client.sent ∧ d.payload.take 2 = htons 1 ∧ w.transfers port = none ∧
      w' = { w with
        transfers := Function.update w.transfers port (some ⟨answer, d.sport, answer.first⟩) }
  | .acknowledge d, w, w' =>
    d ∈ w.client.sent ∧ ∃ t, w.transfers d.dport = some t ∧ d.payload = ackPacket t.pos ∧
      t.pos < t.answer.last ∧
      w' = { w with
        transfers := Function.update w.transfers d.dport (some { t with pos := t.pos + 1 }) }

/-- `NetLoop` enters its loop; the log of what it sent starts here. -/
def start (timer : Word) (c : Client) : World file :=
  ⟨tftpStart timer { c with sent := [] }, .running, fun _ => none⟩

/-! ## The blocks of a file -/

theorem fileBlock_length (file : List Byte) (blk k : ℕ) :
    (fileBlock file blk k).length = min blk (file.length - k * blk) := by
  rw [fileBlock, List.length_take, List.length_drop]

theorem fileBlock_getD {blk k i : ℕ} (hi : i < (fileBlock file blk k).length) :
    (fileBlock file blk k).getD i 0 = file.getD (k * blk + i) 0 := by
  have hlt : i < blk := by
    rw [fileBlock_length] at hi
    omega
  simp only [List.getD_eq_getElem?_getD]
  rw [fileBlock, List.getElem?_take_of_lt hlt, List.getElem?_drop]

theorem fileBlock_short {blk k : ℕ} (hblk : 0 < blk) (hk : k ≤ file.length / blk) :
    (fileBlock file blk k).length < blk ↔ k = file.length / blk := by
  have hdiv := Nat.div_add_mod file.length blk
  have hmod := Nat.mod_lt file.length hblk
  rw [fileBlock_length]
  rcases Nat.lt_or_ge k (file.length / blk) with hlt | hge
  · have hmul := Nat.mul_le_mul_left blk (Nat.succ_le_of_lt hlt)
    rw [Nat.mul_succ] at hmul
    have hcomm := Nat.mul_comm k blk
    omega
  · have hk' : k = file.length / blk := by omega
    subst hk'
    have hcomm := Nat.mul_comm (file.length / blk) blk
    omega

theorem fileBlock_end_le {blk k : ℕ} (hk : k ≤ file.length / blk) :
    k * blk + (fileBlock file blk k).length ≤ file.length := by
  have hle := Nat.mul_le_mul_right blk hk
  have hdiv := Nat.div_mul_le_self file.length blk
  rw [fileBlock_length]
  omega

/-- Where a block ends: at the end of the file or where the next one begins. -/
theorem fileBlock_end {blk k : ℕ} (hk : k ≤ file.length / blk) :
    k * blk + (fileBlock file blk k).length = min ((k + 1) * blk) file.length := by
  have hle := Nat.mul_le_mul_right blk hk
  have hdiv := Nat.div_mul_le_self file.length blk
  rw [fileBlock_length, Nat.succ_mul]
  omega

/-! ## The packets at the client -/

theorem tftpHandler_reaches (call : Call) {c : Client} (hdest : call.dest = c.ourPort)
    (hsrc : c.state = .rrq ∨ call.src = c.serverPort) (hlen : ¬ call.len < 2) :
    tftpHandler call.pkt call.dest call.src call.len c = tftpReceive call.pkt call.src call.len c := by
  rw [tftpHandler, if_neg (not_not.mpr hdest), if_neg, if_neg hlen]
  intro hs
  cases hsrc with
  | inl hr => exact hs.1 hr
  | inr hp => exact hs.2 hp

theorem Answer.first_le_one (a : Answer file) : a.first ≤ 1 := by
  rw [first]
  split <;> omega

theorem Answer.first_le_last (a : Answer file) : a.first ≤ a.last :=
  a.first_le_one.trans (Nat.le_add_left 1 _)

theorem Answer.file_length_lt (a : Answer file) : file.length < 2 ^ 32 := by
  have hblk := a.blk_lt
  have hblocks := a.blocks_lt
  have hdiv := Nat.lt_div_mul_add (a := file.length) a.blk_pos
  have hmul : file.length / a.blk * a.blk ≤ 0xfffe * 0xffff := Nat.mul_le_mul (by omega) (by omega)
  omega

end Armboard.Tftp
