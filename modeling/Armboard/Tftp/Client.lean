import Armboard.Env.Setenv
import Armboard.Net.Packet
import Armboard.Storage.Block
import Armboard.Text.Numeral

/-! # The TFTP client

`net/tftp.c`, and the loop of `NetLoop` that runs it. A handler gets a pointer into the
receive buffer, here the bytes from there on, and the length of the packet. Which turn of
the loop a timer runs out in, a key is pressed or the search for a hardware address is
given up is not known to the model, so each turn is told.
-/

namespace Armboard.Tftp
open Ethernet Env Storage Net

/-- `TftpState`. -/
inductive State where
  | rrq
  | data
  | tooLarge
  | badMagic
  | oack
  deriving DecidableEq

inductive PacketHandler where
  | tftpHandler
  | startAgainHandler
  deriving DecidableEq

inductive TimeHandler where
  | tftpTimeout
  | startAgainTimeout
  deriving DecidableEq

structure Datagram where
  ip : Word
  dport : Word
  sport : Word
  payload : List Byte
  deriving DecidableEq

/-- The variables of `tftp.c` and those of `net.c` it uses. -/
structure Client where
  serverIP : Word
  serverPort : Word
  ourPort : Word
  timeoutCount : ℕ
  block : Word
  lastBlock : Word
  blockWrap : Word
  blockWrapOffset : Word
  state : State
  blkSize : BitVec 16
  filename : List Byte
  bootFile : List Byte
  netServerIP : Word
  netOurIP : Word
  loadAddr : Word
  mem : Word → Byte
  netBootFileXferSize : Word
  netretry : Option (List Byte)
  netState : NetState
  packetHandler : PacketHandler
  timeHandler : Option TimeHandler
  sent : List Datagram
  output : List Output

def Client.initial : Client where
  serverIP := 0
  serverPort := 0
  ourPort := 0
  timeoutCount := 0
  block := 0
  lastBlock := 0
  blockWrap := 0
  blockWrapOffset := 0
  state := .rrq
  blkSize := 512
  filename := []
  bootFile := []
  netServerIP := 0
  netOurIP := 0
  loadAddr := 0x21000000
  mem _ := 0
  netBootFileXferSize := 0
  netretry := none
  netState := .netloopContinue
  packetHandler := .tftpHandler
  timeHandler := none
  sent := []
  output := []

def say (format : String) (args : List Arg) (c : Client) : Client :=
  { c with output := .printf format args :: c.output }

def cstring (p : List Byte) : List Byte := p.takeWhile fun b => decide (b ≠ 0)

/-- `%d`. -/
def decimal (v : ℕ) : List Byte := Text.numeral (fun d => BitVec.ofNat 8 (0x30 + d)) 10 v

def hexDigit (d : ℕ) : Byte := BitVec.ofNat 8 (if d < 10 then 0x30 + d else 0x37 + d)

/-- `%02lX` of a byte. -/
def hexByte (w : Word) : List Byte :=
  [hexDigit ((w &&& 0xFF).toNat / 16), hexDigit ((w &&& 0xFF).toNat % 16)]

/-! ## Sending -/

abbrev timeoutLimit : ℕ := 40
abbrev tftpBlockSize : BitVec 16 := 512
abbrev tftpMtuBlocksize : ℕ := 1468
abbrev wellKnownPort : Word := 69
abbrev maxLen : ℕ := 128

def tftpPacket (c : Client) : List Byte :=
  match c.state with
  | .rrq =>
    htons 1 ++ c.filename ++ [0] ++ ascii "octet" ++ [0] ++ ascii "timeout" ++ [0] ++ ascii "5" ++ [0] ++
      ascii "blksize" ++ [0] ++ decimal tftpMtuBlocksize ++ [0]
  | .oack | .data => htons 4 ++ htons c.block
  | .tooLarge => htons 5 ++ htons 3 ++ ascii "File too large" ++ [0]
  | .badMagic => htons 5 ++ htons 2 ++ ascii "File has bad magic" ++ [0]

def tftpSend (c : Client) : Client :=
  { c with sent := ⟨c.serverIP, c.serverPort, c.ourPort, tftpPacket c⟩ :: c.sent }

def netStartAgain (c : Client) : Client :=
  if c.netretry = some (ascii "no") then { c with netState := .netloopFail }
  else { c with timeHandler := some .startAgainTimeout, packetHandler := .startAgainHandler }

/-! ## Receiving -/

def storeBlock (block : Word) (src : List Byte) (len : Word) (c : Client) : Client :=
  let offset := block * c.blkSize.setWidth 32 + c.blockWrapOffset
  let newsize := offset + len
  { c with
    mem := store c.mem (c.loadAddr + offset) len.toNat fun i => src.getD i 0
    netBootFileXferSize :=
      if c.netBootFileXferSize < newsize then newsize else c.netBootFileXferSize }

/-- The search for the option `blksize`, which ends after so many places. -/
def blksizeOption : ℕ → List Byte → Option (BitVec 16)
  | 0, _ => none
  | n + 1, pkt =>
    if cstring pkt = ascii "blksize" then some ((simpleStrtoul (pkt.drop 8) 10).1.setWidth 16)
    else blksizeOption n pkt.tail

/-- The case `TFTP_OACK` of `TftpHandler`. -/
def tftpOack (pkt : List Byte) (src len : Word) (c : Client) : Client :=
  let c := { c with state := .oack, serverPort := src }
  let c := match blksizeOption (len.toNat - 8) pkt with
    | some blkSize => { c with blkSize := blkSize }
    | none => c
  tftpSend c

/-- The sequence number wraps around, or the progress shows. -/
def countBlock (c : Client) : Client :=
  if c.block = 0 then
    let offset := c.blockWrapOffset + c.blkSize.setWidth 32 * 0x10000
    say "\n\t %lu MB received\n\t " [.word (offset >>> 20)]
      { c with blockWrap := c.blockWrap + 1, blockWrapOffset := offset }
  else if (c.block - 1) % 10 = 0 then say "#" [] c
  else if c.block % 650 = 0 then say "\n\t " [] c
  else c

/-- A block that is not the first of the transfer. -/
def tftpNextBlock (src : List Byte) (len : Word) (c : Client) : Client :=
  if c.block = c.lastBlock then c
  else
    let c := { c with lastBlock := c.block, timeHandler := some .tftpTimeout }
    let c := tftpSend (storeBlock (c.block - 1) src len c)
    if len < c.blkSize.setWidth 32 then { say "\ndone\n" [] c with netState := .netloopSuccess }
    else c

/-- The case `TFTP_DATA` of `TftpHandler`. -/
def tftpData (pkt : List Byte) (src len : Word) (c : Client) : Client :=
  let c := countBlock { c with block := ntohs pkt }
  if c.state = .rrq ∨ c.state = .oack then
    let c := { c with
      state := .data, serverPort := src, lastBlock := 0, blockWrap := 0, blockWrapOffset := 0 }
    if c.block ≠ 1 then
      netStartAgain
        (say "\nTFTP error: First block is not block 1 (%ld)\nStarting again\n\n" [.word c.block] c)
    else tftpNextBlock (pkt.drop 2) len c
  else tftpNextBlock (pkt.drop 2) len c

/-- The packets that are for this transfer. -/
def tftpReceive (pkt : List Byte) (src len : Word) (c : Client) : Client :=
  if ntohs pkt = 6 then tftpOack (pkt.drop 2) src (len - 2) c
  else if ntohs pkt = 3 then
    if len - 2 < 2 then c else tftpData (pkt.drop 2) src (len - 2 - 2) c
  else if ntohs pkt = 5 then
    netStartAgain (say "Starting again\n\n" [] (say "\nTFTP error: '%s' (%d)\n"
      [argText (cstring (pkt.drop 4)), .word (ntohs (pkt.drop 2))] c))
  else c

def tftpHandler (pkt : List Byte) (dest src len : Word) (c : Client) : Client :=
  if dest ≠ c.ourPort then c
  else if c.state ≠ .rrq ∧ src ≠ c.serverPort then c
  else if len < 2 then c
  else tftpReceive pkt src len c

def tftpTimeout (c : Client) : Client :=
  let c := { c with timeoutCount := c.timeoutCount + 1 }
  if timeoutLimit < c.timeoutCount then
    netStartAgain (say "\nRetry count exceeded; starting again\n" [] c)
  else tftpSend { say "T " [] c with timeHandler := some .tftpTimeout }

/-! ## Starting -/

/-- `string_to_ip`, with the bytes in the order of the network. -/
def stringToIp (s : List Byte) : Word :=
  let val := readOctets 4 s
  (val.getD 3 0 ++ val.getD 2 0 ++ val.getD 1 0 ++ val.getD 0 0).setWidth 32
where
  readOctets : ℕ → List Byte → List Byte
    | 0, _ => []
    | n + 1, s =>
      let r := simpleStrtoul s 10
      r.1.setWidth 8 :: readOctets n (if deref r.2 ≠ 0 then r.2.tail else r.2)

/-- The server and the file that `TftpStart` takes from the name, and the name it leaves. -/
def splitBootFile (c : Client) : Client :=
  if c.bootFile = [] then
    { c with
      serverIP := c.netServerIP
      filename := hexByte c.netOurIP ++ hexByte (c.netOurIP >>> 8) ++ hexByte (c.netOurIP >>> 16) ++
        hexByte (c.netOurIP >>> 24) ++ ascii ".img" }
  else
    match c.bootFile.span fun b => decide (b ≠ 0x3A) with
    | (name, []) => { c with serverIP := c.netServerIP, filename := name.take (maxLen - 1) }
    | (ip, _ :: name) =>
      { c with bootFile := ip, serverIP := stringToIp ip, filename := name.take (maxLen - 1) }

/-- `TftpStart` at a time of the timer, in a loop just entered or restarted. -/
def tftpStart (timer : Word) (c : Client) : Client :=
  let c := splitBootFile { c with netState := .netloopContinue }
  let c := tftpSend { c with
    timeHandler := some .tftpTimeout
    packetHandler := .tftpHandler
    serverPort := wellKnownPort
    timeoutCount := 0
    state := .rrq
    ourPort := 1024 + timer % 3072
    block := 0
    blkSize := tftpBlockSize }
  { c with netBootFileXferSize := 0 }

/-! ## The loop -/

structure Turn where
  received : Option Call
  ctrlc : Bool
  arpGivesUp : Bool
  timerExpired : Bool

/-- How the loop goes on: for another turn, from `restart`, or back to the caller, with the size of
the file or with -1. -/
inductive Outcome where
  | running
  | restarted
  | loaded (size : Word)
  | failed
  deriving DecidableEq

def handlePacket (call : Call) (c : Client) : Client :=
  match c.packetHandler with
  | .tftpHandler => tftpHandler call.pkt call.dest call.src call.len c
  | .startAgainHandler => c

def handleTimer (c : Client) : Client :=
  match c.timeHandler with
  | none => c
  | some .tftpTimeout => tftpTimeout { c with timeHandler := none }
  | some .startAgainTimeout => { c with timeHandler := none, netState := .netloopRestart }

def outcome (c : Client) : Outcome :=
  match c.netState with
  | .netloopContinue => .running
  | .netloopRestart => .restarted
  | .netloopSuccess => .loaded c.netBootFileXferSize
  | .netloopFail => .failed

def netLoopTurn (t : Turn) (c : Client) : Client × Outcome :=
  let c := match t.received with
    | some call => handlePacket call c
    | none => c
  if t.ctrlc then (say "\nAbort\n" [] c, .failed)
  else
    let c := if t.arpGivesUp then
        netStartAgain (say "\nARP Retry count exceeded; starting again\n" [] c)
      else c
    let c := if t.timerExpired then handleTimer c else c
    (c, outcome c)

end Armboard.Tftp
