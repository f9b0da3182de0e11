import Armboard.Net.Datagram
import Armboard.Tftp.Transfer

/-! # The client on the Ethernet

The same session with the frames between the stations. The client's station hears any frame
and any length for it, takes it apart with `NetReceive` and hands a datagram to the handler;
what the client sends goes through `NetSendUDPPacket`. The server's datagrams arrive as
frames of its own station, with anything behind them.
-/

namespace Armboard.Tftp
open Exec Net Storage

variable {file : List Byte}

/-- What happens in a turn of the loop: a frame with its length, a key, and which times are over. -/
structure FrameTurn where
  heard : Option (List Byte × Word)
  ctrlc : Bool
  arpExpired : Bool
  timerExpired : Bool

/-- The datagrams that the client has sent between two states. -/
def sendAll (c c' : Client) (net : Globals) : Globals :=
  (c'.sent.take (c'.sent.length - c.sent.length)).reverse.foldl
    (fun net d => netSendUDPPacket .server d.ip d.dport d.sport d.payload net) net

/-- The call that a turn makes, and whether the search for an address is given up in it. -/
def FrameTurn.turn (t : FrameTurn) (c : Client) (net : Globals) : Turn :=
  let r := match t.heard with
    | some f => netReceive f.1 f.2 net
    | none => (net, none)
  let c₁ := match r.2 with
    | some call => handlePacket call c
    | none => c
  ⟨r.2, t.ctrlc, (arpTimeoutCheck t.arpExpired (sendAll c c₁ r.1)).2, t.timerExpired⟩

end Armboard.Tftp
