import ClusterOverlay.Packet.Kind
import ClusterOverlay.Roster

/-!
# Control messages

The messages by which nodes agree on the membership and tell each other that
they are alive.  The content code of a packet says which message its payload
is.  Two contents, `coalesced` and `data`, carry none.
-/

namespace ClusterOverlay

/-- A message of the membership protocol. -/
inductive Control
  /-- The sender asks the main server for a place. -/
  | hello (sender : Peer)
  /-- The sender is still there. -/
  | alive (sender : Peer)
  | add (placement : Placement)
  | remove (placement : Placement)
  /-- The main server's whole roster. -/
  | network (roster : Roster)
  /-- The overlay is closing. -/
  | close
  deriving DecidableEq, Repr

namespace Control

/-- The content of the packet that carries a message. -/
def content : Control → Content
  | hello _ => .hello
  | alive _ => .alive
  | add _ => .add
  | remove _ => .remove
  | network _ => .network
  | close => .close

/-- The payload of the packet that carries a message. -/
def encode : Control → Except CodecError Bytes
  | hello sender => sender.encode
  | alive sender => sender.encode
  | add placement => placement.encode
  | remove placement => placement.encode
  | network roster => roster.encode
  | close => .ok []

/-- Read the message in a payload, if its content carries one. -/
def decode (content : Content) (payload : Bytes) : Except CodecError (Option Control) :=
  match content with
  | .hello => (Peer.decode payload).map (some ∘ hello)
  | .alive => (Peer.decode payload).map (some ∘ alive)
  | .add => (Placement.decode payload).map (some ∘ add)
  | .remove => (Placement.decode payload).map (some ∘ remove)
  | .network => (Roster.decode payload).map (some ∘ network)
  | .close => .ok (some close)
  | .coalesced => .ok none
  | .data => .ok none

end Control

end ClusterOverlay
