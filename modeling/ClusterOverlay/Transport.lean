import ClusterOverlay.Framing
import ClusterOverlay.Peer
import ClusterOverlay.Table

/-!
# Connections

A node opens a connection to a peer when it first has something to write to
it, and keeps it for later.  Connections are one-way: what a peer answers comes
on a connection that the peer has opened.  Packets may be written at once or
left to be written; each peer has its own writer, so that one that cannot be
reached holds up nobody else.

Whether a peer can be reached is not decided here.
-/

namespace ClusterOverlay

/-- Which peers accept a connection. -/
abbrev Reach := Peer → Bool

/-- The network without connections. -/
def Reach.nobody : Reach :=
  fun _ => false

/-- What can go wrong with connections. -/
inductive TransportError
  /-- The node cannot listen under this name. -/
  | bind (peer : Peer)
  | connectTimeout (peer : Peer) (limit : Nat)
  | connect (peer : Peer)
  | write (peer : Peer)
  /-- A packet of this many bytes fits no frame. -/
  | frameTooLarge (length : Nat)
  /-- The node has closed its connections for good. -/
  | closed
  deriving DecidableEq, Repr

/-- The text reported, where it does not depend on the system. -/
def TransportError.message? : TransportError → Option String
  | bind _ => none
  | connectTimeout peer limit =>
      some ("connect to " ++ peer.text ++ " timed out after " ++ limit.repr ++ " ms")
  | connect _ => none
  | write _ => none
  | frameTooLarge length =>
      some ("frame of " ++ length.repr ++ " bytes exceeds the 15360-byte read buffer")
  | closed => some "transport is closed"

/-- A connection that the node has opened. -/
structure Connection where
  peer : Peer
  /-- The packets written and not yet looked at, oldest first. -/
  written : List Bytes
  isOpen : Bool
  deriving DecidableEq, Repr

/-- The connections of a node. -/
structure Transport where
  /-- All connections that the node has opened, oldest first. -/
  connections : List Connection := []
  /-- Packets left to be written. -/
  waiting : List (Peer × Bytes) := []
  /-- The connections on which others write, by name. -/
  readers : Table String Framing.Reader := Table.empty
  isClosed : Bool := false

namespace Transport

/-- The connections of a node that begins to listen under a given name.  It
can listen on any IPv4 address. -/
def listen (listener : Peer) (resolver : Resolver := Resolver.empty) :
    Except TransportError Transport :=
  match listener.endpoint resolver with
  | .ok _ => .ok {}
  | .error _ => .error (.bind listener)

/-! ## Writing -/

/-- Whether a connection to a peer is kept. -/
def isConnected (transport : Transport) (peer : Peer) : Bool :=
  transport.connections.any fun connection => connection.isOpen && connection.peer == peer

/-- Change the connection kept for a peer, if there is one. -/
def onConnection (transport : Transport) (peer : Peer) (change : Connection → Connection) :
    Transport :=
  { transport with
    connections := transport.connections.map fun connection =>
      if connection.isOpen && connection.peer == peer then change connection else connection }

/-- Close the connection kept for a peer, and tell whether there was one. -/
def hangUp (transport : Transport) (peer : Peer) : Bool × Transport :=
  (transport.isConnected peer,
    transport.onConnection peer fun connection => { connection with isOpen := false })

/-- Open a connection to a peer, unless one is kept. -/
def connect (reach : Reach) (transport : Transport) (peer : Peer) :
    Except TransportError Transport :=
  if transport.isConnected peer then
    .ok transport
  else if reach peer then
    .ok { transport with connections := transport.connections ++ [⟨peer, [], true⟩] }
  else
    .error (.connect peer)

/-- Whether a packet may be written at all. -/
def checkPacket (transport : Transport) (packet : Bytes) : Except TransportError Unit :=
  if transport.isClosed then .error .closed
  else if Packet.frameLimit < packet.length then .error (.frameTooLarge packet.length)
  else .ok ()

/-- Write a packet to a peer. -/
def write (reach : Reach) (transport : Transport) (packet : Bytes) (peer : Peer) :
    Except TransportError Transport := do
  transport.checkPacket packet
  let transport ← transport.connect reach peer
  return transport.onConnection peer fun connection =>
    { connection with written := connection.written ++ [packet] }

/-- Leave a packet to be written. -/
def queue (transport : Transport) (packet : Bytes) (peer : Peer) : Transport :=
  { transport with waiting := transport.waiting ++ [(peer, packet)] }

/-- Number of packets left to be written. -/
def pending (transport : Transport) : Nat :=
  transport.waiting.length

/-- Write the packets left to be written.  Those that cannot be written are
dropped. -/
def settle (reach : Reach) (transport : Transport) : Transport :=
  transport.waiting.foldl
    (fun transport (peer, packet) =>
      (transport.write reach packet peer).toOption.getD transport)
    { transport with waiting := [] }

/-- Take what has been written since this was last asked, connection by
connection. -/
def collectWritten (transport : Transport) : List (Peer × List Bytes) × Transport :=
  (transport.connections.map fun connection => (connection.peer, connection.written),
    { transport with
      connections := transport.connections.map fun connection =>
        { connection with written := [] } })

/-! ## Reading -/

/-- The reader of the connection of a given name. -/
def reader (transport : Transport) (name : String) : Framing.Reader :=
  (transport.readers.find? name).getD { Framing.Reader.fresh with isOpen := !transport.isClosed }

/-- Read a piece on the connection of a given name. -/
def feed (transport : Transport) (name : String) (piece : Bytes) : List Bytes × Transport :=
  let (packets, reader) := (transport.reader name).feed piece
  (packets, { transport with readers := transport.readers.insert name reader })

/-- The other side has finished writing on the connection of a given name. -/
def finish (transport : Transport) (name : String) : Transport :=
  { transport with readers := transport.readers.insert name (transport.reader name).close }

/-! ## The end -/

/-- Close all connections for good. -/
def close (transport : Transport) : Transport :=
  { transport with
    connections := transport.connections.map fun connection => { connection with isOpen := false }
    waiting := []
    readers := ⟨transport.readers.entries.map fun (name, reader) => (name, reader.close)⟩
    isClosed := true }

end Transport

end ClusterOverlay
