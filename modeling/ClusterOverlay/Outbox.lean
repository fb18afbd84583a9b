import ClusterOverlay.Batch
import ClusterOverlay.Reassembly
import ClusterOverlay.Routing
import ClusterOverlay.Schedule

/-!
# The outbox

A payload leaves a node in four steps: a route is chosen from the node's view,
the payload is cut into fragments under a fresh message id, every fragment gets
a header, and the fragments enter the send schedule.  A payload for the node
itself skips all of this and goes to its listeners.

An attempt to send either does all of that or changes nothing.
-/

namespace ClusterOverlay

/-! ## Envelopes -/

/-- What a header says about a payload, apart from where it goes. -/
structure Envelope where
  channel : Channel
  content : Content
  priority : Nat
  broadcast : Bool := false
  deriving DecidableEq, Repr

namespace Envelope

/-- For a payload of an application. -/
def data (channel : Channel) (priority : Nat) : Envelope :=
  { channel, content := .data, priority }

/-- For a message of the membership protocol, which goes before everything
else. -/
def control (content : Content) : Envelope :=
  { channel := .networking, content, priority := 0 }

/-- For a batch. -/
def coalesced : Envelope :=
  { channel := .networking, content := .coalesced, priority := 2 }

/-- The same envelope for a broadcast. -/
def toAll (envelope : Envelope) : Envelope :=
  { envelope with broadcast := true }

end Envelope

/-! ## Errors -/

/-- Why a payload was not sent. -/
inductive SendError
  /-- A header has room for priorities up to seven. -/
  | invalidPriority (priority : Nat)
  | noRoute (peer : Peer)
  | codec (cause : CodecError)
  /-- The node has left the overlay. -/
  | closed
  deriving DecidableEq, Repr

/-- The text reported for a payload that was not sent. -/
def SendError.message : SendError → String
  | invalidPriority priority => "priority " ++ priority.repr ++ " is outside 0-7"
  | noRoute peer => "no route to " ++ peer.text
  | codec cause => cause.message
  | closed => "networking is closed"

/-! ## Sending -/

/-- What a listener gets of a payload that need not travel. -/
def Listeners.deliver (listeners : Listeners) (envelope : Envelope) (payload : Bytes) :
    List Delivery :=
  if envelope.channel = .networking ∧ envelope.content = .coalesced then
    listeners.dispatchBatch payload
  else
    listeners.dispatch envelope.channel payload

/-- The payloads of a node on their way out. -/
structure Outbox where
  /-- Payload bytes in one fragment. -/
  maxPayload : Nat
  /-- The id of the next message. -/
  nextId : UInt32
  schedule : Schedule
  deriving Repr

namespace Outbox

/-- The packet that carries a whole payload, before it is cut. -/
def packet (payload : Bytes) (destination : Endpoint) (route : Route) (envelope : Envelope) :
    Packet :=
  { route
    priority := ⟨envelope.priority % 8, Nat.mod_lt _ (Nat.succ_pos 7)⟩
    channel := envelope.channel
    content := envelope.content
    broadcast := envelope.broadcast
    destination
    messageId := 0
    index := 0
    count := 1
    payload }

/-- Schedule a payload for a destination by way of a given next hop. -/
def sendVia (outbox : Outbox) (resolver : Resolver) (now : Nat) (payload : Bytes)
    (destination nextHop : Peer) (route : Route) (envelope : Envelope) :
    Except CodecError Outbox :=
  (destination.endpoint resolver).map fun endpoint =>
    let fragments :=
      (packet payload endpoint route envelope).fragments outbox.maxPayload outbox.nextId
    { outbox with
      nextId := outbox.nextId + 1
      schedule := fragments.foldl (fun schedule fragment => schedule.put now nextHop fragment)
        outbox.schedule }

/-- Schedule a payload for a peer without a relay, whatever the view. -/
def sendDirect (outbox : Outbox) (resolver : Resolver) (now : Nat) (payload : Bytes) (peer : Peer)
    (route : Route) (envelope : Envelope) : Except CodecError Outbox :=
  outbox.sendVia resolver now payload peer peer route envelope

/-- Send a payload to a peer by the route that a view suggests.  The payloads
for the node's own listeners are given out. -/
def send (outbox : Outbox) (resolver : Resolver) (view : View) (listeners : Listeners) (now : Nat)
    (payload : Bytes) (peer : Peer) (envelope : Envelope) :
    Except SendError (List Delivery × Outbox) :=
  if 7 < envelope.priority then
    .error (.invalidPriority envelope.priority)
  else
    match view.plan peer with
    | .stay => .ok (listeners.deliver envelope payload, outbox)
    | .noRoute => .error (.noRoute peer)
    | .send route nextHop =>
        match outbox.sendVia resolver now payload peer nextHop route envelope with
        | .ok outbox => .ok ([], outbox)
        | .error cause => .error (.codec cause)

/-- Pass a packet of somebody else on. -/
def forward (outbox : Outbox) (now : Nat) (raw : Bytes) (nextHop : Peer) :
    Except CodecError Outbox :=
  (outbox.schedule.add now nextHop raw).map fun schedule => { outbox with schedule }

/-- Everything that may be sent now. -/
def drain (outbox : Outbox) (now : Nat) : List Scheduled × Outbox :=
  let (items, schedule) := outbox.schedule.drainAll now
  (items, { outbox with schedule })

end Outbox

end ClusterOverlay
