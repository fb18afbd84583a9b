import ClusterOverlay.Control
import ClusterOverlay.Outbox

/-!
# The mailroom

The mailroom of a node holds what sending and delivering need: the node's view,
its listeners, its outbox, and the batches being collected.  Two activities
recur in it.  Old batches are given out at equal distances, and a beat tells
the one who watches the node that it is still there.  Either may be off.

A message or batch that cannot be sent is dropped: nobody waits for an answer.
-/

namespace ClusterOverlay

/-- What a node needs in order to send and to deliver. -/
structure Mailroom where
  view : View
  listeners : Listeners
  outbox : Outbox
  batcher : Batcher
  /-- When batches are looked over, if they are. -/
  flushes : Option Ticker := none
  /-- When the node beats, if it does. -/
  beats : Option Ticker := none
  /-- What the listeners have got, oldest first. -/
  delivered : List Delivery := []
  /-- The addresses that the system of the node has for hosts. -/
  resolver : Resolver := Resolver.empty

namespace Mailroom

/-! ## Sending -/

/-- Hand payloads to their listeners. -/
def deliver (room : Mailroom) (deliveries : List Delivery) : Mailroom :=
  { room with delivered := room.delivered ++ deliveries }

/-- Send a payload to a peer by the route that the view suggests. -/
def send (room : Mailroom) (now : Nat) (payload : Bytes) (peer : Peer) (envelope : Envelope) :
    Except SendError Mailroom :=
  (room.outbox.send room.resolver room.view room.listeners now payload peer envelope).map
    fun (deliveries, outbox) => { room with outbox }.deliver deliveries

/-- Send a batch to the peer that it was collected for. -/
def sendBatch (room : Mailroom) (now : Nat) (parcel : Parcel) : Except SendError Mailroom :=
  room.send now parcel.payload parcel.peer .coalesced

/-- Send batches one after another. -/
def sendBatches (room : Mailroom) (now : Nat) (parcels : List Parcel) : Mailroom :=
  parcels.foldl (fun room parcel => (room.sendBatch now parcel).toOption.getD room) room

/-- Send a payload to a peer without a relay. -/
def sendDirect (room : Mailroom) (now : Nat) (payload : Bytes) (peer : Peer) (route : Route)
    (envelope : Envelope) : Except CodecError Mailroom :=
  (room.outbox.sendDirect room.resolver now payload peer route envelope).map
    fun outbox => { room with outbox }

/-- Pass a packet of somebody else on. -/
def forward (room : Mailroom) (now : Nat) (raw : Bytes) (nextHop : Peer) :
    Except CodecError Mailroom :=
  (room.outbox.forward now raw nextHop).map fun outbox => { room with outbox }

/-- Send the bytes of a message to a peer without a relay. -/
def sendMessage (room : Mailroom) (now : Nat) (peer : Peer) (message : Control) :
    Except CodecError Mailroom := do
  room.sendDirect now (← message.encode) peer .use (.control message.content)

/-- Tell a peer something, if that can be said. -/
def tell (room : Mailroom) (now : Nat) (peer : Peer) (message : Control) : Mailroom :=
  (room.sendMessage now peer message).toOption.getD room

/-- Collect a payload for a peer, without sending the batch that it fills. -/
def collect (room : Mailroom) (now : Nat) (data : Bytes) (peer : Peer) (channel : Channel) :
    Option Parcel × Mailroom :=
  let (full, batcher) := room.batcher.collect now data peer channel
  (full, { room with batcher })

/-! ## Recurring activities -/

/-- Send the batches that are old enough. -/
def flushAged (room : Mailroom) (now : Nat) : Mailroom :=
  let (aged, batcher) := room.batcher.flushAged now
  { room with batcher }.sendBatches now aged

/-- Send all batches. -/
def flushAll (room : Mailroom) (now : Nat) : Mailroom :=
  let (all, batcher) := room.batcher.flushAll
  { room with batcher }.sendBatches now all

/-- Report to the one who watches the node. -/
def beat (room : Mailroom) (now : Nat) : Mailroom :=
  match room.view.beat with
  | some (message, peer) => room.tell now peer message
  | none => room

/-- Look over the batches if that is due. -/
def flushIfDue (room : Mailroom) (now : Nat) : Mailroom :=
  match room.flushes with
  | some ticker =>
      if ticker.isDue now then { room.flushAged now with flushes := some ticker.advance } else room
  | none => room

/-- Beat if that is due. -/
def beatIfDue (room : Mailroom) (now : Nat) : Mailroom :=
  match room.beats with
  | some ticker =>
      if ticker.isDue now then { room.beat now with beats := some ticker.advance } else room
  | none => room

/-- When the next recurring activity is due. -/
def due (room : Mailroom) : Option Nat :=
  earliest [room.flushes.map Ticker.next, room.beats.map Ticker.next]

/-- The recurring activities at a given time. -/
def activities (room : Mailroom) (time : Nat) : List (Activity Mailroom) :=
  [.ofTicker room.flushes (·.flushIfDue time), .ofTicker room.beats (·.beatIfDue time)]

/-- Do what is due at a given time. -/
def act (time : Nat) (room : Mailroom) : Mailroom :=
  Activity.inTurn (room.activities time) room

/-- Let time pass. -/
def elapse (room : Mailroom) (now target : Nat) : Mailroom :=
  ClusterOverlay.elapse due act now target room

/-- End both activities. -/
def quiesce (room : Mailroom) : Mailroom :=
  { room with flushes := none, beats := none }

/-! ## Emptying -/

/-- Take everything that may be sent now. -/
def drain (room : Mailroom) (now : Nat) : List Scheduled × Mailroom :=
  let (items, outbox) := room.outbox.drain now
  (items, { room with outbox })

/-- Take what the listeners have got. -/
def collectDelivered (room : Mailroom) : List Delivery × Mailroom :=
  (room.delivered, { room with delivered := [] })

end Mailroom

end ClusterOverlay
