import ClusterOverlay.Node
import ClusterOverlay.Transport

/-!
# Stations

A station is a node that listens on an address and writes to others: what an
application holds in order to take part in the overlay.  It sends, collects and
broadcasts payloads, lets listeners subscribe, and closes.

Everything that may be sent is written at once; what the budgets hold back is
written when they are restored.  One destination that fails never affects the
others: a report says what became of each.
-/

namespace ClusterOverlay

/-- Why a station cannot be started. -/
inductive StartError
  | config (cause : ConfigError)
  | codec (cause : CodecError)
  | transport (cause : TransportError)
  deriving DecidableEq, Repr

/-- What became of each destination of a payload. -/
structure SendReport where
  sent : List Peer := []
  failed : List (Peer × SendError) := []
  deriving DecidableEq, Repr

namespace SendReport

/-- Whether nothing failed. -/
def isOk (report : SendReport) : Bool :=
  report.failed.isEmpty

/-- Record what became of a destination. -/
def record (report : SendReport) (peer : Peer) : Except SendError Unit → SendReport
  | .ok () => { report with sent := report.sent ++ [peer] }
  | .error cause => { report with failed := report.failed ++ [(peer, cause)] }

end SendReport

namespace Mailroom

/-- Make an attempt for a destination and record it.  An attempt that fails
changes nothing. -/
def attempt (progress : SendReport × Mailroom) (peer : Peer)
    (outcome : Except SendError Mailroom) : SendReport × Mailroom :=
  match outcome with
  | .ok room => (progress.1.record peer (.ok ()), room)
  | .error cause => (progress.1.record peer (.error cause), progress.2)

/-- Send a payload to a peer under the name that packets use for it. -/
def sendData (room : Mailroom) (now : Nat) (data : Bytes) (envelope : Envelope) (peer : Peer) :
    Except SendError Mailroom :=
  match peer.canonical room.resolver with
  | .ok canonical => room.send now data canonical envelope
  | .error cause => .error (.codec cause)

/-- Send a payload to several peers. -/
def sendToEach (room : Mailroom) (now : Nat) (data : Bytes) (envelope : Envelope)
    (peers : List Peer) : SendReport × Mailroom :=
  peers.foldl
    (fun progress peer => attempt progress peer (progress.2.sendData now data envelope peer))
    ({}, room)

/-- Send a payload to everyone that the view suggests for a broadcast.  The
node itself does not get it. -/
def broadcast (room : Mailroom) (now : Nat) (data : Bytes) (envelope : Envelope) :
    SendReport × Mailroom :=
  room.view.broadcastTargets.foldl
    (fun progress (peer, route) =>
      attempt progress peer
        ((progress.2.sendDirect now data peer route envelope.toAll).mapError .codec))
    ({}, room)

/-- Collect a payload for a peer, and send the batch if that fills it. -/
def sendCoalesced (room : Mailroom) (now : Nat) (data : Bytes) (peer : Peer)
    (channel : Channel) : Except SendError Unit × Mailroom :=
  match peer.canonical room.resolver with
  | .error cause => (.error (.codec cause), room)
  | .ok canonical =>
      match room.collect now data canonical channel with
      | (none, room) => (.ok (), room)
      | (some full, room) =>
          match room.sendBatch now full with
          | .ok room => (.ok (), room)
          | .error cause => (.error cause, room)

end Mailroom

/-- A node with its connections. -/
structure Station where
  node : Node
  transport : Transport

namespace Station

/-- Whether the station has left the overlay. -/
def isClosed (station : Station) : Bool :=
  station.node.phase.isStopped

/-! ## Writing -/

/-- Close the connections that the node wants closed, and all of them once the
node has ended. -/
def hangUp (station : Station) : Station :=
  let transport :=
    station.node.hangUps.foldl (fun transport peer => (transport.hangUp peer).2) station.transport
  { node := { station.node with hangUps := [] }
    transport := if station.isClosed then transport.close else transport }

/-- Write everything that may be sent now.  A station that has left writes
nothing. -/
def settle (reach : Reach) (now : Nat) (station : Station) : Station :=
  let station := station.hangUp
  if station.isClosed then
    station
  else
    let (items, room) := station.node.toMailroom.drain now
    { node := { station.node with toMailroom := room }
      transport :=
        (items.foldl (fun transport item => transport.queue item.packet item.nextHop)
          station.transport).settle reach }

/-- When the budgets are restored, if anything waits for that. -/
def renewal (station : Station) : Option Nat :=
  let schedule := station.node.outbox.schedule
  if station.isClosed || schedule.isEmpty then none
  else some (schedule.epochStart + schedule.epoch)

/-- When something is due next. -/
def due (station : Station) : Option Nat :=
  earliest [station.node.due, station.renewal]

/-- Do what is due at a given time. -/
def act (reach : Reach) (time : Nat) (station : Station) : Station :=
  let station := station.settle reach time
  { station with node := station.node.act time }.settle reach time

/-! ## Start and end -/

/-- Start a station that listens on `device`; it is the main server if that is
also the name of the main server.  The system finds hosts by `resolver`, and
`listen` says on which port of an address the station can listen, if the one
asked for may be any. -/
def start (config : Config) (device mainServer : Peer) (firstId : UInt32) (resolver : Resolver)
    (listen : Endpoint → Except TransportError UInt16) (now : Nat) : Except StartError Station := do
  config.check.mapError .config
  let endpoint ← (device.endpoint resolver).mapError .codec
  let mainServer ← (mainServer.canonical resolver).mapError .codec
  let device := Peer.ofEndpoint endpoint
  let port ← (listen endpoint).mapError .transport
  let self : Peer := { device with port }
  let room : Mailroom := {
    view := View.initial self (if device = mainServer then self else mainServer)
    listeners := Listeners.none
    outbox := ⟨config.network.maxPayload, firstId, config.scheduler.schedule now⟩
    batcher :=
      Batcher.empty config.coalesce.threshold (milliseconds config.coalesce.maxLatency)
    flushes := some (Ticker.starting now (milliseconds config.coalesce.checkInterval))
    resolver }
  return { node := (Node.create config room).start now, transport := {} }

/-- Leave the overlay. -/
def close (station : Station) (now : Nat) : Station :=
  { station with node := station.node.close now }

/-! ## Sending -/

/-- Refuse to send once the station has left, or with a priority that does not
exist. -/
def checkOpen (station : Station) (priority : Nat) : Except SendError Unit :=
  if station.isClosed then .error .closed
  else if 7 < priority then .error (.invalidPriority priority)
  else .ok ()

/-- Put a mailroom in place of the station's. -/
def withMailroom (station : Station) (room : Mailroom) : Station :=
  { station with node := { station.node with toMailroom := room } }

/-- Send a payload to each of the given destinations. -/
def sendData (station : Station) (now : Nat) (data : Bytes) (destinations : List Peer)
    (channel : Channel) (priority : Nat) : Except SendError (SendReport × Station) := do
  station.checkOpen priority
  let (report, room) :=
    station.node.toMailroom.sendToEach now data (.data channel priority) destinations
  return (report, station.withMailroom room)

/-- Send a payload to every other cluster's server and every member of the own
cluster. -/
def broadcast (station : Station) (now : Nat) (data : Bytes) (channel : Channel)
    (priority : Nat) : Except SendError (SendReport × Station) := do
  station.checkOpen priority
  let (report, room) := station.node.toMailroom.broadcast now data (.data channel priority)
  return (report, station.withMailroom room)

/-- Put a small payload into the batch for a peer. -/
def sendCoalesced (station : Station) (now : Nat) (data : Bytes) (peer : Peer)
    (channel : Channel) : Except SendError Unit × Station :=
  if station.isClosed then (.error .closed, station)
  else
    let (outcome, room) := station.node.toMailroom.sendCoalesced now data peer channel
    (outcome, station.withMailroom room)

/-! ## Listening -/

/-- Listen on a channel, and tell whether nobody did before. -/
def subscribe (station : Station) (channel : Channel) (listener : String) : Bool × Station :=
  let (taken, listeners) := station.node.listeners.subscribe channel listener
  (taken, station.withMailroom { station.node.toMailroom with listeners })

/-- Stop listening on a channel, and tell whether anybody did. -/
def unsubscribe (station : Station) (channel : Channel) : Bool × Station :=
  let (present, listeners) := station.node.listeners.unsubscribe channel
  (present, station.withMailroom { station.node.toMailroom with listeners })

end Station

end ClusterOverlay
