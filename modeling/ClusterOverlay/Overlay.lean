import ClusterOverlay.Station

/-!
# Overlays

Several stations on one network with one clock.  What a station writes reaches
the station that listens on the address written to, if the network carries it,
and what that brings about at the same time follows at once.
-/

namespace ClusterOverlay

/-- Stations by name, in the order in which they were started. -/
structure Overlay where
  /-- Whether the network carries connections. -/
  carries : Bool
  now : Nat := 0
  stations : List (String × Station) := []
  /-- The next port given to a station that may listen on any. -/
  freshPort : UInt16 := 49152
  /-- The addresses that the systems of all stations have for hosts. -/
  resolver : Resolver := Resolver.empty

namespace Overlay

/-! ## Names and addresses -/

/-- The station of a given name. -/
def find? (overlay : Overlay) (name : String) : Option Station :=
  overlay.stations.lookup name

/-- Whether a station listens under the name of a peer. -/
def listens (overlay : Overlay) (peer : Peer) (station : Station) : Bool :=
  !station.isClosed &&
    (peer.canonical overlay.resolver).toOption == some station.node.view.self

/-- Which peers accept a connection. -/
def reach (overlay : Overlay) : Reach :=
  fun peer =>
    overlay.carries && overlay.stations.any fun (_, station) => overlay.listens peer station

/-- Change the station of a given name. -/
def modify (overlay : Overlay) (name : String) (change : Station → Station) : Overlay :=
  { overlay with
    stations := overlay.stations.map fun (other, station) =>
      (other, if other = name then change station else station) }

/-- Change all stations. -/
def modifyAll (overlay : Overlay) (change : Station → Station) : Overlay :=
  { overlay with stations := overlay.stations.map fun (name, station) => (name, change station) }

/-! ## Exchanging packets -/

/-- Hand the packets written to a peer to the station that listens there. -/
def hear (overlay : Overlay) (sender : Endpoint) (peer : Peer) (packets : List Bytes) : Overlay :=
  overlay.modifyAll fun station =>
    if overlay.listens peer station then
      { station with
        node := packets.foldl (fun node packet => node.hear overlay.now sender packet)
          station.node }
    else
      station

/-- Hand on what one station has written. -/
def collect (overlay : Overlay) (name : String) : Overlay :=
  match overlay.find? name with
  | none => overlay
  | some station =>
      let (written, transport) := station.transport.collectWritten
      let overlay := overlay.modify name fun station => { station with transport }
      match station.node.view.self.endpoint overlay.resolver with
      | .error _ => overlay
      | .ok sender =>
          written.foldl (fun overlay (peer, packets) => overlay.hear sender peer packets) overlay

/-- Let every station write, and hand on what was written. -/
def exchange (overlay : Overlay) : Overlay :=
  let overlay := overlay.modifyAll (·.settle overlay.reach overlay.now)
  (overlay.stations.map Prod.fst).foldl collect overlay

/-- Whether something has been written and not yet handed on, or may be
written. -/
def isBusy (overlay : Overlay) : Bool :=
  overlay.stations.any fun (_, station) =>
    !station.isClosed && !(station.node.outbox.schedule.drainAll overlay.now).1.isEmpty

/-- Exchange packets until nothing more happens at this time, in at most the
given number of rounds. -/
def exchangeFor : Nat → Overlay → Overlay
  | 0, overlay => overlay
  | rounds + 1, overlay =>
      let overlay := overlay.exchange
      if overlay.isBusy then exchangeFor rounds overlay else overlay

/-- Number of rounds within which all packets come to rest. -/
def roundLimit : Nat := 1000

/-- Let everything happen that happens without time passing. -/
def settle (overlay : Overlay) : Overlay :=
  exchangeFor roundLimit overlay

/-! ## Time -/

/-- When something is due next. -/
def due (overlay : Overlay) : Option Nat :=
  earliest (overlay.stations.map fun (_, station) => station.due)

/-- Do what is due at a given time. -/
def act (time : Nat) (overlay : Overlay) : Overlay :=
  let overlay := { overlay with now := time }
  (overlay.modifyAll fun station =>
    if station.due.any (· ≤ time) then station.act overlay.reach time else station).settle

/-- Let time pass. -/
def elapse (overlay : Overlay) (target : Nat) : Overlay :=
  { ClusterOverlay.elapse due act overlay.now target overlay with now := target }

/-- Let time pass until a station has ended, if it is about to. -/
def awaitEnd (overlay : Overlay) (name : String) : Overlay :=
  let limit := overlay.now + Phase.drainLimit
  let isDraining (overlay : Overlay) : Bool :=
    (overlay.find? name).any fun station => station.node.phase.due.isSome
  ClusterOverlay.elapse (fun overlay => if isDraining overlay then due overlay else none) act
    overlay.now limit overlay

/-! ## Stations -/

/-- The port on which a new station can listen: the one asked for, unless a
station listens there already, or a fresh one. -/
def listen (overlay : Overlay) (endpoint : Endpoint) : Except TransportError UInt16 :=
  if endpoint.port = 0 then .ok overlay.freshPort
  else if overlay.stations.any fun (_, station) =>
      overlay.listens (Peer.ofEndpoint endpoint) station then
    .error (.bind (Peer.ofEndpoint endpoint))
  else .ok endpoint.port

/-- Start a station under a name. -/
def start (overlay : Overlay) (name : String) (config : Config) (device mainServer : Peer) :
    Except StartError Overlay := do
  let station ← Station.start config device mainServer 0 overlay.resolver overlay.listen overlay.now
  let others := overlay.stations.filter fun entry => entry.1 ≠ name
  return settle { overlay with
    stations := others ++ [(name, station)], freshPort := overlay.freshPort + 1 }

/-- Change the station of a given name, and let what follows happen. -/
def update (overlay : Overlay) (name : String) (change : Station → Station) : Overlay :=
  (overlay.modify name change).settle

/-- Let a station leave. -/
def close (overlay : Overlay) (name : String) : Overlay :=
  (overlay.update name (·.close overlay.now)).awaitEnd name

/-- Let a station vanish without a word. -/
def drop (overlay : Overlay) (name : String) : Overlay :=
  { overlay with stations := overlay.stations.filter fun entry => entry.1 ≠ name }

end Overlay

end ClusterOverlay
