import ClusterOverlay.Control
import ClusterOverlay.Packet
import ClusterOverlay.View

/-!
# Routing

Which peer a packet goes to next is decided from a view alone.  `View.plan`
decides for packets that the node itself sends, `View.forward` for routed
packets that reach a server on their way, and `View.handle` for all packets
that reach a node.  The remaining functions say who receives a broadcast, whom
a node watches, and to whom it reports that it is alive.
-/

namespace ClusterOverlay

/-- Where a packet of the node's own goes first. -/
inductive Plan
  /-- It is for the node itself. -/
  | stay
  | send (route : Route) (nextHop : Peer)
  | noRoute
  deriving DecidableEq, Repr

/-- Why a routed packet is dropped. -/
inductive DropReason
  | notInOverlay
  | notInCluster
  deriving DecidableEq, Repr

/-- The text reported for a dropped packet. -/
def DropReason.message : DropReason → String
  | notInOverlay => "destination not in topology"
  | notInCluster => "destination not in this cluster"

/-- What a server does with a routed packet. -/
inductive Forward
  /-- It is for the server itself. -/
  | deliver
  /-- Pass it on, with its route replaced if one is given. -/
  | relay (nextHop : Peer) (route : Option Route)
  | drop (reason : DropReason)
  deriving DecidableEq, Repr

/-- What a node does with a packet that reaches it. -/
inductive Handling
  /-- The packet is for the node. -/
  | accept
  /-- Pass it on, with its route replaced if one is given. -/
  | relay (nextHop : Peer) (route : Option Route)
  /-- Pass copies on for use by the given members, then accept it. -/
  | spread (members : List Peer)
  | drop
  deriving DecidableEq, Repr

namespace View

/-! ## Next hops -/

/-- Whether the node may send to a peer without a relay: it is the peer's
server, the peer is its server, or both are servers of which one is the main
server. -/
def reaches (view : View) (peer : Peer) : Bool :=
  view.serverOf? peer = some view.self
    || view.serverOf? view.self = some peer
    || (view.isMainServer && view.servers.contains peer)
    || (view.isClusterServer && peer = view.mainServer)

/-- The first relay towards a peer.  A node that has not joined yet knows the
main server only. -/
def relayTo? (view : View) (peer : Peer) : Option Peer :=
  if view.routeTo peer = .sameCluster then view.serverOf? view.self
  else if view.isMainServer then view.serverOf? peer
  else if view.isClusterServer then some view.mainServer
  else some ((view.serverOf? view.self).getD view.mainServer)

/-- Where the node sends a packet of its own for a peer. -/
def plan (view : View) (peer : Peer) : Plan :=
  if peer = view.self then .stay
  else if view.reaches peer then .send .use peer
  else
    match view.relayTo? peer with
    | some nextHop => if nextHop = view.self then .noRoute else .send (view.routeTo peer) nextHop
    | none => .noRoute

/-- What a server does with a packet of the given route for a peer.  The main
server passes packets down to the cluster's server, which must not send them
back up. -/
def forward (view : View) (route : Route) (peer : Peer) : Forward :=
  if peer = view.self then .deliver
  else if view.clusterPeers.contains peer then .relay peer (some .use)
  else if view.isMainServer then
    match view.serverOf? peer with
    | some server => .relay server (some .sameCluster)
    | none => .drop .notInOverlay
  else if route = .otherCluster then .relay view.mainServer none
  else .drop .notInCluster

/-! ## Packets that arrive -/

/-- What a node of a given role does with a packet that reaches it.  A client
relays nothing.  A server hands a broadcast from another cluster on to its
members, besides accepting it. -/
def handle (view : View) (role : Role) (packet : Packet) : Handling :=
  match packet.route, role with
  | .use, _ => .accept
  | .clusterServer, .mainServer => .accept
  | .clusterServer, .clusterServer => .accept
  | _, .client => .drop
  | route, _ =>
      if route = .otherCluster ∧ packet.broadcast then
        .spread view.clusterPeers
      else
        match view.forward route (Peer.ofEndpoint packet.destination) with
        | .deliver => .accept
        | .relay nextHop route => .relay nextHop route
        | .drop _ => .drop

/-! ## Groups -/

/-- Who receives a broadcast of the node, and over which route: the servers of
the other clusters, and the members of its own. -/
def broadcastTargets (view : View) : List (Peer × Route) :=
  let others := view.servers.filter fun server =>
    server ≠ view.self && some server ≠ view.serverOf? view.self
  others.map (·, .otherCluster) ++ view.clusterPeers.map (·, .use)

/-- Everyone the main server tells of a change: the servers and the members of
its own cluster, in ascending order. -/
def floodTargets (view : View) : List Peer :=
  Peer.ascending (view.servers ++ view.clusterPeers)

/-- The peers whose silence the node notices, in ascending order.  The main
server watches the other servers and its own cluster, a cluster server its
members, and a client nobody. -/
def watched (view : View) : List Peer :=
  match view.role with
  | .mainServer => Peer.ascending (view.servers.filter (· ≠ view.self) ++ view.clusterPeers)
  | .clusterServer => Peer.ascending view.clusterPeers
  | .client => []

/-- What the node reports on each beat, and to whom: a member reports that it
is alive to the one who watches it, a node outside the overlay says hello to
the main server. -/
def beat (view : View) : Option (Control × Peer) :=
  if view.isMainServer then none
  else if !view.contains view.self then some (.hello view.self, view.mainServer)
  else
    match view.role with
    | .client => (view.serverOf? view.self).map (.alive view.self, ·)
    | .clusterServer => some (.alive view.self, view.mainServer)
    | .mainServer => none

end View

end ClusterOverlay
