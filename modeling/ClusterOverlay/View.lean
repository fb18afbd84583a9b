import ClusterOverlay.Packet.Kind
import ClusterOverlay.Roster

/-!
# A node's view of the overlay

Every node keeps its own copy of the roster, together with its own name and
the name of the main server.  The main server is the authority: it places
peers that say hello, and every other node follows its placements, removals
and snapshots.  This file gives the operations that change a view and the
questions asked of it; sending and receiving are elsewhere.

A cursor tells the main server which cluster receives the next peer once all
clusters are open.
-/

namespace ClusterOverlay

/-- What a node does in the overlay. -/
inductive Role
  | mainServer
  | clusterServer
  | client
  deriving DecidableEq, Repr

/-- What became of a request to remove a peer. -/
inductive Removal
  /-- The peer was not in the view; nothing changed. -/
  | notPresent
  /-- The peer left the cluster with this index.  `dropped` tells whether the
  cluster disappeared with it, `promoted` which member leads the cluster in
  its place. -/
  | removed (cluster : Nat) (dropped : Bool) (promoted : Option Peer)
  deriving DecidableEq, Repr

/-- Why a view refused to change. -/
inductive ViewError
  /-- There is no cluster with this index. -/
  | clusterOutOfRange (index clusters : Nat)
  /-- No further cluster can be opened. -/
  | clusterLimit
  /-- The cluster with this index has no server. -/
  | missingServer (index : Nat)
  /-- A snapshot contradicts itself. -/
  | invalidSnapshot (cause : CodecError)
  deriving DecidableEq, Repr

/-- The text reported for a refusal. -/
def ViewError.message : ViewError → String
  | clusterOutOfRange index clusters =>
      "cluster index " ++ index.repr ++ " out of range (" ++ clusters.repr ++ " clusters)"
  | clusterLimit => "cluster limit of 8 reached"
  | missingServer index => "cluster " ++ index.repr ++ " has no server"
  | invalidSnapshot cause => "inconsistent network snapshot: " ++ cause.message

/-- A node's copy of the membership. -/
structure View extends Roster where
  /-- The node whose view this is. -/
  self : Peer
  mainServer : Peer
  /-- The cluster that receives the next peer once all clusters are open. -/
  cursor : Nat
  deriving DecidableEq, Repr

namespace View

/-- The view of a node that has heard nothing yet.  The main server leads the
first cluster; any other node knows no cluster. -/
def initial (self mainServer : Peer) : View :=
  if self = mainServer then
    { clusters := [[self]], servers := [self], self, mainServer, cursor := 0 }
  else
    { clusters := [], servers := [], self, mainServer, cursor := 0 }

/-! ## Questions -/

/-- The index of the first cluster that a peer belongs to. -/
def clusterOf? (view : View) (peer : Peer) : Option Nat :=
  view.clusters.findIdx? (·.contains peer)

/-- The server of the cluster that a peer belongs to. -/
def serverOf? (view : View) (peer : Peer) : Option Peer :=
  (view.clusterOf? peer).bind (view.servers[·]?)

/-- Whether a peer belongs to some cluster. -/
def contains (view : View) (peer : Peer) : Bool :=
  (view.clusterOf? peer).isSome

/-- The members of the node's own cluster, in order, without the node. -/
def clusterPeers (view : View) : List Peer :=
  match (view.clusterOf? view.self).bind (view.clusters[·]?) with
  | some members => members.filter (· ≠ view.self)
  | none => []

/-- Whether the node is the main server. -/
def isMainServer (view : View) : Bool :=
  view.self = view.mainServer

/-- Whether the node leads some cluster. -/
def isClusterServer (view : View) : Bool :=
  view.servers.contains view.self

/-- The node's role.  Being the main server comes first. -/
def role (view : View) : Role :=
  if view.isMainServer then .mainServer
  else if view.isClusterServer then .clusterServer
  else .client

/-- The route from the node to a peer: within the cluster if both are known to
be in the same one. -/
def routeTo (view : View) (peer : Peer) : Route :=
  match view.clusterOf? view.self, view.clusterOf? peer with
  | some own, some other => if own = other then .sameCluster else .otherCluster
  | _, _ => .otherCluster

/-! ## Changes -/

/-- Place a peer that says hello, and tell its cluster.  A known peer keeps its
place; a new one opens a cluster while that is possible, and otherwise joins
the clusters in turn. -/
def place (view : View) (peer : Peer) : Nat × View :=
  match view.clusterOf? peer with
  | some index => (index, view)
  | none =>
      if view.clusters.length < ClusterOverlay.clusterLimit then
        (view.clusters.length,
          { view with clusters := view.clusters ++ [[peer]], servers := view.servers ++ [peer] })
      else
        let index := view.cursor % view.clusters.length
        (index,
          { view with
            clusters := view.clusters.modify index (· ++ [peer])
            cursor := (index + 1) % view.clusters.length })

/-- Follow a placement, and tell whether it changed anything.  The index after
the last one opens a cluster. -/
def follow (view : View) (placement : Placement) : Except ViewError (Bool × View) :=
  if placement.cluster = view.clusters.length then
    if ClusterOverlay.clusterLimit ≤ placement.cluster then
      .error .clusterLimit
    else
      .ok (true,
        { view with
          clusters := view.clusters ++ [[placement.peer]]
          servers := view.servers ++ [placement.peer] })
  else
    match view.clusters[placement.cluster]? with
    | none => .error (.clusterOutOfRange placement.cluster view.clusters.length)
    | some members =>
        if members.contains placement.peer then
          .ok (false, view)
        else
          .ok (true,
            { view with
              clusters := view.clusters.modify placement.cluster (· ++ [placement.peer]) })

/-- The cluster from which a placement's peer is removed: the one it names if
the peer is there, else the first that has the peer. -/
def locate? (view : View) (placement : Placement) : Option Nat :=
  match view.clusters[placement.cluster]? with
  | some members =>
      if members.contains placement.peer then some placement.cluster
      else view.clusterOf? placement.peer
  | none => view.clusterOf? placement.peer

/-- Drop the cluster with a given index.  The cursor stays on the cluster that
it designated, or moves on to the next. -/
def dropCluster (view : View) (index : Nat) : View :=
  let cursor := if index < view.cursor then view.cursor - 1 else view.cursor
  let clusters := view.clusters.eraseIdx index
  { view with
    clusters
    servers := view.servers.eraseIdx index
    cursor := if clusters.isEmpty then 0 else cursor % clusters.length }

/-- Remove a peer from one cluster.  The last member takes the cluster with it;
if the server leaves, the first remaining member takes its place. -/
def remove (view : View) (placement : Placement) : Except ViewError (Removal × View) :=
  match view.locate? placement with
  | none => .ok (.notPresent, view)
  | some index =>
      match view.servers[index]? with
      | none => .error (.missingServer index)
      | some server =>
          match view.clusters[index]? with
          | none => .error (.clusterOutOfRange index view.clusters.length)
          | some members =>
              match members.filter (· ≠ placement.peer) with
              | [] => .ok (.removed index true none, view.dropCluster index)
              | next :: others =>
                  let clusters := view.clusters.set index (next :: others)
                  if server = placement.peer then
                    .ok (.removed index false (some next),
                      { view with clusters, servers := view.servers.set index next })
                  else
                    .ok (.removed index false none, { view with clusters })

/-- Take over a snapshot; one that contradicts itself is refused. -/
def replace (view : View) (roster : Roster) : Except ViewError View :=
  match roster.check with
  | .error cause => .error (.invalidSnapshot cause)
  | .ok () => .ok { view with toRoster := roster, cursor := 0 }

end View

end ClusterOverlay
