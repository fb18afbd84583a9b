import ClusterOverlay.Control
import ClusterOverlay.Routing

/-!
# The membership protocol

How a node reacts to the messages of the membership protocol.  A reaction is a
new view together with actions to be done in order, and it depends on nothing
but the view, the node's role, and the message.

* The main server places whoever says hello, answers with its roster, and
  floods placements and removals.
* A cluster server follows, and passes on to the members of its cluster what
  the main server tells it; removals from its own cluster it reports upwards.
* A client follows.

Nobody follows a removal that names the node itself: it leaves its own view
and asks the main server for a new place.
-/

namespace ClusterOverlay

/-- What a node does because of a message. -/
inductive Action
  /-- Bring role and watch in line with the view. -/
  | reconcile
  /-- Note that a peer was heard of. -/
  | refresh (peer : Peer)
  /-- Watch a peer no longer. -/
  | forget (peer : Peer)
  /-- Close the connection to a peer. -/
  | hangUp (peer : Peer)
  | tell (peer : Peer) (message : Control)
  /-- Stop once everything is sent. -/
  | stop
  deriving DecidableEq, Repr

/-- What a message makes of a node. -/
structure Reaction where
  view : View
  actions : List Action
  deriving Repr

namespace View

/-- Nothing happens. -/
def ignore (view : View) : Reaction :=
  ⟨view, []⟩

/-- Tell each of the given peers once, in ascending order, the node left out. -/
def tellAll (view : View) (recipients : List Peer) (message : Control) : List Action :=
  ((Peer.ascending recipients).filter (· ≠ view.self)).map (.tell · message)

/-! ## Main server -/

/-- Place the sender, answer with the roster, and tell everybody else. -/
def welcome (view : View) (sender : Peer) : Reaction :=
  let (cluster, after) := view.place sender
  ⟨after,
    [.reconcile, .refresh sender, .tell sender (.network after.toRoster)] ++
      after.tellAll (after.floodTargets.filter (· ≠ sender)) (.add ⟨sender, cluster⟩)⟩

/-- The members of a cluster whose server has just left.  Nobody else would
tell them. -/
def orphans (view : View) (cluster : Nat) (promoted : Option Peer) : List Peer :=
  if promoted.isSome then (view.clusters[cluster]?).getD [] else []

/-- Remove a peer and tell everybody. -/
def expel (view : View) (placement : Placement) : Reaction :=
  match view.remove placement with
  | .ok (.removed cluster _ promoted, after) =>
      ⟨after,
        [.forget placement.peer, .hangUp placement.peer, .reconcile] ++
          after.tellAll (after.floodTargets ++ after.orphans cluster promoted)
            (.remove ⟨placement.peer, cluster⟩)⟩
  | .ok (.notPresent, _) => view.ignore
  | .error _ => view.ignore

/-! ## Cluster servers -/

/-- Follow a placement and pass it on to the cluster. -/
def relayAdd (view : View) (placement : Placement) : Reaction :=
  match view.follow placement with
  | .ok (true, after) =>
      ⟨after,
        .reconcile ::
          after.tellAll (after.clusterPeers.filter (· ≠ placement.peer)) (.add placement)⟩
  | .ok (false, _) => view.ignore
  | .error _ => view.ignore

/-- Whether a peer belongs to the node's own cluster. -/
def sharesCluster (view : View) (peer : Peer) : Bool :=
  (view.clusterOf? view.self).isSome && view.clusterOf? view.self == view.clusterOf? peer

/-- Follow a removal, pass it on to the cluster, and report it to the main
server if it concerns the cluster. -/
def relayRemove (view : View) (placement : Placement) : Reaction :=
  match view.remove placement with
  | .ok (.removed cluster _ _, after) =>
      let superior := if view.sharesCluster placement.peer then [after.mainServer] else []
      ⟨after,
        [.forget placement.peer, .hangUp placement.peer, .reconcile] ++
          after.tellAll (after.clusterPeers ++ superior) (.remove ⟨placement.peer, cluster⟩)⟩
  | .ok (.notPresent, _) => view.ignore
  | .error _ => view.ignore

/-! ## Clients -/

/-- Follow a placement. -/
def learnAdd (view : View) (placement : Placement) : Reaction :=
  match view.follow placement with
  | .ok (true, after) => ⟨after, [.reconcile]⟩
  | .ok (false, _) => view.ignore
  | .error _ => view.ignore

/-- Follow a removal. -/
def learnRemove (view : View) (placement : Placement) : Reaction :=
  match view.remove placement with
  | .ok (.removed _ _ _, after) => ⟨after, [.hangUp placement.peer, .reconcile]⟩
  | .ok (.notPresent, _) => view.ignore
  | .error _ => view.ignore

/-- Take over the main server's roster. -/
def adopt (view : View) (roster : Roster) : Reaction :=
  match view.replace roster with
  | .ok after => ⟨after, [.reconcile]⟩
  | .error _ => view.ignore

/-- Leave the node's own view, and ask for a new place. -/
def rejoin (view : View) (placement : Placement) : Reaction :=
  let after :=
    match view.remove placement with
    | .ok (_, after) => after
    | .error _ => view
  ⟨after, [.tell after.mainServer (.hello after.self), .reconcile]⟩

/-! ## All roles -/

/-- React to a removal. -/
def reactToRemove (view : View) (role : Role) (placement : Placement) : Reaction :=
  if placement.peer = view.self then
    match role with
    | .mainServer => view.ignore
    | .clusterServer => view.rejoin placement
    | .client => view.rejoin placement
  else
    match role with
    | .mainServer => view.expel placement
    | .clusterServer => view.relayRemove placement
    | .client => view.learnRemove placement

/-- React to a message. -/
def react (view : View) (role : Role) : Control → Reaction
  | .hello sender =>
      match role with
      | .mainServer => view.welcome sender
      | .clusterServer => view.ignore
      | .client => view.ignore
  | .alive sender => ⟨view, [.refresh sender]⟩
  | .add placement =>
      match role with
      | .mainServer => view.ignore
      | .clusterServer => view.relayAdd placement
      | .client => view.learnAdd placement
  | .remove placement => view.reactToRemove role placement
  | .network roster =>
      match role with
      | .mainServer => view.ignore
      | .clusterServer => view.adopt roster
      | .client => view.adopt roster
  | .close =>
      match role with
      | .mainServer => view.ignore
      | .clusterServer => ⟨view, view.tellAll view.clusterPeers .close ++ [.stop]⟩
      | .client => ⟨view, [.stop]⟩

/-- React to the silence of a peer: as to a removal, if the peer is still
watched. -/
def reactToSilence (view : View) (role : Role) (peer : Peer) : Reaction :=
  if view.watched.contains peer then
    view.reactToRemove role ⟨peer, (view.clusterOf? peer).getD 0⟩
  else
    view.ignore

/-- What a node says when it leaves.  The main server closes the overlay; any
other node tells the one who watches it. -/
def farewell (view : View) (role : Role) : List Action :=
  match role with
  | .mainServer => view.tellAll view.floodTargets .close
  | .clusterServer =>
      match view.clusterOf? view.self with
      | some cluster => [.tell view.mainServer (.remove ⟨view.self, cluster⟩)]
      | none => []
  | .client =>
      match view.serverOf? view.self, view.clusterOf? view.self with
      | some server, some cluster => [.tell server (.remove ⟨view.self, cluster⟩)]
      | _, _ => []

end View

end ClusterOverlay
