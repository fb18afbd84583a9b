import ClusterOverlay.Config
import ClusterOverlay.Mailroom
import ClusterOverlay.Protocol
import ClusterOverlay.Watch

/-!
# Nodes

A node reads the packets that reach it, relays those for others, reassembles
those for itself, and follows the membership protocol.  What it does at regular
distances depends on its role, and begins anew whenever the role changes: a
server watches its peers for silence, and everyone but the main server beats.

A node stops when it is told to.  It then says what it has to say, waits for a
while until everything has left, and ends.
-/

namespace ClusterOverlay

/-- Where a node is in its life. -/
inductive Phase
  | running
  /-- Waiting for everything to leave.  The node looks again at `next`. -/
  | draining (since next : Nat)
  | stopped (since : Nat)
  deriving DecidableEq, Repr

namespace Phase

/-- Distance between looks at what is left. -/
def drainInterval : Nat := milliseconds 5

/-- A node waits this long for everything to leave. -/
def drainLimit : Nat := milliseconds 500

/-- When the node looks again at what is left. -/
def due : Phase → Option Nat
  | running => none
  | draining _ next => some next
  | stopped _ => none

/-- Whether the node has ended. -/
def isStopped : Phase → Bool
  | stopped _ => true
  | _ => false

end Phase

/-- A node of the overlay. -/
structure Node extends Mailroom where
  config : Config
  /-- The role that the node plays; the view may be ahead of it. -/
  role : Role
  reassembly : Reassembly
  /-- The watch over others, while the role asks for one. -/
  patrol : Option Patrol := none
  /-- Peers found silent and not yet dealt with. -/
  timeouts : List Peer := []
  /-- When old fragments are forgotten. -/
  maintenance : Option Ticker := none
  /-- Connections to be closed. -/
  hangUps : List Peer := []
  phase : Phase := .running

namespace Node

/-- Distance between rounds of maintenance. -/
def maintenanceInterval : Nat := milliseconds 1000

/-- Work on the mailroom of a node. -/
def inMailroom (node : Node) (work : Mailroom → Mailroom) : Node :=
  { node with toMailroom := work node.toMailroom }

/-! ## Role -/

/-- How long a role tolerates silence, if it watches anybody. -/
def silenceLimit? (node : Node) : Role → Option Nat
  | .mainServer => some (milliseconds node.config.liveness.mainTimeout)
  | .clusterServer => some (milliseconds node.config.liveness.clusterTimeout)
  | .client => none

/-- Distance between the beats of a role, if it beats. -/
def beatInterval? (node : Node) : Role → Option Nat
  | .mainServer => none
  | .clusterServer => some (milliseconds node.config.liveness.serverAliveInterval)
  | .client => some (milliseconds node.config.liveness.clientAliveInterval)

/-- Take up a role.  Watch and beats begin anew. -/
def assume (node : Node) (now : Nat) (role : Role) : Node :=
  { node with
    role
    patrol := (node.silenceLimit? role).map fun limit => (Patrol.idle limit).start now
    beats := (node.beatInterval? role).map (Ticker.starting now) }

/-- Change the watch, if there is one. -/
def onWatch (node : Node) (change : Watch → Watch) : Node :=
  { node with patrol := node.patrol.map fun patrol => { patrol with watch := change patrol.watch } }

/-- Bring role and watch in line with the view. -/
def reconcile (node : Node) (now : Nat) : Node :=
  let node := if node.view.role = node.role then node else node.assume now node.view.role
  node.onWatch (·.follow now node.view.watched)

/-! ## The membership protocol -/

/-- Wait until everything has left, then end. -/
def windDown (node : Node) (now : Nat) : Node :=
  { node with phase := .draining now now }

/-- Do one action. -/
def perform (now : Nat) (node : Node) : Action → Node
  | .reconcile => node.reconcile now
  | .refresh peer => node.onWatch (·.refresh now peer)
  | .forget peer => node.onWatch (·.remove peer)
  | .hangUp peer => { node with hangUps := node.hangUps ++ [peer] }
  | .tell peer message => node.inMailroom (·.tell now peer message)
  | .stop => node.windDown now

/-- Take over a new view and do what goes with it. -/
def carryOut (node : Node) (now : Nat) (reaction : Reaction) : Node :=
  reaction.actions.foldl (perform now) { node with view := reaction.view }

/-- React to a message. -/
def onMessage (node : Node) (now : Nat) (message : Control) : Node :=
  node.carryOut now (node.view.react node.role message)

/-- React to the silence of a peer. -/
def onSilence (node : Node) (now : Nat) (peer : Peer) : Node :=
  node.carryOut now (node.view.reactToSilence node.role peer)

/-! ## Packets -/

/-- Deal with a whole message for this node. -/
def receive (node : Node) (now : Nat) (packet : Packet) : Node :=
  if packet.channel = .networking then
    match packet.content with
    | .data => node.inMailroom fun room =>
        room.deliver (room.listeners.dispatch .networking packet.payload)
    | .coalesced => node.inMailroom fun room =>
        room.deliver (room.listeners.dispatchBatch packet.payload)
    | content =>
        match Control.decode content packet.payload with
        | .ok (some message) => node.onMessage now message
        | .ok none => node
        | .error _ => node
  else
    node.inMailroom fun room =>
      room.deliver (room.listeners.dispatch packet.channel packet.payload)

/-- Accept a packet for this node, and deal with the message that it
completes. -/
def accept (node : Node) (now : Nat) (sender : Endpoint) (packet : Packet) : Node :=
  let (message, reassembly) := node.reassembly.accept now sender packet
  match message with
  | some message => { node with reassembly }.receive now message
  | none => { node with reassembly }

/-- Pass a packet on, with its route replaced if one is given. -/
def relay (node : Node) (now : Nat) (raw : Bytes) (nextHop : Peer) (route : Option Route) :
    Node :=
  let rewritten :=
    match route with
    | some route => Packet.retarget route raw
    | none => .ok raw
  match rewritten with
  | .ok raw => node.inMailroom fun room => (room.forward now raw nextHop).toOption.getD room
  | .error _ => node

/-- Deal with the bytes of a packet from a sender.  What is no packet is
dropped. -/
def onPacket (node : Node) (now : Nat) (sender : Endpoint) (raw : Bytes) : Node :=
  match Packet.decode raw with
  | .error _ => node
  | .ok packet =>
      match node.view.handle node.role packet with
      | .accept => node.accept now sender packet
      | .relay nextHop route => node.relay now raw nextHop route
      | .spread members =>
          (members.foldl (fun node member => node.relay now raw member (some .use)) node).accept
            now sender packet
      | .drop => node

/-! ## Recurring activities -/

/-- Look for silent peers if that is due. -/
def scanIfDue (node : Node) (now : Nat) : Node :=
  match node.patrol with
  | some patrol =>
      if patrol.due.any (· ≤ now) then
        let patrol := patrol.scan now
        { node with
          patrol := some { patrol with reports := [] }
          timeouts := node.timeouts ++ patrol.reports.map Prod.snd }
      else
        node
  | none => node

/-- Deal with the peers found silent. -/
def settleTimeouts (node : Node) (now : Nat) : Node :=
  node.timeouts.foldl (onSilence · now) { node with timeouts := [] }

/-- Forget old fragments if that is due. -/
def maintainIfDue (node : Node) (now : Nat) : Node :=
  match node.maintenance with
  | some ticker =>
      if ticker.isDue now then
        { node with
          reassembly := node.reassembly.evict now
          maintenance := some ticker.advance }
      else
        node
  | none => node

/-- What a running node does apart from packets: it deals with silent peers,
and forgets old fragments.  A node that waits for its end does neither. -/
def attend (node : Node) (now : Nat) : Node :=
  match node.phase with
  | .running => (node.settleTimeouts now).maintainIfDue now
  | _ => node

/-- End, and with it everything that recurs. -/
def stop (node : Node) (now : Nat) : Node :=
  { node with
    toMailroom := node.toMailroom.quiesce
    patrol := none
    maintenance := none
    phase := .stopped now }

/-- Look at what is left, if that is due: end if there is nothing, or if the
node has waited long enough. -/
def drainIfDue (node : Node) (now : Nat) : Node :=
  match node.phase with
  | .draining since next =>
      if next ≤ now then
        if node.outbox.schedule.isEmpty || since + Phase.drainLimit ≤ now then node.stop now
        else { node with phase := .draining since (now + Phase.drainInterval) }
      else
        node
  | _ => node

/-- When something is due next. -/
def due (node : Node) : Option Nat :=
  earliest [node.toMailroom.due, node.patrol.bind Patrol.due,
    match node.phase with
    | .running => node.maintenance.map Ticker.next
    | phase => phase.due]

/-- The recurring activities at a given time. -/
def activities (node : Node) (time : Nat) : List (Activity Node) :=
  [.ofTicker node.flushes (·.inMailroom (·.flushIfDue time)),
    .ofTicker node.maintenance (·.attend time),
    .ofTicker (node.patrol.bind Patrol.scans) (·.scanIfDue time),
    .ofTicker node.beats (·.inMailroom (·.beatIfDue time))]

/-- Do what is due at a given time.  What that brings about at the same time
is done last. -/
def act (time : Nat) (node : Node) : Node :=
  (((Activity.inTurn (node.activities time) node).attend time).inMailroom
    (·.beatIfDue time)).drainIfDue time

/-- Let time pass. -/
def elapse (node : Node) (now target : Nat) : Node :=
  ClusterOverlay.elapse due act now target node

/-! ## Life -/

/-- A node that has not begun yet. -/
def create (config : Config) (room : Mailroom) : Node :=
  { room with
    config
    role := .client
    reassembly := Reassembly.empty (milliseconds config.liveness.reassemblyTtl) }

/-- Begin to live under the given view. -/
def start (node : Node) (now : Nat) : Node :=
  act now
    (({ node with maintenance := some (Ticker.starting now maintenanceInterval) }.assume now
      node.view.role).reconcile now)

/-- Deal with a packet, and with what that brings about at the same time.  A
node that is about to end reads nothing any more. -/
def hear (node : Node) (now : Nat) (sender : Endpoint) (raw : Bytes) : Node :=
  match node.phase with
  | .running => act now (node.onPacket now sender raw)
  | _ => node

/-- Send all batches and say goodbye. -/
def leave (node : Node) (now : Nat) : Node :=
  let node := node.inMailroom (·.flushAll now)
  (node.view.farewell node.role).foldl (perform now) node

/-- Leave the overlay, and end once everything has left. -/
def close (node : Node) (now : Nat) : Node :=
  match node.phase with
  | .running => act now ((node.leave now).windDown now)
  | _ => node

/-- End without a word. -/
def cancel (node : Node) (now : Nat) : Node :=
  if node.phase.isStopped then node else node.stop now

/-- Let time pass until the node has ended, if it is about to, and tell when
that is. -/
def awaitEnd (node : Node) (now : Nat) : Nat × Node :=
  match node.phase with
  | .draining since _ =>
      let node := node.elapse now (since + Phase.drainLimit)
      match node.phase with
      | .stopped time => (time, node)
      | _ => (since + Phase.drainLimit, node)
  | _ => (now, node)

end Node

end ClusterOverlay
