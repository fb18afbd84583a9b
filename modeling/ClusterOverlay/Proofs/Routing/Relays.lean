import ClusterOverlay.Node

/-!
# Relays

A packet that reaches a node is passed on, accepted, both, or neither.
`View.relays` lists the packets that leave because of it, each with its next
hop, and `View.accepts?` gives the packet that is taken in.  Both depend on
nothing but the node's view and role.  There are three reasons for which a
packet leaves, `View.Passes`, and `View.exists_passes_of_mem_relays` says that
there is no other.  `Node.onPacket_eq` says that what is passed on and what is
accepted are together all that becomes of a packet.
-/

namespace ClusterOverlay

namespace Packet

/-- The packet is meant to be passed on by the servers that it reaches. -/
def Routed (packet : Packet) : Prop :=
  packet.route = .sameCluster ∨ packet.route = .otherCluster

instance (packet : Packet) : Decidable packet.Routed :=
  inferInstanceAs (Decidable (_ ∨ _))

/-- The bytes of a packet, with the route replaced if one is given. -/
def rewrite? (route : Option Route) (raw : Bytes) : Option Bytes :=
  match route with
  | some route => (retarget route raw).toOption
  | none => some raw

/-- What is left of a packet after a rewriting: all but the route. -/
theorem exists_rewrite? {raw : Bytes} {packet : Packet} (decoded : decode raw = .ok packet)
    (route : Option Route) :
    ∃ rewritten, rewrite? route raw = some rewritten ∧
      decode rewritten = .ok { packet with route := route.getD packet.route } := by
  cases route with
  | none => exact ⟨raw, rfl, decoded⟩
  | some route =>
      have replaced : retarget route raw = .ok _ :=
        retarget_eq_ok_iff.mpr ⟨headerLength_le_of_decode decoded, rfl⟩
      refine ⟨_, by rw [rewrite?, replaced]; rfl, ?_⟩
      rw [decode_retarget replaced, decoded]
      rfl

end Packet

/-- What a node does with a packet that it forwards. -/
def Forward.handling : Forward → Handling
  | deliver => .accept
  | relay nextHop route => .relay nextHop route
  | drop _ => .drop

namespace View

/-- The packet that a node takes in because of bytes that reach it. -/
def accepts? (view : View) (role : Role) (raw : Bytes) : Option Packet :=
  match Packet.decode raw with
  | .error _ => none
  | .ok packet =>
      match view.handle role packet with
      | .accept => some packet
      | .spread _ => some packet
      | .relay _ _ => none
      | .drop => none

/-- The packets that a node passes on because of bytes that reach it, each with
its next hop. -/
def relays (view : View) (role : Role) (raw : Bytes) : List (Peer × Bytes) :=
  match Packet.decode raw with
  | .error _ => []
  | .ok packet =>
      match view.handle role packet with
      | .relay nextHop route => (Packet.rewrite? route raw).toList.map (nextHop, ·)
      | .spread members =>
          members.flatMap fun member => (Packet.rewrite? (some .use) raw).toList.map (member, ·)
      | .accept => []
      | .drop => []

/-! ## What passes -/

/-- Away from clients, a routed packet is spread or forwarded. -/
theorem handle_of_routed {view : View} {role : Role} {packet : Packet} (routed : packet.Routed)
    (serves : role ≠ .client) :
    view.handle role packet =
      if packet.route = .otherCluster ∧ packet.broadcast then .spread view.clusterPeers
      else (view.forward packet.route (Peer.ofEndpoint packet.destination)).handling := by
  unfold handle
  cases role with
  | client => contradiction
  | mainServer | clusterServer => rcases routed with routed | routed <;> rw [routed] <;> rfl

/-- Every other packet stays where it is. -/
theorem handle_of_not_routed (view : View) {role : Role} {packet : Packet}
    (stays : ¬ packet.Routed ∨ role = .client) :
    view.handle role packet = .accept ∨ view.handle role packet = .drop := by
  unfold handle
  rcases stays with stays | rfl
  · rcases not_or.mp stays with ⟨notSame, notOther⟩
    cases route : packet.route with
    | use => exact .inl rfl
    | clusterServer => cases role <;> simp
    | sameCluster => contradiction
    | otherCluster => contradiction
  · cases packet.route <;> simp

/-- The reasons for which a node passes a packet on, with the next hop and the
route that the packet leaves with. -/
inductive Passes (view : View) (packet : Packet) : Peer → Route → Prop
  /-- Down to a member of the node's own cluster. -/
  | down {peer : Peer} (routed : packet.Routed) (peerMem : peer ∈ view.clusterPeers) :
      Passes view packet peer .use
  /-- From the main server across to the server of another cluster. -/
  | across {peer server : Peer} (routed : packet.Routed) (main : view.self = view.mainServer)
      (other : peer ≠ view.self) (foreign : peer ∉ view.clusterPeers)
      (leads : view.serverOf? peer = some server) : Passes view packet server .sameCluster
  /-- From any other server up to the main server. -/
  | up (crossing : packet.route = .otherCluster) (away : view.self ≠ view.mainServer) :
      Passes view packet view.mainServer .otherCluster

theorem Passes.routed {view : View} {packet : Packet} {nextHop : Peer} {route : Route}
    (passes : view.Passes packet nextHop route) : packet.Routed := by
  cases passes with
  | down routed _ => exact routed
  | across routed _ _ _ _ => exact routed
  | up crossing _ => exact .inr crossing

/-- What is forwarded is forwarded for one of these reasons. -/
theorem passes_of_forward {view : View} {packet : Packet} {peer nextHop : Peer}
    {route : Option Route} (routed : packet.Routed)
    (forwarded : view.forward packet.route peer = .relay nextHop route) :
    view.Passes packet nextHop (route.getD packet.route) := by
  unfold forward at forwarded
  split at forwarded
  · contradiction
  next other =>
  split at forwarded
  · next peerMem =>
      cases forwarded
      exact .down routed (List.contains_iff_mem.mp peerMem)
  next foreign =>
  rw [List.contains_iff_mem] at foreign
  split at forwarded
  · next main =>
      split at forwarded
      · next server leads =>
          cases forwarded
          exact .across routed (of_decide_eq_true main) other foreign leads
      · contradiction
  next away =>
  split at forwarded
  · next crossing =>
      cases forwarded
      rw [Option.getD_none, crossing]
      exact .up crossing (by simpa [isMainServer] using away)
  · contradiction

theorem passes_of_handle_eq_relay {view : View} {role : Role} {packet : Packet} {nextHop : Peer}
    {route : Option Route} (handled : view.handle role packet = .relay nextHop route) :
    view.Passes packet nextHop (route.getD packet.route) := by
  by_cases moves : packet.Routed ∧ role ≠ .client
  · rcases moves with ⟨routed, serves⟩
    rw [handle_of_routed routed serves] at handled
    split at handled
    · contradiction
    · cases forwarded : view.forward packet.route (Peer.ofEndpoint packet.destination) with
      | deliver => simp [forwarded, Forward.handling] at handled
      | relay peer replaced =>
          rw [forwarded] at handled
          cases handled
          exact passes_of_forward routed forwarded
      | drop reason => simp [forwarded, Forward.handling] at handled
  · rw [Decidable.not_and_iff_or_not, Decidable.not_not] at moves
    rcases view.handle_of_not_routed moves with stays | stays <;> simp [stays] at handled

theorem passes_of_handle_eq_spread {view : View} {role : Role} {packet : Packet}
    {members : List Peer} {member : Peer} (handled : view.handle role packet = .spread members)
    (memberMem : member ∈ members) : view.Passes packet member .use := by
  by_cases moves : packet.Routed ∧ role ≠ .client
  · rcases moves with ⟨routed, serves⟩
    rw [handle_of_routed routed serves] at handled
    split at handled
    · cases handled
      exact .down routed memberMem
    · cases forwarded : view.forward packet.route (Peer.ofEndpoint packet.destination) <;>
        simp [forwarded, Forward.handling] at handled
  · rw [Decidable.not_and_iff_or_not, Decidable.not_not] at moves
    rcases view.handle_of_not_routed moves with stays | stays <;> simp [stays] at handled

/-- Whatever leaves a node leaves it for one of these reasons, and differs from
what came in by its route only. -/
theorem exists_passes_of_mem_relays {view : View} {role : Role} {raw sent : Bytes}
    {nextHop : Peer} (relayed : (nextHop, sent) ∈ view.relays role raw) :
    ∃ packet route, Packet.decode raw = .ok packet ∧
      Packet.decode sent = .ok { packet with route } ∧ view.Passes packet nextHop route := by
  unfold relays at relayed
  cases decoded : Packet.decode raw with
  | error cause => simp [decoded] at relayed
  | ok packet =>
      simp only [decoded] at relayed
      cases handled : view.handle role packet with
      | accept => simp [handled] at relayed
      | relay peer route =>
          rcases Packet.exists_rewrite? decoded route with ⟨rewritten, rewrittenEq, read⟩
          simp only [handled, rewrittenEq, Option.toList_some, List.map_cons, List.map_nil,
            List.mem_singleton, Prod.mk.injEq] at relayed
          rcases relayed with ⟨rfl, rfl⟩
          exact ⟨packet, _, rfl, read, passes_of_handle_eq_relay handled⟩
      | spread members =>
          rcases Packet.exists_rewrite? decoded (some .use) with ⟨rewritten, rewrittenEq, read⟩
          simp only [handled, rewrittenEq, Option.toList_some, List.map_cons, List.map_nil,
            List.mem_flatMap, List.mem_singleton, Prod.mk.injEq] at relayed
          rcases relayed with ⟨member, memberMem, rfl, rfl⟩
          exact ⟨packet, _, rfl, read, passes_of_handle_eq_spread handled memberMem⟩
      | drop => simp [handled] at relayed

end View

namespace Node

/-- Pass one packet on to its next hop. -/
def passOne (now : Nat) (node : Node) (packet : Peer × Bytes) : Node :=
  node.inMailroom fun room => (room.forward now packet.2 packet.1).toOption.getD room

/-- Pass packets on, in order. -/
def passOn (node : Node) (now : Nat) (packets : List (Peer × Bytes)) : Node :=
  packets.foldl (passOne now) node

theorem relay_eq_passOn (node : Node) (now : Nat) (raw : Bytes) (nextHop : Peer)
    (route : Option Route) :
    node.relay now raw nextHop route =
      node.passOn now ((Packet.rewrite? route raw).toList.map (nextHop, ·)) := by
  unfold relay
  cases route with
  | none => rfl
  | some route =>
      cases rewritten : Packet.retarget route raw with
      | ok raw => simp [Packet.rewrite?, rewritten, Except.toOption, passOn, passOne]
      | error cause => simp [Packet.rewrite?, rewritten, Except.toOption, passOn]

/-- All that becomes of the bytes that reach a node: some packets are passed
on, and at most one is taken in. -/
theorem onPacket_eq (node : Node) (now : Nat) (sender : Endpoint) (raw : Bytes) :
    node.onPacket now sender raw =
      match node.view.accepts? node.role raw with
      | some packet =>
          (node.passOn now (node.view.relays node.role raw)).accept now sender packet
      | none => node.passOn now (node.view.relays node.role raw) := by
  unfold onPacket View.accepts? View.relays
  cases Packet.decode raw with
  | error => rfl
  | ok packet =>
      simp only
      cases node.view.handle node.role packet with
      | accept => rfl
      | relay nextHop route => exact relay_eq_passOn node now raw nextHop route
      | spread members => simp only [relay_eq_passOn, passOn, List.foldl_flatMap]
      | drop => rfl

end Node

end ClusterOverlay
