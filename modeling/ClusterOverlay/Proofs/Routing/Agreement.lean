import ClusterOverlay.Proofs.Membership
import ClusterOverlay.Proofs.Peer
import ClusterOverlay.Proofs.Routing.Relays

/-!
# Agreement

All nodes agree on a roster if every member holds it, and if it is sound and
has the main server lead one of its clusters.  What a member decides can then
be told from the roster alone: `Agreement.serverOf?_eq_some_iff` and its
neighbours say how.
-/

namespace ClusterOverlay

/-- The packet is for one peer alone. -/
structure Packet.For (packet : Packet) (peer : Peer) : Prop where
  single : packet.broadcast = false
  addressed : Peer.ofEndpoint packet.destination = peer

/-- All nodes agree on a roster.  Its members are named by the addresses that
they are reached at, and the main server leads one of the clusters. -/
structure Agreement (roster : Roster) (mainServer : Peer) (views : Peer → View) : Prop where
  sound : roster.Sound
  mainMem : mainServer ∈ roster.servers
  literal : ∀ peer ∈ roster.members, peer.IsLiteral
  selfEq : ∀ peer, (views peer).self = peer
  mainServerEq : ∀ peer, (views peer).mainServer = mainServer
  rosterEq : ∀ {peer : Peer}, peer ∈ roster.members → (views peer).toRoster = roster

namespace View

/-! ## Decisions -/

theorem forward_of_mem_clusterPeers {view : View} {peer : Peer}
    (peerMem : peer ∈ view.clusterPeers) (route : Route) :
    view.forward route peer = .relay peer (some .use) := by
  have other : peer ≠ view.self := by
    rintro rfl
    exact view.self_notMem_clusterPeers peerMem
  rw [forward, if_neg other, if_pos (List.contains_iff_mem.mpr peerMem)]

theorem forward_of_isMainServer {view : View} {peer server : Peer} (other : peer ≠ view.self)
    (foreign : peer ∉ view.clusterPeers) (main : view.isMainServer = true)
    (leads : view.serverOf? peer = some server) (route : Route) :
    view.forward route peer = .relay server (some .sameCluster) := by
  rw [forward, if_neg other, if_neg (mt List.contains_iff_mem.mp foreign), if_pos main, leads]

theorem forward_of_otherCluster {view : View} {peer : Peer} (other : peer ≠ view.self)
    (foreign : peer ∉ view.clusterPeers) (away : view.isMainServer ≠ true) :
    view.forward .otherCluster peer = .relay view.mainServer none := by
  rw [forward, if_neg other, if_neg (mt List.contains_iff_mem.mp foreign), if_neg away,
    if_pos rfl]

/-- A server treats a routed packet for one peer as `forward` says. -/
theorem handle_eq_of_forward (view : View) {role : Role} {packet : Packet} {peer : Peer}
    (routed : packet.Routed) (single : packet.For peer) (serves : role ≠ .client) :
    view.handle role packet = (view.forward packet.route peer).handling := by
  rw [handle_of_routed routed serves, if_neg (by simp [single.single]), single.addressed]

end View

namespace Agreement

variable {roster : Roster} {mainServer : Peer} {views : Peer → View}
variable {node peer server : Peer}

/-- A member has one name, whatever hosts a system knows. -/
theorem canonical (agreement : Agreement roster mainServer views) (peerMem : peer ∈ roster.members)
    (resolver : Resolver) : peer.canonical resolver = .ok peer :=
  (agreement.literal peer peerMem).canonical_eq resolver

/-! ## What the members believe -/

theorem serverOf?_eq_some_iff (agreement : Agreement roster mainServer views)
    (nodeMem : node ∈ roster.members) :
    (views node).serverOf? peer = some server ↔ roster.Serves server peer := by
  have rosterEq := agreement.rosterEq nodeMem
  rw [View.serverOf?_eq_some_iff (rosterEq ▸ agreement.sound.distinct), rosterEq]

theorem mem_clusterPeers_iff (agreement : Agreement roster mainServer views)
    (nodeMem : node ∈ roster.members) :
    peer ∈ (views node).clusterPeers ↔ peer ≠ node ∧ roster.Together node peer := by
  have rosterEq := agreement.rosterEq nodeMem
  rw [View.mem_clusterPeers_iff (rosterEq ▸ agreement.sound.distinct), rosterEq,
    agreement.selfEq]

theorem routeTo_eq_sameCluster_iff (agreement : Agreement roster mainServer views)
    (nodeMem : node ∈ roster.members) :
    (views node).routeTo peer = .sameCluster ↔ roster.Together node peer := by
  have rosterEq := agreement.rosterEq nodeMem
  rw [View.routeTo_eq_sameCluster_iff (rosterEq ▸ agreement.sound.distinct), rosterEq,
    agreement.selfEq]

theorem isMainServer_iff (agreement : Agreement roster mainServer views) :
    (views node).isMainServer = true ↔ node = mainServer := by
  rw [View.isMainServer, agreement.selfEq, agreement.mainServerEq, decide_eq_true_iff]

theorem isClusterServer_iff (agreement : Agreement roster mainServer views)
    (nodeMem : node ∈ roster.members) :
    (views node).isClusterServer = true ↔ node ∈ roster.servers := by
  rw [View.isClusterServer, agreement.selfEq, agreement.rosterEq nodeMem, List.contains_iff_mem]

theorem mem_members_of_mem_servers (agreement : Agreement roster mainServer views)
    (serverMem : server ∈ roster.servers) : server ∈ roster.members :=
  agreement.sound.servers_subset serverMem

theorem role_ne_client (agreement : Agreement roster mainServer views)
    (serverMem : server ∈ roster.servers) : (views server).role ≠ .client := by
  apply View.role_ne_client
  rw [agreement.selfEq, agreement.rosterEq (agreement.mem_members_of_mem_servers serverMem)]
  exact serverMem

theorem reaches_iff (agreement : Agreement roster mainServer views)
    (nodeMem : node ∈ roster.members) :
    (views node).reaches peer = true ↔
      roster.Serves node peer ∨ roster.Serves peer node ∨
        (node = mainServer ∧ peer ∈ roster.servers) ∨
        (node ∈ roster.servers ∧ peer = mainServer) := by
  simp only [View.reaches_iff, agreement.selfEq, agreement.mainServerEq,
    agreement.serverOf?_eq_some_iff nodeMem, agreement.rosterEq nodeMem]

end Agreement

end ClusterOverlay
