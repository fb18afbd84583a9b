import ClusterOverlay.Proofs.Routing.Agreement

/-!
# Delivery

Where all nodes agree on a sound roster that the main server leads a cluster
of, a packet for one member gets to it.  `Travels` follows a packet from node
to node: it is relayed once at every node but the last, and accepted at the
last alone.  `Agreement.delivers` says that the packet gets from whoever sends
it to its destination with at most four transmissions, and that nobody sees it
twice.
-/

namespace ClusterOverlay

/-- Bytes that reach the first node of a path are passed on, and nothing else
is done with them, until they reach the last, where a packet is accepted and
nothing is passed on.  What is passed on to a peer reaches the node that has
its address. -/
inductive Travels (views : Peer → View) (hosts : Peer → Resolver) :
    Bytes → List Peer → Packet → Prop
  | arrives {node : Peer} {raw : Bytes} {packet : Packet}
      (accepted : (views node).accepts? (views node).role raw = some packet)
      (rests : (views node).relays (views node).role raw = []) :
      Travels views hosts raw [node] packet
  | passes {node nextHop next : Peer} {raw sent : Bytes} {later : List Peer} {packet : Packet}
      (refused : (views node).accepts? (views node).role raw = none)
      (relayed : (views node).relays (views node).role raw = [(nextHop, sent)])
      (reached : nextHop.canonical (hosts node) = .ok next)
      (onward : Travels views hosts sent (next :: later) packet) :
      Travels views hosts raw (node :: next :: later) packet

/-- Bytes travel along a path to their destination, and no node sees them
twice.  The packet accepted is the one that set out, but for its route. -/
structure Passage (views : Peer → View) (hosts : Peer → Resolver) (raw : Bytes) (packet : Packet)
    (destination : Peer) (path : List Peer) : Prop where
  travels : ∃ route, Travels views hosts raw path { packet with route }
  last : path.getLast? = some destination
  nodup : path.Nodup

/-- The node has a way to send to the destination, and whatever it sends there
arrives without coming back to it. -/
def Sends (views : Peer → View) (hosts : Peer → Resolver) (node destination : Peer) : Prop :=
  ∃ route nextHop, (views node).plan destination = .send route nextHop ∧
    nextHop.canonical (hosts node) = .ok nextHop ∧
    ∀ raw packet, Packet.decode raw = .ok packet → packet.route = route →
      packet.For destination →
      ∃ later, Passage views hosts raw packet destination (nextHop :: later) ∧ later.length ≤ 3 ∧
        node ∉ nextHop :: later

theorem Travels.of_accept {views : Peer → View} {hosts : Peer → Resolver} {node : Peer}
    {raw : Bytes} {packet : Packet} (decoded : Packet.decode raw = .ok packet)
    (handled : (views node).handle (views node).role packet = .accept) :
    Travels views hosts raw [node] packet :=
  .arrives (by simp [View.accepts?, decoded, handled]) (by simp [View.relays, decoded, handled])

/-- What is for use is accepted wherever it arrives. -/
theorem Passage.of_use (views : Peer → View) (hosts : Peer → Resolver) (node : Peer) {raw : Bytes}
    {packet : Packet} (decoded : Packet.decode raw = .ok packet) (final : packet.route = .use) :
    Passage views hosts raw packet node [node] := by
  refine ⟨⟨packet.route, .of_accept decoded ?_⟩, rfl, List.nodup_singleton node⟩
  simp [View.handle, final]

/-- A relay puts one more node in front of the path.  What the next hop gets
differs from the packet by its route only. -/
theorem Passage.exists_sent {views : Peer → View} {hosts : Peer → Resolver}
    {node nextHop destination : Peer} {raw : Bytes} {packet : Packet} {route : Option Route}
    (decoded : Packet.decode raw = .ok packet)
    (handled : (views node).handle (views node).role packet = .relay nextHop route)
    (reached : nextHop.canonical (hosts node) = .ok nextHop) :
    ∃ sent, Packet.decode sent = .ok { packet with route := route.getD packet.route } ∧
      ∀ later, Passage views hosts sent { packet with route := route.getD packet.route } destination
          (nextHop :: later) → node ∉ nextHop :: later →
        Passage views hosts raw packet destination (node :: nextHop :: later) := by
  rcases Packet.exists_rewrite? decoded route with ⟨sent, rewritten, sentEq⟩
  refine ⟨sent, sentEq, ?_⟩
  intro later passage fresh
  rcases passage.travels with ⟨final, travels⟩
  refine ⟨⟨final, .passes ?_ ?_ reached travels⟩, ?_, List.nodup_cons.mpr ⟨fresh, passage.nodup⟩⟩
  · simp [View.accepts?, decoded, handled]
  · simp [View.relays, decoded, handled, rewritten]
  · rw [List.getLast?_cons_cons]
    exact passage.last

namespace Agreement

variable {roster : Roster} {mainServer : Peer} {views : Peer → View} {hosts : Peer → Resolver}
variable {node server destination : Peer} {raw : Bytes} {packet : Packet}

/-! ## Legs of a journey -/

/-- The server of a peer accepts what is for itself, and hands the peer what is
for the peer. -/
theorem exists_passage_of_serves (agreement : Agreement roster mainServer views)
    (serves : roster.Serves server destination) (decoded : Packet.decode raw = .ok packet)
    (routed : packet.Routed) (single : packet.For destination) :
    ∃ later, Passage views hosts raw packet destination (server :: later) ∧ later.length ≤ 1 ∧
      ∀ node ∈ later, node = destination := by
  have serverMem := serves.mem_servers
  have handling := (views server).handle_eq_of_forward routed single
    (agreement.role_ne_client serverMem)
  have together := agreement.sound.together serves
  by_cases own : destination = server
  · subst own
    refine ⟨[], ⟨⟨packet.route, .of_accept decoded ?_⟩, rfl, List.nodup_singleton _⟩, ?_⟩
    · rw [handling, View.forward, if_pos (agreement.selfEq destination).symm, Forward.handling]
    · simp
  · have peerMem := (agreement.mem_clusterPeers_iff together.mem_members).mpr ⟨own, together⟩
    rw [View.forward_of_mem_clusterPeers peerMem] at handling
    obtain ⟨sent, sentEq, extend⟩ := Passage.exists_sent decoded handling
      (agreement.canonical together.symm.mem_members _)
    refine ⟨[destination], extend [] (.of_use views hosts destination sentEq rfl) ?_, ?_, ?_⟩
    · simpa using Ne.symm own
    · simp
    · simp

/-- The main server gets every routed packet to its destination, by way of the
destination's server if that is somebody else. -/
theorem exists_passage_of_mainServer (agreement : Agreement roster mainServer views)
    (destinationMem : destination ∈ roster.members) (decoded : Packet.decode raw = .ok packet)
    (routed : packet.Routed) (single : packet.For destination) :
    ∃ later, Passage views hosts raw packet destination (mainServer :: later) ∧ later.length ≤ 2 ∧
      ∀ node ∈ later, node = destination ∨ roster.Serves node destination := by
  have mainServes := agreement.sound.serves_self agreement.mainMem
  have mainMem := agreement.mem_members_of_mem_servers agreement.mainMem
  by_cases together : roster.Together mainServer destination
  · obtain ⟨later, passage, short, only⟩ := agreement.exists_passage_of_serves
      (mainServes.of_together agreement.sound.distinct together) decoded routed single
    exact ⟨later, passage, Nat.le_succ_of_le short, fun node nodeMem => .inl (only node nodeMem)⟩
  · rcases agreement.sound.exists_serves destinationMem with ⟨server, serves⟩
    have own : destination ≠ mainServer := by
      rintro rfl
      exact together (agreement.sound.together mainServes)
    have away : mainServer ≠ server := by
      rintro rfl
      exact together (agreement.sound.together serves)
    have foreign : destination ∉ (views mainServer).clusterPeers := by
      rw [agreement.mem_clusterPeers_iff mainMem]
      exact fun kin => together kin.2
    have handling := (views mainServer).handle_eq_of_forward routed single
      (agreement.role_ne_client agreement.mainMem)
    rw [View.forward_of_isMainServer ((agreement.selfEq mainServer).symm ▸ own) foreign
      (agreement.isMainServer_iff.mpr rfl)
      ((agreement.serverOf?_eq_some_iff mainMem).mpr serves)] at handling
    obtain ⟨sent, sentEq, extend⟩ := Passage.exists_sent decoded handling
      (agreement.canonical (agreement.sound.together serves).mem_members _)
    obtain ⟨later, passage, short, only⟩ := agreement.exists_passage_of_serves serves sentEq
      (.inl rfl) ⟨single.single, single.addressed⟩
    refine ⟨server :: later, extend later passage ?_, Nat.succ_le_succ short, ?_⟩
    · rw [List.mem_cons, not_or]
      exact ⟨away, fun mainMem => own (only mainServer mainMem).symm⟩
    · intro node nodeMem
      rcases List.mem_cons.mp nodeMem with rfl | nodeMem
      · exact .inr serves
      · exact .inl (only node nodeMem)

/-- From a server of another cluster a packet goes by way of the main server. -/
theorem exists_passage_of_otherCluster (agreement : Agreement roster mainServer views)
    (serverMem : server ∈ roster.servers) (destinationMem : destination ∈ roster.members)
    (apart : ¬ roster.Together server destination) (decoded : Packet.decode raw = .ok packet)
    (crossing : packet.route = .otherCluster) (single : packet.For destination) :
    ∃ later, Passage views hosts raw packet destination (server :: later) ∧ later.length ≤ 3 ∧
      ∀ node ∈ later,
        node = mainServer ∨ node = destination ∨ roster.Serves node destination := by
  by_cases main : server = mainServer
  · subst main
    obtain ⟨later, passage, short, only⟩ :=
      agreement.exists_passage_of_mainServer destinationMem decoded (.inr crossing) single
    exact ⟨later, passage, Nat.le_succ_of_le short, fun node nodeMem => .inr (only node nodeMem)⟩
  · have nodeMem := agreement.mem_members_of_mem_servers serverMem
    have own : destination ≠ server := by
      rintro rfl
      exact apart (agreement.sound.together (agreement.sound.serves_self serverMem))
    have foreign : destination ∉ (views server).clusterPeers := by
      rw [agreement.mem_clusterPeers_iff nodeMem]
      exact fun kin => apart kin.2
    have handling := (views server).handle_eq_of_forward (.inr crossing) single
      (agreement.role_ne_client serverMem)
    rw [crossing, View.forward_of_otherCluster ((agreement.selfEq server).symm ▸ own) foreign
      (mt agreement.isMainServer_iff.mp main), agreement.mainServerEq] at handling
    obtain ⟨sent, sentEq, extend⟩ := Passage.exists_sent decoded handling
      (agreement.canonical (agreement.mem_members_of_mem_servers agreement.mainMem) _)
    obtain ⟨later, passage, short, only⟩ := agreement.exists_passage_of_mainServer
      destinationMem sentEq (.inr crossing) ⟨single.single, single.addressed⟩
    refine ⟨mainServer :: later, extend later passage ?_, Nat.succ_le_succ short, ?_⟩
    · rw [List.mem_cons, not_or]
      refine ⟨main, fun serverMem => ?_⟩
      rcases only server serverMem with rfl | serves
      · exact own rfl
      · exact apart (agreement.sound.together serves)
    · intro node nodeMem
      rcases List.mem_cons.mp nodeMem with rfl | nodeMem
      · exact .inl rfl
      · exact .inr (only node nodeMem)

/-! ## The first hop -/

/-- What goes straight to its destination gets there. -/
theorem sends_of_reaches (agreement : Agreement roster mainServer views)
    (destinationMem : destination ∈ roster.members) (other : destination ≠ node)
    (reaches : (views node).reaches destination = true) : Sends views hosts node destination := by
  refine ⟨.use, destination, ?_, agreement.canonical destinationMem _, ?_⟩
  · rw [View.plan, agreement.selfEq, if_neg other, if_pos reaches]
  · intro raw packet decoded final _
    refine ⟨[], .of_use views hosts destination decoded final, Nat.zero_le _, ?_⟩
    simpa using other.symm

/-- What has to be relayed gets to its destination if the first relay takes it
there and never back. -/
theorem sends_of_relayTo? (agreement : Agreement roster mainServer views)
    {nextHop : Peer} (other : destination ≠ node)
    (far : (views node).reaches destination ≠ true)
    (relay : (views node).relayTo? destination = some nextHop)
    (nextHopMem : nextHop ∈ roster.members) (moves : nextHop ≠ node)
    (onward : ∀ raw packet, Packet.decode raw = .ok packet →
      packet.route = (views node).routeTo destination → packet.For destination →
      ∃ later, Passage views hosts raw packet destination (nextHop :: later) ∧ later.length ≤ 3 ∧
        node ∉ nextHop :: later) : Sends views hosts node destination := by
  refine ⟨(views node).routeTo destination, nextHop, ?_, agreement.canonical nextHopMem _, onward⟩
  rw [View.plan, agreement.selfEq, if_neg other, if_neg far, relay]
  exact if_neg moves

/-- Within a cluster, the server is the first relay. -/
theorem sends_of_together (agreement : Agreement roster mainServer views)
    (other : destination ≠ node) (far : (views node).reaches destination ≠ true)
    (together : roster.Together node destination) : Sends views hosts node destination := by
  have nodeMem := together.mem_members
  rcases agreement.sound.exists_serves nodeMem with ⟨server, serves⟩
  have served := serves.of_together agreement.sound.distinct together
  have route := (agreement.routeTo_eq_sameCluster_iff nodeMem).mpr together
  have moves : server ≠ node := by
    rintro rfl
    exact far ((agreement.reaches_iff nodeMem).mpr (.inl served))
  refine agreement.sends_of_relayTo? other far ?_
    (agreement.mem_members_of_mem_servers serves.mem_servers) moves ?_
  · rw [View.relayTo?, if_pos route, agreement.selfEq]
    exact (agreement.serverOf?_eq_some_iff nodeMem).mpr serves
  · intro raw packet decoded routeEq single
    obtain ⟨later, passage, short, only⟩ := agreement.exists_passage_of_serves served decoded
      (.inl (routeEq.trans route)) single
    refine ⟨later, passage, Nat.le_trans short (by decide), ?_⟩
    rw [List.mem_cons, not_or]
    exact ⟨moves.symm, fun back => other (only node back).symm⟩

/-- The main server sends to the server of the other cluster. -/
theorem sends_of_eq_mainServer (agreement : Agreement roster mainServer views)
    (other : destination ≠ mainServer) (far : (views mainServer).reaches destination ≠ true)
    (destinationMem : destination ∈ roster.members)
    (apart : ¬ roster.Together mainServer destination) :
    Sends views hosts mainServer destination := by
  have nodeMem := agreement.mem_members_of_mem_servers agreement.mainMem
  rcases agreement.sound.exists_serves destinationMem with ⟨server, serves⟩
  have route : (views mainServer).routeTo destination ≠ .sameCluster :=
    mt (agreement.routeTo_eq_sameCluster_iff nodeMem).mp apart
  have moves : server ≠ mainServer := by
    rintro rfl
    exact apart (agreement.sound.together serves)
  refine agreement.sends_of_relayTo? other far ?_
    (agreement.mem_members_of_mem_servers serves.mem_servers) moves ?_
  · rw [View.relayTo?, if_neg route, if_pos (agreement.isMainServer_iff.mpr rfl)]
    exact (agreement.serverOf?_eq_some_iff nodeMem).mpr serves
  · intro raw packet decoded routeEq single
    obtain ⟨later, passage, short, only⟩ := agreement.exists_passage_of_serves serves decoded
      (.inr (routeEq.trans (View.routeTo_eq_otherCluster route))) single
    refine ⟨later, passage, Nat.le_trans short (by decide), ?_⟩
    rw [List.mem_cons, not_or]
    exact ⟨moves.symm, fun back => other (only mainServer back).symm⟩

/-- Any other server sends to the main server. -/
theorem sends_of_mem_servers (agreement : Agreement roster mainServer views)
    (other : destination ≠ node) (far : (views node).reaches destination ≠ true)
    (nodeMem : node ∈ roster.servers) (away : node ≠ mainServer)
    (destinationMem : destination ∈ roster.members)
    (apart : ¬ roster.Together node destination) : Sends views hosts node destination := by
  have member := agreement.mem_members_of_mem_servers nodeMem
  have route : (views node).routeTo destination ≠ .sameCluster :=
    mt (agreement.routeTo_eq_sameCluster_iff member).mp apart
  refine agreement.sends_of_relayTo? other far ?_
    (agreement.mem_members_of_mem_servers agreement.mainMem) away.symm ?_
  · rw [View.relayTo?, if_neg route, if_neg (mt agreement.isMainServer_iff.mp away),
      if_pos ((agreement.isClusterServer_iff member).mpr nodeMem), agreement.mainServerEq]
  · intro raw packet decoded routeEq single
    obtain ⟨later, passage, short, only⟩ := agreement.exists_passage_of_mainServer
      destinationMem decoded (.inr (routeEq.trans (View.routeTo_eq_otherCluster route))) single
    refine ⟨later, passage, Nat.le_succ_of_le short, ?_⟩
    rw [List.mem_cons, not_or]
    refine ⟨away, fun back => ?_⟩
    rcases only node back with same | serves
    · exact other same.symm
    · exact apart (agreement.sound.together serves)

/-- A client sends to its own server. -/
theorem sends_of_notMem_servers (agreement : Agreement roster mainServer views)
    (other : destination ≠ node) (far : (views node).reaches destination ≠ true)
    (nodeMem : node ∈ roster.members) (client : node ∉ roster.servers)
    (destinationMem : destination ∈ roster.members)
    (apart : ¬ roster.Together node destination) : Sends views hosts node destination := by
  rcases agreement.sound.exists_serves nodeMem with ⟨server, serves⟩
  have route : (views node).routeTo destination ≠ .sameCluster :=
    mt (agreement.routeTo_eq_sameCluster_iff nodeMem).mp apart
  have away : node ≠ mainServer := by
    rintro rfl
    exact client agreement.mainMem
  have moves : server ≠ node := by
    rintro rfl
    exact client serves.mem_servers
  have foreign : ¬ roster.Together server destination := by
    intro together
    exact apart ((agreement.sound.together serves).symm.trans agreement.sound.distinct together)
  refine agreement.sends_of_relayTo? other far ?_
    (agreement.mem_members_of_mem_servers serves.mem_servers) moves ?_
  · rw [View.relayTo?, if_neg route, if_neg (mt agreement.isMainServer_iff.mp away),
      if_neg (mt (agreement.isClusterServer_iff nodeMem).mp client), agreement.selfEq,
      (agreement.serverOf?_eq_some_iff nodeMem).mpr serves, Option.getD_some]
  · intro raw packet decoded routeEq single
    obtain ⟨later, passage, short, only⟩ := agreement.exists_passage_of_otherCluster
      serves.mem_servers destinationMem foreign decoded
      (routeEq.trans (View.routeTo_eq_otherCluster route)) single
    refine ⟨later, passage, short, ?_⟩
    rw [List.mem_cons, not_or]
    refine ⟨moves.symm, fun back => ?_⟩
    rcases only node back with same | same | serves
    · exact away same
    · exact other same.symm
    · exact client serves.mem_servers

theorem sends_of_mem_members (agreement : Agreement roster mainServer views)
    (nodeMem : node ∈ roster.members) (destinationMem : destination ∈ roster.members)
    (other : destination ≠ node) : Sends views hosts node destination := by
  by_cases near : (views node).reaches destination = true
  · exact agreement.sends_of_reaches destinationMem other near
  by_cases together : roster.Together node destination
  · exact agreement.sends_of_together other near together
  by_cases main : node = mainServer
  · subst main
    exact agreement.sends_of_eq_mainServer other near destinationMem together
  by_cases leads : node ∈ roster.servers
  · exact agreement.sends_of_mem_servers other near leads main destinationMem together
  · exact agreement.sends_of_notMem_servers other near nodeMem leads destinationMem together

/-- A node outside the overlay sends to the main server, the only one that it
knows of. -/
theorem sends_of_notMem_members (agreement : Agreement roster mainServer views)
    (outside : node ∉ roster.members) (lonely : (views node).toRoster = .empty)
    (destinationMem : destination ∈ roster.members) : Sends views hosts node destination := by
  have mainMem := agreement.mem_members_of_mem_servers agreement.mainMem
  have other : destination ≠ node := by
    rintro rfl
    exact outside destinationMem
  have away : node ≠ mainServer := by
    rintro rfl
    exact outside mainMem
  have nobody : ∀ peer, (views node).clusterOf? peer = none := by
    intro peer
    simp [View.clusterOf?, lonely, Roster.empty]
  have unled : ∀ peer, (views node).serverOf? peer = none := by
    intro peer
    simp [View.serverOf?, nobody]
  have unserving : (views node).isClusterServer = false := by
    simp [View.isClusterServer, lonely, Roster.empty]
  have below : (views node).isMainServer = false := by
    simpa using mt agreement.isMainServer_iff.mp away
  have far : (views node).reaches destination ≠ true := by
    simp [View.reaches, unled, below, unserving]
  have route : (views node).routeTo destination = .otherCluster := by
    simp [View.routeTo, nobody]
  refine agreement.sends_of_relayTo? other far ?_ mainMem away.symm ?_
  · simp [View.relayTo?, route, below, unserving, unled, agreement.mainServerEq]
  · intro raw packet decoded routeEq single
    obtain ⟨later, passage, short, only⟩ := agreement.exists_passage_of_mainServer
      destinationMem decoded (.inr (routeEq.trans route)) single
    refine ⟨later, passage, Nat.le_succ_of_le short, ?_⟩
    rw [List.mem_cons, not_or]
    refine ⟨away, fun back => ?_⟩
    rcases only node back with same | serves
    · exact other same.symm
    · exact outside (agreement.sound.together serves).mem_members

/-! ## Delivery -/

/-- Whoever sends to a member, from inside or outside the overlay, has a way to
do so, and a packet for the member alone gets there in at most four
transmissions.  It is dropped nowhere, accepted nowhere else, and seen by nobody
twice. -/
theorem delivers {source : Peer} (agreement : Agreement roster mainServer views)
    (standing : source ∈ roster.members ∨
      source ∉ roster.members ∧ (views source).toRoster = .empty)
    (destinationMem : destination ∈ roster.members) (other : destination ≠ source) :
    ∃ route nextHop, (views source).plan destination = .send route nextHop ∧
      nextHop.canonical (hosts source) = .ok nextHop ∧
      ∀ raw packet, Packet.decode raw = .ok packet → packet.route = route →
        packet.broadcast = false →
        destination.endpoint (hosts source) = .ok packet.destination →
        ∃ later final, Travels views hosts raw (nextHop :: later) { packet with route := final } ∧
          (nextHop :: later).getLast? = some destination ∧
          (nextHop :: later).length ≤ 4 ∧ (source :: nextHop :: later).Nodup := by
  have sends : Sends views hosts source destination := by
    rcases standing with inside | ⟨outside, lonely⟩
    · exact agreement.sends_of_mem_members inside destinationMem other
    · exact agreement.sends_of_notMem_members outside lonely destinationMem
  rcases sends with ⟨route, nextHop, planned, reached, onward⟩
  refine ⟨route, nextHop, planned, reached, ?_⟩
  intro raw packet decoded routeEq single addressed
  have known := agreement.canonical destinationMem (hosts source)
  rw [Peer.canonical, addressed] at known
  obtain ⟨later, passage, short, fresh⟩ :=
    onward raw packet decoded routeEq ⟨single, Except.ok.inj known⟩
  rcases passage.travels with ⟨final, travels⟩
  exact ⟨later, final, travels, passage.last, Nat.succ_le_succ short,
    List.nodup_cons.mpr ⟨fresh, passage.nodup⟩⟩

end Agreement

/-! ## Three clusters -/

open Peer (numbered)

/-- A roster of three clusters. -/
def Roster.sample : Roster :=
  ⟨[[numbered 1], [numbered 2, numbered 3], [numbered 4, numbered 5]],
    [numbered 1, numbered 2, numbered 4]⟩

/-- The members of the sample know the sample, and nobody else knows anybody. -/
def View.sample (peer : Peer) : View :=
  ⟨if peer ∈ Roster.sample.members then .sample else .empty, peer, numbered 1, 0⟩

namespace Agreement

theorem sample : Agreement .sample (numbered 1) .sample where
  sound := ⟨Roster.led_iff_check.mpr (by decide +kernel), by decide +kernel⟩
  mainMem := by decide +kernel
  literal := by decide +kernel
  selfEq _ := rfl
  mainServerEq _ := rfl
  rosterEq peerMem := if_pos peerMem

/-- A client, and a node outside the overlay, send to a client of another
cluster. -/
theorem delivers_sample :
    let packet : Packet :=
      ⟨.otherCluster, 0, .chat, .data, false, ⟨⟨10, 0, 0, 5⟩, 9000⟩, 0, 0, 1, [1, 2, 3]⟩
    ((View.sample (numbered 3)).plan (numbered 5) = .send .otherCluster (numbered 2) ∧
      ∃ later final, Travels .sample (fun _ => .coastal) packet.encode (numbered 2 :: later)
          { packet with route := final } ∧
        (numbered 2 :: later).getLast? = some (numbered 5) ∧
        (numbered 2 :: later).length ≤ 4 ∧ (numbered 3 :: numbered 2 :: later).Nodup) ∧
    ((View.sample (numbered 9)).plan (numbered 5) = .send .otherCluster (numbered 1) ∧
      ∃ later final, Travels .sample (fun _ => .coastal) packet.encode (numbered 1 :: later)
          { packet with route := final } ∧
        (numbered 1 :: later).getLast? = some (numbered 5) ∧
        (numbered 1 :: later).length ≤ 4 ∧ (numbered 9 :: numbered 1 :: later).Nodup) := by
  intro packet
  have inside : numbered 3 ∈ Roster.sample.members := by decide +kernel
  have outside : numbered 9 ∉ Roster.sample.members := by decide +kernel
  have lonely : (View.sample (numbered 9)).toRoster = .empty := by
    simp [View.sample, outside]
  have destinationMem : numbered 5 ∈ Roster.sample.members := by decide +kernel
  have fromInside : (View.sample (numbered 3)).plan (numbered 5) =
      .send .otherCluster (numbered 2) := by
    decide +kernel
  have fromOutside : (View.sample (numbered 9)).plan (numbered 5) =
      .send .otherCluster (numbered 1) := by
    decide +kernel
  have addressed : (numbered 5).endpoint .coastal = .ok packet.destination := by decide +kernel
  constructor
  · obtain ⟨route, nextHop, planned, _, onward⟩ :=
      sample.delivers (.inl inside) destinationMem (by decide +kernel)
    rw [fromInside, Plan.send.injEq] at planned
    rcases planned with ⟨rfl, rfl⟩
    exact ⟨fromInside, onward _ packet packet.decode_encode rfl rfl addressed⟩
  · obtain ⟨route, nextHop, planned, _, onward⟩ :=
      sample.delivers (.inr ⟨outside, lonely⟩) destinationMem (by decide +kernel)
    rw [fromOutside, Plan.send.injEq] at planned
    rcases planned with ⟨rfl, rfl⟩
    exact ⟨fromOutside, onward _ packet packet.decode_encode rfl rfl addressed⟩

end Agreement

end ClusterOverlay
