import ClusterOverlay.Proofs.Membership

/-!
# Plans

A node that has something to send finds its first hop by looking for two peers in its view,
itself and the destination.  Either it reaches the destination without a relay, or it takes a
detour, and `View.Detour` lists the five that there are.  In a led view nobody need occur only
once: a search always finds the first cluster of a peer, and that cluster has a server.  This is
enough for `View.plan_complete`, which says when a node has no route, and that a packet which
has one leaves the node and is for use only where its journey ends.
-/

namespace ClusterOverlay

namespace View

open Peer (numbered)

variable {view : View} {peer server nextHop : Peer} {route : Route}

/-! ## Servers that a search finds -/

/-- The server found is one of a cluster that the peer belongs to. -/
theorem serves_of_serverOf? (found : view.serverOf? peer = some server) :
    view.Serves server peer := by
  obtain ⟨index, place, leads⟩ := Option.bind_eq_some_iff.mp found
  exact ⟨index, home_of_clusterOf? place, leads⟩

/-- In a led view, whoever is in some cluster has a server. -/
theorem serverOf?_eq_none_iff (led : view.Led) :
    view.serverOf? peer = none ↔ peer ∉ view.members := by
  rw [← clusterOf?_eq_none_iff]
  unfold serverOf?
  cases place : view.clusterOf? peer with
  | none => simp
  | some index =>
      obtain ⟨server, leads⟩ := led.exists_server (home_of_clusterOf? place)
      simp [leads]

/-- Two peers that are on the route within a cluster are found in the same one. -/
theorem serverOf?_eq_of_sameCluster (inside : view.routeTo peer = .sameCluster) :
    view.serverOf? peer = view.serverOf? view.self := by
  unfold routeTo at inside
  split at inside
  · next own place ownEq placeEq =>
      split at inside
      · next same => rw [serverOf?, serverOf?, ownEq, placeEq, same]
      · contradiction
  · contradiction

/-- Only members are on the route within a cluster. -/
theorem mem_members_of_sameCluster (inside : view.routeTo peer = .sameCluster) :
    view.self ∈ view.members ∧ peer ∈ view.members := by
  unfold routeTo at inside
  split at inside
  · next own place ownEq placeEq =>
      exact ⟨(home_of_clusterOf? ownEq).mem_members, (home_of_clusterOf? placeEq).mem_members⟩
  · contradiction

theorem routeTo_ne_use : view.routeTo peer ≠ .use := by
  unfold routeTo
  split
  · split <;> simp
  · simp

/-! ## First hops -/

/-- The first relays towards a peer, with the route that a packet leaves with. -/
inductive Detour (view : View) (peer : Peer) : Route → Peer → Prop
  /-- Within a cluster, by way of its server. -/
  | within {server : Peer} (inside : view.routeTo peer = .sameCluster)
      (leads : view.serverOf? view.self = some server) : Detour view peer .sameCluster server
  /-- From the main server to the server of the peer. -/
  | across {server : Peer} (main : view.self = view.mainServer)
      (leads : view.serverOf? peer = some server) : Detour view peer .otherCluster server
  /-- From any other server to the main server. -/
  | up (away : view.self ≠ view.mainServer) (serves : view.self ∈ view.servers) :
      Detour view peer .otherCluster view.mainServer
  /-- From a client to its own server. -/
  | out {server : Peer} (away : view.self ≠ view.mainServer) (client : view.self ∉ view.servers)
      (leads : view.serverOf? view.self = some server) : Detour view peer .otherCluster server
  /-- From a node that has not joined yet to the main server. -/
  | outside (away : view.self ≠ view.mainServer) (client : view.self ∉ view.servers)
      (alone : view.serverOf? view.self = none) : Detour view peer .otherCluster view.mainServer

/-- A relay is the next hop of a detour. -/
theorem detour_of_relayTo? (relay : view.relayTo? peer = some nextHop) :
    view.Detour peer (view.routeTo peer) nextHop := by
  unfold relayTo? at relay
  split at relay
  · next inside => exact inside ▸ .within inside relay
  next apart =>
  rw [routeTo_eq_otherCluster apart]
  split at relay
  · next main => exact .across (of_decide_eq_true main) relay
  next notMain =>
  have away : view.self ≠ view.mainServer := by simpa [isMainServer] using notMain
  split at relay
  · next serves =>
      cases relay
      exact .up away (List.contains_iff_mem.mp serves)
  next notServer =>
  have client : view.self ∉ view.servers := by simpa [isClusterServer] using notServer
  cases leads : view.serverOf? view.self with
  | none =>
      rw [leads] at relay
      cases relay
      exact .outside away client leads
  | some server =>
      rw [leads] at relay
      cases relay
      exact .out away client leads

/-- In a led view there is no relay only from the main server to somebody in no cluster. -/
theorem relayTo?_eq_none_iff (led : view.Led) :
    view.relayTo? peer = none ↔ view.self = view.mainServer ∧ peer ∉ view.members := by
  unfold relayTo?
  split
  · next inside =>
      obtain ⟨ownMem, peerMem⟩ := mem_members_of_sameCluster inside
      simp [serverOf?_eq_none_iff led, ownMem, peerMem]
  · split
    · next main => simp [serverOf?_eq_none_iff led, of_decide_eq_true main]
    · next notMain =>
        have away : view.self ≠ view.mainServer := by simpa [isMainServer] using notMain
        split <;> simp [away]

namespace Detour

/-- A detour leaves the node. -/
theorem nextHop_ne_self (detour : view.Detour peer route nextHop)
    (far : ¬ view.reaches peer = true) : nextHop ≠ view.self := by
  rw [reaches_iff, not_or] at far
  intro back
  cases detour with
  | within inside leads =>
      exact far.1 ((serverOf?_eq_of_sameCluster inside).trans (back ▸ leads))
  | across _ leads => exact far.1 (back ▸ leads)
  | up away => exact away back.symm
  | out _ client leads => exact client (back ▸ (serves_of_serverOf? leads).mem_servers)
  | outside away => exact away back.symm

/-- A detour ends at the peer only for a node that knows nobody but the main server. -/
theorem alone_of_nextHop_eq (detour : view.Detour peer route peer)
    (far : ¬ view.reaches peer = true) :
    view.self ∉ view.servers ∧ view.serverOf? view.self = none ∧ peer = view.mainServer := by
  simp only [reaches_iff, not_or] at far
  obtain ⟨-, notServer, notServed, notMain⟩ := far
  cases detour with
  | within _ leads => exact absurd leads notServer
  | across main leads =>
      exact absurd ⟨main, (serves_of_serverOf? leads).mem_servers⟩ notServed
  | up _ serves => exact absurd ⟨serves, rfl⟩ notMain
  | out _ _ leads => exact absurd leads notServer
  | outside _ client alone => exact ⟨client, alone, rfl⟩

end Detour

/-! ## Plans -/

/-- What a node decides about a packet for somebody else: the packet goes straight to its
destination, or to a first relay, or there is none. -/
theorem plan_cases (other : peer ≠ view.self) :
    (view.reaches peer = true ∧ view.plan peer = .send .use peer) ∨
      ¬ view.reaches peer = true ∧
        ((∃ nextHop, view.relayTo? peer = some nextHop ∧
            view.plan peer = .send (view.routeTo peer) nextHop) ∨
          view.relayTo? peer = none ∧ view.plan peer = .noRoute) := by
  unfold plan
  rw [if_neg other]
  by_cases near : view.reaches peer = true
  · exact .inl ⟨near, if_pos near⟩
  · rw [if_neg near]
    cases relay : view.relayTo? peer with
    | none => exact .inr ⟨near, .inr ⟨rfl, rfl⟩⟩
    | some nextHop =>
        have moves := (detour_of_relayTo? relay).nextHop_ne_self near
        exact .inr ⟨near, .inl ⟨nextHop, rfl, if_neg moves⟩⟩

/-- The main server reaches nobody who is in no cluster. -/
theorem not_reaches_of_main (led : view.Led) (other : peer ≠ view.self)
    (main : view.self = view.mainServer) (unknown : peer ∉ view.members) :
    ¬ view.reaches peer = true := by
  rw [reaches_iff]
  rintro (leads | leads | ⟨_, serves⟩ | ⟨_, same⟩)
  · rw [(serverOf?_eq_none_iff led).mpr unknown] at leads
    contradiction
  · exact unknown (led.servers_subset (serves_of_serverOf? leads).mem_servers)
  · exact unknown (led.servers_subset serves)
  · exact other (same.trans main.symm)

/-- A node that has not joined yet reaches nobody. -/
theorem not_reaches_of_alone (client : view.self ∉ view.servers)
    (alone : view.serverOf? view.self = none) (away : view.self ≠ view.mainServer) :
    ¬ view.reaches peer = true := by
  rw [reaches_iff]
  rintro (leads | leads | ⟨main, _⟩ | ⟨serves, _⟩)
  · exact client (serves_of_serverOf? leads).mem_servers
  · rw [alone] at leads
    contradiction
  · exact away main
  · exact client serves

/-- Only the main server finds no route, and only to somebody who is in no cluster. -/
theorem plan_eq_noRoute_iff (led : view.Led) (other : peer ≠ view.self) :
    view.plan peer = .noRoute ↔ view.self = view.mainServer ∧ peer ∉ view.members := by
  rcases plan_cases other with ⟨near, planned⟩ | ⟨_, ⟨_, relay, planned⟩ | ⟨nowhere, planned⟩⟩
  · simp only [planned, reduceCtorEq, false_iff, not_and]
    intro main unknown
    exact not_reaches_of_main led other main unknown near
  · simp [planned, ← relayTo?_eq_none_iff led, relay]
  · simp only [planned, ← relayTo?_eq_none_iff led, nowhere]

/-- In a led view, a node that sends to somebody else finds no route exactly if it is the main
server and the destination is in no cluster.  Otherwise the packet leaves for another node.  A
packet for use leaves for its destination, and a packet that leaves for its destination is for
use, unless a node that leads no cluster and is in none sends to the main server. -/
theorem plan_complete (led : view.Led) (other : peer ≠ view.self) :
    (view.plan peer = .noRoute ↔ view.self = view.mainServer ∧ peer ∉ view.members) ∧
      (¬ (view.self = view.mainServer ∧ peer ∉ view.members) →
        ∃ route nextHop, view.plan peer = .send route nextHop ∧ nextHop ≠ view.self ∧
          (route = .use → nextHop = peer) ∧
          (nextHop = peer → (route = .use ↔
            ¬ (view.self ∉ view.servers ∧ view.self ∉ view.members ∧
              peer = view.mainServer)))) := by
  refine ⟨plan_eq_noRoute_iff led other, ?_⟩
  rw [← plan_eq_noRoute_iff led other]
  intro routed
  rcases plan_cases other with ⟨near, planned⟩ | ⟨far, ⟨nextHop, relay, planned⟩ | ⟨_, planned⟩⟩
  · refine ⟨.use, peer, planned, other, fun _ => rfl, fun _ => ?_⟩
    rw [eq_self, true_iff]
    rintro ⟨client, outside, same⟩
    exact not_reaches_of_alone client ((serverOf?_eq_none_iff led).mpr outside)
      (same ▸ other.symm) near
  · have detour := detour_of_relayTo? relay
    refine ⟨_, nextHop, planned, detour.nextHop_ne_self far, ?_, ?_⟩
    · intro final
      exact absurd final routeTo_ne_use
    · rintro rfl
      obtain ⟨client, alone, same⟩ := detour.alone_of_nextHop_eq far
      simp only [routeTo_ne_use, false_iff, not_not]
      exact ⟨client, (serverOf?_eq_none_iff led).mp alone, same⟩
  · exact absurd planned routed

/-- A client in two clusters sends to the server of the second by way of the server of the
first, where it is found. -/
theorem plan_complete_twoHomes :
    let view : View :=
      ⟨⟨[[numbered 1, numbered 2], [numbered 2, numbered 3], [numbered 4, numbered 3]],
        [numbered 1, numbered 2, numbered 4]⟩, numbered 3, numbered 1, 0⟩
    view.Led ∧ numbered 4 ≠ view.self ∧
      ¬ (view.self = view.mainServer ∧ numbered 4 ∉ view.members) ∧
      view.plan (numbered 4) = .send .otherCluster (numbered 2) ∧ numbered 2 ≠ view.self ∧
      (numbered 2 = numbered 4 → (Route.otherCluster = .use ↔
        ¬ (view.self ∉ view.servers ∧ view.self ∉ view.members ∧
          numbered 4 = view.mainServer))) := by
  intro view
  have led : view.Led := Roster.led_iff_check.mpr (by decide +kernel)
  have other : numbered 4 ≠ view.self := by decide +kernel
  have routed : ¬ (view.self = view.mainServer ∧ numbered 4 ∉ view.members) := by decide +kernel
  have evaluated : view.plan (numbered 4) = .send .otherCluster (numbered 2) := by decide +kernel
  obtain ⟨route, nextHop, planned, away, _, ends⟩ := (plan_complete led other).2 routed
  cases planned.symm.trans evaluated
  exact ⟨led, other, routed, evaluated, away, ends⟩

end View

end ClusterOverlay
