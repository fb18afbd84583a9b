import ClusterOverlay.Proofs.Membership.MainServer
import ClusterOverlay.Proofs.Routing.Relays

/-!
# Chains of relays

A packet may be relayed several times on its way, and no two nodes need agree
on who is where.  What they agree on is the name of the main server, and the
main server's own view is one that it attains.  The *rank* of a packet at a
node depends on its route and on whether the node is the main server, and every
relay lowers it, whatever the other views are.  `Chain.no_loop` says what
follows: no chain of relays is longer than three.
-/

namespace ClusterOverlay

/-- A node under the given main server may have the view. -/
structure View.Under (mainServer : Peer) (view : View) : Prop where
  mainServerEq : view.mainServer = mainServer
  attained : view.self = mainServer → ∃ history, Attained mainServer history view

/-- One relay: a packet that reached a node left it again. -/
structure Relay where
  node : Peer
  received : Bytes
  nextHop : Peer
  sent : Bytes
  deriving DecidableEq, Repr

/-- A packet at a node is relayed again and again.  Each node on the way
consults the view and plays the role that it has at that moment. -/
inductive Chain (mainServer : Peer) : Peer → Bytes → List Relay → Prop
  | nil (node : Peer) (raw : Bytes) : Chain mainServer node raw []
  | cons {view : View} {role : Role} {raw sent : Bytes} {nextHop : Peer} {later : List Relay}
      (under : view.Under mainServer) (relayed : (nextHop, sent) ∈ view.relays role raw)
      (rest : Chain mainServer nextHop sent later) :
      Chain mainServer view.self raw (⟨view.self, raw, nextHop, sent⟩ :: later)

/-! ## Ranks -/

/-- How often a packet at a node may still be relayed. -/
def Packet.rank (packet : Packet) (mainServer node : Peer) : Nat :=
  match packet.route with
  | .use => 0
  | .clusterServer => 0
  | .sameCluster => if node = mainServer then 2 else 1
  | .otherCluster => if node = mainServer then 2 else 3

theorem Packet.rank_le_three (packet : Packet) (mainServer node : Peer) :
    packet.rank mainServer node ≤ 3 := by
  unfold rank
  split
  · decide
  · decide
  · split <;> decide
  · split <;> decide

theorem Packet.Routed.rank_pos {packet : Packet} (routed : packet.Routed)
    (mainServer node : Peer) : 0 < packet.rank mainServer node := by
  rcases routed with route | route
  · simp only [rank, route]
    split <;> decide
  · simp only [rank, route]
    split <;> decide

namespace View.Passes

variable {mainServer nextHop : Peer} {view : View} {packet : Packet} {route : Route}

/-- No node relays to itself.  For the main server this depends on what holds
of the views that it attains: whoever it leads is one of its own, and is handed
the packet for use. -/
theorem ne_self (passes : view.Passes packet nextHop route) (under : view.Under mainServer) :
    nextHop ≠ view.self := by
  cases passes with
  | down _ peerMem =>
      rintro rfl
      exact view.self_notMem_clusterPeers peerMem
  | across _ main other foreign leads =>
      rintro rfl
      rcases under.attained (main.trans under.mainServerEq) with ⟨history, attained⟩
      rcases eq_self_or_mem_clusterPeers attained.presides.toSound leads with own | own
      · exact other own
      · exact foreign own
  | up _ away => exact away.symm

/-- Every relay lowers the rank. -/
theorem rank_lt (passes : view.Passes packet nextHop route) (under : view.Under mainServer) :
    { packet with route }.rank mainServer nextHop < packet.rank mainServer view.self := by
  have moved := passes.ne_self under
  have agreed := under.mainServerEq
  cases passes with
  | down routed _ => exact routed.rank_pos mainServer view.self
  | across routed main _ _ _ =>
      have atMain : view.self = mainServer := main.trans agreed
      have former : packet.rank mainServer view.self = 2 := by
        rcases routed with route | route <;> simp [Packet.rank, route, atMain]
      have latter : { packet with route := .sameCluster }.rank mainServer nextHop = 1 :=
        if_neg (atMain ▸ moved)
      rw [former, latter]
      decide
  | up crossing away =>
      have former : packet.rank mainServer view.self = 3 := by
        simp [Packet.rank, crossing, agreed ▸ away]
      have latter : { packet with route := .otherCluster }.rank mainServer view.mainServer = 2 :=
        if_pos agreed
      rw [former, latter]
      decide

/-- Away from the main server, what came for the node's own cluster leaves for
use. -/
theorem route_eq_use (passes : view.Passes packet nextHop route)
    (inside : packet.route = .sameCluster) (away : view.self ≠ view.mainServer) :
    route = .use := by
  cases passes with
  | down => rfl
  | across _ main _ _ _ => exact absurd main away
  | up crossing _ => rw [inside] at crossing; contradiction

end View.Passes

/-! ## Chains -/

namespace Chain

open Peer (numbered)

variable {mainServer node : Peer} {raw : Bytes} {relays : List Relay}

/-- A chain is no longer than the rank of the packet that it starts with. -/
theorem length_le_rank (chain : Chain mainServer node raw relays) {packet : Packet}
    (decoded : Packet.decode raw = .ok packet) :
    relays.length ≤ packet.rank mainServer node := by
  induction chain generalizing packet with
  | nil => exact Nat.zero_le _
  | cons under relayed _ inductionHypothesis =>
      obtain ⟨received, route, receivedEq, sentEq, passes⟩ :=
        View.exists_passes_of_mem_relays relayed
      rw [decoded, Except.ok.injEq] at receivedEq
      subst receivedEq
      have later := inductionHypothesis sentEq
      have lower := passes.rank_lt under
      exact Nat.succ_le_of_lt (Nat.lt_of_le_of_lt later lower)

theorem length_le_three (chain : Chain mainServer node raw relays) : relays.length ≤ 3 := by
  cases decoded : Packet.decode raw with
  | ok packet =>
      exact Nat.le_trans (chain.length_le_rank decoded) (packet.rank_le_three mainServer node)
  | error cause =>
      cases chain with
      | nil => exact Nat.zero_le _
      | cons _ relayed _ => simp [View.relays, decoded] at relayed

/-- No chain of relays is longer than three, whatever the nodes away from the
main server believe.  No node relays to itself, packets for use and for a
server are not relayed, and away from the main server a packet for the node's
own cluster leaves for use. -/
theorem no_loop (chain : Chain mainServer node raw relays) :
    relays.length ≤ 3 ∧ ∀ relay ∈ relays, relay.nextHop ≠ relay.node ∧
      ∃ packet route, Packet.decode relay.received = .ok packet ∧
        Packet.decode relay.sent = .ok { packet with route } ∧
        packet.route ≠ .use ∧ packet.route ≠ .clusterServer ∧
        (packet.route = .sameCluster → relay.node ≠ mainServer → route = .use) := by
  refine ⟨chain.length_le_three, ?_⟩
  induction chain with
  | nil => simp
  | @cons view _ _ _ _ _ under relayed _ inductionHypothesis =>
      intro relay relayMem
      rcases List.mem_cons.mp relayMem with rfl | relayMem
      · obtain ⟨packet, route, receivedEq, sentEq, passes⟩ :=
          View.exists_passes_of_mem_relays relayed
        refine ⟨passes.ne_self under, packet, route, receivedEq, sentEq, ?_, ?_, ?_⟩
        · rcases passes.routed with routed | routed <;> simp [routed]
        · rcases passes.routed with routed | routed <;> simp [routed]
        · intro inside away
          exact passes.route_eq_use inside (under.mainServerEq.symm ▸ away)
      · exact inductionHypothesis relay relayMem

/-- A chain of three: a packet from below goes up to the main server, across to
the server of its destination, and down. -/
theorem no_loop_upAcrossDown :
    ∃ raw relays, Chain (numbered 1) (numbered 3) raw relays ∧
      relays.map Relay.nextHop = [numbered 1, numbered 2, numbered 10] ∧
      (relays.length ≤ 3 ∧ ∀ relay ∈ relays, relay.nextHop ≠ relay.node ∧
        ∃ packet route, Packet.decode relay.received = .ok packet ∧
          Packet.decode relay.sent = .ok { packet with route } ∧
          packet.route ≠ .use ∧ packet.route ≠ .clusterServer ∧
          (packet.route = .sameCluster → relay.node ≠ numbered 1 → route = .use)) := by
  let packet : Packet :=
    ⟨.otherCluster, 0, .chat, .data, false, ⟨⟨10, 0, 0, 10⟩, 9000⟩, 0, 0, 1, []⟩
  let lower : View := ⟨⟨[], []⟩, numbered 3, numbered 1, 0⟩
  let upper : View := ([2, 3, 4, 5, 6, 7, 8, 9, 10].map numbered).foldl
    (fun view sender => (view.react .mainServer (.hello sender)).view)
    (.initial (numbered 1) (numbered 1))
  let target : View := ⟨⟨[[numbered 2, numbered 10]], [numbered 2]⟩, numbered 2, numbered 1, 0⟩
  have attained : View.Attained (numbered 1) _ upper := View.Attained.start.hellos _
  have upperEq : upper.self = numbered 1 := attained.presides.selfEq
  have up : (upper.self, packet.encode) ∈ lower.relays .clusterServer packet.encode := by
    decide +kernel
  have across : (target.self, { packet with route := .sameCluster }.encode) ∈
      upper.relays .mainServer packet.encode := by
    decide +kernel
  have down : (numbered 10, { packet with route := .use }.encode) ∈
      target.relays .clusterServer { packet with route := .sameCluster }.encode := by
    decide +kernel
  have lowerUnder : lower.Under (numbered 1) := ⟨rfl, fun own => absurd own (by decide)⟩
  have upperUnder : upper.Under (numbered 1) :=
    ⟨attained.presides.mainServerEq, fun _ => ⟨_, attained⟩⟩
  have targetUnder : target.Under (numbered 1) := ⟨rfl, fun own => absurd own (by decide)⟩
  have chain := Chain.cons lowerUnder up
    (.cons upperUnder across (.cons targetUnder down (.nil _ _)))
  refine ⟨_, _, chain, ?_, chain.no_loop⟩
  simp [upperEq, target]

end Chain

end ClusterOverlay
