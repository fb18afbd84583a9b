import ClusterOverlay.Proofs.Membership.MainServer
import ClusterOverlay.Proofs.Outbox
import ClusterOverlay.Proofs.Routing.Relays
import ClusterOverlay.Station

/-!
# Broadcasts

A broadcast goes to the members of the sender's cluster and to the servers of the others,
each of whom takes it in and hands it on to the members of its own cluster.  The nodes
that it comes to are computed from several views, of which none lists them all.  Where
everybody holds one roster, they are the other members, each once:
`Roster.mem_audience_iff` and `Roster.nodup_audience`.  Nothing is relayed twice, so that
all that is under way can be delivered, `Drains.exists_of_shallow`, and the order makes no
difference to what arrives, `Drains.perm`.  `Broadcast.reaches_all` puts this together.
What is under way at first is what `Broadcast.exists_waiting_broadcast_perm` says.
-/

namespace ClusterOverlay

open Peer (numbered)

/-! ## Copies under way -/

/-- The packets that leave a node because of a copy that arrives there. -/
def onward (views : Peer → View) (copy : Peer × Bytes) : List (Peer × Bytes) :=
  (views copy.1).relays (views copy.1).role copy.2

/-- The packet that a node takes in because of a copy that arrives there. -/
def intake? (views : Peer → View) (copy : Peer × Bytes) : Option Packet :=
  (views copy.1).accepts? (views copy.1).role copy.2

/-- Copies are under way, each to a node.  They arrive in any order, and what leaves a
node because of one joins the others, until none is left.  The second list tells which
copies have arrived. -/
inductive Drains (views : Peer → View) : List (Peer × Bytes) → List (Peer × Bytes) → Prop
  | done : Drains views [] []
  | arrives {former latter arrived : List (Peer × Bytes)} {copy : Peer × Bytes}
      (rest : Drains views (former ++ latter ++ onward views copy) arrived) :
      Drains views (former ++ copy :: latter) (copy :: arrived)

/-- What one node takes in of the copies that arrive. -/
def taken (views : Peer → View) (node : Peer) (arrived : List (Peer × Bytes)) : List Packet :=
  arrived.filterMap fun copy => if copy.1 = node then intake? views copy else none

/-- What leaves a node because of one of the copies makes nothing leave any node. -/
def Shallow (views : Peer → View) (copies : List (Peer × Bytes)) : Prop :=
  ∀ copy ∈ copies, ∀ sent ∈ onward views copy, onward views sent = []

namespace Drains

variable {views : Peer → View} {copies arrived : List (Peer × Bytes)}

/-- A copy, and what leaves its node because of it. -/
def cascade (views : Peer → View) (copy : Peer × Bytes) : List (Peer × Bytes) :=
  copy :: onward views copy

theorem shallow_of_arrives {former latter : List (Peer × Bytes)} {copy : Peer × Bytes}
    (shallow : Shallow views (former ++ copy :: latter)) :
    Shallow views (former ++ latter ++ onward views copy) := by
  intro other otherMem
  rcases List.mem_append.mp otherMem with waiting | sent
  · apply shallow other
    rw [List.mem_append] at waiting
    simpa [List.mem_append, List.mem_cons] using waiting.imp_right .inr
  · rw [shallow copy (by simp) other sent]
    exact fun _ none => absurd none List.not_mem_nil

/-- What leaves for good arrives and has no further effect. -/
theorem flatMap_cascade_onward {former latter : List (Peer × Bytes)} {copy : Peer × Bytes}
    (shallow : Shallow views (former ++ copy :: latter)) :
    (onward views copy).flatMap (cascade views) = onward views copy := by
  have only : ∀ sent ∈ onward views copy, cascade views sent = [sent] := by
    intro sent sentMem
    rw [cascade, shallow copy (by simp) sent sentMem]
  rw [List.flatMap_congr only, List.flatMap_singleton']

/-- In whatever order copies arrive, if nothing is relayed twice, they and what they cause
are what arrives. -/
theorem perm (drains : Drains views copies arrived) (shallow : Shallow views copies) :
    arrived.Perm (copies.flatMap (cascade views)) := by
  induction drains with
  | done => exact List.Perm.refl _
  | @arrives former latter arrived copy _ inductionHypothesis =>
      have rest := inductionHypothesis (shallow_of_arrives shallow)
      rw [List.flatMap_append, List.flatMap_append, flatMap_cascade_onward shallow] at rest
      rw [List.flatMap_append, List.flatMap_cons]
      refine (rest.cons copy).trans ?_
      rw [cascade, List.perm_iff_count]
      intro other
      simp only [List.count_append, List.count_cons, List.cons_append]
      omega

/-- If nothing is relayed twice, everything can be delivered. -/
theorem exists_of_shallow (shallow : Shallow views copies) :
    ∃ arrived, Drains views copies arrived := by
  generalize sizeEq : (copies.flatMap (cascade views)).length = size
  induction size generalizing copies with
  | zero =>
      cases copies with
      | nil => exact ⟨[], .done⟩
      | cons copy latter => simp [cascade] at sizeEq
  | succ size inductionHypothesis =>
      cases copies with
      | nil => exact ⟨[], .done⟩
      | cons copy latter =>
          have kept : Shallow views ([] ++ copy :: latter) := shallow
          have smaller :
              (([] ++ latter ++ onward views copy).flatMap (cascade views)).length = size := by
            rw [List.nil_append, List.flatMap_append, flatMap_cascade_onward kept]
            rw [List.flatMap_cons, cascade] at sizeEq
            simp only [List.length_append, List.length_cons] at sizeEq ⊢
            omega
          obtain ⟨arrived, rest⟩ := inductionHypothesis (shallow_of_arrives kept) smaller
          exact ⟨copy :: arrived, .arrives rest⟩

end Drains

/-! ## Copies of a broadcast -/

namespace Packet

theorem of_mem_fragments {packet fragment : Packet} {limit : Nat} {messageId : UInt32}
    (fragmentMem : fragment ∈ packet.fragments limit messageId) :
    fragment.route = packet.route ∧ fragment.broadcast = packet.broadcast := by
  obtain ⟨index, bound, rfl⟩ := List.mem_mapIdx.mp fragmentMem
  exact ⟨rfl, rfl⟩

/-- It is all the same whether a packet is cut or gets another route first. -/
theorem map_fragments_with_route (packet : Packet) (limit : Nat) (messageId : UInt32)
    (route : Route) :
    (packet.fragments limit messageId).map (fun fragment => { fragment with route }) =
      { packet with route }.fragments limit messageId := by
  simp only [fragments, List.mapIdx_eq_zipIdx_map, List.map_map]
  rfl

end Packet

namespace View

/-- A packet for use is taken in wherever it comes to, and goes nowhere else. -/
theorem accepts?_of_use (view : View) (role : Role) {packet : Packet}
    (use : packet.route = .use) :
    view.accepts? role packet.encode = some packet ∧ view.relays role packet.encode = [] := by
  have handled : view.handle role packet = .accept := by
    unfold handle
    rw [use]
  simp only [accepts?, relays, Packet.decode_encode, handled, and_self]

/-- A server takes in a broadcast from another cluster, and hands it on to every member of
its own. -/
theorem accepts?_of_broadcast (view : View) {role : Role} {packet : Packet}
    (crossing : packet.route = .otherCluster) (flagged : packet.broadcast = true)
    (serves : role ≠ .client) :
    view.accepts? role packet.encode = some packet ∧
      view.relays role packet.encode =
        view.clusterPeers.map (·, { packet with route := .use }.encode) := by
  have handled : view.handle role packet = .spread view.clusterPeers := by
    rw [handle_of_routed (.inr crossing) serves, if_pos ⟨crossing, flagged⟩]
  simp only [accepts?, relays, Packet.decode_encode, handled, Packet.rewrite?,
    Packet.retarget_encode, Except.toOption, Option.toList_some, List.map_cons, List.map_nil,
    true_and]
  exact List.map_eq_flatMap.symm

/-- The servers of the other clusters. -/
def farServers (view : View) : List Peer :=
  view.servers.filter fun server =>
    server ≠ view.self && some server ≠ view.serverOf? view.self

theorem broadcastTargets_eq (view : View) :
    view.broadcastTargets =
      view.farServers.map (·, .otherCluster) ++ view.clusterPeers.map (·, .use) :=
  rfl

theorem mem_farServers_iff {view : View} (sound : view.Sound) {server : Peer} :
    server ∈ view.farServers ↔ server ∈ view.servers ∧ ¬ view.Together view.self server := by
  simp only [farServers, List.mem_filter, Bool.and_eq_true, decide_eq_true_eq, ne_eq]
  refine and_congr_right fun leads => ?_
  have own := sound.serves_self leads
  constructor
  · rintro ⟨_, foreign⟩ together
    have serves := own.of_together sound.distinct together.symm
    exact foreign ((serverOf?_eq_some_iff sound.distinct).mpr serves).symm
  · intro apart
    constructor
    · rintro rfl
      exact apart (sound.together own)
    · intro leader
      have serves := (serverOf?_eq_some_iff sound.distinct).mp leader.symm
      exact apart (sound.together serves).symm

/-- Nobody is a target twice. -/
theorem nodup_broadcastTargets {view : View} (sound : view.Sound) :
    (view.broadcastTargets.map Prod.fst).Nodup := by
  rw [broadcastTargets_eq, List.map_append, List.map_map, List.map_map]
  simp only [Function.comp_def, List.map_id']
  rw [List.nodup_append]
  refine ⟨sound.nodup_servers.filter _, nodup_clusterPeers sound.distinct, ?_⟩
  rintro server far _ near rfl
  exact ((mem_farServers_iff sound).mp far).2 ((mem_clusterPeers_iff sound.distinct).mp near).2

end View

/-! ## The audience -/

/-- The nodes that a copy for a target comes to, each with the route that it has there. -/
def reach (views : Peer → View) (target : Peer × Route) : List (Peer × Route) :=
  target ::
    if target.2 = .otherCluster then (views target.1).clusterPeers.map (·, .use) else []

/-- The nodes that a broadcast comes to. -/
def audience (views : Peer → View) (source : Peer) : List Peer :=
  (views source).broadcastTargets.flatMap fun target => (reach views target).map Prod.fst

theorem audience_eq (views : Peer → View) (source : Peer) :
    audience views source =
      (views source).farServers.flatMap (fun server => server :: (views server).clusterPeers) ++
        (views source).clusterPeers := by
  simp only [audience, View.broadcastTargets_eq, List.flatMap_append, List.flatMap_map, reach,
    if_true, List.map_cons, List.map_map, Function.comp_def, List.map_id', reduceCtorEq, if_false,
    List.map_nil, List.flatMap_singleton']

namespace Roster

variable {roster : Roster} {mainServer source : Peer} {cursor : Peer → Nat}

theorem mem_clusterPeers_held_iff (sound : roster.Sound) {node peer : Peer} :
    peer ∈ (roster.held mainServer cursor node).clusterPeers ↔
      peer ≠ node ∧ roster.Together node peer :=
  View.mem_clusterPeers_iff (sound.distinct : (roster.held mainServer cursor node).members.Nodup)

theorem mem_farServers_held_iff (sound : roster.Sound) {server : Peer} :
    server ∈ (roster.held mainServer cursor source).farServers ↔
      server ∈ roster.servers ∧ ¬ roster.Together source server :=
  View.mem_farServers_iff (sound : (roster.held mainServer cursor source).Sound)

/-- A server and whom it hands a broadcast on to are the members of its cluster. -/
theorem mem_cons_clusterPeers_held_iff (sound : roster.Sound) {server peer : Peer}
    (leads : server ∈ roster.servers) :
    peer ∈ server :: (roster.held mainServer cursor server).clusterPeers ↔
      roster.Together server peer := by
  rw [List.mem_cons, mem_clusterPeers_held_iff sound]
  constructor
  · rintro (rfl | ⟨_, together⟩)
    · exact sound.together (sound.serves_self leads)
    · exact together
  · intro together
    by_cases own : peer = server
    · exact .inl own
    · exact .inr ⟨own, together⟩

/-- A broadcast comes to the other members. -/
theorem mem_audience_iff (sound : roster.Sound) (member : source ∈ roster.members)
    {peer : Peer} :
    peer ∈ audience (roster.held mainServer cursor) source ↔
      peer ∈ roster.members ∧ peer ≠ source := by
  rw [audience_eq, List.mem_append, List.mem_flatMap, mem_clusterPeers_held_iff sound]
  constructor
  · rintro (⟨server, far, near⟩ | ⟨other, together⟩)
    · obtain ⟨leads, apart⟩ := (mem_farServers_held_iff sound).mp far
      have together := (mem_cons_clusterPeers_held_iff sound leads).mp near
      refine ⟨together.symm.mem_members, ?_⟩
      rintro rfl
      exact apart together.symm
    · exact ⟨together.symm.mem_members, other⟩
  · rintro ⟨peerMem, other⟩
    by_cases near : roster.Together source peer
    · exact .inr ⟨other, near⟩
    · obtain ⟨server, serves⟩ := sound.exists_serves peerMem
      have together := sound.together serves
      refine .inl ⟨server, (mem_farServers_held_iff sound).mpr ⟨serves.mem_servers, ?_⟩,
        (mem_cons_clusterPeers_held_iff sound serves.mem_servers).mpr together⟩
      exact fun own => near (own.trans sound.distinct together)

/-- It comes to nobody twice. -/
theorem nodup_audience (sound : roster.Sound) :
    (audience (roster.held mainServer cursor) source).Nodup := by
  have distinct : ∀ node, (roster.held mainServer cursor node).clusterPeers.Nodup :=
    fun _ => View.nodup_clusterPeers sound.distinct
  rw [audience_eq, List.nodup_append]
  refine ⟨List.nodup_flatMap.mpr ⟨?_, ?_⟩, distinct source, ?_⟩
  · intro server _
    exact List.nodup_cons.mpr ⟨View.self_notMem_clusterPeers _, distinct server⟩
  · have servers : (roster.held mainServer cursor source).farServers.Nodup :=
      sound.nodup_servers.filter _
    refine servers.imp_of_mem fun firstMem secondMem apart => ?_
    intro peer inFirst inSecond
    have firstLeads := ((mem_farServers_held_iff sound).mp firstMem).1
    have secondLeads := ((mem_farServers_held_iff sound).mp secondMem).1
    have first := (mem_cons_clusterPeers_held_iff sound firstLeads).mp inFirst
    have second := (mem_cons_clusterPeers_held_iff sound secondLeads).mp inSecond
    exact apart (sound.eq_of_together firstLeads secondLeads
      (first.trans sound.distinct second.symm))
  · rintro peer far _ near rfl
    obtain ⟨server, serverFar, inside⟩ := List.mem_flatMap.mp far
    obtain ⟨leads, apart⟩ := (mem_farServers_held_iff sound).mp serverFar
    have first := (mem_cons_clusterPeers_held_iff sound leads).mp inside
    have second := ((mem_clusterPeers_held_iff sound).mp near).2
    exact apart (second.trans sound.distinct first.symm)

end Roster

/-! ## Arrivals of a broadcast -/

/-- A fragment as it comes to a place. -/
def Packet.goTo (fragment : Packet) (place : Peer × Route) : Peer × Bytes :=
  (place.1, { fragment with route := place.2 }.encode)

/-- What a node takes in of a fragment that comes to a place. -/
def Packet.comeTo? (fragment : Packet) (node : Peer) (place : Peer × Route) : Option Packet :=
  if place.1 = node then some { fragment with route := place.2 } else none

/-- A payload that is broadcast, with the address of each target and the id that the
message to it has. -/
structure Broadcast where
  payload : Bytes
  envelope : Envelope
  /-- Payload bytes in one fragment. -/
  limit : Nat
  endpoint : Peer → Endpoint
  messageId : Peer → UInt32

namespace Broadcast

/-- The fragments of the message to a target. -/
def fragments (broadcast : Broadcast) (target : Peer × Route) : List Packet :=
  (Outbox.packet broadcast.payload (broadcast.endpoint target.1) target.2
    broadcast.envelope.toAll).fragments broadcast.limit (broadcast.messageId target.1)

/-- The copies that are sent to some targets. -/
def copies (broadcast : Broadcast) (targets : List (Peer × Route)) : List (Peer × Bytes) :=
  targets.flatMap fun target =>
    (broadcast.fragments target).map fun fragment => (target.1, fragment.encode)

/-- What comes to a node of the messages to some targets. -/
def incoming (broadcast : Broadcast) (views : Peer → View) (node : Peer)
    (targets : List (Peer × Route)) : List Packet :=
  targets.flatMap fun target => (broadcast.fragments target).flatMap fun fragment =>
    (reach views target).filterMap (fragment.comeTo? node)

variable {broadcast : Broadcast} {roster : Roster} {mainServer source node : Peer}
variable {cursor : Peer → Nat} {target : Peer × Route} {fragment : Packet}

/-! ### What is sent -/

/-- One attempt after another for targets whose addresses are known puts the copies for
them into the schedule, and nothing else. -/
theorem exists_waiting_foldl_perm {endpoint : Peer → Endpoint} {targets : List (Peer × Route)}
    (room : Mailroom)
    (known : ∀ target ∈ targets, target.1.endpoint room.resolver = .ok (endpoint target.1))
    (distinct : (targets.map Prod.fst).Nodup) (report : SendReport) (now : Nat)
    (payload : Bytes) (envelope : Envelope) :
    ∃ messageId, (targets.foldl (fun progress (peer, route) =>
        Mailroom.attempt progress peer
          ((progress.2.sendDirect now payload peer route envelope.toAll).mapError .codec))
        (report, room)).2.outbox.schedule.waiting.Perm
      (room.outbox.schedule.waiting ++
        (copies ⟨payload, envelope, room.outbox.maxPayload, endpoint, messageId⟩ targets).map
          fun copy => ⟨copy.1, copy.2⟩) := by
  induction targets generalizing report room with
  | nil => exact ⟨fun _ => 0, by simp [copies]⟩
  | cons target targets inductionHypothesis =>
      rw [List.map_cons, List.nodup_cons] at distinct
      obtain ⟨outbox, sent, limitEq, _, added⟩ := Mailroom.exists_sendDirect_eq
        (known target List.mem_cons_self) now payload target.2 envelope.toAll
      obtain ⟨messageId, rest⟩ := inductionHypothesis { room with outbox }
        (fun other otherMem => known other (List.mem_cons_of_mem _ otherMem)) distinct.2
        (report.record target.1 (.ok ()))
      let ids := Function.update messageId target.1 room.outbox.nextId
      have copiesEq : copies ⟨payload, envelope, room.outbox.maxPayload, endpoint, ids⟩
          (target :: targets) =
            ((Outbox.packet payload (endpoint target.1) target.2 envelope.toAll).fragments
              room.outbox.maxPayload room.outbox.nextId).map (target.1, ·.encode) ++
            copies ⟨payload, envelope, room.outbox.maxPayload, endpoint, messageId⟩ targets := by
        rw [copies, List.flatMap_cons]
        congr 1
        · simp only [fragments, ids, Function.update_self]
        · refine List.flatMap_congr fun other otherMem => ?_
          have different : other.1 ≠ target.1 :=
            fun same => distinct.1 (same ▸ List.mem_map_of_mem otherMem)
          simp only [fragments, ids, Function.update_of_ne different]
      refine ⟨ids, ?_⟩
      rw [List.foldl_cons, copiesEq, List.map_append, List.map_map, ← List.append_assoc]
      simp only [sent, Except.mapError, Mailroom.attempt]
      rw [← limitEq]
      exact rest.trans (limitEq ▸ added.append_right _)

/-- What a broadcast puts into the schedule are the copies for the targets in the view. -/
theorem exists_waiting_broadcast_perm {room : Mailroom} (sound : room.view.Sound)
    {endpoint : Peer → Endpoint}
    (known : ∀ target ∈ room.view.broadcastTargets,
      target.1.endpoint room.resolver = .ok (endpoint target.1))
    (now : Nat) (payload : Bytes) (envelope : Envelope) :
    ∃ messageId, (room.broadcast now payload envelope).2.outbox.schedule.waiting.Perm
      (room.outbox.schedule.waiting ++
        (copies ⟨payload, envelope, room.outbox.maxPayload, endpoint, messageId⟩
          room.view.broadcastTargets).map fun copy => ⟨copy.1, copy.2⟩) :=
  exists_waiting_foldl_perm room known (View.nodup_broadcastTargets sound) {} now payload envelope

/-- A copy comes to the places in reach of its target, and is taken in at each of them. -/
theorem cascade_copy (sound : roster.Sound)
    (targetMem : target ∈ (roster.held mainServer cursor source).broadcastTargets)
    (fragmentMem : fragment ∈ broadcast.fragments target) :
    Drains.cascade (roster.held mainServer cursor) (target.1, fragment.encode) =
        (reach (roster.held mainServer cursor) target).map fragment.goTo ∧
      ∀ place ∈ reach (roster.held mainServer cursor) target,
        intake? (roster.held mainServer cursor) (fragment.goTo place) =
          some { fragment with route := place.2 } := by
  obtain ⟨routeEq, flagged⟩ := Packet.of_mem_fragments fragmentMem
  change fragment.route = target.2 at routeEq
  have own : { fragment with route := target.2 } = fragment := by rw [← routeEq]
  have kept : ∀ peer, intake? (roster.held mainServer cursor) (fragment.goTo (peer, .use)) =
      some { fragment with route := .use } :=
    fun peer => (View.accepts?_of_use _ _ rfl).1
  rw [View.broadcastTargets_eq, List.mem_append, List.mem_map, List.mem_map] at targetMem
  rcases targetMem with ⟨server, far, rfl⟩ | ⟨peer, _, rfl⟩
  · have leads := ((Roster.mem_farServers_held_iff sound).mp far).1
    obtain ⟨accepted, relayed⟩ := View.accepts?_of_broadcast
      (roster.held mainServer cursor server) routeEq flagged
      (@View.role_ne_client (roster.held mainServer cursor server) leads)
    constructor
    · rw [Drains.cascade, onward, relayed, reach, if_pos rfl, List.map_cons, List.map_map,
        Packet.goTo, own]
      rfl
    · intro place placeMem
      rw [reach, if_pos rfl, List.mem_cons, List.mem_map] at placeMem
      rcases placeMem with rfl | ⟨peer, _, rfl⟩
      · rw [Packet.goTo, own]
        exact accepted
      · exact kept peer
  · obtain ⟨accepted, relayed⟩ := View.accepts?_of_use (roster.held mainServer cursor peer)
      (roster.held mainServer cursor peer).role routeEq
    constructor
    · rw [Drains.cascade, onward, relayed, reach, if_neg (by simp), List.map_singleton,
        Packet.goTo, own]
    · intro place placeMem
      rw [reach, if_neg (by simp), List.mem_singleton] at placeMem
      rw [placeMem]
      exact kept peer

/-- Nothing is relayed twice: what servers hand on is for use. -/
theorem shallow_copies (sound : roster.Sound) :
    Shallow (roster.held mainServer cursor)
      (broadcast.copies (roster.held mainServer cursor source).broadcastTargets) := by
  intro copy copyMem sent sentMem
  obtain ⟨target, targetMem, copyMem⟩ := List.mem_flatMap.mp copyMem
  obtain ⟨fragment, fragmentMem, rfl⟩ := List.mem_map.mp copyMem
  have cascade := (cascade_copy sound targetMem fragmentMem).1
  rw [Drains.cascade, reach, List.map_cons, List.cons.injEq] at cascade
  rw [cascade.2] at sentMem
  obtain ⟨place, placeMem, rfl⟩ := List.mem_map.mp sentMem
  split at placeMem
  · obtain ⟨peer, _, rfl⟩ := List.mem_map.mp placeMem
    exact (View.accepts?_of_use _ _ rfl).2
  · contradiction

/-- In whatever order the copies arrive, they come to the places in reach of their
targets. -/
theorem arrived_perm (sound : roster.Sound) {arrived : List (Peer × Bytes)}
    (drains : Drains (roster.held mainServer cursor)
      (broadcast.copies (roster.held mainServer cursor source).broadcastTargets) arrived) :
    arrived.Perm ((roster.held mainServer cursor source).broadcastTargets.flatMap fun target =>
      (broadcast.fragments target).flatMap fun fragment =>
        (reach (roster.held mainServer cursor) target).map fragment.goTo) := by
  have cascades := drains.perm (shallow_copies sound)
  rw [copies, List.flatMap_assoc] at cascades
  rw [← List.flatMap_congr fun target targetMem => ?_]
  · exact cascades
  · rw [List.flatMap_map]
    exact List.flatMap_congr fun fragment fragmentMem =>
      (cascade_copy sound targetMem fragmentMem).1

/-- What a node takes in of them is what comes to it. -/
theorem taken_perm (sound : roster.Sound) {arrived : List (Peer × Bytes)}
    (drains : Drains (roster.held mainServer cursor)
      (broadcast.copies (roster.held mainServer cursor source).broadcastTargets) arrived)
    (node : Peer) :
    (taken (roster.held mainServer cursor) node arrived).Perm
      (broadcast.incoming (roster.held mainServer cursor) node
        (roster.held mainServer cursor source).broadcastTargets) := by
  refine ((arrived_perm sound drains).filterMap _).trans (List.Perm.of_eq ?_)
  rw [incoming, List.filterMap_flatMap]
  refine List.flatMap_congr fun target targetMem => ?_
  rw [List.filterMap_flatMap]
  refine List.flatMap_congr fun fragment fragmentMem => ?_
  rw [List.filterMap_map]
  refine List.filterMap_congr fun place placeMem => ?_
  have taken := (cascade_copy sound targetMem fragmentMem).2 place placeMem
  simp only [Function.comp_apply, Packet.comeTo?, taken]
  rfl

/-! ### One copy for everybody -/

theorem filterMap_comeTo?_of_notMem {places : List (Peer × Route)}
    (absent : node ∉ places.map Prod.fst) (fragment : Packet) :
    places.filterMap (fragment.comeTo? node) = [] := by
  rw [List.filterMap_eq_nil_iff]
  rintro place placeMem
  rw [Packet.comeTo?, if_neg]
  rintro rfl
  exact absent (List.mem_map_of_mem placeMem)

/-- Where no node has two places, a fragment comes to a node once. -/
theorem filterMap_comeTo?_of_mem {places : List (Peer × Route)} {route : Route}
    (distinct : (places.map Prod.fst).Nodup) (placeMem : (node, route) ∈ places)
    (fragment : Packet) :
    places.filterMap (fragment.comeTo? node) = [{ fragment with route }] := by
  obtain ⟨former, latter, rfl⟩ := List.append_of_mem placeMem
  rw [List.map_append, List.map_cons, List.nodup_middle, List.nodup_cons, List.mem_append,
    not_or] at distinct
  rw [List.filterMap_append, List.filterMap_cons, filterMap_comeTo?_of_notMem distinct.1.1,
    filterMap_comeTo?_of_notMem distinct.1.2, Packet.comeTo?, if_pos rfl]
  rfl

/-- Nothing comes to a node that is in reach of none of the targets. -/
theorem incoming_eq_nil {views : Peer → View} {targets : List (Peer × Route)}
    (absent : node ∉ targets.flatMap fun target => (reach views target).map Prod.fst) :
    broadcast.incoming views node targets = [] := by
  rw [incoming, List.flatMap_eq_nil_iff]
  intro target targetMem
  rw [List.flatMap_eq_nil_iff]
  intro fragment _
  apply filterMap_comeTo?_of_notMem
  intro inside
  exact absent (List.mem_flatMap.mpr ⟨target, targetMem, inside⟩)

/-- If no node has two places in reach, the fragments of one message that is sent come to
each of those that have one. -/
theorem exists_incoming_eq {views : Peer → View} {targets : List (Peer × Route)}
    (distinct : (targets.flatMap fun target => (reach views target).map Prod.fst).Nodup)
    (present : node ∈ targets.flatMap fun target => (reach views target).map Prod.fst) :
    ∃ target ∈ targets, ∃ route,
      broadcast.incoming views node targets = broadcast.fragments (target.1, route) := by
  obtain ⟨target, targetMem, inReach⟩ := List.mem_flatMap.mp present
  obtain ⟨route, placeMem⟩ : ∃ route, (node, route) ∈ reach views target := by
    simpa using inReach
  obtain ⟨former, latter, targetsEq⟩ := List.append_of_mem targetMem
  rw [targetsEq, List.flatMap_append, List.flatMap_cons, List.nodup_append,
    List.nodup_append] at distinct
  obtain ⟨_, ⟨once, _, laterApart⟩, formerApart⟩ := distinct
  have before : broadcast.incoming views node former = [] :=
    incoming_eq_nil fun inside => formerApart _ inside _ (List.mem_append_left _ inReach) rfl
  have after : broadcast.incoming views node latter = [] :=
    incoming_eq_nil fun inside => laterApart _ inReach _ inside rfl
  have own : (broadcast.fragments target).flatMap (fun fragment =>
      (reach views target).filterMap (fragment.comeTo? node)) =
        broadcast.fragments (target.1, route) := by
    simp only [filterMap_comeTo?_of_mem once placeMem, ← List.map_eq_flatMap]
    exact Packet.map_fragments_with_route _ _ _ route
  refine ⟨target, targetMem, route, ?_⟩
  rw [incoming] at before after ⊢
  rw [targetsEq, List.flatMap_append, List.flatMap_cons, before, after, List.nil_append,
    List.append_nil]
  exact own

/-- Wherever the main server's view leads, if all members hold its roster, a broadcast of
one of them can be delivered together with all that is relayed because of it.  In whatever
order that is done, nobody drops a copy, the sender takes in nothing, and every other
member takes in the fragments of one of the messages that the sender sends, each once. -/
theorem reaches_all {history : List Notice} {main : View}
    (attained : View.Attained mainServer history main) (member : source ∈ main.members)
    (broadcast : Broadcast) (cursor : Peer → Nat) :
    let views := main.held mainServer cursor
    (∃ arrived, Drains views (broadcast.copies (views source).broadcastTargets) arrived) ∧
    ∀ arrived, Drains views (broadcast.copies (views source).broadcastTargets) arrived →
      (∀ copy ∈ arrived, (intake? views copy).isSome) ∧
      taken views source arrived = [] ∧
      ∀ node ∈ main.members, node ≠ source →
        ∃ target ∈ (views source).broadcastTargets, ∃ route,
          (taken views node arrived).Perm (broadcast.fragments (target.1, route)) := by
  intro views
  have sound : main.Sound := attained.presides.toSound
  refine ⟨Drains.exists_of_shallow (shallow_copies sound), ?_⟩
  intro arrived drains
  refine ⟨?_, ?_, ?_⟩
  · intro copy copyMem
    rw [(arrived_perm sound drains).mem_iff] at copyMem
    obtain ⟨target, targetMem, copyMem⟩ := List.mem_flatMap.mp copyMem
    obtain ⟨fragment, fragmentMem, copyMem⟩ := List.mem_flatMap.mp copyMem
    obtain ⟨place, placeMem, rfl⟩ := List.mem_map.mp copyMem
    rw [(cascade_copy sound targetMem fragmentMem).2 place placeMem, Option.isSome_some]
  · have absent : source ∉ audience views source :=
      fun inside => ((Roster.mem_audience_iff sound member).mp inside).2 rfl
    have nothing := taken_perm sound drains source
    rw [incoming_eq_nil absent] at nothing
    exact nothing.eq_nil
  · intro node nodeMem other
    have present : node ∈ audience views source :=
      (Roster.mem_audience_iff sound member).mpr ⟨nodeMem, other⟩
    obtain ⟨target, targetMem, route, incomingEq⟩ :=
      exists_incoming_eq (Roster.nodup_audience sound) present
    exact ⟨target, targetMem, route, incomingEq ▸ taken_perm sound drains node⟩

/-- A client broadcasts two fragments, and a client of another cluster takes in both. -/
theorem reaches_all_twoClients :
    let main := ([2, 3, 4, 5, 6, 7, 8, 9, 10].map numbered).foldl
      (fun view sender => (view.react .mainServer (.hello sender)).view)
      (.initial (numbered 1) (numbered 1))
    let views := main.held (numbered 1) fun _ => 0
    let broadcast : Broadcast :=
      ⟨[1, 2, 3], .data .chat 1, 2, fun _ => ⟨⟨10, 0, 0, 1⟩, 9000⟩, fun _ => 7⟩
    (∃ history, View.Attained (numbered 1) history main) ∧
      numbered 10 ∈ main.members ∧ numbered 9 ∈ main.members ∧
      ∃ arrived, Drains views (broadcast.copies (views (numbered 10)).broadcastTargets) arrived ∧
        taken views (numbered 10) arrived = [] ∧
        ∃ target ∈ (views (numbered 10)).broadcastTargets, ∃ route,
          (taken views (numbered 9) arrived).Perm (broadcast.fragments (target.1, route)) := by
  intro main views broadcast
  have attained : View.Attained (numbered 1) _ main := View.Attained.start.hellos _
  have member : numbered 10 ∈ main.members := by decide +kernel
  have listener : numbered 9 ∈ main.members := by decide +kernel
  obtain ⟨⟨arrived, drains⟩, all⟩ := reaches_all attained member broadcast fun _ => 0
  obtain ⟨_, nothing, others⟩ := all arrived drains
  exact ⟨⟨_, attained⟩, member, listener, arrived, drains, nothing,
    others (numbered 9) listener (by decide +kernel)⟩

end Broadcast

end ClusterOverlay
