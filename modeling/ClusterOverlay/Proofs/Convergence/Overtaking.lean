import ClusterOverlay.Proofs.Convergence.Evictions
import ClusterOverlay.Proofs.Membership.Messages
import ClusterOverlay.Proofs.Membership.Watchers

/-!
# Snapshots that are overtaken

A peer that says hello gets the roster from the main server itself.  If another
peer says hello next, the first one hears of it from the server of its cluster,
by another connection, and nothing tells which of the two messages was sent
first.  A snapshot replaces all that a node knows.  So if the later message is
read first, the snapshot takes the newcomer away again:
`Node.snapshot_overtaken` says which roster remains for either order, and that
they agree only if the newcomer was a member before.  The main server does not
write to the joiner again, and the joiner reports to its server as if nothing
were missing.
-/

namespace ClusterOverlay

open Peer (numbered)

namespace View

/-! ## Who is told -/

/-- Besides the sender of a hello, the main server tells those whom it tells of
everything. -/
theorem tell_mem_welcome_iff {view : View} {sender peer : Peer} (other : peer ≠ sender)
    {news : Control} :
    Action.tell peer news ∈ (view.welcome sender).actions ↔
      peer ∈ (view.place sender).2.floodTargets ∧ peer ≠ (view.place sender).2.self ∧
        news = .add ⟨sender, (view.place sender).1⟩ := by
  simp only [welcome, List.cons_append, List.nil_append, List.mem_cons, reduceCtorEq, false_or,
    Action.tell.injEq, other, false_and, tell_mem_tellAll_iff, List.mem_filter, decide_eq_true_eq,
    ne_eq, not_false_eq_true, and_true]

/-- Whoever follows an arrival from the roster before comes to the roster after
it, whether the peer was known or not. -/
theorem Arrival.followed_toRoster {former latter view : View} {peer : Peer} {index : Nat}
    (arrival : former.Arrival peer index latter) (same : view.toRoster = former.toRoster) :
    (view.followed ⟨peer, index⟩).toRoster = latter.toRoster := by
  rcases arrival.members_perm with ⟨_, rfl⟩ | ⟨unknown, _⟩
  · have home : view.Home (Placement.mk peer index).cluster peer := same ▸ arrival.home
    rw [followed_of_follow (follow_of_home home)]
    exact same
  · obtain ⟨after, followed, rosterEq⟩ := arrival.exists_follow unknown same
    rw [followed_of_follow followed]
    exact rosterEq

/-- An arrival leaves the roster as it is exactly if the peer was known. -/
theorem Arrival.toRoster_eq_iff {former latter : View} {peer : Peer} {index : Nat}
    (arrival : former.Arrival peer index latter) :
    former.toRoster = latter.toRoster ↔ peer ∈ former.members := by
  constructor
  · intro same
    rw [same]
    exact arrival.mem_members_iff.mpr (.inr rfl)
  · intro known
    rcases arrival.members_perm with ⟨_, rfl⟩ | ⟨unknown, _⟩
    · rfl
    · exact absurd known unknown

end View

namespace Node.Belongs

variable {mainServer peer : Peer} {node : Node}

/-- A node other than the main server follows a placement. -/
theorem view_onMessage_add (belongs : node.Belongs mainServer peer) (away : peer ≠ mainServer)
    (now : Nat) (placement : Placement) :
    (node.onMessage now (.add placement)).view = node.view.followed placement := by
  rw [Node.onMessage, carryOut_view, belongs.roleEq]
  exact View.absorb_placed (belongs.self_ne_mainServer away) placement

end Node.Belongs

/-! ## A joiner and a newcomer -/

namespace View

variable {mainServer server joiner newcomer : Peer} {joined : View}

/-- To a client of another server, the main server does not write about a
newcomer. -/
theorem Presides.not_tell_welcome (presides : Presides mainServer joined)
    (serves : joined.Serves server joiner) (away : server ≠ mainServer) (client : server ≠ joiner)
    (other : newcomer ≠ joiner) (news : Control) :
    Action.tell joiner news ∉ (joined.welcome newcomer).actions := by
  have arrival := joined.place_arrival newcomer
  have latter := presides.arrival arrival
  have together := arrival.together (presides.together serves)
  have leads := arrival.servers_subset serves.mem_servers
  rw [tell_mem_welcome_iff other.symm,
    mem_floodTargets_of_rosterEq rfl latter.distinct, latter.selfEq]
  rintro ⟨joinerLeads | ⟨_, near⟩, _⟩
  · exact client (latter.eq_of_together leads joinerLeads together)
  · have mainLeads := List.mem_of_getElem? latter.leads
    have mainTogether := together.trans latter.distinct near.symm
    exact away (latter.eq_of_together leads mainLeads mainTogether)

/-- To the other servers it does. -/
theorem Presides.tell_welcome (presides : Presides mainServer joined)
    (leads : server ∈ joined.servers) (away : server ≠ mainServer) (other : server ≠ newcomer) :
    Action.tell server (.add ⟨newcomer, (joined.place newcomer).1⟩) ∈
      (joined.welcome newcomer).actions := by
  have arrival := joined.place_arrival newcomer
  have latter := presides.arrival arrival
  rw [tell_mem_welcome_iff other,
    mem_floodTargets_of_rosterEq rfl latter.distinct, latter.selfEq]
  exact ⟨.inl (arrival.servers_subset leads), away, rfl⟩

/-- A server that has the roster from before passes the news of a newcomer on to
its clients. -/
theorem Presides.tell_relayAdd (presides : Presides mainServer joined)
    (serves : joined.Serves server joiner) (away : server ≠ mainServer) (client : server ≠ joiner)
    (other : newcomer ≠ joiner) (unknown : newcomer ∉ joined.members) {view : View}
    (same : view.toRoster = joined.toRoster) (selfEq : view.self = server)
    (mainServerEq : view.mainServer = mainServer) :
    Action.tell joiner (.add ⟨newcomer, (joined.place newcomer).1⟩) ∈
      (view.react view.role (.add ⟨newcomer, (joined.place newcomer).1⟩)).actions := by
  have role : view.role = .clusterServer := by
    apply role_of_self_mem_servers
    · rw [selfEq, mainServerEq]
      exact away
    · rw [selfEq, congrArg Roster.servers same]
      exact serves.mem_servers
  have arrival := joined.place_arrival newcomer
  have latter := arrival.sound presides.toSound
  obtain ⟨after, followed, rosterEq⟩ := arrival.exists_follow unknown same
  have following := view.follow_following ⟨newcomer, (joined.place newcomer).1⟩
  rw [followed] at following
  have afterSelf : after.self = server := following.self_eq.trans selfEq
  have near : joiner ∈ after.clusterPeers := by
    rw [mem_clusterPeers_of_rosterEq rosterEq latter.distinct, afterSelf]
    exact ⟨client.symm, arrival.together (presides.together serves)⟩
  simp only [role, View.react, relayAdd, followed]
  apply List.mem_cons_of_mem
  rw [tell_mem_tellAll_iff, afterSelf, List.mem_filter, decide_eq_true_eq]
  exact ⟨⟨near, other.symm⟩, client.symm, rfl⟩

/-- Whom another server leads is no server. -/
theorem Presides.notMem_servers (presides : Presides mainServer joined)
    (serves : joined.Serves server joiner) (client : server ≠ joiner) :
    joiner ∉ joined.servers :=
  fun leads => client (presides.eq_of_together serves.mem_servers leads (presides.together serves))

end View

namespace Node

variable {mainServer server joiner newcomer : Peer} {node : Node} {former : View}
  {history : List Notice}

/-- A client that has a roster of the main server's reports to its server. -/
theorem Belongs.beat_of_serves (belongs : node.Belongs mainServer joiner)
    (presides : View.Presides mainServer former) (same : node.view.toRoster = former.toRoster)
    (serves : former.Serves server joiner) (client : server ≠ joiner) :
    node.view.beat = some (.alive joiner, server) := by
  have mainLeads : mainServer ∈ former.servers := List.mem_of_getElem? presides.leads
  have sound : node.view.Sound := same ▸ presides.toSound
  have reports := @View.beat_eq_alive_iff node.view server sound
  rw [belongs.selfEq, belongs.mainServerEq, same] at reports
  apply (reports mainLeads (presides.together serves).symm.mem_members).mpr
  exact (Roster.watches_iff_of_notMem_servers mainLeads
    (presides.notMem_servers serves client)).mpr serves

/-- The main server places a joiner in the cluster of another server, and then a
newcomer says hello.  The joiner gets a snapshot from the main server, and hears
of the newcomer from its server only.  If it reads the snapshot first, it comes
to have the main server's roster.  If it reads the snapshot last, it comes to
have the roster from before the newcomer, which is the main server's only if the
newcomer was a member already; and it reports to its server as any member. -/
theorem snapshot_overtaken (attained : View.Attained mainServer history former)
    (serves : (former.place joiner).2.Serves server joiner) (away : server ≠ mainServer)
    (client : server ≠ joiner) (other : newcomer ≠ joiner)
    (belongs : node.Belongs mainServer joiner) (early late : Nat) :
    let joined := (former.place joiner).2
    let latter := (joined.place newcomer).2
    let placement : Placement := ⟨newcomer, (joined.place newcomer).1⟩
    let inOrder := (node.onMessage early (.network joined.toRoster)).onMessage late (.add placement)
    let overtaken :=
      (node.onMessage early (.add placement)).onMessage late (.network joined.toRoster)
    Action.tell joiner (.network joined.toRoster) ∈
        (former.react former.role (.hello joiner)).actions ∧
      (∀ news, Action.tell joiner news ∉ (joined.react joined.role (.hello newcomer)).actions) ∧
      (newcomer ∉ joined.members →
        Action.tell server (.add placement) ∈
            (joined.react joined.role (.hello newcomer)).actions ∧
          ∀ view : View, view.toRoster = joined.toRoster → view.self = server →
            view.mainServer = mainServer →
              Action.tell joiner (.add placement) ∈
                (view.react view.role (.add placement)).actions) ∧
      inOrder.view.toRoster = latter.toRoster ∧
      overtaken.view.toRoster = joined.toRoster ∧
      (overtaken.view.toRoster = latter.toRoster ↔ newcomer ∈ joined.members) ∧
      overtaken.view.beat = some (.alive joiner, server) := by
  intro joined latter placement inOrder overtaken
  have presides : View.Presides mainServer joined :=
    attained.presides.arrival (former.place_arrival joiner)
  have arrival : joined.Arrival newcomer placement.cluster latter := joined.place_arrival newcomer
  have leads := serves.mem_servers
  have apart : joiner ≠ mainServer := by
    rintro rfl
    exact presides.notMem_servers serves client (List.mem_of_getElem? presides.leads)
  have overtakenEq : overtaken.view.toRoster = joined.toRoster := by
    rw [(belongs.onMessage early _).view_onMessage_network apart late presides.toLed]
  refine ⟨?_, ?_, ?_, ?_, overtakenEq, ?_, ?_⟩
  · rw [attained.presides.role_eq]
    simp [View.react, View.welcome, joined]
  · rw [presides.role_eq]
    exact presides.not_tell_welcome serves away client other
  · intro unknown
    constructor
    · rw [presides.role_eq]
      apply presides.tell_welcome leads away
      rintro rfl
      exact unknown (presides.servers_subset leads)
    · intro view same selfEq mainServerEq
      exact presides.tell_relayAdd serves away client other unknown same selfEq mainServerEq
  · have current : (node.onMessage early (.network joined.toRoster)).view.toRoster =
        joined.toRoster := by
      rw [belongs.view_onMessage_network apart early presides.toLed]
    rw [(belongs.onMessage early _).view_onMessage_add apart late placement]
    exact arrival.followed_toRoster current
  · rw [overtakenEq]
    exact arrival.toRoster_eq_iff
  · exact ((belongs.onMessage early _).onMessage late _).beat_of_serves presides overtakenEq
      serves client

/-- The peer that says hello, as it begins. -/
def tenth : Node :=
  (create {} { quietRoom with view := .initial (numbered 10) (numbered 1) }).start 0

theorem tenth_belongs : tenth.Belongs (numbered 1) (numbered 10) := by
  constructor <;> decide +kernel

/-- The tenth peer is placed in the cluster of the second, and the eleventh says
hello next. -/
theorem snapshot_overtaken_tenth :
    let former := Fleet.greeted [2, 3, 4, 5, 6, 7, 8, 9]
    let joined := (former.place (numbered 10)).2
    let placement : Placement := ⟨numbered 11, (joined.place (numbered 11)).1⟩
    let overtaken := (tenth.onMessage (milliseconds 1) (.add placement)).onMessage
      (milliseconds 2) (.network joined.toRoster)
    (∃ history, View.Attained (numbered 1) history former) ∧
      joined.Serves (numbered 2) (numbered 10) ∧
      placement.cluster = 2 ∧
      ¬ overtaken.view.toRoster = (joined.place (numbered 11)).2.toRoster := by
  intro former joined placement overtaken
  have attained : ∃ history, View.Attained (numbered 1) history former :=
    ⟨_, View.Attained.start.hellos _⟩
  have serves : joined.Serves (numbered 2) (numbered 10) :=
    ⟨1, ⟨[numbered 2, numbered 10], by decide +kernel, by decide +kernel⟩, by decide +kernel⟩
  have placed : placement.cluster = 2 := by decide +kernel
  have unknown : numbered 11 ∉ joined.members := by decide +kernel
  have other : numbered 11 ≠ numbered 10 := by decide +kernel
  clear_value former
  obtain ⟨history, begun⟩ := attained
  obtain ⟨_, _, _, _, _, agree, _⟩ := snapshot_overtaken begun serves (by decide +kernel)
    (by decide +kernel) other tenth_belongs (milliseconds 1) (milliseconds 2)
  exact ⟨⟨history, begun⟩, serves, placed, mt agree.mp unknown⟩

/-- The orders disagree: the tenth peer knows the eleventh, or does not. -/
theorem overtaken_not_current :
    let joined := ((Fleet.greeted [2, 3, 4, 5, 6, 7, 8, 9]).place (numbered 10)).2
    let latter := (joined.place (numbered 11)).2
    let snapshot : Control := .network joined.toRoster
    let news : Control := .add ⟨numbered 11, 2⟩
    let inOrder := (tenth.onMessage (milliseconds 1) snapshot).onMessage (milliseconds 2) news
    let overtaken := (tenth.onMessage (milliseconds 1) news).onMessage (milliseconds 2) snapshot
    joined.clusters[1]? = some [numbered 2, numbered 10] ∧
      joined.servers[1]? = some (numbered 2) ∧
      latter.clusters[2]? = some [numbered 3, numbered 11] ∧
      inOrder.view.toRoster = latter.toRoster ∧
      overtaken.view.toRoster ≠ latter.toRoster ∧
      numbered 11 ∉ overtaken.view.members := by
  decide +kernel

end Node

end ClusterOverlay
