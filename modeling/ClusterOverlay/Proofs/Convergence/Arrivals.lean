import ClusterOverlay.Proofs.Convergence.Spread

/-!
# How an arrival spreads

Whoever says hello to the main server gets the whole roster as an answer.  The
main server tells its own cluster and the other servers of the newcomer, and
they tell their clusters.  `Admission.lawful` says that so everybody comes to hold
the roster of the main server, whatever the newcomer held before.
-/

namespace ClusterOverlay

namespace View

/-! ## Following an arrival -/

/-- Whoever has the roster from before the arrival comes to the same roster by
following it. -/
theorem Arrival.exists_follow {former latter view : View} {peer : Peer} {index : Nat}
    (arrival : former.Arrival peer index latter) (unknown : peer ∉ former.members)
    (same : view.toRoster = former.toRoster) :
    ∃ after, view.follow ⟨peer, index⟩ = .ok (true, after) ∧
      after.toRoster = latter.toRoster := by
  have clustersEq : view.clusters = former.clusters := congrArg Roster.clusters same
  have serversEq : view.servers = former.servers := congrArg Roster.servers same
  cases arrival with
  | known home => exact absurd home.mem_members unknown
  | opens _ room =>
      refine ⟨{ view with
        clusters := view.clusters ++ [[peer]], servers := view.servers ++ [peer] }, ?_, ?_⟩
      · rw [follow, clustersEq, if_pos rfl, if_neg (Nat.not_le.mpr room)]
      · simp [clustersEq, serversEq]
  | joins _ full =>
      have bound := Arrival.mod_lt_of_full full
      have found := List.getElem?_eq_getElem bound
      have foreign : peer ∉ former.clusters[former.cursor % former.clusters.length] := fun own =>
        unknown (Roster.Home.mem_members ⟨_, found, own⟩)
      refine ⟨{ view with
        clusters := view.clusters.modify (former.cursor % former.clusters.length)
          (· ++ [peer]) }, ?_, ?_⟩
      · simp only [follow, clustersEq, if_neg (Nat.ne_of_lt bound), found]
        rw [if_neg (mt List.contains_iff_mem.mp foreign)]
      · simp [clustersEq, serversEq]

/-- A placement that says where a peer is changes nothing. -/
theorem follow_of_home {view : View} {placement : Placement}
    (home : view.Home placement.cluster placement.peer) :
    view.follow placement = .ok (false, view) := by
  have bound := home.index_lt
  rcases home with ⟨cluster, found, own⟩
  rw [follow, if_neg (Nat.ne_of_lt bound), found]
  exact if_pos (List.contains_iff_mem.mpr own)

/-- Nobody but a newcomer is led by somebody who has not been a server before. -/
theorem Arrival.mem_servers_of_serves {former latter : View} {newcomer server peer : Peer}
    {index : Nat} (arrival : former.Arrival newcomer index latter) (sound : former.Sound)
    (serves : latter.Serves server peer) (other : peer ≠ newcomer) :
    server ∈ former.servers := by
  rcases serves with ⟨place, ⟨cluster, found, peerMem⟩, leads⟩
  cases arrival with
  | known | joins => exact List.mem_of_getElem? leads
  | opens =>
      rcases Nat.lt_or_ge place former.servers.length with before | last
      · rw [List.getElem?_append_left before] at leads
        exact List.mem_of_getElem? leads
      · rw [List.getElem?_append_right (sound.lengthEq ▸ last)] at found
        have clusterEq := List.mem_singleton.mp (List.mem_of_getElem? found)
        rw [clusterEq] at peerMem
        exact absurd (List.mem_singleton.mp peerMem) other

/-! ## Whom a server tells, by the roster that it holds -/

theorem mem_clusterPeers_of_rosterEq {view : View} {roster : Roster}
    (same : view.toRoster = roster) (distinct : roster.members.Nodup) {peer : Peer} :
    peer ∈ view.clusterPeers ↔ peer ≠ view.self ∧ roster.Together view.self peer := by
  subst same
  exact mem_clusterPeers_iff distinct

theorem mem_floodTargets_of_rosterEq {view : View} {roster : Roster}
    (same : view.toRoster = roster) (distinct : roster.members.Nodup) {peer : Peer} :
    peer ∈ view.floodTargets ↔
      peer ∈ roster.servers ∨ peer ≠ view.self ∧ roster.Together view.self peer := by
  rw [floodTargets, Peer.mem_ascending, List.mem_append,
    mem_clusterPeers_of_rosterEq same distinct, same]

end View

/-- The main server places a newcomer. -/
def Change.arrival (former : View) (newcomer : Peer) : Change where
  latter := (former.place newcomer).2.toRoster
  root := former.self
  errand peer :=
    if peer = newcomer then .network (former.place newcomer).2.toRoster
    else .add ⟨newcomer, (former.place newcomer).1⟩
  Behind peer view := peer = newcomer ∨ view.toRoster = former.toRoster
  Tells peer other :=
    other ≠ peer ∧
      if peer = former.self then
        other = newcomer ∨ other ∈ (former.place newcomer).2.servers ∨
          (former.place newcomer).2.Together peer other
      else
        peer ∈ former.servers ∧ other ≠ newcomer ∧
          (former.place newcomer).2.Together peer other

/-- The main server has this view when a newcomer says hello, and everybody can
be written to. -/
structure Admission (mainServer : Peer) (former : View) (newcomer : Peer) : Prop where
  presides : View.Presides mainServer former
  unknown : newcomer ∉ former.members
  literal : ∀ peer ∈ former.members, peer.IsLiteral
  named : newcomer.IsLiteral

namespace Admission

variable {mainServer newcomer peer : Peer} {former : View} {node : Node}

theorem sound (admission : Admission mainServer former newcomer) :
    (former.place newcomer).2.Sound :=
  (former.place_arrival newcomer).sound admission.presides.toSound

theorem ne_newcomer (admission : Admission mainServer former newcomer)
    (known : peer ∈ former.members) : peer ≠ newcomer := by
  rintro rfl
  exact admission.unknown known

theorem main_ne_newcomer (admission : Admission mainServer former newcomer) :
    former.self ≠ newcomer :=
  admission.ne_newcomer (admission.presides.selfEq ▸ admission.presides.mem_members)

theorem literal_latter (admission : Admission mainServer former newcomer)
    (peerMem : peer ∈ (former.place newcomer).2.members) : peer.IsLiteral := by
  rcases (former.place_arrival newcomer).mem_members_iff.mp peerMem with known | rfl
  · exact admission.literal peer known
  · exact admission.named

/-- Whom anybody tells is a member. -/
theorem mem_of_tells (admission : Admission mainServer former newcomer) {other : Peer}
    (tells : (Change.arrival former newcomer).Tells peer other) :
    other ∈ (former.place newcomer).2.members := by
  have arrival := former.place_arrival newcomer
  rcases tells with ⟨_, tells⟩
  split at tells
  · rcases tells with new | leads | together
    · exact arrival.mem_members_iff.mpr (.inr new)
    · exact admission.sound.servers_subset leads
    · exact together.symm.mem_members
  · exact tells.2.2.symm.mem_members

/-- The main server tells the servers, and every server its cluster. -/
theorem reaches (admission : Admission mainServer former newcomer)
    (peerMem : peer ∈ (former.place newcomer).2.members) :
    Relation.ReflTransGen (Change.arrival former newcomer).Tells former.self peer := by
  have arrival := former.place_arrival newcomer
  by_cases new : peer = newcomer
  · subst new
    exact .single ⟨admission.main_ne_newcomer.symm, by simp⟩
  · obtain ⟨server, serves⟩ := admission.sound.exists_serves peerMem
    have together := admission.sound.together serves
    have led := arrival.mem_servers_of_serves admission.presides.toSound serves new
    have main : Relation.ReflTransGen (Change.arrival former newcomer).Tells former.self
        server := by
      by_cases same : server = former.self
      · rw [same]
      · exact .single ⟨same, by simp [arrival.servers_subset led]⟩
    by_cases own : peer = server
    · rw [own]
      exact main
    · refine main.tail ⟨own, ?_⟩
      split
      · exact .inr (.inr together)
      · exact ⟨led, new, together⟩

/-! ## Reactions -/

theorem exists_encode_add (admission : Admission mainServer former newcomer) (index : Nat) :
    ∃ bytes, (Control.add ⟨newcomer, index⟩).encode = .ok bytes :=
  Placement.exists_encode_iff.mpr admission.named.isShort

/-- The main server sends the newcomer the roster, and tells of it whom it tells
of everything. -/
theorem spreads_main (admission : Admission mainServer former newcomer) :
    (Change.arrival former newcomer).Spreads former.self (former.welcome newcomer) := by
  have arrival := former.place_arrival newcomer
  have sound := admission.sound
  obtain ⟨addBytes, addWritten⟩ := admission.exists_encode_add (former.place newcomer).1
  obtain ⟨bytes, written⟩ := Roster.exists_encode sound.toLed
    fun peer peerMem => admission.literal_latter peerMem
  have split : ∀ resolver, letters resolver (former.welcome newcomer).actions =
      ⟨newcomer, .network (former.place newcomer).2.toRoster⟩ ::
        letters resolver ((former.place newcomer).2.tellAll
          ((former.place newcomer).2.floodTargets.filter (· ≠ newcomer))
          (.add ⟨newcomer, (former.place newcomer).1⟩)) := by
    intro resolver
    have sendable :
        Letter.isSendable ⟨newcomer, .network (former.place newcomer).2.toRoster⟩ resolver :=
      Letter.isSendable_of_encode written admission.named
    simp [View.welcome, letters, List.filterMap_cons, Action.letter?, sendable]
  have flooded : ∀ {other : Peer},
      other ∈ (former.place newcomer).2.floodTargets.filter (· ≠ newcomer) ↔
        (other ∈ (former.place newcomer).2.servers ∨
          other ≠ former.self ∧ (former.place newcomer).2.Together former.self other) ∧
        other ≠ newcomer := by
    intro other
    rw [List.mem_filter, View.mem_floodTargets_of_rosterEq rfl sound.distinct,
      arrival.self_eq, decide_eq_true_eq]
  have literal : ∀ other ∈ (former.place newcomer).2.floodTargets.filter (· ≠ newcomer),
      other ≠ (former.place newcomer).2.self → other.IsLiteral := by
    intro other otherMem _
    rcases (flooded.mp otherMem).1 with leads | ⟨_, together⟩
    · exact admission.literal_latter (sound.servers_subset leads)
    · exact admission.literal_latter together.symm.mem_members
  refine ⟨rfl, fun resolver letter => ?_⟩
  rw [split, List.mem_cons, View.mem_letters_tellAll_iff addWritten literal, arrival.self_eq]
  constructor
  · rintro (rfl | ⟨other, ⟨away, otherMem⟩, rfl⟩)
    · exact ⟨newcomer, ⟨admission.main_ne_newcomer.symm, by simp⟩,
        by simp [Change.letter, Change.arrival]⟩
    · obtain ⟨told, old⟩ := flooded.mp otherMem
      refine ⟨other, ⟨away, ?_⟩, by simp [Change.letter, Change.arrival, old]⟩
      rw [if_pos rfl]
      exact .inr (told.imp_right And.right)
  · rintro ⟨other, ⟨away, tells⟩, rfl⟩
    rw [if_pos rfl] at tells
    by_cases new : other = newcomer
    · subst new
      exact .inl (by simp [Change.letter, Change.arrival])
    · have told := tells.resolve_left new
      exact .inr ⟨other, ⟨away, flooded.mpr ⟨told.imp_right (⟨away, ·⟩), new⟩⟩,
        by simp [Change.letter, Change.arrival, new]⟩

/-- Whatever the newcomer held, it takes over the roster that it is sent. -/
theorem react_network (admission : Admission mainServer former newcomer)
    (belongs : node.Belongs mainServer newcomer) :
    node.view.react node.role (.network (former.place newcomer).2.toRoster) =
      ⟨{ node.view with toRoster := (former.place newcomer).2.toRoster, cursor := 0 },
        [.reconcile]⟩ :=
  belongs.react_network (admission.presides.selfEq ▸ admission.main_ne_newcomer.symm)
    admission.sound.toLed

theorem spreads_newcomer (admission : Admission mainServer former newcomer)
    (belongs : node.Belongs mainServer newcomer) :
    (Change.arrival former newcomer).Spreads newcomer
      (node.view.react node.role (.network (former.place newcomer).2.toRoster)) := by
  rw [admission.react_network belongs]
  refine .of_silent rfl (fun _ => rfl) ?_
  rintro other ⟨_, tells⟩
  rw [if_neg admission.main_ne_newcomer.symm] at tells
  exact admission.unknown (admission.presides.servers_subset tells.1)

/-- Whoever else had the roster of the main server has it again, and every server
tells its cluster. -/
theorem spreads_member (admission : Admission mainServer former newcomer)
    (belongs : node.Belongs mainServer peer) (away : peer ≠ former.self)
    (same : node.view.toRoster = former.toRoster) :
    (Change.arrival former newcomer).Spreads peer
      (node.view.react node.role (.add ⟨newcomer, (former.place newcomer).1⟩)) := by
  have arrival := former.place_arrival newcomer
  have serversEq : node.view.servers = former.servers := congrArg Roster.servers same
  have apart : peer ≠ mainServer := admission.presides.selfEq ▸ away
  obtain ⟨after, followed, rosterEq⟩ := arrival.exists_follow admission.unknown same
  by_cases leads : peer ∈ former.servers
  · have role := belongs.role_eq_clusterServer apart (serversEq ▸ leads)
    have following := node.view.follow_following ⟨newcomer, (former.place newcomer).1⟩
    rw [followed] at following
    have selfEq : after.self = peer := following.self_eq.trans belongs.selfEq
    obtain ⟨bytes, written⟩ := admission.exists_encode_add (former.place newcomer).1
    have reaction : node.view.react node.role (.add ⟨newcomer, (former.place newcomer).1⟩) =
        ⟨after, .reconcile :: after.tellAll (after.clusterPeers.filter (· ≠ newcomer))
          (.add ⟨newcomer, (former.place newcomer).1⟩)⟩ := by
      simp only [role, View.react, View.relayAdd, followed]
    rw [reaction]
    refine .of_tellAll rosterEq written (fun _ => rfl) ?_
      (fun other tells => admission.literal_latter (admission.mem_of_tells tells)) ?_
    · intro other
      rw [List.mem_filter, View.mem_clusterPeers_of_rosterEq rosterEq admission.sound.distinct,
        selfEq, decide_eq_true_eq]
      simp only [Change.arrival, if_neg away, leads, true_and]
      tauto
    · rintro other ⟨_, tells⟩
      rw [if_neg away] at tells
      exact if_neg tells.2.1
  · have role := belongs.role_eq_client apart (serversEq ▸ leads)
    have reaction : node.view.react node.role (.add ⟨newcomer, (former.place newcomer).1⟩) =
        ⟨after, [.reconcile]⟩ := by
      simp only [role, View.react, View.learnAdd, followed]
    rw [reaction]
    refine .of_silent rosterEq (fun _ => rfl) ?_
    rintro other ⟨_, tells⟩
    rw [if_neg away] at tells
    exact leads tells.1

/-- Whoever knows of the newcomer already does nothing about it. -/
theorem rests (admission : Admission mainServer former newcomer)
    (belongs : node.Belongs mainServer peer)
    (knows : node.view.toRoster = (former.place newcomer).2.toRoster) :
    (Change.arrival former newcomer).Rests
      (node.view.react node.role ((Change.arrival former newcomer).errand peer)) := by
  by_cases new : peer = newcomer
  · subst new
    have reaction := admission.react_network belongs
    simp only [Change.arrival, if_true, reaction]
    exact ⟨rfl, fun _ => rfl⟩
  · have home : node.view.Home (former.place newcomer).1 newcomer := by
      rw [knows]
      exact (former.place_arrival newcomer).home
    have followed : node.view.follow ⟨newcomer, (former.place newcomer).1⟩ =
        .ok (false, node.view) := View.follow_of_home home
    have reaction : node.view.react node.role (.add ⟨newcomer, (former.place newcomer).1⟩) =
        node.view.ignore := by
      cases role : node.role <;>
        simp only [View.react, View.relayAdd, View.learnAdd, followed]
    simp only [Change.arrival, if_neg new, reaction]
    exact ⟨knows, fun _ => rfl⟩

/-- All members come to know of the newcomer. -/
theorem lawful (admission : Admission mainServer former newcomer) :
    (Change.arrival former newcomer).Lawful mainServer where
  mainMem :=
    (former.place_arrival newcomer).mem_members_iff.mpr (.inl admission.presides.mem_members)
  literal _ peerMem := admission.literal_latter peerMem
  tellsMem tells := admission.mem_of_tells tells
  reaches _ peerMem := admission.reaches peerMem
  spreads := by
    intro peer node peerMem away belongs behind
    by_cases new : peer = newcomer
    · subst new
      have spreads := admission.spreads_newcomer belongs
      simpa only [Change.arrival, if_true] using spreads
    · have spreads := admission.spreads_member belongs away (behind.resolve_left new)
      simpa only [Change.arrival, if_neg new] using spreads
  rests _ belongs knows := admission.rests belongs knows

end Admission

end ClusterOverlay
