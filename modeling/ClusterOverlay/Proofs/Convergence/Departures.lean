import ClusterOverlay.Proofs.Convergence.Arrivals

/-!
# How a departure spreads

Whoever hears that a member is gone removes it, and a server tells its cluster,
and the main server if the member was of that cluster.  The main server tells
the servers and its own cluster.  A cluster that has just lost its server has
nobody to tell it: the main server does that, too.  `Dismissal.lawful` says that
so everybody comes to hold the roster of the main server, and that whoever hears
of it again does nothing.
-/

namespace ClusterOverlay

namespace View

/-! ## Removing the same peer from the same roster -/

/-- What a removal does to a roster depends on the roster alone. -/
theorem remove_congr {view other : View} (same : view.toRoster = other.toRoster)
    (placement : Placement) :
    (view.remove placement).map (Prod.map id View.toRoster) =
      (other.remove placement).map (Prod.map id View.toRoster) := by
  rcases view with ⟨roster, self, mainServer, cursor⟩
  rcases other with ⟨otherRoster, otherSelf, otherMainServer, otherCursor⟩
  subst same
  have located : locate? ⟨roster, self, mainServer, cursor⟩ placement =
      locate? ⟨roster, otherSelf, otherMainServer, otherCursor⟩ placement := rfl
  unfold remove
  rw [located]
  cases locate? ⟨roster, otherSelf, otherMainServer, otherCursor⟩ placement with
  | none => rfl
  | some index =>
      simp only
      cases roster.servers[index]? with
      | none => rfl
      | some server =>
          cases roster.clusters[index]? with
          | none => rfl
          | some cluster =>
              simp only
              cases cluster.filter (· ≠ placement.peer) with
              | nil => rfl
              | cons next others =>
                  simp only
                  split <;> rfl

theorem clusterOf?_congr {view other : View} (same : view.toRoster = other.toRoster)
    (peer : Peer) : view.clusterOf? peer = other.clusterOf? peer := by
  rw [clusterOf?, clusterOf?, show view.clusters = other.clusters from congrArg _ same]

theorem serverOf?_congr {view other : View} (same : view.toRoster = other.toRoster)
    (peer : Peer) : view.serverOf? peer = other.serverOf? peer := by
  rw [serverOf?, serverOf?, clusterOf?_congr same,
    show view.servers = other.servers from congrArg Roster.servers same]

/-- Somebody who is no member cannot be removed. -/
theorem remove_of_notMem {view : View} {placement : Placement}
    (unknown : placement.peer ∉ view.members) :
    view.remove placement = .ok (.notPresent, view) := by
  rw [remove, locate?_eq_none_iff.mpr unknown]

/-- The main server tells those who are led by somebody new. -/
theorem Departure.mem_servers_or_home {former latter : View} {leaver server peer : Peer}
    {index : Nat} {dropped : Bool} {promoted : Option Peer}
    (departure : former.Departure leaver (.removed index dropped promoted) latter)
    (serves : latter.Serves server peer) :
    server ∈ former.servers ∨ promoted.isSome = true ∧ latter.Home index peer := by
  rcases serves with ⟨place, home, leads⟩
  cases departure with
  | last => exact .inl (List.mem_of_mem_eraseIdx (List.mem_of_getElem? leads))
  | @server _ _ next =>
      by_cases same : index = place
      · exact .inr ⟨rfl, same ▸ home⟩
      · rw [List.getElem?_set_ne same] at leads
        exact .inl (List.mem_of_getElem? leads)
  | member => exact .inl (List.mem_of_getElem? leads)

theorem mem_orphans_iff {view : View} {index : Nat} {promoted : Option Peer} {peer : Peer} :
    peer ∈ view.orphans index promoted ↔ promoted.isSome = true ∧ view.Home index peer := by
  unfold orphans Roster.Home
  split
  · next promotion =>
      rw [promotion]
      cases view.clusters[index]? <;> simp
  · next none =>
      simp [none]

theorem sharesCluster_iff {view : View} (distinct : view.members.Nodup) {peer : Peer} :
    view.sharesCluster peer = true ↔ view.Together view.self peer := by
  rw [sharesCluster, Bool.and_eq_true, beq_iff_eq, Option.isSome_iff_exists]
  constructor
  · rintro ⟨⟨index, own⟩, same⟩
    exact ⟨index, home_of_clusterOf? own, home_of_clusterOf? (same ▸ own)⟩
  · rintro ⟨index, ownHome, home⟩
    have own := (clusterOf?_eq_some_iff distinct).mpr ownHome
    exact ⟨⟨index, own⟩, own.trans ((clusterOf?_eq_some_iff distinct).mpr home).symm⟩

/-- The first to hear that a peer is gone: the main server, whose view this is,
or the server of the peer. -/
def Oversees (view : View) (overseer peer : Peer) : Prop :=
  overseer = view.self ∨ overseer ∈ view.servers ∧ view.Together overseer peer

end View

/-- A member leaves the cluster with an index, and the root is the first to
hear of it. -/
def Change.departure (former latter : View) (leaver : Peer) (index : Nat)
    (promoted : Option Peer) (root : Peer) : Change where
  latter := latter.toRoster
  root
  errand _ := .remove ⟨leaver, index⟩
  Behind _ view := view.toRoster = former.toRoster
  Tells peer other :=
    other ≠ peer ∧
      if peer = former.self then
        other ∈ latter.servers ∨ latter.Together peer other ∨
          promoted.isSome = true ∧ latter.Home index other
      else
        peer ∈ former.servers ∧
          (latter.Together peer other ∨ former.Together peer leaver ∧ other = former.self)

/-- The main server has one view before a member leaves, and the other afterwards.
Everybody can be written to. -/
structure Dismissal (mainServer : Peer) (former latter : View) (leaver : Peer) (index : Nat)
    (dropped : Bool) (promoted : Option Peer) : Prop where
  presides : View.Presides mainServer former
  literal : ∀ peer ∈ former.members, peer.IsLiteral
  found : former.clusterOf? leaver = some index
  away : leaver ≠ mainServer
  removed : former.remove ⟨leaver, index⟩ = .ok (.removed index dropped promoted, latter)
  departure : former.Departure leaver (.removed index dropped promoted) latter

namespace Dismissal

variable {mainServer leaver peer root : Peer} {former latter : View} {index : Nat}
  {dropped : Bool} {promoted : Option Peer} {node : Node}

section

variable (dismissal : Dismissal mainServer former latter leaver index dropped promoted)
include dismissal

theorem member : leaver ∈ former.members :=
  (View.home_of_clusterOf? dismissal.found).mem_members

theorem sound : latter.Sound :=
  dismissal.departure.sound dismissal.presides.toSound

theorem mem_members_iff : peer ∈ latter.members ↔ peer ∈ former.members ∧ peer ≠ leaver :=
  dismissal.departure.mem_members_iff dismissal.presides.distinct

theorem main_mem : mainServer ∈ latter.members :=
  dismissal.mem_members_iff.mpr ⟨dismissal.presides.mem_members, dismissal.away.symm⟩

theorem literal_latter (peerMem : peer ∈ latter.members) : peer.IsLiteral :=
  dismissal.literal peer (dismissal.mem_members_iff.mp peerMem).1

theorem exists_encode_remove : ∃ bytes, (Control.remove ⟨leaver, index⟩).encode = .ok bytes :=
  Placement.exists_encode_iff.mpr (dismissal.literal leaver dismissal.member).isShort

/-- Whoever has the roster from before the departure comes to the same roster by
removing the member. -/
theorem exists_remove {view : View} (same : view.toRoster = former.toRoster) :
    ∃ after, view.remove ⟨leaver, index⟩ = .ok (.removed index dropped promoted, after) ∧
      after.toRoster = latter.toRoster ∧ view.Akin after := by
  have alike := View.remove_congr same ⟨leaver, index⟩
  rw [dismissal.removed] at alike
  cases answer : view.remove ⟨leaver, index⟩ with
  | error cause => simp [answer, Except.map] at alike
  | ok result =>
      rcases result with ⟨removal, after⟩
      simp only [answer, Except.map, Prod.map, id, Except.ok.injEq, Prod.mk.injEq] at alike
      obtain ⟨rfl, rosterEq⟩ := alike
      exact ⟨after, rfl, rosterEq, View.akin_of_remove answer⟩

/-- Whom anybody tells is a member. -/
theorem mem_of_tells {other : Peer}
    (tells : (Change.departure former latter leaver index promoted root).Tells peer other) :
    other ∈ latter.members := by
  rcases tells with ⟨_, tells⟩
  split at tells
  · rcases tells with leads | together | ⟨_, home⟩
    · exact dismissal.sound.servers_subset leads
    · exact together.symm.mem_members
    · exact home.mem_members
  · rcases tells.2 with together | ⟨_, rfl⟩
    · exact together.symm.mem_members
    · exact dismissal.presides.selfEq ▸ dismissal.main_mem

/-- The overseer tells the main server, the main server tells the servers and
those that have a new one, and every server tells its cluster. -/
theorem reaches (oversees : former.Oversees root leaver) (peerMem : peer ∈ latter.members) :
    Relation.ReflTransGen
      (Change.departure former latter leaver index promoted root).Tells root peer := by
  have main : Relation.ReflTransGen
      (Change.departure former latter leaver index promoted root).Tells root former.self := by
    by_cases same : root = former.self
    · rw [same]
    · obtain ⟨leads, together⟩ := oversees.resolve_left same
      refine .single ⟨Ne.symm same, ?_⟩
      rw [if_neg same]
      exact ⟨leads, .inr ⟨together, rfl⟩⟩
  by_cases own : peer = former.self
  · rw [own]
    exact main
  · obtain ⟨server, serves⟩ := dismissal.sound.exists_serves peerMem
    have together := dismissal.sound.together serves
    rcases dismissal.departure.mem_servers_or_home serves with leads | ⟨new, home⟩
    · by_cases same : server = former.self
      · refine main.tail ⟨own, ?_⟩
        rw [if_pos rfl]
        exact .inr (.inl (same ▸ together))
      · have told := main.tail ⟨same, by
          rw [if_pos rfl]
          exact .inl serves.mem_servers⟩
        by_cases self : peer = server
        · rw [self]
          exact told
        · refine told.tail ⟨self, ?_⟩
          rw [if_neg same]
          exact ⟨leads, .inl together⟩
    · refine main.tail ⟨own, ?_⟩
      rw [if_pos rfl]
      exact .inr (.inr ⟨new, home⟩)

end

/-- The main server knows where a member is, and can remove it. -/
theorem exists_of_clusterOf? (presides : View.Presides mainServer former)
    (literal : ∀ peer ∈ former.members, peer.IsLiteral) (away : leaver ≠ mainServer)
    (found : former.clusterOf? leaver = some index) :
    ∃ latter dropped promoted,
      Dismissal mainServer former latter leaver index dropped promoted := by
  have home := View.home_of_clusterOf? found
  obtain ⟨removal, latter, removed, departure⟩ :=
    View.remove_departure presides.toLed ⟨leaver, index⟩
  have placed : ∀ {place : Nat} {cluster : List Peer},
      former.clusters[place]? = some cluster → leaver ∈ cluster → place = index :=
    fun foundHere own => Roster.Home.unique presides.distinct ⟨_, foundHere, own⟩ home
  have left := departure
  cases departure with
  | absent unknown => exact absurd home.mem_members unknown
  | last foundHere own _ =>
      obtain rfl := placed foundHere own
      exact ⟨_, _, _, presides, literal, found, away, removed, left⟩
  | server foundHere own _ _ =>
      obtain rfl := placed foundHere own
      exact ⟨_, _, _, presides, literal, found, away, removed, left⟩
  | member foundHere own _ _ _ =>
      obtain rfl := placed foundHere own
      exact ⟨_, _, _, presides, literal, found, away, removed, left⟩

/-! ## Reactions -/

section

variable (dismissal : Dismissal mainServer former latter leaver index dropped promoted)
include dismissal

/-- Nobody who is left takes the removal for its own. -/
theorem react_remove (peerMem : peer ∈ latter.members)
    (belongs : node.Belongs mainServer peer) (role : Role) :
    node.view.react role (.remove ⟨leaver, index⟩) =
      match role with
      | .mainServer => node.view.expel ⟨leaver, index⟩
      | .clusterServer => node.view.relayRemove ⟨leaver, index⟩
      | .client => node.view.learnRemove ⟨leaver, index⟩ := by
  have different : leaver ≠ node.view.self := by
    rw [belongs.selfEq]
    exact (dismissal.mem_members_iff.mp peerMem).2.symm
  cases role <;> simp only [View.react, View.reactToRemove, if_neg different]

/-- The main server tells the servers, its own cluster, and a cluster that has
just lost its server. -/
theorem spreads_main (belongs : node.Belongs mainServer mainServer)
    (same : node.view.toRoster = former.toRoster) :
    (Change.departure former latter leaver index promoted root).Spreads mainServer
      (node.view.react node.role (.remove ⟨leaver, index⟩)) := by
  obtain ⟨after, removed, rosterEq, akin⟩ := dismissal.exists_remove same
  obtain ⟨bytes, written⟩ := dismissal.exists_encode_remove
  have selfEq : after.self = mainServer := akin.selfEq.trans belongs.selfEq
  have reaction : node.view.react node.role (.remove ⟨leaver, index⟩) =
      ⟨after, [.forget leaver, .hangUp leaver, .reconcile] ++
        after.tellAll (after.floodTargets ++ after.orphans index promoted)
          (.remove ⟨leaver, index⟩)⟩ := by
    rw [dismissal.react_remove dismissal.main_mem belongs, belongs.role_eq_mainServer]
    simp only [View.expel, removed]
  rw [reaction]
  refine .of_tellAll rosterEq written (fun _ => rfl) ?_
    (fun other tells => dismissal.literal_latter (dismissal.mem_of_tells tells)) fun _ _ => rfl
  intro other
  rw [List.mem_append, View.mem_floodTargets_of_rosterEq rosterEq dismissal.sound.distinct,
    View.mem_orphans_iff, selfEq, rosterEq]
  simp only [Change.departure, dismissal.presides.selfEq, if_true]
  tauto

/-- A server tells its cluster, and the main server if the member was of its
cluster. -/
theorem spreads_server (belongs : node.Belongs mainServer peer) (away : peer ≠ mainServer)
    (peerMem : peer ∈ latter.members) (leads : peer ∈ former.servers)
    (same : node.view.toRoster = former.toRoster) :
    (Change.departure former latter leaver index promoted root).Spreads peer
      (node.view.react node.role (.remove ⟨leaver, index⟩)) := by
  obtain ⟨after, removed, rosterEq, akin⟩ := dismissal.exists_remove same
  obtain ⟨bytes, written⟩ := dismissal.exists_encode_remove
  have selfEq : after.self = peer := akin.selfEq.trans belongs.selfEq
  have mainServerEq : after.mainServer = mainServer :=
    akin.mainServerEq.trans belongs.mainServerEq
  have role := belongs.role_eq_clusterServer away ((congrArg Roster.servers same) ▸ leads)
  have shares : node.view.sharesCluster leaver = true ↔ former.Together peer leaver := by
    have members : node.view.members = former.members := congrArg Roster.members same
    rw [View.sharesCluster_iff (members ▸ dismissal.presides.distinct), belongs.selfEq, same]
  have reaction : node.view.react node.role (.remove ⟨leaver, index⟩) =
      ⟨after, [.forget leaver, .hangUp leaver, .reconcile] ++
        after.tellAll (after.clusterPeers ++
          if node.view.sharesCluster leaver then [after.mainServer] else [])
          (.remove ⟨leaver, index⟩)⟩ := by
    rw [dismissal.react_remove peerMem belongs, role]
    simp only [View.relayRemove, removed]
  rw [reaction]
  refine .of_tellAll rosterEq written (fun _ => rfl) ?_
    (fun other tells => dismissal.literal_latter (dismissal.mem_of_tells tells)) fun _ _ => rfl
  intro other
  have superior : (other ∈ if node.view.sharesCluster leaver then [after.mainServer] else []) ↔
      former.Together peer leaver ∧ other = mainServer := by
    rw [← shares, mainServerEq]
    split <;> simp_all
  rw [List.mem_append, View.mem_clusterPeers_of_rosterEq rosterEq dismissal.sound.distinct,
    superior, selfEq]
  simp only [Change.departure, dismissal.presides.selfEq, if_neg away, leads, true_and]
  tauto

/-- A client has nobody to tell. -/
theorem spreads_client (belongs : node.Belongs mainServer peer) (away : peer ≠ mainServer)
    (peerMem : peer ∈ latter.members) (serves : peer ∉ former.servers)
    (same : node.view.toRoster = former.toRoster) :
    (Change.departure former latter leaver index promoted root).Spreads peer
      (node.view.react node.role (.remove ⟨leaver, index⟩)) := by
  obtain ⟨after, removed, rosterEq, _⟩ := dismissal.exists_remove same
  have role := belongs.role_eq_client away ((congrArg Roster.servers same) ▸ serves)
  have reaction : node.view.react node.role (.remove ⟨leaver, index⟩) =
      ⟨after, [.hangUp leaver, .reconcile]⟩ := by
    rw [dismissal.react_remove peerMem belongs, role]
    simp only [View.learnRemove, removed]
  rw [reaction]
  refine .of_silent rosterEq (fun _ => rfl) ?_
  rintro other ⟨_, tells⟩
  rw [if_neg (dismissal.presides.selfEq ▸ away)] at tells
  exact serves tells.1

/-- Whoever still has the former roster takes over the change. -/
theorem spreads (peerMem : peer ∈ latter.members) (belongs : node.Belongs mainServer peer)
    (same : node.view.toRoster = former.toRoster) :
    (Change.departure former latter leaver index promoted root).Spreads peer
      (node.view.react node.role (.remove ⟨leaver, index⟩)) := by
  by_cases main : peer = mainServer
  · subst main
    exact dismissal.spreads_main belongs same
  · by_cases leads : peer ∈ former.servers
    · exact dismissal.spreads_server belongs main peerMem leads same
    · exact dismissal.spreads_client belongs main peerMem leads same

/-- Whoever knows of the departure already does nothing about it. -/
theorem rests (peerMem : peer ∈ latter.members) (belongs : node.Belongs mainServer peer)
    (knows : node.view.toRoster = latter.toRoster) :
    (Change.departure former latter leaver index promoted root).Rests
      (node.view.react node.role (.remove ⟨leaver, index⟩)) := by
  have gone : leaver ∉ node.view.members := by
    have members : node.view.members = latter.members := congrArg Roster.members knows
    rw [members]
    exact fun stays => (dismissal.mem_members_iff.mp stays).2 rfl
  have removed : node.view.remove ⟨leaver, index⟩ = .ok (.notPresent, node.view) :=
    View.remove_of_notMem gone
  have reaction : node.view.react node.role (.remove ⟨leaver, index⟩) = node.view.ignore := by
    rw [dismissal.react_remove peerMem belongs]
    cases node.role <;> simp only [View.expel, View.relayRemove, View.learnRemove, removed]
  rw [reaction]
  exact ⟨knows, fun _ => rfl⟩

/-! ## The first to hear -/

/-- Whoever leaves says so to somebody who oversees it. -/
theorem exists_farewell (belongs : node.Belongs mainServer leaver)
    (same : node.view.toRoster = former.toRoster) :
    ∃ overseer ∈ latter.members, former.Oversees overseer leaver ∧
      node.view.farewell node.role = [.tell overseer (.remove ⟨leaver, index⟩)] := by
  have found : node.view.clusterOf? leaver = some index :=
    (View.clusterOf?_congr same leaver).trans dismissal.found
  have serversEq : node.view.servers = former.servers := congrArg Roster.servers same
  by_cases leads : leaver ∈ former.servers
  · refine ⟨mainServer, dismissal.main_mem, .inl dismissal.presides.selfEq.symm, ?_⟩
    rw [belongs.role_eq_clusterServer dismissal.away (serversEq ▸ leads)]
    simp only [View.farewell, belongs.selfEq, belongs.mainServerEq, found]
  · obtain ⟨server, serves⟩ := dismissal.presides.exists_serves dismissal.member
    have together := dismissal.presides.together serves
    have different : server ≠ leaver := fun own => leads (own ▸ serves.mem_servers)
    have served : node.view.serverOf? leaver = some server :=
      (View.serverOf?_congr same leaver).trans
        ((View.serverOf?_eq_some_iff dismissal.presides.distinct).mpr serves)
    refine ⟨server, dismissal.mem_members_iff.mpr ⟨together.mem_members, different⟩,
      .inr ⟨serves.mem_servers, together⟩, ?_⟩
    rw [belongs.role_eq_client dismissal.away (serversEq ▸ leads)]
    simp only [View.farewell, belongs.selfEq, served, found]

/-- Whoever watches a member oversees it. -/
theorem oversees_of_mem_watched (belongs : node.Belongs mainServer peer)
    (same : node.view.toRoster = former.toRoster) (watched : leaver ∈ node.view.watched) :
    former.Oversees peer leaver := by
  have serversEq : node.view.servers = former.servers := congrArg Roster.servers same
  by_cases main : peer = mainServer
  · exact .inl (main.trans dismissal.presides.selfEq.symm)
  · unfold View.watched at watched
    rw [← belongs.roleEq] at watched
    by_cases leads : peer ∈ former.servers
    · rw [belongs.role_eq_clusterServer main (serversEq ▸ leads)] at watched
      have near := (View.mem_clusterPeers_of_rosterEq same dismissal.presides.distinct).mp
        (Peer.mem_ascending.mp watched)
      exact .inr ⟨leads, belongs.selfEq ▸ near.2⟩
    · rw [belongs.role_eq_client main (serversEq ▸ leads)] at watched
      contradiction

/-- Silence is noticed as a removal. -/
theorem reactToSilence_eq (same : node.view.toRoster = former.toRoster)
    (watched : leaver ∈ node.view.watched) :
    node.view.reactToSilence node.role leaver =
      node.view.react node.role (.remove ⟨leaver, index⟩) := by
  rw [View.reactToSilence, if_pos (List.contains_iff_mem.mpr watched),
    View.clusterOf?_congr same, dismissal.found]
  rfl

/-- All members come to know of the departure. -/
theorem lawful (oversees : former.Oversees root leaver) :
    (Change.departure former latter leaver index promoted root).Lawful mainServer where
  mainMem := dismissal.main_mem
  literal _ peerMem := dismissal.literal_latter peerMem
  tellsMem tells := dismissal.mem_of_tells tells
  reaches _ peerMem := dismissal.reaches oversees peerMem
  spreads peerMem _ belongs behind := dismissal.spreads peerMem belongs behind
  rests peerMem belongs knows := dismissal.rests peerMem belongs knows

end

end Dismissal

end ClusterOverlay
