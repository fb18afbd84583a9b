import Mathlib.Data.List.Nodup
import ClusterOverlay.Routing

/-!
# Membership

A roster is *led* if every cluster has a server who is one of its members, and
*sound* if besides nobody occurs in it twice.  In a sound roster every member
has one home, and the questions that a view answers by searching have answers
that do not depend on the order of the search: `View.clusterOf?_eq_some_iff`,
`View.serverOf?_eq_some_iff` and `View.mem_clusterPeers_iff`.
-/

namespace ClusterOverlay

/-- A peer of a small network, to give examples with. -/
def Peer.numbered (number : UInt8) : Peer :=
  .ofEndpoint ⟨⟨10, 0, 0, number⟩, 9000⟩

namespace Roster

/-- The members of all clusters, in order. -/
def members (roster : Roster) : List Peer :=
  roster.clusters.flatten

/-- The peer belongs to the cluster with the given index. -/
def Home (roster : Roster) (index : Nat) (peer : Peer) : Prop :=
  ∃ cluster, roster.clusters[index]? = some cluster ∧ peer ∈ cluster

/-- The peers belong to one cluster. -/
def Together (roster : Roster) (left right : Peer) : Prop :=
  ∃ index, roster.Home index left ∧ roster.Home index right

/-- The server leads a cluster that the peer belongs to. -/
def Serves (roster : Roster) (server peer : Peer) : Prop :=
  ∃ index, roster.Home index peer ∧ roster.servers[index]? = some server

/-- Every cluster has a server, who is one of its members. -/
structure Led (roster : Roster) : Prop where
  lengthEq : roster.clusters.length = roster.servers.length
  serverMem : ∀ {index : Nat} {cluster : List Peer} {server : Peer},
    roster.clusters[index]? = some cluster → roster.servers[index]? = some server →
      server ∈ cluster

/-- The roster is led, and nobody occurs in it twice. -/
structure Sound (roster : Roster) : Prop extends Led roster where
  distinct : roster.members.Nodup

/-- A roster is led if it passes the check that readers make. -/
theorem led_iff_check {roster : Roster} : roster.Led ↔ roster.check = .ok () := by
  unfold check
  by_cases lengthEq : roster.clusters.length = roster.servers.length
  · rw [if_neg (not_not.mpr lengthEq)]
    constructor
    · intro led
      split
      · next index failed =>
          rcases List.findIdx?_eq_some_iff_getElem.mp failed with ⟨bound, outside, _⟩
          rw [List.length_zip, Nat.lt_min] at bound
          have inside := led.serverMem (List.getElem?_eq_getElem bound.1)
            (List.getElem?_eq_getElem bound.2)
          exact absurd inside (by simpa using outside)
      · rfl
    · intro passed
      split at passed
      · contradiction
      · next none =>
          refine ⟨lengthEq, ?_⟩
          intro index cluster server found leads
          have pairMem : (cluster, server) ∈ roster.clusters.zip roster.servers :=
            List.mem_of_getElem? (List.getElem?_zip_eq_some.mpr ⟨found, leads⟩)
          simpa using List.findIdx?_eq_none_iff.mp none _ pairMem
  · rw [if_pos lengthEq]
    exact ⟨fun led => absurd led.lengthEq lengthEq, fun passed => by contradiction⟩

/-! ## Homes -/

theorem mem_members_iff {roster : Roster} {peer : Peer} :
    peer ∈ roster.members ↔ ∃ index, roster.Home index peer := by
  rw [members, List.mem_flatten]
  constructor
  · rintro ⟨cluster, clusterMem, peerMem⟩
    rcases List.mem_iff_getElem?.mp clusterMem with ⟨index, found⟩
    exact ⟨index, cluster, found, peerMem⟩
  · rintro ⟨index, cluster, found, peerMem⟩
    exact ⟨cluster, List.mem_of_getElem? found, peerMem⟩

theorem Home.index_lt {roster : Roster} {index : Nat} {peer : Peer}
    (home : roster.Home index peer) : index < roster.clusters.length := by
  rcases home with ⟨cluster, found, _⟩
  exact (List.getElem?_eq_some_iff.mp found).1

theorem Home.mem_members {roster : Roster} {index : Nat} {peer : Peer}
    (home : roster.Home index peer) : peer ∈ roster.members :=
  mem_members_iff.mpr ⟨index, home⟩

/-- Where nobody occurs twice, every member has one home. -/
theorem Home.unique {roster : Roster} (distinct : roster.members.Nodup) {first second : Nat}
    {peer : Peer} (firstHome : roster.Home first peer) (secondHome : roster.Home second peer) :
    first = second := by
  rcases firstHome with ⟨firstCluster, firstFound, firstMem⟩
  rcases secondHome with ⟨secondCluster, secondFound, secondMem⟩
  rcases List.getElem?_eq_some_iff.mp firstFound with ⟨firstBound, rfl⟩
  rcases List.getElem?_eq_some_iff.mp secondFound with ⟨secondBound, rfl⟩
  have apart := List.pairwise_iff_getElem.mp (List.nodup_flatten.mp distinct).2
  rcases Nat.lt_trichotomy first second with before | same | after
  · exact absurd secondMem (apart first second firstBound secondBound before firstMem)
  · exact same
  · exact absurd firstMem (apart second first secondBound firstBound after secondMem)

/-- Every server belongs to the cluster that it leads. -/
theorem Led.home {roster : Roster} (led : roster.Led) {index : Nat} {server : Peer}
    (leads : roster.servers[index]? = some server) : roster.Home index server := by
  have bound : index < roster.clusters.length := by
    rw [led.lengthEq]
    exact (List.getElem?_eq_some_iff.mp leads).1
  have found := List.getElem?_eq_getElem bound
  exact ⟨_, found, led.serverMem found leads⟩

/-- Every cluster has a server. -/
theorem Led.exists_server {roster : Roster} (led : roster.Led) {index : Nat} {peer : Peer}
    (home : roster.Home index peer) : ∃ server, roster.servers[index]? = some server := by
  have bound := home.index_lt
  rw [led.lengthEq] at bound
  exact ⟨_, List.getElem?_eq_getElem bound⟩

/-- No cluster is empty. -/
theorem Led.ne_nil {roster : Roster} (led : roster.Led) {cluster : List Peer}
    (clusterMem : cluster ∈ roster.clusters) : cluster ≠ [] := by
  rcases List.mem_iff_getElem?.mp clusterMem with ⟨index, found⟩
  have bound : index < roster.servers.length :=
    led.lengthEq ▸ (List.getElem?_eq_some_iff.mp found).1
  exact List.ne_nil_of_mem (led.serverMem found (List.getElem?_eq_getElem bound))

/-! ## Neighbours and servers -/

theorem together_iff_exists_mem {roster : Roster} {left right : Peer} :
    roster.Together left right ↔
      ∃ cluster ∈ roster.clusters, left ∈ cluster ∧ right ∈ cluster := by
  constructor
  · rintro ⟨index, ⟨cluster, found, leftMem⟩, ⟨same, sameFound, rightMem⟩⟩
    rw [found, Option.some.injEq] at sameFound
    exact ⟨cluster, List.mem_of_getElem? found, leftMem, sameFound ▸ rightMem⟩
  · rintro ⟨cluster, clusterMem, leftMem, rightMem⟩
    obtain ⟨index, found⟩ := List.mem_iff_getElem?.mp clusterMem
    exact ⟨index, ⟨cluster, found, leftMem⟩, cluster, found, rightMem⟩

theorem Together.symm {roster : Roster} {left right : Peer}
    (together : roster.Together left right) : roster.Together right left := by
  rcases together with ⟨index, leftHome, rightHome⟩
  exact ⟨index, rightHome, leftHome⟩

theorem Together.trans {roster : Roster} (distinct : roster.members.Nodup)
    {left middle right : Peer} (first : roster.Together left middle)
    (second : roster.Together middle right) : roster.Together left right := by
  rcases first with ⟨index, leftHome, middleHome⟩
  rcases second with ⟨place, otherHome, rightHome⟩
  rw [middleHome.unique distinct otherHome] at leftHome
  exact ⟨place, leftHome, rightHome⟩

theorem Together.mem_members {roster : Roster} {left right : Peer}
    (together : roster.Together left right) : left ∈ roster.members := by
  rcases together with ⟨index, leftHome, _⟩
  exact leftHome.mem_members

/-- Every member has a server. -/
theorem Led.exists_serves {roster : Roster} (led : roster.Led) {peer : Peer}
    (peerMem : peer ∈ roster.members) : ∃ server, roster.Serves server peer := by
  rcases mem_members_iff.mp peerMem with ⟨index, home⟩
  rcases led.exists_server home with ⟨server, leads⟩
  exact ⟨server, index, home, leads⟩

theorem Serves.mem_servers {roster : Roster} {server peer : Peer}
    (serves : roster.Serves server peer) : server ∈ roster.servers := by
  rcases serves with ⟨index, _, leads⟩
  exact List.mem_of_getElem? leads

theorem Led.together {roster : Roster} (led : roster.Led) {server peer : Peer}
    (serves : roster.Serves server peer) : roster.Together server peer := by
  rcases serves with ⟨index, home, leads⟩
  exact ⟨index, led.home leads, home⟩

/-- Every server serves itself. -/
theorem Led.serves_self {roster : Roster} (led : roster.Led) {server : Peer}
    (serverMem : server ∈ roster.servers) : roster.Serves server server := by
  rcases List.mem_iff_getElem?.mp serverMem with ⟨index, leads⟩
  exact ⟨index, led.home leads, leads⟩

theorem Led.servers_subset {roster : Roster} (led : roster.Led) {server : Peer}
    (serverMem : server ∈ roster.servers) : server ∈ roster.members :=
  (led.together (led.serves_self serverMem)).mem_members

/-- Where nobody occurs twice, the members of a cluster have one server. -/
theorem Serves.of_together {roster : Roster} (distinct : roster.members.Nodup)
    {server peer other : Peer} (serves : roster.Serves server peer)
    (together : roster.Together peer other) : roster.Serves server other := by
  rcases serves with ⟨index, home, leads⟩
  rcases together with ⟨place, peerHome, otherHome⟩
  rw [home.unique distinct peerHome] at leads
  exact ⟨place, otherHome, leads⟩

theorem Serves.unique {roster : Roster} (distinct : roster.members.Nodup)
    {first second peer : Peer} (firstServes : roster.Serves first peer)
    (secondServes : roster.Serves second peer) : first = second := by
  rcases firstServes with ⟨index, home, leads⟩
  rcases secondServes with ⟨place, otherHome, otherLeads⟩
  rw [home.unique distinct otherHome] at leads
  exact Option.some.inj (leads.symm.trans otherLeads)

/-- No two servers lead one cluster. -/
theorem Sound.eq_of_together {roster : Roster} (sound : roster.Sound) {left right : Peer}
    (leftMem : left ∈ roster.servers) (rightMem : right ∈ roster.servers)
    (together : roster.Together left right) : left = right :=
  Serves.unique sound.distinct ((sound.serves_self leftMem).of_together sound.distinct together)
    (sound.serves_self rightMem)

/-- Nobody leads two clusters. -/
theorem Sound.nodup_servers {roster : Roster} (sound : roster.Sound) : roster.servers.Nodup := by
  rw [List.nodup_iff_getElem?_ne_getElem?]
  intro first second before bound same
  have leads : roster.servers[second]? = some _ := List.getElem?_eq_getElem bound
  have home := sound.home leads
  exact Nat.ne_of_lt before ((sound.home (same.trans leads)).unique sound.distinct home)

/-- The view of a node that holds a roster. -/
def held (roster : Roster) (mainServer : Peer) (cursor : Peer → Nat) (node : Peer) : View :=
  ⟨roster, node, mainServer, cursor node⟩

end Roster

/-! ## Questions asked of a view -/

namespace View

theorem clusterOf?_eq_none_iff {view : View} {peer : Peer} :
    view.clusterOf? peer = none ↔ peer ∉ view.members := by
  simp [clusterOf?, Roster.members, List.findIdx?_eq_none_iff]

/-- The cluster found is one that the peer belongs to. -/
theorem home_of_clusterOf? {view : View} {peer : Peer} {index : Nat}
    (found : view.clusterOf? peer = some index) : view.Home index peer := by
  rcases List.findIdx?_eq_some_iff_getElem.mp found with ⟨bound, holds, _⟩
  exact ⟨_, List.getElem?_eq_getElem bound, by simpa using holds⟩

theorem contains_iff {view : View} {peer : Peer} :
    view.contains peer = true ↔ peer ∈ view.members := by
  rw [contains, Option.isSome_iff_ne_none, ne_eq, clusterOf?_eq_none_iff, not_not]

theorem clusterOf?_eq_some_iff {view : View} (distinct : view.members.Nodup) {peer : Peer}
    {index : Nat} : view.clusterOf? peer = some index ↔ view.Home index peer := by
  constructor
  · exact home_of_clusterOf?
  · intro home
    cases found : view.clusterOf? peer with
    | none => exact absurd home.mem_members (clusterOf?_eq_none_iff.mp found)
    | some other => rw [(home_of_clusterOf? found).unique distinct home]

theorem serverOf?_eq_some_iff {view : View} (distinct : view.members.Nodup)
    {peer server : Peer} : view.serverOf? peer = some server ↔ view.Serves server peer := by
  simp only [serverOf?, Option.bind_eq_some_iff, clusterOf?_eq_some_iff distinct, Roster.Serves]

/-- Two peers are on the route within a cluster if they belong to one. -/
theorem routeTo_eq_sameCluster_iff {view : View} (distinct : view.members.Nodup) {peer : Peer} :
    view.routeTo peer = .sameCluster ↔ view.Together view.self peer := by
  unfold routeTo
  constructor
  · intro route
    split at route
    · next own other ownEq otherEq =>
        split at route
        · next same =>
            subst same
            exact ⟨own, home_of_clusterOf? ownEq, home_of_clusterOf? otherEq⟩
        · contradiction
    · contradiction
  · rintro ⟨index, ownHome, otherHome⟩
    rw [(clusterOf?_eq_some_iff distinct).mpr ownHome,
      (clusterOf?_eq_some_iff distinct).mpr otherHome]
    exact if_pos rfl

theorem routeTo_eq_otherCluster {view : View} {peer : Peer}
    (apart : view.routeTo peer ≠ .sameCluster) : view.routeTo peer = .otherCluster := by
  unfold routeTo at apart ⊢
  split
  · next ownEq otherEq =>
      simp only [ownEq, otherEq] at apart
      split
      · next same => exact absurd (if_pos same) apart
      · rfl
  · rfl

/-- The four ways to reach a peer without a relay. -/
theorem reaches_iff {view : View} {peer : Peer} :
    view.reaches peer = true ↔
      view.serverOf? peer = some view.self ∨ view.serverOf? view.self = some peer ∨
        (view.self = view.mainServer ∧ peer ∈ view.servers) ∨
        (view.self ∈ view.servers ∧ peer = view.mainServer) := by
  simp only [reaches, isMainServer, isClusterServer, Bool.or_eq_true, Bool.and_eq_true,
    decide_eq_true_iff, List.contains_iff_mem, or_assoc]

theorem clusterPeers_eq_of_home {view : View} (distinct : view.members.Nodup) {index : Nat}
    {cluster : List Peer} (found : view.clusters[index]? = some cluster)
    (own : view.self ∈ cluster) : view.clusterPeers = cluster.filter (· ≠ view.self) := by
  have place := (clusterOf?_eq_some_iff distinct).mpr ⟨cluster, found, own⟩
  simp [clusterPeers, place, found]

/-- No node is among its own peers, whatever its view. -/
theorem self_notMem_clusterPeers (view : View) : view.self ∉ view.clusterPeers := by
  unfold clusterPeers
  split <;> simp

theorem mem_clusterPeers_iff {view : View} (distinct : view.members.Nodup) {peer : Peer} :
    peer ∈ view.clusterPeers ↔
      peer ≠ view.self ∧ view.Together view.self peer := by
  constructor
  · intro peerMem
    unfold clusterPeers at peerMem
    split at peerMem
    · next cluster found =>
        rcases Option.bind_eq_some_iff.mp found with ⟨index, place, clusterEq⟩
        rcases List.mem_filter.mp peerMem with ⟨memCluster, other⟩
        exact ⟨by simpa using other, index, home_of_clusterOf? place, cluster, clusterEq,
          memCluster⟩
    · contradiction
  · rintro ⟨other, index, ⟨cluster, found, own⟩, ⟨same, sameFound, peerMem⟩⟩
    rw [found, Option.some.injEq] at sameFound
    subst same
    rw [clusterPeers_eq_of_home distinct found own]
    exact List.mem_filter.mpr ⟨peerMem, by simpa using other⟩

/-- Whoever the node itself is the server of is one of its own. -/
theorem eq_self_or_mem_clusterPeers {view : View} (sound : view.Sound) {peer : Peer}
    (leads : view.serverOf? peer = some view.self) :
    peer = view.self ∨ peer ∈ view.clusterPeers := by
  by_cases own : peer = view.self
  · exact .inl own
  · have serves := (serverOf?_eq_some_iff sound.distinct).mp leads
    exact .inr ((mem_clusterPeers_iff sound.distinct).mpr ⟨own, sound.together serves⟩)

theorem nodup_clusterPeers {view : View} (distinct : view.members.Nodup) :
    view.clusterPeers.Nodup := by
  unfold clusterPeers
  split
  · next cluster found =>
      obtain ⟨index, _, clusterEq⟩ := Option.bind_eq_some_iff.mp found
      exact ((List.nodup_flatten.mp distinct).1 cluster (List.mem_of_getElem? clusterEq)).filter _
  · exact List.nodup_nil

/-! ### Roles -/

theorem role_of_self_eq {view : View} (main : view.self = view.mainServer) :
    view.role = .mainServer := by
  simp [role, isMainServer, main]

theorem role_of_self_mem_servers {view : View} (away : view.self ≠ view.mainServer)
    (leads : view.self ∈ view.servers) : view.role = .clusterServer := by
  simp [role, isMainServer, isClusterServer, away, leads]

theorem role_of_self_notMem_servers {view : View} (away : view.self ≠ view.mainServer)
    (led : view.self ∉ view.servers) : view.role = .client := by
  simp [role, isMainServer, isClusterServer, away, led]

/-- Whoever leads a cluster is no client. -/
theorem role_ne_client {view : View} (leads : view.self ∈ view.servers) :
    view.role ≠ .client := by
  by_cases main : view.self = view.mainServer
  · simp [role_of_self_eq main]
  · simp [role_of_self_mem_servers main leads]

end View

end ClusterOverlay
