import ClusterOverlay.Proofs.Membership

/-!
# Arrivals and departures

What placing and removing a peer can make of a view, one constructor for each
outcome.  `View.place_arrival` and `View.remove_departure` say that nothing
else happens; in particular no removal from a led view fails.  From then on
only the outcomes matter: an arrival adds the peer to the members, a departure
takes it away, and both keep a roster sound.
-/

namespace ClusterOverlay

/-! ## Lists of clusters -/

namespace Roster

/-- A peer that joins one of the clusters joins their members. -/
theorem flatten_modify_append_perm {clusters : List (List Peer)} {index : Nat}
    (bound : index < clusters.length) (peer : Peer) :
    (clusters.modify index (· ++ [peer])).flatten.Perm (clusters.flatten ++ [peer]) := by
  induction clusters generalizing index with
  | nil => simp at bound
  | cons first rest ih =>
      cases index with
      | zero =>
          simp only [List.modify_zero_cons, List.flatten_cons, List.append_assoc]
          exact List.Perm.append_left first List.perm_append_comm
      | succ index =>
          simp only [List.modify_succ_cons, List.flatten_cons, List.append_assoc]
          exact List.Perm.append_left first (ih (by simpa using bound))

/-- Taking a peer out of all clusters takes it out of the only one that it belongs to. -/
theorem map_filter_eq_set {roster : Roster} (distinct : roster.members.Nodup) {index : Nat}
    {cluster : List Peer} {peer : Peer} (found : roster.clusters[index]? = some cluster)
    (own : peer ∈ cluster) :
    roster.clusters.map (·.filter (· ≠ peer)) =
      roster.clusters.set index (cluster.filter (· ≠ peer)) := by
  apply List.ext_getElem?
  intro position
  rw [List.getElem?_set, List.getElem?_map]
  split
  · next same =>
      subst same
      rw [if_pos (List.getElem?_eq_some_iff.mp found).1, found, Option.map_some]
  · next different =>
      cases otherFound : roster.clusters[position]? with
      | none => rfl
      | some other =>
          have absent : peer ∉ other := fun peerMem =>
            different (Home.unique distinct ⟨cluster, found, own⟩ ⟨other, otherFound, peerMem⟩)
          have kept : other.filter (· ≠ peer) = other := by
            rw [List.filter_eq_self]
            intro member memberMem
            simpa using fun same : member = peer => absent (same ▸ memberMem)
          rw [Option.map_some, kept]

/-- Taking a peer out of its only cluster takes it out of the members. -/
theorem flatten_set_filter {roster : Roster} (distinct : roster.members.Nodup) {index : Nat}
    {cluster : List Peer} {peer : Peer} (found : roster.clusters[index]? = some cluster)
    (own : peer ∈ cluster) :
    (roster.clusters.set index (cluster.filter (· ≠ peer))).flatten =
      roster.members.filter (· ≠ peer) := by
  rw [members, List.filter_flatten, ← map_filter_eq_set distinct found own]

/-- Dropping an empty cluster drops no member. -/
theorem flatten_eraseIdx {clusters : List (List Peer)} {index : Nat}
    (bound : index < clusters.length) :
    (clusters.eraseIdx index).flatten = (clusters.set index []).flatten := by
  rw [List.eraseIdx_eq_take_drop_succ, List.set_eq_take_append_cons_drop, if_pos bound]
  simp

/-- Who leaves a cluster leaves the order of the others. -/
theorem flatten_set_sublist {clusters : List (List Peer)} {index : Nat}
    {cluster kept : List Peer} (found : clusters[index]? = some cluster)
    (less : kept.Sublist cluster) : (clusters.set index kept).flatten.Sublist clusters.flatten := by
  induction clusters generalizing index with
  | nil => contradiction
  | cons first rest inductionHypothesis =>
      cases index with
      | zero =>
          cases found
          exact less.append (List.Sublist.refl _)
      | succ index =>
          exact (List.Sublist.refl first).append (inductionHypothesis found)

theorem length_flatten_set_lt {clusters : List (List Peer)} {index : Nat}
    {cluster kept : List Peer} (found : clusters[index]? = some cluster)
    (fewer : kept.length < cluster.length) :
    (clusters.set index kept).flatten.length < clusters.flatten.length := by
  induction clusters generalizing index with
  | nil => contradiction
  | cons first rest inductionHypothesis =>
      cases index with
      | zero =>
          cases found
          simpa using fewer
      | succ index => simpa using inductionHypothesis found

/-- A new cluster has its only member for a server. -/
theorem Led.opened {roster : Roster} (led : roster.Led) (peer : Peer) :
    Led ⟨roster.clusters ++ [[peer]], roster.servers ++ [peer]⟩ := by
  refine ⟨by simp [led.lengthEq], ?_⟩
  intro position cluster server found leads
  rcases Nat.lt_or_ge position roster.clusters.length with before | last
  · rw [List.getElem?_append_left before] at found
    rw [List.getElem?_append_left (led.lengthEq ▸ before)] at leads
    exact led.serverMem found leads
  · rw [List.getElem?_append_right last] at found
    rw [List.getElem?_append_right (led.lengthEq ▸ last), ← led.lengthEq] at leads
    have clusterMem := List.mem_of_getElem? found
    have serverMem := List.mem_of_getElem? leads
    rw [List.mem_singleton] at clusterMem serverMem
    simp [clusterMem, serverMem]

/-- A cluster that somebody joins keeps its server. -/
theorem Led.joined {roster : Roster} (led : roster.Led) (index : Nat) (peer : Peer) :
    Led ⟨roster.clusters.modify index (· ++ [peer]), roster.servers⟩ := by
  refine ⟨by simp [led.lengthEq], ?_⟩
  intro position cluster server found leads
  rw [List.getElem?_modify, Option.map_eq_map, Option.map_eq_some_iff] at found
  rcases found with ⟨former, formerFound, rfl⟩
  have serverMem := led.serverMem formerFound leads
  split
  · exact List.mem_append_left _ serverMem
  · exact serverMem

end Roster

namespace View

/-! ## Arrivals -/

/-- What placing a peer makes of a view. -/
inductive Arrival (view : View) (peer : Peer) : Nat → View → Prop
  /-- The peer keeps the place that it has. -/
  | known {index : Nat} (home : view.Home index peer) : Arrival view peer index view
  /-- The peer opens a cluster and leads it. -/
  | opens (unknown : peer ∉ view.members) (room : view.clusters.length < clusterLimit) :
      Arrival view peer view.clusters.length
        { view with clusters := view.clusters ++ [[peer]], servers := view.servers ++ [peer] }
  /-- The peer joins the cluster that the cursor designates. -/
  | joins (unknown : peer ∉ view.members) (full : clusterLimit ≤ view.clusters.length) :
      Arrival view peer (view.cursor % view.clusters.length)
        { view with
          clusters := view.clusters.modify (view.cursor % view.clusters.length) (· ++ [peer])
          cursor := (view.cursor % view.clusters.length + 1) % view.clusters.length }

theorem place_arrival (view : View) (peer : Peer) :
    view.Arrival peer (view.place peer).1 (view.place peer).2 := by
  unfold place
  split
  · next index found => exact .known (home_of_clusterOf? found)
  · next unknown =>
      rw [clusterOf?_eq_none_iff] at unknown
      split
      · next room => exact .opens unknown room
      · next full => exact .joins unknown (Nat.not_lt.mp full)

namespace Arrival

variable {view after : View} {peer : Peer} {index : Nat}

theorem self_eq (arrival : view.Arrival peer index after) : after.self = view.self := by
  cases arrival <;> rfl

theorem mainServer_eq (arrival : view.Arrival peer index after) :
    after.mainServer = view.mainServer := by
  cases arrival <;> rfl

/-- The designated cluster exists once the limit is reached. -/
theorem mod_lt_of_full (full : clusterLimit ≤ view.clusters.length) :
    view.cursor % view.clusters.length < view.clusters.length :=
  Nat.mod_lt _ (Nat.lt_of_lt_of_le (by decide) full)

/-- A peer that has arrived is where it was placed. -/
theorem home (arrival : view.Arrival peer index after) : after.Home index peer := by
  cases arrival with
  | known home => exact home
  | opens unknown room =>
      exact ⟨[peer], by simp, List.mem_singleton.mpr rfl⟩
  | joins unknown full =>
      have found := List.getElem?_eq_getElem (mod_lt_of_full full)
      refine ⟨_, by rw [List.getElem?_modify, found]; rfl, ?_⟩
      simp

/-- Either the peer was a member already, or the members are now the former
ones and the peer. -/
theorem members_perm (arrival : view.Arrival peer index after) :
    peer ∈ view.members ∧ after = view ∨
      peer ∉ view.members ∧ after.members.Perm (view.members ++ [peer]) := by
  cases arrival with
  | known home => exact .inl ⟨home.mem_members, rfl⟩
  | opens unknown room => exact .inr ⟨unknown, by simp [Roster.members]⟩
  | joins unknown full =>
      exact .inr ⟨unknown, Roster.flatten_modify_append_perm (mod_lt_of_full full) peer⟩

theorem mem_members_iff (arrival : view.Arrival peer index after) {other : Peer} :
    other ∈ after.members ↔ other ∈ view.members ∨ other = peer := by
  rcases arrival.members_perm with ⟨peerMem, rfl⟩ | ⟨_, members⟩
  · constructor
    · exact .inl
    · rintro (otherMem | rfl)
      · exact otherMem
      · exact peerMem
  · rw [members.mem_iff, List.mem_append, List.mem_singleton]

theorem led (arrival : view.Arrival peer index after) (led : view.Led) : after.Led := by
  cases arrival with
  | known => exact led
  | opens => exact led.opened peer
  | joins => exact led.joined _ peer

theorem length_clusters_le (arrival : view.Arrival peer index after)
    (within : view.clusters.length ≤ clusterLimit) : after.clusters.length ≤ clusterLimit := by
  cases arrival with
  | known => exact within
  | opens unknown room => simpa using Nat.succ_le_of_lt room
  | joins => simpa using within

theorem sound (arrival : view.Arrival peer index after) (sound : view.Sound) : after.Sound := by
  refine ⟨arrival.led sound.toLed, ?_⟩
  rcases arrival.members_perm with ⟨_, rfl⟩ | ⟨unknown, members⟩
  · exact sound.distinct
  · rw [members.nodup_iff, List.nodup_append]
    refine ⟨sound.distinct, List.nodup_singleton peer, ?_⟩
    rintro member memberMem _ singletonMem rfl
    rw [List.mem_singleton] at singletonMem
    exact unknown (singletonMem ▸ memberMem)

/-- The former servers are servers still. -/
theorem servers_subset (arrival : view.Arrival peer index after) {server : Peer}
    (serverMem : server ∈ view.servers) : server ∈ after.servers := by
  cases arrival with
  | known | joins => exact serverMem
  | opens => exact List.mem_append_left _ serverMem

/-- The members of a cluster stay together. -/
theorem together (arrival : view.Arrival peer index after) {left right : Peer}
    (together : view.Together left right) : after.Together left right := by
  rw [Roster.together_iff_exists_mem] at together ⊢
  obtain ⟨cluster, clusterMem, leftMem, rightMem⟩ := together
  cases arrival with
  | known => exact ⟨cluster, clusterMem, leftMem, rightMem⟩
  | opens => exact ⟨cluster, List.mem_append_left _ clusterMem, leftMem, rightMem⟩
  | joins =>
      obtain ⟨place, found⟩ := List.mem_iff_getElem?.mp clusterMem
      refine ⟨_, List.mem_of_getElem? (i := place) (by rw [List.getElem?_modify, found]; rfl), ?_⟩
      split
      · exact ⟨List.mem_append_left _ leftMem, List.mem_append_left _ rightMem⟩
      · exact ⟨leftMem, rightMem⟩

end Arrival

/-! ## Departures -/

/-- What removing a peer makes of a view. -/
inductive Departure (view : View) (peer : Peer) : Removal → View → Prop
  /-- There was nobody to remove. -/
  | absent (unknown : peer ∉ view.members) : Departure view peer .notPresent view
  /-- The last member takes the cluster with it. -/
  | last {index : Nat} {cluster : List Peer} (found : view.clusters[index]? = some cluster)
      (own : peer ∈ cluster) (alone : cluster.filter (· ≠ peer) = []) :
      Departure view peer (.removed index true none) (view.dropCluster index)
  /-- The first remaining member takes the server's place. -/
  | server {index : Nat} {cluster : List Peer} {next : Peer} {others : List Peer}
      (found : view.clusters[index]? = some cluster) (own : peer ∈ cluster)
      (rest : cluster.filter (· ≠ peer) = next :: others)
      (leads : view.servers[index]? = some peer) :
      Departure view peer (.removed index false (some next))
        { view with
          clusters := view.clusters.set index (next :: others)
          servers := view.servers.set index next }
  /-- The server stays. -/
  | member {index : Nat} {cluster : List Peer} {next : Peer} {others : List Peer} {server : Peer}
      (found : view.clusters[index]? = some cluster) (own : peer ∈ cluster)
      (rest : cluster.filter (· ≠ peer) = next :: others)
      (leads : view.servers[index]? = some server) (other : server ≠ peer) :
      Departure view peer (.removed index false none)
        { view with clusters := view.clusters.set index (next :: others) }

theorem locate?_eq_none_iff {view : View} {placement : Placement} :
    view.locate? placement = none ↔ placement.peer ∉ view.members := by
  unfold locate?
  split
  · next cluster found =>
      split
      · next own =>
          simp only [reduceCtorEq, false_iff, not_not]
          exact Roster.mem_members_iff.mpr ⟨_, cluster, found, by simpa using own⟩
      · exact clusterOf?_eq_none_iff
  · exact clusterOf?_eq_none_iff

/-- The hint of a placement is followed only to a cluster of the peer. -/
theorem home_of_locate? {view : View} {placement : Placement} {index : Nat}
    (located : view.locate? placement = some index) : view.Home index placement.peer := by
  unfold locate? at located
  split at located
  · next cluster found =>
      split at located
      · next own =>
          rw [Option.some.injEq] at located
          subst located
          exact ⟨cluster, found, by simpa using own⟩
      · exact home_of_clusterOf? located
  · exact home_of_clusterOf? located

/-- A removal that succeeds is a departure. -/
theorem departure_of_remove {view after : View} {placement : Placement} {removal : Removal}
    (removed : view.remove placement = .ok (removal, after)) :
    view.Departure placement.peer removal after := by
  unfold remove at removed
  cases located : view.locate? placement with
  | none =>
      simp only [located] at removed
      cases removed
      exact .absent (locate?_eq_none_iff.mp located)
  | some index =>
      obtain ⟨cluster, found, own⟩ := home_of_locate? located
      simp only [located, found] at removed
      split at removed
      · contradiction
      · next server leads =>
          split at removed
          · next alone =>
              cases removed
              exact .last found own alone
          · next next others rest =>
              split at removed
              · next same =>
                  cases removed
                  exact .server found own rest (same ▸ leads)
              · next other =>
                  cases removed
                  exact .member found own rest leads other

/-- A removal from a led view succeeds. -/
theorem exists_remove_eq_ok {view : View} (led : view.Led) (placement : Placement) :
    ∃ removal after, view.remove placement = .ok (removal, after) := by
  unfold remove
  cases located : view.locate? placement with
  | none => exact ⟨_, _, rfl⟩
  | some index =>
      have home := home_of_locate? located
      obtain ⟨server, leads⟩ := led.exists_server home
      obtain ⟨cluster, found, own⟩ := home
      simp only [leads, found]
      split
      · exact ⟨_, _, rfl⟩
      · split <;> exact ⟨_, _, rfl⟩

/-- A removal from a led view succeeds, and is a departure. -/
theorem remove_departure {view : View} (led : view.Led) (placement : Placement) :
    ∃ removal after, view.remove placement = .ok (removal, after) ∧
      view.Departure placement.peer removal after := by
  obtain ⟨removal, after, removed⟩ := exists_remove_eq_ok led placement
  exact ⟨removal, after, removed, departure_of_remove removed⟩

namespace Departure

variable {view after : View} {peer : Peer} {removal : Removal}

theorem self_eq (departure : view.Departure peer removal after) : after.self = view.self := by
  cases departure <;> rfl

theorem mainServer_eq (departure : view.Departure peer removal after) :
    after.mainServer = view.mainServer := by
  cases departure <;> rfl

theorem index_lt {cluster : Nat} {dropped : Bool} {promoted : Option Peer}
    (departure : view.Departure peer (.removed cluster dropped promoted) after) :
    cluster < view.clusters.length := by
  cases departure with
  | last found | server found | member found => exact (List.getElem?_eq_some_iff.mp found).1

/-- Unless there was nobody to remove, one cluster keeps those of its members who are
not the peer. -/
theorem exists_members_eq {cluster : Nat} {dropped : Bool} {promoted : Option Peer}
    (departure : view.Departure peer (.removed cluster dropped promoted) after) :
    ∃ members, view.clusters[cluster]? = some members ∧ peer ∈ members ∧
      after.members = (view.clusters.set cluster (members.filter (· ≠ peer))).flatten := by
  cases departure with
  | last found own alone =>
      refine ⟨_, found, own, ?_⟩
      rw [alone]
      exact Roster.flatten_eraseIdx (List.getElem?_eq_some_iff.mp found).1
  | server found own rest | member found own rest =>
      refine ⟨_, found, own, ?_⟩
      rw [rest]
      rfl

/-- Nobody comes, and the order stays. -/
theorem members_sublist (departure : view.Departure peer removal after) :
    after.members.Sublist view.members := by
  cases removal with
  | notPresent =>
      cases departure
      exact List.Sublist.refl _
  | removed =>
      obtain ⟨members, found, _, membersEq⟩ := departure.exists_members_eq
      rw [membersEq]
      exact Roster.flatten_set_sublist found List.filter_sublist

/-- Unless there was nobody to remove, the members become fewer. -/
theorem length_members_lt {cluster : Nat} {dropped : Bool} {promoted : Option Peer}
    (departure : view.Departure peer (.removed cluster dropped promoted) after) :
    after.members.length < view.members.length := by
  obtain ⟨members, found, own, membersEq⟩ := departure.exists_members_eq
  rw [membersEq]
  apply Roster.length_flatten_set_lt found
  exact List.length_filter_lt_length_iff_exists.mpr ⟨peer, own, by simp⟩

/-- Where nobody occurs twice, the others remain, in the same order. -/
theorem members_eq (departure : view.Departure peer removal after)
    (distinct : view.members.Nodup) :
    after.members = view.members.filter (· ≠ peer) := by
  cases removal with
  | notPresent =>
      cases departure with
      | absent unknown =>
          symm
          rw [List.filter_eq_self]
          intro member memberMem
          simpa using fun same : member = peer => unknown (same ▸ memberMem)
  | removed =>
      obtain ⟨members, found, own, membersEq⟩ := departure.exists_members_eq
      rw [membersEq, Roster.flatten_set_filter distinct found own]

theorem mem_members_iff (departure : view.Departure peer removal after)
    (distinct : view.members.Nodup) {other : Peer} :
    other ∈ after.members ↔ other ∈ view.members ∧ other ≠ peer := by
  rw [departure.members_eq distinct, List.mem_filter, decide_eq_true_iff]

theorem led (departure : view.Departure peer removal after) (led : view.Led) : after.Led := by
  cases departure with
  | absent => exact led
  | @last index =>
      constructor
      · simp [dropCluster, List.length_eraseIdx, led.lengthEq]
      · intro position cluster server found leads
        simp only [dropCluster, List.getElem?_eraseIdx] at found leads
        split at found
        · next before =>
            rw [if_pos before] at leads
            exact led.serverMem found leads
        · next after =>
            rw [if_neg after] at leads
            exact led.serverMem found leads
  | @server index =>
      refine ⟨by simp [led.lengthEq], ?_⟩
      intro position cluster server found leads
      rw [List.getElem?_set] at found leads
      split at found
      · next same =>
          rw [if_pos same] at leads
          split at found
          · split at leads
            · rw [Option.some.injEq] at found leads
              subst found leads
              exact List.mem_cons_self
            · contradiction
          · contradiction
      · next different =>
          rw [if_neg different] at leads
          exact led.serverMem found leads
  | @member index cluster next others server found own rest leads other =>
      refine ⟨by simp [led.lengthEq], ?_⟩
      intro position changed leader changedFound leaderLeads
      rw [List.getElem?_set] at changedFound
      split at changedFound
      · next same =>
          subst same
          split at changedFound
          · rw [leads, Option.some.injEq] at leaderLeads
            subst leaderLeads
            rw [Option.some.injEq] at changedFound
            subst changedFound
            rw [← rest, List.mem_filter]
            exact ⟨led.serverMem found leads, by simpa using other⟩
          · contradiction
      · exact led.serverMem changedFound leaderLeads

theorem length_clusters_le (departure : view.Departure peer removal after) :
    after.clusters.length ≤ view.clusters.length := by
  cases departure with
  | absent => exact Nat.le_refl _
  | last => exact List.length_eraseIdx_le _ _
  | server | member => simp

theorem sound (departure : view.Departure peer removal after) (sound : view.Sound) :
    after.Sound := by
  refine ⟨departure.led sound.toLed, ?_⟩
  rw [departure.members_eq sound.distinct]
  exact sound.distinct.filter _

/-- The former servers that stay are servers still. -/
theorem mem_servers (departure : view.Departure peer removal after) (led : view.Led)
    {server : Peer} (serverMem : server ∈ view.servers) (stays : server ≠ peer) :
    server ∈ after.servers := by
  obtain ⟨place, leads⟩ := List.mem_iff_getElem?.mp serverMem
  cases departure with
  | absent | member => exact serverMem
  | @last index cluster found own alone =>
      refine List.mem_eraseIdx_iff_getElem?.mpr ⟨place, ?_, leads⟩
      rintro rfl
      have kept : server ∈ cluster.filter (· ≠ peer) :=
        List.mem_filter.mpr ⟨led.serverMem found leads, decide_eq_true stays⟩
      rw [alone] at kept
      contradiction
  | @server index cluster next others found own rest former =>
      have other : index ≠ place := by
        rintro rfl
        exact stays (Option.some.inj (leads.symm.trans former))
      exact List.mem_of_getElem? ((List.getElem?_set_ne other).trans leads)

/-- The members of a cluster that stay are together still. -/
theorem together (departure : view.Departure peer removal after) {left right : Peer}
    (together : view.Together left right) (leftStays : left ≠ peer) (rightStays : right ≠ peer) :
    after.Together left right := by
  rw [Roster.together_iff_exists_mem] at together ⊢
  obtain ⟨cluster, clusterMem, leftMem, rightMem⟩ := together
  obtain ⟨place, placed⟩ := List.mem_iff_getElem?.mp clusterMem
  have leftKept : left ∈ cluster.filter (· ≠ peer) :=
    List.mem_filter.mpr ⟨leftMem, decide_eq_true leftStays⟩
  have rightKept : right ∈ cluster.filter (· ≠ peer) :=
    List.mem_filter.mpr ⟨rightMem, decide_eq_true rightStays⟩
  have shrunk : ∀ {index : Nat} {former rest : List Peer}, view.clusters[index]? = some former →
      former.filter (· ≠ peer) = rest →
        ∃ changed ∈ view.clusters.set index rest, left ∈ changed ∧ right ∈ changed := by
    intro index former rest found restEq
    by_cases same : index = place
    · subst same
      rw [found, Option.some.injEq] at placed
      subst placed restEq
      exact ⟨_, List.mem_set (List.getElem?_eq_some_iff.mp found).1 _, leftKept, rightKept⟩
    · exact ⟨cluster, List.mem_of_getElem? ((List.getElem?_set_ne same).trans placed), leftMem,
        rightMem⟩
  cases departure with
  | absent => exact ⟨cluster, clusterMem, leftMem, rightMem⟩
  | @last index former found own alone =>
      refine ⟨cluster, List.mem_eraseIdx_iff_getElem?.mpr ⟨place, ?_, placed⟩, leftMem, rightMem⟩
      rintro rfl
      rw [found, Option.some.injEq] at placed
      rw [← placed, alone] at leftKept
      contradiction
  | server found _ rest _ => exact shrunk found rest
  | member found _ rest _ _ => exact shrunk found rest

end Departure

end View

end ClusterOverlay
