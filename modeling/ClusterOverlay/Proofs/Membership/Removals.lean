import ClusterOverlay.Proofs.Membership.Following

/-!
# Removals under any hint

A request to remove a peer names a cluster, and the name may be out of date.
In a sound view it does not matter, `View.remove_eq_of_hint`: the peer goes from the
only cluster that it belongs to.  `Departure.at_home` tells the outcomes apart by that
cluster, and `View.remove_of_sound` says what becomes of everybody else.
-/

namespace ClusterOverlay

namespace Roster

variable {index : Nat} {cluster : List Peer} {clusters : List (List Peer)} {peer : Peer}

/-- Nobody remains of a cluster without a peer if the peer was alone. -/
theorem filter_eq_nil_iff (distinct : cluster.Nodup) (own : peer ∈ cluster) :
    cluster.filter (· ≠ peer) = [] ↔ cluster = [peer] := by
  constructor
  · intro nobody
    have same : ∀ member ∈ cluster, member = peer := by
      simpa [List.filter_eq_nil_iff] using nobody
    have copies : cluster = List.replicate cluster.length peer := List.eq_replicate_of_mem same
    rw [copies, List.nodup_replicate] at distinct
    rw [copies, Nat.le_antisymm distinct (List.length_pos_of_mem own), List.replicate_one]
  · rintro rfl
    simp

/-- Where no cluster is empty, dropping one is emptying it and leaving out what is empty. -/
theorem eraseIdx_eq_filter (filled : ∀ cluster ∈ clusters, cluster ≠ [])
    (bound : index < clusters.length) :
    clusters.eraseIdx index = (clusters.set index []).filter (· ≠ []) := by
  have kept : ∀ {part : List (List Peer)}, part.Sublist clusters →
      part.filter (· ≠ []) = part := by
    intro part less
    rw [List.filter_eq_self]
    intro cluster clusterMem
    exact decide_eq_true (filled cluster (less.subset clusterMem))
  rw [List.eraseIdx_eq_take_drop_succ, List.set_eq_take_append_cons_drop, if_pos bound,
    List.filter_append, List.filter_cons_of_neg (by simp), kept (List.take_sublist _ _),
    kept (List.drop_sublist _ _)]

/-- Where no cluster is empty, and none becomes so, there is none to leave out. -/
theorem set_eq_filter (filled : ∀ cluster ∈ clusters, cluster ≠ []) (some : cluster ≠ []) :
    clusters.set index cluster = (clusters.set index cluster).filter (· ≠ []) := by
  symm
  rw [List.filter_eq_self]
  intro other otherMem
  rcases List.mem_or_eq_of_mem_set otherMem with former | rfl
  · exact decide_eq_true (filled other former)
  · exact decide_eq_true some

/-- Clusters that a peer does not belong to stay as they are without it. -/
theorem map_filter_eq_self (unknown : peer ∉ clusters.flatten) :
    clusters.map (·.filter (· ≠ peer)) = clusters := by
  have kept : ∀ cluster ∈ clusters, cluster.filter (· ≠ peer) = cluster := by
    intro cluster clusterMem
    rw [List.filter_eq_self]
    intro member memberMem
    apply decide_eq_true
    rintro rfl
    exact unknown (List.mem_flatten_of_mem clusterMem memberMem)
  exact (List.map_congr_left kept).trans (List.map_id' clusters)

end Roster

namespace View

open Peer (numbered)

variable {view after : View} {peer : Peer} {removal : Removal} {index : Nat}
variable {cluster : List Peer}

/-! ## Hints -/

/-- Where nobody occurs twice, the cluster of a peer is found under any hint. -/
theorem locate?_eq_clusterOf? (distinct : view.members.Nodup) (peer : Peer) (hint : Nat) :
    view.locate? ⟨peer, hint⟩ = view.clusterOf? peer := by
  cases located : view.locate? ⟨peer, hint⟩ with
  | none => exact (clusterOf?_eq_none_iff.mpr (locate?_eq_none_iff.mp located)).symm
  | some index => exact ((clusterOf?_eq_some_iff distinct).mpr (home_of_locate? located)).symm

/-- What is removed, and what remains, does not depend on the hint. -/
theorem remove_eq_of_hint (distinct : view.members.Nodup) (peer : Peer) (hint other : Nat) :
    view.remove ⟨peer, hint⟩ = view.remove ⟨peer, other⟩ := by
  unfold remove
  rw [locate?_eq_clusterOf? distinct peer hint, locate?_eq_clusterOf? distinct peer other]

/-! ## Outcomes -/

namespace Departure

theorem of_notMem (departure : view.Departure peer removal after) (unknown : peer ∉ view.members) :
    removal = .notPresent ∧ after = view := by
  cases departure with
  | absent => exact ⟨rfl, rfl⟩
  | last found own | server found own | member found own =>
      exact absurd (Roster.Home.mem_members ⟨_, found, own⟩) unknown

/-- What becomes of a view from which a member is removed, told by the cluster of the
member. -/
theorem at_home (departure : view.Departure peer removal after) (distinct : view.members.Nodup)
    (found : view.clusters[index]? = some cluster) (own : peer ∈ cluster) :
    (cluster = [peer] ∧ removal = .removed index true none ∧ after = view.dropCluster index) ∨
      (∃ next others, cluster.filter (· ≠ peer) = next :: others ∧
        view.servers[index]? = some peer ∧ removal = .removed index false (some next) ∧
        after = { view with
          clusters := view.clusters.set index (next :: others)
          servers := view.servers.set index next }) ∨
      ∃ next others server, cluster.filter (· ≠ peer) = next :: others ∧
        view.servers[index]? = some server ∧ server ≠ peer ∧
        removal = .removed index false none ∧
        after = { view with clusters := view.clusters.set index (next :: others) } := by
  have home : view.Home index peer := ⟨cluster, found, own⟩
  -- The departure names the same cluster, since the peer belongs to one only.
  cases departure with
  | absent unknown => exact absurd home.mem_members unknown
  | last otherFound otherOwn alone =>
      obtain rfl := home.unique distinct ⟨_, otherFound, otherOwn⟩
      obtain rfl := Option.some.inj (found.symm.trans otherFound)
      have distinctCluster := (List.nodup_flatten.mp distinct).1 _ (List.mem_of_getElem? found)
      exact .inl ⟨(Roster.filter_eq_nil_iff distinctCluster own).mp alone, rfl, rfl⟩
  | server otherFound otherOwn rest leads =>
      obtain rfl := home.unique distinct ⟨_, otherFound, otherOwn⟩
      obtain rfl := Option.some.inj (found.symm.trans otherFound)
      exact .inr (.inl ⟨_, _, rest, leads, rfl, rfl⟩)
  | member otherFound otherOwn rest leads other =>
      obtain rfl := home.unique distinct ⟨_, otherFound, otherOwn⟩
      obtain rfl := Option.some.inj (found.symm.trans otherFound)
      exact .inr (.inr ⟨_, _, _, rest, leads, other, rfl, rfl⟩)

/-- The clusters keep their order and all members but the peer, and one in which nobody is
left is left out. -/
theorem clusters_eq (departure : view.Departure peer removal after) (sound : view.Sound) :
    after.clusters = (view.clusters.map (·.filter (· ≠ peer))).filter (· ≠ []) := by
  have filled : ∀ cluster ∈ view.clusters, cluster ≠ [] := fun _ => sound.toLed.ne_nil
  cases departure with
  | absent unknown =>
      rw [Roster.map_filter_eq_self unknown, List.filter_eq_self.mpr]
      intro cluster clusterMem
      exact decide_eq_true (filled cluster clusterMem)
  | last found own alone =>
      rw [Roster.map_filter_eq_set sound.distinct found own, alone]
      exact Roster.eraseIdx_eq_filter filled (List.getElem?_eq_some_iff.mp found).1
  | server found own rest | member found own rest =>
      rw [Roster.map_filter_eq_set sound.distinct found own, rest]
      exact Roster.set_eq_filter filled (List.cons_ne_nil _ _)

/-- The others are together with whom they were together before. -/
theorem together_iff (departure : view.Departure peer removal after) (sound : view.Sound)
    {left right : Peer} (leftStays : left ≠ peer) (rightStays : right ≠ peer) :
    after.Together left right ↔ view.Together left right := by
  constructor
  · intro together
    rw [Roster.together_iff_exists_mem] at together ⊢
    rcases together with ⟨cluster, clusterMem, leftMem, rightMem⟩
    rw [departure.clusters_eq sound] at clusterMem
    rcases List.mem_map.mp (List.mem_filter.mp clusterMem).1 with ⟨former, formerMem, rfl⟩
    exact ⟨former, formerMem, (List.mem_filter.mp leftMem).1, (List.mem_filter.mp rightMem).1⟩
  · intro together
    exact departure.together together leftStays rightStays

end Departure

/-- From a sound view a peer is removed in one way, whatever cluster is named.  If it is no
member, nothing changes.  If it is, its cluster is reported, and the others keep their order,
their neighbours and the order of the clusters.  A cluster of which the peer was the only
member goes with its server, and no other server changes.  If the peer led other members, the
first of them leads from now on and is reported.  Otherwise every server stays.  What remains
is sound, and the peer is no member of it. -/
theorem remove_of_sound (sound : view.Sound) (peer : Peer) :
    ∃ removal after, (∀ hint, view.remove ⟨peer, hint⟩ = .ok (removal, after)) ∧
      after.Sound ∧ peer ∉ after.members ∧
      after.members = view.members.filter (· ≠ peer) ∧
      after.clusters = (view.clusters.map (·.filter (· ≠ peer))).filter (· ≠ []) ∧
      (∀ left right, left ≠ peer → right ≠ peer →
        (after.Together left right ↔ view.Together left right)) ∧
      (peer ∉ view.members → removal = .notPresent ∧ after = view) ∧
      ∀ index cluster server, view.clusters[index]? = some cluster → peer ∈ cluster →
        view.servers[index]? = some server →
        (cluster = [peer] → removal = .removed index true none ∧
          after.clusters = view.clusters.eraseIdx index ∧
          after.servers = view.servers.eraseIdx index) ∧
        (cluster ≠ [peer] → server = peer → ∃ next,
          (cluster.filter (· ≠ peer)).head? = some next ∧
          removal = .removed index false (some next) ∧
          after.servers = view.servers.set index next) ∧
        (server ≠ peer → removal = .removed index false none ∧
          after.servers = view.servers) := by
  obtain ⟨removal, after, removed, departure⟩ := remove_departure sound.toLed ⟨peer, 0⟩
  have always : ∀ hint, view.remove ⟨peer, hint⟩ = .ok (removal, after) := by
    intro hint
    rw [remove_eq_of_hint sound.distinct peer hint 0, removed]
  refine ⟨removal, after, always, departure.sound sound,
    notMem_members_of_remove sound.toLed sound.distinct removed,
    departure.members_eq sound.distinct, departure.clusters_eq sound,
    fun left right => departure.together_iff sound, departure.of_notMem, ?_⟩
  intro index cluster server found own leads
  rcases departure.at_home sound.distinct found own with
    ⟨rfl, rfl, rfl⟩ | ⟨next, others, rest, same, rfl, rfl⟩ |
      ⟨next, others, leader, rest, same, other, rfl, rfl⟩
  · have alone : server = peer := List.mem_singleton.mp (sound.serverMem found leads)
    exact ⟨fun _ => ⟨rfl, rfl, rfl⟩, fun others => absurd rfl others,
      fun other => absurd alone other⟩
  · obtain rfl := Option.some.inj (leads.symm.trans same)
    refine ⟨?_, fun _ _ => ⟨next, by rw [rest, List.head?_cons], rfl, rfl⟩,
      fun other => absurd rfl other⟩
    rintro rfl
    simp at rest
  · obtain rfl := Option.some.inj (leads.symm.trans same)
    refine ⟨?_, fun _ same => absurd same other, fun _ => ⟨rfl, rfl⟩⟩
    rintro rfl
    simp at rest

/-- The server of the second cluster is removed under the name of the first.  The other member
of its cluster takes its place. -/
theorem remove_of_sound_server :
    let view : View := ⟨couple, numbered 1, numbered 1, 0⟩
    view.Sound ∧ ∃ after,
      view.remove ⟨numbered 2, 0⟩ = .ok (.removed 1 false (some (numbered 3)), after) ∧
      view.remove ⟨numbered 2, 7⟩ = .ok (.removed 1 false (some (numbered 3)), after) ∧
      after.Sound ∧ after.members = [numbered 1, numbered 3] ∧
      after.servers = [numbered 1, numbered 3] := by
  intro view
  have led : view.Led := Roster.led_iff_check.mpr (by decide +kernel)
  have sound : view.Sound := ⟨led, by decide +kernel⟩
  obtain ⟨removal, after, removed, soundAfter, _, membersEq, _, _, _, atHome⟩ :=
    remove_of_sound sound (numbered 2)
  obtain ⟨_, promotes, _⟩ := atHome 1 [numbered 2, numbered 3] (numbered 2) (by decide +kernel)
    (by decide +kernel) (by decide +kernel)
  obtain ⟨next, nextEq, rfl, serversEq⟩ := promotes (by decide +kernel) rfl
  obtain rfl : numbered 3 = next := Option.some.inj (nextEq ▸ by decide +kernel)
  exact ⟨sound, after, removed 0, removed 7, soundAfter, membersEq.trans (by decide +kernel),
    serversEq.trans (by decide +kernel)⟩

end View

end ClusterOverlay
