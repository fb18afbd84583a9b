import ClusterOverlay.Proofs.Membership.MainServer

/-!
# The one who watches

Whom a node watches and to whom it reports are two functions, evaluated by different
nodes.  Both answer from one relation between members, `Roster.Watches`: the main server
watches the other servers, and every server the members of its cluster.  Where all hold
one roster, a report therefore reaches the only node that waits for it:
`View.beats_reach_watcher`.
-/

namespace ClusterOverlay

open Peer (numbered)

namespace Roster

variable {roster : Roster} {mainServer watcher other peer : Peer}

/-- The main server watches the other servers, and every server the other members of its
cluster. -/
def Watches (roster : Roster) (mainServer watcher peer : Peer) : Prop :=
  peer ≠ mainServer ∧
    if peer ∈ roster.servers then watcher = mainServer else roster.Serves watcher peer

theorem not_watches_mainServer : ¬ roster.Watches mainServer watcher mainServer :=
  fun watches => watches.1 rfl

theorem watches_iff_of_mem_servers (leads : peer ∈ roster.servers) :
    roster.Watches mainServer watcher peer ↔ peer ≠ mainServer ∧ watcher = mainServer := by
  rw [Watches, if_pos leads]

theorem watches_iff_of_notMem_servers (mainMem : mainServer ∈ roster.servers)
    (led : peer ∉ roster.servers) :
    roster.Watches mainServer watcher peer ↔ roster.Serves watcher peer := by
  have away : peer ≠ mainServer := fun same => led (same ▸ mainMem)
  rw [Watches, if_neg led, and_iff_right away]

/-- Whoever watches is a server. -/
theorem Watches.mem_servers (mainMem : mainServer ∈ roster.servers)
    (watches : roster.Watches mainServer watcher peer) : watcher ∈ roster.servers := by
  by_cases leads : peer ∈ roster.servers
  · obtain ⟨_, rfl⟩ := (watches_iff_of_mem_servers leads).mp watches
    exact mainMem
  · exact ((watches_iff_of_notMem_servers mainMem leads).mp watches).mem_servers

/-- Whoever is watched is a member. -/
theorem Watches.mem_members (led : roster.Led)
    (watches : roster.Watches mainServer watcher peer) : peer ∈ roster.members := by
  by_cases leads : peer ∈ roster.servers
  · exact led.servers_subset leads
  · have serves := watches.2
    rw [if_neg leads] at serves
    exact (led.together serves).symm.mem_members

/-- Nobody is watched by two. -/
theorem Watches.unique (distinct : roster.members.Nodup)
    (first : roster.Watches mainServer watcher peer)
    (second : roster.Watches mainServer other peer) : watcher = other := by
  by_cases leads : peer ∈ roster.servers
  · exact ((watches_iff_of_mem_servers leads).mp first).2.trans
      ((watches_iff_of_mem_servers leads).mp second).2.symm
  · have firstServes := first.2
    have secondServes := second.2
    rw [if_neg leads] at firstServes secondServes
    exact firstServes.unique distinct secondServes

/-- Every member but the main server is watched. -/
theorem Led.exists_watches (led : roster.Led) (member : peer ∈ roster.members)
    (away : peer ≠ mainServer) : ∃ watcher, roster.Watches mainServer watcher peer := by
  by_cases leads : peer ∈ roster.servers
  · exact ⟨mainServer, (watches_iff_of_mem_servers leads).mpr ⟨away, rfl⟩⟩
  · obtain ⟨server, serves⟩ := led.exists_serves member
    refine ⟨server, away, ?_⟩
    rw [if_neg leads]
    exact serves

/-- The main server watches the other servers and the members of its own cluster. -/
theorem Sound.watches_mainServer_iff (sound : roster.Sound)
    (mainMem : mainServer ∈ roster.servers) :
    roster.Watches mainServer mainServer peer ↔
      peer ≠ mainServer ∧ (peer ∈ roster.servers ∨ roster.Together mainServer peer) := by
  by_cases leads : peer ∈ roster.servers
  · simp [watches_iff_of_mem_servers leads, leads]
  · have away : peer ≠ mainServer := fun same => leads (same ▸ mainMem)
    simp only [watches_iff_of_notMem_servers mainMem leads, leads, false_or, away, ne_eq,
      not_false_eq_true, true_and]
    exact ⟨sound.together, (sound.serves_self mainMem).of_together sound.distinct⟩

/-- Any other server watches the other members of its cluster. -/
theorem Sound.watches_server_iff (sound : roster.Sound) (mainMem : mainServer ∈ roster.servers)
    (watcherMem : watcher ∈ roster.servers) (away : watcher ≠ mainServer) :
    roster.Watches mainServer watcher peer ↔ peer ≠ watcher ∧ roster.Together watcher peer := by
  by_cases leads : peer ∈ roster.servers
  · rw [watches_iff_of_mem_servers leads]
    constructor
    · rintro ⟨_, same⟩
      exact absurd same away
    · rintro ⟨apart, together⟩
      exact absurd (sound.eq_of_together watcherMem leads together).symm apart
  · rw [watches_iff_of_notMem_servers mainMem leads]
    constructor
    · intro serves
      exact ⟨fun same => leads (same ▸ watcherMem), sound.together serves⟩
    · rintro ⟨_, together⟩
      exact (sound.serves_self watcherMem).of_together sound.distinct together

end Roster

namespace View

variable {view : View} {watcher peer : Peer}

/-- A node watches whom the roster says that it watches. -/
theorem mem_watched_iff (sound : view.Sound) (mainMem : view.mainServer ∈ view.servers) :
    peer ∈ view.watched ↔ view.Watches view.mainServer view.self peer := by
  unfold View.watched
  by_cases main : view.self = view.mainServer
  · rw [role_of_self_eq main, main, sound.watches_mainServer_iff mainMem, ← main]
    simp only [Peer.mem_ascending, List.mem_append, List.mem_filter, decide_eq_true_eq,
      mem_clusterPeers_iff sound.distinct]
    tauto
  · by_cases leads : view.self ∈ view.servers
    · rw [role_of_self_mem_servers main leads, sound.watches_server_iff mainMem leads main,
        ← mem_clusterPeers_iff sound.distinct]
      exact Peer.mem_ascending
    · rw [role_of_self_notMem_servers main leads]
      refine iff_of_false List.not_mem_nil fun watches => ?_
      exact leads (watches.mem_servers mainMem)

/-- A member reports that it is alive to whoever watches it according to the roster. -/
theorem beat_eq_alive_iff (sound : view.Sound) (mainMem : view.mainServer ∈ view.servers)
    (member : view.self ∈ view.members) :
    view.beat = some (.alive view.self, watcher) ↔
      view.Watches view.mainServer watcher view.self := by
  unfold beat
  by_cases main : view.self = view.mainServer
  · rw [if_pos (by simpa [isMainServer] using main), main]
    exact iff_of_false (by simp) Roster.not_watches_mainServer
  · rw [if_neg (by simpa [isMainServer] using main), if_neg (by simpa [contains_iff] using member)]
    by_cases leads : view.self ∈ view.servers
    · rw [role_of_self_mem_servers main leads, Roster.watches_iff_of_mem_servers leads]
      simp [main, eq_comm]
    · rw [role_of_self_notMem_servers main leads,
        Roster.watches_iff_of_notMem_servers mainMem leads,
        ← serverOf?_eq_some_iff sound.distinct]
      simp

/-- A node outside the overlay says hello to the main server. -/
theorem beat_of_notMem_members (mainMem : view.mainServer ∈ view.members)
    (outside : view.self ∉ view.members) :
    view.beat = some (.hello view.self, view.mainServer) := by
  have away : view.self ≠ view.mainServer := fun same => outside (same ▸ mainMem)
  rw [beat, if_neg (by simpa [isMainServer] using away),
    if_pos (by simpa [← contains_iff] using outside)]

theorem beat_of_self_eq (main : view.self = view.mainServer) : view.beat = none := by
  rw [beat, if_pos (by simpa [isMainServer] using main)]

/-- Wherever the main server's view leads, and whatever their cursors, if all nodes hold
its roster, then every other member is watched by exactly one node, a member, and tells
it that it is alive.  Whoever is watched tells the watcher.  The main server is watched by
nobody and tells nobody, and a node outside says hello to it. -/
theorem beats_reach_watcher {mainServer : Peer} {history : List Notice} {main : View}
    (attained : Attained mainServer history main) (cursor : Peer → Nat) :
    let held := main.held mainServer cursor
    (∀ peer ∈ main.members, peer ≠ mainServer → ∃ watcher ∈ main.members,
      (∀ other, peer ∈ (held other).watched ↔ other = watcher) ∧
        (held peer).beat = some (.alive peer, watcher)) ∧
    (∀ watcher peer, peer ∈ (held watcher).watched →
      (held peer).beat = some (.alive peer, watcher)) ∧
    (∀ watcher, mainServer ∉ (held watcher).watched) ∧
    (held mainServer).beat = none ∧
    ∀ outsider, outsider ∉ main.members →
      (held outsider).beat = some (.hello outsider, mainServer) := by
  intro held
  have presides := attained.presides
  have sound : main.Sound := presides.toSound
  have mainMem : mainServer ∈ main.servers := List.mem_of_getElem? presides.leads
  have watched : ∀ watcher peer,
      peer ∈ (held watcher).watched ↔ main.Watches mainServer watcher peer :=
    fun watcher _ => @mem_watched_iff (held watcher) _ sound mainMem
  have alive : ∀ watcher peer, main.Watches mainServer watcher peer →
      (held peer).beat = some (.alive peer, watcher) := by
    intro watcher peer watches
    exact (@beat_eq_alive_iff (held peer) watcher sound mainMem
      (watches.mem_members sound.toLed)).mpr watches
  refine ⟨?_, ?_, ?_, @beat_of_self_eq (held mainServer) rfl, ?_⟩
  · intro peer member away
    obtain ⟨watcher, watches⟩ := sound.exists_watches member away
    refine ⟨watcher, sound.servers_subset (watches.mem_servers mainMem), ?_,
      alive watcher peer watches⟩
    intro other
    rw [watched]
    constructor
    · exact fun holds => holds.unique sound.distinct watches
    · rintro rfl
      exact watches
  · intro watcher peer holds
    exact alive watcher peer ((watched watcher peer).mp holds)
  · intro watcher holds
    exact Roster.not_watches_mainServer ((watched watcher mainServer).mp holds)
  · intro outsider outside
    exact @beat_of_notMem_members (held outsider) presides.mem_members outside

/-- Of ten peers the last two join the clusters of the first two, and each reports to the
one who leads it. -/
theorem beats_reach_watcher_ten :
    let main := ([2, 3, 4, 5, 6, 7, 8, 9, 10].map numbered).foldl
      (fun view sender => (view.react .mainServer (.hello sender)).view)
      (.initial (numbered 1) (numbered 1))
    let held := main.held (numbered 1) fun _ => 0
    (∃ history, Attained (numbered 1) history main) ∧
      numbered 10 ∈ (held (numbered 2)).watched ∧ numbered 11 ∉ main.members ∧
      (held (numbered 10)).beat = some (.alive (numbered 10), numbered 2) ∧
      (held (numbered 11)).beat = some (.hello (numbered 11), numbered 1) := by
  intro main held
  have attained : Attained (numbered 1) _ main := Attained.start.hellos _
  have watched : numbered 10 ∈ (held (numbered 2)).watched := by decide +kernel
  have outside : numbered 11 ∉ main.members := by decide +kernel
  obtain ⟨_, reported, _, _, outsiders⟩ := beats_reach_watcher attained fun _ => 0
  exact ⟨⟨_, attained⟩, watched, outside, reported _ _ watched, outsiders _ outside⟩

end View

end ClusterOverlay
