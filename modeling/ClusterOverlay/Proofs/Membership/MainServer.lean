import ClusterOverlay.Protocol
import ClusterOverlay.Proofs.Membership.Changes

/-!
# The view of the main server

The main server changes its view for three reasons only: a peer says hello, a
removal is announced, or a peer that it watches falls silent.  A *history*
lists them, and `View.Attained` says which view a history leads to.  Every view
attained satisfies `View.Presides`, and its members are the main server and
those who said hello and have not been dismissed since.
-/

namespace ClusterOverlay

/-! ## Histories -/

/-- A reason for the main server to change its view. -/
inductive Notice
  | hello (sender : Peer)
  | removal (placement : Placement)
  /-- A peer under watch has been silent for too long. -/
  | timeout (peer : Peer)
  deriving DecidableEq, Repr

namespace Notice

/-- The notice that a message is to the main server, if it is one. -/
def ofControl? : Control → Option Notice
  | .hello sender => some (hello sender)
  | .remove placement => some (removal placement)
  | _ => none

/-- The notice says that the peer is gone. -/
def Dismisses (peer : Peer) : Notice → Prop
  | hello _ => False
  | removal placement => placement.peer = peer
  | timeout silent => silent = peer

/-- The peer said hello, and was not dismissed afterwards. -/
def Joined (history : List Notice) (peer : Peer) : Prop :=
  ∃ earlier later, history = earlier ++ hello peer :: later ∧
    ∀ notice ∈ later, ¬ notice.Dismisses peer

theorem not_joined_nil (peer : Peer) : ¬ Joined [] peer := by
  rintro ⟨earlier, later, historyEq, _⟩
  simp at historyEq

/-- One more notice brings in whoever says hello, and takes away whoever it
dismisses. -/
theorem joined_concat_iff {history : List Notice} {notice : Notice} {peer : Peer} :
    Joined (history ++ [notice]) peer ↔
      notice = hello peer ∨ Joined history peer ∧ ¬ notice.Dismisses peer := by
  constructor
  · rintro ⟨earlier, later, historyEq, kept⟩
    rcases List.eq_nil_or_concat later with rfl | ⟨before, last, rfl⟩
    · exact .inl (List.append_singleton_inj.mp historyEq).2
    · rw [List.concat_eq_append, ← List.cons_append, ← List.append_assoc] at historyEq
      rcases List.append_singleton_inj.mp historyEq with ⟨earlierEq, rfl⟩
      refine .inr ⟨⟨earlier, before, earlierEq, ?_⟩, kept notice (by simp)⟩
      intro other otherMem
      exact kept other (by simp [otherMem])
  · rintro (rfl | ⟨⟨earlier, later, rfl, kept⟩, stays⟩)
    · exact ⟨history, [], rfl, by simp⟩
    · refine ⟨earlier, later ++ [notice], by simp, ?_⟩
      intro other otherMem
      rcases List.mem_append.mp otherMem with otherMem | otherMem
      · exact kept other otherMem
      · rw [List.mem_singleton] at otherMem
        exact otherMem ▸ stays

end Notice

namespace View

/-! ## Reactions of the main server -/

/-- No node watches itself. -/
theorem self_notMem_watched (view : View) : view.self ∉ view.watched := by
  have others := view.self_notMem_clusterPeers
  unfold watched
  split <;> simp [others]

/-- The main server's answer to a hello is an arrival. -/
theorem arrival_welcome (view : View) (sender : Peer) :
    view.Arrival sender (view.place sender).1 (view.welcome sender).view :=
  view.place_arrival sender

/-- What the main server does about a removal is a departure. -/
theorem exists_departure_expel {view : View} (led : view.Led) (placement : Placement) :
    ∃ removal, view.Departure placement.peer removal (view.expel placement).view := by
  rcases remove_departure led placement with ⟨removal, after, removed, departure⟩
  refine ⟨removal, ?_⟩
  have left := departure
  unfold expel
  rw [removed]
  cases departure <;> exact left

/-! ## What holds of every view -/

/-- What holds of every view that the main server comes to have. -/
structure Presides (mainServer : Peer) (view : View) : Prop extends view.Sound where
  selfEq : view.self = mainServer
  mainServerEq : view.mainServer = mainServer
  clustersLe : view.clusters.length ≤ clusterLimit
  home : view.Home 0 mainServer
  leads : view.servers[0]? = some mainServer
  cursorLt : view.cursor < view.clusters.length

namespace Presides

variable {mainServer peer : Peer} {view after : View}

theorem initial (mainServer : Peer) : Presides mainServer (.initial mainServer mainServer) := by
  simp only [View.initial, if_true]
  refine ⟨⟨⟨rfl, ?_⟩, by simp [Roster.members]⟩, rfl, rfl, Nat.le_add_left 1 7, ?_, rfl,
    Nat.one_pos⟩
  · intro index cluster server found leads
    have clusterMem := List.mem_of_getElem? found
    have serverMem := List.mem_of_getElem? leads
    rw [List.mem_singleton] at clusterMem serverMem
    simp [clusterMem, serverMem]
  · exact ⟨[mainServer], rfl, List.mem_singleton.mpr rfl⟩

theorem mem_members (presides : Presides mainServer view) : mainServer ∈ view.members :=
  presides.home.mem_members

theorem role_eq (presides : Presides mainServer view) : view.role = .mainServer :=
  role_of_self_eq (presides.selfEq.trans presides.mainServerEq.symm)

/-- An arrival changes nothing about the first cluster but its length. -/
theorem arrival {index : Nat} (presides : Presides mainServer view)
    (arrival : view.Arrival peer index after) : Presides mainServer after := by
  rcases presides.home with ⟨cluster, found, own⟩
  have bound := presides.home.index_lt
  refine ⟨arrival.sound presides.toSound, arrival.self_eq.trans presides.selfEq,
    arrival.mainServer_eq.trans presides.mainServerEq,
    arrival.length_clusters_le presides.clustersLe, ?_, ?_, ?_⟩
  · cases arrival with
    | known => exact presides.home
    | opens => exact ⟨cluster, (List.getElem?_append_left bound).trans found, own⟩
    | joins =>
        refine ⟨_, by rw [List.getElem?_modify, found]; rfl, ?_⟩
        split
        · exact List.mem_append_left _ own
        · exact own
  · cases arrival with
    | known => exact presides.leads
    | opens =>
        rw [List.getElem?_append_left (presides.lengthEq ▸ bound)]
        exact presides.leads
    | joins => exact presides.leads
  · cases arrival with
    | known => exact presides.cursorLt
    | opens => simpa using Nat.lt_succ_of_lt presides.cursorLt
    | joins => simpa using Nat.mod_lt _ bound

/-- The first cluster stays the first as long as somebody stays in it. -/
theorem index_pos_of_last {index : Nat} {cluster : List Peer}
    (presides : Presides mainServer view) (other : peer ≠ mainServer)
    (found : view.clusters[index]? = some cluster)
    (alone : cluster.filter (· ≠ peer) = []) : 0 < index := by
  apply Nat.pos_of_ne_zero
  rintro rfl
  rcases presides.home with ⟨first, firstFound, own⟩
  rw [found, Option.some.injEq] at firstFound
  subst firstFound
  have stays : mainServer ∈ cluster.filter (· ≠ peer) :=
    List.mem_filter.mpr ⟨own, by simpa using other.symm⟩
  rw [alone] at stays
  contradiction

/-- Nobody but the main server leads the first cluster. -/
theorem index_pos_of_leads {index : Nat} (presides : Presides mainServer view)
    (other : peer ≠ mainServer) (leads : view.servers[index]? = some peer) : 0 < index := by
  apply Nat.pos_of_ne_zero
  rintro rfl
  exact other (Option.some.inj (leads.symm.trans presides.leads))

/-- As long as the main server stays, it stays where it is. -/
theorem departure {removal : Removal} (presides : Presides mainServer view)
    (departure : view.Departure peer removal after) (other : peer ≠ mainServer) :
    Presides mainServer after := by
  refine ⟨departure.sound presides.toSound, departure.self_eq.trans presides.selfEq,
    departure.mainServer_eq.trans presides.mainServerEq,
    Nat.le_trans departure.length_clusters_le presides.clustersLe, ?_, ?_, ?_⟩
  · rcases presides.home with ⟨first, firstFound, firstMem⟩
    cases departure with
    | absent => exact presides.home
    | last found _ alone =>
        have later := presides.index_pos_of_last other found alone
        exact ⟨first, (List.getElem?_eraseIdx_of_lt later).trans firstFound, firstMem⟩
    | server _ _ _ leads =>
        have later := presides.index_pos_of_leads other leads
        exact ⟨first, (List.getElem?_set_ne (Nat.ne_of_gt later)).trans firstFound, firstMem⟩
    | @member index cluster next others _ found _ rest =>
        by_cases same : index = 0
        · subst same
          rw [found, Option.some.injEq] at firstFound
          subst firstFound
          refine ⟨next :: others, List.getElem?_set_self presides.home.index_lt, ?_⟩
          rw [← rest]
          exact List.mem_filter.mpr ⟨firstMem, by simpa using other.symm⟩
        · exact ⟨first, (List.getElem?_set_ne same).trans firstFound, firstMem⟩
  · cases departure with
    | absent => exact presides.leads
    | last found _ alone =>
        have later := presides.index_pos_of_last other found alone
        exact (List.getElem?_eraseIdx_of_lt later).trans presides.leads
    | server _ _ _ leads =>
        have later := presides.index_pos_of_leads other leads
        exact (List.getElem?_set_ne (Nat.ne_of_gt later)).trans presides.leads
    | member => exact presides.leads
  · cases departure with
    | absent => exact presides.cursorLt
    | @last index _ found _ alone =>
        have later := presides.index_pos_of_last other found alone
        have bound := (List.getElem?_eq_some_iff.mp found).1
        have left : 0 < (view.clusters.eraseIdx index).length := by
          rw [List.length_eraseIdx, if_pos bound]
          omega
        simp only [dropCluster, List.isEmpty_iff_length_eq_zero, Nat.ne_of_gt left, if_false]
        exact Nat.mod_lt _ left
    | server => simpa using presides.cursorLt
    | member => simpa using presides.cursorLt

/-- The main server ignores whoever says that it is gone. -/
theorem reactToRemove_of_eq (presides : Presides mainServer view) {placement : Placement}
    (own : placement.peer = mainServer) :
    (view.reactToRemove .mainServer placement).view = view := by
  rw [reactToRemove, if_pos (own.trans presides.selfEq.symm)]
  rfl

theorem exists_departure_of_ne (presides : Presides mainServer view) {placement : Placement}
    (other : placement.peer ≠ mainServer) :
    ∃ removal, view.Departure placement.peer removal
      (view.reactToRemove .mainServer placement).view := by
  rw [reactToRemove, if_neg (presides.selfEq ▸ other)]
  exact exists_departure_expel presides.toLed placement

/-- The silence of a watched peer is a departure. -/
theorem exists_departure_of_mem_watched (presides : Presides mainServer view)
    (watched : peer ∈ view.watched) :
    peer ≠ mainServer ∧
      ∃ removal, view.Departure peer removal (view.reactToSilence .mainServer peer).view := by
  have other : peer ≠ mainServer := by
    rintro rfl
    exact view.self_notMem_watched (presides.selfEq.symm ▸ watched)
  refine ⟨other, ?_⟩
  rw [reactToSilence, if_pos (List.contains_iff_mem.mpr watched)]
  exact presides.exists_departure_of_ne (show Placement.peer ⟨peer, _⟩ ≠ mainServer from other)

theorem reactToRemove (presides : Presides mainServer view) (placement : Placement) :
    Presides mainServer (view.reactToRemove .mainServer placement).view := by
  by_cases own : placement.peer = mainServer
  · rw [presides.reactToRemove_of_eq own]
    exact presides
  · rcases presides.exists_departure_of_ne own with ⟨removal, departure⟩
    exact presides.departure departure own

theorem react (presides : Presides mainServer view) (message : Control) :
    Presides mainServer (view.react .mainServer message).view := by
  cases message with
  | hello sender => exact presides.arrival (arrival_welcome view sender)
  | remove placement => exact presides.reactToRemove placement
  | alive | add | network | close => exact presides

theorem reactToSilence (presides : Presides mainServer view) (peer : Peer) :
    Presides mainServer (view.reactToSilence .mainServer peer).view := by
  unfold View.reactToSilence
  split
  · exact presides.reactToRemove _
  · exact presides

end Presides

/-- To the main server, a message that is no notice is no reason to change its
view. -/
theorem react_view_of_ofControl?_eq_none {view : View} {message : Control}
    (none : Notice.ofControl? message = none) : (view.react .mainServer message).view = view := by
  cases message with
  | hello | remove => contradiction
  | alive | add | network | close => rfl

/-! ## Views attained -/

/-- The main server has the view after the history. -/
inductive Attained (mainServer : Peer) : List Notice → View → Prop
  | start : Attained mainServer [] (.initial mainServer mainServer)
  | hello {history : List Notice} {view : View} (sender : Peer)
      (attained : Attained mainServer history view) :
      Attained mainServer (history ++ [.hello sender])
        (view.react .mainServer (.hello sender)).view
  | removal {history : List Notice} {view : View} (placement : Placement)
      (attained : Attained mainServer history view) :
      Attained mainServer (history ++ [.removal placement])
        (view.react .mainServer (.remove placement)).view
  | timeout {history : List Notice} {view : View} {peer : Peer}
      (attained : Attained mainServer history view) (watched : peer ∈ view.watched) :
      Attained mainServer (history ++ [.timeout peer])
        (view.reactToSilence .mainServer peer).view

namespace Attained

variable {mainServer : Peer} {history : List Notice} {view : View}

theorem presides (attained : Attained mainServer history view) : Presides mainServer view := by
  induction attained with
  | start => exact .initial mainServer
  | hello sender _ ih => exact ih.react (.hello sender)
  | removal placement _ ih => exact ih.react (.remove placement)
  | timeout _ _ ih => exact ih.reactToSilence _

/-- One hello after another leads from one view to the next. -/
theorem hellos (attained : Attained mainServer history view) (senders : List Peer) :
    Attained mainServer (history ++ senders.map .hello)
      (senders.foldl (fun view sender => (view.react .mainServer (.hello sender)).view) view) := by
  induction senders generalizing history view with
  | nil => simpa using attained
  | cons sender later inductionHypothesis =>
      simpa using inductionHypothesis (attained.hello sender)

/-- A departure and the notice of it take away the same peer. -/
theorem mem_members_iff_of_departure {after : View} {removal : Removal} {notice : Notice}
    {gone peer : Peer} (departure : view.Departure gone removal after)
    (distinct : view.members.Nodup) (other : gone ≠ mainServer)
    (news : notice ≠ .hello peer) (dismisses : notice.Dismisses peer ↔ gone = peer)
    (former : peer ∈ view.members ↔ peer = mainServer ∨ Notice.Joined history peer) :
    peer ∈ after.members ↔
      peer = mainServer ∨ Notice.Joined (history ++ [notice]) peer := by
  rw [departure.mem_members_iff distinct, former, Notice.joined_concat_iff, dismisses]
  constructor
  · rintro ⟨rfl | joined, stays⟩
    · exact .inl rfl
    · exact .inr (.inr ⟨joined, stays.symm⟩)
  · rintro (rfl | rfl | ⟨joined, stays⟩)
    · exact ⟨.inl rfl, other.symm⟩
    · exact absurd rfl news
    · exact ⟨.inr joined, Ne.symm stays⟩

/-- The members are the main server and those who said hello and have not been
dismissed since. -/
theorem mem_members_iff (attained : Attained mainServer history view) {peer : Peer} :
    peer ∈ view.members ↔ peer = mainServer ∨ Notice.Joined history peer := by
  induction attained with
  | start => simp [initial, Roster.members, Notice.not_joined_nil]
  | @hello history view sender attained ih =>
      have arrival := arrival_welcome view sender
      change peer ∈ (view.welcome sender).view.members ↔ _
      rw [arrival.mem_members_iff, ih, Notice.joined_concat_iff]
      simp only [Notice.hello.injEq, Notice.Dismisses, not_false_eq_true, and_true]
      tauto
  | @removal history view placement attained ih =>
      have presides := attained.presides
      change peer ∈ (view.reactToRemove .mainServer placement).view.members ↔ _
      by_cases own : placement.peer = mainServer
      · rw [presides.reactToRemove_of_eq own, ih, Notice.joined_concat_iff]
        simp only [reduceCtorEq, Notice.Dismisses, own, false_or]
        tauto
      · rcases presides.exists_departure_of_ne own with ⟨removal, departure⟩
        exact mem_members_iff_of_departure departure presides.distinct own (by simp) .rfl ih
  | timeout attained watched ih =>
      have presides := attained.presides
      rcases presides.exists_departure_of_mem_watched watched with ⟨other, removal, departure⟩
      exact mem_members_iff_of_departure departure presides.distinct other (by simp) .rfl ih

end Attained

end View

end ClusterOverlay
