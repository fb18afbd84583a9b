import ClusterOverlay.Proofs.Membership.Messages
import ClusterOverlay.Proofs.Node.MainServer
import ClusterOverlay.Proofs.Roster

/-!
# The shape of every view

A roster is *regular* if every cluster has a server, who is one of its members,
and there are no more clusters than there may be.  Whoever a node is, whatever
role it plays and whatever reaches it, its view stays regular: every reaction
keeps it, `View.regular_react`, and so does every run, `Node.regular_run`.  Hence
nobody is ever removed in vain.  What a view refuses is refused before any part
of the view has changed, `View.followInPlace_eq_error_iff`, so that it changes
nothing about the node either.
-/

namespace ClusterOverlay

namespace Roster

/-- The roster is led, and has at most as many clusters as there may be. -/
structure Regular (roster : Roster) : Prop extends Led roster where
  clustersLe : roster.clusters.length ≤ clusterLimit

theorem regular_empty : empty.Regular :=
  ⟨⟨rfl, fun found => by simp [empty] at found⟩, Nat.zero_le _⟩

end Roster

/-! ## Messages -/

/-- A message that can be handled has no roster with too many clusters. -/
def Control.IsLimited (message : Control) : Prop :=
  ∀ roster, message = .network roster → roster.clusters.length ≤ clusterLimit

theorem Control.isLimited_of_decode {content : Content} {payload : Bytes} {message : Control}
    (decoded : decode content payload = .ok (some message)) : message.IsLimited := by
  rintro roster rfl
  have readable : roster.Readable := (decode_eq_ok_iff.mp decoded).2.1
  exact readable.clustersLe

/-! ## Reactions -/

namespace View

theorem regular_initial (self mainServer : Peer) : (initial self mainServer).Regular := by
  by_cases same : self = mainServer
  · subst same
    have presides := Presides.initial self
    exact ⟨presides.toLed, presides.clustersLe⟩
  · rw [initial, if_neg same]
    exact Roster.regular_empty

variable {view : View}

theorem regular_welcome (regular : view.Regular) (sender : Peer) :
    (view.welcome sender).view.Regular :=
  ⟨(view.arrival_welcome sender).led regular.toLed,
    (view.arrival_welcome sender).length_clusters_le regular.clustersLe⟩

theorem regular_followed (regular : view.Regular) (placement : Placement) :
    (view.followed placement).Regular := by
  rcases view.followed_eq_or_following placement with refused | ⟨_, following⟩
  · rw [refused]
    exact regular
  · exact ⟨following.led regular.toLed, following.length_clusters_le regular.clustersLe⟩

theorem regular_reactToRemove (regular : view.Regular) (role : Role) (placement : Placement) :
    (view.reactToRemove role placement).view.Regular := by
  rcases view.reactToRemove_view_eq_or_departure role placement with stays | ⟨removal, departure⟩
  · rw [stays]
    exact regular
  · exact ⟨departure.led regular.toLed,
      Nat.le_trans departure.length_clusters_le regular.clustersLe⟩

theorem regular_adopt (regular : view.Regular) {roster : Roster}
    (limited : roster.clusters.length ≤ clusterLimit) : (view.adopt roster).view.Regular := by
  unfold View.adopt
  cases taken : view.replace roster with
  | error cause => exact regular
  | ok after =>
      obtain ⟨led, rfl⟩ := replace_eq_ok_iff.mp taken
      exact ⟨led, limited⟩

/-- No reaction to a message ends regularity. -/
theorem regular_react (regular : view.Regular) (role : Role) {message : Control}
    (limited : message.IsLimited) : (view.react role message).view.Regular := by
  cases message with
  | hello sender =>
      cases role with
      | mainServer => exact regular_welcome regular sender
      | clusterServer | client => exact regular
  | alive sender => exact regular
  | add placement =>
      cases role with
      | mainServer => exact regular
      | clusterServer =>
          rw [react, relayAdd_view]
          exact regular_followed regular placement
      | client =>
          rw [react, learnAdd_view]
          exact regular_followed regular placement
  | remove placement => exact regular_reactToRemove regular role placement
  | network roster =>
      cases role with
      | mainServer => exact regular
      | clusterServer | client => exact regular_adopt regular (limited roster rfl)
  | close => cases role <;> exact regular

theorem regular_reactToSilence (regular : view.Regular) (role : Role) (peer : Peer) :
    (view.reactToSilence role peer).view.Regular := by
  unfold View.reactToSilence
  split
  · exact regular_reactToRemove regular role _
  · exact regular

end View

/-! ## Nodes -/

theorem Packet.isLimited_of_control? {packet : Packet} {message : Control}
    (carried : packet.control? = some message) : message.IsLimited :=
  Control.isLimited_of_decode (eq_networking_and_decode_of_control? carried).2

namespace Node

theorem isLimited_of_heard? {node : Node} {now : Nat} {sender : Endpoint} {raw : Bytes}
    {message : Control} (heard : node.heard? now sender raw = some message) :
    message.IsLimited := by
  obtain ⟨packet, _, completed⟩ := Option.bind_eq_some_iff.mp heard
  obtain ⟨whole, _, carried⟩ := Option.bind_eq_some_iff.mp completed
  exact Packet.isLimited_of_control? carried

theorem regular_deal {node : Node} (regular : node.view.Regular) (event : Event) :
    (node.deal event).view.Regular := by
  cases event with
  | packet now sender raw =>
      rw [deal, onPacket_view]
      cases heard : node.heard? now sender raw with
      | none => exact regular
      | some message => exact View.regular_react regular node.role (isLimited_of_heard? heard)
  | silence now peer =>
      rw [deal, onSilence_view]
      exact View.regular_reactToSilence regular node.role peer

theorem regular_of_run {node : Node} (regular : node.view.Regular) (events : List Event) :
    (node.run events).view.Regular := by
  induction events generalizing node with
  | nil => exact regular
  | cons event events inductionHypothesis => exact inductionHypothesis (regular_deal regular event)

/-- A reaction that is to ignore what happened changes nothing at all. -/
theorem carryOut_ignore (node : Node) (now : Nat) : node.carryOut now node.view.ignore = node :=
  rfl

/-- A placement that is refused changes nothing at all. -/
theorem onMessage_add_of_error {node : Node} {placement : Placement} {cause : ViewError}
    (refused : node.view.follow placement = .error cause) (now : Nat) :
    node.onMessage now (.add placement) = node := by
  unfold onMessage View.react
  cases node.role with
  | mainServer => exact node.carryOut_ignore now
  | clusterServer =>
      simp only [View.relayAdd, refused]
      exact node.carryOut_ignore now
  | client =>
      simp only [View.learnAdd, refused]
      exact node.carryOut_ignore now

/-- A snapshot that is refused changes nothing at all. -/
theorem onMessage_network_of_error {node : Node} {roster : Roster} {cause : ViewError}
    (refused : node.view.replace roster = .error cause) (now : Nat) :
    node.onMessage now (.network roster) = node := by
  unfold onMessage View.react
  cases node.role with
  | mainServer => exact node.carryOut_ignore now
  | clusterServer | client =>
      simp only [View.adopt, refused]
      exact node.carryOut_ignore now

/-- After any run of any node its view is regular, so that nobody is removed in
vain.  A placement or snapshot that a view refuses leaves the view as it was,
and the node that refuses it changes in nothing. -/
theorem regular_run (config : Config) (room : Mailroom) (self mainServer : Peer) (now : Nat)
    (events : List Event) :
    let begun := (create config { room with view := .initial self mainServer }).start now
    let view := (begun.run events).view
    (view.clusters.length = view.servers.length ∧ view.clusters.length ≤ clusterLimit ∧
      (∀ cluster ∈ view.clusters, cluster ≠ []) ∧
      ∀ (index : Nat) (cluster : List Peer) (server : Peer),
        view.clusters[index]? = some cluster → view.servers[index]? = some server →
          server ∈ cluster) ∧
    (∀ placement, ∃ removal after, view.remove placement = .ok (removal, after)) ∧
    (∀ (former left : View) (cause : ViewError),
      (∀ placement, (View.followInPlace placement).run former = .error cause left ↔
        former.follow placement = .error cause ∧ left = former) ∧
      ∀ roster, (View.replaceInPlace roster).run former = .error cause left ↔
        former.replace roster = .error cause ∧ left = former) ∧
    ∀ (node : Node) (later : Nat),
      (∀ placement cause, node.view.follow placement = .error cause →
        node.onMessage later (.add placement) = node) ∧
      ∀ roster cause, node.view.replace roster = .error cause →
        node.onMessage later (.network roster) = node := by
  intro begun view
  have holds := holds_start config { room with view := .initial self mainServer } now
    self mainServer rfl
  have fresh : begun.view.Regular := by
    rw [holds.viewEq]
    exact View.regular_initial self mainServer
  have regular : view.Regular := regular_of_run fresh events
  refine ⟨⟨regular.lengthEq, regular.clustersLe, ?_, ?_⟩, ?_, ?_, ?_⟩
  · intro cluster clusterMem
    exact regular.ne_nil clusterMem
  · intro index cluster server found leads
    exact regular.serverMem found leads
  · intro placement
    obtain ⟨removal, after, removed, _⟩ := View.remove_departure regular.toLed placement
    exact ⟨removal, after, removed⟩
  · intro former left cause
    exact ⟨fun _ => View.followInPlace_eq_error_iff, fun _ => View.replaceInPlace_eq_error_iff⟩
  · intro node later
    exact ⟨fun _ _ refused => onMessage_add_of_error refused later,
      fun _ _ refused => onMessage_network_of_error refused later⟩

end Node

end ClusterOverlay
