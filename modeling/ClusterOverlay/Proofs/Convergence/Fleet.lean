import Mathlib.Logic.Function.Basic
import Mathlib.Logic.Relation
import ClusterOverlay.Proofs.Convergence.Letters
import ClusterOverlay.Proofs.Membership.Following
import ClusterOverlay.Proofs.Node.MainServer

/-!
# Fleets

A fleet is all nodes together, with the letters between them.  Letters arrive in
any order, and those to a node that has stopped are lost.  Three things happen
in a fleet from outside: a node says hello, a node says goodbye and stops, or a
node stops silently and the one who watches it notices.

Whatever happens, a fleet stays *consistent*: every node has a view of its own
and plays the role that the view gives it, and the main server has a view that
it attains.  A fleet is *settled* if all members hold the roster of the main
server and no letter is on its way.

The letters are not an account of their own.  Each that joins those on their way
has been put into the schedule of its sender: `Fleet.Delivers.exists_posts`,
`Fleet.Occurs.exists_posts`.
-/

namespace ClusterOverlay

/-! ## What reactions keep -/

namespace View

/-- Both are views of one node, under one main server. -/
structure Akin (view after : View) : Prop where
  selfEq : after.self = view.self
  mainServerEq : after.mainServer = view.mainServer

theorem Akin.refl (view : View) : view.Akin view :=
  ⟨rfl, rfl⟩

/-- A removal changes the membership and nothing else, even if it fails to find
a server. -/
theorem akin_of_remove {view after : View} {placement : Placement} {removal : Removal}
    (removed : view.remove placement = .ok (removal, after)) : view.Akin after :=
  ⟨(departure_of_remove removed).self_eq, (departure_of_remove removed).mainServer_eq⟩

theorem akin_followed (view : View) (placement : Placement) :
    view.Akin (view.followed placement) := by
  rcases view.followed_eq_or_following placement with refused | ⟨_, following⟩
  · rw [refused]
    exact .refl view
  · exact ⟨following.self_eq, following.mainServer_eq⟩

/-- A reaction that changes the view of a node brings its role in line. -/
structure Reacts (view : View) (reaction : Reaction) : Prop where
  akin : view.Akin reaction.view
  reconciles : reaction.view = view ∨ .reconcile ∈ reaction.actions

namespace Reacts

variable {view : View}

theorem ignore (view : View) : view.Reacts view.ignore :=
  ⟨.refl view, .inl rfl⟩

theorem welcome (view : View) (sender : Peer) : view.Reacts (view.welcome sender) :=
  ⟨⟨(view.arrival_welcome sender).self_eq, (view.arrival_welcome sender).mainServer_eq⟩,
    .inr (by simp [View.welcome])⟩

/-! ### Removals -/

theorem rejoin (view : View) (placement : Placement) : view.Reacts (view.rejoin placement) := by
  unfold View.rejoin
  cases removed : view.remove placement with
  | error cause => exact ⟨.refl view, .inl rfl⟩
  | ok answer => exact ⟨akin_of_remove removed, .inr (by simp)⟩

theorem expel (view : View) (placement : Placement) : view.Reacts (view.expel placement) := by
  unfold View.expel
  split
  · next removed => exact ⟨akin_of_remove removed, .inr (by simp)⟩
  · exact ignore view
  · exact ignore view

theorem relayRemove (view : View) (placement : Placement) :
    view.Reacts (view.relayRemove placement) := by
  unfold View.relayRemove
  split
  · next removed => exact ⟨akin_of_remove removed, .inr (by simp)⟩
  · exact ignore view
  · exact ignore view

theorem learnRemove (view : View) (placement : Placement) :
    view.Reacts (view.learnRemove placement) := by
  unfold View.learnRemove
  split
  · next removed => exact ⟨akin_of_remove removed, .inr (by simp)⟩
  · exact ignore view
  · exact ignore view

theorem reactToRemove (view : View) (role : Role) (placement : Placement) :
    view.Reacts (view.reactToRemove role placement) := by
  unfold View.reactToRemove
  split
  · cases role with
    | mainServer => exact ignore view
    | clusterServer | client => exact rejoin view placement
  · cases role with
    | mainServer => exact expel view placement
    | clusterServer => exact relayRemove view placement
    | client => exact learnRemove view placement

/-! ### Placements and rosters -/

theorem relayAdd (view : View) (placement : Placement) :
    view.Reacts (view.relayAdd placement) := by
  refine ⟨view.relayAdd_view placement ▸ view.akin_followed placement, ?_⟩
  unfold View.relayAdd
  split
  · exact .inr (by simp)
  · exact .inl rfl
  · exact .inl rfl

theorem learnAdd (view : View) (placement : Placement) :
    view.Reacts (view.learnAdd placement) := by
  refine ⟨view.learnAdd_view placement ▸ view.akin_followed placement, ?_⟩
  unfold View.learnAdd
  split
  · exact .inr (by simp)
  · exact .inl rfl
  · exact .inl rfl

theorem adopt (view : View) (roster : Roster) : view.Reacts (view.adopt roster) := by
  unfold View.adopt
  split
  · next after taken =>
      obtain ⟨_, rfl⟩ := replace_eq_ok_iff.mp taken
      exact ⟨⟨rfl, rfl⟩, .inr (by simp)⟩
  · exact ignore view

/-! ### All reactions -/

theorem react (view : View) (role : Role) (message : Control) :
    view.Reacts (view.react role message) := by
  cases message with
  | hello sender =>
      cases role with
      | mainServer => exact welcome view sender
      | clusterServer | client => exact ignore view
  | alive sender => exact ⟨.refl view, .inl rfl⟩
  | add placement =>
      cases role with
      | mainServer => exact ignore view
      | clusterServer => exact relayAdd view placement
      | client => exact learnAdd view placement
  | remove placement => exact reactToRemove view role placement
  | network roster =>
      cases role with
      | mainServer => exact ignore view
      | clusterServer | client => exact adopt view roster
  | close => cases role <;> exact ⟨.refl view, .inl rfl⟩

theorem reactToSilence (view : View) (role : Role) (peer : Peer) :
    view.Reacts (view.reactToSilence role peer) := by
  unfold View.reactToSilence
  split
  · exact reactToRemove view role _
  · exact ignore view

end Reacts

/-- Whatever message reaches the main server, the view that it comes to have is
attained. -/
theorem Attained.react {mainServer : Peer} {history : List Notice} {view : View}
    (attained : Attained mainServer history view) (message : Control) :
    ∃ history, Attained mainServer history (view.react .mainServer message).view := by
  cases message with
  | hello sender => exact ⟨_, attained.hello sender⟩
  | remove placement => exact ⟨_, attained.removal placement⟩
  | alive | add | network | close => exact ⟨_, attained⟩

end View

/-! ## Nodes that belong -/

/-- The node with this name has its own view, under the main server, and plays
the role that the view gives it. -/
structure Node.Belongs (mainServer peer : Peer) (node : Node) : Prop where
  selfEq : node.view.self = peer
  mainServerEq : node.view.mainServer = mainServer
  roleEq : node.role = node.view.role

namespace Node.Belongs

variable {mainServer peer : Peer} {node : Node}

/-! ### Roles -/

theorem role_eq_mainServer (belongs : Belongs peer peer node) : node.role = .mainServer := by
  rw [belongs.roleEq]
  exact View.role_of_self_eq (belongs.selfEq.trans belongs.mainServerEq.symm)

theorem self_ne_mainServer (belongs : Belongs mainServer peer node) (away : peer ≠ mainServer) :
    node.view.self ≠ node.view.mainServer := by
  rw [belongs.selfEq, belongs.mainServerEq]
  exact away

theorem role_eq_clusterServer (belongs : Belongs mainServer peer node) (away : peer ≠ mainServer)
    (leads : peer ∈ node.view.servers) : node.role = .clusterServer := by
  rw [belongs.roleEq]
  exact View.role_of_self_mem_servers (belongs.self_ne_mainServer away)
    (belongs.selfEq.symm ▸ leads)

theorem role_eq_client (belongs : Belongs mainServer peer node) (away : peer ≠ mainServer)
    (serves : peer ∉ node.view.servers) : node.role = .client := by
  rw [belongs.roleEq]
  exact View.role_of_self_notMem_servers (belongs.self_ne_mainServer away)
    (belongs.selfEq.symm ▸ serves)

/-- Whatever a node other than the main server held, it takes over a roster in which every
cluster is led. -/
theorem react_network (belongs : Belongs mainServer peer node) (away : peer ≠ mainServer)
    {roster : Roster} (led : roster.Led) :
    node.view.react node.role (.network roster) =
      ⟨{ node.view with toRoster := roster, cursor := 0 }, [.reconcile]⟩ := by
  have taken : node.view.replace roster =
      .ok { node.view with toRoster := roster, cursor := 0 } :=
    View.replace_eq_ok_iff.mpr ⟨led, rfl⟩
  have main := View.role_ne_mainServer (belongs.self_ne_mainServer away)
  rw [← belongs.roleEq] at main
  cases role : node.role with
  | mainServer => exact absurd role main
  | clusterServer | client => simp only [View.react, View.adopt, taken]

/-! ### What a node does -/

/-- Whoever takes up the role that its view gives it belongs. -/
theorem reconcile (node : Node) (now : Nat) :
    Belongs node.view.mainServer node.view.self (node.reconcile now) := by
  have view := node.reconcile_view now
  exact ⟨congrArg View.self view, congrArg View.mainServer view,
    (node.reconcile_role now).trans (congrArg View.role view.symm)⟩

theorem perform (belongs : Belongs mainServer peer node) (now : Nat) (action : Action) :
    Belongs mainServer peer (Node.perform now node action) := by
  have view := perform_view now node action
  refine ⟨view ▸ belongs.selfEq, view ▸ belongs.mainServerEq, ?_⟩
  rw [perform_role belongs.roleEq, view]
  exact belongs.roleEq

theorem foldl_perform (belongs : Belongs mainServer peer node) (now : Nat)
    (actions : List Action) :
    Belongs mainServer peer (actions.foldl (Node.perform now) node) := by
  induction actions generalizing node with
  | nil => exact belongs
  | cons action actions inductionHypothesis =>
      exact inductionHypothesis (belongs.perform now action)

/-- A role that falls behind the view catches up with it. -/
theorem carryOut (belongs : Belongs mainServer peer node) (now : Nat) {reaction : Reaction}
    (reacts : node.view.Reacts reaction) :
    Belongs mainServer peer (node.carryOut now reaction) := by
  have selfEq := reacts.akin.selfEq.trans belongs.selfEq
  have mainServerEq := reacts.akin.mainServerEq.trans belongs.mainServerEq
  unfold Node.carryOut
  rcases reacts.reconciles with same | reconciles
  · apply foldl_perform
    exact ⟨selfEq, mainServerEq, by rw [same]; exact belongs.roleEq⟩
  · obtain ⟨before, after, actionsEq⟩ := List.append_of_mem reconciles
    rw [actionsEq, List.foldl_append, List.foldl_cons]
    apply foldl_perform
    refine ⟨?_, ?_, ?_⟩
    · rw [perform_view, foldl_perform_view]
      exact selfEq
    · rw [perform_view, foldl_perform_view]
      exact mainServerEq
    · rw [perform_view]
      exact reconcile_role _ now

theorem onMessage (belongs : Belongs mainServer peer node) (now : Nat) (message : Control) :
    Belongs mainServer peer (node.onMessage now message) :=
  belongs.carryOut now (.react _ _ _)

/-- A node other than the main server takes over a snapshot in which every cluster is led. -/
theorem view_onMessage_network (belongs : Belongs mainServer peer node)
    (away : peer ≠ mainServer) (now : Nat) {roster : Roster} (led : roster.Led) :
    (node.onMessage now (.network roster)).view =
      { node.view with toRoster := roster, cursor := 0 } := by
  rw [Node.onMessage, carryOut_view, belongs.react_network away led]

theorem onSilence (belongs : Belongs mainServer peer node) (now : Nat) (silent : Peer) :
    Belongs mainServer peer (node.onSilence now silent) :=
  belongs.carryOut now (.reactToSilence _ _ _)

theorem leave (belongs : Belongs mainServer peer node) (now : Nat) :
    Belongs mainServer peer (node.leave now) := by
  rw [leave_eq]
  apply foldl_perform
  have view : (node.inMailroom (·.flushAll now)).view = node.view :=
    node.toMailroom.flushAll_view now
  exact ⟨view ▸ belongs.selfEq, view ▸ belongs.mainServerEq, view ▸ belongs.roleEq⟩

end Node.Belongs

/-! ## Fleets -/

/-- The nodes by their names, those that have stopped, and the letters on their
way. -/
structure Fleet where
  node : Peer → Node
  stopped : List Peer
  inFlight : List Letter

namespace Fleet

/-- A node becomes another, and what it tells is on its way. -/
def turn (fleet : Fleet) (peer : Peer) (node : Node) (actions : List Action) : Fleet :=
  { fleet with
    node := Function.update fleet.node peer node
    inFlight := fleet.inFlight ++ letters (fleet.node peer).resolver actions }

/-- The roster that a node holds. -/
def roster (fleet : Fleet) (peer : Peer) : Roster :=
  (fleet.node peer).view.toRoster

/-- What a node does about a message. -/
def reaction (fleet : Fleet) (letter : Letter) : Reaction :=
  (fleet.node letter.recipient).view.react (fleet.node letter.recipient).role letter.message

/-- One of the letters on their way arrives, whichever it is. -/
inductive Delivers : Fleet → Fleet → Prop
  /-- Nobody is there to read it. -/
  | lost {fleet : Fleet} {before after : List Letter} {letter : Letter}
      (underway : fleet.inFlight = before ++ letter :: after)
      (stopped : letter.recipient ∈ fleet.stopped) :
      Delivers fleet { fleet with inFlight := before ++ after }
  | read {fleet : Fleet} {before after : List Letter} {letter : Letter} (now : Nat)
      (underway : fleet.inFlight = before ++ letter :: after)
      (live : letter.recipient ∉ fleet.stopped) :
      Delivers fleet
        ({ fleet with inFlight := before ++ after }.turn letter.recipient
          ((fleet.node letter.recipient).onMessage now letter.message)
          (fleet.reaction letter).actions)

end Fleet

/-! ## Happenings -/

/-- What happens in a fleet from outside. -/
inductive Happening
  | hello (sender : Peer)
  | goodbye (leaver : Peer)
  | silence (silent : Peer)
  deriving DecidableEq, Repr

namespace Fleet

/-- What a happening makes of a fleet at first. -/
inductive Occurs (mainServer : Peer) : Fleet → Happening → Fleet → Prop
  /-- A node that is no member says hello to the main server. -/
  | hello {fleet : Fleet} {sender : Peer} (now : Nat)
      (outside : sender ∉ (fleet.roster mainServer).members) (live : sender ∉ fleet.stopped)
      (literal : sender.IsLiteral) :
      Occurs mainServer fleet (.hello sender)
        (fleet.turn sender
          (Node.perform now (fleet.node sender) (.tell mainServer (.hello sender)))
          [.tell mainServer (.hello sender)])
  /-- A member says goodbye as its role demands, and stops. -/
  | goodbye {fleet : Fleet} {leaver : Peer} (now : Nat)
      (member : leaver ∈ (fleet.roster mainServer).members) (other : leaver ≠ mainServer) :
      Occurs mainServer fleet (.goodbye leaver)
        ({ fleet with stopped := leaver :: fleet.stopped }.turn leaver
          ((fleet.node leaver).leave now)
          ((fleet.node leaver).view.farewell (fleet.node leaver).role))
  /-- A member stops, and a member that watches it notices its silence. -/
  | silence {fleet : Fleet} {silent watcher : Peer} (now : Nat)
      (member : silent ∈ (fleet.roster mainServer).members) (other : silent ≠ mainServer)
      (watcherMem : watcher ∈ (fleet.roster mainServer).members)
      (watched : silent ∈ (fleet.node watcher).view.watched) :
      Occurs mainServer fleet (.silence silent)
        ({ fleet with stopped := silent :: fleet.stopped }.turn watcher
          ((fleet.node watcher).onSilence now silent)
          ((fleet.node watcher).view.reactToSilence (fleet.node watcher).role silent).actions)

/-- Several happenings, each after all letters of the one before have arrived. -/
inductive Course (mainServer : Peer) (fleet : Fleet) : List Happening → Fleet → Prop
  | start : Course mainServer fleet [] fleet
  | next {happenings : List Happening} {former begun after : Fleet} {happening : Happening}
      (course : Course mainServer fleet happenings former)
      (occurs : Occurs mainServer former happening begun)
      (delivered : Relation.ReflTransGen Delivers begun after) (quiet : after.inFlight = []) :
      Course mainServer fleet (happenings ++ [happening]) after

/-! ## Consistency -/

/-- Every node belongs, and the main server has a view that it attains. -/
structure Consistent (mainServer : Peer) (fleet : Fleet) : Prop where
  attained : ∃ history, View.Attained mainServer history (fleet.node mainServer).view
  belongs : ∀ peer, (fleet.node peer).Belongs mainServer peer

/-- All members hold the roster of the main server, are there to read letters,
and can be written to; and no letter is on its way. -/
structure Settled (mainServer : Peer) (fleet : Fleet) : Prop
    extends fleet.Consistent mainServer where
  live : ∀ peer ∈ (fleet.roster mainServer).members, peer ∉ fleet.stopped
  literal : ∀ peer ∈ (fleet.roster mainServer).members, peer.IsLiteral
  rosterEq : ∀ peer ∈ (fleet.roster mainServer).members,
    fleet.roster peer = fleet.roster mainServer
  quiet : fleet.inFlight = []

@[simp]
theorem turn_node_self (fleet : Fleet) (peer : Peer) (node : Node) (actions : List Action) :
    (fleet.turn peer node actions).node peer = node :=
  Function.update_self ..

theorem turn_node_of_ne {fleet : Fleet} {peer other : Peer} (different : other ≠ peer)
    (node : Node) (actions : List Action) :
    (fleet.turn peer node actions).node other = fleet.node other :=
  Function.update_of_ne different ..

/-! ## Letters and queues -/

/-- A delivery takes one letter from those on their way.  What joins them is what the reader has
put into its queue. -/
theorem Delivers.exists_posts {fleet after : Fleet} (delivers : Delivers fleet after) :
    ∃ before later letter posted, fleet.inFlight = before ++ letter :: later ∧
      after.inFlight = before ++ later ++ posted ∧
      (fleet.node letter.recipient).Posts posted (after.node letter.recipient) := by
  cases delivers with
  | @lost before later letter underway stopped =>
      exact ⟨before, later, letter, [], underway, (List.append_nil _).symm, .refl _⟩
  | @read before later letter now underway live =>
      refine ⟨before, later, letter, _, underway, rfl, ?_⟩
      rw [turn_node_self]
      exact Node.posts_carryOut _ now (fleet.reaction letter)

/-- What a happening puts on its way is what the node that it happens to has put into its queue,
besides the batches that it gives out as it leaves. -/
theorem Occurs.exists_posts {mainServer : Peer} {fleet begun : Fleet} {happening : Happening}
    (occurs : Occurs mainServer fleet happening begun) :
    ∃ peer former posted, begun.inFlight = fleet.inFlight ++ posted ∧
      (former = fleet.node peer ∨
        ∃ now, former = (fleet.node peer).inMailroom (·.flushAll now)) ∧
      former.Posts posted (begun.node peer) := by
  cases occurs with
  | @hello sender now outside live literal =>
      refine ⟨sender, fleet.node sender, _, rfl, .inl rfl, ?_⟩
      rw [turn_node_self]
      exact Node.posts_foldl_perform now (fleet.node sender) [.tell mainServer (.hello sender)]
  | @goodbye leaver now member other =>
      refine ⟨leaver, _, _, rfl, .inr ⟨now, rfl⟩, ?_⟩
      rw [turn_node_self]
      exact (fleet.node leaver).posts_leave now
  | @silence silent watcher now member other watcherMem watched =>
      refine ⟨watcher, fleet.node watcher, _, rfl, .inl rfl, ?_⟩
      rw [turn_node_self]
      exact Node.posts_carryOut _ now _

namespace Consistent

variable {mainServer : Peer} {fleet : Fleet}

theorem presides (consistent : fleet.Consistent mainServer) :
    View.Presides mainServer (fleet.node mainServer).view :=
  consistent.attained.choose_spec.presides

/-- Nobody watches itself. -/
theorem ne_of_mem_watched (consistent : fleet.Consistent mainServer) {watcher peer : Peer}
    (watched : peer ∈ (fleet.node watcher).view.watched) : watcher ≠ peer := by
  rintro rfl
  apply View.self_notMem_watched (fleet.node watcher).view
  rw [(consistent.belongs watcher).selfEq]
  exact watched

theorem turn (consistent : fleet.Consistent mainServer) {peer : Peer} {node : Node}
    (belongs : node.Belongs mainServer peer)
    (attained : peer = mainServer → ∃ history, View.Attained mainServer history node.view)
    (actions : List Action) : (fleet.turn peer node actions).Consistent mainServer := by
  constructor
  · by_cases main : mainServer = peer
    · subst main
      rw [turn_node_self]
      exact attained rfl
    · rw [turn_node_of_ne main]
      exact consistent.attained
  · exact (Function.forall_update_iff fleet.node fun other node =>
      node.Belongs mainServer other).mpr ⟨belongs, fun other _ => consistent.belongs other⟩

/-- A node that reads a message leaves its fleet consistent. -/
theorem onMessage (consistent : fleet.Consistent mainServer) (now : Nat) (peer : Peer)
    (message : Control) (actions : List Action) :
    (fleet.turn peer ((fleet.node peer).onMessage now message) actions).Consistent
      mainServer := by
  refine consistent.turn ((consistent.belongs peer).onMessage now message) ?_ actions
  rintro rfl
  obtain ⟨history, attained⟩ := consistent.attained
  have role := (consistent.belongs peer).roleEq.trans attained.presides.role_eq
  rw [Node.onMessage, Node.carryOut_view, role]
  exact attained.react message

/-- So does a node that notices a silence. -/
theorem onSilence (consistent : fleet.Consistent mainServer) (now : Nat) {peer silent : Peer}
    (watched : silent ∈ (fleet.node peer).view.watched) (actions : List Action) :
    (fleet.turn peer ((fleet.node peer).onSilence now silent) actions).Consistent
      mainServer := by
  refine consistent.turn ((consistent.belongs peer).onSilence now silent) ?_ actions
  rintro rfl
  obtain ⟨history, attained⟩ := consistent.attained
  have role := (consistent.belongs peer).roleEq.trans attained.presides.role_eq
  rw [Node.onSilence_view, role]
  exact ⟨_, attained.timeout watched⟩

/-- The letters on their way, and who reads no more, make no difference. -/
theorem of_node_eq (consistent : fleet.Consistent mainServer) (other : Fleet)
    (same : other.node = fleet.node) : other.Consistent mainServer := by
  constructor
  · rw [same]
    exact consistent.attained
  · rw [same]
    exact consistent.belongs

end Consistent

end Fleet

end ClusterOverlay
