import ClusterOverlay.Proofs.Membership.MainServer
import ClusterOverlay.Proofs.Node.Start

/-!
# The main server as a node

Whatever reaches the node that is the main server, its view is one that
`View.Attained` describes, and the history of it is what the node was given
notice of.
-/

namespace ClusterOverlay

namespace Node

/-- The notice that an event is to the main server, if it is one: it hears a
hello or a removal, or a peer that it watches is reported silent. -/
def notice? (node : Node) : Event → Option Notice
  | .packet now sender raw => (node.heard? now sender raw).bind Notice.ofControl?
  | .silence _ peer => if node.view.watched.contains peer then some (.timeout peer) else none

/-- What the main server is given notice of during a run. -/
def notices (node : Node) : List Event → List Notice
  | [] => []
  | event :: events => (node.notice? event).toList ++ (node.deal event).notices events

/-- The node is the main server, and has its view after the history. -/
structure Serves (mainServer : Peer) (history : List Notice) (node : Node) : Prop where
  attained : View.Attained mainServer history node.view
  roleEq : node.role = .mainServer

namespace Serves

variable {mainServer : Peer} {history : List Notice} {node : Node}

theorem start (config : Config) (room : Mailroom) (mainServer : Peer) (now : Nat) :
    Serves mainServer []
      ((create config { room with view := .initial mainServer mainServer }).start now) := by
  have holds := holds_start config { room with view := .initial mainServer mainServer } now
    mainServer mainServer rfl
  refine ⟨by rw [holds.viewEq]; exact .start, ?_⟩
  rw [holds.roleEq]
  exact (View.Presides.initial mainServer).role_eq

/-- Without a notice the view stays. -/
theorem deal_view_of_notice?_eq_none (serves : Serves mainServer history node) {event : Event}
    (none : node.notice? event = none) : (node.deal event).view = node.view := by
  cases event with
  | packet now sender raw =>
      rw [deal, onPacket_view]
      cases heard : node.heard? now sender raw with
      | none => rfl
      | some message =>
          rw [notice?, heard] at none
          simp only [serves.roleEq]
          exact View.react_view_of_ofControl?_eq_none none
  | silence now peer =>
      rw [notice?] at none
      split at none
      · contradiction
      · next unwatched => rw [deal, onSilence_of_notMem_watched (by simpa using unwatched)]

/-- A notice changes the view as the history says. -/
theorem attained_deal (serves : Serves mainServer history node) {event : Event}
    {notice : Notice} (given : node.notice? event = some notice) :
    View.Attained mainServer (history ++ [notice]) (node.deal event).view := by
  cases event with
  | packet now sender raw =>
      rcases Option.bind_eq_some_iff.mp given with ⟨message, heard, notified⟩
      rw [Node.deal, onPacket_view, heard]
      simp only [serves.roleEq]
      cases message with
      | hello sender =>
          cases notified
          exact serves.attained.hello sender
      | remove placement =>
          cases notified
          exact serves.attained.removal placement
      | alive | add | network | close => contradiction
  | silence now peer =>
      rw [notice?] at given
      split at given
      · next watched =>
          cases given
          rw [Node.deal, onSilence_view, serves.roleEq]
          exact serves.attained.timeout (List.contains_iff_mem.mp watched)
      · contradiction

/-- Every event adds to the history what it gives notice of. -/
theorem deal (serves : Serves mainServer history node) (event : Event) :
    Serves mainServer (history ++ (node.notice? event).toList) (node.deal event) := by
  have presides := serves.attained.presides
  constructor
  · cases given : node.notice? event with
    | none =>
        rw [serves.deal_view_of_notice?_eq_none given]
        simpa using serves.attained
    | some notice => exact serves.attained_deal given
  · rw [deal_role event, serves.roleEq]
    · intro message
      rw [serves.roleEq]
      exact (presides.react message).role_eq
    · intro peer
      rw [serves.roleEq]
      exact (presides.reactToSilence peer).role_eq

theorem run (serves : Serves mainServer history node) (events : List Event) :
    Serves mainServer (history ++ node.notices events) (node.run events) := by
  induction events generalizing history node with
  | nil => simpa [notices, Node.run] using serves
  | cons event events ih =>
      rw [notices, ← List.append_assoc]
      exact ih (serves.deal event)

end Serves

/-- The view of the main server after any run: it presides over a sound roster
of at most eight clusters, its members are those who joined, and only a notice
changes it. -/
theorem mainServer_run (config : Config) (room : Mailroom) (mainServer : Peer) (now : Nat)
    (events : List Event) :
    let begun := (create config { room with view := .initial mainServer mainServer }).start now
    let node := begun.run events
    View.Presides mainServer node.view ∧
      (∀ peer, peer ∈ node.view.members ↔
        peer = mainServer ∨ Notice.Joined (begun.notices events) peer) ∧
      ∀ event, node.notice? event = none → (node.deal event).view = node.view := by
  intro begun node
  have serves : Serves mainServer (begun.notices events) node :=
    (Serves.start config room mainServer now).run events
  refine ⟨serves.attained.presides, ?_, ?_⟩
  · intro peer
    exact serves.attained.mem_members_iff
  · intro event none
    exact serves.deal_view_of_notice?_eq_none none

end Node

end ClusterOverlay
