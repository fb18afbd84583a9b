import ClusterOverlay.Proofs.Convergence.Departures
import ClusterOverlay.Proofs.Membership.Watchers

/-!
# Convergence

A settled fleet in which something happens settles again.  Whatever the order in
which letters arrive, all members then hold the roster of the main server, a
newcomer among them, and nobody holds one with a member who has left:
`Fleet.Settled.course`.  Letters always come to an end.
-/

namespace ClusterOverlay

open Peer (numbered)

/-- The roster takes account of what happened. -/
def Happening.KnownTo (roster : Roster) : Happening → Prop
  | hello sender => sender ∈ roster.members
  | goodbye leaver => leaver ∉ roster.members
  | silence silent => silent ∉ roster.members

namespace Fleet

namespace Settled

variable {mainServer : Peer} {fleet begun : Fleet}

theorem admission (settled : fleet.Settled mainServer) {sender : Peer}
    (outside : sender ∉ (fleet.roster mainServer).members) (literal : sender.IsLiteral) :
    Admission mainServer (fleet.node mainServer).view sender :=
  ⟨settled.presides, outside, settled.literal, literal⟩

theorem exists_dismissal (settled : fleet.Settled mainServer) {leaver : Peer}
    (member : leaver ∈ (fleet.roster mainServer).members) (away : leaver ≠ mainServer) :
    ∃ latter index dropped promoted, Dismissal mainServer (fleet.node mainServer).view latter
      leaver index dropped promoted := by
  obtain ⟨index, found⟩ := Option.ne_none_iff_exists'.mp
    (mt View.clusterOf?_eq_none_iff.mp (not_not.mpr member))
  obtain ⟨latter, dropped, promoted, dismissal⟩ :=
    Dismissal.exists_of_clusterOf? settled.presides settled.literal away found
  exact ⟨latter, index, dropped, promoted, dismissal⟩

/-- A hello reaches the main server, and an arrival begins. -/
theorem begins_of_hello (settled : fleet.Settled mainServer) {sender : Peer} (now : Nat)
    (outside : sender ∉ (fleet.roster mainServer).members) (live : sender ∉ fleet.stopped)
    (literal : sender.IsLiteral) :
    (Change.arrival (fleet.node mainServer).view sender).Begins mainServer
      (fleet.turn sender
        (Node.perform now (fleet.node sender) (.tell mainServer (.hello sender)))
        [.tell mainServer (.hello sender)]) := by
  have admission := settled.admission outside literal
  have arrival := (fleet.node mainServer).view.place_arrival sender
  have mainMem : mainServer ∈ (fleet.roster mainServer).members := settled.presides.mem_members
  have away : mainServer ≠ sender := admission.ne_newcomer mainMem
  obtain ⟨bytes, written⟩ := Peer.exists_encode_iff.mpr literal.isShort
  have sendable : Letter.isSendable ⟨mainServer, .hello sender⟩ (fleet.node sender).resolver :=
    Letter.isSendable_of_encode written (settled.literal mainServer mainMem)
  have consistent := settled.toConsistent.turn
    ((settled.belongs sender).perform now (.tell mainServer (.hello sender)))
    (fun same => absurd same.symm away) [.tell mainServer (.hello sender)]
  refine .of_letter admission.lawful ⟨mainServer, .hello sender⟩ ?_
    settled.presides.selfEq.symm (settled.live mainServer mainMem)
    (.start (consistent.of_node_eq _ rfl) ?_ ?_ rfl) ?_
  · simp [turn, settled.quiet, letters, Action.letter?, sendable]
  · intro peer peerMem
    rcases arrival.mem_members_iff.mp peerMem with known | rfl
    · exact settled.live peer known
    · exact live
  · intro peer peerMem
    by_cases new : peer = sender
    · exact .inl new
    · have known := (arrival.mem_members_iff.mp peerMem).resolve_right new
      simp only [turn_node_of_ne new]
      exact .inr (settled.rosterEq peer known)
  · have spreads := admission.spreads_main
    rw [settled.presides.selfEq] at spreads
    have role := (settled.belongs mainServer).role_eq_mainServer
    simp only [reaction, turn_node_of_ne away, role]
    exact spreads

/-- Members that are left when somebody stops have not stopped. -/
theorem live_of_departure (settled : fleet.Settled mainServer) {latter : View} {leaver : Peer}
    {index : Nat} {dropped : Bool} {promoted : Option Peer}
    (dismissal : Dismissal mainServer (fleet.node mainServer).view latter leaver index dropped
      promoted) : ∀ peer ∈ latter.members, peer ∉ leaver :: fleet.stopped := by
  intro peer peerMem
  obtain ⟨member, away⟩ := dismissal.mem_members_iff.mp peerMem
  exact List.not_mem_cons_of_ne_of_not_mem away (settled.live peer member)

/-- Members that are left still hold the former roster. -/
theorem spreading_departure (settled : fleet.Settled mainServer) {latter : View}
    {leaver root : Peer} {index : Nat} {dropped : Bool} {promoted : Option Peer}
    (dismissal : Dismissal mainServer (fleet.node mainServer).view latter leaver index dropped
      promoted) {after : Fleet} (consistent : after.Consistent mainServer)
    (live : ∀ peer ∈ latter.members, peer ∉ after.stopped) (quiet : after.inFlight = [])
    (others : ∀ peer, peer ≠ leaver → after.node peer = fleet.node peer) :
    (Change.departure (fleet.node mainServer).view latter leaver index promoted
      root).Spreading mainServer ∅ after := by
  refine .start consistent live ?_ quiet
  intro peer peerMem
  obtain ⟨member, away⟩ := dismissal.mem_members_iff.mp peerMem
  rw [others peer away]
  exact settled.rosterEq peer member

/-- A goodbye reaches somebody who oversees the leaver, and a departure begins. -/
theorem begins_of_goodbye (settled : fleet.Settled mainServer) {latter : View} {leaver : Peer}
    {index : Nat} {dropped : Bool} {promoted : Option Peer}
    (dismissal : Dismissal mainServer (fleet.node mainServer).view latter leaver index dropped
      promoted) (now : Nat) :
    ∃ change : Change, change.Lawful mainServer ∧ change.latter = latter.toRoster ∧
      change.Begins mainServer
        ({ fleet with stopped := leaver :: fleet.stopped }.turn leaver
          ((fleet.node leaver).leave now)
          ((fleet.node leaver).view.farewell (fleet.node leaver).role)) := by
  obtain ⟨overseer, overseerMem, oversees, farewell⟩ := dismissal.exists_farewell
    (settled.belongs leaver) (settled.rosterEq leaver dismissal.member)
  obtain ⟨member, other⟩ := dismissal.mem_members_iff.mp overseerMem
  obtain ⟨bytes, written⟩ := dismissal.exists_encode_remove
  have sendable :
      Letter.isSendable ⟨overseer, .remove ⟨leaver, index⟩⟩ (fleet.node leaver).resolver :=
    Letter.isSendable_of_encode written (settled.literal overseer member)
  have consistent := (settled.toConsistent.of_node_eq
    { fleet with stopped := leaver :: fleet.stopped } rfl).turn
      ((settled.belongs leaver).leave now) (fun same => absurd same dismissal.away)
      [.tell overseer (.remove ⟨leaver, index⟩)]
  refine ⟨Change.departure (fleet.node mainServer).view latter leaver index promoted overseer,
    dismissal.lawful oversees, rfl, ?_⟩
  rw [farewell]
  refine .of_letter (dismissal.lawful oversees)
    ⟨overseer, .remove ⟨leaver, index⟩⟩ ?_ rfl ?_
    (settled.spreading_departure dismissal (consistent.of_node_eq _ rfl)
      (settled.live_of_departure dismissal) rfl fun peer away => Function.update_of_ne away _ _) ?_
  · simp [turn, settled.quiet, letters, Action.letter?, sendable]
  · exact List.not_mem_cons_of_ne_of_not_mem other (settled.live overseer member)
  · simp only [reaction, turn_node_of_ne other]
    exact dismissal.spreads overseerMem (settled.belongs overseer)
      (settled.rosterEq overseer member)

/-- Somebody who oversees the silent member notices, and a departure is underway, whether
the member has stopped or not. -/
theorem underway_of_silence (settled : fleet.Settled mainServer) {latter : View}
    {silent watcher : Peer} {index : Nat} {dropped : Bool} {promoted : Option Peer}
    (dismissal : Dismissal mainServer (fleet.node mainServer).view latter silent index dropped
      promoted) (now : Nat) (watcherMem : watcher ∈ (fleet.roster mainServer).members)
    (watched : silent ∈ (fleet.node watcher).view.watched) {stopped : List Peer}
    (live : ∀ peer ∈ latter.members, peer ∉ stopped) :
    let change :=
      Change.departure (fleet.node mainServer).view latter silent index promoted watcher
    change.Lawful mainServer ∧
      change.Underway mainServer
        ({ fleet with stopped }.turn watcher ((fleet.node watcher).onSilence now silent)
          ((fleet.node watcher).view.reactToSilence (fleet.node watcher).role
            silent).actions) := by
  intro change
  have belongs := settled.belongs watcher
  have same := settled.rosterEq watcher watcherMem
  have oversees := dismissal.oversees_of_mem_watched belongs same watched
  have other : watcher ≠ silent := settled.ne_of_mem_watched watched
  have spreads : change.Spreads watcher _ :=
    dismissal.spreads (dismissal.mem_members_iff.mpr ⟨watcherMem, other⟩) belongs same
  rw [← dismissal.reactToSilence_eq same watched] at spreads
  have consistent := settled.toConsistent.of_node_eq { fleet with stopped } rfl
  refine ⟨dismissal.lawful oversees, ?_⟩
  exact .turn (dismissal.lawful oversees)
    (settled.spreading_departure dismissal consistent live settled.quiet fun _ _ => rfl) rfl
    (consistent.onSilence now watched _)
    ⟨(congrArg View.toRoster (Node.onSilence_view _ now silent)).trans spreads.rosterEq,
      spreads.mem_letters_iff⟩

/-- Whatever happens in a settled fleet begins a change that takes account of it. -/
theorem exists_change (settled : fleet.Settled mainServer) {happening : Happening}
    (occurs : Occurs mainServer fleet happening begun) :
    ∃ change : Change, change.Lawful mainServer ∧ change.Begins mainServer begun ∧
      happening.KnownTo change.latter := by
  cases occurs with
  | @hello sender now outside live literal =>
      have admission := settled.admission outside literal
      have arrival := (fleet.node mainServer).view.place_arrival sender
      exact ⟨_, admission.lawful, settled.begins_of_hello now outside live literal,
        arrival.mem_members_iff.mpr (.inr rfl)⟩
  | @goodbye leaver now member away =>
      obtain ⟨latter, index, dropped, promoted, dismissal⟩ :=
        settled.exists_dismissal member away
      obtain ⟨change, lawful, latterEq, begins⟩ := settled.begins_of_goodbye dismissal now
      refine ⟨change, lawful, begins, ?_⟩
      rw [latterEq]
      exact fun stays => (dismissal.mem_members_iff.mp stays).2 rfl
  | @silence silent watcher now member away watcherMem watched =>
      obtain ⟨latter, index, dropped, promoted, dismissal⟩ :=
        settled.exists_dismissal member away
      obtain ⟨lawful, underway⟩ := settled.underway_of_silence dismissal now watcherMem watched
        (settled.live_of_departure dismissal)
      exact ⟨_, lawful, .inl underway,
        fun stays => (dismissal.mem_members_iff.mp stays).2 rfl⟩

/-- After a happening, letters come to an end. -/
theorem acc_of_occurs (settled : fleet.Settled mainServer) {happening : Happening}
    (occurs : Occurs mainServer fleet happening begun) :
    Acc (fun next former => Delivers former next) begun := by
  obtain ⟨change, lawful, begins, _⟩ := settled.exists_change occurs
  exact begins.acc lawful

/-- Once they have, the fleet is settled again. -/
theorem settled_of_occurs (settled : fleet.Settled mainServer) {happening : Happening}
    (occurs : Occurs mainServer fleet happening begun) {after : Fleet}
    (delivered : Relation.ReflTransGen Delivers begun after) (quiet : after.inFlight = []) :
    after.Settled mainServer ∧ happening.KnownTo (after.roster mainServer) := by
  obtain ⟨change, lawful, begins, known⟩ := settled.exists_change occurs
  obtain ⟨again, rosterEq⟩ := begins.settled lawful delivered quiet
  exact ⟨again, rosterEq ▸ known⟩

/-! ## The one who watches -/

theorem mem_watched_iff (settled : fleet.Settled mainServer) {watcher peer : Peer}
    (watcherMem : watcher ∈ (fleet.roster mainServer).members) :
    peer ∈ (fleet.node watcher).view.watched ↔
      (fleet.roster mainServer).Watches mainServer watcher peer := by
  have belongs := settled.belongs watcher
  have same : (fleet.node watcher).view.toRoster = fleet.roster mainServer :=
    settled.rosterEq watcher watcherMem
  have sound : (fleet.node watcher).view.Sound := same ▸ settled.presides.toSound
  have mainMem : mainServer ∈ (fleet.node watcher).view.servers :=
    same ▸ List.mem_of_getElem? settled.presides.leads
  rw [View.mem_watched_iff sound (belongs.mainServerEq.symm ▸ mainMem), same,
    belongs.mainServerEq, belongs.selfEq]

/-- Every member but the main server is watched by some member. -/
theorem exists_watcher (settled : fleet.Settled mainServer) {peer : Peer}
    (member : peer ∈ (fleet.roster mainServer).members) (away : peer ≠ mainServer) :
    ∃ watcher ∈ (fleet.roster mainServer).members,
      peer ∈ (fleet.node watcher).view.watched := by
  have sound : (fleet.roster mainServer).Sound := settled.presides.toSound
  obtain ⟨watcher, watches⟩ := sound.exists_watches member away
  have watcherMem : watcher ∈ (fleet.roster mainServer).members :=
    sound.servers_subset (watches.mem_servers (List.mem_of_getElem? settled.presides.leads))
  exact ⟨watcher, watcherMem, (settled.mem_watched_iff watcherMem).mpr watches⟩

end Settled

/-- Whatever happens one after another in a settled fleet, it is settled after
each happening: all members are live and hold the roster of the main server.  That
roster takes account of the last happening.  And whatever happens next, letters
come to an end. -/
theorem settled_course {mainServer : Peer} {fleet after : Fleet} {happenings : List Happening}
    (settled : fleet.Settled mainServer)
    (course : Course mainServer fleet happenings after) :
    after.Settled mainServer ∧
      (∀ earlier last, happenings = earlier ++ [last] →
        ∀ peer ∈ (after.roster mainServer).members, last.KnownTo (after.roster peer)) ∧
      ∀ next begun, Occurs mainServer after next begun →
        Acc (fun next former => Delivers former next) begun := by
  induction course with
  | start =>
      refine ⟨settled, ?_, fun next begun occurs => settled.acc_of_occurs occurs⟩
      intro earlier last none
      simp at none
  | next _ occurs delivered quiet inductionHypothesis =>
      obtain ⟨again, known⟩ := inductionHypothesis.1.settled_of_occurs occurs delivered quiet
      refine ⟨again, ?_, fun next begun occurs => again.acc_of_occurs occurs⟩
      intro earlier last split peer peerMem
      obtain ⟨_, rfl⟩ := List.append_singleton_inj.mp split
      rw [again.rosterEq peer peerMem]
      exact known

/-! ## A fleet that begins -/

/-- All nodes have just started, and nobody but the main server is a member. -/
def fresh (config : Config) (room : Mailroom) (mainServer : Peer) (now : Nat) : Fleet where
  node peer := (Node.create config { room with view := .initial peer mainServer }).start now
  stopped := []
  inFlight := []

theorem fresh_view (config : Config) (room : Mailroom) (mainServer : Peer) (now : Nat)
    (peer : Peer) :
    ((fresh config room mainServer now).node peer).view = .initial peer mainServer :=
  (Node.holds_start config { room with view := .initial peer mainServer } now peer mainServer
    rfl).viewEq

theorem roster_fresh (config : Config) (room : Mailroom) (mainServer : Peer) (now : Nat) :
    (fresh config room mainServer now).roster mainServer = ⟨[[mainServer]], [mainServer]⟩ := by
  rw [roster, fresh_view, View.initial, if_pos rfl]

theorem settled_fresh (config : Config) (room : Mailroom) {mainServer : Peer} (now : Nat)
    (literal : mainServer.IsLiteral) : (fresh config room mainServer now).Settled mainServer := by
  have belongs : ∀ peer,
      ((fresh config room mainServer now).node peer).Belongs mainServer peer := by
    intro peer
    have view := fresh_view config room mainServer now peer
    have role := (Node.holds_start config { room with view := .initial peer mainServer } now
      peer mainServer rfl).roleEq
    refine ⟨?_, ?_, role.trans (congrArg View.role view.symm)⟩
    · rw [view, View.initial]
      split <;> rfl
    · rw [view, View.initial]
      split <;> rfl
  have only : ∀ peer ∈ ((fresh config room mainServer now).roster mainServer).members,
      peer = mainServer := by
    rw [roster_fresh]
    intro peer peerMem
    simpa [Roster.members] using peerMem
  refine ⟨⟨⟨[], ?_⟩, belongs⟩, fun _ _ => List.not_mem_nil, ?_, ?_, rfl⟩
  · rw [fresh_view]
    exact .start
  · intro peer peerMem
    rw [only peer peerMem]
    exact literal
  · intro peer peerMem
    rw [only peer peerMem]

/-- Letters that come to an end can all be delivered. -/
theorem exists_quiet_of_acc {fleet : Fleet}
    (ends : Acc (fun next former => Delivers former next) fleet) :
    ∃ after, Relation.ReflTransGen Delivers fleet after ∧ after.inFlight = [] := by
  induction ends with
  | intro fleet _ inductionHypothesis =>
      cases waiting : fleet.inFlight with
      | nil => exact ⟨fleet, .refl, waiting⟩
      | cons letter later =>
          have underway : fleet.inFlight = [] ++ letter :: later := waiting
          have step : ∃ next, Delivers fleet next := by
            by_cases stopped : letter.recipient ∈ fleet.stopped
            · exact ⟨_, .lost underway stopped⟩
            · exact ⟨_, .read 0 underway stopped⟩
          obtain ⟨next, delivered⟩ := step
          obtain ⟨after, rest, quiet⟩ := inductionHypothesis next delivered
          exact ⟨after, rest.head delivered, quiet⟩

/-- A node joins a fleet that has just begun, and falls silent. -/
theorem settled_course_joinAndFallSilent :
    let room : Mailroom :=
      { view := .initial (numbered 1) (numbered 1)
        listeners := .none
        outbox := ⟨Packet.payloadLimit, 0, SchedulerConfig.schedule {} 0⟩
        batcher := .empty 2048 (milliseconds 10) }
    let fleet := fresh {} room (numbered 1) 0
    ∃ after, fleet.Settled (numbered 1) ∧
      Course (numbered 1) fleet [.hello (numbered 2), .silence (numbered 2)] after ∧
      after.Settled (numbered 1) ∧
      (∀ peer ∈ (after.roster (numbered 1)).members,
        numbered 2 ∉ (after.roster peer).members) := by
  intro room fleet
  have mainLiteral : (numbered 1).IsLiteral := ⟨⟨10, 0, 0, 1⟩, rfl⟩
  have literal : (numbered 2).IsLiteral := ⟨⟨10, 0, 0, 2⟩, rfl⟩
  have settled : fleet.Settled (numbered 1) := settled_fresh {} room 0 mainLiteral
  have outside : numbered 2 ∉ (fleet.roster (numbered 1)).members := by
    rw [show fleet.roster (numbered 1) = _ from roster_fresh {} room (numbered 1) 0]
    decide +kernel
  have hello := Occurs.hello 0 outside List.not_mem_nil literal
  obtain ⟨_, _, ends⟩ := settled_course settled .start
  obtain ⟨middle, delivered, quiet⟩ := exists_quiet_of_acc (ends _ _ hello)
  have joined := Course.start.next hello delivered quiet
  obtain ⟨again, known, ends⟩ := settled_course settled joined
  have mainMem := again.presides.mem_members
  have member : numbered 2 ∈ (middle.roster (numbered 1)).members :=
    known [] (.hello (numbered 2)) rfl (numbered 1) mainMem
  have away : numbered 2 ≠ numbered 1 := by decide +kernel
  obtain ⟨watcher, watcherMem, watched⟩ := again.exists_watcher member away
  have silence := Occurs.silence 0 member away watcherMem watched
  obtain ⟨after, delivered, quiet⟩ := exists_quiet_of_acc (ends _ _ silence)
  have course := joined.next silence delivered quiet
  obtain ⟨last, gone, _⟩ := settled_course settled course
  exact ⟨after, settled, course, last, gone [.hello (numbered 2)] (.silence (numbered 2)) rfl⟩

end Fleet

end ClusterOverlay
