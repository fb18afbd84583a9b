import ClusterOverlay.Proofs.Convergence
import ClusterOverlay.Proofs.Node.Silence

/-!
# Evictions of the living

A member that is found silent need not have stopped.  Those who are told of its removal
are the members that are left, so no letter is ever addressed to the one that was
evicted: `Change.Underway.node_eq`.  While all the others settle on a roster without it,
it keeps the roster with itself in it, and goes on reporting to its former watcher:
`Fleet.evicted_unaware`.  `Fleet.evicted_not_told` is a run in which this happens.
-/

namespace ClusterOverlay

open Peer (numbered)

/-! ## Nodes to which nobody writes -/

namespace Fleet.Delivers

variable {fleet next : Fleet} {peer : Peer}

/-- A node to which no letter is addressed stays as it is. -/
theorem node_eq (delivered : Delivers fleet next)
    (unaddressed : ∀ letter ∈ fleet.inFlight, letter.recipient ≠ peer) :
    next.node peer = fleet.node peer := by
  cases delivered with
  | lost => rfl
  | @read before after letter now underway live =>
      have letterMem : letter ∈ fleet.inFlight := by simp [underway]
      exact turn_node_of_ne (unaddressed letter letterMem).symm _ _

theorem stopped_eq (delivered : Delivers fleet next) : next.stopped = fleet.stopped := by
  cases delivered <;> rfl

end Fleet.Delivers

namespace Change.Underway

variable {change : Change} {mainServer peer : Peer} {fleet after : Fleet}

/-- Nobody writes to a node that has no part in the change. -/
theorem unaddressed (underway : change.Underway mainServer fleet)
    (outside : peer ∉ change.latter.members) :
    ∀ letter ∈ fleet.inFlight, letter.recipient ≠ peer := by
  obtain ⟨_, _, spreading⟩ := underway
  rintro letter letterMem rfl
  exact outside (spreading.addressed letter letterMem).1

/-- A node that has no part in the change stays as it is, as long as letters are read. -/
theorem node_eq (lawful : change.Lawful mainServer)
    (underway : change.Underway mainServer fleet) (outside : peer ∉ change.latter.members)
    (delivered : Relation.ReflTransGen Fleet.Delivers fleet after) :
    after.node peer = fleet.node peer ∧ after.stopped = fleet.stopped := by
  induction delivered with
  | refl => exact ⟨rfl, rfl⟩
  | @tail middle after earlier last inductionHypothesis =>
      have still := (underway.run lawful earlier).unaddressed outside
      exact ⟨(last.node_eq still).trans inductionHypothesis.1,
        last.stopped_eq.trans inductionHypothesis.2⟩

end Change.Underway

/-! ## Members that are evicted alive -/

namespace Fleet

variable {mainServer evicted watcher : Peer} {fleet after : Fleet}

/-- A node removes a member that it has found silent, and tells of it. -/
def evict (fleet : Fleet) (now : Nat) (watcher silent : Peer) : Fleet :=
  fleet.turn watcher ((fleet.node watcher).onSilence now silent)
    ((fleet.node watcher).view.reactToSilence (fleet.node watcher).role silent).actions

/-- A member reports to whoever watches it. -/
theorem Settled.beat_eq_alive (settled : fleet.Settled mainServer)
    (watcherMem : watcher ∈ (fleet.roster mainServer).members) {peer : Peer}
    (watched : peer ∈ (fleet.node watcher).view.watched) :
    (fleet.node peer).view.beat = some (.alive peer, watcher) := by
  have watches := (settled.mem_watched_iff watcherMem).mp watched
  have member := watches.mem_members settled.presides.toLed
  have belongs := settled.belongs peer
  have same : (fleet.node peer).view.toRoster = fleet.roster mainServer :=
    settled.rosterEq peer member
  have sound : (fleet.node peer).view.Sound := same ▸ settled.presides.toSound
  have mainMem : mainServer ∈ (fleet.roster mainServer).servers :=
    List.mem_of_getElem? settled.presides.leads
  have reports := @View.beat_eq_alive_iff (fleet.node peer).view watcher sound
  rw [belongs.selfEq, belongs.mainServerEq, same] at reports
  exact (reports mainMem member).mpr watches

/-- A member of a settled fleet is alive, but the one who watches it finds it silent.
Whatever letters that brings about arrive, and in whatever order, the evicted member stays
as it was: it counts itself a member and reports to its former watcher.  Letters come to an
end without one to the evicted member, and then all the others have settled on a roster
without it. -/
theorem evicted_unaware (now : Nat) (settled : fleet.Settled mainServer)
    (watcherMem : watcher ∈ (fleet.roster mainServer).members)
    (watched : evicted ∈ (fleet.node watcher).view.watched)
    (delivered : Relation.ReflTransGen Delivers (fleet.evict now watcher evicted) after) :
    after.node evicted = fleet.node evicted ∧
      evicted ∉ after.stopped ∧
      evicted ∈ (after.roster evicted).members ∧
      (after.node evicted).view.beat = some (.alive evicted, watcher) ∧
      (∀ letter ∈ after.inFlight, letter.recipient ≠ evicted) ∧
      Acc (fun next former => Delivers former next) after ∧
      (after.inFlight = [] →
        after.Settled mainServer ∧ evicted ∉ (after.roster mainServer).members) := by
  have watches := (settled.mem_watched_iff watcherMem).mp watched
  have member := watches.mem_members settled.presides.toLed
  obtain ⟨latter, index, dropped, promoted, dismissal⟩ :=
    settled.exists_dismissal member watches.1
  have outside : evicted ∉ latter.members := fun stays =>
    (dismissal.mem_members_iff.mp stays).2 rfl
  obtain ⟨lawful, begun⟩ := settled.underway_of_silence dismissal now watcherMem watched
    fun peer peerMem => settled.live peer (dismissal.mem_members_iff.mp peerMem).1
  have underway := begun.run lawful delivered
  obtain ⟨unchanged, stoppedEq⟩ := begun.node_eq lawful outside delivered
  -- the watcher alone takes the first turn, and nobody watches itself
  have other : evicted ≠ watcher := (settled.ne_of_mem_watched watched).symm
  have nodeEq : after.node evicted = fleet.node evicted :=
    unchanged.trans (turn_node_of_ne other _ _)
  refine ⟨nodeEq, ?_, ?_, ?_, underway.unaddressed outside, underway.acc lawful, ?_⟩
  · rw [stoppedEq]
    exact settled.live evicted member
  · rw [roster, nodeEq, show (fleet.node evicted).view.toRoster = _ from
      settled.rosterEq evicted member]
    exact member
  · rw [nodeEq]
    exact settled.beat_eq_alive watcherMem watched
  · intro quiet
    obtain ⟨again, rosterEq⟩ := underway.settled lawful quiet
    exact ⟨again, rosterEq ▸ outside⟩

/-! ### Fleets to evict from -/

/-- All nodes hold the roster of the main server, whose view this is. -/
def gathered (main : View) : Fleet where
  node peer :=
    let view := main.held main.self (fun _ => main.cursor) peer
    (Node.create {} { Node.quietRoom with view }).reconcile 0
  stopped := []
  inFlight := []

theorem gathered_view (main : View) (peer : Peer) :
    ((gathered main).node peer).view = main.held main.self (fun _ => main.cursor) peer :=
  Node.reconcile_view _ 0

theorem settled_gathered {history : List Notice} {main : View}
    (attained : View.Attained mainServer history main)
    (literal : ∀ peer ∈ main.members, peer.IsLiteral) : (gathered main).Settled mainServer := by
  have selfEq := attained.presides.selfEq
  have held : main.held main.self (fun _ => main.cursor) mainServer = main := by
    rw [← selfEq]
    exact congrArg (View.mk _ _ · _) (selfEq.trans attained.presides.mainServerEq.symm)
  have mainView : ((gathered main).node mainServer).view = main :=
    (gathered_view main mainServer).trans held
  have belongs : ∀ peer, ((gathered main).node peer).Belongs mainServer peer := fun peer =>
    selfEq ▸ Node.Belongs.reconcile (Node.create {}
      { Node.quietRoom with view := main.held main.self (fun _ => main.cursor) peer }) 0
  have rosterEq : ∀ peer, (gathered main).roster peer = main.toRoster := by
    intro peer
    rw [roster, gathered_view, Roster.held]
  refine ⟨⟨⟨history, mainView.symm ▸ attained⟩, belongs⟩, fun _ _ => List.not_mem_nil, ?_, ?_,
    rfl⟩
  · rw [rosterEq]
    exact literal
  · intro peer _
    rw [rosterEq, rosterEq]

/-- The main server's view after hellos of the peers with these numbers. -/
def greeted (numbers : List UInt8) : View :=
  (numbers.map numbered).foldl
    (fun view sender => (view.react .mainServer (.hello sender)).view)
    (.initial (numbered 1) (numbered 1))

/-- The tenth peer belongs to the cluster of the second, who finds it silent.  Once all
letters have been read, the nine others have settled without it, and it still reports to the
second. -/
theorem evicted_unaware_tenth :
    let fleet := gathered (greeted [2, 3, 4, 5, 6, 7, 8, 9, 10])
    fleet.Settled (numbered 1) ∧
      numbered 10 ∈ (fleet.node (numbered 2)).view.watched ∧
      ∃ after, Relation.ReflTransGen Delivers
          (fleet.evict (milliseconds 60000) (numbered 2) (numbered 10)) after ∧
        after.Settled (numbered 1) ∧
        numbered 10 ∉ (after.roster (numbered 1)).members ∧
        numbered 10 ∈ (after.roster (numbered 10)).members ∧
        (after.node (numbered 10)).view.beat = some (.alive (numbered 10), numbered 2) := by
  intro fleet
  have settled : fleet.Settled (numbered 1) :=
    settled_gathered (View.Attained.start.hellos _) (by decide +kernel)
  have watcherMem : numbered 2 ∈ (fleet.roster (numbered 1)).members := by decide +kernel
  have watched : numbered 10 ∈ (fleet.node (numbered 2)).view.watched := by decide +kernel
  obtain ⟨_, _, _, _, _, ends, _⟩ :=
    evicted_unaware (milliseconds 60000) settled watcherMem watched .refl
  obtain ⟨after, delivered, quiet⟩ := exists_quiet_of_acc ends
  obtain ⟨_, _, stays, reports, _, _, rest⟩ :=
    evicted_unaware (milliseconds 60000) settled watcherMem watched delivered
  exact ⟨settled, watched, after, delivered, (rest quiet).1, (rest quiet).2, stays, reports⟩

/-- The main server finds the second peer silent, and tells the third.  Then nothing more is
said, and the second, who is alive, counts itself a member and does not say hello. -/
theorem evicted_not_told :
    let fleet := gathered (greeted [2, 3])
    let begun := fleet.evict (milliseconds 60000) (numbered 1) (numbered 2)
    let letter : Letter := ⟨numbered 3, .remove ⟨numbered 2, 1⟩⟩
    let after := { begun with inFlight := [] }.turn (numbered 3)
      ((begun.node (numbered 3)).onMessage (milliseconds 60001) letter.message)
      (begun.reaction letter).actions
    fleet.Settled (numbered 1) ∧
      numbered 2 ∈ (fleet.node (numbered 1)).view.watched ∧
      begun.inFlight = [letter] ∧
      Delivers begun after ∧
      after.inFlight = [] ∧
      numbered 2 ∉ after.stopped ∧
      numbered 2 ∉ (after.roster (numbered 1)).members ∧
      numbered 2 ∉ (after.roster (numbered 3)).members ∧
      numbered 2 ∈ (after.roster (numbered 2)).members ∧
      (after.node (numbered 2)).view.beat = some (.alive (numbered 2), numbered 1) := by
  intro fleet begun letter after
  have only : begun.inFlight = [] ++ letter :: [] := by decide +kernel
  exact ⟨settled_gathered (View.Attained.start.hellos _) (by decide +kernel),
    by decide +kernel, only, .read (milliseconds 60001) only (by decide +kernel),
    by decide +kernel, by decide +kernel, by decide +kernel, by decide +kernel,
    by decide +kernel, by decide +kernel⟩

end Fleet

end ClusterOverlay
