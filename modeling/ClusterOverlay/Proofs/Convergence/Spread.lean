import Mathlib.Data.Finset.Card
import Mathlib.Data.Prod.Lex
import ClusterOverlay.Proofs.Convergence.Fleet

/-!
# How a change spreads

A change turns the roster of a settled fleet into another.  It starts at one
node, its root.  Whoever hears of it the first time takes over the new roster
and tells others; whoever hears of it again does nothing.

`Change.Lawful` says what makes this work: from the root, one is told by another
until all members have been told.  `Change.Spreading` is what every delivery
keeps.  Hence letters end, `Change.Underway.acc`, and then all members hold the
new roster, `Change.Underway.settled`.
-/

namespace ClusterOverlay

/-- A change of the roster, and how it becomes known. -/
structure Change where
  /-- The roster after the change. -/
  latter : Roster
  /-- The node at which the change starts. -/
  root : Peer
  /-- What a member is told. -/
  errand : Peer → Control
  /-- The view of a member that does not know of the change. -/
  Behind : Peer → View → Prop
  /-- Whom a member tells, once it knows. -/
  Tells : Peer → Peer → Prop

namespace Change

/-- The letter that tells a member. -/
def letter (change : Change) (recipient : Peer) : Letter :=
  ⟨recipient, change.errand recipient⟩

/-- The reaction of a member takes over the change, and tells of it. -/
structure Spreads (change : Change) (peer : Peer) (reaction : Reaction) : Prop where
  rosterEq : reaction.view.toRoster = change.latter
  mem_letters_iff : ∀ resolver letter,
    letter ∈ letters resolver reaction.actions ↔
      ∃ other, change.Tells peer other ∧ letter = change.letter other

/-- The reaction changes nothing, and tells nobody. -/
structure Rests (change : Change) (reaction : Reaction) : Prop where
  rosterEq : reaction.view.toRoster = change.latter
  silent : ∀ resolver, letters resolver reaction.actions = []

/-- A member that takes over the change and tells it on spreads it. -/
theorem Spreads.of_tellAll {change : Change} {peer : Peer} {after : View} {actions : List Action}
    {recipients : List Peer} {message : Control} {bytes : Bytes}
    (rosterEq : after.toRoster = change.latter) (written : message.encode = .ok bytes)
    (said : ∀ resolver,
      letters resolver actions = letters resolver (after.tellAll recipients message))
    (told : ∀ other, change.Tells peer other ↔ other ≠ after.self ∧ other ∈ recipients)
    (literal : ∀ other, change.Tells peer other → other.IsLiteral)
    (errand : ∀ other, change.Tells peer other → change.errand other = message) :
    change.Spreads peer ⟨after, actions⟩ := by
  refine ⟨rosterEq, fun resolver letter => ?_⟩
  have named : ∀ other ∈ recipients, other ≠ after.self → other.IsLiteral :=
    fun other otherMem away => literal other ((told other).mpr ⟨away, otherMem⟩)
  rw [said resolver, View.mem_letters_tellAll_iff written named]
  refine exists_congr fun other => ?_
  rw [← told other]
  refine and_congr_right fun tells => ?_
  rw [Change.letter, errand other tells]

/-- A member that takes over the change and has nobody to tell spreads it, too. -/
theorem Spreads.of_silent {change : Change} {peer : Peer} {reaction : Reaction}
    (rosterEq : reaction.view.toRoster = change.latter)
    (silent : ∀ resolver, letters resolver reaction.actions = [])
    (nobody : ∀ other, ¬ change.Tells peer other) : change.Spreads peer reaction := by
  refine ⟨rosterEq, fun resolver letter => ?_⟩
  rw [silent resolver]
  constructor
  · intro letterMem
    contradiction
  · rintro ⟨other, tells, _⟩
    exact absurd tells (nobody other)

/-- All members come to know of the change, one from another. -/
structure Lawful (change : Change) (mainServer : Peer) : Prop where
  mainMem : mainServer ∈ change.latter.members
  literal : ∀ peer ∈ change.latter.members, peer.IsLiteral
  tellsMem : ∀ {peer other : Peer}, change.Tells peer other → other ∈ change.latter.members
  reaches : ∀ peer ∈ change.latter.members,
    Relation.ReflTransGen change.Tells change.root peer
  spreads : ∀ {peer : Peer} {node : Node}, peer ∈ change.latter.members → peer ≠ change.root →
    node.Belongs mainServer peer → change.Behind peer node.view →
      change.Spreads peer (node.view.react node.role (change.errand peer))
  rests : ∀ {peer : Peer} {node : Node}, peer ∈ change.latter.members →
    node.Belongs mainServer peer → node.view.toRoster = change.latter →
      change.Rests (node.view.react node.role (change.errand peer))

/-- The informed members know of the change, the others do not, and whoever was
to be told by an informed one is informed or will be. -/
structure Spreading (change : Change) (mainServer : Peer) (informed : Finset Peer)
    (fleet : Fleet) : Prop where
  consistent : fleet.Consistent mainServer
  live : ∀ peer ∈ change.latter.members, peer ∉ fleet.stopped
  knows : ∀ peer ∈ informed, fleet.roster peer = change.latter
  behind : ∀ peer ∈ change.latter.members, peer ∉ informed →
    change.Behind peer (fleet.node peer).view
  addressed : ∀ letter ∈ fleet.inFlight,
    letter.recipient ∈ change.latter.members ∧ letter = change.letter letter.recipient
  told : ∀ peer ∈ informed, ∀ other, change.Tells peer other →
    other ∈ informed ∨ change.letter other ∈ fleet.inFlight

/-- The members that are not informed yet, and the letters on their way. -/
def toGo (change : Change) (informed : Finset Peer) (fleet : Fleet) : Nat ×ₗ Nat :=
  toLex ((change.latter.members.toFinset \ informed).card, fleet.inFlight.length)

namespace Spreading

variable {change : Change} {mainServer peer : Peer} {informed : Finset Peer} {fleet : Fleet}

/-- Before the change starts, nobody knows of it. -/
theorem start (consistent : fleet.Consistent mainServer)
    (live : ∀ peer ∈ change.latter.members, peer ∉ fleet.stopped)
    (behind : ∀ peer ∈ change.latter.members, change.Behind peer (fleet.node peer).view)
    (quiet : fleet.inFlight = []) : change.Spreading mainServer ∅ fleet :=
  ⟨consistent, live, by simp, fun peer member _ => behind peer member, by simp [quiet], by simp⟩

/-- A member hears of the change.  Either it knows already, or it tells others
now; letters to it need not be on their way any more. -/
theorem turn (spreading : change.Spreading mainServer informed fleet)
    (lawful : change.Lawful mainServer) {node : Node} {actions : List Action}
    {rest : List Letter}
    (consistent :
      ({ fleet with inFlight := rest }.turn peer node actions).Consistent mainServer)
    (rosterEq : node.view.toRoster = change.latter)
    (fresh : ∀ letter ∈ letters (fleet.node peer).resolver actions,
      ∃ other, change.Tells peer other ∧ letter = change.letter other)
    (tells : ∀ other, change.Tells peer other →
      peer ∈ informed ∨ change.letter other ∈ letters (fleet.node peer).resolver actions)
    (kept : ∀ letter ∈ fleet.inFlight, letter ∈ rest ∨ letter.recipient = peer)
    (subset : ∀ letter ∈ rest, letter ∈ fleet.inFlight) :
    change.Spreading mainServer (insert peer informed)
      ({ fleet with inFlight := rest }.turn peer node actions) := by
  have told : ∀ teller ∈ informed, ∀ other, change.Tells teller other →
      other ∈ insert peer informed ∨
        change.letter other ∈ rest ++ letters (fleet.node peer).resolver actions := by
    intro teller tellerMem other tellsOther
    rcases spreading.told teller tellerMem other tellsOther with known | underway
    · exact .inl (Finset.mem_insert_of_mem known)
    · rcases kept _ underway with stays | reached
      · exact .inr (List.mem_append_left _ stays)
      · have same : other = peer := reached
        exact .inl (same ▸ Finset.mem_insert_self _ _)
  refine ⟨consistent, spreading.live, ?_, ?_, ?_, ?_⟩
  · intro other otherMem
    by_cases same : other = peer
    · subst same
      rw [Fleet.roster, Fleet.turn_node_self]
      exact rosterEq
    · rw [Fleet.roster, Fleet.turn_node_of_ne same]
      exact spreading.knows other (Finset.mem_of_mem_insert_of_ne otherMem same)
  · intro other otherMem uninformed
    rw [Finset.mem_insert, not_or] at uninformed
    rw [Fleet.turn_node_of_ne uninformed.1]
    exact spreading.behind other otherMem uninformed.2
  · intro letter letterMem
    rcases List.mem_append.mp letterMem with former | new
    · exact spreading.addressed letter (subset letter former)
    · obtain ⟨other, tellsOther, rfl⟩ := fresh letter new
      exact ⟨lawful.tellsMem tellsOther, rfl⟩
  · intro teller tellerMem other tellsOther
    rcases Finset.mem_insert.mp tellerMem with rfl | tellerMem
    · rcases tells other tellsOther with known | new
      · exact told teller known other tellsOther
      · exact .inr (List.mem_append_right _ new)
    · exact told teller tellerMem other tellsOther

/-- A delivery informs one more member, or takes a letter away and nothing else. -/
theorem deliver (spreading : change.Spreading mainServer informed fleet)
    (lawful : change.Lawful mainServer) (rootMem : change.root ∈ informed) {next : Fleet}
    (delivered : Fleet.Delivers fleet next) :
    ∃ now, informed ⊆ now ∧ change.Spreading mainServer now next ∧
      toGo change now next < toGo change informed fleet := by
  cases delivered with
  | @lost before after letter underway stopped =>
      have letterMem : letter ∈ fleet.inFlight := by simp [underway]
      exact absurd stopped (spreading.live _ (spreading.addressed letter letterMem).1)
  | @read before after letter time underway live =>
      have letterMem : letter ∈ fleet.inFlight := by simp [underway]
      obtain ⟨member, letterEq⟩ := spreading.addressed letter letterMem
      have message : letter.message = change.errand letter.recipient :=
        congrArg Letter.message letterEq
      have belongs := spreading.consistent.belongs letter.recipient
      have consistent := (spreading.consistent.of_node_eq
        { fleet with inFlight := before ++ after } rfl).onMessage time
          letter.recipient letter.message (fleet.reaction letter).actions
      have viewEq := Node.carryOut_view (fleet.node letter.recipient) time
        (fleet.reaction letter)
      have kept : ∀ other ∈ fleet.inFlight,
          other ∈ before ++ after ∨ other.recipient = letter.recipient := by
        rw [underway]
        intro other otherMem
        rcases List.mem_append.mp otherMem with early | late
        · exact .inl (List.mem_append_left _ early)
        · rcases List.mem_cons.mp late with rfl | late
          · exact .inr rfl
          · exact .inl (List.mem_append_right _ late)
      have subset : ∀ other ∈ before ++ after, other ∈ fleet.inFlight := by
        rw [underway]
        exact fun other otherMem =>
          ((List.sublist_cons_self letter after).append_left before).subset otherMem
      by_cases informedMem : letter.recipient ∈ informed
      · have rests := message ▸ lawful.rests member belongs (spreading.knows _ informedMem)
        have silent := rests.silent (fleet.node letter.recipient).resolver
        change letters _ (fleet.reaction letter).actions = [] at silent
        have onward := spreading.turn lawful consistent
          ((congrArg View.toRoster viewEq).trans rests.rosterEq) (by simp [silent])
          (fun _ _ => .inl informedMem) kept subset
        rw [Finset.insert_eq_of_mem informedMem] at onward
        refine ⟨informed, Finset.Subset.refl _, onward, ?_⟩
        apply Prod.Lex.toLex_lt_toLex.mpr
        exact .inr ⟨rfl, by simp [Fleet.turn, silent, underway]⟩
      · have away : letter.recipient ≠ change.root := fun same =>
          informedMem (same ▸ rootMem)
        have spreads := message ▸ lawful.spreads member away belongs
          (spreading.behind _ member informedMem)
        refine ⟨insert letter.recipient informed, Finset.subset_insert _ _,
          spreading.turn lawful consistent
            ((congrArg View.toRoster viewEq).trans spreads.rosterEq)
            (fun other => (spreads.mem_letters_iff _ other).mp)
            (fun other tells => .inr ((spreads.mem_letters_iff _ _).mpr ⟨other, tells, rfl⟩))
            kept subset, ?_⟩
        apply Prod.Lex.toLex_lt_toLex.mpr
        refine .inl (Finset.card_lt_card ?_)
        rw [Finset.sdiff_insert]
        exact Finset.erase_ssubset
          (Finset.mem_sdiff.mpr ⟨List.mem_toFinset.mpr member, informedMem⟩)

/-- Once no letter is on its way, all members are informed. -/
theorem mem_informed (spreading : change.Spreading mainServer informed fleet)
    (lawful : change.Lawful mainServer) (rootMem : change.root ∈ informed)
    (quiet : fleet.inFlight = []) (member : peer ∈ change.latter.members) :
    peer ∈ informed := by
  have reached := lawful.reaches peer member
  clear member
  induction reached with
  | refl => exact rootMem
  | tail _ tells inductionHypothesis =>
      rcases spreading.told _ inductionHypothesis _ tells with known | underway
      · exact known
      · rw [quiet] at underway
        contradiction

end Spreading

/-- The change has started, and spreads. -/
def Underway (change : Change) (mainServer : Peer) (fleet : Fleet) : Prop :=
  ∃ informed, change.root ∈ informed ∧ change.Spreading mainServer informed fleet

/-- The change is underway, or will be once its first letter has arrived. -/
def Begins (change : Change) (mainServer : Peer) (fleet : Fleet) : Prop :=
  change.Underway mainServer fleet ∨
    fleet.inFlight ≠ [] ∧ ∀ next, Fleet.Delivers fleet next → change.Underway mainServer next

namespace Underway

variable {change : Change} {mainServer : Peer} {fleet : Fleet}

/-- The root takes over the change, and the others do not know of it yet. -/
theorem turn (lawful : change.Lawful mainServer)
    (spreading : change.Spreading mainServer ∅ fleet) {peer : Peer} {node : Node}
    {actions : List Action} (atRoot : peer = change.root)
    (consistent : (fleet.turn peer node actions).Consistent mainServer)
    (spreads : change.Spreads peer ⟨node.view, actions⟩) :
    change.Underway mainServer (fleet.turn peer node actions) :=
  ⟨insert peer ∅, atRoot ▸ Finset.mem_insert_self _ _,
    spreading.turn lawful consistent spreads.rosterEq
      (fun letter => (spreads.mem_letters_iff _ letter).mp)
      (fun other tells => .inr ((spreads.mem_letters_iff _ _).mpr ⟨other, tells, rfl⟩))
      (fun _ letterMem => .inl letterMem) (fun _ letterMem => letterMem)⟩

/-- A delivery leaves the change underway. -/
theorem deliver (lawful : change.Lawful mainServer)
    (underway : change.Underway mainServer fleet) {next : Fleet}
    (delivered : Fleet.Delivers fleet next) : change.Underway mainServer next := by
  obtain ⟨informed, rootMem, spreading⟩ := underway
  obtain ⟨now, subset, onward, _⟩ := spreading.deliver lawful rootMem delivered
  exact ⟨now, subset rootMem, onward⟩

/-- So do several deliveries. -/
theorem run (lawful : change.Lawful mainServer) (underway : change.Underway mainServer fleet)
    {after : Fleet} (delivered : Relation.ReflTransGen Fleet.Delivers fleet after) :
    change.Underway mainServer after := by
  induction delivered with
  | refl => exact underway
  | tail _ last inductionHypothesis => exact inductionHypothesis.deliver lawful last

/-- Deliveries come to an end. -/
theorem acc (lawful : change.Lawful mainServer) (underway : change.Underway mainServer fleet) :
    Acc (fun next former => Fleet.Delivers former next) fleet := by
  obtain ⟨informed, rootMem, spreading⟩ := underway
  generalize measure : toGo change informed fleet = size
  induction size using WellFoundedLT.induction generalizing informed fleet with
  | ind size inductionHypothesis =>
      constructor
      intro next delivered
      obtain ⟨now, subset, onward, less⟩ := spreading.deliver lawful rootMem delivered
      exact inductionHypothesis _ (measure ▸ less) now (subset rootMem) onward rfl

/-- In the end all members hold the new roster. -/
theorem settled (lawful : change.Lawful mainServer)
    (underway : change.Underway mainServer fleet) (quiet : fleet.inFlight = []) :
    fleet.Settled mainServer ∧ fleet.roster mainServer = change.latter := by
  obtain ⟨informed, rootMem, spreading⟩ := underway
  have knows : ∀ peer ∈ change.latter.members, fleet.roster peer = change.latter :=
    fun peer member =>
      spreading.knows peer (spreading.mem_informed lawful rootMem quiet member)
  have rosterEq := knows mainServer lawful.mainMem
  refine ⟨⟨spreading.consistent, ?_, ?_, ?_, quiet⟩, rosterEq⟩
  · rw [rosterEq]
    exact spreading.live
  · rw [rosterEq]
    exact lawful.literal
  · rw [rosterEq]
    exact knows

end Underway

namespace Begins

variable {change : Change} {mainServer : Peer} {fleet : Fleet}

/-- A single letter to the root is on its way. -/
theorem of_letter (lawful : change.Lawful mainServer) (letter : Letter)
    (only : fleet.inFlight = [letter]) (atRoot : letter.recipient = change.root)
    (live : letter.recipient ∉ fleet.stopped)
    (spreading : change.Spreading mainServer ∅ { fleet with inFlight := [] })
    (spreads : change.Spreads letter.recipient (fleet.reaction letter)) :
    change.Begins mainServer fleet := by
  refine .inr ⟨by simp [only], ?_⟩
  have first : ∀ {before after : List Letter} {other : Letter},
      fleet.inFlight = before ++ other :: after →
        before = [] ∧ letter = other ∧ after = [] := by
    rintro (_ | ⟨early, before⟩) after other underway <;> simp_all
  intro next delivered
  cases delivered with
  | lost underway stopped =>
      obtain ⟨_, rfl, _⟩ := first underway
      exact absurd stopped live
  | read time underway _ =>
      obtain ⟨rfl, rfl, rfl⟩ := first underway
      have consistent := spreading.consistent.onMessage time letter.recipient letter.message
        (fleet.reaction letter).actions
      have viewEq := Node.carryOut_view (fleet.node letter.recipient) time
        (fleet.reaction letter)
      exact Underway.turn lawful spreading atRoot consistent
        ⟨(congrArg View.toRoster viewEq).trans spreads.rosterEq, spreads.mem_letters_iff⟩

theorem acc (lawful : change.Lawful mainServer) (begins : change.Begins mainServer fleet) :
    Acc (fun next former => Fleet.Delivers former next) fleet := by
  rcases begins with underway | ⟨_, onward⟩
  · exact underway.acc lawful
  · exact ⟨_, fun next delivered => (onward next delivered).acc lawful⟩

/-- Once all letters have arrived, all members hold the new roster. -/
theorem settled (lawful : change.Lawful mainServer) (begins : change.Begins mainServer fleet)
    {after : Fleet} (delivered : Relation.ReflTransGen Fleet.Delivers fleet after)
    (quiet : after.inFlight = []) :
    after.Settled mainServer ∧ after.roster mainServer = change.latter := by
  have arrived : change.Underway mainServer after := by
    rcases begins with underway | ⟨waiting, onward⟩
    · exact underway.run lawful delivered
    · rcases delivered.cases_head with rfl | ⟨next, first, later⟩
      · exact absurd quiet waiting
      · exact (onward next first).run lawful later
  exact arrived.settled lawful quiet

end Begins

end Change

end ClusterOverlay
