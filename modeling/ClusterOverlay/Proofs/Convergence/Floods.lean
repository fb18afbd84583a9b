import Mathlib.Algebra.Order.BigOperators.Group.Finset
import Mathlib.Data.Prod.Lex
import ClusterOverlay.Proofs.Convergence.Fleet
import ClusterOverlay.Proofs.Node.Silence

/-!
# Removals come to an end

Whoever passes on that a peer has left has itself just lost this peer from its view, and
views only lose members as long as nothing but removals arrive.  So however much the views
of several nodes contradict each other, the removals on their way between them die out:
every delivery makes the views smaller altogether, or leaves them as large and takes a
letter from those on their way.  This is `Fleet.Floods.burden_lt`, and `Fleet.floods_end`
follows from it.
-/

namespace ClusterOverlay

/-! ## Letters that tell of removals -/

/-- Whether the letter tells of a removal. -/
def Letter.isRemoval (letter : Letter) : Bool :=
  letter.message.content == .remove

theorem Letter.isRemoval_iff {letter : Letter} :
    letter.isRemoval = true ↔ ∃ placement, letter.message = .remove placement := by
  unfold isRemoval
  cases letter.message <;> simp [Control.content]

namespace Fleet

/-! ## Floods -/

/-- One of the removals on their way arrives, whichever it is.  All other letters stay where
they are. -/
inductive Floods (present : Finset Peer) : Fleet → Fleet → Prop
  /-- Nobody is there to read it. -/
  | lost {fleet : Fleet} {before after : List Letter} {letter : Letter}
      (underway : fleet.inFlight = before ++ letter :: after)
      (removal : letter.isRemoval = true) (absent : letter.recipient ∉ present) :
      Floods present fleet { fleet with inFlight := before ++ after }
  | read {fleet : Fleet} {before after : List Letter} {letter : Letter} (now : Nat)
      (underway : fleet.inFlight = before ++ letter :: after)
      (removal : letter.isRemoval = true) (there : letter.recipient ∈ present) :
      Floods present fleet
        ({ fleet with inFlight := before ++ after }.turn letter.recipient
          ((fleet.node letter.recipient).onMessage now letter.message)
          (fleet.reaction letter).actions)

variable {present : Finset Peer} {fleet after : Fleet} {mainServer : Peer}

/-! ## What one removal does -/

theorem view_onMessage (fleet : Fleet) (now : Nat) (letter : Letter) :
    ((fleet.node letter.recipient).onMessage now letter.message).view =
      (fleet.reaction letter).view := by
  rw [Node.onMessage, Node.carryOut_view]
  rfl

/-- No view gains a member by a removal. -/
theorem members_reaction_sublist {letter : Letter} (removal : letter.isRemoval = true) :
    (fleet.reaction letter).view.members.Sublist
      (fleet.node letter.recipient).view.members := by
  obtain ⟨placement, messageEq⟩ := Letter.isRemoval_iff.mp removal
  rw [reaction, messageEq]
  exact View.members_reactToRemove_sublist _ _ placement

/-- A node that passes a removal on tells somebody else, and has fewer members in its view
than before. -/
theorem fewer_of_isRemoval {letter told : Letter} (removal : letter.isRemoval = true)
    {resolver : Resolver} (toldMem : told ∈ letters resolver (fleet.reaction letter).actions)
    (passes : told.isRemoval = true) :
    told.recipient ≠ (fleet.node letter.recipient).view.self ∧
      (fleet.reaction letter).view.members.length <
        (fleet.node letter.recipient).view.members.length := by
  obtain ⟨placement, messageEq⟩ := Letter.isRemoval_iff.mp removal
  obtain ⟨other, toldEq⟩ := Letter.isRemoval_iff.mp passes
  rw [reaction, messageEq] at toldMem ⊢
  have dismisses := View.dismisses_of_tell_mem_reactToRemove (mem_letters_iff.mp toldMem).1
  rw [toldEq] at dismisses
  generalize told.recipient = recipient at dismisses ⊢
  cases dismisses with
  | passesOn departure away => exact ⟨away, departure.length_members_lt⟩

/-! ## What decreases -/

/-- How many members the views of those who are present have altogether, and how many removals
are on their way. -/
def burden (present : Finset Peer) (fleet : Fleet) : Nat ×ₗ Nat :=
  toLex (∑ peer ∈ present, (fleet.node peer).view.members.length,
    fleet.inFlight.countP Letter.isRemoval)

theorem length_members_turn_le (fleet : Fleet) {letter : Letter}
    (removal : letter.isRemoval = true) (now : Nat) (inFlight : List Letter)
    (actions : List Action) (peer : Peer) :
    (({ fleet with inFlight }.turn letter.recipient
      ((fleet.node letter.recipient).onMessage now letter.message)
      actions).node peer).view.members.length ≤ (fleet.node peer).view.members.length := by
  by_cases same : peer = letter.recipient
  · rw [same, turn_node_self, view_onMessage]
    exact (members_reaction_sublist removal).length_le
  · rw [turn_node_of_ne same]

theorem Floods.burden_lt (floods : Floods present fleet after) :
    after.burden present < fleet.burden present := by
  apply Prod.Lex.toLex_lt_toLex.mpr
  cases floods with
  | lost underway removal absent =>
      exact .inr ⟨rfl, by simp [underway, removal]⟩
  | @read before after letter now underway removal there =>
      have noMore := fleet.length_members_turn_le removal now (before ++ after)
        (fleet.reaction letter).actions
      have sum := Finset.sum_le_sum fun peer (_ : peer ∈ present) => noMore peer
      -- However many letters the reader adds, its own view has become smaller then.
      let said := letters (fleet.node letter.recipient).resolver (fleet.reaction letter).actions
      by_cases spreads : ∃ told ∈ said, told.isRemoval = true
      · obtain ⟨told, toldMem, passes⟩ := spreads
        refine .inl (Finset.sum_lt_sum (fun peer _ => noMore peer) ⟨letter.recipient, there, ?_⟩)
        rw [turn_node_self, view_onMessage]
        exact (fewer_of_isRemoval removal toldMem passes).2
      · rcases sum.lt_or_eq with less | same
        · exact .inl less
        · have quiet : said.countP Letter.isRemoval = 0 :=
            List.countP_eq_zero.mpr fun told toldMem passes => spreads ⟨told, toldMem, passes⟩
          exact .inr ⟨same, by simp [turn, underway, removal, said, quiet]⟩

/-- Deliveries of removals come to an end. -/
theorem wellFounded_floods (present : Finset Peer) :
    WellFounded fun after fleet => Floods present fleet after :=
  Subrelation.wf Floods.burden_lt (InvImage.wf (burden present) wellFounded_lt)

/-! ## Who takes part -/

/-- Whoever belongs goes on to belong. -/
theorem Floods.belongs (floods : Floods present fleet after)
    (belongs : ∀ peer ∈ present, (fleet.node peer).Belongs mainServer peer) :
    ∀ peer ∈ present, (after.node peer).Belongs mainServer peer := by
  intro peer peerMem
  cases floods with
  | lost => exact belongs peer peerMem
  | @read before after letter now _ _ there =>
      by_cases same : peer = letter.recipient
      · rw [same, turn_node_self]
        exact (belongs letter.recipient there).onMessage now letter.message
      · rw [turn_node_of_ne same]
        exact belongs peer peerMem

theorem belongs_of_floods (belongs : ∀ peer ∈ present, (fleet.node peer).Belongs mainServer peer)
    (flooded : Relation.ReflTransGen (Floods present) fleet after) :
    ∀ peer ∈ present, (after.node peer).Belongs mainServer peer := by
  induction flooded with
  | refl => exact belongs
  | tail _ last inductionHypothesis => exact last.belongs inductionHypothesis

/-! ## All removals -/

/-- Whatever the views of several nodes under one main server are, and whatever is on its way
to them, removals cannot be delivered forever.  Whoever passes a removal on does not tell
itself, and its view has lost a member. -/
theorem floods_end (belongs : ∀ peer ∈ present, (fleet.node peer).Belongs mainServer peer) :
    (¬ ∃ course : Nat → Fleet, course 0 = fleet ∧
      ∀ step, Floods present (course step) (course (step + 1))) ∧
    ∀ after, Relation.ReflTransGen (Floods present) fleet after →
      ∀ letter ∈ after.inFlight, letter.isRemoval = true → letter.recipient ∈ present →
        ∀ now,
          let node := after.node letter.recipient
          let next := node.onMessage now letter.message
          let told := letters node.resolver (after.reaction letter).actions
          ((∀ answer ∈ told, answer.isRemoval = false) ∨
            next.view.members.Sublist node.view.members ∧
              next.view.members.length < node.view.members.length) ∧
          ∀ answer ∈ told, answer.isRemoval = true → answer.recipient ≠ letter.recipient := by
  constructor
  · rintro ⟨course, -, onward⟩
    have wellFounded : IsWellFounded Fleet fun after fleet => Floods present fleet after :=
      ⟨wellFounded_floods present⟩
    obtain ⟨step, stuck⟩ :=
      WellFounded.not_rel_apply_succ (r := fun after fleet => Floods present fleet after) course
    exact stuck (onward step)
  · intro after flooded letter _ removal there now node next told
    have selfEq : node.view.self = letter.recipient :=
      (belongs_of_floods belongs flooded _ there).selfEq
    have took : next.view = (after.reaction letter).view := after.view_onMessage now letter
    rw [took]
    constructor
    · by_cases spreads : ∃ answer ∈ told, answer.isRemoval = true
      · obtain ⟨answer, answerMem, passes⟩ := spreads
        exact .inr ⟨members_reaction_sublist removal,
          (fewer_of_isRemoval removal answerMem passes).2⟩
      · exact .inl fun answer answerMem =>
          Bool.eq_false_iff.mpr fun passes => spreads ⟨answer, answerMem, passes⟩
    · intro answer answerMem passes
      rw [← selfEq]
      exact (fewer_of_isRemoval removal answerMem passes).1

/-! ### Views that contradict each other -/

open Peer (numbered)

/-- The second of the numbered peers holds another roster than all others, in which the third
occurs twice. -/
def disputed (peer : Peer) : View :=
  let roster : Roster :=
    if peer = numbered 2 then View.couple
    else ⟨[[numbered 1, numbered 3], [numbered 3, numbered 2]], [numbered 1, numbered 3]⟩
  ⟨roster, peer, numbered 1, 0⟩

/-- Somebody tells the second peer that the third has left. -/
def quarrel : Fleet where
  node peer := (Node.create {} { Node.quietRoom with view := disputed peer }).reconcile 0
  stopped := []
  inFlight := [⟨numbered 2, .remove ⟨numbered 3, 0⟩⟩]

/-- The second peer passes the removal on, but not forever. -/
theorem floods_end_quarrel :
    let present : Finset Peer := {numbered 1, numbered 2, numbered 3}
    (∃ after, Floods present quarrel after ∧
      ⟨numbered 1, .remove ⟨numbered 3, 1⟩⟩ ∈ after.inFlight) ∧
    ¬ ∃ course : Nat → Fleet, course 0 = quarrel ∧
      ∀ step, Floods present (course step) (course (step + 1)) := by
  intro present
  have belongs : ∀ peer, (quarrel.node peer).Belongs (numbered 1) peer := fun peer =>
    Node.Belongs.reconcile (Node.create {} { Node.quietRoom with view := disputed peer }) 0
  have there : numbered 2 ∈ present := by decide +kernel
  refine ⟨⟨_, @Floods.read present quarrel [] [] ⟨numbered 2, .remove ⟨numbered 3, 0⟩⟩ 0 rfl rfl
    there, ?_⟩, ?_⟩
  · decide +kernel
  · exact (floods_end fun peer _ => belongs peer).1

end Fleet

end ClusterOverlay
