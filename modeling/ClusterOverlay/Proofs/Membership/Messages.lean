import ClusterOverlay.Proofs.Membership.Following

/-!
# What nodes tell each other

A reaction tells somebody something for one of a few reasons.  Because a peer is to be
removed, a node asks for a new place or passes the removal on, `View.Dismisses`, and it
passes on only what made its own view smaller.  `View.Answers` has the reasons for all
messages, and `View.answers_of_tell_mem_react` says that there is no other.
-/

namespace ClusterOverlay

namespace View

variable {view : View} {role : Role} {placement : Placement} {peer : Peer}
variable {message news heard : Control}

theorem tell_mem_tellAll_iff {recipients : List Peer} :
    Action.tell peer news ∈ view.tellAll recipients message ↔
      peer ∈ recipients ∧ peer ≠ view.self ∧ news = message := by
  simp only [tellAll, List.mem_map, List.mem_filter, Peer.mem_ascending, decide_eq_true_eq,
    Action.tell.injEq]
  constructor
  · rintro ⟨recipient, ⟨recipientMem, away⟩, rfl, rfl⟩
    exact ⟨recipientMem, away, rfl⟩
  · rintro ⟨recipientMem, away, rfl⟩
    exact ⟨peer, ⟨recipientMem, away⟩, rfl, rfl⟩

/-! ## Removals -/

/-- Whatever becomes of a removal, the view stays or the peer departs from it. -/
theorem reactToRemove_view_eq_or_departure (view : View) (role : Role) (placement : Placement) :
    (view.reactToRemove role placement).view = view ∨
      ∃ removal,
        view.Departure placement.peer removal (view.reactToRemove role placement).view := by
  unfold reactToRemove
  split
  · cases role with
    | mainServer => exact .inl rfl
    | clusterServer | client =>
        simp only [rejoin]
        split
        · next removed => exact .inr ⟨_, departure_of_remove removed⟩
        · exact .inl rfl
  · cases role with
    | mainServer =>
        simp only [expel]
        split
        · next removed => exact .inr ⟨_, departure_of_remove removed⟩
        · exact .inl rfl
        · exact .inl rfl
    | clusterServer =>
        simp only [relayRemove]
        split
        · next removed => exact .inr ⟨_, departure_of_remove removed⟩
        · exact .inl rfl
        · exact .inl rfl
    | client =>
        simp only [learnRemove]
        split
        · next removed => exact .inr ⟨_, departure_of_remove removed⟩
        · exact .inl rfl
        · exact .inl rfl

theorem members_reactToRemove_sublist (view : View) (role : Role) (placement : Placement) :
    (view.reactToRemove role placement).view.members.Sublist view.members := by
  rcases view.reactToRemove_view_eq_or_departure role placement with stays | ⟨removal, departure⟩
  · rw [stays]
  · exact departure.members_sublist

/-- What a node tells somebody because a peer is to be removed, with the view that it
comes to have. -/
inductive Dismisses (view : View) (placement : Placement) (after : View) : Peer → Control → Prop
  /-- The node itself was to be removed, and asks for a new place. -/
  | rejoins (own : placement.peer = view.self) :
      Dismisses view placement after after.mainServer (.hello after.self)
  /-- The peer has left the view, and the node says so. -/
  | passesOn {recipient : Peer} {cluster : Nat} {dropped : Bool} {promoted : Option Peer}
      (departure : view.Departure placement.peer (.removed cluster dropped promoted) after)
      (away : recipient ≠ view.self) :
      Dismisses view placement after recipient (.remove ⟨placement.peer, cluster⟩)

theorem dismisses_of_tell_mem_rejoin (own : placement.peer = view.self)
    (told : .tell peer message ∈ (view.rejoin placement).actions) :
    view.Dismisses placement (view.rejoin placement).view peer message := by
  simp only [rejoin, List.mem_cons, Action.tell.injEq, reduceCtorEq, List.not_mem_nil,
    or_false] at told
  obtain ⟨rfl, rfl⟩ := told
  exact .rejoins own

/-- Whoever tells that a peer has left does not tell itself. -/
theorem dismisses_of_tell_mem_tellAll {after : View} {recipients : List Peer} {cluster : Nat}
    {dropped : Bool} {promoted : Option Peer}
    (removed : view.remove placement = .ok (.removed cluster dropped promoted, after))
    (told : .tell peer message ∈ after.tellAll recipients (.remove ⟨placement.peer, cluster⟩)) :
    view.Dismisses placement after peer message := by
  have departure := departure_of_remove removed
  obtain ⟨_, away, rfl⟩ := tell_mem_tellAll_iff.mp told
  exact .passesOn departure (departure.self_eq ▸ away)

theorem dismisses_of_tell_mem_reactToRemove
    (told : .tell peer message ∈ (view.reactToRemove role placement).actions) :
    view.Dismisses placement (view.reactToRemove role placement).view peer message := by
  unfold reactToRemove at told ⊢
  split at told
  · next own =>
      rw [if_pos own]
      cases role with
      | mainServer => exact absurd told List.not_mem_nil
      | clusterServer | client => exact dismisses_of_tell_mem_rejoin own told
  · next other =>
      rw [if_neg other]
      cases role with
      | mainServer =>
          simp only [expel] at told ⊢
          split at told
          · next removed =>
              exact dismisses_of_tell_mem_tellAll removed (by simpa using told)
          · exact absurd told List.not_mem_nil
          · exact absurd told List.not_mem_nil
      | clusterServer =>
          simp only [relayRemove] at told ⊢
          split at told
          · next removed =>
              exact dismisses_of_tell_mem_tellAll removed (by simpa using told)
          · exact absurd told List.not_mem_nil
          · exact absurd told List.not_mem_nil
      | client =>
          simp only [learnRemove] at told
          split at told <;> simp [ignore] at told

theorem dismisses_of_tell_mem_reactToSilence {silent : Peer}
    (told : .tell peer message ∈ (view.reactToSilence role silent).actions) :
    silent ∈ view.watched ∧
      view.Dismisses ⟨silent, (view.clusterOf? silent).getD 0⟩
        (view.reactToSilence role silent).view peer message := by
  unfold reactToSilence at told ⊢
  split at told
  · next watched =>
      rw [if_pos watched]
      exact ⟨List.contains_iff_mem.mp watched, dismisses_of_tell_mem_reactToRemove told⟩
  · exact absurd told List.not_mem_nil

/-! ## Beats and farewells -/

/-- On a beat a node says hello, or that it is alive. -/
theorem eq_of_beat_eq_some (beats : view.beat = some (message, peer)) :
    message = .hello view.self ∨ message = .alive view.self := by
  unfold beat at beats
  split at beats
  · contradiction
  · split at beats
    · cases beats
      exact .inl rfl
    · split at beats
      · obtain ⟨server, _, told⟩ := Option.map_eq_some_iff.mp beats
        cases told
        exact .inr rfl
      · cases beats
        exact .inr rfl
      · contradiction

/-- On leaving, a node says that the overlay closes, or that it leaves its cluster. -/
theorem eq_of_tell_mem_farewell (told : .tell peer message ∈ view.farewell role) :
    message = .close ∨
      ∃ cluster, view.clusterOf? view.self = some cluster ∧
        message = .remove ⟨view.self, cluster⟩ := by
  unfold farewell at told
  cases role with
  | mainServer => exact .inl (tell_mem_tellAll_iff.mp told).2.2
  | clusterServer =>
      simp only at told
      split at told
      · next cluster found =>
          simp only [List.mem_singleton, Action.tell.injEq] at told
          exact .inr ⟨cluster, found, told.2⟩
      · contradiction
  | client =>
      simp only at told
      split at told
      · next server cluster _ found =>
          simp only [List.mem_singleton, Action.tell.injEq] at told
          exact .inr ⟨cluster, found, told.2⟩
      · contradiction

/-! ## All messages -/

/-- The reasons for which a node tells somebody something once it has heard a message. -/
inductive Answers (view : View) : Role → Control → Peer → Control → Prop
  /-- Whoever says hello gets the roster. -/
  | snapshot {sender : Peer} :
      Answers view .mainServer (.hello sender) sender
        (.network (view.welcome sender).view.toRoster)
  | newcomer {sender recipient : Peer} :
      Answers view .mainServer (.hello sender) recipient (.add ⟨sender, (view.place sender).1⟩)
  /-- A server passes on a placement that it follows. -/
  | placement {placement : Placement} {recipient : Peer} {after : View}
      (followed : view.follow placement = .ok (true, after)) :
      Answers view .clusterServer (.add placement) recipient (.add placement)
  | removal {role : Role} {placement : Placement} {recipient : Peer} {message : Control}
      (dismisses : view.Dismisses placement (view.reactToRemove role placement).view recipient
        message) :
      Answers view role (.remove placement) recipient message
  | closing {recipient : Peer} : Answers view .clusterServer .close recipient .close

theorem tell_network_mem_welcome (view : View) (sender : Peer) :
    .tell sender (.network (view.welcome sender).view.toRoster) ∈
      (view.welcome sender).actions :=
  List.mem_append_left _ (List.mem_cons_of_mem _ (List.mem_cons_of_mem _ List.mem_cons_self))

theorem answers_of_tell_mem_react (told : .tell peer message ∈ (view.react role heard).actions) :
    view.Answers role heard peer message := by
  cases heard with
  | hello sender =>
      cases role with
      | mainServer =>
          simp only [react, welcome, List.cons_append, List.nil_append, List.mem_cons,
            reduceCtorEq, false_or, Action.tell.injEq, tell_mem_tellAll_iff] at told
          rcases told with ⟨rfl, rfl⟩ | ⟨_, _, rfl⟩
          · exact .snapshot
          · exact .newcomer
      | clusterServer | client => exact absurd told List.not_mem_nil
  | alive sender => simp [react] at told
  | add placement =>
      cases role with
      | mainServer => exact absurd told List.not_mem_nil
      | clusterServer =>
          simp only [react, relayAdd] at told
          split at told
          · next followed =>
              simp only [List.mem_cons, reduceCtorEq, false_or, tell_mem_tellAll_iff] at told
              obtain ⟨_, _, rfl⟩ := told
              exact .placement followed
          · exact absurd told List.not_mem_nil
          · exact absurd told List.not_mem_nil
      | client =>
          simp only [react, learnAdd] at told
          split at told <;> simp [ignore] at told
  | remove placement => exact .removal (dismisses_of_tell_mem_reactToRemove told)
  | network roster =>
      cases role with
      | mainServer => exact absurd told List.not_mem_nil
      | clusterServer | client =>
          simp only [react, adopt] at told
          split at told <;> simp [ignore] at told
  | close =>
      cases role with
      | mainServer => exact absurd told List.not_mem_nil
      | clusterServer =>
          simp only [react, List.mem_append, tell_mem_tellAll_iff, List.mem_singleton,
            reduceCtorEq, or_false] at told
          obtain ⟨_, _, rfl⟩ := told
          exact .closing
      | client => simp [react] at told

end View

end ClusterOverlay
