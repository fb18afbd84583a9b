import Mathlib.Data.List.Induction
import Mathlib.Data.List.Infix
import ClusterOverlay.Protocol
import ClusterOverlay.Proofs.Membership.Changes

/-!
# Placements that are followed

Whoever is not the main server follows the placements that it hears of.
`View.Following` lists what following one can come to, and
`View.follow_following` says that nothing else happens.  A placement that changes
a view adds the peer to the members, and keeps a view led.

Only the cluster named is looked at.  A peer may so come to stand in two
clusters, and `View.distinct_absorbAll_iff` says exactly when: as soon as a
placement of a member in another cluster is followed.
-/

namespace ClusterOverlay

namespace View

/-- What following a placement can come to. -/
inductive Following (view : View) (placement : Placement) :
    Except ViewError (Bool × View) → Prop
  /-- The placement asks for one cluster more than there may be. -/
  | full (next : placement.cluster = view.clusters.length)
      (full : clusterLimit ≤ view.clusters.length) :
      Following view placement (.error .clusterLimit)
  /-- There is no such cluster, and it is not the next one either. -/
  | beyond (far : view.clusters.length < placement.cluster) :
      Following view placement
        (.error (.clusterOutOfRange placement.cluster view.clusters.length))
  /-- The peer opens a cluster and leads it. -/
  | opens (next : placement.cluster = view.clusters.length)
      (room : view.clusters.length < clusterLimit) :
      Following view placement (.ok (true,
        { view with
          clusters := view.clusters ++ [[placement.peer]]
          servers := view.servers ++ [placement.peer] }))
  /-- The peer is where it is said to be. -/
  | known (home : view.Home placement.cluster placement.peer) :
      Following view placement (.ok (false, view))
  /-- The peer joins the cluster named. -/
  | joins (bound : placement.cluster < view.clusters.length)
      (foreign : ¬ view.Home placement.cluster placement.peer) :
      Following view placement (.ok (true,
        { view with clusters := view.clusters.modify placement.cluster (· ++ [placement.peer]) }))

theorem follow_following (view : View) (placement : Placement) :
    view.Following placement (view.follow placement) := by
  unfold follow
  split
  · next next =>
      split
      · next full => exact .full next (next ▸ full)
      · next room => exact .opens next (next ▸ Nat.not_le.mp room)
  · next inside =>
      split
      · next none =>
          have far := List.getElem?_eq_none_iff.mp none
          exact .beyond (Nat.lt_of_le_of_ne far (Ne.symm inside))
      · next cluster found =>
          split
          · next own => exact .known ⟨cluster, found, by simpa using own⟩
          · next foreign =>
              refine .joins (List.getElem?_eq_some_iff.mp found).1 ?_
              rintro ⟨other, otherFound, own⟩
              rw [found, Option.some.injEq] at otherFound
              exact foreign (by simpa [otherFound] using own)

namespace Following

variable {view after : View} {placement : Placement} {changed : Bool}

theorem self_eq (following : view.Following placement (.ok (changed, after))) :
    after.self = view.self := by
  cases following <;> rfl

theorem mainServer_eq (following : view.Following placement (.ok (changed, after))) :
    after.mainServer = view.mainServer := by
  cases following <;> rfl

theorem eq_of_not_changed (following : view.Following placement (.ok (false, after))) :
    after = view := by
  cases following
  rfl

theorem led (following : view.Following placement (.ok (changed, after))) (led : view.Led) :
    after.Led := by
  cases following with
  | opens => exact led.opened placement.peer
  | known => exact led
  | joins => exact led.joined placement.cluster placement.peer

theorem length_clusters_le (following : view.Following placement (.ok (changed, after)))
    (within : view.clusters.length ≤ clusterLimit) : after.clusters.length ≤ clusterLimit := by
  cases following with
  | opens next room => simpa using Nat.succ_le_of_lt room
  | known => exact within
  | joins => simpa using within

/-- A change adds the peer to the members, whether it is one of them or not. -/
theorem members_perm (following : view.Following placement (.ok (true, after))) :
    after.members.Perm (view.members ++ [placement.peer]) := by
  cases following with
  | opens => simp [Roster.members]
  | joins bound => exact Roster.flatten_modify_append_perm bound placement.peer

/-- Nobody comes to occur twice exactly if the peer is new to the whole view. -/
theorem distinct_iff (following : view.Following placement (.ok (true, after)))
    (distinct : view.members.Nodup) :
    after.members.Nodup ↔ placement.peer ∉ view.members := by
  rw [following.members_perm.nodup_iff, List.nodup_append]
  constructor
  · rintro ⟨_, _, apart⟩ peerMem
    exact apart _ peerMem _ (List.mem_singleton.mpr rfl) rfl
  · intro unknown
    refine ⟨distinct, List.nodup_singleton _, ?_⟩
    rintro member memberMem _ singletonMem rfl
    exact unknown (List.mem_singleton.mp singletonMem ▸ memberMem)

end Following

/-! ## Snapshots -/

theorem replace_eq_ok_iff {view after : View} {roster : Roster} :
    view.replace roster = .ok after ↔
      roster.Led ∧ after = { view with toRoster := roster, cursor := 0 } := by
  rw [Roster.led_iff_check, replace]
  cases roster.check with
  | error cause => simp
  | ok => simp [eq_comm]

/-! ## Changes in place -/

/-- What a change that may be refused leaves of a view. -/
def resultOf {α : Type} (view : View) :
    Except ViewError (α × View) → EStateM.Result ViewError View α
  | .ok (answer, after) => .ok answer after
  | .error cause => .error cause view

/-- Follow a placement in place, step by step.  What was done before a step that fails stays
done. -/
def followInPlace (placement : Placement) : EStateM ViewError View Bool := do
  let count := (← get).clusters.length
  if placement.cluster = count then
    if clusterLimit ≤ placement.cluster then
      throw .clusterLimit
    modify fun view => { view with clusters := view.clusters ++ [[placement.peer]] }
    modify fun view => { view with servers := view.servers ++ [placement.peer] }
    return true
  let some members := (← get).clusters[placement.cluster]?
    | throw (.clusterOutOfRange placement.cluster count)
  if members.contains placement.peer then
    return false
  modify fun view =>
    { view with clusters := view.clusters.modify placement.cluster (· ++ [placement.peer]) }
  return true

/-- Take over a snapshot in place, step by step. -/
def replaceInPlace (roster : Roster) : EStateM ViewError View Unit := do
  if let .error cause := roster.check then
    throw (.invalidSnapshot cause)
  modify fun view => { view with clusters := roster.clusters }
  modify fun view => { view with servers := roster.servers }
  modify fun view => { view with cursor := 0 }

/-- The steps come to what `follow` says. -/
theorem followInPlace_run (view : View) (placement : Placement) :
    (followInPlace placement).run view = view.resultOf (view.follow placement) := by
  unfold followInPlace follow
  rw [EStateM.run_bind, EStateM.run_get]
  dsimp only
  by_cases next : placement.cluster = view.clusters.length
  · rw [if_pos next, if_pos next]
    by_cases full : clusterLimit ≤ placement.cluster
    · rw [if_pos full, if_pos full]
      rfl
    · rw [if_neg full, if_neg full]
      rfl
  · rw [if_neg next, if_neg next]
    rw [EStateM.run_bind, EStateM.run_get]
    dsimp only
    cases view.clusters[placement.cluster]? with
    | none => rfl
    | some members =>
        dsimp only
        by_cases known : members.contains placement.peer = true
        · rw [if_pos known, if_pos known]
          rfl
        · rw [if_neg known, if_neg known]
          rfl

theorem followInPlace_eq_error_iff {view left : View} {placement : Placement}
    {cause : ViewError} :
    (followInPlace placement).run view = .error cause left ↔
      view.follow placement = .error cause ∧ left = view := by
  rw [followInPlace_run]
  cases view.follow placement <;> simp [resultOf, eq_comm]

/-- The steps come to what `replace` says. -/
theorem replaceInPlace_run (view : View) (roster : Roster) :
    (replaceInPlace roster).run view =
      view.resultOf ((view.replace roster).map ((), ·)) := by
  unfold replaceInPlace replace
  cases roster.check with
  | error cause => rfl
  | ok => rfl

theorem replaceInPlace_eq_error_iff {view left : View} {roster : Roster} {cause : ViewError} :
    (replaceInPlace roster).run view = .error cause left ↔
      view.replace roster = .error cause ∧ left = view := by
  rw [replaceInPlace_run]
  cases view.replace roster <;> simp [resultOf, Except.map, eq_comm]

/-! ## Reactions of followers -/

/-- The view after a placement, which may be refused. -/
def followed (view : View) (placement : Placement) : View :=
  match view.follow placement with
  | .ok (_, after) => after
  | .error _ => view

theorem followed_of_follow {view after : View} {placement : Placement} {changed : Bool}
    (following : view.follow placement = .ok (changed, after)) :
    view.followed placement = after := by
  rw [followed, following]

theorem followed_of_error {view : View} {placement : Placement} {cause : ViewError}
    (refused : view.follow placement = .error cause) : view.followed placement = view := by
  rw [followed, refused]

/-- A placement is refused and changes nothing, or is followed in one of the ways
listed. -/
theorem followed_eq_or_following (view : View) (placement : Placement) :
    view.followed placement = view ∨
      ∃ changed, view.Following placement (.ok (changed, view.followed placement)) := by
  have following := view.follow_following placement
  cases answer : view.follow placement with
  | error cause => exact .inl (followed_of_error answer)
  | ok followed =>
      rw [answer] at following
      rw [followed_of_follow answer]
      exact .inr ⟨followed.1, following⟩

theorem relayAdd_view (view : View) (placement : Placement) :
    (view.relayAdd placement).view = view.followed placement := by
  have following := view.follow_following placement
  unfold relayAdd followed
  generalize view.follow placement = followed at following ⊢
  cases following <;> rfl

theorem learnAdd_view (view : View) (placement : Placement) :
    (view.learnAdd placement).view = view.followed placement := by
  have following := view.follow_following placement
  unfold learnAdd followed
  generalize view.follow placement = followed at following ⊢
  cases following <;> rfl

/-- Whatever the role, a removal that does not name the main server itself is
a departure. -/
theorem exists_departure_reactToRemove {view : View} (led : view.Led) {role : Role}
    {placement : Placement} (moves : role = .mainServer → placement.peer ≠ view.self) :
    ∃ removal, view.Departure placement.peer removal (view.reactToRemove role placement).view := by
  rcases remove_departure led placement with ⟨removal, after, removed, departure⟩
  refine ⟨removal, ?_⟩
  have left := departure
  unfold reactToRemove
  by_cases own : placement.peer = view.self
  · rw [if_pos own]
    cases role with
    | mainServer => exact absurd own (moves rfl)
    | clusterServer | client =>
        simp only [rejoin, removed]
        exact left
  · rw [if_neg own]
    cases role with
    | mainServer =>
        simp only [expel, removed]
        cases departure <;> exact left
    | clusterServer =>
        simp only [relayRemove, removed]
        cases departure <;> exact left
    | client =>
        simp only [learnRemove, removed]
        cases departure <;> exact left

end View

/-! ## Runs of updates -/

/-- What the main server tells of its view from time to time. -/
inductive Update
  | placed (placement : Placement)
  | removed (placement : Placement)
  deriving DecidableEq, Repr

/-- The message that brings an update. -/
def Update.message : Update → Control
  | placed placement => .add placement
  | removed placement => .remove placement

namespace View

open Peer (numbered)

/-- The view after an update. -/
def absorb (view : View) (update : Update) : View :=
  (view.react view.role update.message).view

/-- The view after several updates in order. -/
def absorbAll (view : View) (updates : List Update) : View :=
  updates.foldl absorb view

/-- The update does not make a member join a second cluster. -/
def Admits (view : View) : Update → Prop
  | .placed placement =>
      ∀ after, view.follow placement = .ok (true, after) → placement.peer ∉ view.members
  | .removed _ => True

section Absorb

variable {view : View} (away : view.self ≠ view.mainServer)
include away

theorem role_ne_mainServer : view.role ≠ .mainServer := by
  simp only [role, isMainServer, away, decide_false, Bool.false_eq_true, if_false]
  split <;> simp

/-- A placement has the same effect on clients and on cluster servers. -/
theorem absorb_placed (placement : Placement) :
    view.absorb (.placed placement) = view.followed placement := by
  unfold absorb
  cases role : view.role with
  | mainServer => exact absurd role (role_ne_mainServer away)
  | clusterServer => exact view.relayAdd_view placement
  | client => exact view.learnAdd_view placement

theorem exists_departure_absorb (led : view.Led) (placement : Placement) :
    ∃ removal, view.Departure placement.peer removal (view.absorb (.removed placement)) :=
  exists_departure_reactToRemove led fun role => absurd role (role_ne_mainServer away)

/-- An update changes neither whose view it is nor who the main server is, and
keeps the view led. -/
theorem absorb_keeps (led : view.Led) (update : Update) :
    (view.absorb update).self = view.self ∧
      (view.absorb update).mainServer = view.mainServer ∧ (view.absorb update).Led := by
  cases update with
  | placed placement =>
      rw [absorb_placed away]
      rcases view.followed_eq_or_following placement with refused | ⟨_, following⟩
      · rw [refused]
        exact ⟨rfl, rfl, led⟩
      · exact ⟨following.self_eq, following.mainServer_eq, following.led led⟩
  | removed placement =>
      obtain ⟨removal, departure⟩ := exists_departure_absorb away led placement
      exact ⟨departure.self_eq, departure.mainServer_eq, departure.led led⟩

/-- An update leaves everybody in one place exactly if the view admits it. -/
theorem distinct_absorb_iff (led : view.Led) (distinct : view.members.Nodup) (update : Update) :
    (view.absorb update).members.Nodup ↔ view.Admits update := by
  cases update with
  | placed placement =>
      rw [absorb_placed away, Admits]
      have following := view.follow_following placement
      cases followed : view.follow placement with
      | error cause =>
          rw [followed_of_error followed]
          exact ⟨fun _ _ accepted => by contradiction, fun _ => distinct⟩
      | ok answer =>
          rcases answer with ⟨_ | _, after⟩
          · rw [followed] at following
            rw [followed_of_follow followed, following.eq_of_not_changed]
            exact ⟨fun _ _ changed => by simp at changed, fun _ => distinct⟩
          · rw [followed] at following
            rw [followed_of_follow followed, following.distinct_iff distinct]
            exact ⟨fun unknown _ _ => unknown, fun unknown => unknown after rfl⟩
  | removed placement =>
      obtain ⟨removal, departure⟩ := exists_departure_absorb away led placement
      rw [Admits, iff_true, departure.members_eq distinct]
      exact distinct.filter _

theorem absorbAll_keeps (led : view.Led) (updates : List Update) :
    (view.absorbAll updates).self ≠ (view.absorbAll updates).mainServer ∧
      (view.absorbAll updates).Led := by
  induction updates generalizing view with
  | nil => exact ⟨away, led⟩
  | cons update updates inductionHypothesis =>
      obtain ⟨selfEq, mainServerEq, kept⟩ := absorb_keeps away led update
      exact inductionHypothesis (by rwa [selfEq, mainServerEq]) kept

/-- One more update after several: the law of a single one applies. -/
theorem distinct_absorbAll_concat_iff (led : view.Led) {former : List Update}
    (distinct : (view.absorbAll former).members.Nodup) (update : Update) :
    (view.absorbAll (former ++ [update])).members.Nodup ↔
      (view.absorbAll former).Admits update := by
  obtain ⟨stillAway, stillLed⟩ := absorbAll_keeps away led former
  rw [absorbAll, List.foldl_append]
  exact distinct_absorb_iff stillAway stillLed distinct update

end Absorb

/-- Once a peer is removed from a view in which nobody occurs twice, it is in the
view no more. -/
theorem notMem_members_of_remove {view after : View} (led : view.Led)
    (distinct : view.members.Nodup) {placement : Placement} {removal : Removal}
    (removed : view.remove placement = .ok (removal, after)) :
    placement.peer ∉ after.members := by
  obtain ⟨other, left, leftEq, departure⟩ := remove_departure led placement
  rw [removed, Except.ok.injEq, Prod.mk.injEq] at leftEq
  rcases leftEq with ⟨rfl, rfl⟩
  rw [departure.mem_members_iff distinct]
  exact fun both => both.2 rfl

/-- From a snapshot in which nobody occurs twice, nobody comes to occur twice
exactly as long as no placement makes a member join a second cluster.  So long,
whoever is removed is in the view no more. -/
theorem distinct_absorbAll_iff {start view : View} {roster : Roster}
    (away : start.self ≠ start.mainServer) (taken : start.replace roster = .ok view)
    (distinct : roster.members.Nodup) (updates : List Update) :
    ((∀ former, former <+: updates → (view.absorbAll former).members.Nodup) ↔
      ∀ former update latter, updates = former ++ update :: latter →
        (view.absorbAll former).Admits update) ∧
    ((view.absorbAll updates).members.Nodup →
      ∀ placement removal after,
        (view.absorbAll updates).remove placement = .ok (removal, after) →
          after.contains placement.peer = false) := by
  obtain ⟨rosterLed, viewEq⟩ := replace_eq_ok_iff.mp taken
  have stillAway : view.self ≠ view.mainServer := viewEq ▸ away
  have led : view.Led := viewEq ▸ rosterLed
  have fresh : view.members.Nodup := viewEq ▸ distinct
  refine ⟨⟨?_, ?_⟩, ?_⟩
  · rintro always former update latter rfl
    have before := always former (List.prefix_append _ _)
    apply (distinct_absorbAll_concat_iff stillAway led before update).mp
    exact always _ ⟨latter, by simp⟩
  · intro admitted former
    induction former using List.reverseRecOn with
    | nil => exact fun _ => fresh
    | append_singleton former update inductionHypothesis =>
        rintro ⟨latter, rfl⟩
        have before := inductionHypothesis ⟨update :: latter, by simp⟩
        exact (distinct_absorbAll_concat_iff stillAway led before update).mpr
          (admitted former update latter (by simp))
  · intro single placement removal after removed
    obtain ⟨_, nowLed⟩ := absorbAll_keeps stillAway led updates
    have gone := notMem_members_of_remove nowLed single removed
    exact Bool.eq_false_iff.mpr (mt contains_iff.mp gone)

/-- A roster of two clusters, of which the second has two members. -/
def couple : Roster :=
  ⟨[[numbered 1], [numbered 2, numbered 3]], [numbered 1, numbered 2]⟩

/-- A newcomer is placed, and a member is removed although its cluster is named
wrongly.  All of it is admitted, and nobody comes to occur twice. -/
theorem distinct_absorbAll_iff_newcomer :
    let start : View := .initial (numbered 2) (numbered 1)
    let updates : List Update := [.placed ⟨numbered 4, 1⟩, .removed ⟨numbered 3, 0⟩]
    ∃ view, start.self ≠ start.mainServer ∧ start.replace couple = .ok view ∧
      couple.members.Nodup ∧
      (∀ former update latter, updates = former ++ update :: latter →
        (view.absorbAll former).Admits update) ∧
      ∀ placement removal after,
        (view.absorbAll updates).remove placement = .ok (removal, after) →
          after.contains placement.peer = false := by
  intro start updates
  have away : start.self ≠ start.mainServer := by decide +kernel
  have taken : start.replace couple = .ok ⟨couple, numbered 2, numbered 1, 0⟩ := by
    decide +kernel
  have distinct : couple.members.Nodup := by decide +kernel
  obtain ⟨kept, gone⟩ := distinct_absorbAll_iff away taken distinct updates
  have always : ∀ former ∈ updates.inits,
      (View.absorbAll ⟨couple, numbered 2, numbered 1, 0⟩ former).members.Nodup := by
    decide +kernel
  have within := fun former beginning => always former ((List.mem_inits _ _).mpr beginning)
  exact ⟨_, away, taken, distinct, kept.mp within, gone (within updates (List.prefix_refl _))⟩

/-- A member of the second cluster is placed in the first.  It stands in both
from then on, and is still in the view after it has been removed. -/
theorem not_distinct_absorb_placed :
    let start : View := .initial (numbered 2) (numbered 1)
    let update : Update := .placed ⟨numbered 3, 0⟩
    ∃ view, start.self ≠ start.mainServer ∧ start.replace couple = .ok view ∧
      couple.members.Nodup ∧ ¬ (view.absorb update).members.Nodup ∧
      ∃ removal after, (view.absorb update).remove ⟨numbered 3, 0⟩ = .ok (removal, after) ∧
        after.contains (numbered 3) = true := by
  refine ⟨⟨couple, numbered 2, numbered 1, 0⟩, ?_, ?_, ?_, ?_, .removed 0 false none,
    ⟨couple, numbered 2, numbered 1, 0⟩, ?_, ?_⟩ <;> decide +kernel

end View

end ClusterOverlay
