import ClusterOverlay.Proofs.Membership.MainServer
import Mathlib.Data.List.Induction

/-!
# Turns

Once all clusters are open, the main server places newcomers in the clusters in turn.  Its view
changes by two calls, placing a peer and removing one, and every view that it attains comes from
its first one by such calls (`View.Attained.exists_obeyAll`).  The cursor always designates one of
the clusters, `View.Turning`, and `View.Turned` says where it is after any calls that drop no
cluster: as many places further as there were newcomers.  `View.placed_in_turn` puts this
together with what becomes of the turn when a cluster is dropped.
-/

namespace ClusterOverlay

namespace View

open Peer (numbered)

variable {mainServer peer : Peer} {view after : View} {removal : Removal}

/-! ## Calls -/

/-- A call that changes the view of the main server. -/
inductive Call
  | place (peer : Peer)
  | remove (placement : Placement)
  deriving DecidableEq, Repr

/-- The view after a call.  A removal that is refused changes nothing. -/
def obey (view : View) : Call → View
  | .place peer => (view.place peer).2
  | .remove placement =>
      match view.remove placement with
      | .ok (_, after) => after
      | .error _ => view

/-- The view after some calls. -/
def obeyAll (view : View) (calls : List Call) : View :=
  calls.foldl obey view

/-- Whether a call removes the last member of a cluster, and the cluster with it. -/
def drops (view : View) : Call → Bool
  | .place _ => false
  | .remove placement =>
      match view.remove placement with
      | .ok (.removed _ dropped _, _) => dropped
      | _ => false

/-- Whether none of some calls drops a cluster when its time comes. -/
def spares (view : View) : List Call → Bool
  | [] => true
  | call :: later => !view.drops call && (view.obey call).spares later

/-- The cluster in which a call places a newcomer, if it places one. -/
def placed? (view : View) : Call → Option Nat
  | .place peer => if view.contains peer then none else some (view.place peer).1
  | .remove _ => none

/-- The clusters in which some calls place newcomers, in the order of the calls. -/
def placed (view : View) : List Call → List Nat
  | [] => []
  | call :: later => (view.placed? call).toList ++ (view.obey call).placed later

theorem obeyAll_concat (view : View) (calls : List Call) (call : Call) :
    view.obeyAll (calls ++ [call]) = (view.obeyAll calls).obey call := by
  simp [obeyAll]

theorem placed_concat (view : View) (calls : List Call) (call : Call) :
    view.placed (calls ++ [call]) =
      view.placed calls ++ ((view.obeyAll calls).placed? call).toList := by
  induction calls generalizing view with
  | nil => simp [placed, obeyAll]
  | cons first later inductionHypothesis =>
      simp only [List.cons_append, placed, inductionHypothesis, List.append_assoc]
      rfl

theorem spares_append (view : View) (calls later : List Call) :
    view.spares (calls ++ later) = (view.spares calls && (view.obeyAll calls).spares later) := by
  induction calls generalizing view with
  | nil => rfl
  | cons first rest inductionHypothesis =>
      rw [List.cons_append, spares, spares, inductionHypothesis, Bool.and_assoc]
      rfl

/-- A removal from a led view is a departure. -/
theorem exists_departure_obey (led : view.Led) (placement : Placement) :
    ∃ removal, view.remove placement = .ok (removal, view.obey (.remove placement)) ∧
      view.Departure placement.peer removal (view.obey (.remove placement)) := by
  obtain ⟨removal, after, removed, departure⟩ := remove_departure led placement
  have obeyed : view.obey (.remove placement) = after := by rw [obey, removed]
  exact ⟨removal, obeyed ▸ removed, obeyed ▸ departure⟩

/-! ## Views attained -/

/-- What the main server does about a removal is to obey it or to do nothing. -/
theorem exists_obeyAll_eq_reactToRemove (view : View) (placement : Placement) :
    ∃ calls, (view.reactToRemove .mainServer placement).view = view.obeyAll calls := by
  unfold reactToRemove
  split
  · exact ⟨[], rfl⟩
  · refine ⟨[.remove placement], ?_⟩
    simp only [expel, obeyAll, List.foldl_cons, List.foldl_nil, obey]
    cases removed : view.remove placement with
    | error cause => rfl
    | ok result =>
        obtain ⟨removal, after⟩ := result
        cases departure_of_remove removed <;> rfl

/-- Every view that the main server attains comes from its first one by calls. -/
theorem Attained.exists_obeyAll {history : List Notice}
    (attained : Attained mainServer history view) :
    ∃ calls, view = (initial mainServer mainServer).obeyAll calls := by
  induction attained with
  | start => exact ⟨[], rfl⟩
  | hello sender _ inductionHypothesis =>
      obtain ⟨calls, rfl⟩ := inductionHypothesis
      refine ⟨calls ++ [.place sender], ?_⟩
      rw [obeyAll_concat]
      rfl
  | removal placement _ inductionHypothesis =>
      obtain ⟨calls, rfl⟩ := inductionHypothesis
      obtain ⟨last, removed⟩ := exists_obeyAll_eq_reactToRemove (obeyAll _ calls) placement
      exact ⟨calls ++ last, removed.trans (List.foldl_append ..).symm⟩
  | @timeout _ view silent _ watched inductionHypothesis =>
      obtain ⟨calls, rfl⟩ := inductionHypothesis
      obtain ⟨last, removed⟩ := exists_obeyAll_eq_reactToRemove (obeyAll _ calls) ⟨silent, _⟩
      refine ⟨calls ++ last, ?_⟩
      rw [reactToSilence, if_pos (List.contains_iff_mem.mpr watched), removed]
      exact (List.foldl_append ..).symm

/-! ## The cursor -/

/-- What holds of a view after any calls: the cursor designates one of the clusters, and the
first one as long as there is none. -/
structure Turning (view : View) : Prop extends view.Sound where
  cursorLt : view.cursor < max 1 view.clusters.length

/-- A newcomer joins the cluster whose turn it is, and the turn passes on. -/
theorem Arrival.turns {index : Nat} (arrival : view.Arrival peer index after)
    (full : view.clusters.length = clusterLimit) (cursorLt : view.cursor < clusterLimit) :
    peer ∈ view.members ∧ view.Home index peer ∧ after = view ∨
      peer ∉ view.members ∧ index = view.cursor ∧
        after.clusters = view.clusters.modify view.cursor (· ++ [peer]) ∧
        after.cursor = (view.cursor + 1) % clusterLimit := by
  cases arrival with
  | known home => exact .inl ⟨home.mem_members, home, rfl⟩
  | opens _ room => exact absurd full (Nat.ne_of_lt room)
  | joins unknown =>
      refine .inr ⟨unknown, ?_⟩
      simp only [full, Nat.mod_eq_of_lt cursorLt, and_self]

/-- A departure that drops no cluster leaves the turn where it is. -/
theorem Departure.keeps_turn (departure : view.Departure peer removal after)
    (keeps : ∀ index promoted, removal ≠ .removed index true promoted) :
    after.clusters.length = view.clusters.length ∧ after.cursor = view.cursor := by
  cases departure with
  | absent => exact ⟨rfl, rfl⟩
  | last => exact absurd rfl (keeps _ _)
  | server | member => exact ⟨List.length_set .., rfl⟩

namespace Turning

theorem initial (mainServer : Peer) : Turning (.initial mainServer mainServer) :=
  let presides := Presides.initial mainServer
  ⟨presides.toSound, Nat.lt_of_lt_of_le presides.cursorLt (Nat.le_max_right ..)⟩

theorem arrival {index : Nat} (turning : view.Turning) (arrival : view.Arrival peer index after) :
    after.Turning := by
  have cursorLt := turning.cursorLt
  refine ⟨arrival.sound turning.toSound, ?_⟩
  cases arrival with
  | known => exact cursorLt
  | opens =>
      simp only [List.length_append, List.length_singleton]
      omega
  | joins _ full =>
      rw [List.length_modify]
      exact Nat.lt_of_lt_of_le (Nat.mod_lt _ (Nat.lt_of_lt_of_le (by decide) full))
        (Nat.le_max_right ..)

theorem departure (turning : view.Turning) (departure : view.Departure peer removal after) :
    after.Turning := by
  have cursorLt := turning.cursorLt
  refine ⟨departure.sound turning.toSound, ?_⟩
  cases departure with
  | absent => exact cursorLt
  | last =>
      simp only [dropCluster]
      split
      · exact Nat.lt_of_lt_of_le Nat.one_pos (Nat.le_max_left ..)
      · next some =>
          rw [List.isEmpty_iff_length_eq_zero] at some
          exact Nat.lt_of_lt_of_le (Nat.mod_lt _ (Nat.pos_of_ne_zero some)) (Nat.le_max_right ..)
  | server | member => simpa using cursorLt

theorem obey (turning : view.Turning) (call : Call) : (view.obey call).Turning := by
  cases call with
  | place peer => exact turning.arrival (view.place_arrival peer)
  | remove placement =>
      obtain ⟨_, _, departure⟩ := exists_departure_obey turning.toLed placement
      exact turning.departure departure

theorem obeyAll (turning : view.Turning) (calls : List Call) :
    (view.obeyAll calls).Turning := by
  induction calls generalizing view with
  | nil => exact turning
  | cons call later inductionHypothesis => exact inductionHypothesis (turning.obey call)

theorem cursor_lt (turning : view.Turning) (full : view.clusters.length = clusterLimit) :
    view.cursor < clusterLimit := by
  have cursorLt := turning.cursorLt
  rwa [full] at cursorLt

/-- What one call makes of the turn while all clusters are open. -/
theorem turns_obey (turning : view.Turning) (full : view.clusters.length = clusterLimit)
    {call : Call} (keeps : view.drops call = false) :
    (view.obey call).clusters.length = clusterLimit ∧
      (∀ index ∈ view.placed? call, index = view.cursor) ∧
      (view.obey call).cursor =
        (view.cursor + (view.placed? call).toList.length) % clusterLimit := by
  have cursorLt := turning.cursor_lt full
  have stays : view.cursor = view.cursor % clusterLimit := (Nat.mod_eq_of_lt cursorLt).symm
  cases call with
  | place peer =>
      have known : view.contains peer = true ↔ peer ∈ view.members := contains_iff
      rcases (view.place_arrival peer).turns full cursorLt with
        ⟨member, _, same⟩ | ⟨unknown, indexEq, clustersEq, cursorEq⟩
      · rw [View.obey, same, placed?, if_pos (known.mpr member)]
        exact ⟨full, by simp, stays⟩
      · rw [View.obey, placed?, if_neg (mt known.mp unknown), cursorEq, clustersEq,
          List.length_modify]
        exact ⟨full, by simp [indexEq], rfl⟩
  | remove placement =>
      obtain ⟨removal, removed, departure⟩ := exists_departure_obey turning.toLed placement
      have stay : ∀ index promoted, removal ≠ .removed index true promoted := by
        rintro index promoted rfl
        simp [drops, removed] at keeps
      obtain ⟨lengthEq, cursorEq⟩ := departure.keeps_turn stay
      exact ⟨lengthEq.trans full, by simp [placed?], cursorEq.trans stays⟩

end Turning

/-! ## Runs -/

/-- All clusters are still open, and newcomers have been placed in turn. -/
structure Turned (view : View) (calls : List Call) : Prop where
  full : (view.obeyAll calls).clusters.length = clusterLimit
  cursorEq : (view.obeyAll calls).cursor =
    (view.cursor + (view.placed calls).length) % clusterLimit
  placedEq : view.placed calls =
    (List.range (view.placed calls).length).map fun turn => (view.cursor + turn) % clusterLimit

/-- Calls that drop no cluster place newcomers in turn. -/
theorem Turning.turned (turning : view.Turning) (full : view.clusters.length = clusterLimit)
    {calls : List Call} (spares : view.spares calls = true) : view.Turned calls := by
  induction calls using List.reverseRecOn with
  | nil => exact ⟨full, (Nat.mod_eq_of_lt (turning.cursor_lt full)).symm, rfl⟩
  | append_singleton calls call inductionHypothesis =>
      rw [spares_append, Bool.and_eq_true] at spares
      have turned := inductionHypothesis spares.1
      have keeps : (view.obeyAll calls).drops call = false := by
        simpa [View.spares] using spares.2
      obtain ⟨fullAfter, indexEq, cursorAfter⟩ :=
        (turning.obeyAll calls).turns_obey turned.full keeps
      rw [turned.cursorEq] at indexEq cursorAfter
      refine ⟨?_, ?_, ?_⟩
      · rw [obeyAll_concat]
        exact fullAfter
      · rw [obeyAll_concat, cursorAfter, placed_concat, List.length_append, ← Nat.add_assoc,
          Nat.mod_add_mod]
      · rw [placed_concat]
        cases found : (view.obeyAll calls).placed? call with
        | none => simpa using turned.placedEq
        | some index =>
            rw [indexEq index found, Option.toList_some, List.length_append,
              List.length_singleton, List.range_succ, List.map_append, List.map_singleton,
              ← turned.placedEq]

/-- How often the turn of a cluster comes in a number of turns. -/
theorem count_turns {cursor index : Nat} (cursorLt : cursor < clusterLimit)
    (indexLt : index < clusterLimit) (turns : Nat) :
    ((List.range turns).map fun turn => (cursor + turn) % clusterLimit).count index =
      (turns + 7 - (index + 8 - cursor) % 8) / 8 := by
  unfold clusterLimit at *
  induction turns with
  | zero =>
      simp
      omega
  | succ turns inductionHypothesis =>
      rw [List.range_succ, List.map_append, List.count_append, inductionHypothesis,
        List.map_singleton, List.count_singleton]
      simp only [beq_iff_eq]
      split <;> omega

theorem Turned.count_le {calls : List Call} (turned : view.Turned calls)
    (cursorLt : view.cursor < clusterLimit) {index other : Nat} (indexLt : index < clusterLimit)
    (otherLt : other < clusterLimit) :
    (view.placed calls).count index ≤ (view.placed calls).count other + 1 := by
  rw [turned.placedEq, count_turns cursorLt indexLt, count_turns cursorLt otherLt]
  omega

/-! ## Clusters that are dropped -/

/-- An element of a list, counted from the same one or from the next after another was erased. -/
theorem getElem?_eraseIdx_turn {α : Type} {list : List α} {index cursor : Nat}
    (indexLt : index < list.length) (cursorLt : cursor < list.length) (more : 1 < list.length) :
    (list.eraseIdx index)[(if index < cursor then cursor - 1 else cursor) %
        (list.length - 1)]? =
      if cursor = index then list[(index + 1) % list.length]? else list[cursor]? := by
  rcases Nat.lt_trichotomy cursor index with before | rfl | behind
  · rw [if_neg (Nat.lt_asymm before), if_neg (Nat.ne_of_lt before), Nat.mod_eq_of_lt (by omega),
      List.getElem?_eraseIdx_of_lt before]
  · rw [if_neg (Nat.lt_irrefl _), if_pos rfl]
    rcases Nat.lt_or_ge (cursor + 1) list.length with inner | last
    · rw [Nat.mod_eq_of_lt inner, Nat.mod_eq_of_lt (by omega),
        List.getElem?_eraseIdx_of_ge (Nat.le_refl _)]
    · have lastEq : cursor + 1 = list.length := by omega
      rw [lastEq, Nat.mod_self, ← lastEq, Nat.add_sub_cancel, Nat.mod_self,
        List.getElem?_eraseIdx_of_lt (by omega)]
  · rw [if_pos behind, if_neg (Nat.ne_of_gt behind), Nat.mod_eq_of_lt (by omega),
      List.getElem?_eraseIdx_of_ge (by omega), Nat.sub_add_cancel (by omega)]

/-- A cluster that is dropped while others are left was not the only one. -/
theorem Departure.one_lt_of_left {index : Nat} {promoted : Option Peer}
    (departure : view.Departure peer (.removed index true promoted) after)
    (left : after.clusters ≠ []) : 1 < view.clusters.length := by
  have indexLt := departure.index_lt
  cases departure with
  | last =>
      have leftLength := List.length_pos_iff.mpr left
      simp only [dropCluster, List.length_eraseIdx_of_lt indexLt] at leftLength
      omega

/-- When a cluster is dropped, the turn stays with the cluster that had it, or passes on to the
next if that is the one. -/
theorem Turning.turn_of_dropped (turning : view.Turning) {index : Nat} {promoted : Option Peer}
    (departure : view.Departure peer (.removed index true promoted) after)
    (more : 1 < view.clusters.length) :
    after.clusters[after.cursor]? =
        (if view.cursor = index then view.clusters[(index + 1) % view.clusters.length]?
          else view.clusters[view.cursor]?) ∧
      after.servers[after.cursor]? =
        (if view.cursor = index then view.servers[(index + 1) % view.clusters.length]?
          else view.servers[view.cursor]?) := by
  have indexLt := departure.index_lt
  have cursorLt : view.cursor < view.clusters.length := by
    have bound := turning.cursorLt
    omega
  have lengthEq : (view.clusters.eraseIdx index).length = view.clusters.length - 1 :=
    List.length_eraseIdx_of_lt indexLt
  have some : ¬ (view.clusters.eraseIdx index).isEmpty = true := by
    rw [List.isEmpty_iff_length_eq_zero, lengthEq]
    omega
  cases departure with
  | last =>
      simp only [dropCluster, if_neg some, lengthEq]
      refine ⟨getElem?_eraseIdx_turn indexLt cursorLt more, ?_⟩
      rw [turning.lengthEq] at indexLt cursorLt more ⊢
      exact getElem?_eraseIdx_turn indexLt cursorLt more

/-- While all clusters are open, a newcomer joins the one whose turn it is, and a known peer
stays where it is. -/
theorem Turning.place_of_full (turning : view.Turning)
    (full : view.clusters.length = clusterLimit) (peer : Peer) :
    (peer ∉ view.members → (view.place peer).1 = view.cursor ∧
        (view.place peer).2.clusters = view.clusters.modify view.cursor (· ++ [peer])) ∧
      (peer ∈ view.members → ∃ index, view.place peer = (index, view) ∧ view.Home index peer) := by
  rcases (view.place_arrival peer).turns full (turning.cursor_lt full) with
    ⟨member, home, same⟩ | ⟨unknown, indexEq, clustersEq, _⟩
  · exact ⟨fun unknown => absurd member unknown, fun _ => ⟨_, Prod.ext rfl same, home⟩⟩
  · exact ⟨fun _ => ⟨indexEq, clustersEq⟩, fun member => absurd member unknown⟩

/-- Let the main server have any view that it comes to, with all eight clusters open.  As long as
no cluster is dropped, newcomers join the clusters in turn from the cursor on, known peers stay
where they are, and no cluster gets two newcomers more than another.  When one of several clusters
is dropped, from any view, it stays the turn of the same cluster, or it becomes that of the next
one if the cluster dropped had the turn. -/
theorem placed_in_turn (mainServer : Peer) (former : List Call) :
    let view := (initial mainServer mainServer).obeyAll former
    (view.clusters.length = 8 → ∀ calls, view.spares calls = true →
      (∀ before peer later, calls = before ++ .place peer :: later →
        let now := view.obeyAll before
        let turn := (view.cursor + (view.placed before).length) % 8
        (peer ∉ now.members → (now.place peer).1 = turn ∧
          (now.place peer).2.clusters = now.clusters.modify turn (· ++ [peer])) ∧
        (peer ∈ now.members →
          ∃ index, now.place peer = (index, now) ∧ now.Home index peer)) ∧
      ∀ index other, index < 8 → other < 8 →
        (view.placed calls).count index ≤ (view.placed calls).count other + 1) ∧
    ∀ placement index promoted after,
      view.remove placement = .ok (.removed index true promoted, after) →
      (view.cursor ≠ index →
        after.clusters[after.cursor]? = view.clusters[view.cursor]? ∧
        after.servers[after.cursor]? = view.servers[view.cursor]?) ∧
      (view.cursor = index → after.clusters ≠ [] →
        after.clusters[after.cursor]? = view.clusters[(index + 1) % view.clusters.length]? ∧
        after.servers[after.cursor]? = view.servers[(index + 1) % view.clusters.length]?) := by
  intro view
  have turning : view.Turning := (Turning.initial mainServer).obeyAll former
  refine ⟨fun full calls spares => ⟨?_, ?_⟩, ?_⟩
  · rintro before peer later rfl now turn
    rw [spares_append, Bool.and_eq_true] at spares
    have turned := turning.turned full spares.1
    have cursorEq : now.cursor = turn := turned.cursorEq
    rw [← cursorEq]
    exact (turning.obeyAll before).place_of_full turned.full peer
  · intro index other indexLt otherLt
    exact (turning.turned full spares).count_le (turning.cursor_lt full) indexLt otherLt
  · intro placement index promoted after removed
    have departure := departure_of_remove removed
    refine ⟨fun other => ?_, fun same left => ?_⟩
    · have indexLt := departure.index_lt
      have cursorLt := turning.cursorLt
      obtain ⟨clustersEq, serversEq⟩ := turning.turn_of_dropped departure (by omega)
      rw [if_neg other] at clustersEq serversEq
      exact ⟨clustersEq, serversEq⟩
    · obtain ⟨clustersEq, serversEq⟩ :=
        turning.turn_of_dropped departure (departure.one_lt_of_left left)
      rw [if_pos same] at clustersEq serversEq
      exact ⟨clustersEq, serversEq⟩

/-- In the second round a newcomer joins the second cluster and leaves it, a known peer says
hello, and the next newcomer joins the third cluster.  Had the second cluster been dropped at
first, the turn would have been that of the third as well. -/
theorem placed_in_turn_secondRound :
    let view := (initial (numbered 1) (numbered 1)).obeyAll
      ([2, 3, 4, 5, 6, 7, 8, 11].map fun number => .place (numbered number))
    let before : List Call := [.place (numbered 12), .place (numbered 3), .remove ⟨numbered 12, 5⟩]
    let calls : List Call := before ++ [.place (numbered 13)]
    view.clusters.length = 8 ∧ view.spares calls = true ∧
      numbered 13 ∉ (view.obeyAll before).members ∧
      ((view.obeyAll before).place (numbered 13)).1 = 2 ∧
      (view.placed calls).count 2 ≤ (view.placed calls).count 0 + 1 ∧
      ∃ after, view.remove ⟨numbered 2, 0⟩ = .ok (.removed 1 true none, after) ∧
        view.cursor = 1 ∧ after.clusters[after.cursor]? = some [numbered 3] := by
  intro view before calls
  obtain ⟨turns, dropped⟩ := placed_in_turn (numbered 1)
    ([2, 3, 4, 5, 6, 7, 8, 11].map fun number => .place (numbered number))
  have full : view.clusters.length = 8 := by decide +kernel
  have spares : view.spares calls = true := by decide +kernel
  have newcomer : numbered 13 ∉ (view.obeyAll before).members := by decide +kernel
  have removed : view.remove ⟨numbered 2, 0⟩ =
      .ok (.removed 1 true none, view.dropCluster 1) := by rfl
  have cursorEq : view.cursor = 1 := by decide +kernel
  obtain ⟨places, counts⟩ := turns full calls spares
  have placed := ((places before (numbered 13) [] rfl).1 newcomer).1
  have next := ((dropped _ _ _ _ removed).2 cursorEq (by decide +kernel)).1
  exact ⟨full, spares, newcomer, placed.trans (by decide +kernel),
    counts 2 0 (by decide) (by decide), _, removed, cursorEq, next.trans (by decide +kernel)⟩

end View

end ClusterOverlay
