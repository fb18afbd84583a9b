import ClusterOverlay.Proofs.Node.Events

/-!
# The start of a node

A node that starts does at once all that is due at the start.  Nothing of it
touches the view, since nobody is watched yet: as `Node.holds_start` says, a
node begins with the view that it was given, and in the role that the view gives
it.
-/

namespace ClusterOverlay

namespace Activity

variable {σ : Type}

theorem mem_insert_iff {activity other : Activity σ} {activities : List (Activity σ)} :
    other ∈ insert activity activities ↔ other = activity ∨ other ∈ activities := by
  induction activities with
  | nil => simp [insert]
  | cons first rest ih =>
      unfold insert
      split
      · simp
      · rw [List.mem_cons, ih, List.mem_cons, or_left_comm]

/-- What every activity keeps is kept by all of them in turn. -/
theorem inTurn_induction {kept : σ → Prop} {activities : List (Activity σ)}
    (step : ∀ activity ∈ activities, ∀ state, kept state → kept (activity.act state))
    {state : σ} (start : kept state) : kept (inTurn activities state) := by
  unfold inTurn
  have sorted : ∀ activity ∈ activities.foldr insert [], activity ∈ activities := by
    clear step
    induction activities with
    | nil => simp
    | cons first rest ih =>
        intro activity activityMem
        rcases mem_insert_iff.mp activityMem with rfl | later
        · exact List.mem_cons_self
        · exact List.mem_cons_of_mem _ (ih activity later)
  generalize activities.foldr insert [] = ordered at sorted
  induction ordered generalizing state with
  | nil => exact start
  | cons first rest ih =>
      exact ih (step first (sorted first List.mem_cons_self) state start)
        fun activity activityMem => sorted activity (List.mem_cons_of_mem _ activityMem)

end Activity

namespace View

/-- Whoever has heard nothing yet watches nobody. -/
theorem watched_initial (self mainServer : Peer) : (initial self mainServer).watched = [] := by
  unfold initial
  split
  · next same =>
      subst same
      simp [watched, role, isMainServer, clusterPeers, clusterOf?, Peer.ascending]
  · next different =>
      simp [watched, role, isMainServer, isClusterServer, different]

end View

namespace Node

/-- The view and the role are the given ones. -/
structure Holds (view : View) (role : Role) (node : Node) : Prop where
  viewEq : node.view = view
  roleEq : node.role = role

theorem onSilence_of_notMem_watched {node : Node} {peer : Peer}
    (unwatched : peer ∉ node.view.watched) (now : Nat) : node.onSilence now peer = node := by
  rw [onSilence, View.reactToSilence, if_neg (by simpa using unwatched)]
  rfl

namespace Holds

variable {view : View} {role : Role} {node : Node}

theorem settleTimeouts (holds : Holds view role node) (nobody : view.watched = []) (now : Nat) :
    Holds view role (node.settleTimeouts now) := by
  unfold Node.settleTimeouts
  have cleared : Holds view role { node with timeouts := [] } := ⟨holds.viewEq, holds.roleEq⟩
  generalize ({ node with timeouts := [] } : Node) = start at cleared
  induction node.timeouts generalizing start with
  | nil => exact cleared
  | cons first rest ih =>
      rw [List.foldl_cons, onSilence_of_notMem_watched (by simp [cleared.viewEq, nobody])]
      exact ih start cleared

theorem attend (holds : Holds view role node) (nobody : view.watched = []) (now : Nat) :
    Holds view role (node.attend now) := by
  have settled := holds.settleTimeouts nobody now
  unfold Node.attend
  split
  · obtain ⟨_, _, maintained⟩ := (node.settleTimeouts now).exists_maintainIfDue_eq now
    rw [maintained]
    exact ⟨settled.viewEq, settled.roleEq⟩
  · exact holds

theorem scanIfDue (holds : Holds view role node) (now : Nat) :
    Holds view role (node.scanIfDue now) := by
  obtain ⟨_, _, scanned⟩ := node.exists_scanIfDue_eq now
  rw [scanned]
  exact ⟨holds.viewEq, holds.roleEq⟩

theorem inMailroom (holds : Holds view role node) (work : Mailroom → Mailroom)
    (kept : (work node.toMailroom).view = node.view) : Holds view role (node.inMailroom work) :=
  ⟨kept.trans holds.viewEq, holds.roleEq⟩

theorem drainIfDue (holds : Holds view role node) (now : Nat) :
    Holds view role (node.drainIfDue now) := by
  obtain ⟨_, _, _, _, _, drained⟩ := node.exists_drainIfDue_eq now
  rw [drained]
  exact ⟨holds.viewEq, holds.roleEq⟩

/-- Whatever is due, a node that watches nobody keeps its view and its role. -/
theorem act (holds : Holds view role node) (nobody : view.watched = []) (now : Nat) :
    Holds view role (node.act now) := by
  have turned : Holds view role (Activity.inTurn (node.activities now) node) := by
    apply Activity.inTurn_induction _ holds
    intro activity activityMem state kept
    simp only [activities, List.mem_cons, List.not_mem_nil, or_false] at activityMem
    rcases activityMem with rfl | rfl | rfl | rfl
    · exact kept.inMailroom (·.flushIfDue now) (state.toMailroom.flushIfDue_view now)
    · exact kept.attend nobody now
    · exact kept.scanIfDue now
    · exact kept.inMailroom (·.beatIfDue now) (state.toMailroom.beatIfDue_view now)
  exact ((turned.attend nobody now).inMailroom (·.beatIfDue now)
    (Mailroom.beatIfDue_view _ now)).drainIfDue now

end Holds

/-- A node begins with the view that it was given, in the role that the view
gives it. -/
theorem holds_start (config : Config) (room : Mailroom) (now : Nat) (self mainServer : Peer)
    (fresh : room.view = .initial self mainServer) :
    Holds room.view room.view.role ((create config room).start now) := by
  refine Holds.act ⟨?_, ?_⟩ (by rw [fresh, View.watched_initial]) now
  · exact reconcile_view _ now
  · exact reconcile_role _ now

end Node

end ClusterOverlay
