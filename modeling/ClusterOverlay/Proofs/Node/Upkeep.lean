import ClusterOverlay.Proofs.Node.Regular
import ClusterOverlay.Proofs.Watch

/-!
# The upkeep of role, watch and beats

What a node does regularly depends on its view, which messages and silences change.
Every reaction that changes the view brings role and watch in line with it, and forgets
nobody after that: `View.idle_or_settles_react`.  Therefore a node stays *in step*:
its role is the one that the view gives it, it has a watch and beats if the role asks
for them, and a peer that it should watch is under watch or reported silent.  The
last is because a peer that is dropped from the watch by a scan is queued, and leaves
the view as soon as its turn comes.  `Node.InStep.take` is about one turn of a node,
`Node.upkeep_run` about all of its life.
-/

namespace ClusterOverlay

/-! ## Reactions that bring role and watch in line -/

namespace Reaction

/-- The view stays, and nobody under watch is forgotten. -/
def Idle (view : View) (reaction : Reaction) : Prop :=
  reaction.view = view ∧ ∀ peer, .forget peer ∉ reaction.actions

/-- Role and watch are brought in line with the view, and nobody is forgotten after
that. -/
def Settles (reaction : Reaction) : Prop :=
  ∃ before later, reaction.actions = before ++ .reconcile :: later ∧
    ∀ peer, .forget peer ∉ later

theorem idle_ignore (view : View) : view.ignore.Idle view :=
  ⟨rfl, fun _ => List.not_mem_nil⟩

end Reaction

namespace View

theorem forget_notMem_tellAll (view : View) (recipients : List Peer) (message : Control)
    (peer : Peer) : .forget peer ∉ view.tellAll recipients message := by
  simp [tellAll]

theorem stop_notMem_tellAll (view : View) (recipients : List Peer) (message : Control) :
    .stop ∉ view.tellAll recipients message := by
  simp [tellAll]

/-- The main server's answer to a hello settles. -/
theorem settles_welcome (view : View) (sender : Peer) : (view.welcome sender).Settles := by
  refine ⟨[], .refresh sender :: .tell sender _ :: tellAll _ _ _, rfl, ?_⟩
  intro peer
  simp [forget_notMem_tellAll]

/-- What a node does about the removal of a known peer other than itself settles. -/
theorem settles_reactToRemove {view : View} (led : view.Led) (role : Role)
    {placement : Placement} (known : placement.peer ∈ view.members)
    (other : placement.peer ≠ view.self) : (view.reactToRemove role placement).Settles := by
  obtain ⟨removal, after, removed, departure⟩ := remove_departure led placement
  obtain ⟨cluster, dropped, promoted, rfl⟩ : ∃ cluster dropped promoted,
      removal = .removed cluster dropped promoted := by
    cases departure with
    | absent unknown => exact absurd known unknown
    | last | server | member => exact ⟨_, _, _, rfl⟩
  unfold reactToRemove
  rw [if_neg other]
  cases role with
  | mainServer =>
      simp only [expel, removed]
      exact ⟨[_, _], _, rfl, forget_notMem_tellAll _ _ _⟩
  | clusterServer =>
      simp only [relayRemove, removed]
      exact ⟨[_, _], _, rfl, forget_notMem_tellAll _ _ _⟩
  | client =>
      simp only [learnRemove, removed]
      exact ⟨[_], [], rfl, fun _ => List.not_mem_nil⟩

theorem idle_or_settles_reactToRemove (view : View) (role : Role) (placement : Placement) :
    (view.reactToRemove role placement).Idle view ∨
      (view.reactToRemove role placement).Settles := by
  unfold reactToRemove
  split
  · cases role with
    | mainServer => exact .inl (Reaction.idle_ignore view)
    | clusterServer | client => exact .inr ⟨[_], [], rfl, fun _ => List.not_mem_nil⟩
  · cases role with
    | mainServer =>
        simp only [expel]
        split
        · exact .inr ⟨[_, _], _, rfl, forget_notMem_tellAll _ _ _⟩
        · exact .inl (Reaction.idle_ignore view)
        · exact .inl (Reaction.idle_ignore view)
    | clusterServer =>
        simp only [relayRemove]
        split
        · exact .inr ⟨[_, _], _, rfl, forget_notMem_tellAll _ _ _⟩
        · exact .inl (Reaction.idle_ignore view)
        · exact .inl (Reaction.idle_ignore view)
    | client =>
        simp only [learnRemove]
        split
        · exact .inr ⟨[_], [], rfl, fun _ => List.not_mem_nil⟩
        · exact .inl (Reaction.idle_ignore view)
        · exact .inl (Reaction.idle_ignore view)

/-- Whatever message a node of whatever role hears, the view stays or role and watch
are brought in line with the new one. -/
theorem idle_or_settles_react (view : View) (role : Role) (message : Control) :
    (view.react role message).Idle view ∨ (view.react role message).Settles := by
  cases message with
  | hello sender =>
      cases role with
      | mainServer => exact .inr (view.settles_welcome sender)
      | clusterServer | client => exact .inl (Reaction.idle_ignore view)
  | alive sender => exact .inl ⟨rfl, by simp [react]⟩
  | add placement =>
      cases role with
      | mainServer => exact .inl (Reaction.idle_ignore view)
      | clusterServer =>
          simp only [react, relayAdd]
          split
          · exact .inr ⟨[], _, rfl, forget_notMem_tellAll _ _ _⟩
          · exact .inl (Reaction.idle_ignore view)
          · exact .inl (Reaction.idle_ignore view)
      | client =>
          simp only [react, learnAdd]
          split
          · exact .inr ⟨[], [], rfl, fun _ => List.not_mem_nil⟩
          · exact .inl (Reaction.idle_ignore view)
          · exact .inl (Reaction.idle_ignore view)
  | remove placement => exact view.idle_or_settles_reactToRemove role placement
  | network roster =>
      cases role with
      | mainServer => exact .inl (Reaction.idle_ignore view)
      | clusterServer | client =>
          simp only [react, adopt]
          split
          · exact .inr ⟨[], [], rfl, fun _ => List.not_mem_nil⟩
          · exact .inl (Reaction.idle_ignore view)
  | close =>
      cases role with
      | mainServer => exact .inl (Reaction.idle_ignore view)
      | clusterServer => exact .inl ⟨rfl, by simp [react, tellAll]⟩
      | client => exact .inl ⟨rfl, by simp [react]⟩

/-- Whoever should be watched is a member. -/
theorem mem_members_of_mem_watched {view : View} (led : view.Led) {peer : Peer}
    (watched : peer ∈ view.watched) : peer ∈ view.members := by
  have near : ∀ {other}, other ∈ view.clusterPeers → other ∈ view.members := by
    intro other otherMem
    unfold clusterPeers at otherMem
    split at otherMem
    · next cluster found =>
        obtain ⟨index, _, clusterEq⟩ := Option.bind_eq_some_iff.mp found
        exact Roster.mem_members_iff.mpr
          ⟨index, cluster, clusterEq, (List.mem_filter.mp otherMem).1⟩
    · contradiction
  unfold View.watched at watched
  split at watched
  · rw [Peer.mem_ascending, List.mem_append] at watched
    rcases watched with leads | own
    · exact led.servers_subset (List.mem_filter.mp leads).1
    · exact near own
  · exact near (Peer.mem_ascending.mp watched)
  · contradiction

/-- The silence of a peer that should be watched settles. -/
theorem settles_reactToSilence {view : View} (led : view.Led) (role : Role) {peer : Peer}
    (watched : peer ∈ view.watched) : (view.reactToSilence role peer).Settles := by
  rw [reactToSilence, if_pos (by simpa using watched)]
  apply settles_reactToRemove led role (mem_members_of_mem_watched led watched)
  rintro rfl
  exact view.self_notMem_watched watched

/-- Nobody stops because a peer is silent. -/
theorem stop_notMem_reactToSilence (view : View) (role : Role) (peer : Peer) :
    .stop ∉ (view.reactToSilence role peer).actions := by
  unfold reactToSilence
  split
  · unfold reactToRemove
    split
    · cases role <;> simp [ignore, rejoin]
    · cases role with
      | mainServer =>
          simp only [expel]
          split <;> simp [ignore, stop_notMem_tellAll]
      | clusterServer =>
          simp only [relayRemove]
          split <;> simp [ignore, stop_notMem_tellAll]
      | client =>
          simp only [learnRemove]
          split <;> simp [ignore]
  · simp [ignore]

end View

namespace Node

variable {node : Node} {now : Nat}

/-! ## Equipment -/

/-- The node has the peer under watch. -/
def Monitors (node : Node) (peer : Peer) : Prop :=
  ∃ patrol, node.patrol = some patrol ∧ patrol.watch.contains peer

/-- The view is regular, and the node has what its role asks for: a watch unless it is
a client, and beats unless it is the main server. -/
structure Equipped (node : Node) : Prop where
  regular : node.view.Regular
  patrols : node.patrol.isSome ↔ node.role ≠ .client
  beating : node.beats.isSome ↔ node.role ≠ .mainServer

namespace Equipped

theorem assume (regular : node.view.Regular) (now : Nat) (role : Role) :
    Equipped (node.assume now role) := by
  refine ⟨regular, ?_, ?_⟩
  · cases role <;> simp [Node.assume, silenceLimit?]
  · cases role <;> simp [Node.assume, beatInterval?]

theorem onWatch (equipped : Equipped node) (change : Watch → Watch) :
    Equipped (node.onWatch change) := by
  refine ⟨equipped.regular, ?_, equipped.beating⟩
  rw [Node.onWatch, Option.isSome_map]
  exact equipped.patrols

theorem reconcile (equipped : Equipped node) (now : Nat) : Equipped (node.reconcile now) := by
  unfold Node.reconcile
  split
  · exact equipped.onWatch _
  · exact (assume equipped.regular now _).onWatch _

/-- Whatever a node does, it keeps what its role asks for. -/
theorem perform (equipped : Equipped node) (now : Nat) (action : Action) :
    Equipped (node.perform now action) := by
  cases action with
  | reconcile => exact equipped.reconcile now
  | refresh peer => exact equipped.onWatch (·.refresh now peer)
  | forget peer => exact equipped.onWatch (·.remove peer)
  | hangUp | stop => exact ⟨equipped.regular, equipped.patrols, equipped.beating⟩
  | tell peer message =>
      obtain ⟨outbox, told⟩ := node.toMailroom.exists_tell_eq now peer message
      rw [Node.perform, inMailroom, told]
      exact ⟨equipped.regular, equipped.patrols, equipped.beating⟩

end Equipped

/-! ## Nodes in step -/

/-- The role is the one that the view gives the node, which is equipped for it.  The
peers under watch are some of those that should be, and the others of these have been
found silent. -/
structure InStep (node : Node) : Prop extends Equipped node where
  roleEq : node.role = node.view.role
  scope : ∀ peer, node.Monitors peer → peer ∈ node.view.watched
  accounted : ∀ peer ∈ node.view.watched, node.Monitors peer ∨ peer ∈ node.timeouts

/-- Whoever is equipped has a watch unless nobody is to be watched. -/
theorem watched_eq_nil_of_patrol_eq_none (equipped : Equipped node)
    (roleEq : node.role = node.view.role) (none : node.patrol = none) :
    node.view.watched = [] := by
  have client : node.role = .client := by
    by_contra other
    have some := equipped.patrols.mpr other
    rw [none] at some
    contradiction
  rw [View.watched, ← roleEq, client]

/-- A node in its role that follows its view watches exactly whom it should. -/
theorem monitors_follow_iff (equipped : Equipped node) (roleEq : node.role = node.view.role)
    (now : Nat) {peer : Peer} :
    (node.onWatch (·.follow now node.view.watched)).Monitors peer ↔
      peer ∈ node.view.watched := by
  cases patrolEq : node.patrol with
  | none =>
      have nobody := watched_eq_nil_of_patrol_eq_none equipped roleEq patrolEq
      simp [Monitors, Node.onWatch, patrolEq, nobody]
  | some patrol => simp [Monitors, Node.onWatch, patrolEq, Watch.contains_follow_iff]

/-- Once role and watch have been brought in line, exactly the peers that should be are
under watch. -/
theorem monitors_reconcile_iff (equipped : Equipped node) (now : Nat) {peer : Peer} :
    (node.reconcile now).Monitors peer ↔ peer ∈ node.view.watched := by
  unfold reconcile
  split
  · next same => exact monitors_follow_iff equipped same.symm now
  · exact monitors_follow_iff (Equipped.assume equipped.regular now node.view.role) rfl now

namespace InStep

/-- Bringing role and watch in line is enough, whatever they were before. -/
theorem reconcile (equipped : Equipped node) (now : Nat) : InStep (node.reconcile now) where
  toEquipped := equipped.reconcile now
  roleEq := by rw [reconcile_role, reconcile_view]
  scope := by
    intro peer monitored
    rw [reconcile_view]
    exact (monitors_reconcile_iff equipped now).mp monitored
  accounted := by
    intro peer watched
    rw [reconcile_view] at watched
    exact .inl ((monitors_reconcile_iff equipped now).mpr watched)

/-- Work that touches neither view, role and watch nor what is found silent leaves a node
in step. -/
theorem frame {after : Node} (inStep : InStep node) (viewEq : after.view = node.view)
    (roleEq : after.role = node.role) (patrolEq : after.patrol = node.patrol)
    (beatsEq : after.beats.isSome = node.beats.isSome)
    (timeoutsEq : after.timeouts = node.timeouts) : InStep after where
  regular := viewEq ▸ inStep.regular
  patrols := by rw [patrolEq, roleEq]; exact inStep.patrols
  beating := by rw [beatsEq, roleEq]; exact inStep.beating
  roleEq := by rw [roleEq, viewEq]; exact inStep.roleEq
  scope := by simpa only [Monitors, patrolEq, viewEq] using inStep.scope
  accounted := by simpa only [Monitors, patrolEq, viewEq, timeoutsEq] using inStep.accounted

/-- Noting that a peer was heard of changes nothing about who is under watch. -/
theorem refresh (inStep : InStep node) (now : Nat) (peer : Peer) :
    InStep (node.onWatch (·.refresh now peer)) := by
  have monitors : ∀ {other},
      (node.onWatch (·.refresh now peer)).Monitors other ↔ node.Monitors other := by
    intro other
    cases patrolEq : node.patrol with
    | none => simp [Monitors, Node.onWatch, patrolEq]
    | some patrol => simp [Monitors, Node.onWatch, patrolEq, Watch.contains_refresh]
  refine ⟨inStep.toEquipped.onWatch _, inStep.roleEq, ?_, ?_⟩
  · intro other monitored
    exact inStep.scope other (monitors.mp monitored)
  · intro other watched
    exact (inStep.accounted other watched).imp_left monitors.mpr

/-- As long as nobody is forgotten, actions leave a node in step. -/
theorem perform (inStep : InStep node) (now : Nat) {action : Action}
    (kept : ∀ peer, action ≠ .forget peer) : InStep (node.perform now action) := by
  cases action with
  | reconcile => exact reconcile inStep.toEquipped now
  | refresh peer => exact inStep.refresh now peer
  | forget peer => exact absurd rfl (kept peer)
  | hangUp | stop => exact inStep.frame rfl rfl rfl rfl rfl
  | tell peer message =>
      obtain ⟨outbox, told⟩ := node.toMailroom.exists_tell_eq now peer message
      rw [Node.perform, inMailroom, told]
      exact inStep.frame rfl rfl rfl rfl rfl

theorem foldl_perform (inStep : InStep node) (now : Nat) {actions : List Action}
    (kept : ∀ peer, .forget peer ∉ actions) : InStep (actions.foldl (Node.perform now) node) := by
  induction actions generalizing node with
  | nil => exact inStep
  | cons first rest inductionHypothesis =>
      refine inductionHypothesis (inStep.perform now ?_) ?_
      · rintro peer rfl
        exact kept peer List.mem_cons_self
      · intro peer forgotten
        exact kept peer (List.mem_cons_of_mem _ forgotten)

/-! ### Reactions -/

/-- A reaction that settles brings a node in step that was only equipped. -/
theorem of_settles (equipped : Equipped node) (now : Nat) {reaction : Reaction}
    (regular : reaction.view.Regular) (settles : reaction.Settles) :
    InStep (node.carryOut now reaction) := by
  obtain ⟨before, later, actionsEq, kept⟩ := settles
  have prepared : Equipped
      (before.foldl (Node.perform now) { node with view := reaction.view }) := by
    have start : Equipped { node with view := reaction.view } :=
      ⟨regular, equipped.patrols, equipped.beating⟩
    clear actionsEq
    generalize ({ node with view := reaction.view } : Node) = current at start
    induction before generalizing current with
    | nil => exact start
    | cons first rest inductionHypothesis =>
        exact inductionHypothesis _ (start.perform now first)
  rw [carryOut, actionsEq, List.foldl_append, List.foldl_cons]
  exact (reconcile prepared now).foldl_perform now kept

theorem carryOut (inStep : InStep node) (now : Nat) {reaction : Reaction}
    (regular : reaction.view.Regular) (tidy : reaction.Idle node.view ∨ reaction.Settles) :
    InStep (node.carryOut now reaction) := by
  rcases tidy with ⟨viewEq, kept⟩ | settles
  · rw [Node.carryOut, viewEq]
    exact inStep.foldl_perform now kept
  · exact of_settles inStep.toEquipped now regular settles

theorem onMessage (inStep : InStep node) (now : Nat) {message : Control}
    (limited : message.IsLimited) : InStep (node.onMessage now message) :=
  inStep.carryOut now (View.regular_react inStep.regular node.role limited)
    (node.view.idle_or_settles_react node.role message)

/-- Whatever bytes reach a node, it stays in step. -/
theorem onPacket (inStep : InStep node) (now : Nat) (sender : Endpoint) (raw : Bytes) :
    InStep (node.onPacket now sender raw) := by
  obtain ⟨outbox, delivered, reassembly, dealt⟩ := node.exists_onPacket_eq now sender raw
  have sorted : InStep { node with outbox, delivered, reassembly } :=
    inStep.frame rfl rfl rfl rfl rfl
  rw [dealt]
  cases heard : node.heard? now sender raw with
  | none => exact sorted
  | some message => exact sorted.onMessage now (isLimited_of_heard? heard)

end InStep

/-! ## Silence -/

/-- Deal with the first of the peers found silent. -/
def settleNext (node : Node) (now : Nat) : Node :=
  match node.timeouts with
  | [] => node
  | peer :: rest => { node with timeouts := rest }.onSilence now peer

namespace InStep

/-- Peers that a scan drops from the watch are queued. -/
theorem scanIfDue (inStep : InStep node) (now : Nat) : InStep (node.scanIfDue now) := by
  unfold Node.scanIfDue
  split
  · next patrol patrolEq =>
      split
      · refine ⟨⟨inStep.regular, ?_, inStep.beating⟩, inStep.roleEq, ?_, ?_⟩
        · have patrols := inStep.patrols
          rw [patrolEq] at patrols
          exact patrols
        · rintro peer ⟨scanned, scannedEq, kept⟩
          cases Option.some.inj scannedEq
          exact inStep.scope peer ⟨patrol, patrolEq, Watch.contains_of_scan kept⟩
        · intro peer watched
          rcases inStep.accounted peer watched with ⟨_, same, monitored⟩ | queued
          · rw [patrolEq, Option.some.injEq] at same
            subst same
            rcases Watch.contains_or_mem_of_scan monitored now with kept | silent
            · exact .inl ⟨_, rfl, kept⟩
            · refine .inr (List.mem_append_right _ ?_)
              simp only [Patrol.scan, List.map_append, List.map_map, List.mem_append]
              exact .inr (List.mem_map.mpr ⟨peer, silent, rfl⟩)
          · exact .inr (List.mem_append_left _ queued)
      · exact inStep
  · exact inStep

/-- A silent peer whose turn comes leaves the view if it is to be watched, and otherwise
there is nothing to be done. -/
theorem settleNext (inStep : InStep node) (now : Nat) : InStep (node.settleNext now) := by
  unfold Node.settleNext
  split
  · exact inStep
  · next peer rest timeoutsEq =>
      by_cases watched : peer ∈ node.view.watched
      · have equipped : Equipped { node with timeouts := rest } :=
          ⟨inStep.regular, inStep.patrols, inStep.beating⟩
        exact of_settles equipped now (View.regular_reactToSilence inStep.regular node.role peer)
          (View.settles_reactToSilence inStep.regular.toLed node.role watched)
      · rw [@onSilence_of_notMem_watched { node with timeouts := rest } peer watched]
        refine ⟨⟨inStep.regular, inStep.patrols, inStep.beating⟩, inStep.roleEq, inStep.scope, ?_⟩
        intro other otherWatched
        refine (inStep.accounted other otherWatched).imp_right fun queued => ?_
        rw [timeoutsEq] at queued
        rcases List.mem_cons.mp queued with rfl | later
        · exact absurd otherWatched watched
        · exact later

end InStep

/-! ## Everything that is due -/

/-- Actions do not look at who has been found silent. -/
theorem perform_with_timeouts (node : Node) (timeouts : List Peer) (now : Nat)
    (action : Action) :
    perform now { node with timeouts } action = { perform now node action with timeouts } := by
  cases action with
  | reconcile =>
      simp only [perform, reconcile]
      split <;> rfl
  | refresh | forget | hangUp | tell | stop => rfl

theorem foldl_perform_with_timeouts (node : Node) (timeouts : List Peer) (now : Nat)
    (actions : List Action) :
    actions.foldl (perform now) { node with timeouts } =
      { actions.foldl (perform now) node with timeouts } := by
  induction actions generalizing node with
  | nil => rfl
  | cons first rest inductionHypothesis =>
      rw [List.foldl_cons, List.foldl_cons, perform_with_timeouts, inductionHypothesis]

theorem onSilence_with_timeouts (node : Node) (timeouts : List Peer) (now : Nat) (peer : Peer) :
    { node with timeouts }.onSilence now peer = { node.onSilence now peer with timeouts } :=
  foldl_perform_with_timeouts { node with view := _ } timeouts now _

theorem perform_phase (node : Node) (now : Nat) {action : Action} (stays : action ≠ .stop) :
    (node.perform now action).phase = node.phase := by
  cases action with
  | reconcile =>
      simp only [perform, reconcile]
      split <;> rfl
  | refresh | forget | hangUp | tell => rfl
  | stop => contradiction

theorem foldl_perform_phase (node : Node) (now : Nat) {actions : List Action}
    (stays : .stop ∉ actions) : (actions.foldl (perform now) node).phase = node.phase := by
  induction actions generalizing node with
  | nil => rfl
  | cons first rest inductionHypothesis =>
      rw [List.mem_cons, not_or] at stays
      rw [List.foldl_cons, inductionHypothesis _ stays.2, perform_phase node now (Ne.symm stays.1)]

/-- Nobody ends because others are silent. -/
theorem onSilence_phase (node : Node) (now : Nat) (peer : Peer) :
    (node.onSilence now peer).phase = node.phase :=
  foldl_perform_phase _ now (node.view.stop_notMem_reactToSilence node.role peer)

theorem settleTimeouts_phase (node : Node) (now : Nat) :
    (node.settleTimeouts now).phase = node.phase := by
  unfold settleTimeouts
  have start : ({ node with timeouts := [] } : Node).phase = node.phase := rfl
  generalize ({ node with timeouts := [] } : Node) = current at start
  induction node.timeouts generalizing current with
  | nil => exact start
  | cons peer rest inductionHypothesis =>
      exact inductionHypothesis _ ((current.onSilence_phase now peer).trans start)

theorem maintainIfDue_phase (node : Node) (now : Nat) :
    (node.maintainIfDue now).phase = node.phase := by
  obtain ⟨_, _, maintained⟩ := node.exists_maintainIfDue_eq now
  rw [maintained]

namespace InStep

theorem foldl_onSilence (queue : List Peer) (inStep : InStep { node with timeouts := queue })
    (now : Nat) : InStep (queue.foldl (onSilence · now) { node with timeouts := [] }) := by
  induction queue generalizing node with
  | nil => exact inStep
  | cons peer rest inductionHypothesis =>
      have next : InStep ({ node with timeouts := rest }.onSilence now peer) :=
        inStep.settleNext now
      rw [onSilence_with_timeouts] at next
      rw [List.foldl_cons, onSilence_with_timeouts]
      exact inductionHypothesis next

/-- Dealing with all silent peers at once is dealing with one after another. -/
theorem settleTimeouts (inStep : InStep node) (now : Nat) : InStep (node.settleTimeouts now) :=
  foldl_onSilence node.timeouts inStep now

theorem flushIfDue (inStep : InStep node) (now : Nat) :
    InStep (node.inMailroom (·.flushIfDue now)) := by
  simp only [inMailroom, Mailroom.flushIfDue, Mailroom.flushAged]
  split
  · split
    · obtain ⟨outbox, delivered, sent⟩ := Mailroom.exists_sendBatches_eq
        { node.toMailroom with batcher := (node.batcher.flushAged now).2 } now
        (node.batcher.flushAged now).1
      rw [sent]
      exact inStep.frame rfl rfl rfl rfl rfl
    · exact inStep
  · exact inStep

theorem beatIfDue (inStep : InStep node) (now : Nat) :
    InStep (node.inMailroom (·.beatIfDue now)) := by
  simp only [inMailroom, Mailroom.beatIfDue, Mailroom.beat]
  split
  · next ticker beatsEq =>
      split
      · split
        · next message peer _ =>
            obtain ⟨outbox, told⟩ := node.toMailroom.exists_tell_eq now peer message
            rw [told]
            exact inStep.frame rfl rfl rfl (by simp [beatsEq]) rfl
        · exact inStep.frame rfl rfl rfl (by simp [beatsEq]) rfl
      · exact inStep
  · exact inStep

theorem maintainIfDue (inStep : InStep node) (now : Nat) : InStep (node.maintainIfDue now) := by
  obtain ⟨_, _, maintained⟩ := node.exists_maintainIfDue_eq now
  rw [maintained]
  exact inStep.frame rfl rfl rfl rfl rfl

end InStep

/-- The node is running, and in step. -/
structure Runs (node : Node) : Prop extends InStep node where
  running : node.phase = .running

namespace Runs

theorem attend (runs : Runs node) (now : Nat) : Runs (node.attend now) := by
  unfold Node.attend
  rw [runs.running]
  refine ⟨(runs.toInStep.settleTimeouts now).maintainIfDue now, ?_⟩
  rw [maintainIfDue_phase, settleTimeouts_phase, runs.running]

theorem scanIfDue (runs : Runs node) (now : Nat) : Runs (node.scanIfDue now) := by
  refine ⟨runs.toInStep.scanIfDue now, ?_⟩
  obtain ⟨_, _, scanned⟩ := node.exists_scanIfDue_eq now
  rw [scanned]
  exact runs.running

/-- Whatever is due, a running node keeps running and stays in step. -/
theorem act (runs : Runs node) (now : Nat) : Runs (node.act now) := by
  have turned : Runs (Activity.inTurn (node.activities now) node) := by
    apply Activity.inTurn_induction _ runs
    intro activity activityMem state kept
    simp only [activities, List.mem_cons, List.not_mem_nil, or_false] at activityMem
    rcases activityMem with rfl | rfl | rfl | rfl
    · exact ⟨kept.toInStep.flushIfDue now, kept.running⟩
    · exact kept.attend now
    · exact kept.scanIfDue now
    · exact ⟨kept.toInStep.beatIfDue now, kept.running⟩
  have attended := turned.attend now
  have beaten : Runs (((Activity.inTurn (node.activities now) node).attend now).inMailroom
      (·.beatIfDue now)) := ⟨attended.toInStep.beatIfDue now, attended.running⟩
  unfold Node.act drainIfDue
  rw [beaten.running]
  exact beaten

/-- A node that starts is in step. -/
theorem start (config : Config) (room : Mailroom) (regular : room.view.Regular) (now : Nat) :
    Runs ((create config room).start now) := by
  refine act ⟨InStep.reconcile (Equipped.assume regular now _) now, ?_⟩ now
  have stays : .stop ∉ [Action.reconcile] := by simp
  exact foldl_perform_phase _ now stays

end Runs

/-! ## Turns -/

/-- What a node deals with at a time.  The turns of a node come in any order. -/
inductive Turn
  | packet (now : Nat) (sender : Endpoint) (raw : Bytes)
  /-- Silent peers are looked for, if that is due. -/
  | scan (now : Nat)
  /-- The first of the peers found silent is dealt with. -/
  | silence (now : Nat)
  deriving DecidableEq, Repr

/-- Take a turn. -/
def take (node : Node) : Turn → Node
  | .packet now sender raw => node.onPacket now sender raw
  | .scan now => node.scanIfDue now
  | .silence now => node.settleNext now

/-- Take several turns one after another. -/
def takeAll (node : Node) (turns : List Turn) : Node :=
  turns.foldl take node

namespace InStep

/-- Whatever a turn brings, a node stays in step. -/
theorem take (inStep : InStep node) (turn : Turn) : InStep (node.take turn) := by
  cases turn with
  | packet now sender raw => exact inStep.onPacket now sender raw
  | scan now => exact inStep.scanIfDue now
  | silence now => exact inStep.settleNext now

theorem takeAll (inStep : InStep node) (turns : List Turn) : InStep (node.takeAll turns) := by
  induction turns generalizing node with
  | nil => exact inStep
  | cons turn turns inductionHypothesis => exact inductionHypothesis (inStep.take turn)

end InStep

/-- Where the role is already the one of the view, bringing watch and view in line leaves
each peer that stays its time. -/
theorem reconcile_of_role_eq {patrol : Patrol} (roleEq : node.view.role = node.role)
    (patrolEq : node.patrol = some patrol) (now : Nat) :
    node.reconcile now =
      { node with
        patrol := some { patrol with watch := patrol.watch.follow now node.view.watched } } := by
  simp only [reconcile, if_pos roleEq, onWatch, patrolEq, Option.map_some]

/-- After any turns of any node its role is that of its view.  It has a watch unless it is
a client, and beats unless it is the main server.  It watches nobody that it should not,
and whoever it should watch and does not is queued as silent.  When watch and view are
brought in line without a change of the role, the peers that stay under watch keep the
time at which they were last heard of, and newcomers start now. -/
theorem upkeep_run (config : Config) (room : Mailroom) (self mainServer : Peer) (now : Nat)
    (turns : List Turn) :
    let begun := (create config { room with view := .initial self mainServer }).start now
    let node := begun.takeAll turns
    (node.role = node.view.role ∧
      (node.patrol.isSome ↔ node.role ≠ .client) ∧
      (node.beats.isSome ↔ node.role ≠ .mainServer) ∧
      (∀ peer, node.Monitors peer → peer ∈ node.view.watched) ∧
      ∀ peer ∈ node.view.watched, node.Monitors peer ∨ peer ∈ node.timeouts) ∧
    ∀ (node : Node) (patrol : Patrol) (later : Nat),
      node.view.role = node.role → node.patrol = some patrol →
        ∃ after, (node.reconcile later).patrol = some after ∧ ∀ peer,
          after.watch.lastSeen.find? peer =
            if peer ∈ node.view.watched then
              some ((patrol.watch.lastSeen.find? peer).getD later)
            else none := by
  intro begun node
  have runs : Runs begun := Runs.start config { room with view := .initial self mainServer }
    (View.regular_initial self mainServer) now
  have inStep : InStep node := runs.toInStep.takeAll turns
  refine ⟨⟨inStep.roleEq, inStep.patrols, inStep.beating, inStep.scope, inStep.accounted⟩, ?_⟩
  intro node patrol later roleEq patrolEq
  refine ⟨_, congrArg Node.patrol (reconcile_of_role_eq roleEq patrolEq later), ?_⟩
  intro peer
  exact patrol.watch.find?_follow later node.view.watched peer

end Node

end ClusterOverlay
