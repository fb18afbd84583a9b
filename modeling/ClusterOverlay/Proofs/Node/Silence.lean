import ClusterOverlay.Proofs.Membership.Watchers
import ClusterOverlay.Proofs.Node.MainServer
import ClusterOverlay.Proofs.Node.Upkeep

/-!
# Peers found silent that come back

A scan drops a silent peer from the watch and puts its name into a queue.  When its
turn comes, the node asks whether the peer should be watched, not whether it has been
heard of since.  A peer that the main server should watch is one that it should watch as
long as it stays a member, `View.Presides.mem_watched_of_moves`.  So a hello between the
scan and the turn puts the peer under watch again, and yet the peer is removed:
`Node.returned_leaves`.  `Node.returned_not_kept` is a run in which this happens.
-/

namespace ClusterOverlay

open Peer (numbered)

/-! ## Whom the main server goes on watching -/

namespace View

variable {view after : View} {mainServer peer : Peer}

/-- What an event can make of the view of the main server. -/
inductive Moves (mainServer : Peer) (view : View) : View → Prop
  | stays : Moves mainServer view view
  | arrives {newcomer : Peer} {index : Nat} {after : View}
      (arrival : view.Arrival newcomer index after) : Moves mainServer view after
  | departs {leaver : Peer} {removal : Removal} {after : View} (other : leaver ≠ mainServer)
      (departure : view.Departure leaver removal after) : Moves mainServer view after

namespace Presides

theorem moves_reactToRemove (presides : Presides mainServer view) (placement : Placement) :
    view.Moves mainServer (view.reactToRemove .mainServer placement).view := by
  by_cases own : placement.peer = mainServer
  · rw [presides.reactToRemove_of_eq own]
    exact .stays
  · obtain ⟨removal, departure⟩ := presides.exists_departure_of_ne own
    exact .departs own departure

theorem moves_react (presides : Presides mainServer view) (message : Control) :
    view.Moves mainServer (view.react .mainServer message).view := by
  cases message with
  | hello sender => exact .arrives (arrival_welcome view sender)
  | remove placement => exact presides.moves_reactToRemove placement
  | alive | add | network | close => exact .stays

theorem moves_reactToSilence (presides : Presides mainServer view) (peer : Peer) :
    view.Moves mainServer (view.reactToSilence .mainServer peer).view := by
  unfold View.reactToSilence
  split
  · exact presides.moves_reactToRemove _
  · exact .stays

theorem of_moves (presides : Presides mainServer view) (moves : view.Moves mainServer after) :
    Presides mainServer after := by
  cases moves with
  | stays => exact presides
  | arrives arrival => exact presides.arrival arrival
  | departs other departure => exact presides.departure departure other

/-- The main server watches the other servers and the members of its own cluster. -/
theorem mem_watched_iff (presides : Presides mainServer view) :
    peer ∈ view.watched ↔
      peer ≠ mainServer ∧ (peer ∈ view.servers ∨ view.Together mainServer peer) := by
  have mainMem : mainServer ∈ view.servers := List.mem_of_getElem? presides.leads
  rw [View.mem_watched_iff presides.toSound (presides.mainServerEq.symm ▸ mainMem),
    presides.mainServerEq, presides.selfEq, presides.toSound.watches_mainServer_iff mainMem]

/-- Whoever the main server watches it watches as long as the peer stays a member. -/
theorem mem_watched_of_moves (presides : Presides mainServer view)
    (moves : view.Moves mainServer after) (watched : peer ∈ view.watched)
    (member : peer ∈ after.members) : peer ∈ after.watched := by
  obtain ⟨away, near⟩ := presides.mem_watched_iff.mp watched
  refine (presides.of_moves moves).mem_watched_iff.mpr ⟨away, ?_⟩
  cases moves with
  | stays => exact near
  | arrives arrival => exact near.imp arrival.servers_subset arrival.together
  | departs other departure =>
      have stays := ((departure.mem_members_iff presides.distinct).mp member).2
      exact near.imp (fun leads => departure.mem_servers presides.toLed leads stays)
        fun together => departure.together together other.symm stays

/-- The main server's answer to the silence of somebody whom it watches: the peer is
removed, and those who remain are told. -/
theorem exists_reactToSilence_eq (presides : Presides mainServer view)
    (watched : peer ∈ view.watched) :
    ∃ cluster dropped promoted after,
      view.Departure peer (.removed cluster dropped promoted) after ∧
        view.reactToSilence .mainServer peer =
          ⟨after, .forget peer :: .hangUp peer :: .reconcile ::
            after.tellAll (after.floodTargets ++ after.orphans cluster promoted)
              (.remove ⟨peer, cluster⟩)⟩ := by
  have other : peer ≠ view.self := by
    rintro rfl
    exact view.self_notMem_watched watched
  obtain ⟨removal, after, removed, departure⟩ :=
    remove_departure presides.toLed ⟨peer, (view.clusterOf? peer).getD 0⟩
  have member := mem_members_of_mem_watched presides.toLed watched
  rw [View.reactToSilence, if_pos (List.contains_iff_mem.mpr watched), View.reactToRemove,
    if_neg other]
  simp only [expel, removed]
  have left := departure
  cases departure with
  | absent unknown => exact absurd member unknown
  | last | server | member => exact ⟨_, _, _, _, left, rfl⟩

end Presides

end View

namespace Node

variable {mainServer peer : Peer} {node : Node}

/-! ## Turns of the main server -/

/-- The node is the main server, with a view that it can have. -/
structure Leads (mainServer : Peer) (node : Node) : Prop where
  presides : View.Presides mainServer node.view
  roleEq : node.role = .mainServer

namespace Leads

theorem start (config : Config) (room : Mailroom) (mainServer : Peer) (now : Nat) :
    Leads mainServer
      ((create config { room with view := .initial mainServer mainServer }).start now) :=
  have serves := Serves.start config room mainServer now
  ⟨serves.attained.presides, serves.roleEq⟩

/-- Whatever happens to the main server, its view moves as that of a main server does. -/
theorem moves_deal (leads : Leads mainServer node) (event : Event) :
    node.view.Moves mainServer (node.deal event).view := by
  cases event with
  | packet now sender raw =>
      rw [Node.deal, onPacket_view, leads.roleEq]
      cases node.heard? now sender raw with
      | none => exact .stays
      | some message => exact leads.presides.moves_react message
  | silence now peer =>
      rw [Node.deal, onSilence_view, leads.roleEq]
      exact leads.presides.moves_reactToSilence peer

theorem deal (leads : Leads mainServer node) (event : Event) :
    Leads mainServer (node.deal event) := by
  refine ⟨leads.presides.of_moves (leads.moves_deal event), ?_⟩
  rw [deal_role event, leads.roleEq]
  · intro message
    rw [leads.roleEq]
    exact (leads.presides.react message).role_eq
  · intro peer
    rw [leads.roleEq]
    exact (leads.presides.reactToSilence peer).role_eq

/-- The main server stays what it is, whatever turn it takes. -/
theorem take (leads : Leads mainServer node) (turn : Turn) :
    Leads mainServer (node.take turn) ∧ node.view.Moves mainServer (node.take turn).view := by
  cases turn with
  | packet now sender raw =>
      exact ⟨leads.deal (.packet now sender raw), leads.moves_deal (.packet now sender raw)⟩
  | scan now =>
      have holds : Holds node.view node.role (node.scanIfDue now) :=
        Holds.scanIfDue ⟨rfl, rfl⟩ now
      have viewEq : (node.take (.scan now)).view = node.view := holds.viewEq
      refine ⟨⟨viewEq ▸ leads.presides, holds.roleEq.trans leads.roleEq⟩, ?_⟩
      rw [viewEq]
      exact .stays
  | silence now =>
      simp only [Node.take, settleNext]
      split
      · exact ⟨leads, .stays⟩
      · next peer rest _ =>
          have others : Leads mainServer { node with timeouts := rest } :=
            ⟨leads.presides, leads.roleEq⟩
          exact ⟨others.deal (.silence now peer), others.moves_deal (.silence now peer)⟩

theorem takeAll (leads : Leads mainServer node) (turns : List Turn) :
    Leads mainServer (node.takeAll turns) := by
  induction turns generalizing node with
  | nil => exact leads
  | cons turn later inductionHypothesis => exact inductionHypothesis (leads.take turn).1

/-- Whoever stays a member, turn by turn, is somebody to be watched in the end. -/
theorem mem_watched_takeAll (leads : Leads mainServer node) {turns : List Turn}
    (watched : peer ∈ node.view.watched)
    (stays : ∀ earlier, earlier <+: turns → peer ∈ (node.takeAll earlier).view.members) :
    peer ∈ (node.takeAll turns).view.watched := by
  induction turns generalizing node with
  | nil => exact watched
  | cons turn later inductionHypothesis =>
      obtain ⟨next, moves⟩ := leads.take turn
      have member : peer ∈ (node.take turn).view.members :=
        stays [turn] (List.prefix_iff_eq_take.mpr rfl)
      refine inductionHypothesis next
        (leads.presides.mem_watched_of_moves moves watched member) ?_
      intro earlier isFirst
      exact stays (turn :: earlier) (List.cons_prefix_cons.mpr ⟨rfl, isFirst⟩)

end Leads

/-! ## A scan -/

/-- When a peer under watch was last heard of. -/
def lastHeard? (node : Node) (peer : Peer) : Option Nat :=
  node.patrol.bind (·.watch.lastSeen.find? peer)

theorem monitors_iff : node.Monitors peer ↔ ∃ time, node.lastHeard? peer = some time := by
  cases patrolEq : node.patrol with
  | none => simp [Monitors, lastHeard?, patrolEq]
  | some patrol => simp [Monitors, lastHeard?, patrolEq, Watch.contains_iff]

/-- A scan that drops a peer from the watch queues it, and leaves the view alone: the peer
is still one that should be watched. -/
theorem InStep.of_dropped (inStep : InStep node) {now : Nat}
    (monitored : ∃ time, node.lastHeard? peer = some time)
    (dropped : (node.take (.scan now)).lastHeard? peer = none) :
    peer ∈ (node.take (.scan now)).view.watched ∧ peer ∈ (node.take (.scan now)).timeouts := by
  have holds : Holds node.view node.role (node.take (.scan now)) :=
    Holds.scanIfDue ⟨rfl, rfl⟩ now
  have watched : peer ∈ (node.take (.scan now)).view.watched := by
    rw [holds.viewEq]
    exact inStep.scope peer (monitors_iff.mpr monitored)
  refine ⟨watched, ((inStep.take (.scan now)).accounted peer watched).resolve_left ?_⟩
  intro monitors
  obtain ⟨time, seen⟩ := monitors_iff.mp monitors
  rw [dropped] at seen
  contradiction

/-! ## A hello -/

/-- Telling others something leaves the watch alone. -/
theorem foldl_perform_patrol (node : Node) (now : Nat) {actions : List Action}
    (tells : ∀ action ∈ actions, ∃ peer message, action = .tell peer message) :
    (actions.foldl (perform now) node).patrol = node.patrol := by
  induction actions generalizing node with
  | nil => rfl
  | cons first rest inductionHypothesis =>
      obtain ⟨peer, message, rfl⟩ := tells first List.mem_cons_self
      rw [List.foldl_cons, inductionHypothesis _ fun action actionMem =>
        tells action (List.mem_cons_of_mem _ actionMem)]
      rfl

/-- In answer to a hello, the main server brings its watch in line and notes that the
sender was heard of. -/
theorem carryOut_welcome_patrol (node : Node) {patrol : Patrol} (now : Nat)
    (roleEq : (node.view.welcome peer).view.role = node.role)
    (patrolEq : node.patrol = some patrol) :
    (node.carryOut now (node.view.welcome peer)).patrol =
      some { patrol with
        watch :=
          (patrol.watch.follow now (node.view.welcome peer).view.watched).refresh now peer } := by
  have reconciled := @reconcile_of_role_eq { node with view := (node.view.welcome peer).view }
    patrol roleEq patrolEq now
  rw [carryOut, show (node.view.welcome peer).actions = .reconcile :: .refresh peer :: _ from rfl,
    List.foldl_cons, List.foldl_cons, foldl_perform_patrol, perform, perform, reconciled]
  · rfl
  · intro action actionMem
    rcases List.mem_cons.mp actionMem with rfl | told
    · exact ⟨_, _, rfl⟩
    · obtain ⟨recipient, -, rfl⟩ := List.mem_map.mp told
      exact ⟨_, _, rfl⟩

/-- The main server welcomes the sender of a hello. -/
theorem Leads.onPacket_hello_view (leads : Leads mainServer node) {now : Nat}
    {sender : Endpoint} {raw : Bytes}
    (heard : node.heard? now sender raw = some (.hello peer)) :
    (node.onPacket now sender raw).view = (node.view.welcome peer).view := by
  rw [onPacket_view, heard, leads.roleEq]
  rfl

/-- A hello of somebody whom the main server should watch starts the watch anew. -/
theorem Leads.lastHeard?_hello (leads : Leads mainServer node) (equipped : Equipped node)
    {now : Nat} {sender : Endpoint} {raw : Bytes}
    (heard : node.heard? now sender raw = some (.hello peer))
    (watched : peer ∈ (node.onPacket now sender raw).view.watched) :
    (node.onPacket now sender raw).lastHeard? peer = some now := by
  obtain ⟨outbox, delivered, reassembly, dealt⟩ := node.exists_onPacket_eq now sender raw
  obtain ⟨patrol, patrolEq⟩ := Option.isSome_iff_exists.mp
    (equipped.patrols.mpr (by rw [leads.roleEq]; decide))
  have welcomed : ∀ view : View, view.react node.role (.hello peer) = view.welcome peer :=
    fun view => by rw [leads.roleEq]; rfl
  have roleEq : (node.view.welcome peer).view.role = node.role :=
    (leads.presides.react (.hello peer)).role_eq.trans leads.roleEq.symm
  have answered : (node.onPacket now sender raw).patrol =
      some { patrol with
        watch :=
          (patrol.watch.follow now (node.view.welcome peer).view.watched).refresh now peer } := by
    rw [dealt, heard]
    dsimp only
    rw [onMessage, welcomed]
    exact carryOut_welcome_patrol { node with outbox, delivered, reassembly } now roleEq patrolEq
  rw [leads.onPacket_hello_view heard] at watched
  have followed : (patrol.watch.follow now (node.view.welcome peer).view.watched).contains peer :=
    Watch.contains_follow_iff.mpr watched
  rw [lastHeard?, answered, Option.bind_some, Watch.refresh, if_pos followed, Watch.find?_add,
    if_pos rfl]

/-- The sender of a hello is told the roster that the main server then has. -/
theorem Leads.network_mem_actions (leads : Leads mainServer node) {now : Nat}
    {sender : Endpoint} {raw : Bytes}
    (heard : node.heard? now sender raw = some (.hello peer)) :
    .tell peer (.network (node.onPacket now sender raw).view.toRoster) ∈
      (node.view.react node.role (.hello peer)).actions := by
  rw [leads.onPacket_hello_view heard, leads.roleEq]
  simp [View.react, View.welcome]

/-! ## The turn of a peer that came back -/

/-- When its turn comes, a peer that should be watched is removed, and those who remain
are told. -/
theorem Leads.exists_settleNext_eq (leads : Leads mainServer node)
    (watched : peer ∈ node.view.watched) {rest : List Peer}
    (first : node.timeouts = peer :: rest) (now : Nat) :
    ∃ cluster dropped promoted after,
      node.view.Departure peer (.removed cluster dropped promoted) after ∧
        node.settleNext now = { node with timeouts := rest }.carryOut now
          ⟨after, .forget peer :: .hangUp peer :: .reconcile ::
            after.tellAll (after.floodTargets ++ after.orphans cluster promoted)
              (.remove ⟨peer, cluster⟩)⟩ := by
  obtain ⟨cluster, dropped, promoted, after, departure, reaction⟩ :=
    leads.presides.exists_reactToSilence_eq watched
  refine ⟨cluster, dropped, promoted, after, departure, ?_⟩
  simp only [settleNext, first, onSilence, leads.roleEq, reaction]

/-- A scan of the main server finds a peer silent and queues it.  Before its turn comes, a
hello of the peer is heard: the peer is watched anew and gets the roster, and it stays a
member.  When its turn comes it is removed all the same, and those who remain are told. -/
theorem returned_leaves (config : Config) (room : Mailroom) (mainServer peer : Peer)
    (began scanned heardAt now : Nat) (sender : Endpoint) (raw : Bytes)
    (earlier waiting later : List Turn) (rest : List Peer) :
    let begun := (create config { room with view := .initial mainServer mainServer }).start began
    let before := begun.takeAll earlier
    let queued := before.take (.scan scanned)
    let hearing := queued.takeAll waiting
    let returned := hearing.take (.packet heardAt sender raw)
    let node := returned.takeAll later
    (∃ time, before.lastHeard? peer = some time) → queued.lastHeard? peer = none →
    hearing.heard? heardAt sender raw = some (.hello peer) →
    (∀ turns, turns <+: waiting ++ .packet heardAt sender raw :: later →
      peer ∈ (queued.takeAll turns).view.members) →
    node.timeouts = peer :: rest →
    peer ∈ queued.timeouts ∧
      returned.lastHeard? peer = some heardAt ∧
      .tell peer (.network returned.view.toRoster) ∈
        (hearing.view.react hearing.role (.hello peer)).actions ∧
      peer ∉ (node.settleNext now).view.members ∧
      ∃ cluster dropped promoted after,
        node.view.Departure peer (.removed cluster dropped promoted) after ∧
          node.settleNext now = { node with timeouts := rest }.carryOut now
            ⟨after, .forget peer :: .hangUp peer :: .reconcile ::
              after.tellAll (after.floodTargets ++ after.orphans cluster promoted)
                (.remove ⟨peer, cluster⟩)⟩ := by
  intro begun before queued hearing returned node monitored dropped heard stays first
  have runs : Runs begun := Runs.start config
    { room with view := .initial mainServer mainServer } (View.regular_initial _ _) began
  have beforeInStep : InStep before := runs.toInStep.takeAll earlier
  have queuedInStep : InStep queued := beforeInStep.take (.scan scanned)
  have queuedLeads : Leads mainServer queued :=
    (((Leads.start config room mainServer began).takeAll earlier).take (.scan scanned)).1
  have hearingLeads : Leads mainServer hearing := queuedLeads.takeAll waiting
  obtain ⟨watched, waits⟩ := beforeInStep.of_dropped monitored dropped
  -- the peer stays a member, turn by turn, and so stays one that should be watched
  have stillWatched : ∀ turns, turns <+: waiting ++ .packet heardAt sender raw :: later →
      peer ∈ (queued.takeAll turns).view.watched := fun turns isFirst =>
    queuedLeads.mem_watched_takeAll watched fun earlier isEarlier =>
      stays earlier (isEarlier.trans isFirst)
  have returnedEq : returned = queued.takeAll (waiting ++ [.packet heardAt sender raw]) := by
    simp [returned, hearing, takeAll]
  have nodeEq : node = queued.takeAll (waiting ++ .packet heardAt sender raw :: later) := by
    simp [node, returned, hearing, takeAll]
  have returnedWatched : peer ∈ returned.view.watched := by
    rw [returnedEq]
    exact stillWatched _ ⟨later, by simp⟩
  have lastWatched : peer ∈ node.view.watched := by
    rw [nodeEq]
    exact stillWatched _ List.prefix_rfl
  have leads : Leads mainServer node := by
    rw [nodeEq]
    exact queuedLeads.takeAll _
  obtain ⟨cluster, wasLast, promoted, after, departure, settled⟩ :=
    leads.exists_settleNext_eq lastWatched first now
  refine ⟨waits, ?_, hearingLeads.network_mem_actions heard, ?_, cluster, wasLast, promoted,
    after, departure, settled⟩
  · exact hearingLeads.lastHeard?_hello (queuedInStep.takeAll waiting).toEquipped heard
      returnedWatched
  · rw [settled, carryOut_view, departure.mem_members_iff leads.presides.distinct]
    exact fun remains => remains.2 rfl

/-! ### A run in which a peer comes back -/

/-- What reaches the first of the numbered peers when another says hello. -/
def greeting (number : UInt8) : Bytes :=
  (Outbox.packet ((numbered number).encode.toOption.getD []) ⟨⟨10, 0, 0, 1⟩, 9000⟩ .use
    (.control .hello)).encode

/-- A numbered peer says hello to the first. -/
def greets (number : UInt8) (now : Nat) : Turn :=
  .packet now ⟨⟨10, 0, 0, number⟩, 41000⟩ (greeting number)

/-- What the first of the numbered peers starts with. -/
def quietRoom : Mailroom where
  view := .initial (numbered 1) (numbered 1)
  listeners := .none
  outbox := ⟨Packet.payloadLimit, 0, SchedulerConfig.schedule {} 0⟩
  batcher := .empty 2048 (milliseconds 10)

/-- The second and the third say hello at the start, and only the third does so again before
the second scan. -/
def secondSilent : List Turn :=
  [greets 2 0, greets 3 0, .scan (milliseconds 30000), greets 3 (milliseconds 59000)]

/-- The second scan finds the second peer silent.  It says hello a millisecond later, before
another scan and another hello, and is removed two milliseconds after that. -/
theorem returned_leaves_inTime :
    let begun := (create {} { quietRoom with view := .initial (numbered 1) (numbered 1) }).start 0
    let before := begun.takeAll secondSilent
    let queued := before.take (.scan (milliseconds 60000))
    let hearing := queued.takeAll [greets 3 (milliseconds 60000)]
    let returned := hearing.take (greets 2 (milliseconds 60001))
    let node := returned.takeAll [.scan (milliseconds 60001), greets 3 (milliseconds 60002)]
    (∃ time, before.lastHeard? (numbered 2) = some time) ∧
      queued.lastHeard? (numbered 2) = none ∧
      node.timeouts = [numbered 2] ∧
      returned.lastHeard? (numbered 2) = some (milliseconds 60001) ∧
      numbered 2 ∉ (node.settleNext (milliseconds 60003)).view.members := by
  obtain ⟨-, again, -, gone, -⟩ := returned_leaves {} quietRoom (numbered 1) (numbered 2) 0
    (milliseconds 60000) (milliseconds 60001) (milliseconds 60003) ⟨⟨10, 0, 0, 2⟩, 41000⟩
    (greeting 2) secondSilent [greets 3 (milliseconds 60000)]
    [.scan (milliseconds 60001), greets 3 (milliseconds 60002)] []
    ⟨0, by decide +kernel⟩ (by decide +kernel) (by decide +kernel)
    (by
      intro turns isFirst
      rw [← List.mem_inits] at isFirst
      revert turns
      decide +kernel)
    (by decide +kernel)
  exact ⟨⟨0, by decide +kernel⟩, by decide +kernel, by decide +kernel, again, gone⟩

/-- A peer that has said hello since the scan, and so recently that no scan would find it
silent, is not kept, and the third is told of its removal. -/
theorem returned_not_kept :
    let begun := (create {} { quietRoom with view := .initial (numbered 1) (numbered 1) }).start 0
    let before := begun.takeAll secondSilent
    let queued := before.take (.scan (milliseconds 60000))
    let returned := queued.take (greets 2 (milliseconds 60001))
    before.lastHeard? (numbered 2) = some 0 ∧
      queued.lastHeard? (numbered 2) = none ∧
      numbered 2 ∈ queued.view.members ∧
      queued.heard? (milliseconds 60001) ⟨⟨10, 0, 0, 2⟩, 41000⟩ (greeting 2) =
        some (.hello (numbered 2)) ∧
      returned.lastHeard? (numbered 2) = some (milliseconds 60001) ∧
      returned.silenceLimit? returned.role = some (milliseconds 30000) ∧
      returned.timeouts = [numbered 2] ∧
      numbered 2 ∈ returned.view.members ∧
      numbered 2 ∉ (returned.settleNext (milliseconds 60002)).view.members ∧
      .tell (numbered 3) (.remove ⟨numbered 2, 1⟩) ∈
        (returned.view.reactToSilence returned.role (numbered 2)).actions := by
  intro begun before queued returned
  exact ⟨by decide +kernel, by decide +kernel, by decide +kernel, by decide +kernel,
    by decide +kernel, by decide +kernel, by decide +kernel, by decide +kernel,
    by decide +kernel, by decide +kernel⟩

end Node

end ClusterOverlay
