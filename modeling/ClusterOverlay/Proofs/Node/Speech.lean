import ClusterOverlay.Proofs.Convergence.Fleet
import ClusterOverlay.Proofs.Node.Outgoing
import ClusterOverlay.Proofs.Node.Silence

/-!
# Messages that are understood

Reading makes demands that writing does not check.  That they are met all the same is due
to the state that a node is in: its view is regular, and it names nobody whose host is not
short, for it was told of everybody by a message that could be read.  This is
`View.Nameable`, which every event keeps.  From it follows what every message that a node
tells can be relied on for, `Control.Sayable`: it can be written, and it is read back as
it was meant unless it is a roster with more members in one cluster than a word counts.
For this the main server must have been told of as many, one after another.

`Node.Tells` says what a node may tell in its present state, and `Node.understood_run`
puts this together, with what becomes of the roster that the main server answers with.
-/

namespace ClusterOverlay

/-! ## Messages that can be said -/

namespace Control

/-- If the message tells a roster, the number of members of each cluster fits a word. -/
def Counted (message : Control) : Prop :=
  ∀ roster, message = .network roster → ∀ cluster ∈ roster.clusters, cluster.length < UInt32.size

/-- Everybody whom the message names has a short host, and readers accept what it says. -/
structure Legible (message : Control) : Prop where
  short : ∀ peer ∈ message.named, peer.IsShort
  readable : message.Readable

/-- The message is legible, except that there may be too many members to be counted. -/
structure Sayable (message : Control) : Prop where
  short : ∀ peer ∈ message.named, peer.IsShort
  readable : message.Counted → message.Readable

variable {message : Control}

theorem legible_of_decode {content : Content} {payload : Bytes}
    (decoded : decode content payload = .ok (some message)) : message.Legible := by
  obtain ⟨_, readable, body, written, _⟩ := decode_eq_ok_iff.mp decoded
  exact ⟨exists_encode_iff.mp ⟨body, written⟩, readable⟩

theorem Legible.sayable (legible : message.Legible) : message.Sayable :=
  ⟨legible.short, fun _ => legible.readable⟩

theorem Legible.isLimited (legible : message.Legible) : message.IsLimited := by
  rintro roster rfl
  exact Roster.Readable.clustersLe legible.readable

/-- What can be said is written, and read back as it was meant if it can be counted. -/
theorem Sayable.exists_encode (sayable : message.Sayable) :
    ∃ payload, message.encode = .ok payload ∧
      (decode message.content payload = .ok (some message) ↔ message.Counted) := by
  obtain ⟨payload, written⟩ := exists_encode_iff.mpr sayable.short
  refine ⟨payload, written, ?_, fun counted => decode_encode (sayable.readable counted) written⟩
  rintro decoded roster rfl
  exact Roster.Readable.counted (decode_eq_ok_iff.mp decoded).2.1

theorem sayable_hello {sender : Peer} (short : sender.IsShort) : (hello sender).Sayable :=
  ⟨List.forall_mem_singleton.mpr short, fun _ => trivial⟩

theorem sayable_alive {sender : Peer} (short : sender.IsShort) : (alive sender).Sayable :=
  ⟨List.forall_mem_singleton.mpr short, fun _ => trivial⟩

theorem sayable_close : close.Sayable :=
  ⟨fun _ nobody => absurd nobody List.not_mem_nil, fun _ => trivial⟩

end Control

/-! ## Views in which everybody can be named -/

namespace View

/-- The view is regular, and the node and all members have short hosts. -/
structure Nameable (view : View) : Prop extends view.Regular where
  self : view.self.IsShort
  members : ∀ peer ∈ view.members, peer.IsShort

variable {view : View} {role : Role} {placement : Placement} {peer : Peer}
variable {message heard : Control}

theorem nameable_initial {self : Peer} (short : self.IsShort) (mainServer : Peer) :
    (initial self mainServer).Nameable := by
  refine ⟨regular_initial self mainServer, ?_, ?_⟩
  · unfold initial
    split <;> exact short
  · unfold initial
    split
    · simpa [Roster.members] using short
    · simp [Roster.members]

/-! ### Who comes into a view -/

theorem mem_members_of_followed (peerMem : peer ∈ (view.followed placement).members) :
    peer ∈ view.members ∨ peer = placement.peer := by
  rcases view.followed_eq_or_following placement with refused | ⟨changed, following⟩
  · rw [refused] at peerMem
    exact .inl peerMem
  · cases changed with
    | false =>
        rw [following.eq_of_not_changed] at peerMem
        exact .inl peerMem
    | true =>
        rw [following.members_perm.mem_iff, List.mem_append, List.mem_singleton] at peerMem
        exact peerMem

theorem members_reactToSilence_sublist (view : View) (role : Role) (silent : Peer) :
    (view.reactToSilence role silent).view.members.Sublist view.members := by
  unfold reactToSilence
  split
  · exact view.members_reactToRemove_sublist role _
  · exact List.Sublist.refl _

/-- Nobody comes into a view whom no message has named. -/
theorem mem_members_of_react (peerMem : peer ∈ (view.react role heard).view.members) :
    peer ∈ view.members ∨ peer ∈ heard.named := by
  cases heard with
  | hello sender =>
      cases role with
      | mainServer =>
          rw [Control.named, List.mem_singleton]
          exact (view.arrival_welcome sender).mem_members_iff.mp peerMem
      | clusterServer | client => exact .inl peerMem
  | alive sender => exact .inl peerMem
  | add placement =>
      rw [Control.named, List.mem_singleton]
      cases role with
      | mainServer => exact .inl peerMem
      | clusterServer => exact mem_members_of_followed (view.relayAdd_view placement ▸ peerMem)
      | client => exact mem_members_of_followed (view.learnAdd_view placement ▸ peerMem)
  | remove placement =>
      exact .inl ((view.members_reactToRemove_sublist role placement).subset peerMem)
  | network roster =>
      rw [Control.named, List.mem_append]
      cases role with
      | mainServer => exact .inl peerMem
      | clusterServer | client =>
          simp only [react, adopt] at peerMem
          split at peerMem
          · next after taken =>
              obtain ⟨_, rfl⟩ := replace_eq_ok_iff.mp taken
              exact .inr (.inl peerMem)
          · exact .inl peerMem
  | close => cases role <;> exact .inl peerMem

namespace Nameable

theorem react (nameable : view.Nameable) (role : Role) (legible : heard.Legible) :
    (view.react role heard).view.Nameable where
  toRegular := regular_react nameable.toRegular role legible.isLimited
  self := by
    rw [(Reacts.react view role heard).akin.selfEq]
    exact nameable.self
  members peer peerMem :=
    (mem_members_of_react peerMem).elim (nameable.members peer) (legible.short peer)

theorem reactToSilence (nameable : view.Nameable) (role : Role) (silent : Peer) :
    (view.reactToSilence role silent).view.Nameable where
  toRegular := regular_reactToSilence nameable.toRegular role silent
  self := by
    rw [(Reacts.reactToSilence view role silent).akin.selfEq]
    exact nameable.self
  members peer peerMem := by
    exact nameable.members peer ((view.members_reactToSilence_sublist role silent).subset peerMem)

end Nameable

/-! ### What is told -/

theorem sayable_remove_of_home {cluster : Nat} (nameable : view.Nameable) (short : peer.IsShort)
    (bound : cluster < view.clusters.length) : (Control.remove ⟨peer, cluster⟩).Sayable := by
  refine ⟨List.forall_mem_singleton.mpr short, fun _ => ?_⟩
  have few : clusterLimit < UInt32.size := by decide
  exact bound.trans_le (nameable.clustersLe.trans few.le)

theorem Dismisses.sayable {after : View}
    (dismisses : view.Dismisses placement after peer message) (nameable : view.Nameable)
    (latter : after.Nameable) (short : placement.peer.IsShort) : message.Sayable := by
  cases dismisses with
  | rejoins => exact Control.sayable_hello latter.self
  | passesOn departure => exact sayable_remove_of_home nameable short departure.index_lt

theorem Answers.sayable (answers : view.Answers role heard peer message)
    (nameable : view.Nameable) (legible : heard.Legible) : message.Sayable := by
  have latter := nameable.react role legible
  cases answers with
  | snapshot =>
      constructor
      · intro other named
        rcases List.mem_append.mp named with otherMem | leads
        · exact latter.members other otherMem
        · exact latter.members other (latter.servers_subset leads)
      · exact fun counted => ⟨latter.toLed, latter.clustersLe, counted _ rfl⟩
  | @newcomer sender _ =>
      refine ⟨legible.short, fun _ => ?_⟩
      have bound := (view.arrival_welcome sender).home.index_lt
      have few : clusterLimit < UInt32.size := by decide
      exact bound.trans_le (latter.clustersLe.trans few.le)
  | placement => exact legible.sayable
  | removal dismisses =>
      exact dismisses.sayable nameable latter (List.forall_mem_singleton.mp legible.short)
  | closing => exact Control.sayable_close

theorem sayable_of_tell_mem_reactToSilence {silent : Peer} (nameable : view.Nameable)
    (told : .tell peer message ∈ (view.reactToSilence role silent).actions) :
    message.Sayable := by
  obtain ⟨watched, dismisses⟩ := dismisses_of_tell_mem_reactToSilence told
  have member := mem_members_of_mem_watched nameable.toLed watched
  exact dismisses.sayable nameable (nameable.reactToSilence role silent)
    (nameable.members silent member)

theorem sayable_of_beat (nameable : view.Nameable) (beats : view.beat = some (message, peer)) :
    message.Sayable := by
  rcases eq_of_beat_eq_some beats with rfl | rfl
  · exact Control.sayable_hello nameable.self
  · exact Control.sayable_alive nameable.self

theorem sayable_of_tell_mem_farewell (nameable : view.Nameable)
    (told : .tell peer message ∈ view.farewell role) : message.Sayable := by
  rcases eq_of_tell_mem_farewell told with rfl | ⟨cluster, found, rfl⟩
  · exact Control.sayable_close
  · exact sayable_remove_of_home nameable nameable.self (home_of_clusterOf? found).index_lt

/-! ### How many members there are -/

theorem length_members_react_le (view : View) (message : Control) :
    (view.react .mainServer message).view.members.length ≤ view.members.length + 1 := by
  cases message with
  | hello sender =>
      change (view.welcome sender).view.members.length ≤ _
      rcases (view.arrival_welcome sender).members_perm with ⟨_, same⟩ | ⟨_, members⟩
      · rw [same]
        exact Nat.le_succ _
      · rw [members.length_eq, List.length_append, List.length_singleton]
  | remove placement =>
      exact (view.members_reactToRemove_sublist .mainServer placement).length_le.trans
        (Nat.le_succ _)
  | alive | add | network | close => exact Nat.le_succ _

end View

/-! ## Nodes -/

namespace Node

/-- What a node may have to tell somebody next: because of a packet that reaches it, or of a
silence that is reported, on a beat, or when it leaves. -/
inductive Tells (node : Node) (peer : Peer) (message : Control) : Prop
  | reply {now : Nat} {sender : Endpoint} {raw : Bytes} {heard : Control}
      (hears : node.heard? now sender raw = some heard)
      (told : .tell peer message ∈ (node.view.react node.role heard).actions)
  | silence {silent : Peer}
      (told : .tell peer message ∈ (node.view.reactToSilence node.role silent).actions)
  | beat (beats : node.view.beat = some (message, peer))
  | farewell (told : .tell peer message ∈ node.view.farewell node.role)

variable {node : Node} {now : Nat} {sender : Endpoint} {raw : Bytes} {peer mainServer : Peer}
variable {message : Control} {roster : Roster} {history : List Notice}

theorem legible_of_heard? (heard : node.heard? now sender raw = some message) :
    message.Legible := by
  obtain ⟨packet, _, completed⟩ := Option.bind_eq_some_iff.mp heard
  obtain ⟨whole, _, carried⟩ := Option.bind_eq_some_iff.mp completed
  exact Control.legible_of_decode (Packet.eq_networking_and_decode_of_control? carried).2

theorem nameable_deal (nameable : node.view.Nameable) (event : Event) :
    (node.deal event).view.Nameable := by
  cases event with
  | packet now sender raw =>
      rw [deal, onPacket_view]
      cases heard : node.heard? now sender raw with
      | none => exact nameable
      | some message => exact nameable.react node.role (legible_of_heard? heard)
  | silence now peer =>
      rw [deal, onSilence_view]
      exact nameable.reactToSilence node.role peer

theorem nameable_of_run (nameable : node.view.Nameable) (events : List Event) :
    (node.run events).view.Nameable := by
  induction events generalizing node with
  | nil => exact nameable
  | cons event events inductionHypothesis =>
      exact inductionHypothesis (nameable_deal nameable event)

theorem Tells.sayable (tells : node.Tells peer message) (nameable : node.view.Nameable) :
    message.Sayable := by
  cases tells with
  | reply hears told =>
      exact (View.answers_of_tell_mem_react told).sayable nameable (legible_of_heard? hears)
  | silence told => exact View.sayable_of_tell_mem_reactToSilence nameable told
  | beat beats => exact View.sayable_of_beat nameable beats
  | farewell told => exact View.sayable_of_tell_mem_farewell nameable told

/-- Nobody but the main server tells a roster, and it tells that of its own view. -/
theorem Tells.eq_of_network (tells : node.Tells peer (.network roster)) :
    node.role = .mainServer ∧ ∃ sender, roster = (node.view.welcome sender).view.toRoster := by
  cases tells with
  | @reply _ _ _ heard _ told =>
      have answers := View.answers_of_tell_mem_react told
      generalize node.role = role at answers
      cases answers with
      | snapshot => exact ⟨rfl, peer, rfl⟩
      | removal dismisses => cases dismisses
  | silence told =>
      obtain ⟨_, dismisses⟩ := View.dismisses_of_tell_mem_reactToSilence told
      cases dismisses
  | beat beats => simpa using View.eq_of_beat_eq_some beats
  | farewell told => simpa using View.eq_of_tell_mem_farewell told

/-! ### Runs -/

theorem Belongs.deal (belongs : Belongs mainServer peer node) (event : Event) :
    Belongs mainServer peer (node.deal event) := by
  cases event with
  | packet now sender raw =>
      obtain ⟨outbox, delivered, reassembly, dealt⟩ := node.exists_onPacket_eq now sender raw
      have sorted : Belongs mainServer peer { node with outbox, delivered, reassembly } :=
        ⟨belongs.selfEq, belongs.mainServerEq, belongs.roleEq⟩
      rw [Node.deal, dealt]
      cases node.heard? now sender raw with
      | none => exact sorted
      | some message => exact sorted.onMessage now message
  | silence now silent => exact belongs.onSilence now silent

theorem Belongs.run (belongs : Belongs mainServer peer node) (events : List Event) :
    Belongs mainServer peer (node.run events) := by
  induction events generalizing node with
  | nil => exact belongs
  | cons event events inductionHypothesis => exact inductionHypothesis (belongs.deal event)

theorem Belongs.start (config : Config) (room : Mailroom) (self mainServer : Peer) (now : Nat) :
    Belongs mainServer self
      ((create config { room with view := .initial self mainServer }).start now) := by
  have holds := holds_start config { room with view := .initial self mainServer } now self
    mainServer rfl
  refine ⟨?_, ?_, by rw [holds.roleEq, holds.viewEq]⟩
  · rw [holds.viewEq, View.initial]
    split <;> rfl
  · rw [holds.viewEq, View.initial]
    split <;> rfl

/-- No event brings the main server more than one member. -/
theorem Serves.length_members_run_le (serves : Serves mainServer history node)
    (events : List Event) :
    (node.run events).view.members.length ≤ node.view.members.length + events.length := by
  induction events generalizing history node with
  | nil => exact Nat.le_refl _
  | cons event events inductionHypothesis =>
      have rest := inductionHypothesis (serves.deal event)
      have step : (node.deal event).view.members.length ≤ node.view.members.length + 1 := by
        cases event with
        | packet now sender raw =>
            rw [Node.deal, onPacket_view, serves.roleEq]
            cases node.heard? now sender raw with
            | none => exact Nat.le_succ _
            | some message => exact node.view.length_members_react_le message
        | silence now peer =>
            rw [Node.deal, onSilence_view]
            exact (node.view.members_reactToSilence_sublist node.role peer).length_le.trans
              (Nat.le_succ _)
      change ((node.deal event).run events).view.members.length ≤ _
      rw [List.length_cons]
      omega

/-- A roster that is told can be counted, as long as there is room for one more member. -/
theorem Tells.counted (tells : node.Tells peer message)
    (few : node.view.members.length + 1 < UInt32.size) : message.Counted := by
  rintro roster rfl cluster clusterMem
  obtain ⟨_, sender, rfl⟩ := tells.eq_of_network
  have bound := node.view.length_members_react_le (.hello sender)
  exact ((List.sublist_flatten_of_mem clusterMem).length_le.trans bound).trans_lt few

/-- The main server begins with itself as the only member, so it takes many events until a
roster that it tells cannot be counted. -/
theorem Serves.counted_of_run (serves : Serves mainServer history node)
    (begins : node.view = .initial mainServer mainServer) {events : List Event}
    (few : events.length + 2 < UInt32.size) (tells : (node.run events).Tells peer message) :
    message.Counted := by
  have bound := serves.length_members_run_le events
  have alone : node.view.members.length = 1 := by
    rw [begins, View.initial, if_pos rfl]
    rfl
  exact tells.counted (by omega)

/-- Whoever says hello to the main server is told a roster that it is a member of, and whatever
it held before, it takes the roster over and plays the part that the roster gives it. -/
theorem Serves.welcomes (serves : Serves mainServer history node) {newcomer : Peer}
    (hears : node.heard? now sender raw = some (.hello newcomer))
    (away : newcomer ≠ mainServer) {joiner : Node}
    (belongs : Belongs mainServer newcomer joiner) (time : Nat) :
    let roster := (node.onPacket now sender raw).view.toRoster
    let joined := joiner.onMessage time (.network roster)
    node.Tells newcomer (.network roster) ∧ newcomer ∈ roster.members ∧
      joined.view.toRoster = roster ∧
      (joined.role = .clusterServer ↔ newcomer ∈ roster.servers) := by
  intro roster joined
  have arrival := node.view.arrival_welcome newcomer
  have same : roster = (node.view.welcome newcomer).view.toRoster := by
    simp only [roster, onPacket_view, hears, serves.roleEq]
    rfl
  have led : roster.Led := same ▸ arrival.led serves.attained.presides.toLed
  have taken : joined.view.toRoster = roster := by
    simp only [joined, belongs.view_onMessage_network away time led]
  have settled : Belongs mainServer newcomer joined := belongs.onMessage time _
  refine ⟨.reply hears ?_, ?_, taken, ?_⟩
  · rw [serves.roleEq, same]
    exact node.view.tell_network_mem_welcome newcomer
  · rw [same]
    exact arrival.mem_members_iff.mpr (.inr rfl)
  · rw [← taken]
    constructor
    · intro leads
      by_contra follows
      rw [settled.role_eq_client away follows] at leads
      contradiction
    · exact settled.role_eq_clusterServer away

/-! ### What comes into the outbox -/

/-- Of an event, the outbox gains packets that the node relays and what it tells. -/
theorem gains_deal (node : Node) (event : Event) :
    node.outbox.Gains (fun item =>
        (∃ now sender raw, event = .packet now sender raw ∧
          (item.nextHop, item.packet) ∈ node.view.relays node.role raw) ∨
        ∃ message, node.Tells item.nextHop message ∧
          item.Conveys node.outbox.maxPayload message)
      (node.deal event).outbox := by
  cases event with
  | packet now sender raw =>
      refine (node.gains_onPacket now sender raw).mono ?_
      rintro item (relayed | ⟨heard, message, hears, told, conveys⟩)
      · exact .inl ⟨now, sender, raw, rfl, relayed⟩
      · exact .inr ⟨message, .reply hears told, conveys⟩
  | silence now peer =>
      refine (node.gains_carryOut now (node.view.reactToSilence node.role peer)).mono ?_
      rintro item ⟨message, told, conveys⟩
      exact .inr ⟨message, .silence told, conveys⟩

/-! ### What is told is understood -/

/-- Whatever reaches a node with a short host, everything that it tells next can be written,
and is read back as it was meant unless it is a roster with a cluster that cannot be counted,
which takes more than a word of events.  Of events, beats and the end, the outbox gains nothing
but relays, batches and packets that carry what is told.  And whoever says hello to the main
server takes over the roster that it is told of in reply. -/
theorem understood_run (config : Config) (room : Mailroom) (self mainServer : Peer) (now : Nat)
    (short : self.IsShort) (events : List Event) :
    let begun := (create config { room with view := .initial self mainServer }).start now
    let node := begun.run events
    (∀ peer message, node.Tells peer message →
      (∃ payload, message.encode = .ok payload ∧
        (Control.decode message.content payload = .ok (some message) ↔ message.Counted)) ∧
      (events.length + 2 < UInt32.size → message.Counted)) ∧
    (∀ event, node.outbox.Gains (fun item =>
        (∃ later sender raw, event = .packet later sender raw ∧
          (item.nextHop, item.packet) ∈ node.view.relays node.role raw) ∨
        ∃ message, node.Tells item.nextHop message ∧
          item.Conveys node.outbox.maxPayload message)
      (node.deal event).outbox) ∧
    (∀ later, node.outbox.Gains (fun item => ∃ message, node.Tells item.nextHop message ∧
        item.Conveys node.outbox.maxPayload message)
      (node.toMailroom.beat later).outbox) ∧
    (∀ later, node.outbox.Gains (fun item =>
        (∃ payload, item.Carries node.outbox.maxPayload payload .coalesced) ∨
        ∃ message, node.Tells item.nextHop message ∧
          item.Conveys node.outbox.maxPayload message)
      (node.leave later).outbox) ∧
    ∀ later sender raw newcomer, self = mainServer →
      node.heard? later sender raw = some (.hello newcomer) → newcomer ≠ mainServer →
      ∀ joiner time, Belongs mainServer newcomer joiner →
        let roster := (node.onPacket later sender raw).view.toRoster
        let joined := joiner.onMessage time (.network roster)
        node.Tells newcomer (.network roster) ∧ newcomer ∈ roster.members ∧
          joined.view.toRoster = roster ∧
          (joined.role = .clusterServer ↔ newcomer ∈ roster.servers) := by
  intro begun node
  have holds := holds_start config { room with view := .initial self mainServer } now
    self mainServer rfl
  have fresh : begun.view.Nameable := by
    rw [holds.viewEq]
    exact View.nameable_initial short mainServer
  have nameable : node.view.Nameable := nameable_of_run fresh events
  refine ⟨fun peer message tells => ⟨(tells.sayable nameable).exists_encode, fun few => ?_⟩,
    node.gains_deal, fun later => ?_, fun later => ?_, ?_⟩
  · -- Only the main server tells rosters.
    by_cases main : self = mainServer
    · subst main
      exact (Serves.start config room self now).counted_of_run holds.viewEq few tells
    · rintro roster rfl
      have belongs := (Belongs.start config room self mainServer now).run events
      exact absurd (belongs.roleEq ▸ tells.eq_of_network.1)
        (View.role_ne_mainServer (belongs.self_ne_mainServer main))
  · refine (node.toMailroom.gains_beat later).mono ?_
    rintro item ⟨message, beats, conveys⟩
    exact ⟨message, .beat beats, conveys⟩
  · refine (node.gains_leave later).mono ?_
    rintro item (batch | ⟨message, told, conveys⟩)
    · exact .inl batch
    · exact .inr ⟨message, .farewell told, conveys⟩
  · rintro later sender raw newcomer rfl hears away joiner time belongs
    exact ((Serves.start config room self now).run events).welcomes hears away belongs time

/-! ### A peer that says hello twice -/

open Peer (numbered)

/-- The first of the numbered peers once the second has said hello. -/
def greetedNode : Node :=
  ((create {} { quietRoom with view := .initial (numbered 1) (numbered 1) }).start 0).run
    [.packet 0 ⟨⟨10, 0, 0, 2⟩, 41000⟩ (greeting 2)]

/-- The second says hello again, and the roster that it is told of then is read back as it was
meant. -/
theorem understood_run_twice :
    let sender : Endpoint := ⟨⟨10, 0, 0, 2⟩, 41000⟩
    let roster := (greetedNode.onPacket 1 sender (greeting 2)).view.toRoster
    (numbered 1).IsShort ∧
      greetedNode.heard? 1 sender (greeting 2) = some (.hello (numbered 2)) ∧
      numbered 2 ∈ roster.members ∧
      ∃ payload, (Control.network roster).encode = .ok payload ∧
        Control.decode .network payload = .ok (some (.network roster)) := by
  intro sender roster
  have short : (numbered 1).IsShort := by decide +kernel
  have hears : greetedNode.heard? 1 sender (greeting 2) = some (.hello (numbered 2)) := by
    decide +kernel
  obtain ⟨understood, -, -, -, welcomes⟩ := understood_run {} quietRoom (numbered 1) (numbered 1)
    0 short [.packet 0 sender (greeting 2)]
  obtain ⟨tells, member, -⟩ := welcomes 1 sender (greeting 2) (numbered 2) rfl hears
    (by decide +kernel) _ 0 (Belongs.start {} quietRoom (numbered 2) (numbered 1) 0)
  obtain ⟨⟨payload, written, reads⟩, counted⟩ := understood _ _ tells
  exact ⟨short, hears, member, payload, written, reads.mpr (counted (by decide +kernel))⟩

end Node

end ClusterOverlay
