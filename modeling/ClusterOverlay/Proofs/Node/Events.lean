import ClusterOverlay.Proofs.Routing.Relays

/-!
# Events of a node

What happens to a node from outside is that packets reach it and that peers it
watches fall silent.  `Node.heard?` tells which message of the membership
protocol a packet brings, and `Node.onPacket_view` says that the view changes
only by the reaction to such a message, or to a silence.  Everything else that an
event can change is listed by `Node.exists_onPacket_eq`.
-/

namespace ClusterOverlay

/-- The message of the membership protocol that a whole packet carries. -/
def Packet.control? (packet : Packet) : Option Control :=
  if packet.channel = .networking then
    match Control.decode packet.content packet.payload with
    | .ok message => message
    | .error _ => none
  else
    none

theorem Packet.eq_networking_and_decode_of_control? {packet : Packet} {message : Control}
    (carried : packet.control? = some message) :
    packet.channel = .networking ∧
      Control.decode packet.content packet.payload = .ok (some message) := by
  unfold control? at carried
  split at carried
  · next networking =>
      split at carried
      · next found => exact ⟨networking, by rw [found, carried]⟩
      · contradiction
  · contradiction

/-! ## The mailroom keeps the view -/

namespace Mailroom

@[simp]
theorem deliver_view (room : Mailroom) (deliveries : List Delivery) :
    (room.deliver deliveries).view = room.view :=
  rfl

theorem exists_tell_eq (room : Mailroom) (now : Nat) (peer : Peer) (message : Control) :
    ∃ outbox, room.tell now peer message = { room with outbox } := by
  unfold tell sendMessage sendDirect
  cases message.encode with
  | error => exact ⟨room.outbox, rfl⟩
  | ok payload =>
      simp only [bind, Except.bind]
      cases room.outbox.sendDirect room.resolver now payload peer .use
          (.control message.content) with
      | error => exact ⟨room.outbox, rfl⟩
      | ok outbox => exact ⟨outbox, rfl⟩

@[simp]
theorem tell_view (room : Mailroom) (now : Nat) (peer : Peer) (message : Control) :
    (room.tell now peer message).view = room.view := by
  obtain ⟨outbox, told⟩ := room.exists_tell_eq now peer message
  rw [told]

theorem exists_forward_eq (room : Mailroom) (now : Nat) (raw : Bytes) (nextHop : Peer) :
    ∃ outbox, (room.forward now raw nextHop).toOption.getD room = { room with outbox } := by
  unfold forward
  cases room.outbox.forward now raw nextHop with
  | error cause => exact ⟨room.outbox, rfl⟩
  | ok outbox => exact ⟨outbox, rfl⟩

theorem exists_sendBatches_eq (room : Mailroom) (now : Nat) (parcels : List Parcel) :
    ∃ outbox delivered, room.sendBatches now parcels = { room with outbox, delivered } := by
  unfold sendBatches
  induction parcels generalizing room with
  | nil => exact ⟨room.outbox, room.delivered, rfl⟩
  | cons first rest ih =>
      have sent : ∃ outbox delivered, (room.sendBatch now first).toOption.getD room =
          { room with outbox, delivered } := by
        unfold sendBatch send
        cases room.outbox.send room.resolver room.view room.listeners now first.payload
            first.peer .coalesced with
        | error => exact ⟨room.outbox, room.delivered, rfl⟩
        | ok sent => exact ⟨sent.2, room.delivered ++ sent.1, rfl⟩
      obtain ⟨outbox, delivered, sentEq⟩ := sent
      rw [List.foldl_cons, sentEq]
      exact ih { room with outbox, delivered }

@[simp]
theorem sendBatches_view (room : Mailroom) (now : Nat) (parcels : List Parcel) :
    (room.sendBatches now parcels).view = room.view := by
  obtain ⟨outbox, delivered, sent⟩ := room.exists_sendBatches_eq now parcels
  rw [sent]

@[simp]
theorem sendBatches_resolver (room : Mailroom) (now : Nat) (parcels : List Parcel) :
    (room.sendBatches now parcels).resolver = room.resolver := by
  obtain ⟨outbox, delivered, sent⟩ := room.exists_sendBatches_eq now parcels
  rw [sent]

@[simp]
theorem flushAll_view (room : Mailroom) (now : Nat) : (room.flushAll now).view = room.view :=
  sendBatches_view _ now _

@[simp]
theorem flushAll_resolver (room : Mailroom) (now : Nat) :
    (room.flushAll now).resolver = room.resolver :=
  sendBatches_resolver _ now _

@[simp]
theorem flushIfDue_view (room : Mailroom) (now : Nat) :
    (room.flushIfDue now).view = room.view := by
  unfold flushIfDue
  split
  · split
    · exact sendBatches_view _ now _
    · rfl
  · rfl

@[simp]
theorem beatIfDue_view (room : Mailroom) (now : Nat) :
    (room.beatIfDue now).view = room.view := by
  unfold beatIfDue beat
  split
  · split
    · split <;> simp
    · rfl
  · rfl

end Mailroom

namespace Node

@[simp]
theorem inMailroom_view (node : Node) (work : Mailroom → Mailroom) :
    (node.inMailroom work).view = (work node.toMailroom).view :=
  rfl

@[simp]
theorem inMailroom_role (node : Node) (work : Mailroom → Mailroom) :
    (node.inMailroom work).role = node.role :=
  rfl

/-! ## Chores -/

/-- The role becomes that of the view, watch and beats with it, and nothing else changes. -/
theorem exists_reconcile_eq (node : Node) (now : Nat) :
    ∃ patrol beats,
      node.reconcile now = { node with role := node.view.role, patrol, beats } := by
  unfold reconcile
  by_cases current : node.view.role = node.role
  · rw [if_pos current, current]
    exact ⟨_, node.beats, rfl⟩
  · rw [if_neg current]
    exact ⟨_, _, rfl⟩

theorem exists_scanIfDue_eq (node : Node) (now : Nat) :
    ∃ patrol timeouts, node.scanIfDue now = { node with patrol, timeouts } := by
  unfold scanIfDue
  split
  · split
    · exact ⟨_, _, rfl⟩
    · exact ⟨node.patrol, node.timeouts, rfl⟩
  · exact ⟨node.patrol, node.timeouts, rfl⟩

theorem exists_maintainIfDue_eq (node : Node) (now : Nat) :
    ∃ reassembly maintenance,
      node.maintainIfDue now = { node with reassembly, maintenance } := by
  unfold maintainIfDue
  split
  · split
    · exact ⟨_, _, rfl⟩
    · exact ⟨node.reassembly, node.maintenance, rfl⟩
  · exact ⟨node.reassembly, node.maintenance, rfl⟩

/-- A node that ends gives up what recurs, and nothing else. -/
theorem exists_drainIfDue_eq (node : Node) (now : Nat) :
    ∃ flushes beats patrol maintenance phase,
      node.drainIfDue now = { node with flushes, beats, patrol, maintenance, phase } := by
  unfold drainIfDue
  split
  · split
    · split
      · exact ⟨none, none, none, none, _, rfl⟩
      · exact ⟨node.flushes, node.beats, node.patrol, node.maintenance, _, rfl⟩
    · exact ⟨node.flushes, node.beats, node.patrol, node.maintenance, node.phase, rfl⟩
  · exact ⟨node.flushes, node.beats, node.patrol, node.maintenance, node.phase, rfl⟩

theorem exists_cancel_eq (node : Node) (now : Nat) :
    ∃ flushes beats patrol maintenance phase,
      node.cancel now = { node with flushes, beats, patrol, maintenance, phase } := by
  unfold cancel
  split
  · exact ⟨node.flushes, node.beats, node.patrol, node.maintenance, node.phase, rfl⟩
  · exact ⟨none, none, none, none, _, rfl⟩

/-! ## Actions and reactions -/

theorem reconcile_view (node : Node) (now : Nat) : (node.reconcile now).view = node.view := by
  obtain ⟨_, _, reconciled⟩ := node.exists_reconcile_eq now
  rw [reconciled]

theorem reconcile_role (node : Node) (now : Nat) :
    (node.reconcile now).role = node.view.role := by
  obtain ⟨_, _, reconciled⟩ := node.exists_reconcile_eq now
  rw [reconciled]

theorem perform_view (now : Nat) (node : Node) (action : Action) :
    (perform now node action).view = node.view := by
  cases action with
  | reconcile => exact reconcile_view node now
  | tell peer message => exact Mailroom.tell_view node.toMailroom now peer message
  | refresh | forget | hangUp | stop => rfl

/-- A role that is in line with the view stays so. -/
theorem perform_role {node : Node} (current : node.role = node.view.role) (now : Nat)
    (action : Action) : (perform now node action).role = node.role := by
  cases action with
  | reconcile => exact (reconcile_role node now).trans current.symm
  | refresh | forget | hangUp | tell | stop => rfl

theorem foldl_perform_view (now : Nat) (node : Node) (actions : List Action) :
    (actions.foldl (perform now) node).view = node.view := by
  induction actions generalizing node with
  | nil => rfl
  | cons first rest ih => rw [List.foldl_cons, ih, perform_view]

theorem foldl_perform_role {node : Node} (current : node.role = node.view.role) (now : Nat)
    (actions : List Action) : (actions.foldl (perform now) node).role = node.role := by
  induction actions generalizing node with
  | nil => rfl
  | cons first rest ih =>
      have kept := perform_role current now first
      rw [List.foldl_cons, ih (by rw [kept, perform_view, current]), kept]

/-- A reaction determines the view. -/
theorem carryOut_view (node : Node) (now : Nat) (reaction : Reaction) :
    (node.carryOut now reaction).view = reaction.view :=
  foldl_perform_view now _ _

/-- The role stays as long as the view stays in line with it. -/
theorem carryOut_role {node : Node} {now : Nat} {reaction : Reaction}
    (current : node.role = reaction.view.role) :
    (node.carryOut now reaction).role = node.role :=
  foldl_perform_role current now reaction.actions

/-- A node that leaves gives out its batches.  Then it says its farewell. -/
theorem leave_eq (node : Node) (now : Nat) :
    node.leave now =
      (node.view.farewell node.role).foldl (perform now) (node.inMailroom (·.flushAll now)) := by
  simp only [leave, inMailroom_view, inMailroom_role, Mailroom.flushAll_view]

/-! ## Packets -/

theorem exists_passOne_eq (now : Nat) (node : Node) (packet : Peer × Bytes) :
    ∃ outbox, passOne now node packet = node.inMailroom fun room => { room with outbox } := by
  rcases node.toMailroom.exists_forward_eq now packet.2 packet.1 with ⟨outbox, outboxEq⟩
  exact ⟨outbox, by simp only [passOne, inMailroom, outboxEq]⟩

/-- Passing packets on fills the outbox and does nothing else. -/
theorem exists_passOn_eq (node : Node) (now : Nat) (packets : List (Peer × Bytes)) :
    ∃ outbox, node.passOn now packets = node.inMailroom fun room => { room with outbox } := by
  unfold passOn
  induction packets generalizing node with
  | nil => exact ⟨node.outbox, rfl⟩
  | cons first rest ih =>
      rcases exists_passOne_eq now node first with ⟨outbox, outboxEq⟩
      rcases ih (passOne now node first) with ⟨last, lastEq⟩
      exact ⟨last, by rw [List.foldl_cons, lastEq, outboxEq]; rfl⟩

theorem receive_of_control?_eq_some {node : Node} {now : Nat} {packet : Packet}
    {message : Control} (carried : packet.control? = some message) :
    node.receive now packet = node.onMessage now message := by
  obtain ⟨networking, decoded⟩ := Packet.eq_networking_and_decode_of_control? carried
  unfold receive
  rw [if_pos networking]
  cases content : packet.content <;> rw [content] at decoded
  case data | coalesced => simp [Control.decode] at decoded
  all_goals
    simp only
    rw [decoded]

/-- A packet that carries no message is for the listeners, or for nobody. -/
theorem receive_of_control?_eq_none (node : Node) (now : Nat) {packet : Packet}
    (none : packet.control? = none) :
    ∃ deliveries, node.receive now packet = node.inMailroom (·.deliver deliveries) := by
  have nobody : node = node.inMailroom (·.deliver []) := by
    simp [inMailroom, Mailroom.deliver]
  unfold Packet.control? at none
  unfold receive
  split at none
  · next networking =>
      rw [if_pos networking]
      cases content : packet.content <;> rw [content] at none
      case data | coalesced => exact ⟨_, rfl⟩
      all_goals
        simp only
        split at none
        · next found =>
            rw [found, none]
            exact ⟨[], nobody⟩
        · next found =>
            rw [found]
            exact ⟨[], nobody⟩
  · next other =>
      rw [if_neg other]
      exact ⟨_, rfl⟩

/-- The message of the membership protocol that a node hears because of bytes
that reach it: they must be for the node, and complete a packet that carries
one. -/
def heard? (node : Node) (now : Nat) (sender : Endpoint) (raw : Bytes) : Option Control :=
  (node.view.accepts? node.role raw).bind fun packet =>
    (node.reassembly.accept now sender packet).1.bind Packet.control?

theorem exists_accept_eq (node : Node) (now : Nat) (sender : Endpoint) (packet : Packet) :
    ∃ delivered reassembly, node.accept now sender packet =
      match (node.reassembly.accept now sender packet).1.bind Packet.control? with
      | some message => { node with delivered, reassembly }.onMessage now message
      | none => { node with delivered, reassembly } := by
  unfold accept
  cases node.reassembly.accept now sender packet with
  | mk whole reassembly =>
      cases whole with
      | none => exact ⟨node.delivered, reassembly, rfl⟩
      | some whole =>
          rw [Option.bind_some]
          cases carried : whole.control? with
          | some message =>
              exact ⟨node.delivered, reassembly, receive_of_control?_eq_some carried⟩
          | none =>
              obtain ⟨deliveries, received⟩ :=
                receive_of_control?_eq_none { node with reassembly } now carried
              exact ⟨node.delivered ++ deliveries, reassembly, received⟩

/-- All that becomes of bytes that reach a node: packets are put into the
outbox or given to listeners, fragments are kept, and then the node reacts to
the message that it hears, if it hears one. -/
theorem exists_onPacket_eq (node : Node) (now : Nat) (sender : Endpoint) (raw : Bytes) :
    ∃ outbox delivered reassembly, node.onPacket now sender raw =
      match node.heard? now sender raw with
      | some message => { node with outbox, delivered, reassembly }.onMessage now message
      | none => { node with outbox, delivered, reassembly } := by
  rcases node.exists_passOn_eq now (node.view.relays node.role raw) with ⟨outbox, passed⟩
  rw [onPacket_eq, passed, heard?]
  cases node.view.accepts? node.role raw with
  | none => exact ⟨outbox, node.delivered, node.reassembly, rfl⟩
  | some packet =>
      obtain ⟨delivered, reassembly, accepted⟩ :=
        exists_accept_eq { node with outbox } now sender packet
      exact ⟨outbox, delivered, reassembly, accepted⟩

/-- The view changes only by the reaction to a message that is heard. -/
theorem onPacket_view (node : Node) (now : Nat) (sender : Endpoint) (raw : Bytes) :
    (node.onPacket now sender raw).view =
      match node.heard? now sender raw with
      | some message => (node.view.react node.role message).view
      | none => node.view := by
  rcases node.exists_onPacket_eq now sender raw with ⟨outbox, delivered, reassembly, dealt⟩
  rw [dealt]
  cases node.heard? now sender raw with
  | none => rfl
  | some message => exact carryOut_view _ now _

theorem onSilence_view (node : Node) (now : Nat) (peer : Peer) :
    (node.onSilence now peer).view = (node.view.reactToSilence node.role peer).view :=
  carryOut_view node now _

/-! ## Runs -/

/-- What happens to a node from outside. -/
inductive Event
  | packet (now : Nat) (sender : Endpoint) (raw : Bytes)
  /-- A peer is reported to have been silent for too long. -/
  | silence (now : Nat) (peer : Peer)
  deriving DecidableEq, Repr

/-- Deal with an event. -/
def deal (node : Node) : Event → Node
  | .packet now sender raw => node.onPacket now sender raw
  | .silence now peer => node.onSilence now peer

/-- Deal with several events in order. -/
def run (node : Node) (events : List Event) : Node :=
  events.foldl deal node

/-- The role stays as long as no message and no silence puts the view out of
line with it. -/
theorem deal_role {node : Node} (event : Event)
    (message : ∀ message, (node.view.react node.role message).view.role = node.role)
    (silence : ∀ peer, (node.view.reactToSilence node.role peer).view.role = node.role) :
    (node.deal event).role = node.role := by
  cases event with
  | packet now sender raw =>
      rcases node.exists_onPacket_eq now sender raw with ⟨outbox, delivered, reassembly, dealt⟩
      rw [deal, dealt]
      cases node.heard? now sender raw with
      | none => rfl
      | some heard => exact carryOut_role (message heard).symm
  | silence now peer => exact carryOut_role (silence peer).symm

end Node

end ClusterOverlay
