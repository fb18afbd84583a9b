import ClusterOverlay.Proofs.Node.Upkeep
import ClusterOverlay.Proofs.Reassembly.Calls

/-!
# What a node takes in

A packet for a node goes to its reassembly, and the message that it completes
goes to the listeners or makes the node react.  `Node.accept_reassembly` and
`Node.accept_delivered` say so of one packet.  Apart from packets, nothing that
a node does touches the messages in reassembly, except that some become too old:
`Node.act_ages`, `Node.close_ages`.
-/

namespace ClusterOverlay

namespace Listeners

variable {listeners : Listeners}

/-- What the listeners get of a whole packet that has arrived. -/
def receives (listeners : Listeners) (packet : Packet) : List Delivery :=
  if packet.channel = .networking then
    match packet.content with
    | .data => listeners.dispatch .networking packet.payload
    | .coalesced => listeners.dispatchBatch packet.payload
    | _ => []
  else
    listeners.dispatch packet.channel packet.payload

/-- Unless it is a message of the membership protocol, a packet that has arrived goes to
the same listeners as a payload that need not travel. -/
theorem receives_eq_deliver {packet : Packet} {envelope : Envelope}
    (channelEq : packet.channel = envelope.channel) (contentEq : packet.content = envelope.content)
    (kind : envelope.content = .data ∨ envelope.content = .coalesced) :
    listeners.receives packet = listeners.deliver envelope packet.payload := by
  unfold receives deliver
  rw [channelEq, contentEq]
  by_cases networking : envelope.channel = .networking
  · rcases kind with data | coalesced
    · simp [networking, data]
    · simp [networking, coalesced]
  · simp [networking]

end Listeners

theorem Table.keep_keep {κ υ : Type} (table : Table κ υ) (test : υ → Bool) :
    (table.keep test).keep test = table.keep test := by
  simp [keep, List.filter_filter]

namespace Reassembly

/-- Nothing has happened between the two, except that what was too old at the time may
have been forgotten. -/
def Ages (now : Nat) (former latter : Reassembly) : Prop :=
  latter = former ∨ latter = former.evict now

namespace Ages

variable {now : Nat} {former middle latter : Reassembly}

theorem refl (now : Nat) (reassembly : Reassembly) : Ages now reassembly reassembly :=
  .inl rfl

theorem evict_evict (reassembly : Reassembly) (now : Nat) :
    (reassembly.evict now).evict now = reassembly.evict now :=
  congrArg (Reassembly.mk reassembly.ttl)
    (reassembly.messages.keep_keep fun message => now - message.startedAt < reassembly.ttl)

theorem trans (first : Ages now former middle) (second : Ages now middle latter) :
    Ages now former latter := by
  rcases second with rfl | rfl
  · exact first
  · rcases first with rfl | rfl
    · exact .inr rfl
    · exact .inr (evict_evict former now)

end Ages

/-- Bytes that are a packet are put before a reassembly as the packet. -/
theorem answer_bytes {raw : Bytes} {packet : Packet} (reassembly : Reassembly) (now : Nat)
    (sender : Endpoint) (read : Packet.decode raw = .ok packet) :
    reassembly.answer (.bytes now sender raw) = reassembly.accept now sender packet := by
  simp only [answer, acceptRaw, read]

end Reassembly

namespace Node

open Reassembly (Ages)

variable {node : Node} {now : Nat} {sender : Endpoint} {raw : Bytes} {packet : Packet}

/-! ## Messages and packets -/

theorem reconcile_keeps (node : Node) (now : Nat) :
    (node.reconcile now).reassembly = node.reassembly ∧
      (node.reconcile now).delivered = node.delivered := by
  obtain ⟨_, _, reconciled⟩ := node.exists_reconcile_eq now
  rw [reconciled]
  exact ⟨rfl, rfl⟩

theorem perform_keeps (now : Nat) (node : Node) (action : Action) :
    (perform now node action).reassembly = node.reassembly ∧
      (perform now node action).delivered = node.delivered := by
  cases action with
  | reconcile => exact reconcile_keeps node now
  | tell peer message =>
      obtain ⟨outbox, told⟩ := node.toMailroom.exists_tell_eq now peer message
      simp only [perform, inMailroom, told, and_self]
  | refresh | forget | hangUp | stop => exact ⟨rfl, rfl⟩

theorem foldl_perform_keeps (now : Nat) (node : Node) (actions : List Action) :
    (actions.foldl (perform now) node).reassembly = node.reassembly ∧
      (actions.foldl (perform now) node).delivered = node.delivered := by
  induction actions generalizing node with
  | nil => exact ⟨rfl, rfl⟩
  | cons first rest inductionHypothesis =>
      obtain ⟨reassemblyEq, deliveredEq⟩ := perform_keeps now node first
      rw [List.foldl_cons, ← reassemblyEq, ← deliveredEq]
      exact inductionHypothesis (perform now node first)

/-- A reaction neither touches the messages in reassembly nor gives anything to listeners. -/
theorem carryOut_keeps (node : Node) (now : Nat) (reaction : Reaction) :
    (node.carryOut now reaction).reassembly = node.reassembly ∧
      (node.carryOut now reaction).delivered = node.delivered :=
  foldl_perform_keeps now { node with view := reaction.view } reaction.actions

/-- A whole packet goes to the listeners, and is not kept. -/
theorem receive_keeps (node : Node) (now : Nat) (packet : Packet) :
    (node.receive now packet).reassembly = node.reassembly ∧
      (node.receive now packet).delivered = node.delivered ++ node.listeners.receives packet := by
  unfold receive Listeners.receives
  split
  · cases packet.content with
    | data | coalesced => exact ⟨rfl, rfl⟩
    | close | hello | alive | add | remove | network =>
        simp only [List.append_nil]
        split
        · exact carryOut_keeps node now _
        · exact ⟨rfl, rfl⟩
        · exact ⟨rfl, rfl⟩
  · exact ⟨rfl, rfl⟩

/-- A packet for the node goes to its reassembly. -/
theorem accept_reassembly (node : Node) (now : Nat) (sender : Endpoint) (packet : Packet) :
    (node.accept now sender packet).reassembly =
      (node.reassembly.accept now sender packet).2 := by
  unfold accept
  cases node.reassembly.accept now sender packet with
  | mk message reassembly =>
      cases message with
      | none => rfl
      | some message => exact (receive_keeps { node with reassembly } now message).1

/-- The message that a packet for the node completes, if it completes one, goes to the
listeners. -/
theorem accept_delivered (node : Node) (now : Nat) (sender : Endpoint) (packet : Packet) :
    (node.accept now sender packet).delivered =
      node.delivered ++
        (node.reassembly.accept now sender packet).1.toList.flatMap node.listeners.receives := by
  unfold accept
  cases node.reassembly.accept now sender packet with
  | mk message reassembly =>
      cases message with
      | none => exact (List.append_nil _).symm
      | some message =>
          rw [Option.toList_some, List.flatMap_singleton]
          exact (receive_keeps { node with reassembly } now message).2

/-- A packet that reaches a node is put before its reassembly, or is not for it. -/
theorem onPacket_reassembly (node : Node) (now : Nat) (sender : Endpoint) (raw : Bytes) :
    (node.onPacket now sender raw).reassembly = node.reassembly ∨
      (node.onPacket now sender raw).reassembly =
        (node.reassembly.answer (.bytes now sender raw)).2 := by
  obtain ⟨outbox, passed⟩ := node.exists_passOn_eq now (node.view.relays node.role raw)
  rw [onPacket_eq, passed]
  unfold View.accepts?
  cases read : Packet.decode raw with
  | error cause => exact .inl rfl
  | ok packet =>
      rw [Reassembly.answer_bytes _ now sender read]
      simp only
      cases node.view.handle node.role packet with
      | accept | spread => exact .inr (accept_reassembly _ now sender packet)
      | relay | drop => exact .inl rfl

/-! ## What recurs -/

theorem settleTimeouts_reassembly (node : Node) (now : Nat) :
    (node.settleTimeouts now).reassembly = node.reassembly := by
  unfold settleTimeouts
  change _ = ({ node with timeouts := [] } : Node).reassembly
  generalize ({ node with timeouts := [] } : Node) = start
  induction node.timeouts generalizing start with
  | nil => rfl
  | cons first rest inductionHypothesis =>
      rw [List.foldl_cons, inductionHypothesis]
      exact (carryOut_keeps start now _).1

theorem settleNext_reassembly (node : Node) (now : Nat) :
    (node.settleNext now).reassembly = node.reassembly := by
  unfold settleNext
  split
  · rfl
  · exact (carryOut_keeps _ now _).1

theorem maintainIfDue_ages (node : Node) (now : Nat) :
    Ages now node.reassembly (node.maintainIfDue now).reassembly := by
  unfold maintainIfDue
  split
  · split
    · exact .inr rfl
    · exact .refl now _
  · exact .refl now _

theorem attend_ages (node : Node) (now : Nat) :
    Ages now node.reassembly (node.attend now).reassembly := by
  unfold attend
  split
  · rw [← settleTimeouts_reassembly node now]
    exact maintainIfDue_ages _ now
  · exact .refl now _

theorem scanIfDue_reassembly (node : Node) (now : Nat) :
    (node.scanIfDue now).reassembly = node.reassembly := by
  obtain ⟨_, _, scanned⟩ := node.exists_scanIfDue_eq now
  rw [scanned]

theorem drainIfDue_reassembly (node : Node) (now : Nat) :
    (node.drainIfDue now).reassembly = node.reassembly := by
  obtain ⟨_, _, _, _, _, drained⟩ := node.exists_drainIfDue_eq now
  rw [drained]

/-- Of all that recurs, only maintenance touches the messages in reassembly. -/
theorem act_ages (node : Node) (now : Nat) :
    Ages now node.reassembly (node.act now).reassembly := by
  -- maintenance may have its turn among the activities and again after them, at the same time
  have turned : Ages now node.reassembly
      (Activity.inTurn (node.activities now) node).reassembly := by
    let kept (state : Node) : Prop := Ages now node.reassembly state.reassembly
    apply @Activity.inTurn_induction Node kept (node.activities now) _ node (Ages.refl now _)
    intro activity activityMem state ages
    simp only [activities, List.mem_cons, List.not_mem_nil, or_false] at activityMem
    rcases activityMem with rfl | rfl | rfl | rfl
    · exact ages
    · exact ages.trans (state.attend_ages now)
    · change Ages now _ (state.scanIfDue now).reassembly
      rwa [scanIfDue_reassembly]
    · exact ages
  unfold act
  rw [drainIfDue_reassembly]
  exact turned.trans (attend_ages _ now)

theorem close_ages (node : Node) (now : Nat) :
    Ages now node.reassembly (node.close now).reassembly := by
  unfold close
  split
  · have left : (node.leave now).reassembly = node.reassembly :=
      (foldl_perform_keeps now _ _).1
    rw [← left]
    exact act_ages ((node.leave now).windDown now) now
  · exact .refl now _

theorem cancel_reassembly (node : Node) (now : Nat) :
    (node.cancel now).reassembly = node.reassembly := by
  obtain ⟨_, _, _, _, _, ended⟩ := node.exists_cancel_eq now
  rw [ended]

/-- A node begins with nothing in reassembly. -/
theorem start_ages (config : Config) (room : Mailroom) (now : Nat) :
    Ages now (.empty (milliseconds config.liveness.reassemblyTtl))
      ((create config room).start now).reassembly := by
  let waking : Node :=
    { create config room with maintenance := some (Ticker.starting now maintenanceInterval) }
  have kept : ((waking.assume now room.view.role).reconcile now).reassembly =
      .empty (milliseconds config.liveness.reassemblyTtl) :=
    (reconcile_keeps _ now).1
  rw [← kept]
  exact act_ages _ now

end Node

end ClusterOverlay
