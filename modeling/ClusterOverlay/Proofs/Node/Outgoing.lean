import ClusterOverlay.Proofs.Node.Events
import ClusterOverlay.Proofs.Outbox
import ClusterOverlay.Proofs.Packet
import ClusterOverlay.Proofs.Routing.Broadcast

/-!
# What enters an outbox

Whatever a node does, an outbox only gains: `Outbox.Gains` says which items may wait
afterwards that did not wait before.  To send a payload adds fragments that carry it, to
pass a packet on adds this packet.  So of the packets that a node deals with, the outbox
gains those that the node relays and what the reaction tells, `Node.gains_onPacket`; of a
beat it gains what is told then, `Mailroom.gains_beat`; and of a node that leaves, batches
and what it says on leaving, `Node.gains_leave`.
-/

namespace ClusterOverlay

/-! ## Items -/

namespace Scheduled

/-- The item is a fragment, with at most so many bytes of payload, of a packet that carries
the payload in the envelope. -/
def Carries (item : Scheduled) (limit : Nat) (payload : Bytes) (envelope : Envelope) : Prop :=
  ∃ endpoint route messageId,
    ∃ fragment ∈ (Outbox.packet payload endpoint route envelope).fragments limit messageId,
      item.packet = fragment.encode

/-- The item is a fragment of a packet that carries the message. -/
def Conveys (item : Scheduled) (limit : Nat) (message : Control) : Prop :=
  ∃ payload, message.encode = .ok payload ∧ item.Carries limit payload (.control message.content)

end Scheduled

/-! ## Outboxes -/

namespace Outbox

/-- Whatever waits in the second outbox waits in the first or is new in the given way, and
both cut payloads alike. -/
structure Gains (former : Outbox) (new : Scheduled → Prop) (latter : Outbox) : Prop where
  limitEq : latter.maxPayload = former.maxPayload
  waiting : ∀ item ∈ latter.schedule.waiting, item ∈ former.schedule.waiting ∨ new item

namespace Gains

variable {former middle latter : Outbox} {new few : Scheduled → Prop}

theorem refl (outbox : Outbox) (new : Scheduled → Prop) : outbox.Gains new outbox :=
  ⟨rfl, fun _ => .inl⟩

theorem trans (first : former.Gains new middle) (second : middle.Gains new latter) :
    former.Gains new latter := by
  refine ⟨second.limitEq.trans first.limitEq, fun item waits => ?_⟩
  rcases second.waiting item waits with earlier | fresh
  · exact first.waiting item earlier
  · exact .inr fresh

theorem mono (gains : former.Gains few latter) (implies : ∀ item, few item → new item) :
    former.Gains new latter :=
  ⟨gains.limitEq, fun item waits => (gains.waiting item waits).imp_right (implies item)⟩

end Gains

/-- Of one thing after another, an outbox gains what it gains of each. -/
theorem gains_foldl {σ ι : Type} (outboxOf : σ → Outbox) {step : σ → ι → σ} {limit : Nat}
    (new : ι → Scheduled → Prop)
    (each : ∀ state item, (outboxOf state).maxPayload = limit →
      (outboxOf state).Gains (new item) (outboxOf (step state item)))
    (items : List ι) (state : σ) (limitEq : (outboxOf state).maxPayload = limit) :
    (outboxOf state).Gains (fun waiting => ∃ item ∈ items, new item waiting)
      (outboxOf (items.foldl step state)) := by
  induction items generalizing state with
  | nil => exact .refl _ _
  | cons item later inductionHypothesis =>
      have first := each state item limitEq
      have rest := inductionHypothesis (step state item) (first.limitEq.trans limitEq)
      refine (first.mono ?_).trans (rest.mono ?_)
      · intro waiting isNew
        exact ⟨item, List.mem_cons_self, isNew⟩
      · rintro waiting ⟨other, otherMem, isNew⟩
        exact ⟨other, List.mem_cons_of_mem _ otherMem, isNew⟩

theorem gains_sendVia {outbox after : Outbox} {resolver : Resolver} {now : Nat} {payload : Bytes}
    {destination nextHop : Peer} {route : Route} {envelope : Envelope}
    (sent : outbox.sendVia resolver now payload destination nextHop route envelope = .ok after) :
    outbox.Gains (fun item => item.nextHop = nextHop ∧
      item.Carries outbox.maxPayload payload envelope) after := by
  obtain ⟨endpoint, _, rfl⟩ := exists_of_map_eq_ok sent
  refine ⟨rfl, fun item waits => ?_⟩
  rw [(Schedule.waiting_foldl_put_perm _ now nextHop _).mem_iff, List.mem_append,
    List.mem_map] at waits
  refine waits.imp_right ?_
  rintro ⟨fragment, fragmentMem, rfl⟩
  exact ⟨rfl, endpoint, route, outbox.nextId, fragment, fragmentMem, rfl⟩

theorem gains_forward {outbox after : Outbox} {now : Nat} {raw : Bytes} {nextHop : Peer}
    (passed : outbox.forward now raw nextHop = .ok after) :
    outbox.Gains (· = ⟨nextHop, raw⟩) after := by
  obtain ⟨schedule, added, rfl⟩ := exists_of_map_eq_ok passed
  obtain ⟨band, _, rfl⟩ := Schedule.add_eq_ok_iff.mp added
  refine ⟨rfl, fun item waits => ?_⟩
  rw [(outbox.schedule.waiting_advance_append_perm now band _).mem_iff, List.mem_cons] at waits
  exact waits.symm

/-- What leaves an outbox makes room for nothing. -/
theorem gains_drain (outbox : Outbox) (now : Nat) (new : Scheduled → Prop) :
    outbox.Gains new (outbox.drain now).2 :=
  ⟨rfl, fun _ waits => .inl ((outbox.schedule.waiting_drain_perm now _).subset
    (List.mem_append_right _ waits))⟩

end Outbox

/-! ## Mailrooms -/

namespace Mailroom

theorem gains_send {room after : Mailroom} {now : Nat} {payload : Bytes} {peer : Peer}
    {envelope : Envelope} (sent : room.send now payload peer envelope = .ok after) :
    room.outbox.Gains (·.Carries room.outbox.maxPayload payload envelope) after.outbox := by
  obtain ⟨_, ⟨_, rfl⟩ | ⟨_, _, _, _, routed, rfl⟩⟩ := send_eq_ok_cases sent
  · exact .refl _ _
  · exact (Outbox.gains_sendVia routed).mono fun _ => And.right

theorem gains_sendDirect {room after : Mailroom} {now : Nat} {payload : Bytes} {peer : Peer}
    {route : Route} {envelope : Envelope}
    (sent : room.sendDirect now payload peer route envelope = .ok after) :
    room.outbox.Gains (fun item => item.nextHop = peer ∧
      item.Carries room.outbox.maxPayload payload envelope) after.outbox := by
  obtain ⟨outbox, posted, rfl⟩ := exists_of_map_eq_ok sent
  exact Outbox.gains_sendVia posted

theorem gains_tell (room : Mailroom) (now : Nat) (peer : Peer) (message : Control) :
    room.outbox.Gains (fun item => item.nextHop = peer ∧
      item.Conveys room.outbox.maxPayload message) (room.tell now peer message).outbox := by
  unfold tell
  cases told : room.sendMessage now peer message with
  | error cause => exact .refl _ _
  | ok after =>
      obtain ⟨payload, written, sent⟩ := exists_of_bind_eq_ok told
      exact (gains_sendDirect sent).mono
        fun item ⟨nextHopEq, carries⟩ => ⟨nextHopEq, payload, written, carries⟩

theorem gains_forward (room : Mailroom) (now : Nat) (raw : Bytes) (nextHop : Peer) :
    room.outbox.Gains (· = ⟨nextHop, raw⟩)
      ((room.forward now raw nextHop).toOption.getD room).outbox := by
  cases passed : room.forward now raw nextHop with
  | error cause => exact .refl _ _
  | ok after =>
      obtain ⟨outbox, forwarded, rfl⟩ := exists_of_map_eq_ok passed
      exact Outbox.gains_forward forwarded

theorem gains_sendBatches (room : Mailroom) (now : Nat) (parcels : List Parcel) :
    room.outbox.Gains (fun item =>
      ∃ payload, item.Carries room.outbox.maxPayload payload .coalesced)
      (room.sendBatches now parcels).outbox := by
  refine (Outbox.gains_foldl Mailroom.outbox (fun parcel item =>
    item.Carries room.outbox.maxPayload parcel.payload .coalesced) ?_ parcels room rfl).mono ?_
  · intro state parcel limitEq
    rw [← limitEq]
    cases sent : state.sendBatch now parcel with
    | error cause => exact .refl _ _
    | ok after => exact gains_send sent
  · rintro item ⟨parcel, _, carries⟩
    exact ⟨parcel.payload, carries⟩

theorem gains_flushAged (room : Mailroom) (now : Nat) :
    room.outbox.Gains (fun item =>
      ∃ payload, item.Carries room.outbox.maxPayload payload .coalesced)
      (room.flushAged now).outbox :=
  gains_sendBatches { room with batcher := (room.batcher.flushAged now).2 } now _

theorem gains_flushAll (room : Mailroom) (now : Nat) :
    room.outbox.Gains (fun item =>
      ∃ payload, item.Carries room.outbox.maxPayload payload .coalesced)
      (room.flushAll now).outbox :=
  gains_sendBatches { room with batcher := room.batcher.flushAll.2 } now _

/-- Of a beat, the outbox gains what is to be told then. -/
theorem gains_beat (room : Mailroom) (now : Nat) :
    room.outbox.Gains (fun item => ∃ message, room.view.beat = some (message, item.nextHop) ∧
      item.Conveys room.outbox.maxPayload message) (room.beat now).outbox := by
  unfold beat
  split
  · next message peer beats =>
      refine (room.gains_tell now peer message).mono ?_
      rintro item ⟨rfl, conveys⟩
      exact ⟨message, beats, conveys⟩
  · exact .refl _ _

end Mailroom

/-! ## Nodes -/

namespace Node

variable {node : Node}

theorem gains_passOn (node : Node) (now : Nat) (packets : List (Peer × Bytes)) :
    node.outbox.Gains (fun item => (item.nextHop, item.packet) ∈ packets)
      (node.passOn now packets).outbox := by
  refine (Outbox.gains_foldl (·.outbox) (fun packet item => item = ⟨packet.1, packet.2⟩)
    ?_ packets node rfl).mono ?_
  · intro state packet _
    exact state.toMailroom.gains_forward now packet.2 packet.1
  · rintro item ⟨packet, packetMem, rfl⟩
    exact packetMem

theorem gains_perform (now : Nat) (node : Node) (action : Action) :
    node.outbox.Gains (fun item => ∃ message, action = .tell item.nextHop message ∧
      item.Conveys node.outbox.maxPayload message) (perform now node action).outbox := by
  cases action with
  | tell peer message =>
      refine (node.toMailroom.gains_tell now peer message).mono ?_
      rintro item ⟨rfl, conveys⟩
      exact ⟨message, rfl, conveys⟩
  | reconcile =>
      simp only [perform, reconcile]
      split <;> exact .refl _ _
  | refresh | forget | hangUp | stop => exact .refl _ _

/-- Of actions, an outbox gains what they tell. -/
theorem gains_foldl_perform (now : Nat) (node : Node) (actions : List Action) :
    node.outbox.Gains (fun item => ∃ message, .tell item.nextHop message ∈ actions ∧
      item.Conveys node.outbox.maxPayload message) (actions.foldl (perform now) node).outbox := by
  refine (Outbox.gains_foldl (·.outbox) (fun action item => ∃ message,
    action = .tell item.nextHop message ∧ item.Conveys node.outbox.maxPayload message)
    ?_ actions node rfl).mono ?_
  · intro state action limitEq
    rw [← limitEq]
    exact gains_perform now state action
  · rintro item ⟨action, actionMem, message, rfl, conveys⟩
    exact ⟨message, actionMem, conveys⟩

theorem gains_carryOut (node : Node) (now : Nat) (reaction : Reaction) :
    node.outbox.Gains (fun item => ∃ message, .tell item.nextHop message ∈ reaction.actions ∧
      item.Conveys node.outbox.maxPayload message) (node.carryOut now reaction).outbox :=
  gains_foldl_perform now { node with view := reaction.view } reaction.actions

/-- Of bytes that reach a node, the outbox gains the packets that the node relays and what
the reaction to the message tells. -/
theorem gains_onPacket (node : Node) (now : Nat) (sender : Endpoint) (raw : Bytes) :
    node.outbox.Gains (fun item =>
        (item.nextHop, item.packet) ∈ node.view.relays node.role raw ∨
        ∃ heard message, node.heard? now sender raw = some heard ∧
          .tell item.nextHop message ∈ (node.view.react node.role heard).actions ∧
          item.Conveys node.outbox.maxPayload message)
      (node.onPacket now sender raw).outbox := by
  obtain ⟨outbox, passed⟩ := node.exists_passOn_eq now (node.view.relays node.role raw)
  have relayed := node.gains_passOn now (node.view.relays node.role raw)
  rw [passed] at relayed
  rw [onPacket_eq, passed, heard?]
  cases node.view.accepts? node.role raw with
  | none => exact relayed.mono fun _ => .inl
  | some packet =>
      obtain ⟨delivered, reassembly, accepted⟩ :=
        exists_accept_eq { node with outbox } now sender packet
      refine (relayed.mono fun _ => .inl).trans ?_
      simp only [Option.bind_some]
      change Outbox.Gains outbox _ (({ node with outbox } : Node).accept now sender packet).outbox
      rw [accepted]
      cases heard : (node.reassembly.accept now sender packet).1.bind Packet.control? with
      | none =>
          exact .refl _ _
      | some message =>
          have told := gains_carryOut { node with outbox, delivered, reassembly } now
            (node.view.react node.role message)
          refine told.mono ?_
          rintro item ⟨answer, answerMem, conveys⟩
          exact .inr ⟨message, answer, rfl, answerMem, relayed.limitEq ▸ conveys⟩

/-- Of a node that leaves, the outbox gains the batches and what the node says on leaving. -/
theorem gains_leave (node : Node) (now : Nat) :
    node.outbox.Gains (fun item =>
        (∃ payload, item.Carries node.outbox.maxPayload payload .coalesced) ∨
        ∃ message, .tell item.nextHop message ∈ node.view.farewell node.role ∧
          item.Conveys node.outbox.maxPayload message)
      (node.leave now).outbox := by
  have flushed : node.outbox.Gains _ (node.inMailroom (·.flushAll now)).outbox :=
    node.toMailroom.gains_flushAll now
  have said := gains_foldl_perform now (node.inMailroom (·.flushAll now))
    (node.view.farewell node.role)
  rw [flushed.limitEq] at said
  rw [leave_eq]
  exact (flushed.mono fun _ => .inl).trans (said.mono fun _ => .inr)

end Node

end ClusterOverlay
