import ClusterOverlay.Mailroom
import ClusterOverlay.Proofs.Membership.Following
import ClusterOverlay.Proofs.Packet
import ClusterOverlay.Proofs.Peer
import ClusterOverlay.Proofs.Reassembly.Shipment
import ClusterOverlay.Proofs.Schedule.Lanes

/-!
# Sends, step by step

A send looks at the priority, chooses a route, resolves the name of the destination, takes an
id, cuts the payload, and schedules the fragments one after another.  Each of these steps may
end it.  `Mailroom.post` makes them in this order, and what was done before a step that fails
stays done.

Nothing has been done, though: after the id is taken nothing fails, since a schedule refuses no
fragment that was just written, `Schedule.addEach_encode`.  So the steps come to what
`Mailroom.send` says, `Mailroom.post_eq_send`.  And no boundary falls between two fragments,
`Schedule.advance_append_advance`: they stand side by side at the end of one queue.
`Mailroom.send_all_or_nothing` puts this together.
-/

namespace ClusterOverlay

/-! ## Packets that enter a schedule together -/

/-- A packet as it waits on its way to a peer. -/
def Packet.toward (packet : Packet) (nextHop : Peer) : Scheduled :=
  ⟨nextHop, packet.encode⟩

namespace Schedule

/-- Accept packets for a peer one after another, up to the first that is refused. -/
def addEach (schedule : Schedule) (now : Nat) (nextHop : Peer) :
    List Bytes → Except CodecError Unit × Schedule
  | [] => (.ok (), schedule)
  | raw :: later =>
      match schedule.add now nextHop raw with
      | .ok schedule => schedule.addEach now nextHop later
      | .error cause => (.error cause, schedule)

/-- Put packets at the end of the queue that those of a band enter, in order. -/
def extend (schedule : Schedule) (band : Band) (items : List Scheduled) : Schedule :=
  match band with
  | .highest => { schedule with highest := schedule.highest ++ items }
  | .high => { schedule with high := schedule.high ++ items }
  | .low => { schedule with low := { schedule.low with first := schedule.low.first ++ items } }

variable {schedule : Schedule} {now : Nat} {band : Band}

theorem extend_nil : schedule.extend band [] = schedule := by
  cases band <;> simp [extend]

theorem append_extend (item : Scheduled) (items : List Scheduled) :
    (schedule.append band item).extend band items = schedule.extend band (item :: items) := by
  cases band <;> simp [append, extend]

/-- Of packets that were just written, none is refused. -/
theorem addEach_encode (schedule : Schedule) (now : Nat) (nextHop : Peer)
    (packets : List Packet) :
    schedule.addEach now nextHop (packets.map Packet.encode) =
      (.ok (),
        packets.foldl (fun schedule packet => schedule.put now nextHop packet) schedule) := by
  induction packets generalizing schedule with
  | nil => rfl
  | cons packet later inductionHypothesis =>
      rw [List.map_cons, addEach, add_encode]
      exact inductionHypothesis _

/-! ### Boundaries between two packets -/

/-- A boundary that was taken into account lies back by what is left of the time. -/
theorem sub_sub_mod (now start period : Nat) :
    now - (now - (now - start) % period) = (now - start) % period :=
  Nat.sub_sub_self (Nat.le_trans (Nat.mod_le _ _) (Nat.sub_le _ _))

/-- Packets have nothing to do with the budgets. -/
theorem renew_append (item : Scheduled) :
    (schedule.append band item).renew now = (schedule.renew now).append band item := by
  by_cases due : schedule.epoch ≤ now - schedule.epochStart
  · rw [renew_of_due due]
    cases band <;> exact renew_of_due due
  · rw [renew_of_not_due due]
    cases band <;> exact renew_of_not_due due

/-- Neither have rotations. -/
theorem renew_rotate_now : (schedule.rotate now).renew now = (schedule.renew now).rotate now := by
  simp only [renew, rotate]
  split <;> split <;> rfl

/-- Budgets that were restored are not restored again. -/
theorem renew_renew_now : (schedule.renew now).renew now = schedule.renew now := by
  by_cases due : schedule.epoch ≤ now - schedule.epochStart
  · rw [renew_of_due due]
    simp only [renew, sub_sub_mod, Nat.mod_mod]
    split <;> rfl
  · rw [renew_of_not_due due, renew_of_not_due due]

/-- Without a whole rotation since the last boundary nothing turns.  Only rotations that take
no time are due all the same. -/
theorem rotate_of_started (past : schedule.rotationStart ≤ now)
    (started : (now - schedule.rotationStart) % schedule.rotation =
      now - schedule.rotationStart) : schedule.rotate now = schedule := by
  by_cases due : schedule.rotation ≤ now - schedule.rotationStart
  · have turns : (now - schedule.rotationStart) / schedule.rotation = 0 := by
      rcases Nat.eq_zero_or_pos schedule.rotation with zero | positive
      · rw [zero, Nat.div_zero]
      · have early := Nat.mod_lt (now - schedule.rotationStart) positive
        rw [started] at early
        exact Nat.div_eq_of_lt early
    rw [rotate_of_due due, turns, started, Nat.sub_sub_self past]
    rfl
  · exact rotate_of_not_due due

/-- A packet that comes after a rotation is not moved by it. -/
theorem rotate_append_rotate (item : Scheduled) :
    ((schedule.rotate now).append band item).rotate now =
      (schedule.rotate now).append band item := by
  by_cases due : schedule.rotation ≤ now - schedule.rotationStart
  · have started :
        (now - (now - (now - schedule.rotationStart) % schedule.rotation)) % schedule.rotation =
          now - (now - (now - schedule.rotationStart) % schedule.rotation) := by
      rw [sub_sub_mod, Nat.mod_mod]
    rw [rotate_of_due due]
    cases band <;> exact rotate_of_started (Nat.sub_le _ _) started
  · rw [rotate_of_not_due due]
    cases band <;> exact rotate_of_not_due due

/-- Between two packets that come at one time no boundary is due. -/
theorem advance_append_advance (item : Scheduled) :
    ((schedule.advance now).append band item).advance now =
      (schedule.advance now).append band item := by
  rw [advance, advance, renew_append, renew_rotate_now, renew_renew_now, rotate_append_rotate]

/-- Packets of one band that come when no boundary is due stand side by side. -/
theorem foldl_put_of_current (current : schedule.advance now = schedule) (nextHop : Peer)
    {packets : List Packet} (same : ∀ packet ∈ packets, Band.ofPriority packet.priority = band) :
    packets.foldl (fun schedule packet => schedule.put now nextHop packet) schedule =
      schedule.extend band (packets.map fun packet => packet.toward nextHop) := by
  induction packets generalizing schedule with
  | nil => exact extend_nil.symm
  | cons packet later inductionHypothesis =>
      have bandEq := same packet List.mem_cons_self
      have still : ((schedule.advance now).append band (packet.toward nextHop)).advance now =
          (schedule.advance now).append band (packet.toward nextHop) :=
        advance_append_advance _
      rw [current] at still
      rw [List.foldl_cons, put, bandEq, current, ← Packet.toward,
        inductionHypothesis still
          fun other otherMem => same other (List.mem_cons_of_mem _ otherMem),
        append_extend, List.map_cons]

/-- Packets of one band that come together stand side by side, behind all that is due. -/
theorem foldl_put (nextHop : Peer) {packets : List Packet} (any : packets ≠ [])
    (same : ∀ packet ∈ packets, Band.ofPriority packet.priority = band) :
    packets.foldl (fun schedule packet => schedule.put now nextHop packet) schedule =
      (schedule.advance now).extend band (packets.map fun packet => packet.toward nextHop) := by
  cases packets with
  | nil => contradiction
  | cons packet later =>
      have bandEq := same packet List.mem_cons_self
      rw [List.foldl_cons, put, bandEq, ← Packet.toward,
        foldl_put_of_current (advance_append_advance _) nextHop
          fun other otherMem => same other (List.mem_cons_of_mem _ otherMem),
        append_extend, List.map_cons]

/-- Packets that come together are added to those that wait. -/
theorem waiting_foldl_put_perm (schedule : Schedule) (now : Nat) (nextHop : Peer)
    (packets : List Packet) :
    (packets.foldl (fun schedule packet => schedule.put now nextHop packet)
        schedule).waiting.Perm
      (schedule.waiting ++ packets.map fun packet => packet.toward nextHop) := by
  induction packets generalizing schedule with
  | nil => simp
  | cons first rest inductionHypothesis =>
      rw [List.foldl_cons, List.map_cons]
      refine (inductionHypothesis _).trans (List.Perm.trans ?_ List.perm_middle.symm)
      exact (schedule.waiting_advance_append_perm now _ _).append_right _

end Schedule

/-! ## Pieces of a payload -/

namespace Packet

/-- Number of pieces of a payload: as many as there are full ones, and one more for what is
left.  A limit of zero counts as one, and the empty payload has a piece. -/
def pieceCount (limit : Nat) (payload : Bytes) : Nat :=
  max 1 ((payload.length + (max limit 1 - 1)) / max limit 1)

theorem length_slices (limit : Nat) (payload : Bytes) :
    (slices limit payload).length = pieceCount limit payload := by
  have positive : 0 < max limit 1 := by omega
  unfold pieceCount
  fun_induction slices limit payload with
  | case1 payload short =>
      have atMostOne : (payload.length + (max limit 1 - 1)) / max limit 1 ≤ 1 := by
        apply Nat.le_of_lt_succ
        rw [Nat.div_lt_iff_lt_mul positive]
        omega
      rw [List.length_singleton, Nat.max_eq_left atMostOne]
  | case2 payload long inductionHypothesis =>
      have oneMore : payload.length + (max limit 1 - 1) =
          payload.length - 1 + max limit 1 := by omega
      have rest : payload.length - max limit 1 + (max limit 1 - 1) = payload.length - 1 := by omega
      have left : 1 ≤ (payload.length - 1) / max limit 1 := by
        rw [Nat.le_div_iff_mul_le positive]
        omega
      rw [List.length_cons, inductionHypothesis, List.length_drop, rest, oneMore,
        Nat.add_div_right _ positive, Nat.max_eq_right left, Nat.max_eq_right (Nat.le_add_left 1 _)]

/-- The packet is the piece of a message at a position, on its way to a destination. -/
structure IsPiece (packet : Packet) (envelope : Envelope) (route : Route)
    (destination : Endpoint) (messageId : UInt32) (position count : Nat) : Prop where
  route_eq : packet.route = route
  priority_eq : packet.priority.val = envelope.priority
  channel_eq : packet.channel = envelope.channel
  content_eq : packet.content = envelope.content
  broadcast_eq : packet.broadcast = envelope.broadcast
  destination_eq : packet.destination = destination
  messageId_eq : packet.messageId = messageId
  index_eq : packet.index.toNat = position
  count_eq : packet.count.toNat = count

/-- The fragments of a payload are its pieces, in order. -/
theorem isPiece_of_getElem? {payload : Bytes} {destination : Endpoint} {route : Route}
    {envelope : Envelope} {limit position : Nat} {messageId : UInt32} {fragment : Packet}
    (valid : envelope.priority ≤ 7) (few : pieceCount limit payload < UInt32.size)
    (found : ((Outbox.packet payload destination route envelope).fragments limit
      messageId)[position]? = some fragment) :
    fragment.IsPiece envelope route destination messageId position (pieceCount limit payload) := by
  rw [fragments, List.getElem?_mapIdx, Option.map_eq_some_iff] at found
  rcases found with ⟨piece, pieceFound, rfl⟩
  have bound := (List.getElem?_eq_some_iff.mp pieceFound).1
  rw [length_slices] at bound
  exact {
    route_eq := rfl
    priority_eq := Nat.mod_eq_of_lt (Nat.lt_succ_of_le valid)
    channel_eq := rfl
    content_eq := rfl
    broadcast_eq := rfl
    destination_eq := rfl
    messageId_eq := rfl
    index_eq := Nat.mod_eq_of_lt (Nat.lt_trans bound few)
    count_eq := by
      rw [length_slices]
      exact Nat.mod_eq_of_lt few }

@[simp]
theorem length_fragments (packet : Packet) (limit : Nat) (messageId : UInt32) :
    (packet.fragments limit messageId).length = pieceCount limit packet.payload := by
  rw [fragments, List.length_mapIdx, length_slices]

/-- The fragments of a packet carry its whole payload. -/
theorem flatten_payload_fragments (packet : Packet) (limit : Nat) (messageId : UInt32) :
    ((packet.fragments limit messageId).map payload).flatten = packet.payload := by
  have pieces : (packet.fragments limit messageId).map payload = slices limit packet.payload := by
    apply List.ext_getElem
    · simp [fragments]
    · intro index _ _
      simp [fragments]
  rw [pieces]
  exact flatten_slices limit packet.payload

/-- Packets that were written are read again. -/
theorem map_decode_toward (packets : List Packet) (nextHop : Peer) :
    (packets.map (·.toward nextHop)).map (fun item => decode item.packet) = packets.map .ok := by
  rw [List.map_map]
  apply List.map_congr_left
  intro packet _
  exact packet.decode_encode

end Packet

/-! ## Sending step by step -/

/-- The band of what is sent under an envelope. -/
def Envelope.band (envelope : Envelope) : Band :=
  if envelope.priority = 0 then .highest else if envelope.priority = 1 then .high else .low

theorem Envelope.band_packet {envelope : Envelope} (valid : envelope.priority ≤ 7)
    (payload : Bytes) (destination : Endpoint) (route : Route) :
    Band.ofPriority (Outbox.packet payload destination route envelope).priority =
      envelope.band := by
  have within : envelope.priority % 8 = envelope.priority :=
    Nat.mod_eq_of_lt (Nat.lt_succ_of_le valid)
  simp only [Band.ofPriority, Outbox.packet, within, band]

namespace Outbox

/-- Take the id of the next message. -/
def takeId (outbox : Outbox) : UInt32 × Outbox :=
  (outbox.nextId, { outbox with nextId := outbox.nextId + 1 })

/-- Schedule a payload for a destination step by step: resolve its name, take an id, and hand
the written fragments to the schedule. -/
def postVia (outbox : Outbox) (resolver : Resolver) (now : Nat) (payload : Bytes)
    (destination nextHop : Peer) (route : Route) (envelope : Envelope) :
    Except CodecError Unit × Outbox :=
  match destination.endpoint resolver with
  | .error cause => (.error cause, outbox)
  | .ok endpoint =>
      let (messageId, outbox) := outbox.takeId
      let fragments :=
        (packet payload endpoint route envelope).fragments outbox.maxPayload messageId
      let (outcome, schedule) :=
        outbox.schedule.addEach now nextHop (fragments.map Packet.encode)
      (outcome, { outbox with schedule })

variable {outbox : Outbox} {resolver : Resolver} {now : Nat} {payload : Bytes}
  {destination nextHop : Peer} {route : Route} {envelope : Envelope}

/-- The steps come to all or nothing. -/
theorem postVia_eq_sendVia :
    outbox.postVia resolver now payload destination nextHop route envelope =
      ((outbox.sendVia resolver now payload destination nextHop route envelope).map fun _ => (),
        (outbox.sendVia resolver now payload destination nextHop route envelope).toOption.getD
          outbox) := by
  unfold postVia sendVia
  cases destination.endpoint resolver with
  | error cause => rfl
  | ok endpoint =>
      simp only [takeId, Schedule.addEach_encode]
      rfl

/-- The items are the pieces of a payload that an outbox is about to send, in order, on their
way to a destination. -/
structure Pieces (outbox : Outbox) (payload : Bytes) (envelope : Envelope) (route : Route)
    (nextHop : Peer) (destination : Endpoint) (items : List Scheduled) : Prop where
  length_eq : items.length = Packet.pieceCount outbox.maxPayload payload
  nextHop_eq : ∀ item ∈ items, item.nextHop = nextHop
  exists_packets : ∃ packets : List Packet,
    items.map (fun item => Packet.decode item.packet) = packets.map .ok ∧
    (∀ (position : Nat) (packet : Packet), packets[position]? = some packet →
      packet.IsPiece envelope route destination outbox.nextId position items.length) ∧
    (packets.map Packet.payload).flatten = payload

/-- What is scheduled are the pieces of the payload, side by side at the end of a queue. -/
theorem exists_pieces_of_sendVia {after : Outbox} (valid : envelope.priority ≤ 7)
    (few : Packet.pieceCount outbox.maxPayload payload < UInt32.size)
    (sent : outbox.sendVia resolver now payload destination nextHop route envelope = .ok after) :
    ∃ endpoint items, destination.endpoint resolver = .ok endpoint ∧
      outbox.Pieces payload envelope route nextHop endpoint items ∧
      after = { outbox with
        nextId := outbox.nextId + 1
        schedule := (outbox.schedule.advance now).extend envelope.band items } := by
  rcases exists_of_map_eq_ok sent with ⟨endpoint, endpointEq, rfl⟩
  let whole := packet payload endpoint route envelope
  let fragments := whole.fragments outbox.maxPayload outbox.nextId
  have lengthEq : fragments.length = Packet.pieceCount outbox.maxPayload payload :=
    whole.length_fragments _ _
  refine ⟨endpoint, fragments.map (·.toward nextHop), endpointEq,
    ⟨?_, ?_, fragments, Packet.map_decode_toward _ _, ?_, whole.flatten_payload_fragments _ _⟩, ?_⟩
  · rw [List.length_map, lengthEq]
  · intro item itemMem
    rcases List.mem_map.mp itemMem with ⟨fragment, _, rfl⟩
    rfl
  · intro position fragment found
    rw [List.length_map, lengthEq]
    exact Packet.isPiece_of_getElem? valid few found
  · have any : fragments ≠ [] := by
      apply List.ne_nil_of_length_pos
      rw [lengthEq, ← Packet.length_slices]
      exact Packet.length_slices_pos _ _
    have same : ∀ fragment ∈ fragments, Band.ofPriority fragment.priority = envelope.band := by
      intro fragment fragmentMem
      rcases Packet.mem_fragments_iff.mp fragmentMem with ⟨position, piece, _, rfl⟩
      exact Envelope.band_packet valid payload endpoint route
    rw [← Schedule.foldl_put nextHop any same]

end Outbox

/-- A node keeps only what is for itself. -/
theorem View.plan_eq_stay_iff {view : View} {peer : Peer} :
    view.plan peer = .stay ↔ peer = view.self := by
  unfold plan
  constructor
  · intro stays
    split at stays
    · assumption
    · split at stays
      · contradiction
      · split at stays
        · split at stays <;> contradiction
        · contradiction
  · exact fun isSelf => if_pos isSelf

namespace Mailroom

/-- Send a payload to a peer step by step: look at the priority, choose a route, and schedule
the payload, or give it out here. -/
def post (room : Mailroom) (now : Nat) (payload : Bytes) (peer : Peer) (envelope : Envelope) :
    Except SendError Unit × Mailroom :=
  if 7 < envelope.priority then
    (.error (.invalidPriority envelope.priority), room)
  else
    match room.view.plan peer with
    | .stay => (.ok (), room.deliver (room.listeners.deliver envelope payload))
    | .noRoute => (.error (.noRoute peer), room)
    | .send route nextHop =>
        let (outcome, outbox) :=
          room.outbox.postVia room.resolver now payload peer nextHop route envelope
        (outcome.mapError .codec, { room with outbox })

theorem deliver_nil (room : Mailroom) : room.deliver [] = room := by
  rw [deliver, List.append_nil]

variable {room : Mailroom} {now : Nat} {payload : Bytes} {peer : Peer} {envelope : Envelope}

/-- The steps come to what `send` says: an attempt that fails leaves the mailroom as it was. -/
theorem post_eq_send :
    room.post now payload peer envelope =
      ((room.send now payload peer envelope).map fun _ => (),
        (room.send now payload peer envelope).toOption.getD room) := by
  unfold post send Outbox.send
  split
  · rfl
  · cases room.view.plan peer with
    | stay => rfl
    | noRoute => rfl
    | send route nextHop =>
        simp only [Outbox.postVia_eq_sendVia]
        cases room.outbox.sendVia room.resolver now payload peer nextHop route envelope with
        | error cause => rfl
        | ok outbox =>
            simp only [Except.map, deliver_nil]
            rfl

/-- A send that succeeds gives the payload out here, or schedules it. -/
theorem send_eq_ok_cases {after : Mailroom}
    (sent : room.send now payload peer envelope = .ok after) :
    envelope.priority ≤ 7 ∧
      ((peer = room.view.self ∧ after = room.deliver (room.listeners.deliver envelope payload)) ∨
        ∃ route nextHop outbox, room.view.plan peer = .send route nextHop ∧
          room.outbox.sendVia room.resolver now payload peer nextHop route envelope =
            .ok outbox ∧
          after = { room with outbox }) := by
  rcases exists_of_map_eq_ok sent with ⟨⟨deliveries, outbox⟩, posted, rfl⟩
  unfold Outbox.send at posted
  split at posted
  · contradiction
  · next valid =>
      refine ⟨Nat.le_of_not_lt valid, ?_⟩
      split at posted
      · next stays =>
          cases posted
          exact .inl ⟨View.plan_eq_stay_iff.mp stays, rfl⟩
      · contradiction
      · next route nextHop planned =>
          split at posted
          · next outbox routed =>
              cases posted
              exact .inr ⟨route, nextHop, outbox, planned, routed, deliver_nil _⟩
          · contradiction

/-- To send without a relay takes an id, and adds the fragments of the payload to what waits. -/
theorem exists_sendDirect_eq {endpoint : Endpoint}
    (known : peer.endpoint room.resolver = .ok endpoint) (now : Nat) (payload : Bytes)
    (route : Route) (envelope : Envelope) :
    ∃ outbox, room.sendDirect now payload peer route envelope = .ok { room with outbox } ∧
      outbox.maxPayload = room.outbox.maxPayload ∧ outbox.nextId = room.outbox.nextId + 1 ∧
      outbox.schedule.waiting.Perm (room.outbox.schedule.waiting ++
        ((Outbox.packet payload endpoint route envelope).fragments room.outbox.maxPayload
          room.outbox.nextId).map (·.toward peer)) := by
  let fragments := (Outbox.packet payload endpoint route envelope).fragments
    room.outbox.maxPayload room.outbox.nextId
  refine ⟨{ room.outbox with
    nextId := room.outbox.nextId + 1
    schedule := fragments.foldl (fun schedule fragment => schedule.put now peer fragment)
      room.outbox.schedule }, ?_, rfl, rfl, Schedule.waiting_foldl_put_perm _ now peer fragments⟩
  unfold sendDirect Outbox.sendDirect Outbox.sendVia
  rw [known]
  rfl

/-- To send is all or nothing.  An attempt that fails leaves the mailroom as it was.  One that
succeeds takes a single id and puts the pieces of the payload, side by side and in order, at the
end of one queue; a payload for the node itself is given out here instead. -/
theorem send_all_or_nothing (room : Mailroom) (now : Nat) (payload : Bytes) (peer : Peer)
    (envelope : Envelope)
    (few : Packet.pieceCount room.outbox.maxPayload payload < UInt32.size) :
    let posted := room.post now payload peer envelope
    posted = ((room.send now payload peer envelope).map fun _ => (),
        (room.send now payload peer envelope).toOption.getD room) ∧
      (∀ cause, posted.1 = .error cause → posted.2 = room) ∧
      (peer = room.view.self → posted.2.outbox = room.outbox) ∧
      (posted.1 = .ok () → peer = room.view.self →
        posted.2 = room.deliver (room.listeners.deliver envelope payload)) ∧
      (posted.1 = .ok () → peer ≠ room.view.self →
        ∃ route nextHop endpoint items, room.view.plan peer = .send route nextHop ∧
          peer.endpoint room.resolver = .ok endpoint ∧
          room.outbox.Pieces payload envelope route nextHop endpoint items ∧
          posted.2 = { room with outbox := { room.outbox with
            nextId := room.outbox.nextId + 1
            schedule := (room.outbox.schedule.advance now).extend envelope.band items } }) := by
  intro posted
  have postedEq : posted = ((room.send now payload peer envelope).map fun _ => (),
      (room.send now payload peer envelope).toOption.getD room) := post_eq_send
  refine ⟨postedEq, ?_⟩
  rw [postedEq]
  cases sent : room.send now payload peer envelope with
  | error cause => exact ⟨fun _ _ => rfl, fun _ => rfl, nofun, nofun⟩
  | ok after =>
      refine ⟨nofun, ?_⟩
      change (_ → after.outbox = room.outbox) ∧ (_ → _ → after = _) ∧ _
      rcases send_eq_ok_cases sent with
        ⟨valid, ⟨isSelf, rfl⟩ | ⟨route, nextHop, outbox, planned, routed, rfl⟩⟩
      · exact ⟨fun _ => rfl, fun _ _ => rfl, fun _ other => absurd isSelf other⟩
      · have other : peer ≠ room.view.self := by
          intro isSelf
          rw [View.plan_eq_stay_iff.mpr isSelf] at planned
          contradiction
        refine ⟨fun isSelf => absurd isSelf other, fun _ isSelf => absurd isSelf other, ?_⟩
        intro _ _
        rcases Outbox.exists_pieces_of_sendVia valid few routed with
          ⟨endpoint, items, endpointEq, pieces, rfl⟩
        exact ⟨route, nextHop, endpoint, items, planned, endpointEq, pieces, rfl⟩

/-! ### A host known by its name -/

open Peer (numbered)

/-- The last peer of two clusters may put two bytes of payload into a packet, and it has come to
the last id.  A member of the other cluster goes by the name of its host. -/
def outlying : Mailroom where
  view :=
    { clusters := [[numbered 1, .harbour], [numbered 2, numbered 4]]
      servers := [numbered 1, numbered 2]
      self := numbered 4
      mainServer := numbered 1
      cursor := 0 }
  listeners := .none
  outbox := ⟨2, 4294967295, .create ⟨8, 4, 2⟩ 100 500 0⟩
  batcher := .empty 2048 0
  resolver := .coastal

/-- Five bytes for a host that the system knows take three packets, by way of the server of the
cluster.  The packets bear its address. -/
theorem send_all_or_nothing_outlying :
    let payload : Bytes := [1, 2, 3, 4, 5]
    let envelope : Envelope := .data .chat 3
    let posted := outlying.post 700 payload .harbour envelope
    Packet.pieceCount outlying.outbox.maxPayload payload < UInt32.size ∧
      posted.1 = .ok () ∧ .harbour ≠ outlying.view.self ∧
      ∃ items, outlying.outbox.Pieces payload envelope .otherCluster (numbered 2)
          ⟨⟨10, 0, 0, 3⟩, 9000⟩ items ∧
        items.length = 3 ∧ posted.2.outbox.nextId = 0 ∧
        posted.2.outbox.schedule =
          (outlying.outbox.schedule.advance 700).extend .low items := by
  intro payload envelope posted
  have few : Packet.pieceCount outlying.outbox.maxPayload payload < UInt32.size := by decide
  have sent : posted.1 = .ok () := by decide +kernel
  have other : .harbour ≠ outlying.view.self := by decide
  have planned : outlying.view.plan .harbour = .send .otherCluster (numbered 2) := by
    decide +kernel
  have known : Peer.harbour.endpoint outlying.resolver = .ok ⟨⟨10, 0, 0, 3⟩, 9000⟩ := by
    decide +kernel
  rcases (send_all_or_nothing outlying 700 payload .harbour envelope few).2.2.2.2 sent other
    with ⟨route, nextHop, endpoint, items, plannedSo, knownSo, pieces, postedEq⟩
  rw [planned, Plan.send.injEq] at plannedSo
  rcases plannedSo with ⟨rfl, rfl⟩
  rw [known, Except.ok.injEq] at knownSo
  subst knownSo
  refine ⟨few, sent, other, items, pieces, pieces.length_eq.trans (by decide), ?_, ?_⟩
  · exact congrArg (·.outbox.nextId) postedEq
  · exact congrArg (·.outbox.schedule) postedEq

end Mailroom

end ClusterOverlay
