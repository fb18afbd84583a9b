import ClusterOverlay.Proofs.Node.Intake
import ClusterOverlay.Proofs.Outbox
import ClusterOverlay.Proofs.Reassembly.Once
import ClusterOverlay.Proofs.Routing.Broadcast
import ClusterOverlay.Proofs.Station.Refusals

/-!
# Local and remote deliveries

A payload for the node itself goes to the listeners at once.  A payload for
another node is cut, written and scheduled, travels in any order, and is put
together again and read by a different part of the node.  The listeners cannot
tell: `Station.remote_eq_local`.

The station that the fragments reach does everything else in between.  As far
as the message is concerned, `Station.deliveriesOf_eq` compares it with a
reassembly that is asked nothing but the fragments; that these give out the
packet once, with the last of them, is `Shipment.answers_of_once`.
-/

namespace ClusterOverlay

/-! ## What is sent -/

/-- Envelopes for the listeners of other nodes: those of payloads, and those of batches. -/
inductive Envelope.ForListeners : Envelope → Prop
  | data (channel : Channel) {priority : Nat} (bound : priority ≤ 7) :
      ForListeners (.data channel priority)
  | coalesced : ForListeners .coalesced

namespace Envelope.ForListeners

variable {envelope : Envelope}

theorem priority_le (forListeners : envelope.ForListeners) : envelope.priority ≤ 7 := by
  cases forListeners with
  | data channel bound => exact bound
  | coalesced => decide

theorem content_eq (forListeners : envelope.ForListeners) :
    envelope.content = .data ∨ envelope.content = .coalesced := by
  cases forListeners with
  | data channel bound => exact .inl rfl
  | coalesced => exact .inr rfl

end Envelope.ForListeners

namespace Outbox

variable {view : View} {listeners : Listeners} {peer nextHop : Peer} {route : Route}
variable {resolver : Resolver} {endpoint : Endpoint} {envelope : Envelope}

/-- A payload on its way from an outbox, from the one whom the receiver knows as the
sender. -/
def shipment (outbox : Outbox) (payload : Bytes) (destination : Endpoint) (route : Route)
    (envelope : Envelope) (sender : Endpoint) : Reassembly.Shipment :=
  ⟨packet payload destination route envelope, outbox.maxPayload, outbox.nextId, sender⟩

/-- What is for the node itself goes to its listeners, and nowhere else. -/
theorem send_self (priority : envelope.priority ≤ 7) (outbox : Outbox) (resolver : Resolver)
    (view : View) (listeners : Listeners) (now : Nat) (payload : Bytes) :
    outbox.send resolver view listeners now payload view.self envelope =
      .ok (listeners.deliver envelope payload, outbox) := by
  unfold send
  rw [if_neg (Nat.not_lt.mpr priority), View.plan_eq_stay_iff.mpr rfl]

/-- What is for somebody else waits in fragments for its way to the next hop. -/
theorem exists_send_eq (priority : envelope.priority ≤ 7) (outbox : Outbox)
    (planned : view.plan peer = .send route nextHop)
    (known : peer.endpoint resolver = .ok endpoint) (sender : Endpoint) (listeners : Listeners)
    (now : Nat) (payload : Bytes) :
    ∃ after, outbox.send resolver view listeners now payload peer envelope = .ok ([], after) ∧
      after.schedule.waiting.Perm (outbox.schedule.waiting ++
        (outbox.shipment payload endpoint route envelope sender).fragments.map fun fragment =>
          ⟨nextHop, fragment.encode⟩) := by
  let fragments := (outbox.shipment payload endpoint route envelope sender).fragments
  refine ⟨{ outbox with
    nextId := outbox.nextId + 1
    schedule := fragments.foldl (fun schedule fragment => schedule.put now nextHop fragment)
      outbox.schedule }, ?_, Schedule.waiting_foldl_put_perm _ now nextHop fragments⟩
  unfold send sendVia
  rw [if_neg (Nat.not_lt.mpr priority), planned, known]
  rfl

end Outbox

/-- A fragment as it arrives where it is for. -/
def Packet.forUse (fragment : Packet) : Packet :=
  { fragment with route := .use }

namespace Station

open Peer (numbered)
open Reassembly (Ages Alike Shipment)

variable {station : Station} {call : Call} {calls : List Call} {key : UInt32 × Endpoint}
variable {listeners : Listeners}

/-! ## What arrives -/

/-- The call is a packet of the message that reaches the node: when, and what. -/
def Call.arrival? (key : UInt32 × Endpoint) : Call → Option (Nat × Bytes)
  | packet now sender raw =>
      if (Reassembly.Call.bytes now sender raw).key? = some key then some (now, raw) else none
  | _ => none

/-- What a call asks of the messages in reassembly, if it gets that far. -/
def Call.request? : Call → Option Reassembly.Call
  | packet now sender raw => some (.bytes now sender raw)
  | maintain now => some (.evict now)
  | close now => some (.evict now)
  | _ => none

/-- What reaches the node of a message, in order. -/
def arrivals (key : UInt32 × Endpoint) (calls : List Call) : List (Nat × Bytes) :=
  calls.filterMap (·.arrival? key)

/-- A reassembly is asked what has arrived. -/
def asking (key : UInt32 × Endpoint) (arrival : Nat × Bytes) : Reassembly.Call :=
  .bytes arrival.1 key.2 arrival.2

/-- Whenever a packet of the message reaches the node, the node is not about to end, and
has the given listeners. -/
def Attends (key : UInt32 × Endpoint) (listeners : Listeners) (station : Station) :
    List Call → Prop
  | [] => True
  | call :: later =>
      ((call.arrival? key).isSome →
        station.node.phase = .running ∧ station.node.listeners = listeners) ∧
      (station.answer call).2.Attends key listeners later

/-- What the listeners get at the packets of a message. -/
def deliveriesOf (key : UInt32 × Endpoint) (station : Station) : List Call → List Delivery
  | [] => []
  | call :: later =>
      let after := (station.answer call).2
      if (call.arrival? key).isSome then
        after.node.delivered.drop station.node.delivered.length ++ after.deliveriesOf key later
      else
        after.deliveriesOf key later

/-- A packet of a message comes from the one who has sent the message. -/
theorem Call.eq_packet_of_arrival? {arrival : Nat × Bytes}
    (brings : call.arrival? key = some arrival) :
    call = .packet arrival.1 key.2 arrival.2 ∧ (asking key arrival).key? = some key := by
  cases call with
  | packet now sender raw =>
      simp only [arrival?, Option.ite_none_right_eq_some, Option.some.injEq] at brings
      obtain ⟨own, rfl⟩ := brings
      have senderEq : sender = key.2 := by
        cases read : Packet.decode raw with
        | error cause => simp [Reassembly.Call.key?, Reassembly.Call.packet?, read] at own
        | ok packet =>
            simp only [Reassembly.Call.key?, Reassembly.Call.packet?, read, Option.map_some,
              Option.some.injEq] at own
            rw [← own]
      subst senderEq
      exact ⟨rfl, own⟩
  | _ => contradiction

theorem Call.time_of_arrival? {arrival : Nat × Bytes} (brings : call.arrival? key = some arrival) :
    arrival.1 = call.time := by
  rw [(eq_packet_of_arrival? brings).1, time]

theorem Call.time_of_request? {asked : Reassembly.Call} (asks : call.request? = some asked) :
    asked.time = call.time := by
  cases call with
  | packet | maintain | close =>
      cases asks
      rfl
  | _ => contradiction

theorem Call.key?_of_request? (foreign : call.arrival? key = none) {asked : Reassembly.Call}
    (asks : call.request? = some asked) : asked.key? ≠ some key := by
  cases call with
  | packet now sender raw =>
      cases asks
      simpa [arrival?] using foreign
  | maintain | close =>
      cases asks
      simp [Reassembly.Call.key?, Reassembly.Call.packet?]
  | _ => contradiction

/-! ## One call -/

/-- What became too old was forgotten because of the call, if it was. -/
theorem exists_request_of_ages {now : Nat} {former latter : Reassembly}
    (ages : Ages now former latter) (asks : call.request? = some (.evict now)) :
    latter = former ∨
      ∃ asked, call.request? = some asked ∧ latter = (former.answer asked).2 :=
  ages.imp_right fun evicted => ⟨_, asks, evicted⟩

/-- A call does to the messages in reassembly what it asks of them, or nothing. -/
theorem answer_reassembly (station : Station) (call : Call) :
    (station.answer call).2.node.reassembly = station.node.reassembly ∨
      ∃ asked, call.request? = some asked ∧
        (station.answer call).2.node.reassembly = (station.node.reassembly.answer asked).2 := by
  cases call with
  | packet now sender raw =>
      simp only [answer, onNode_node, Node.whileRunning]
      split
      · exact (station.node.onPacket_reassembly now sender raw).imp_right fun asked =>
          ⟨_, rfl, asked⟩
      · exact .inl rfl
  | maintain now =>
      simp only [answer, onNode_node, Node.whileRunning]
      split
      · exact exists_request_of_ages (station.node.maintainIfDue_ages now) rfl
      · exact .inl rfl
  | close now => exact exists_request_of_ages (station.node.close_ages now) rfl
  | scan now => exact .inl (station.node.scanIfDue_reassembly now)
  | silence now =>
      simp only [answer, onNode_node, Node.whileRunning]
      split
      · exact .inl (station.node.settleNext_reassembly now)
      · exact .inl rfl
  | drain now => exact .inl (station.node.drainIfDue_reassembly now)
  | cancel now => exact .inl (station.node.cancel_reassembly now)
  | write now reach =>
      simp only [answer, settle]
      split
      · exact .inl rfl
      · exact .inl rfl
  | sendData now data destinations channel priority =>
      simp only [answer, reported, sendData]
      cases station.checkOpen priority with
      | error cause => exact .inl rfl
      | ok _ => exact .inl rfl
  | broadcast now data channel priority =>
      simp only [answer, reported, broadcast]
      cases station.checkOpen priority with
      | error cause => exact .inl rfl
      | ok _ => exact .inl rfl
  | sendCoalesced now data peer channel =>
      simp only [answer, sendCoalesced]
      split
      · exact .inl rfl
      · exact .inl rfl
  | flush | beat | subscribe | unsubscribe => exact .inl rfl

/-- A call that is no packet of a message does not tell the station from a reassembly to
which it does not happen. -/
theorem alike_of_foreign {other : Reassembly}
    (alike : Alike key call.time station.node.reassembly other)
    (foreign : call.arrival? key = none) :
    Alike key call.time (station.answer call).2.node.reassembly other := by
  rcases answer_reassembly station call with kept | ⟨asked, asks, answerEq⟩
  · rw [kept]
    exact alike
  · rw [answerEq, ← Call.time_of_request? asks]
    rw [← Call.time_of_request? asks] at alike
    exact alike.answer_of_foreign (Call.key?_of_request? foreign asks)

/-- At a packet of the message, the listeners get what the reassembly gives out that is asked
nothing else. -/
theorem answer_of_arrival {other : Reassembly} {arrival : Nat × Bytes} {packet : Packet}
    (alike : Alike key call.time station.node.reassembly other)
    (brings : call.arrival? key = some arrival) (running : station.node.phase = .running)
    (read : Packet.decode arrival.2 = .ok packet) (own : packet.route = .use) :
    (station.answer call).2.node.delivered =
        station.node.delivered ++
          (other.answer (asking key arrival)).1.toList.flatMap station.node.listeners.receives ∧
      Alike key call.time (station.answer call).2.node.reassembly
        (other.answer (asking key arrival)).2 := by
  obtain ⟨callEq, keyEq⟩ := Call.eq_packet_of_arrival? brings
  have timeEq : (asking key arrival).time = call.time := Call.time_of_arrival? brings
  have asked := station.node.reassembly.answer_bytes arrival.1 key.2 read
  have accepted : (station.answer call).2.node =
      station.node.accept arrival.1 key.2 packet := by
    rw [callEq, answer, onNode_node, Node.whileRunning_of_running running,
      Node.onPacket_of_use read own]
  rw [← timeEq] at alike ⊢
  obtain ⟨given, stillAlike⟩ := alike.answer_of_own keyEq
  rw [accepted, Node.accept_delivered, Node.accept_reassembly, ← asked, ← given]
  exact ⟨rfl, stillAlike⟩

/-! ## Runs -/

/-- What the listeners get at the packets of a message is what a reassembly gives out that
is asked nothing else. -/
theorem deliveriesOf_eq {now : Nat} {other : Reassembly}
    (alike : Alike key now station.node.reassembly other)
    (attends : station.Attends key listeners calls)
    (own : ∀ arrival ∈ arrivals key calls,
      ∃ packet, Packet.decode arrival.2 = .ok packet ∧ packet.route = .use)
    (due : ∀ call ∈ calls, now ≤ call.time)
    (ordered : calls.Pairwise fun first second => first.time ≤ second.time) :
    station.deliveriesOf key calls =
      (other.answers ((arrivals key calls).map (asking key))).flatMap fun given =>
        given.toList.flatMap listeners.receives := by
  -- The two are alike at the time of each call, although only arrivals happen to the second.
  induction calls generalizing now station other with
  | nil => rfl
  | cons call later inductionHypothesis =>
      obtain ⟨first, laterOrdered⟩ := List.pairwise_cons.mp ordered
      obtain ⟨ready, laterAttends⟩ := attends
      have here := alike.later (due call List.mem_cons_self)
      cases brings : call.arrival? key with
      | none =>
          have arrivalsEq : arrivals key (call :: later) = arrivals key later :=
            List.filterMap_cons_none brings
          rw [arrivalsEq] at own ⊢
          rw [deliveriesOf, brings]
          exact inductionHypothesis (alike_of_foreign here brings) laterAttends own first
            laterOrdered
      | some arrival =>
          have arrivalsEq : arrivals key (call :: later) = arrival :: arrivals key later :=
            List.filterMap_cons_some brings
          rw [arrivalsEq] at own ⊢
          obtain ⟨running, listenersEq⟩ := ready (by rw [brings]; rfl)
          obtain ⟨packet, read, route⟩ := own arrival List.mem_cons_self
          obtain ⟨given, stillAlike⟩ := answer_of_arrival here brings running read route
          have rest := inductionHypothesis stillAlike laterAttends
            (fun arrival arrivalMem => own arrival (List.mem_cons_of_mem _ arrivalMem)) first
            laterOrdered
          rw [deliveriesOf, brings, Option.isSome_some, if_pos rfl, given, List.drop_left, rest,
            List.map_cons, Reassembly.answers, List.flatMap_cons, listenersEq]

/-- A station whose node has begun to live some time ago. -/
def Reached (station : Station) : Prop :=
  ∃ config room began transport calls,
    station = Station.after ⟨(Node.create config room).start began, transport⟩ calls

/-- No message has two entries in the reassembly of a station. -/
theorem Reached.distinct (reached : station.Reached) :
    station.node.reassembly.messages.Distinct := by
  obtain ⟨config, room, began, transport, calls, rfl⟩ := reached
  generalize begunEq : (⟨(Node.create config room).start began, transport⟩ : Station) = begun
  have distinct : begun.node.reassembly.messages.Distinct := by
    subst begunEq
    rcases Node.start_ages config room began with fresh | swept
    · rw [fresh]
      exact Table.distinct_empty
    · rw [swept]
      exact (@Reassembly.answer_keeps (.empty _) Table.distinct_empty (.evict began)).2
  clear begunEq
  induction calls generalizing begun with
  | nil => exact distinct
  | cons call later inductionHypothesis =>
      apply inductionHypothesis
      rcases answer_reassembly begun call with kept | ⟨asked, _, answerEq⟩
      · rw [kept]
        exact distinct
      · rw [answerEq]
        exact (Reassembly.answer_keeps distinct asked).2

/-! ## Whole shipments -/

/-- The calls bring every fragment of a shipment once, for use, in any order, and within
the limit, and no other packet under the key of the shipment. -/
structure Carries (calls : List Call) (shipment : Shipment) (ttl : Nat) : Prop where
  ordered : calls.Pairwise fun first second => first.time ≤ second.time
  once : ((arrivals shipment.key calls).map Prod.snd).Perm
    (shipment.fragments.map (·.forUse.encode))
  prompt : (arrivals shipment.key calls).Pairwise fun first second => second.1 < first.1 + ttl

namespace Carries

variable {shipment : Shipment} {ttl : Nat} {arrival : Nat × Bytes}

theorem exists_fragment (carries : Carries calls shipment ttl)
    (arrivalMem : arrival ∈ arrivals shipment.key calls) :
    ∃ fragment ∈ shipment.fragments, fragment.forUse.encode = arrival.2 :=
  List.mem_map.mp (carries.once.subset (List.mem_map_of_mem arrivalMem))

theorem exists_read (carries : Carries calls shipment ttl)
    (arrivalMem : arrival ∈ arrivals shipment.key calls) :
    ∃ packet, Packet.decode arrival.2 = .ok packet ∧ packet.route = .use := by
  obtain ⟨fragment, _, rawEq⟩ := carries.exists_fragment arrivalMem
  exact ⟨fragment.forUse, by rw [← rawEq, Packet.decode_encode], rfl⟩

theorem copies_asking {fragment : Packet} (rawEq : fragment.forUse.encode = arrival.2) :
    (asking shipment.key arrival).Copies shipment.sender fragment :=
  ⟨arrival.1, arrival.2, rfl, rawEq ▸ .relayed .sent (fragment.retarget_encode .use)⟩

theorem brings (carries : Carries calls shipment ttl) :
    ∀ asked ∈ (arrivals shipment.key calls).map (asking shipment.key), shipment.Brings asked := by
  intro asked askedMem
  obtain ⟨arrival, arrivalMem, rfl⟩ := List.mem_map.mp askedMem
  obtain ⟨fragment, fragmentMem, rawEq⟩ := carries.exists_fragment arrivalMem
  exact ⟨fragment, fragmentMem, copies_asking rawEq⟩

theorem complete (carries : Carries calls shipment ttl) :
    shipment.Complete ((arrivals shipment.key calls).map (asking shipment.key)) := by
  intro fragment fragmentMem
  obtain ⟨arrival, arrivalMem, rawEq⟩ :=
    List.mem_map.mp (carries.once.symm.subset (List.mem_map_of_mem fragmentMem))
  exact ⟨_, List.mem_map_of_mem arrivalMem, copies_asking rawEq.symm⟩

theorem length_eq (carries : Carries calls shipment ttl) :
    ((arrivals shipment.key calls).map (asking shipment.key)).length = shipment.size := by
  have lengthEq := carries.once.length_eq
  rw [List.length_map, List.length_map] at lengthEq
  rw [List.length_map, lengthEq]
  exact List.length_mapIdx

theorem arrivals_ordered (carries : Carries calls shipment ttl) :
    (arrivals shipment.key calls).Pairwise fun first second => first.1 ≤ second.1 := by
  apply carries.ordered.filterMap
  intro first second le arrival brings later laterBrings
  rwa [Call.time_of_arrival? brings, Call.time_of_arrival? laterBrings]

end Carries

/-- A reassembly that is asked for nothing but the fragments gives out the packet once, and
so the listeners of a station that they reach get it once. -/
theorem exists_deliveriesOf_eq {shipment : Shipment} (few : shipment.size < UInt32.size)
    (reached : station.Reached) (idle : station.node.reassembly.slot shipment.key = none)
    (attends : station.Attends shipment.key listeners calls)
    (carries : Carries calls shipment station.node.reassembly.ttl) :
    ∃ route, station.deliveriesOf shipment.key calls =
      listeners.receives { shipment.packet with
        route, messageId := shipment.messageId, index := 0, count := 1 } := by
  have alike : Alike shipment.key 0 station.node.reassembly
      (.empty station.node.reassembly.ttl) :=
    ⟨rfl, reached.distinct, Table.distinct_empty, by rw [idle]; rfl⟩
  have compared := deliveriesOf_eq alike attends (fun _ => carries.exists_read)
    (fun call _ => Nat.zero_le call.time) carries.ordered
  obtain ⟨route, given⟩ := shipment.answers_of_once few carries.brings carries.complete
    carries.length_eq (List.pairwise_map.mpr carries.arrivals_ordered)
    (List.pairwise_map.mpr carries.prompt)
  refine ⟨route, ?_⟩
  rw [compared, given, List.flatMap_append, List.flatMap_eq_nil_iff.mpr, List.nil_append,
    List.flatMap_singleton, Option.toList_some, List.flatMap_singleton]
  intro nothing nothingMem
  rw [(List.mem_replicate.mp nothingMem).2]
  rfl

/-- The fragments that a payload is sent in reach a station, each of them once, in any order
and within the limit; whatever else happens to the station in between, its listeners get at
them what they would get of a payload for the node itself. -/
theorem remote_eq_local {outbox : Outbox} {view : View} {payload : Bytes} {peer nextHop : Peer}
    {resolver : Resolver} {route : Route} {endpoint sender : Endpoint} {envelope : Envelope}
    {shipment : Shipment} {receiver : Station} (forListeners : envelope.ForListeners)
    (planned : view.plan peer = .send route nextHop)
    (known : peer.endpoint resolver = .ok endpoint)
    (shipped : shipment = outbox.shipment payload endpoint route envelope sender)
    (few : shipment.size < UInt32.size) (reached : receiver.Reached)
    (idle : receiver.node.reassembly.slot shipment.key = none)
    (attends : receiver.Attends shipment.key listeners calls)
    (carries : Carries calls shipment receiver.node.reassembly.ttl) :
    ∃ deliveries,
      (∀ (home : Outbox) (hosts : Resolver) (homeView : View) (now : Nat),
        home.send hosts homeView listeners now payload homeView.self envelope =
          .ok (deliveries, home)) ∧
      (∀ (others : Listeners) (now : Nat), ∃ after,
        outbox.send resolver view others now payload peer envelope = .ok ([], after) ∧
        after.schedule.waiting.Perm (outbox.schedule.waiting ++
          shipment.fragments.map fun fragment => ⟨nextHop, fragment.encode⟩)) ∧
      receiver.deliveriesOf shipment.key calls = deliveries := by
  have priority := forListeners.priority_le
  obtain ⟨merged, deliveriesEq⟩ := exists_deliveriesOf_eq few reached idle attends carries
  subst shipped
  refine ⟨listeners.deliver envelope payload, ?_, ?_, ?_⟩
  · intro home hosts homeView now
    exact home.send_self priority hosts homeView listeners now payload
  · intro others now
    exact outbox.exists_send_eq priority planned known sender others now payload
  · rw [deliveriesEq]
    exact Listeners.receives_eq_deliver rfl rfl forListeners.content_eq

/-- A client whose server is the second of the numbered peers, with a listener for the
chat. -/
def listeningClient : Station :=
  Station.after ⟨(Node.create {}
    { Node.quietRoom with view := ⟨View.couple, numbered 3, numbered 1, 0⟩ }).start 0, {}⟩
    [.subscribe 0 .chat "window"]

/-- What is left of a batch after a record for the chat, one for a channel that does not
exist, and the beginning of a third. -/
def tornBatch : Bytes :=
  [0, 0, 0, 1, Channel.chat.code, 1] ++ [0, 0, 0, 1, 99, 2] ++ [0, 0, 0, 9, 3]

/-- The batch on its way from the main server to the client, by way of the second peer. -/
def tornShipment : Shipment :=
  Outbox.shipment ⟨6, 7, SchedulerConfig.schedule {} 0⟩ tornBatch ⟨⟨10, 0, 0, 3⟩, 9000⟩
    .otherCluster .coalesced ⟨⟨10, 0, 0, 2⟩, 41000⟩

/-- A piece of the batch as it arrives. -/
def tornPiece (index : UInt32) (piece : Bytes) : Bytes :=
  { tornShipment.packet with
    route := .use, messageId := 7, index, count := 3, payload := piece }.encode

/-- The last piece comes first; another sender uses the same id, and the client does other
things in between. -/
def tornCalls : List Call :=
  [.packet 1 tornShipment.sender (tornPiece 2 [0, 0, 0, 9, 3]), .maintain 2,
    .packet 3 ⟨⟨10, 0, 0, 9⟩, 41000⟩ (tornPiece 0 [9, 9, 9, 9, 9, 9]),
    .packet 4 tornShipment.sender (tornPiece 0 [0, 0, 0, 1, Channel.chat.code, 1]), .beat 5,
    .packet 6 tornShipment.sender (tornPiece 1 [0, 0, 0, 1, 99, 2])]

theorem slices_tornShipment :
    Packet.slices tornShipment.limit tornShipment.packet.payload =
      [[0, 0, 0, 1, Channel.chat.code, 1], [0, 0, 0, 1, 99, 2], [0, 0, 0, 9, 3]] := by
  change Packet.slices 6 tornBatch = _
  simp [tornBatch, Packet.slices]

theorem carries_tornCalls :
    Carries tornCalls tornShipment listeningClient.node.reassembly.ttl where
  ordered := by decide +kernel
  once := by
    have fragmentsEq : tornShipment.fragments.map (·.forUse.encode) =
        [tornPiece 0 [0, 0, 0, 1, Channel.chat.code, 1], tornPiece 1 [0, 0, 0, 1, 99, 2],
          tornPiece 2 [0, 0, 0, 9, 3]] := by
      simp only [Shipment.fragments, Packet.fragments, slices_tornShipment]
      rfl
    rw [fragmentsEq]
    decide +kernel
  prompt := by decide +kernel

/-- Of the batch, the listener gets the one payload that can be read, once, as it would if the
batch had not travelled. -/
theorem remote_eq_local_tornBatch :
    (∀ (home : Outbox) (hosts : Resolver) (homeView : View) (now : Nat),
      home.send hosts homeView listeningClient.node.listeners now tornBatch homeView.self
        .coalesced = .ok ([⟨"window", .chat, [1]⟩], home)) ∧
    listeningClient.deliveriesOf tornShipment.key tornCalls = [⟨"window", .chat, [1]⟩] := by
  have planned : View.plan ⟨View.couple, numbered 1, numbered 1, 0⟩ (numbered 3) =
      .send .otherCluster (numbered 2) := by
    decide +kernel
  have known : (numbered 3).endpoint .empty = .ok ⟨⟨10, 0, 0, 3⟩, 9000⟩ := by
    decide +kernel
  have few : tornShipment.size < UInt32.size := by
    rw [Shipment.size, slices_tornShipment]
    decide
  have idle : listeningClient.node.reassembly.slot tornShipment.key = none :=
    Option.isNone_iff_eq_none.mp (by decide +kernel)
  have attends : listeningClient.Attends tornShipment.key listeningClient.node.listeners
      tornCalls := by
    exact ⟨fun _ => ⟨by decide +kernel, rfl⟩, nofun, nofun, fun _ => ⟨by decide +kernel, rfl⟩,
      nofun, fun _ => ⟨by decide +kernel, rfl⟩, trivial⟩
  have reached : listeningClient.Reached := ⟨_, _, _, _, _, rfl⟩
  obtain ⟨deliveries, here, _, there⟩ := remote_eq_local .coalesced planned known
    (rfl : tornShipment = _) few reached idle attends carries_tornCalls
  have deliveriesEq :
      listeningClient.deliveriesOf tornShipment.key tornCalls = [⟨"window", .chat, [1]⟩] := by
    decide +kernel
  rw [deliveriesEq] at there
  subst there
  exact ⟨here, deliveriesEq⟩

end Station

end ClusterOverlay
