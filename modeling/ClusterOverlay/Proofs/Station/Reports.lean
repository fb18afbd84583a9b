import Mathlib.Data.List.Induction
import ClusterOverlay.Proofs.Outbox
import ClusterOverlay.Station

/-!
# Reports

A station sends a payload to one destination after another.  What becomes of a destination is
decided by the view of the node and the hosts that its system knows, `View.objection?`: either
its name has no address, or no route leads there.  No attempt changes the two,
`Mailroom.sendData_cases`.  So the place of a destination in the list does not matter, and
neither do the others: `Mailroom.sendToEach_eq` tells the whole report.

An attempt that fails leaves nothing behind.  `Station.sendData_isolates` says that the
destinations that fail could as well have been left out.
-/

namespace ClusterOverlay

namespace View

/-! ## Objections -/

/-- Why a payload for a peer is not sent, if it is not. -/
def refusal? (view : View) (resolver : Resolver) (envelope : Envelope) (peer : Peer) :
    Option SendError :=
  if 7 < envelope.priority then
    some (.invalidPriority envelope.priority)
  else
    match view.plan peer with
    | .stay => none
    | .noRoute => some (.noRoute peer)
    | .send _ _ =>
        match peer.endpoint resolver with
        | .ok _ => none
        | .error cause => some (.codec cause)

/-- Why a payload for a peer of the given name is not sent, if it is not. -/
def objection? (view : View) (resolver : Resolver) (envelope : Envelope) (peer : Peer) :
    Option SendError :=
  match peer.canonical resolver with
  | .ok canonical => view.refusal? resolver envelope canonical
  | .error cause => some (.codec cause)

/-- What becomes of each destination of a payload. -/
def report (view : View) (resolver : Resolver) (envelope : Envelope) (peers : List Peer) :
    SendReport where
  sent := peers.filter fun peer => (view.objection? resolver envelope peer).isNone
  failed := peers.filterMap fun peer => (view.objection? resolver envelope peer).map (peer, ·)

variable {view : View} {resolver : Resolver} {envelope : Envelope}

/-- A destination fails exactly if its name has no address, or no route leads to the peer of that
address. -/
theorem objection?_eq_some_iff (valid : envelope.priority ≤ 7) {peer : Peer} {cause : SendError} :
    view.objection? resolver envelope peer = some cause ↔
      (resolver.address? peer.host = none ∧ cause = .codec (.unresolvableHost peer.host)) ∨
        ∃ canonical, peer.canonical resolver = .ok canonical ∧
          view.plan canonical = .noRoute ∧ cause = .noRoute canonical := by
  unfold objection?
  cases resolved : peer.canonical resolver with
  | error reason =>
      obtain ⟨unknown, rfl⟩ := Peer.canonical_eq_error_iff.mp resolved
      simp [unknown, eq_comm]
  | ok canonical =>
      obtain ⟨address, known, -⟩ := Peer.canonical_eq_ok_iff.mp resolved
      obtain ⟨endpoint, found⟩ := (Peer.isLiteral_of_canonical resolved).exists_endpoint resolver
      have decided : view.refusal? resolver envelope canonical =
          if view.plan canonical = .noRoute then some (.noRoute canonical) else none := by
        rw [refusal?, if_neg (Nat.not_lt.mpr valid), found]
        cases view.plan canonical <;> rfl
      simp only [decided, known, reduceCtorEq, false_and, false_or, Except.ok.injEq,
        exists_eq_left', Option.ite_none_right_eq_some, Option.some.injEq]
      exact and_congr_right fun _ => eq_comm

theorem mem_failed_report_iff {peers : List Peer} {peer : Peer} {cause : SendError} :
    (peer, cause) ∈ (view.report resolver envelope peers).failed ↔
      peer ∈ peers ∧ view.objection? resolver envelope peer = some cause := by
  simp only [report, List.mem_filterMap, Option.map_eq_some_iff, Prod.mk.injEq]
  constructor
  · rintro ⟨named, namedMem, reason, objects, rfl, rfl⟩
    exact ⟨namedMem, objects⟩
  · rintro ⟨peerMem, objects⟩
    exact ⟨peer, peerMem, cause, objects, rfl, rfl⟩

theorem report_concat_of_none {earlier : List Peer} {last : Peer}
    (fine : view.objection? resolver envelope last = none) :
    view.report resolver envelope (earlier ++ [last]) =
      (view.report resolver envelope earlier).record last (.ok ()) := by
  simp [report, SendReport.record, fine]

theorem report_concat_of_some {earlier : List Peer} {last : Peer} {cause : SendError}
    (objects : view.objection? resolver envelope last = some cause) :
    view.report resolver envelope (earlier ++ [last]) =
      (view.report resolver envelope earlier).record last (.error cause) := by
  simp [report, SendReport.record, objects]

/-- Those that fail are those that are not sent to, in order. -/
theorem map_fst_failed_report (peers : List Peer) :
    (view.report resolver envelope peers).failed.map Prod.fst =
      peers.filter fun peer => (view.objection? resolver envelope peer).isSome := by
  unfold report
  induction peers with
  | nil => rfl
  | cons first later inductionHypothesis =>
      cases objects : view.objection? resolver envelope first with
      | none => simpa [objects] using inductionHypothesis
      | some cause => simpa [objects] using inductionHypothesis

/-- What is sent to by itself is sent to without a failure. -/
theorem report_sent_report (peers : List Peer) :
    view.report resolver envelope (view.report resolver envelope peers).sent =
      { sent := (view.report resolver envelope peers).sent } := by
  have fine : ∀ peer ∈ (view.report resolver envelope peers).sent,
      view.objection? resolver envelope peer = none := by
    intro peer peerMem
    exact Option.isNone_iff_eq_none.mp (List.mem_filter.mp peerMem).2
  let reached := (view.report resolver envelope peers).sent
  have sent : (view.report resolver envelope reached).sent = reached := by
    apply List.filter_eq_self.mpr
    intro peer peerMem
    rw [fine peer peerMem]
    rfl
  have failed : (view.report resolver envelope reached).failed = [] := by
    apply List.filterMap_eq_nil_iff.mpr
    intro peer peerMem
    rw [fine peer peerMem]
    rfl
  rw [SendReport.mk.injEq]
  exact ⟨sent, failed⟩

end View

namespace Mailroom

variable {room : Mailroom} {now : Nat} {data : Bytes} {envelope : Envelope} {peer : Peer}

/-! ## One destination -/

/-- Whether an attempt succeeds is decided by what the mailroom knows of peers and hosts, which
stays as it is. -/
theorem send_cases :
    (∃ after, room.send now data peer envelope = .ok after ∧
      room.view.refusal? room.resolver envelope peer = none ∧
      after.view = room.view ∧ after.resolver = room.resolver) ∨
    ∃ cause, room.send now data peer envelope = .error cause ∧
      room.view.refusal? room.resolver envelope peer = some cause := by
  unfold send Outbox.send View.refusal?
  split
  · exact .inr ⟨_, rfl, rfl⟩
  · cases room.view.plan peer with
    | stay => exact .inl ⟨_, rfl, rfl, rfl, rfl⟩
    | noRoute => exact .inr ⟨_, rfl, rfl⟩
    | send route nextHop =>
        unfold Outbox.sendVia
        cases peer.endpoint room.resolver with
        | error cause => exact .inr ⟨_, rfl, rfl⟩
        | ok endpoint => exact .inl ⟨_, rfl, rfl, rfl, rfl⟩

theorem sendData_cases (room : Mailroom) (now : Nat) (data : Bytes) (envelope : Envelope)
    (peer : Peer) :
    (∃ after, room.sendData now data envelope peer = .ok after ∧
      room.view.objection? room.resolver envelope peer = none ∧
      after.view = room.view ∧ after.resolver = room.resolver) ∨
    ∃ cause, room.sendData now data envelope peer = .error cause ∧
      room.view.objection? room.resolver envelope peer = some cause := by
  unfold sendData View.objection?
  cases peer.canonical room.resolver with
  | error cause => exact .inr ⟨_, rfl, rfl⟩
  | ok canonical => exact send_cases

/-- Send a payload to a peer of the given name step by step. -/
def postData (room : Mailroom) (now : Nat) (data : Bytes) (envelope : Envelope) (peer : Peer) :
    Except SendError Unit × Mailroom :=
  match peer.canonical room.resolver with
  | .ok canonical => room.post now data canonical envelope
  | .error cause => (.error (.codec cause), room)

theorem postData_eq_sendData :
    room.postData now data envelope peer =
      ((room.sendData now data envelope peer).map fun _ => (),
        (room.sendData now data envelope peer).toOption.getD room) := by
  unfold postData sendData
  cases peer.canonical room.resolver with
  | error cause => rfl
  | ok canonical => exact post_eq_send

/-! ## All destinations -/

/-- Send a payload to several peers step by step, and go on with whatever an attempt leaves
behind. -/
def postToEach (room : Mailroom) (now : Nat) (data : Bytes) (envelope : Envelope)
    (peers : List Peer) : SendReport × Mailroom :=
  peers.foldl
    (fun (report, room) peer =>
      let (outcome, room) := room.postData now data envelope peer
      (report.record peer outcome, room))
    ({}, room)

/-- An attempt that fails leaves nothing behind. -/
theorem postToEach_eq_sendToEach (peers : List Peer) :
    room.postToEach now data envelope peers = room.sendToEach now data envelope peers := by
  unfold postToEach sendToEach
  congr 1
  funext progress peer
  rcases progress with ⟨report, room⟩
  simp only [postData_eq_sendData]
  cases room.sendData now data envelope peer with
  | error cause => rfl
  | ok after => rfl

/-- Send a payload to one peer after another. -/
def sendAll (room : Mailroom) (now : Nat) (data : Bytes) (envelope : Envelope)
    (peers : List Peer) : Mailroom :=
  peers.foldl (fun room peer => (room.sendData now data envelope peer).toOption.getD room) room

theorem sendAll_concat (earlier : List Peer) (last : Peer) :
    room.sendAll now data envelope (earlier ++ [last]) =
      ((room.sendAll now data envelope earlier).sendData now data envelope last).toOption.getD
        (room.sendAll now data envelope earlier) :=
  List.foldl_concat _ _ _ _

/-- However much is sent, what the mailroom knows of peers and hosts stays as it is. -/
theorem sendAll_knows (room : Mailroom) (now : Nat) (data : Bytes) (envelope : Envelope)
    (peers : List Peer) :
    (room.sendAll now data envelope peers).view = room.view ∧
      (room.sendAll now data envelope peers).resolver = room.resolver := by
  unfold sendAll
  induction peers generalizing room with
  | nil => exact ⟨rfl, rfl⟩
  | cons first later inductionHypothesis =>
      rw [List.foldl_cons]
      obtain ⟨viewEq, resolverEq⟩ :=
        inductionHypothesis ((room.sendData now data envelope first).toOption.getD room)
      rw [viewEq, resolverEq]
      rcases sendData_cases room now data envelope first with
        ⟨after, sent, _, same⟩ | ⟨cause, failed, _⟩
      · rw [sent]
        exact same
      · rw [failed]
        exact ⟨rfl, rfl⟩

theorem sendToEach_concat (earlier : List Peer) (last : Peer) :
    room.sendToEach now data envelope (earlier ++ [last]) =
      attempt (room.sendToEach now data envelope earlier) last
        ((room.sendToEach now data envelope earlier).2.sendData now data envelope last) :=
  List.foldl_concat _ _ _ _

/-- The report is told from the view and the known hosts alone, and the mailroom is that after
sending to those of the report. -/
theorem sendToEach_eq (peers : List Peer) :
    room.sendToEach now data envelope peers =
      (room.view.report room.resolver envelope peers,
        room.sendAll now data envelope (room.view.report room.resolver envelope peers).sent) := by
  induction peers using List.reverseRecOn with
  | nil => rfl
  | append_singleton earlier last inductionHypothesis =>
      let reached := (room.view.report room.resolver envelope earlier).sent
      obtain ⟨viewEq, resolverEq⟩ := room.sendAll_knows now data envelope reached
      rw [sendToEach_concat, inductionHypothesis]
      rcases sendData_cases (room.sendAll now data envelope reached) now data envelope last with
        ⟨after, sent, fine, _⟩ | ⟨cause, failed, objects⟩
      · rw [viewEq, resolverEq] at fine
        rw [View.report_concat_of_none fine, SendReport.record, sendAll_concat, sent]
        rfl
      · rw [viewEq, resolverEq] at objects
        rw [View.report_concat_of_some objects, failed]
        rfl

end Mailroom

namespace Station

/-! ## Stations -/

theorem checkOpen_of_open {station : Station} {priority : Nat} (isOpen : station.isClosed = false)
    (valid : priority ≤ 7) : station.checkOpen priority = .ok () := by
  rw [checkOpen, isOpen, if_neg Bool.false_ne_true, if_neg (Nat.not_lt.mpr valid)]

theorem sendData_of_open {station : Station} {priority : Nat} (isOpen : station.isClosed = false)
    (valid : priority ≤ 7) (now : Nat) (data : Bytes) (destinations : List Peer)
    (channel : Channel) :
    let sent :=
      station.node.toMailroom.sendToEach now data (.data channel priority) destinations
    station.sendData now data destinations channel priority =
      .ok (sent.1, station.withMailroom sent.2) := by
  intro sent
  rw [sendData, checkOpen_of_open isOpen valid]
  rfl

/-- A destination that fails never affects the others.  Every destination is reported once, in
order and under the name given, as sent to or as failed.  What is sent is sent as if only the
former had been named. -/
theorem sendData_isolates (station : Station) (now : Nat) (data : Bytes)
    (destinations : List Peer) (channel : Channel) (priority : Nat)
    (isOpen : station.isClosed = false) (valid : priority ≤ 7) :
    let envelope : Envelope := .data channel priority
    let objection? := station.node.view.objection? station.node.resolver envelope
    ∃ report after,
      station.sendData now data destinations channel priority = .ok (report, after) ∧
      report.sent = destinations.filter (fun peer => (objection? peer).isNone) ∧
      report.failed.map Prod.fst = destinations.filter (fun peer => (objection? peer).isSome) ∧
      (∀ peer cause, (peer, cause) ∈ report.failed → objection? peer = some cause) ∧
      station.node.toMailroom.postToEach now data envelope destinations =
        (report, after.node.toMailroom) ∧
      station.sendData now data report.sent channel priority =
        .ok ({ sent := report.sent }, after) := by
  intro envelope objection?
  let room := station.node.toMailroom
  let report := room.view.report room.resolver envelope destinations
  have whole : room.sendToEach now data envelope destinations =
      (report, room.sendAll now data envelope report.sent) := Mailroom.sendToEach_eq _
  have anew : room.sendToEach now data envelope report.sent =
      ({ sent := report.sent }, room.sendAll now data envelope report.sent) := by
    rw [Mailroom.sendToEach_eq, View.report_sent_report]
  refine ⟨report, station.withMailroom (room.sendAll now data envelope report.sent), ?_, rfl,
    View.map_fst_failed_report _, ?_, ?_, ?_⟩
  · rw [sendData_of_open isOpen valid, whole]
  · intro peer cause failed
    exact (View.mem_failed_report_iff.mp failed).2
  · exact (Mailroom.postToEach_eq_sendToEach _).trans whole
  · rw [sendData_of_open isOpen valid, anew]

open Peer (numbered)

/-- The main server of two clusters, which listens to a chat.  Its system knows the client of
the other cluster by the name of its host. -/
def chatting : Station where
  node := Node.create {} { Mailroom.outlying with
    view := ⟨View.couple, numbered 1, numbered 1, 0⟩
    listeners := (Listeners.none.subscribe .chat "window").2 }
  transport := {}

/-- A client is named by its host and by its address, and between are a host that the system does
not know, the server itself and a stranger.  The client gets the payload twice, under consecutive
ids, and is reported under both names. -/
theorem sendData_isolates_chatting :
    let destinations := [.harbour, ⟨"nowhere", 9000⟩, numbered 1, numbered 9, numbered 3]
    let sent := [.harbour, numbered 1, numbered 3]
    chatting.isClosed = false ∧ 2 ≤ 7 ∧
      ∃ report after, chatting.sendData 0 [1, 2, 3] destinations .chat 2 = .ok (report, after) ∧
        report.sent = sent ∧ report.failed.map Prod.fst = [⟨"nowhere", 9000⟩, numbered 9] ∧
        chatting.sendData 0 [1, 2, 3] sent .chat 2 = .ok ({ sent }, after) ∧
        after.node.delivered = [⟨"window", .chat, [1, 2, 3]⟩] ∧
        after.node.outbox.schedule.waiting.map Scheduled.nextHop =
          List.replicate 4 (numbered 2) ∧
        after.node.outbox.nextId = chatting.node.outbox.nextId + 2 := by
  intro destinations sent
  have isOpen : chatting.isClosed = false := rfl
  have valid : 2 ≤ 7 := by decide
  rcases sendData_isolates chatting 0 [1, 2, 3] destinations .chat 2 isOpen valid with
    ⟨report, after, whole, sentEq, failedEq, _, posted, anew⟩
  have sentAre : report.sent = sent := sentEq.trans (by decide +kernel)
  have roomEq : after.node.toMailroom = (chatting.node.toMailroom.postToEach 0 [1, 2, 3]
      (.data .chat 2) destinations).2 := by rw [posted]
  refine ⟨isOpen, valid, report, after, whole, sentAre, failedEq.trans (by decide +kernel),
    sentAre ▸ anew, ?_, ?_, ?_⟩
  · rw [roomEq]
    decide +kernel
  · rw [roomEq]
    decide +kernel
  · rw [roomEq]
    decide +kernel

end Station

end ClusterOverlay
