import ClusterOverlay.Proofs.Framing
import ClusterOverlay.Proofs.Node.Outgoing
import ClusterOverlay.Proofs.Node.Silence
import ClusterOverlay.Proofs.Station.Calls

/-!
# Everything that waits fits a frame

The check of a configuration leaves room for a header beside the payload of a fragment, and
a reader gives out nothing that is too long for a frame.  So neither what a node sends nor
what it relays is refused anywhere: `Outbox.Fits` holds of its outbox from the start, and
everything that the outbox ever gains is a fragment of its own or a packet as long as one
that was read.  `Station.frames_accepted` says what follows for the schedule, for the
connections and for the reader on the other side.
-/

namespace ClusterOverlay

/-! ## Packets -/

namespace Packet

variable {raw : Bytes}

/-- There is room for a header, and the packet is not too long for a frame. -/
def Fits (raw : Bytes) : Prop :=
  headerLength ≤ raw.length ∧ raw.length ≤ frameLimit

/-- A schedule accepts what has a header. -/
theorem Fits.exists_add (fits : Fits raw) (schedule : Schedule) (now : Nat) (nextHop : Peer) :
    ∃ after, schedule.add now nextHop raw = .ok after := by
  rw [Schedule.add, peekPriority, if_neg (Nat.not_lt.mpr fits.1)]
  exact ⟨_, rfl⟩

/-- Whatever else is wrong with a connection, it is not the length of the packet. -/
theorem Fits.write_ne_frameTooLarge (fits : Fits raw) (reach : Reach) (transport : Transport)
    (peer : Peer) (length : Nat) :
    transport.write reach raw peer ≠ .error (.frameTooLarge length) := by
  have short : transport.checkPacket raw ≠ .error (.frameTooLarge length) := by
    unfold Transport.checkPacket
    rw [if_neg (Nat.not_lt.mpr fits.2)]
    split <;> simp
  have connects : transport.connect reach peer ≠ .error (.frameTooLarge length) := by
    unfold Transport.connect
    split
    · simp
    · split <;> simp
  intro refused
  rcases error_or_of_bind_eq_error refused with refused | ⟨_, _, refused⟩
  · exact short refused
  · rcases error_or_of_bind_eq_error refused with refused | ⟨_, _, refused⟩
    · exact connects refused
    · contradiction

theorem length_le_of_mem_slices {limit : Nat} {payload piece : Bytes}
    (pieceMem : piece ∈ slices limit payload) : piece.length ≤ max limit 1 := by
  fun_induction slices limit payload with
  | case1 payload short =>
      rw [List.mem_singleton.mp pieceMem]
      exact short
  | case2 payload long inductionHypothesis =>
      rcases List.mem_cons.mp pieceMem with rfl | later
      · exact List.length_take_le _ _
      · exact inductionHypothesis later

theorem fits_of_mem_fragments {packet fragment : Packet} {limit : Nat} {messageId : UInt32}
    (room : max limit 1 + headerLength ≤ frameLimit)
    (fragmentMem : fragment ∈ packet.fragments limit messageId) : Fits fragment.encode := by
  obtain ⟨index, bound, rfl⟩ := List.mem_mapIdx.mp fragmentMem
  have short := length_le_of_mem_slices (List.getElem_mem bound)
  rw [Fits, length_encode]
  constructor
  · exact Nat.le_add_right _ _
  · simp only
    omega

end Packet

/-- Relays are as long as what they were read from. -/
theorem View.fits_of_mem_relays {view : View} {role : Role} {raw sent : Bytes} {nextHop : Peer}
    (short : raw.length ≤ Packet.frameLimit) (relayed : (nextHop, sent) ∈ view.relays role raw) :
    Packet.Fits sent := by
  obtain ⟨packet, route, read, rewritten, _⟩ := exists_passes_of_mem_relays relayed
  have lengthEq : sent.length = raw.length :=
    (Packet.length_of_decode rewritten).trans (Packet.length_of_decode read).symm
  exact ⟨Packet.headerLength_le_of_decode rewritten, lengthEq ▸ short⟩

/-! ## Outboxes -/

namespace Outbox

/-- Everything that waits fits a frame, and so will every fragment. -/
structure Fits (outbox : Outbox) : Prop where
  room : max outbox.maxPayload 1 + Packet.headerLength ≤ Packet.frameLimit
  waiting : ∀ item ∈ outbox.schedule.waiting, Packet.Fits item.packet

variable {former latter : Outbox} {new : Scheduled → Prop}

theorem Fits.gains (fits : former.Fits) (gains : former.Gains new latter)
    (newFit : ∀ item, new item → Packet.Fits item.packet) : latter.Fits := by
  refine ⟨gains.limitEq ▸ fits.room, fun item waits => ?_⟩
  exact (gains.waiting item waits).elim (fits.waiting item) (newFit item)

theorem Fits.of_carries (fits : former.Fits) {item : Scheduled} {payload : Bytes}
    {envelope : Envelope} (carries : item.Carries former.maxPayload payload envelope) :
    Packet.Fits item.packet := by
  obtain ⟨_, _, _, fragment, fragmentMem, packetEq⟩ := carries
  rw [packetEq]
  exact Packet.fits_of_mem_fragments fits.room fragmentMem

theorem Fits.of_conveys (fits : former.Fits) {item : Scheduled} {message : Control}
    (conveys : item.Conveys former.maxPayload message) : Packet.Fits item.packet := by
  obtain ⟨_, _, carries⟩ := conveys
  exact fits.of_carries carries

end Outbox

/-! ## Mailrooms -/

namespace Mailroom

variable {room : Mailroom}

theorem fits_flushIfDue (fits : room.outbox.Fits) (now : Nat) :
    (room.flushIfDue now).outbox.Fits := by
  unfold flushIfDue
  split
  · split
    · exact fits.gains (room.gains_flushAged now) fun _ ⟨_, carries⟩ => fits.of_carries carries
    · exact fits
  · exact fits

theorem fits_beatIfDue (fits : room.outbox.Fits) (now : Nat) :
    (room.beatIfDue now).outbox.Fits := by
  unfold beatIfDue
  split
  · split
    · exact fits.gains (room.gains_beat now) fun _ ⟨_, _, conveys⟩ => fits.of_conveys conveys
    · exact fits
  · exact fits

theorem gains_attempt {progress : SendReport × Mailroom} {outcome : Except SendError Mailroom}
    {new : Scheduled → Prop} (peer : Peer)
    (gains : ∀ after, outcome = .ok after → progress.2.outbox.Gains new after.outbox) :
    progress.2.outbox.Gains new (attempt progress peer outcome).2.outbox := by
  cases outcome with
  | error cause => exact .refl _ _
  | ok after => exact gains after rfl

/-- A payload that is sent several times is cut into fragments each time. -/
theorem fits_foldl {ι : Type} (data : Bytes) (envelope : Envelope)
    {step : SendReport × Mailroom → ι → SendReport × Mailroom}
    (each : ∀ (progress : SendReport × Mailroom) (item : ι), progress.2.outbox.Gains
      (·.Carries progress.2.outbox.maxPayload data envelope) (step progress item).2.outbox)
    (fits : room.outbox.Fits) (items : List ι) (report : SendReport) :
    (items.foldl step (report, room)).2.outbox.Fits := by
  have gains := Outbox.gains_foldl (fun progress : SendReport × Mailroom => progress.2.outbox)
    (fun (_ : ι) item => item.Carries room.outbox.maxPayload data envelope)
    (fun progress item limitEq => limitEq ▸ each progress item) items (report, room) rfl
  exact fits.gains gains fun _ ⟨_, _, carries⟩ => fits.of_carries carries

theorem fits_sendToEach (fits : room.outbox.Fits) (now : Nat) (data : Bytes)
    (envelope : Envelope) (peers : List Peer) :
    (room.sendToEach now data envelope peers).2.outbox.Fits := by
  refine fits_foldl data envelope
    (fun progress peer => gains_attempt peer fun after sent => ?_) fits peers {}
  unfold sendData at sent
  split at sent
  · exact gains_send sent
  · contradiction

theorem fits_broadcast (fits : room.outbox.Fits) (now : Nat) (data : Bytes)
    (envelope : Envelope) : (room.broadcast now data envelope).2.outbox.Fits := by
  refine fits_foldl data envelope.toAll
    (fun progress target => gains_attempt target.1 fun after sent => ?_) fits
    room.view.broadcastTargets {}
  cases posted : progress.2.sendDirect now data target.1 target.2 envelope.toAll with
  | error cause =>
      rw [posted] at sent
      contradiction
  | ok other =>
      rw [posted] at sent
      cases sent
      exact (gains_sendDirect posted).mono fun _ => And.right

theorem fits_sendCoalesced (fits : room.outbox.Fits) (now : Nat) (data : Bytes) (peer : Peer)
    (channel : Channel) : (room.sendCoalesced now data peer channel).2.outbox.Fits := by
  unfold sendCoalesced
  split
  · exact fits
  · next canonical _ =>
      have collected : (room.collect now data canonical channel).2.outbox.Fits := fits
      split
      · next filled =>
          rw [filled] at collected
          exact collected
      · next full later filled =>
          rw [filled] at collected
          split
          · next after sent =>
              exact collected.gains (gains_send sent) fun _ => collected.of_carries
          · exact collected

end Mailroom

/-! ## Nodes -/

namespace Node

variable {node : Node}

theorem fits_carryOut (fits : node.outbox.Fits) (now : Nat) (reaction : Reaction) :
    (node.carryOut now reaction).outbox.Fits :=
  fits.gains (node.gains_carryOut now reaction) fun _ ⟨_, _, conveys⟩ => fits.of_conveys conveys

theorem fits_onPacket (fits : node.outbox.Fits) (now : Nat) (sender : Endpoint) {raw : Bytes}
    (short : raw.length ≤ Packet.frameLimit) : (node.onPacket now sender raw).outbox.Fits := by
  refine fits.gains (node.gains_onPacket now sender raw) ?_
  rintro item (relayed | ⟨_, _, _, _, conveys⟩)
  · exact View.fits_of_mem_relays short relayed
  · exact fits.of_conveys conveys

theorem fits_settleNext (fits : node.outbox.Fits) (now : Nat) :
    (node.settleNext now).outbox.Fits := by
  unfold settleNext
  split
  · exact fits
  · next peer rest _ => exact @fits_carryOut { node with timeouts := rest } fits now _

theorem fits_settleTimeouts (fits : node.outbox.Fits) (now : Nat) :
    (node.settleTimeouts now).outbox.Fits := by
  unfold settleTimeouts
  have cleared : ({ node with timeouts := [] } : Node).outbox.Fits := fits
  generalize ({ node with timeouts := [] } : Node) = start at cleared
  induction node.timeouts generalizing start with
  | nil => exact cleared
  | cons peer rest inductionHypothesis =>
      exact inductionHypothesis _ (fits_carryOut cleared now _)

theorem scanIfDue_outbox (node : Node) (now : Nat) : (node.scanIfDue now).outbox = node.outbox := by
  obtain ⟨_, _, scanned⟩ := node.exists_scanIfDue_eq now
  rw [scanned]

theorem maintainIfDue_outbox (node : Node) (now : Nat) :
    (node.maintainIfDue now).outbox = node.outbox := by
  obtain ⟨_, _, maintained⟩ := node.exists_maintainIfDue_eq now
  rw [maintained]

theorem drainIfDue_outbox (node : Node) (now : Nat) :
    (node.drainIfDue now).outbox = node.outbox := by
  obtain ⟨_, _, _, _, _, drained⟩ := node.exists_drainIfDue_eq now
  rw [drained]

theorem fits_attend (fits : node.outbox.Fits) (now : Nat) : (node.attend now).outbox.Fits := by
  unfold attend
  split
  · rw [maintainIfDue_outbox]
    exact fits_settleTimeouts fits now
  · exact fits

/-- Whatever is due, everything that waits afterwards fits a frame. -/
theorem fits_act (fits : node.outbox.Fits) (now : Nat) : (node.act now).outbox.Fits := by
  have turned : (Activity.inTurn (node.activities now) node).outbox.Fits := by
    refine @Activity.inTurn_induction Node (fun state => state.outbox.Fits) _ ?_ node fits
    intro activity activityMem state kept
    simp only [activities, List.mem_cons, List.not_mem_nil, or_false] at activityMem
    rcases activityMem with rfl | rfl | rfl | rfl
    · exact Mailroom.fits_flushIfDue kept now
    · exact fits_attend kept now
    · exact (state.scanIfDue_outbox now).symm ▸ kept
    · exact Mailroom.fits_beatIfDue kept now
  unfold act
  rw [drainIfDue_outbox]
  exact Mailroom.fits_beatIfDue (fits_attend turned now) now

theorem fits_leave (fits : node.outbox.Fits) (now : Nat) : (node.leave now).outbox.Fits := by
  refine fits.gains (node.gains_leave now) ?_
  rintro item (⟨_, carries⟩ | ⟨_, _, conveys⟩)
  · exact fits.of_carries carries
  · exact fits.of_conveys conveys

theorem fits_close (fits : node.outbox.Fits) (now : Nat) : (node.close now).outbox.Fits := by
  unfold close
  split
  · exact @fits_act ((node.leave now).windDown now) (fits_leave fits now) now
  · exact fits

theorem cancel_outbox (node : Node) (now : Nat) : (node.cancel now).outbox = node.outbox := by
  obtain ⟨_, _, _, _, _, ended⟩ := node.exists_cancel_eq now
  rw [ended]

theorem reconcile_outbox (node : Node) (now : Nat) :
    (node.reconcile now).outbox = node.outbox := by
  obtain ⟨_, _, reconciled⟩ := node.exists_reconcile_eq now
  rw [reconciled]

theorem fits_start (fits : node.outbox.Fits) (now : Nat) : (node.start now).outbox.Fits := by
  unfold start
  apply fits_act
  rw [reconcile_outbox]
  exact fits

theorem fits_whileRunning {work : Node → Node} (fits : node.outbox.Fits)
    (worked : (work node).outbox.Fits) : (node.whileRunning work).outbox.Fits := by
  unfold whileRunning
  split
  · exact worked
  · exact fits

end Node

/-! ## Stations -/

/-- What the check of a configuration says of the payload of a fragment. -/
theorem Config.payload_of_check {config : Config} (checked : config.check = .ok ()) :
    config.network.maxPayload ≠ 0 ∧
      config.network.maxPayload + Packet.headerLength ≤ Packet.frameLimit := by
  unfold check at checked
  split at checked
  · contradiction
  · next fits =>
      rw [not_or, Nat.not_lt] at fits
      exact fits

namespace Station

variable {config : Config} {device mainServer : Peer} {firstId : UInt32} {now : Nat}
variable {resolver : Resolver} {listen : Endpoint → Except TransportError UInt16}
variable {station : Station} {call : Call}

theorem fits_start
    (started : start config device mainServer firstId resolver listen now = .ok station) :
    station.node.outbox.Fits := by
  obtain ⟨⟨⟩, checked, started⟩ := exists_of_bind_eq_ok started
  obtain ⟨endpoint, _, started⟩ := exists_of_bind_eq_ok started
  obtain ⟨mainServer, _, started⟩ := exists_of_bind_eq_ok started
  obtain ⟨port, _, started⟩ := exists_of_bind_eq_ok started
  rw [← Except.ok.inj started]
  dsimp only
  have passed : config.check = .ok () := by
    cases outcome : config.check with
    | ok => rfl
    | error cause =>
        rw [outcome] at checked
        contradiction
  obtain ⟨positive, short⟩ := Config.payload_of_check passed
  apply Node.fits_start
  constructor
  · change max config.network.maxPayload 1 + _ ≤ _
    omega
  · intro item waits
    exact absurd waits List.not_mem_nil

/-- If a packet reaches the node, it was read off a stream. -/
def Call.IsFramed : Call → Prop
  | .packet _ _ raw => ∃ stream, raw ∈ (Framing.read stream).1
  | _ => True

/-- Everything that waits fits a frame, whatever happens next. -/
theorem fits_answer (fits : station.node.outbox.Fits) (framed : call.IsFramed) :
    (station.answer call).2.node.outbox.Fits := by
  cases call with
  | packet now sender raw =>
      obtain ⟨stream, rawMem⟩ := framed
      exact Node.fits_whileRunning fits
        (Node.fits_onPacket fits now sender (Framing.length_le_of_mem_read rawMem))
  | scan now => exact (station.node.scanIfDue_outbox now).symm ▸ fits
  | silence now => exact Node.fits_whileRunning fits (Node.fits_settleNext fits now)
  | maintain now =>
      exact Node.fits_whileRunning fits ((station.node.maintainIfDue_outbox now).symm ▸ fits)
  | flush now => exact Mailroom.fits_flushIfDue fits now
  | beat now => exact Mailroom.fits_beatIfDue fits now
  | drain now => exact (station.node.drainIfDue_outbox now).symm ▸ fits
  | write now reach =>
      simp only [answer, settle]
      split
      · exact fits
      · exact fits.gains (station.node.outbox.gains_drain now fun _ => False) fun _ => False.elim
  | sendData now data destinations channel priority =>
      simp only [answer, reported, sendData]
      cases station.checkOpen priority with
      | error cause => exact fits
      | ok _ => exact Mailroom.fits_sendToEach fits now data _ destinations
  | broadcast now data channel priority =>
      simp only [answer, reported, broadcast]
      cases station.checkOpen priority with
      | error cause => exact fits
      | ok _ => exact Mailroom.fits_broadcast fits now data _
  | sendCoalesced now data peer channel =>
      simp only [answer, sendCoalesced]
      split
      · exact fits
      · exact Mailroom.fits_sendCoalesced fits now data peer channel
  | subscribe | unsubscribe => exact fits
  | close now => exact Node.fits_close fits now
  | cancel now => exact (station.node.cancel_outbox now).symm ▸ fits

theorem fits_after (fits : station.node.outbox.Fits) {calls : List Call}
    (framed : ∀ call ∈ calls, call.IsFramed) : (station.after calls).node.outbox.Fits := by
  induction calls generalizing station with
  | nil => exact fits
  | cons call later inductionHypothesis =>
      exact inductionHypothesis (fits_answer fits (framed call List.mem_cons_self))
        fun other otherMem => framed other (List.mem_cons_of_mem _ otherMem)

/-- Whatever happens to a station, as long as the packets that reach it were read off
streams: everything that waits has a header and fits a frame, no connection refuses it for
its length, and the reader on the other side reads it and goes on reading.  Neither does
the schedule refuse what the node sends or relays next. -/
theorem frames_accepted
    (started : start config device mainServer firstId resolver listen now = .ok station)
    {calls : List Call} (framed : ∀ call ∈ calls, call.IsFramed) :
    let node := (station.after calls).node
    (∀ item ∈ node.outbox.schedule.waiting,
      20 ≤ item.packet.length ∧ item.packet.length ≤ 15360 ∧
        (∀ (reach : Reach) (transport : Transport) (peer : Peer) (length : Nat),
          transport.write reach item.packet peer ≠ .error (.frameTooLarge length)) ∧
        ∀ rest, Framing.read (Framing.frame item.packet ++ rest) =
          (item.packet :: (Framing.read rest).1, (Framing.read rest).2)) ∧
    ∀ (later : Nat) (nextHop : Peer) (sent : Bytes),
      ((∃ stream, ∃ raw ∈ (Framing.read stream).1,
          (nextHop, sent) ∈ node.view.relays node.role raw) ∨
        ∃ payload envelope,
          Scheduled.Carries ⟨nextHop, sent⟩ node.outbox.maxPayload payload envelope) →
      ∃ after, node.outbox.schedule.add later nextHop sent = .ok after := by
  intro node
  have fits : node.outbox.Fits := fits_after (fits_start started) framed
  constructor
  · intro item waits
    have itemFits := fits.waiting item waits
    exact ⟨itemFits.1, itemFits.2, itemFits.write_ne_frameTooLarge,
      Framing.read_frame_append itemFits.2⟩
  · rintro later nextHop sent (⟨stream, raw, rawMem, relayed⟩ | ⟨payload, envelope, carries⟩)
    · have short := Framing.length_le_of_mem_read rawMem
      exact (View.fits_of_mem_relays short relayed).exists_add _ later nextHop
    · exact (fits.of_carries carries).exists_add _ later nextHop

/-! ### A packet that is passed on -/

open Peer (numbered)

/-- A packet for the third of the numbered peers. -/
def passing : Bytes :=
  (Outbox.packet [7] ⟨⟨10, 0, 0, 3⟩, 9000⟩ .otherCluster (.data .chat 3)).encode

/-- Two peers say hello to the first, one of them has a packet for the other, and the
application sends something as well. -/
def passingCalls : List Call :=
  [.packet 0 ⟨⟨10, 0, 0, 2⟩, 41000⟩ (Node.greeting 2),
    .packet 0 ⟨⟨10, 0, 0, 3⟩, 41000⟩ (Node.greeting 3),
    .packet 1 ⟨⟨10, 0, 0, 2⟩, 41000⟩ passing,
    .sendData 1 [1, 2, 3] [numbered 2] .chat 3]

theorem isFramed_passingCalls : ∀ call ∈ passingCalls, call.IsFramed := by
  simp only [passingCalls, List.mem_cons, List.not_mem_nil, or_false]
  rintro call (rfl | rfl | rfl | rfl)
  · exact ⟨_, Framing.mem_read_frame (by decide +kernel)⟩
  · exact ⟨_, Framing.mem_read_frame (by decide +kernel)⟩
  · exact ⟨_, Framing.mem_read_frame (by decide +kernel)⟩
  · trivial

/-- The first of the numbered peers passes the packet on, and can write everything that
waits. -/
theorem frames_accepted_passing :
    ∃ station, start {} (numbered 1) (numbered 1) 0 .empty (fun endpoint => .ok endpoint.port) 0 =
        .ok station ∧
      let waiting := (station.after passingCalls).node.outbox.schedule.waiting
      waiting.length = 5 ∧ (∃ item ∈ waiting, item.nextHop = numbered 3 ∧
        item.packet.length = passing.length) ∧
      ∀ item ∈ waiting, 20 ≤ item.packet.length ∧ item.packet.length ≤ 15360 := by
  have known : ((start {} (numbered 1) (numbered 1) 0 .empty (fun endpoint => .ok endpoint.port)
      0).toOption.any fun station =>
        let waiting := (station.after passingCalls).node.outbox.schedule.waiting
        decide (waiting.length = 5 ∧ ∃ item ∈ waiting, item.nextHop = numbered 3 ∧
          item.packet.length = passing.length)) = true := by
    decide +kernel
  cases started :
      start {} (numbered 1) (numbered 1) 0 .empty (fun endpoint => .ok endpoint.port) 0 with
  | error cause =>
      rw [started] at known
      contradiction
  | ok station =>
      rw [started] at known
      obtain ⟨size, passed⟩ := of_decide_eq_true known
      refine ⟨station, rfl, size, passed, fun item waits => ?_⟩
      obtain ⟨long, short, -⟩ := (frames_accepted started isFramed_passingCalls).1 item waits
      exact ⟨long, short⟩

end Station

end ClusterOverlay
