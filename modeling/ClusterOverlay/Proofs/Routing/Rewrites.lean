import ClusterOverlay.Proofs.Membership
import ClusterOverlay.Proofs.Packet
import ClusterOverlay.Proofs.Routing.Relays
import Mathlib.Logic.Relation

/-!
# Rewriting and peeking

A relay replaces the route of a packet and a schedule looks at its priority by the bits of the
first byte alone, without reading the rest.  `Packet.Rewrites` says what such a rewriting keeps,
also of bytes that are no packet, and `Packet.peekPriority_of_decode` that the priority seen is
the one that is read.  No relay changes it, so a packet waits in the same band at every node that
it passes: `Packet.header_agrees`.
-/

namespace ClusterOverlay

namespace Packet

variable {raw rewritten sent : Bytes} {route : Route} {packet : Packet}

/-! ## The first byte -/

/-- A byte with its two high bits replaced by those of a route. -/
def rewriteLead (route : Route) (lead : UInt8) : UInt8 :=
  (lead &&& (0x3F : UInt8)) ||| (route.code <<< (6 : UInt8))

/-- The priority in the first byte. -/
def leadPriority (lead : UInt8) : UInt8 :=
  (lead >>> 3) &&& 0x7

theorem toNat_lowBits (lead : UInt8) : (lead &&& 0x3F).toNat = lead.toNat % 64 :=
  Nat.and_two_pow_sub_one_eq_mod lead.toNat 6

theorem toNat_highBits (lead : UInt8) : (lead >>> 6).toNat = lead.toNat / 64 :=
  Nat.shiftRight_eq_div_pow lead.toNat 6

theorem toNat_leadPriority (lead : UInt8) : (leadPriority lead).toNat = lead.toNat / 8 % 8 := by
  have shifted : (lead >>> 3).toNat = lead.toNat / 8 := Nat.shiftRight_eq_div_pow lead.toNat 3
  rw [leadPriority, UInt8.toNat_and, shifted]
  exact Nat.and_two_pow_sub_one_eq_mod _ 3

/-- The bits of a route and those of the rest do not overlap. -/
theorem toNat_rewriteLead (route : Route) (lead : UInt8) :
    (rewriteLead route lead).toNat = route.code.toNat * 64 + lead.toNat % 64 := by
  have shifted : (route.code <<< 6).toNat = route.code.toNat <<< 6 := by
    cases route <;> rfl
  have small : lead.toNat % 64 < 2 ^ 6 := Nat.mod_lt _ (by decide)
  rw [rewriteLead, UInt8.toNat_or, toNat_lowBits, shifted, Nat.or_comm,
    ← Nat.shiftLeft_add_eq_or_of_lt small, Nat.shiftLeft_eq]

/-- What a byte and the byte rewritten have in common. -/
theorem lowBits_rewriteLead (route : Route) (lead : UInt8) :
    rewriteLead route lead &&& 0x3F = lead &&& 0x3F := by
  apply UInt8.toNat_inj.mp
  rw [toNat_lowBits, toNat_lowBits, toNat_rewriteLead]
  omega

theorem highBits_rewriteLead (route : Route) (lead : UInt8) :
    rewriteLead route lead >>> 6 = route.code := by
  apply UInt8.toNat_inj.mp
  rw [toNat_highBits, toNat_rewriteLead]
  omega

theorem leadPriority_rewriteLead (route : Route) (lead : UInt8) :
    leadPriority (rewriteLead route lead) = leadPriority lead := by
  apply UInt8.toNat_inj.mp
  rw [toNat_leadPriority, toNat_leadPriority, toNat_rewriteLead]
  omega

/-- Replacing the route by the former one undoes a replacement. -/
theorem rewriteLead_rewriteLead {original : Route} {lead : UInt8}
    (former : original.code = lead >>> 6) (route : Route) :
    rewriteLead original (rewriteLead route lead) = lead := by
  apply UInt8.toNat_inj.mp
  rw [toNat_rewriteLead, toNat_rewriteLead, former, toNat_highBits]
  omega

theorem ofNat_div_eq_highBits (lead : UInt8) : UInt8.ofNat (lead.toNat / 64) = lead >>> 6 := by
  have leadBound := lead.toNat_lt
  apply UInt8.toNat_inj.mp
  rw [toNat_highBits, UInt8.toNat_ofNat']
  omega

/-- The two high bits of a byte are the code of a route. -/
theorem exists_code_eq_highBits (lead : UInt8) :
    ∃ original : Route, original.code = lead >>> 6 := by
  have bound : lead.toNat / 64 < 4 := by
    have leadBound := lead.toNat_lt
    omega
  obtain ⟨original, read⟩ := Route.exists_ofCode_eq_ok bound
  exact ⟨original, (Route.ofCode_eq_ok_iff.mp read).symm.trans (ofNat_div_eq_highBits lead)⟩

/-! ## Bytes -/

/-- Rewriting the first byte by its number is rewriting it by its bits. -/
theorem retarget_eq_of_le (long : headerLength ≤ raw.length) (route : Route) :
    retarget route raw = .ok (raw.modifyHead (rewriteLead route)) := by
  rw [retarget_eq_ok_iff]
  refine ⟨long, congrArg (raw.modifyHead ·) (funext fun lead => ?_)⟩
  apply UInt8.toNat_inj.mp
  have codeBound := route.code_lt
  rw [toNat_rewriteLead, UInt8.toNat_ofNat']
  omega

theorem retarget_of_length_lt (short : raw.length < headerLength) (route : Route) :
    retarget route raw = .error (.truncated raw.length) :=
  if_pos short

theorem peekPriority_of_length_lt (short : raw.length < headerLength) :
    peekPriority raw = .error (.truncated raw.length) :=
  if_pos short

/-- The priority seen is in three bits of the first byte. -/
theorem exists_peekPriority_eq (long : headerLength ≤ raw.length) :
    ∃ priority, peekPriority raw = .ok priority ∧
      priority.val = (leadPriority (raw.headD 0)).toNat := by
  rw [toNat_leadPriority]
  exact ⟨_, if_neg (Nat.not_lt.mpr long), rfl⟩

/-- What is seen depends on these three bits and the length only. -/
theorem peekPriority_congr {other : Bytes} (lengthEq : other.length = raw.length)
    (bitsEq : leadPriority (other.headD 0) = leadPriority (raw.headD 0)) :
    peekPriority other = peekPriority raw := by
  have valueEq := congrArg UInt8.toNat bitsEq
  rw [toNat_leadPriority, toNat_leadPriority] at valueEq
  have priorityEq : Fin.ofNat 8 ((other.headD 0).toNat / 8) =
      Fin.ofNat 8 ((raw.headD 0).toNat / 8) := Fin.ext valueEq
  rw [peekPriority, peekPriority, lengthEq, priorityEq]

/-- The bytes differ from others by the two high bits of the first one, which are now those of a
route.  Whatever is read of one is read of the other, but for the route. -/
structure Rewrites (route : Route) (raw rewritten : Bytes) : Prop where
  lengthEq : rewritten.length = raw.length
  tailEq : rewritten.tail = raw.tail
  lowBits : rewritten.headD 0 &&& 0x3F = raw.headD 0 &&& 0x3F
  highBits : rewritten.headD 0 >>> 6 = route.code
  decodeEq : decode rewritten = (decode raw).map fun packet => { packet with route }
  undone : ∃ original : Route, original.code = raw.headD 0 >>> 6 ∧
    retarget original rewritten = .ok raw
  peekEq : peekPriority rewritten = peekPriority raw

theorem rewrites_of_retarget (replaced : retarget route raw = .ok rewritten) :
    Rewrites route raw rewritten := by
  have long := (retarget_eq_ok_iff.mp replaced).1
  have decodeEq := decode_retarget replaced
  rw [retarget_eq_of_le long, Except.ok.injEq] at replaced
  subst replaced
  match raw, long with
  | lead :: later, long =>
    obtain ⟨original, former⟩ := exists_code_eq_highBits lead
    refine ⟨List.length_modifyHead, rfl, lowBits_rewriteLead route lead,
      highBits_rewriteLead route lead, decodeEq, ⟨original, former, ?_⟩, ?_⟩
    · rw [retarget_eq_of_le (by simpa using long)]
      simp [rewriteLead_rewriteLead former]
    · exact peekPriority_congr List.length_modifyHead (leadPriority_rewriteLead route lead)

/-- The route and the priority that are read are those in the first byte. -/
theorem lead_of_decode (read : decode raw = .ok packet) :
    packet.route.code = raw.headD 0 >>> 6 ∧ peekPriority raw = .ok packet.priority := by
  have long := headerLength_le_of_decode read
  obtain ⟨lead, flag, destination, messageId, index, count, payload, rfl⟩ := exists_eq_layout long
  rw [decode_layout] at read
  obtain ⟨route, routeRead, read⟩ := exists_of_bind_eq_ok read
  obtain ⟨_, _, read⟩ := exists_of_bind_eq_ok read
  obtain ⟨_, _, read⟩ := exists_of_bind_eq_ok read
  cases read
  have codeEq := (Route.ofCode_eq_ok_iff.mp routeRead).symm.trans (ofNat_div_eq_highBits lead)
  exact ⟨codeEq, if_neg (Nat.not_lt.mpr long)⟩

/-! ## Hops -/

/-- Some node passes bytes on because of bytes that reach it. -/
def Relayed (raw sent : Bytes) : Prop :=
  ∃ (view : View) (role : Role) (nextHop : Peer), (nextHop, sent) ∈ view.relays role raw

/-- At every hop a packet is the one that set out, but for its route. -/
theorem exists_decode_of_relayed (read : decode raw = .ok packet)
    (hops : Relation.ReflTransGen Relayed raw sent) :
    ∃ route, decode sent = .ok { packet with route } := by
  induction hops with
  | refl => exact ⟨packet.route, read⟩
  | tail _ hop inductionHypothesis =>
      obtain ⟨former, received⟩ := inductionHypothesis
      obtain ⟨view, role, nextHop, relayed⟩ := hop
      obtain ⟨other, route, otherRead, sentRead, _⟩ := View.exists_passes_of_mem_relays relayed
      cases received.symm.trans otherRead
      exact ⟨route, sentRead⟩

end Packet

/-! ## Queues -/

namespace Outbox

/-- Packets for their next hops enter a band one after another. -/
def queueAll (outbox : Outbox) (now : Nat) (band : Band) (packets : List (Peer × Bytes)) :
    Outbox :=
  packets.foldl (fun outbox packet =>
    { outbox with
      schedule := (outbox.schedule.advance now).append band ⟨packet.1, packet.2⟩ }) outbox

/-- What is passed on enters the band of the priority seen in it. -/
theorem forward_of_peekPriority {raw : Bytes} {priority : Fin 8}
    (seen : Packet.peekPriority raw = .ok priority) (outbox : Outbox) (now : Nat)
    (nextHop : Peer) :
    outbox.forward now raw nextHop = .ok { outbox with
      schedule :=
        (outbox.schedule.advance now).append (Band.ofPriority priority) ⟨nextHop, raw⟩ } := by
  rw [forward, Schedule.add, seen]
  rfl

end Outbox

/-- Packets in which one priority is seen are passed on in its band. -/
theorem Node.passOn_outbox {packets : List (Peer × Bytes)} {priority : Fin 8}
    (seen : ∀ packet ∈ packets, Packet.peekPriority packet.2 = .ok priority) (node : Node)
    (now : Nat) :
    (node.passOn now packets).outbox =
      node.outbox.queueAll now (Band.ofPriority priority) packets := by
  induction packets generalizing node with
  | nil => rfl
  | cons first later inductionHypothesis =>
      have queued := Outbox.forward_of_peekPriority (seen first List.mem_cons_self) node.outbox now
        first.1
      have passed := inductionHypothesis (fun packet packetMem =>
        seen packet (List.mem_cons_of_mem _ packetMem)) (passOne now node first)
      rw [passOn, List.foldl_cons, Outbox.queueAll, List.foldl_cons]
      refine passed.trans ?_
      rw [passOne, inMailroom, Mailroom.forward, queued]
      rfl

namespace Packet

open Peer (numbered)

/-- What is done with a packet by its first byte agrees with what is read.  Bytes that have no
room for a header are refused, with their length.  In all others the route can be replaced and a
priority be seen.  The bytes rewritten differ by the bits of the route only, are read as the same
packet with that route or refused for the same reason, and rewriting them with the former route
gives the bytes back.  The priority seen is the one that is read, and writing the packet with its
new route gives the bytes rewritten but for the reserved bits.  However often the packet has been
relayed, every node passes it on in the band of the priority that it set out with, and as the same
packet. -/
theorem header_agrees (raw : Bytes) (route : Route) :
    (raw.length < 20 → retarget route raw = .error (.truncated raw.length) ∧
      peekPriority raw = .error (.truncated raw.length)) ∧
    (20 ≤ raw.length → ∃ rewritten priority, retarget route raw = .ok rewritten ∧
      Rewrites route raw rewritten ∧ peekPriority raw = .ok priority ∧
      priority.val = (leadPriority (raw.headD 0)).toNat) ∧
    ∀ packet, decode raw = .ok packet →
      packet.route.code = raw.headD 0 >>> 6 ∧
      peekPriority raw = .ok packet.priority ∧
      (∀ rewritten, retarget route raw = .ok rewritten →
        { packet with route }.encode = clearReserved rewritten) ∧
      ∀ received, Relation.ReflTransGen Relayed raw received → ∀ (node : Node) (now : Nat),
        let relays := node.view.relays node.role received
        (node.passOn now relays).outbox =
          node.outbox.queueAll now (Band.ofPriority packet.priority) relays ∧
        ∀ relay ∈ relays, ∃ route, { packet with route }.encode = clearReserved relay.2 := by
  refine ⟨fun short => ?_, fun long => ?_, fun packet read => ?_⟩
  · exact ⟨retarget_of_length_lt short route, peekPriority_of_length_lt short⟩
  · obtain ⟨priority, seen, bitsEq⟩ := exists_peekPriority_eq long
    have replaced := retarget_eq_of_le long route
    exact ⟨_, priority, replaced, rewrites_of_retarget replaced, seen, bitsEq⟩
  obtain ⟨codeEq, seen⟩ := lead_of_decode read
  refine ⟨codeEq, seen, ?_, ?_⟩
  · intro rewritten replaced
    apply encode_of_decode
    rw [(rewrites_of_retarget replaced).decodeEq, read]
    rfl
  intro received hops node now relays
  have relayRead : ∀ relay ∈ relays, ∃ route, decode relay.2 = .ok { packet with route } := by
    intro relay relayMem
    exact exists_decode_of_relayed read (hops.tail ⟨node.view, node.role, relay.1, relayMem⟩)
  constructor
  · apply Node.passOn_outbox
    intro relay relayMem
    obtain ⟨final, finalRead⟩ := relayRead relay relayMem
    exact (lead_of_decode finalRead).2
  · intro relay relayMem
    obtain ⟨final, finalRead⟩ := relayRead relay relayMem
    exact ⟨final, encode_of_decode finalRead⟩

/-- A packet of priority five that a server sends up to the main server waits there in the lowest
band, and leaves for the server of its destination. -/
theorem header_agrees_twoHops :
    let packet : Packet :=
      ⟨.otherCluster, 5, .chat, .data, false, ⟨⟨10, 0, 0, 10⟩, 9000⟩, 0, 0, 1, [7]⟩
    let below : View := ⟨⟨[], []⟩, numbered 3, numbered 1, 0⟩
    let room : Mailroom :=
      { view := ⟨⟨[[numbered 1], [numbered 2, numbered 10]], [numbered 1, numbered 2]⟩,
          numbered 1, numbered 1, 0⟩
        listeners := .none
        outbox := ⟨payloadLimit, 0, .create ⟨8, 4, 2⟩ 100 500 0⟩
        batcher := .empty 2048 0 }
    let main : Node := { Node.create {} room with role := .mainServer }
    let sent := { packet with route := .sameCluster }.encode
    retarget .use [7] = .error (.truncated 1) ∧
      20 ≤ packet.encode.length ∧ decode packet.encode = .ok packet ∧
      below.relays .clusterServer packet.encode = [(numbered 1, packet.encode)] ∧
      main.view.relays main.role packet.encode = [(numbered 2, sent)] ∧
      (main.passOn 50 [(numbered 2, sent)]).outbox.schedule.low.first = [⟨numbered 2, sent⟩] ∧
      (∃ rewritten, retarget .use packet.encode = .ok rewritten ∧
        { packet with route := .use }.encode = clearReserved rewritten) := by
  intro packet below room main sent
  have long : 20 ≤ packet.encode.length := by decide
  have read : decode packet.encode = .ok packet := decode_encode packet
  have up : below.relays .clusterServer packet.encode = [(numbered 1, packet.encode)] := by
    decide +kernel
  have hop : Relation.ReflTransGen Relayed packet.encode packet.encode :=
    .single ⟨below, .clusterServer, numbered 1, up ▸ List.mem_singleton_self _⟩
  have relays : main.view.relays main.role packet.encode = [(numbered 2, sent)] := by
    decide +kernel
  obtain ⟨-, rewrites, agrees⟩ := header_agrees packet.encode .use
  obtain ⟨_, _, written, queues⟩ := agrees packet read
  obtain ⟨rewritten, _, replaced, _⟩ := rewrites long
  obtain ⟨queued, _⟩ := queues packet.encode hop main 50
  rw [relays] at queued
  refine ⟨((header_agrees [7] .use).1 (by decide)).1, long, read, up, relays, ?_, rewritten,
    replaced, written rewritten replaced⟩
  exact (congrArg (·.schedule.low.first) queued).trans (by rfl)

end Packet

end ClusterOverlay
