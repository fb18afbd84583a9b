import ClusterOverlay.Proofs.Node.Silence
import ClusterOverlay.Proofs.Station.Calls

/-!
# Refused packets

A packet may be refused at every depth: its bytes cannot be read, its numbers
contradict each other, its message cannot be read, the role has no use for the
message, or nobody is there to pass it on to.  `Node.Refuses` lists these
reasons, and `Node.Refuses.onPacket` says that before any of them is found
nothing has been done yet: nothing is forgotten, no id is taken, nobody counts
as heard of.  So a refused packet can be left out of a run without a trace, and
so can any number of them: `Station.refused_invisible`.
-/

namespace ClusterOverlay

/-- A node of the role has no use for a message of the content. -/
inductive Role.Ignores : Role → Content → Prop
  | hello {role : Role} (other : role ≠ .mainServer) : Ignores role .hello
  | close : Ignores .mainServer .close
  | add : Ignores .mainServer .add
  | network : Ignores .mainServer .network

/-- Roles ignore messages, not payloads. -/
theorem Role.Ignores.isControl {role : Role} {content : Content} (ignores : role.Ignores content) :
    content ≠ .coalesced ∧ content ≠ .data := by
  cases ignores <;> simp

/-- What is read under a content is a message of that content, except that batches and
payloads of applications carry none. -/
theorem Control.decode_cases {content : Content} {payload : Bytes} {read : Option Control}
    (decoded : decode content payload = .ok read) :
    (content = .coalesced ∨ content = .data) ∨
      ∃ message, read = some message ∧ message.content = content := by
  cases content with
  | coalesced => exact .inl (.inl rfl)
  | data => exact .inl (.inr rfl)
  | close =>
      cases decoded
      exact .inr ⟨_, rfl, rfl⟩
  | hello | alive | add | remove | network =>
      obtain ⟨_, _, rfl⟩ := exists_of_map_eq_ok decoded
      exact .inr ⟨_, rfl, rfl⟩

/-- A client takes in what is for it, and nothing else. -/
theorem View.handle_client {view : View} {packet : Packet} (other : packet.route ≠ .use) :
    view.handle .client packet = .drop := by
  unfold handle
  cases route : packet.route with
  | use => contradiction
  | clusterServer | sameCluster | otherCluster => rfl

/-- Messages that a role has no use for are ignored. -/
theorem View.react_of_ignores {role : Role} {message : Control}
    (ignores : role.Ignores message.content) (view : View) :
    view.react role message = view.ignore := by
  cases message with
  | hello sender =>
      cases role with
      | mainServer => cases ignores with | hello other => contradiction
      | clusterServer | client => rfl
  | add | network | close =>
      cases ignores
      rfl
  | alive | remove => cases ignores

namespace Node

/-! ## Reasons to refuse -/

/-- The node refuses the bytes of a packet. -/
inductive Refuses (node : Node) (raw : Bytes) : Prop
  /-- They are no packet. -/
  | unreadable {cause : CodecError} (read : Packet.decode raw = .error cause)
  /-- The fragment for this node has no place among the fragments of its message. -/
  | misnumbered {packet : Packet} (read : Packet.decode raw = .ok packet)
      (own : packet.route = .use) (numbers : packet.count = 0 ∨ packet.count ≤ packet.index)
  /-- The message of the membership protocol that a whole packet for this node
  carries cannot be read. -/
  | garbled {packet : Packet} {cause : CodecError} (read : Packet.decode raw = .ok packet)
      (own : packet.route = .use) (whole : packet.isFragment = false)
      (networking : packet.channel = .networking)
      (unread : Control.decode packet.content packet.payload = .error cause)
  /-- The role has no use for the message that a whole packet for this node
  carries. -/
  | unsuited {packet : Packet} (read : Packet.decode raw = .ok packet)
      (own : packet.route = .use) (whole : packet.isFragment = false)
      (networking : packet.channel = .networking) (ignores : node.role.Ignores packet.content)
  /-- The node is a client, and the packet is for servers. -/
  | foreign {packet : Packet} (read : Packet.decode raw = .ok packet)
      (other : packet.route ≠ .use) (client : node.role = .client)
  /-- The packet is to be passed on, to a single peer, and there is no way. -/
  | undeliverable {packet : Packet} {reason : DropReason}
      (read : Packet.decode raw = .ok packet) (routed : packet.Routed)
      (single : ¬ (packet.route = .otherCluster ∧ packet.broadcast))
      (dropped : node.view.forward packet.route (Peer.ofEndpoint packet.destination) =
        .drop reason)

variable {node : Node} {now : Nat} {sender : Endpoint} {raw : Bytes} {packet : Packet}

theorem onPacket_of_use (read : Packet.decode raw = .ok packet) (own : packet.route = .use) :
    node.onPacket now sender raw = node.accept now sender packet := by
  simp only [onPacket, read, View.handle, own]

theorem onPacket_of_drop (read : Packet.decode raw = .ok packet)
    (dropped : node.view.handle node.role packet = .drop) :
    node.onPacket now sender raw = node := by
  simp only [onPacket, read, dropped]

/-- A fragment without a place is not looked at any further. -/
theorem accept_of_misnumbered (numbers : packet.count ≤ packet.index) :
    node.accept now sender packet = node := by
  simp only [accept, Reassembly.accept, if_pos numbers]

/-- A whole packet does not touch the messages in reassembly. -/
theorem accept_of_whole (numbers : ¬ packet.count ≤ packet.index)
    (whole : packet.isFragment = false) :
    node.accept now sender packet = node.receive now packet := by
  simp only [accept, Reassembly.accept, if_neg numbers, whole, Bool.false_eq_true, if_false]

/-- A message that cannot be read is not looked at any further. -/
theorem receive_of_garbled {cause : CodecError} (networking : packet.channel = .networking)
    (unread : Control.decode packet.content packet.payload = .error cause) :
    node.receive now packet = node := by
  unfold receive
  rw [if_pos networking]
  cases content : packet.content with
  | coalesced | data => simp [content, Control.decode] at unread
  | hello | alive | add | remove | network | close =>
      rw [content] at unread
      simp only [unread]

/-- A message that the role has no use for changes nothing at all. -/
theorem receive_of_ignores (networking : packet.channel = .networking)
    (ignores : node.role.Ignores packet.content) : node.receive now packet = node := by
  cases decoded : Control.decode packet.content packet.payload with
  | error cause => exact receive_of_garbled networking decoded
  | ok read =>
      rcases Control.decode_cases decoded with (content | content) | ⟨message, rfl, contentEq⟩
      · exact absurd content ignores.isControl.1
      · exact absurd content ignores.isControl.2
      · have carried : packet.control? = some message := by
          simp only [Packet.control?, if_pos networking, decoded]
        rw [receive_of_control?_eq_some carried, onMessage,
          View.react_of_ignores (contentEq ▸ ignores)]
        exact node.carryOut_ignore now

/-- A refused packet changes nothing at all. -/
theorem Refuses.onPacket (refuses : node.Refuses raw) (now : Nat) (sender : Endpoint) :
    node.onPacket now sender raw = node := by
  cases refuses with
  | unreadable read => simp only [Node.onPacket, read]
  | @misnumbered packet read own numbers =>
      rw [onPacket_of_use read own]
      apply accept_of_misnumbered
      rcases numbers with none | beyond
      · rw [none]
        exact UInt32.zero_le
      · exact beyond
  | @garbled packet cause read own whole networking unread =>
      rw [onPacket_of_use read own]
      by_cases numbers : packet.count ≤ packet.index
      · exact accept_of_misnumbered numbers
      · rw [accept_of_whole numbers whole]
        exact receive_of_garbled networking unread
  | @unsuited packet read own whole networking ignores =>
      rw [onPacket_of_use read own]
      by_cases numbers : packet.count ≤ packet.index
      · exact accept_of_misnumbered numbers
      · rw [accept_of_whole numbers whole]
        exact receive_of_ignores networking ignores
  | @foreign packet read other client =>
      apply onPacket_of_drop read
      rw [client]
      exact View.handle_client other
  | @undeliverable packet reason read routed single dropped =>
      apply onPacket_of_drop read
      by_cases client : node.role = .client
      · rw [client]
        apply View.handle_client
        rcases routed with route | route
        · simp [route]
        · simp [route]
      · rw [View.handle_of_routed routed client, if_neg single, dropped]
        rfl

end Node

namespace Station

open Peer (numbered)

/-! ## Runs -/

/-- The members of a list that are marked to be kept. -/
def kept {α : Type} (marked : List (α × Bool)) : List α :=
  (marked.filter Prod.snd).map Prod.fst

section Kept

variable {α : Type} (first : α) (later : List (α × Bool))

theorem kept_cons_true : kept ((first, true) :: later) = first :: kept later :=
  rfl

theorem kept_cons_false : kept ((first, false) :: later) = kept later :=
  rfl

end Kept

/-- The call is a packet that the node refuses. -/
def Refuses (station : Station) (call : Call) : Prop :=
  ∃ now sender raw, call = .packet now sender raw ∧ station.node.Refuses raw

/-- Of the calls of a run, only packets that are refused when they arrive are not marked
to be kept. -/
def Omits (station : Station) : List (Call × Bool) → Prop
  | [] => True
  | (call, isKept) :: later =>
      (isKept = false → station.Refuses call) ∧ (station.answer call).2.Omits later

/-- A packet that is refused leaves the station as it is. -/
theorem answer_of_refuses {station : Station} {call : Call} (refuses : station.Refuses call) :
    station.answer call = (.nothing, station) := by
  obtain ⟨now, sender, raw, rfl, refused⟩ := refuses
  have idle := Node.whileRunning_of_eq (·.onPacket now sender raw) (refused.onPacket now sender)
  simp only [answer, onNode, idle]

/-- Packets that are refused when they arrive may be left out of a run, any number of
them: what becomes of each of the other calls, and of the station at it, is what became of
it in the whole run, and the station is the same in the end. -/
theorem refused_invisible (station : Station) (marked : List (Call × Bool))
    (omits : station.Omits marked) :
    let calls := marked.map Prod.fst
    station.outcomes (kept marked) =
        kept ((station.outcomes calls).zip (marked.map Prod.snd)) ∧
      station.after (kept marked) = station.after calls := by
  induction marked generalizing station with
  | nil => exact ⟨rfl, rfl⟩
  | cons first later inductionHypothesis =>
      rcases first with ⟨call, isKept⟩
      rcases omits with ⟨refuses, laterOmits⟩
      obtain ⟨outcomesEq, afterEq⟩ := inductionHypothesis (station.answer call).2 laterOmits
      cases isKept with
      | true =>
          constructor
          · rw [kept_cons_true, outcomes, outcomesEq]
            rfl
          · rw [kept_cons_true, after_cons, afterEq]
            rfl
      | false =>
          have unchanged : (station.answer call).2 = station := by
            rw [answer_of_refuses (refuses rfl)]
          rw [unchanged] at outcomesEq afterEq
          constructor
          · rw [kept_cons_false, outcomesEq, List.map_cons, outcomes, unchanged]
            rfl
          · rw [kept_cons_false, afterEq, List.map_cons, after_cons, unchanged]

/-- The server of a cluster with one other member, under the main server. -/
def second : Station where
  node := (Node.create {}
    { Node.quietRoom with view := ⟨View.couple, numbered 2, numbered 1, 0⟩ }).start 0
  transport := {}

/-- A packet of the seventh message of a peer outside the overlay. -/
def fromOutside (route : Route) (channel : Channel) (content : Content) (index count : UInt32)
    (payload : Bytes) : Packet :=
  { Outbox.packet payload ⟨⟨10, 0, 0, 9⟩, 9000⟩ route { channel, content, priority := 0 } with
    messageId := 7, index, count }

/-- Packets arrive one after another from the same peer, and all but those of a chat are
refused: no packet, a fragment beyond the last, a hello that cannot be read, one that is for
the main server, and a packet for a stranger. -/
def amongRefused : List (Call × Bool) :=
  let arrives (now : Nat) (raw : Bytes) : Call := .packet now ⟨⟨10, 0, 0, 9⟩, 41000⟩ raw
  [(.subscribe 0 .chat "window", true),
    (arrives 1 [1, 2, 3], false),
    (arrives 2 (fromOutside .use .chat .data 0 2 [1]).encode, true),
    (arrives 3 (fromOutside .use .chat .data 5 2 [6]).encode, false),
    (arrives 4 (fromOutside .use .networking .hello 0 1 []).encode, false),
    (arrives 5 (fromOutside .use .networking .hello 0 1 [1, 97, 0, 0, 35, 40]).encode, false),
    (arrives 6 (fromOutside .sameCluster .chat .data 0 1 [7]).encode, false),
    (.maintain 7, true),
    (arrives 8 (fromOutside .use .chat .data 1 2 [2]).encode, true)]

/-- The two fragments of the chat are put together as if nothing else had come. -/
theorem refused_invisible_amongRefused :
    second.Omits amongRefused ∧
      second.outcomes (kept amongRefused) =
        kept ((second.outcomes (amongRefused.map Prod.fst)).zip
          (amongRefused.map Prod.snd)) ∧
      second.after (kept amongRefused) = second.after (amongRefused.map Prod.fst) ∧
      (second.after (kept amongRefused)).node.delivered = [⟨"window", .chat, [1, 2]⟩] := by
  have omits : second.Omits amongRefused := by
    refine ⟨nofun, fun _ => ⟨_, _, _, rfl, ?_⟩, nofun, fun _ => ⟨_, _, _, rfl, ?_⟩,
      fun _ => ⟨_, _, _, rfl, ?_⟩, fun _ => ⟨_, _, _, rfl, ?_⟩, fun _ => ⟨_, _, _, rfl, ?_⟩, nofun,
      nofun, trivial⟩
    · exact .unreadable rfl
    · exact .misnumbered (Packet.decode_encode _) rfl (.inr (by decide))
    · exact .garbled (Packet.decode_encode _) rfl rfl rfl rfl
    · exact .unsuited (Packet.decode_encode _) rfl rfl rfl (.hello (by decide +kernel))
    · exact .undeliverable (Packet.decode_encode _) (.inl rfl) (by decide)
        (by decide +kernel : _ = Forward.drop .notInCluster)
  obtain ⟨outcomesEq, afterEq⟩ := refused_invisible second amongRefused omits
  exact ⟨omits, outcomesEq, afterEq, by decide +kernel⟩

end Station

end ClusterOverlay
