import ClusterOverlay.Packet
import ClusterOverlay.Table

/-!
# Fragments and their reassembly

A payload that is too long for one packet travels as several fragments: each
carries the whole header, the id of the message, its own index and the number
of fragments.  The receiver keeps the fragments of each message of each sender
apart and gives out the merged packet once every index has arrived, in
whatever order.  A message that takes too long is forgotten.
-/

namespace ClusterOverlay

namespace Packet

/-! ## Cutting -/

/-- A payload cut into pieces of at most `limit` bytes; a limit of zero counts
as one.  The empty payload is one empty piece. -/
def slices (limit : Nat) (payload : Bytes) : List Bytes :=
  if payload.length ≤ max limit 1 then
    [payload]
  else
    payload.take (max limit 1) :: slices limit (payload.drop (max limit 1))
  termination_by payload.length
  decreasing_by simp only [List.length_drop]; omega

/-- The pieces of a payload, put together again. -/
theorem flatten_slices (limit : Nat) (payload : Bytes) :
    (slices limit payload).flatten = payload := by
  fun_induction slices limit payload with
  | case1 => simp
  | case2 payload long ih => simp [ih]

/-- The fragments of a packet, in order.  All of them carry the given message
id. -/
def fragments (limit : Nat) (messageId : UInt32) (packet : Packet) : List Packet :=
  let pieces := slices limit packet.payload
  pieces.mapIdx fun index payload =>
    { packet with
      messageId
      index := UInt32.ofNat index
      count := UInt32.ofNat pieces.length
      payload }

end Packet

/-! ## Putting together -/

/-- The fragments of one message of one sender so far. -/
structure Partial where
  /-- The number of fragments of the whole message. -/
  count : UInt32
  /-- The latest copy of each fragment, by index. -/
  pieces : Table UInt32 Packet
  /-- When the first fragment arrived. -/
  startedAt : Nat

namespace Partial

/-- A message of which nothing has arrived. -/
def start (count : UInt32) (now : Nat) : Partial :=
  ⟨count, Table.empty, now⟩

/-- Take in a fragment.  If the fragments do not agree on their number, all
earlier ones are given up. -/
def add (message : Partial) (now : Nat) (fragment : Packet) : Partial :=
  let message :=
    if message.count = fragment.count then message else start fragment.count now
  { message with pieces := message.pieces.insert fragment.index fragment }

/-- Whether every fragment has arrived. -/
def isComplete (message : Partial) : Bool :=
  message.pieces.size = message.count.toNat

/-- The payloads of all fragments, by index. -/
def payload (message : Partial) : Bytes :=
  (List.range message.count.toNat).flatMap fun index =>
    match message.pieces.find? (UInt32.ofNat index) with
    | some fragment => fragment.payload
    | none => []

/-- The whole message, under the header of its first fragment. -/
def merge? (message : Partial) : Option Packet :=
  (message.pieces.find? 0).map fun first =>
    { first with index := 0, count := 1, payload := message.payload }

end Partial

/-- The messages in reassembly, by message id and sender. -/
structure Reassembly where
  /-- A message is forgotten at this age. -/
  ttl : Nat
  messages : Table (UInt32 × Endpoint) Partial

namespace Reassembly

/-- No message in reassembly. -/
def empty (ttl : Nat) : Reassembly :=
  ⟨ttl, Table.empty⟩

/-- Number of messages in reassembly. -/
def inFlight (reassembly : Reassembly) : Nat :=
  reassembly.messages.size

/-- Forget the messages that are too old. -/
def evict (reassembly : Reassembly) (now : Nat) : Reassembly :=
  { reassembly with
    messages := reassembly.messages.keep fun message => now - message.startedAt < reassembly.ttl }

/-- Take in a fragment of a longer message.  Old messages are forgotten first. -/
def acceptFragment (reassembly : Reassembly) (now : Nat) (sender : Endpoint)
    (fragment : Packet) : Option Packet × Reassembly :=
  let fresh := reassembly.evict now
  let key := (fragment.messageId, sender)
  let message :=
    ((fresh.messages.find? key).getD (Partial.start fragment.count now)).add now fragment
  if message.isComplete then
    (message.merge?, { fresh with messages := fresh.messages.erase key })
  else
    (none, { fresh with messages := fresh.messages.insert key message })

/-- Take in a packet from a sender, and give out the message that it completes.
A packet that is a whole message comes out at once; one whose index is not
below its count is dropped. -/
def accept (reassembly : Reassembly) (now : Nat) (sender : Endpoint) (packet : Packet) :
    Option Packet × Reassembly :=
  if packet.count ≤ packet.index then (none, reassembly)
  else if packet.isFragment then reassembly.acceptFragment now sender packet
  else (some packet, reassembly)

/-- Take in the bytes of a packet; what is no packet is dropped. -/
def acceptRaw (reassembly : Reassembly) (now : Nat) (sender : Endpoint) (raw : Bytes) :
    Option Packet × Reassembly :=
  match Packet.decode raw with
  | .ok packet => reassembly.accept now sender packet
  | .error _ => (none, reassembly)

end Reassembly

end ClusterOverlay
