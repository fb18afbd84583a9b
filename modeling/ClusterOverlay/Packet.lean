import ClusterOverlay.Address
import ClusterOverlay.Packet.Kind

/-!
# Packets

The unit of transmission is a header of twenty bytes followed by a payload:

```text
bits 0-1   route         bits 2-4   priority     bits 5-8   channel
bits 9-11  content       bit  12    broadcast    bits 13-15 reserved
bytes 2-5   destination address
bytes 6-7   destination port
bytes 8-11  message id
bytes 12-15 index of the fragment
bytes 16-19 number of fragments
bytes 20..  payload
```

Bit 0 is the most significant bit of the first byte.  Reserved bits are
written as zero and ignored when read.  `Packet.decode_encode` says that
reading inverts writing.  A relay changes the route of a packet, and a
scheduler looks at its priority, without reading the rest: see
`Packet.retarget` and `Packet.peekPriority`.  `Packet.decode_retarget` says
that nothing but the route changes.
-/

namespace ClusterOverlay

/-- A header and a payload. -/
structure Packet where
  route : Route
  priority : Fin 8
  channel : Channel
  content : Content
  broadcast : Bool
  destination : Endpoint
  /-- Shared by all fragments of one message. -/
  messageId : UInt32
  /-- Position of this fragment, counted from zero. -/
  index : UInt32
  /-- Number of fragments of the message; one for a message sent whole. -/
  count : UInt32
  payload : Bytes
  deriving DecidableEq, Repr

namespace Packet

/-- Number of bytes in a header. -/
def headerLength : Nat := 20

/-- Number of bytes that a frame may have. -/
def frameLimit : Nat := 15360

/-- Number of payload bytes that fit a frame beside the header. -/
def payloadLimit : Nat := frameLimit - headerLength

/-- Whether a packet is one of several fragments. -/
def isFragment (packet : Packet) : Bool :=
  1 < packet.count

/-! ## Binary form -/

/-- The first byte of a header: route, priority, and all but the last bit of
the channel. -/
def leadByte (packet : Packet) : UInt8 :=
  UInt8.ofNat (packet.route.code.toNat * 64 + packet.priority.val * 8 +
    packet.channel.code.toNat / 2)

/-- The second byte of a header: the last bit of the channel, content and
broadcast flag. -/
def flagByte (packet : Packet) : UInt8 :=
  UInt8.ofNat (packet.channel.code.toNat % 2 * 128 + packet.content.code.toNat * 16 +
    packet.broadcast.toNat * 8)

/-- The twenty bytes of a header. -/
def header (packet : Packet) : Bytes :=
  packet.leadByte :: packet.flagByte :: packet.destination.address.bytes ++
    Bytes.ofUInt16 packet.destination.port ++ Bytes.ofUInt32 packet.messageId ++
    Bytes.ofUInt32 packet.index ++ Bytes.ofUInt32 packet.count

/-- Write a packet. -/
def encode (packet : Packet) : Bytes :=
  packet.header ++ packet.payload

/-- Read a packet.  All bytes after the header are payload. -/
def decode : Bytes → Except CodecError Packet
  | lead :: flag :: a₀ :: a₁ :: a₂ :: a₃ :: p₀ :: p₁ :: m₀ :: m₁ :: m₂ :: m₃ ::
      i₀ :: i₁ :: i₂ :: i₃ :: c₀ :: c₁ :: c₂ :: c₃ :: payload => do
      let route ← Route.ofCode (UInt8.ofNat (lead.toNat / 64))
      let channel ← Channel.ofCode (UInt8.ofNat (lead.toNat % 8 * 2 + flag.toNat / 128))
      let content ← Content.ofCode (UInt8.ofNat (flag.toNat / 16 % 8))
      return {
        route
        priority := Fin.ofNat 8 (lead.toNat / 8)
        channel
        content
        broadcast := flag.toNat / 8 % 2 == 1
        destination := ⟨⟨a₀, a₁, a₂, a₃⟩, Bytes.toUInt16 p₀ p₁⟩
        messageId := Bytes.toUInt32 m₀ m₁ m₂ m₃
        index := Bytes.toUInt32 i₀ i₁ i₂ i₃
        count := Bytes.toUInt32 c₀ c₁ c₂ c₃
        payload }
  | short => .error (.truncated short.length)

@[simp]
theorem length_header (packet : Packet) : packet.header.length = headerLength := by
  simp [header, headerLength]

@[simp]
theorem length_encode (packet : Packet) :
    packet.encode.length = headerLength + packet.payload.length := by
  simp [encode]

theorem route_leadByte (packet : Packet) :
    UInt8.ofNat (packet.leadByte.toNat / 64) = packet.route.code := by
  have routeBound := packet.route.code_lt
  have channelBound := packet.channel.code_lt
  have priorityBound := packet.priority.isLt
  apply UInt8.toNat_inj.mp
  simp only [leadByte, UInt8.toNat_ofNat']
  omega

theorem priority_leadByte (packet : Packet) :
    Fin.ofNat 8 (packet.leadByte.toNat / 8) = packet.priority := by
  have routeBound := packet.route.code_lt
  have channelBound := packet.channel.code_lt
  have priorityBound := packet.priority.isLt
  apply Fin.ext
  simp only [leadByte, UInt8.toNat_ofNat', Fin.ofNat]
  omega

theorem channel_leadByte_flagByte (packet : Packet) :
    UInt8.ofNat (packet.leadByte.toNat % 8 * 2 + packet.flagByte.toNat / 128) =
      packet.channel.code := by
  have routeBound := packet.route.code_lt
  have channelBound := packet.channel.code_lt
  have contentBound := packet.content.code_lt
  have flagBound := packet.broadcast.toNat_lt
  have priorityBound := packet.priority.isLt
  apply UInt8.toNat_inj.mp
  simp only [leadByte, flagByte, UInt8.toNat_ofNat']
  omega

theorem content_flagByte (packet : Packet) :
    UInt8.ofNat (packet.flagByte.toNat / 16 % 8) = packet.content.code := by
  have contentBound := packet.content.code_lt
  have flagBound := packet.broadcast.toNat_lt
  apply UInt8.toNat_inj.mp
  simp only [flagByte, UInt8.toNat_ofNat']
  omega

theorem broadcast_flagByte (packet : Packet) :
    (packet.flagByte.toNat / 8 % 2 == 1) = packet.broadcast := by
  have contentBound := packet.content.code_lt
  cases broadcast : packet.broadcast <;>
    simp only [flagByte, broadcast, UInt8.toNat_ofNat', Bool.toNat_true, Bool.toNat_false,
      beq_iff_eq, beq_eq_false_iff_ne, ne_eq] <;>
    omega

/-- Reading what was written gives the packet back. -/
@[simp]
theorem decode_encode (packet : Packet) : decode packet.encode = .ok packet := by
  simp only [encode, header, Ipv4.bytes, Bytes.ofUInt16, Bytes.ofUInt32, List.cons_append,
    List.nil_append, decode, route_leadByte, channel_leadByte_flagByte, content_flagByte,
    Route.ofCode_code, Channel.ofCode_code, Content.ofCode_code, Bytes.toUInt16_bytes,
    Bytes.toUInt32_bytes, priority_leadByte, broadcast_flagByte]
  rfl

/-- Only a string that has room for a header is a packet. -/
theorem headerLength_le_of_decode {raw : Bytes} {packet : Packet}
    (decoded : decode raw = .ok packet) : headerLength ≤ raw.length := by
  unfold decode at decoded
  split at decoded
  · simp [headerLength]
  · contradiction

/-! ## Looking at a packet without reading it -/

/-- A packet with its route replaced and nothing else touched. -/
def retarget (route : Route) (raw : Bytes) : Except CodecError Bytes :=
  if raw.length < headerLength then
    .error (.truncated raw.length)
  else
    .ok (raw.modifyHead fun lead => UInt8.ofNat (route.code.toNat * 64 + lead.toNat % 64))

/-- The route of everything that has a header can be replaced. -/
theorem retarget_eq_ok_iff {route : Route} {raw rewritten : Bytes} :
    retarget route raw = .ok rewritten ↔
      headerLength ≤ raw.length ∧
        rewritten =
          raw.modifyHead fun lead => UInt8.ofNat (route.code.toNat * 64 + lead.toNat % 64) := by
  unfold retarget
  split
  · next short => simp [Nat.not_le.mpr short]
  · next long => simp [Nat.not_lt.mp long, eq_comm]

/-- Replacing the route in the bytes replaces the route of the packet, and
nothing else.  What was no packet remains none. -/
theorem decode_retarget {route : Route} {raw rewritten : Bytes}
    (replaced : retarget route raw = .ok rewritten) :
    decode rewritten = (decode raw).map fun packet => { packet with route } := by
  obtain ⟨long, rfl⟩ := retarget_eq_ok_iff.mp replaced
  match raw, long with
  | lead :: flag :: a₀ :: a₁ :: a₂ :: a₃ :: p₀ :: p₁ :: m₀ :: m₁ :: m₂ :: m₃ ::
      i₀ :: i₁ :: i₂ :: i₃ :: c₀ :: c₁ :: c₂ :: c₃ :: payload, _ =>
    have routeBound := route.code_lt
    have leadBound := lead.toNat_lt
    have codeEq : UInt8.ofNat
        ((UInt8.ofNat (route.code.toNat * 64 + lead.toNat % 64)).toNat / 64) = route.code := by
      apply UInt8.toNat_inj.mp
      simp only [UInt8.toNat_ofNat']
      omega
    have channelEq :
        (UInt8.ofNat (route.code.toNat * 64 + lead.toNat % 64)).toNat % 8 = lead.toNat % 8 := by
      simp only [UInt8.toNat_ofNat']
      omega
    have priorityEq : Fin.ofNat 8
        ((UInt8.ofNat (route.code.toNat * 64 + lead.toNat % 64)).toNat / 8) =
          Fin.ofNat 8 (lead.toNat / 8) := by
      apply Fin.ext
      simp only [UInt8.toNat_ofNat', Fin.ofNat]
      omega
    obtain ⟨former, formerEq⟩ :=
      Route.exists_ofCode_eq_ok (show lead.toNat / 64 < 4 by omega)
    simp only [List.modifyHead_cons, decode, codeEq, channelEq, priorityEq, formerEq,
      Route.ofCode_code]
    cases Channel.ofCode (UInt8.ofNat (lead.toNat % 8 * 2 + flag.toNat / 128)) with
    | error cause => rfl
    | ok channel =>
        cases Content.ofCode (UInt8.ofNat (flag.toNat / 16 % 8)) with
        | error cause => rfl
        | ok content => rfl

/-- Replacing the route of a written packet is writing it with that route. -/
theorem retarget_encode (packet : Packet) (route : Route) :
    retarget route packet.encode = .ok { packet with route }.encode := by
  rw [retarget_eq_ok_iff]
  refine ⟨by simp, ?_⟩
  have formerBound := packet.route.code_lt
  have routeBound := route.code_lt
  have channelBound := packet.channel.code_lt
  have priorityBound := packet.priority.isLt
  have leadEq : { packet with route }.leadByte =
      UInt8.ofNat (route.code.toNat * 64 + packet.leadByte.toNat % 64) := by
    apply UInt8.toNat_inj.mp
    simp only [leadByte, UInt8.toNat_ofNat']
    omega
  rw [encode, header, leadEq]
  rfl

/-- The priority of a packet. -/
def peekPriority (raw : Bytes) : Except CodecError (Fin 8) :=
  if raw.length < headerLength then
    .error (.truncated raw.length)
  else
    .ok (Fin.ofNat 8 ((raw.headD 0).toNat / 8))

/-- The priority seen in a packet's bytes is its priority. -/
@[simp]
theorem peekPriority_encode (packet : Packet) :
    peekPriority packet.encode = .ok packet.priority := by
  have long : ¬ packet.encode.length < headerLength := by simp
  rw [peekPriority, if_neg long]
  exact congrArg Except.ok packet.priority_leadByte

end Packet

end ClusterOverlay
