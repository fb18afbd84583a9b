import ClusterOverlay.Packet

/-!
# The binary form of packets

Writing a packet and reading it back gives the packet, and reading a string
and writing the packet gives the string, but for the three reserved bits of
its second byte: these are written as zero whatever was read.  Nothing else is
lost, and nothing else is refused than what is too short for a header and what
names one of the eight channels that do not exist.

`Packet.decode_eq_ok_iff` says which strings are read as a given packet, and
`Packet.codec_exact` puts the two directions together.  The channel is the only
field whose codes are fewer than its values, and the only one that lies across
two bytes: it is described here by its position in the sixteen-bit word that a
packet starts with, and `Packet.toNat_channelField` says that this is the
number that `Packet.decode` looks up.
-/

namespace ClusterOverlay

/-! ## Codes that are read -/

/-- What a first step and a second give together, if both succeed. -/
theorem exists_of_bind_eq_ok {ε α β : Type} {first : Except ε α}
    {second : α → Except ε β} {result : β} (both : first >>= second = .ok result) :
    ∃ middle, first = .ok middle ∧ second middle = .ok result := by
  cases first with
  | error cause => contradiction
  | ok middle => exact ⟨middle, rfl, both⟩

/-- Of two steps that fail together, the first fails or the second does. -/
theorem error_or_of_bind_eq_error {ε α β : Type} {first : Except ε α}
    {second : α → Except ε β} {cause : ε} (both : first >>= second = .error cause) :
    first = .error cause ∨ ∃ middle, first = .ok middle ∧ second middle = .error cause := by
  cases first with
  | error other =>
      cases both
      exact .inl rfl
  | ok middle => exact .inr ⟨middle, rfl, both⟩

/-- What is made of a result, if there is one. -/
theorem exists_of_map_eq_ok {ε α β : Type} {first : Except ε α} {make : α → β} {result : β}
    (made : first.map make = .ok result) : ∃ middle, first = .ok middle ∧ make middle = result := by
  cases first with
  | error cause => contradiction
  | ok middle =>
      cases made
      exact ⟨middle, rfl, rfl⟩

/-- A route is read from its own code only. -/
theorem Route.ofCode_eq_ok_iff {code : UInt8} {route : Route} :
    ofCode code = .ok route ↔ code = route.code := by
  constructor
  · intro read
    unfold ofCode at read
    split at read <;> cases read <;> rfl
  · rintro rfl
    exact ofCode_code route

/-- A channel is read from its own code only. -/
theorem Channel.ofCode_eq_ok_iff {code : UInt8} {channel : Channel} :
    ofCode code = .ok channel ↔ code = channel.code := by
  constructor
  · intro read
    unfold ofCode at read
    split at read <;> cases read <;> rfl
  · rintro rfl
    exact ofCode_code channel

/-- A content is read from its own code only. -/
theorem Content.ofCode_eq_ok_iff {code : UInt8} {content : Content} :
    ofCode code = .ok content ↔ code = content.code := by
  constructor
  · intro read
    unfold ofCode at read
    split at read <;> cases read <;> rfl
  · rintro rfl
    exact ofCode_code content

/-- The channels have the codes below eight. -/
theorem Channel.exists_ofCode_eq_ok_iff {code : Nat} (bound : code < 256) :
    (∃ channel, ofCode (UInt8.ofNat code) = .ok channel) ↔ code < 8 := by
  constructor
  · rintro ⟨channel, read⟩
    have codeBound := channel.code_lt
    rw [← ofCode_eq_ok_iff.mp read, UInt8.toNat_ofNat'] at codeBound
    omega
  · intro small
    match code, small with
    | 0, _ => exact ⟨networking, rfl⟩
    | 1, _ => exact ⟨screenSharing, rfl⟩
    | 2, _ => exact ⟨canvas, rfl⟩
    | 3, _ => exact ⟨uiUx, rfl⟩
    | 4, _ => exact ⟨controller, rfl⟩
    | 5, _ => exact ⟨ai, rfl⟩
    | 6, _ => exact ⟨cloud, rfl⟩
    | 7, _ => exact ⟨chat, rfl⟩

/-- Every three-bit code is that of a content. -/
theorem Content.exists_ofCode_eq_ok {code : Nat} (bound : code < 8) :
    ∃ content, ofCode (UInt8.ofNat code) = .ok content := by
  match code, bound with
  | 0, _ => exact ⟨hello, rfl⟩
  | 1, _ => exact ⟨alive, rfl⟩
  | 2, _ => exact ⟨add, rfl⟩
  | 3, _ => exact ⟨remove, rfl⟩
  | 4, _ => exact ⟨network, rfl⟩
  | 5, _ => exact ⟨close, rfl⟩
  | 6, _ => exact ⟨coalesced, rfl⟩
  | 7, _ => exact ⟨data, rfl⟩

namespace Packet

/-! ## The first word -/

/-- The sixteen bits that a string starts with. -/
def firstWord : Bytes → BitVec 16
  | high :: low :: _ => high.toBitVec ++ low.toBitVec
  | _ => 0

/-- The four bits of the channel: bits 5 to 8, counted from the most
significant one. -/
def channelField (raw : Bytes) : BitVec 4 :=
  (firstWord raw).extractLsb' 7 4

/-- A string with the three low bits of its second byte, which are reserved,
set to zero. -/
def clearReserved (raw : Bytes) : Bytes :=
  raw.modify 1 (· &&& 0xF8)

/-- The first byte of the first word is the more significant one. -/
theorem toNat_firstWord (high low : UInt8) (rest : Bytes) :
    (firstWord (high :: low :: rest)).toNat = high.toNat * 256 + low.toNat := by
  rw [firstWord, BitVec.toNat_append, ← Nat.shiftLeft_add_eq_or_of_lt low.toBitVec.isLt,
    Nat.shiftLeft_eq]
  rfl

/-- The channel consists of the three low bits of the first byte and of the
high bit of the second one. -/
theorem toNat_channelField (high low : UInt8) (rest : Bytes) :
    (channelField (high :: low :: rest)).toNat = high.toNat % 8 * 2 + low.toNat / 128 := by
  have lowBound := low.toNat_lt
  rw [channelField, BitVec.extractLsb'_toNat, toNat_firstWord, Nat.shiftRight_eq_div_pow]
  omega

set_option maxRecDepth 10000 in
private theorem mask_table : ∀ byte : Fin 256,
    (UInt8.ofNat byte.val &&& 0xF8).toNat = byte.val / 8 * 8 := by
  decide

/-- Clearing the three low bits leaves the multiple of eight below. -/
theorem toNat_mask (byte : UInt8) : (byte &&& 0xF8).toNat = byte.toNat / 8 * 8 := by
  simpa using mask_table ⟨byte.toNat, byte.toNat_lt⟩

/-! ## The layout -/

/-- The bytes of a packet whose first two bytes are given as they are. -/
def layout (lead flag : UInt8) (destination : Endpoint) (messageId index count : UInt32)
    (payload : Bytes) : Bytes :=
  lead :: flag :: destination.address.bytes ++ Bytes.ofUInt16 destination.port ++
    Bytes.ofUInt32 messageId ++ Bytes.ofUInt32 index ++ Bytes.ofUInt32 count ++ payload

variable {lead flag : UInt8} {destination : Endpoint} {messageId index count : UInt32}
  {payload : Bytes}

/-- Twelve bytes and more start with three words. -/
theorem exists_eq_words {bytes : Bytes} (long : 12 ≤ bytes.length) :
    ∃ first second third later, bytes =
      Bytes.ofUInt32 first ++ Bytes.ofUInt32 second ++ Bytes.ofUInt32 third ++ later := by
  match bytes, long with
  | m₀ :: m₁ :: m₂ :: m₃ :: i₀ :: i₁ :: i₂ :: i₃ :: c₀ :: c₁ :: c₂ :: c₃ :: later, _ =>
    exists Bytes.toUInt32 m₀ m₁ m₂ m₃, Bytes.toUInt32 i₀ i₁ i₂ i₃, Bytes.toUInt32 c₀ c₁ c₂ c₃, later
    simp

/-- Every string with room for a header has this layout. -/
theorem exists_eq_layout {raw : Bytes} (long : headerLength ≤ raw.length) :
    ∃ lead flag destination messageId index count payload,
      raw = layout lead flag destination messageId index count payload := by
  match raw, long with
  | lead :: flag :: a₀ :: a₁ :: a₂ :: a₃ :: p₀ :: p₁ :: later, long =>
    have wordsLong : 12 ≤ later.length := by
      simpa [headerLength] using long
    obtain ⟨messageId, index, count, payload, rfl⟩ := exists_eq_words wordsLong
    exists lead, flag, ⟨⟨a₀, a₁, a₂, a₃⟩, Bytes.toUInt16 p₀ p₁⟩, messageId, index, count, payload
    simp [layout, Ipv4.bytes]

theorem encode_eq_layout (packet : Packet) :
    packet.encode = layout packet.leadByte packet.flagByte packet.destination packet.messageId
      packet.index packet.count packet.payload :=
  rfl

theorem clearReserved_layout :
    clearReserved (layout lead flag destination messageId index count payload) =
      layout lead (flag &&& 0xF8) destination messageId index count payload :=
  rfl

/-- What is read when the layout is right: three codes are looked up, the rest
is taken as it is. -/
theorem decode_layout :
    decode (layout lead flag destination messageId index count payload) = do
      let route ← Route.ofCode (UInt8.ofNat (lead.toNat / 64))
      let channel ← Channel.ofCode (UInt8.ofNat (lead.toNat % 8 * 2 + flag.toNat / 128))
      let content ← Content.ofCode (UInt8.ofNat (flag.toNat / 16 % 8))
      return {
        route, channel, content, destination, messageId, index, count, payload
        priority := Fin.ofNat 8 (lead.toNat / 8)
        broadcast := flag.toNat / 8 % 2 == 1 } := by
  simp only [layout, Ipv4.bytes, Bytes.ofUInt16, Bytes.ofUInt32, List.cons_append,
    List.nil_append, decode, Bytes.toUInt16_bytes, Bytes.toUInt32_bytes]

/-! ## Reading and writing -/

/-- What has no room for a header is refused, with its length. -/
theorem decode_of_length_lt {raw : Bytes} (short : raw.length < headerLength) :
    decode raw = .error (.truncated raw.length) := by
  unfold decode
  split
  · simp only [List.length_cons, headerLength] at short
    omega
  · rfl

@[simp]
theorem length_clearReserved (raw : Bytes) : (clearReserved raw).length = raw.length :=
  List.length_modify ..

/-- The reserved bits are not looked at. -/
theorem decode_clearReserved (raw : Bytes) : decode (clearReserved raw) = decode raw := by
  rcases Nat.lt_or_ge raw.length headerLength with short | long
  · have lengthEq := length_clearReserved raw
    rw [decode_of_length_lt short, decode_of_length_lt (lengthEq ▸ short), lengthEq]
  · obtain ⟨lead, flag, destination, messageId, index, count, payload, rfl⟩ :=
      exists_eq_layout long
    have channelEq : (flag &&& 0xF8).toNat / 128 = flag.toNat / 128 := by
      rw [toNat_mask]
      omega
    have contentEq : (flag &&& 0xF8).toNat / 16 % 8 = flag.toNat / 16 % 8 := by
      rw [toNat_mask]
      omega
    have broadcastEq : (flag &&& 0xF8).toNat / 8 % 2 = flag.toNat / 8 % 2 := by
      rw [toNat_mask]
      omega
    rw [clearReserved_layout, decode_layout, decode_layout, channelEq, contentEq, broadcastEq]

/-- A string is a packet exactly when it has room for a header and names a
channel that exists. -/
theorem exists_decode_eq_ok_iff {raw : Bytes} :
    (∃ packet, decode raw = .ok packet) ↔
      headerLength ≤ raw.length ∧ channelField raw < 8 := by
  rcases Nat.lt_or_ge raw.length headerLength with short | long
  · simp [decode_of_length_lt short, Nat.not_le.mpr short]
  · obtain ⟨lead, flag, destination, messageId, index, count, payload, rfl⟩ :=
      exists_eq_layout long
    have leadBound := lead.toNat_lt
    have flagBound := flag.toNat_lt
    have field : channelField (layout lead flag destination messageId index count payload) < 8 ↔
        lead.toNat % 8 * 2 + flag.toNat / 128 < 8 := by
      rw [BitVec.lt_def, ← toNat_channelField]
      rfl
    obtain ⟨route, routeEq⟩ := Route.exists_ofCode_eq_ok (show lead.toNat / 64 < 4 by omega)
    obtain ⟨content, contentEq⟩ :=
      Content.exists_ofCode_eq_ok (show flag.toNat / 16 % 8 < 8 by omega)
    rw [field, ← Channel.exists_ofCode_eq_ok_iff (by omega), and_iff_right long, decode_layout,
      routeEq, contentEq]
    cases Channel.ofCode (UInt8.ofNat (lead.toNat % 8 * 2 + flag.toNat / 128)) with
    | error cause => simp [bind, Except.bind]
    | ok channel => simp [bind, Except.bind, pure, Except.pure]

/-- A route and a channel that are read from the first byte are written there. -/
theorem leadByte_of_codes {lead : UInt8} {packet : Packet} {rest : Nat}
    (routeEq : packet.route.code.toNat = lead.toNat / 64)
    (priorityEq : packet.priority.val = lead.toNat / 8 % 8)
    (channelEq : packet.channel.code.toNat = lead.toNat % 8 * 2 + rest) (restLt : rest < 2) :
    packet.leadByte = lead := by
  have leadBound := lead.toNat_lt
  apply UInt8.toNat_inj.mp
  simp only [leadByte, UInt8.toNat_ofNat']
  omega

/-- What is read from the second byte is written there, without the reserved
bits. -/
theorem flagByte_of_codes {flag : UInt8} {packet : Packet} {rest : Nat}
    (channelEq : packet.channel.code.toNat = rest * 2 + flag.toNat / 128)
    (contentEq : packet.content.code.toNat = flag.toNat / 16 % 8)
    (broadcastEq : packet.broadcast.toNat = flag.toNat / 8 % 2) :
    packet.flagByte = flag &&& 0xF8 := by
  have flagBound := flag.toNat_lt
  apply UInt8.toNat_inj.mp
  rw [toNat_mask]
  simp only [flagByte, UInt8.toNat_ofNat']
  omega

/-- Writing what was read gives the string back, but for the reserved bits. -/
theorem encode_of_decode {raw : Bytes} {packet : Packet} (read : decode raw = .ok packet) :
    packet.encode = clearReserved raw := by
  obtain ⟨lead, flag, destination, messageId, index, count, payload, rfl⟩ :=
    exists_eq_layout (headerLength_le_of_decode read)
  have leadBound := lead.toNat_lt
  have flagBound := flag.toNat_lt
  rw [decode_layout] at read
  obtain ⟨route, routeRead, read⟩ := exists_of_bind_eq_ok read
  obtain ⟨channel, channelRead, read⟩ := exists_of_bind_eq_ok read
  obtain ⟨content, contentRead, read⟩ := exists_of_bind_eq_ok read
  cases read
  have routeEq : route.code.toNat = lead.toNat / 64 := by
    rw [← Route.ofCode_eq_ok_iff.mp routeRead, UInt8.toNat_ofNat']
    omega
  have channelEq : channel.code.toNat = lead.toNat % 8 * 2 + flag.toNat / 128 := by
    rw [← Channel.ofCode_eq_ok_iff.mp channelRead, UInt8.toNat_ofNat']
    omega
  have contentEq : content.code.toNat = flag.toNat / 16 % 8 := by
    rw [← Content.ofCode_eq_ok_iff.mp contentRead, UInt8.toNat_ofNat']
    omega
  have broadcastEq : (flag.toNat / 8 % 2 == 1).toNat = flag.toNat / 8 % 2 := by
    rcases Nat.mod_two_eq_zero_or_one (flag.toNat / 8) with even | odd
    · simp [even]
    · simp [odd]
  rw [clearReserved_layout, encode_eq_layout,
    leadByte_of_codes routeEq rfl channelEq (by omega),
    flagByte_of_codes channelEq contentEq broadcastEq]

/-- What is not the header is the payload. -/
theorem length_of_decode {raw : Bytes} {packet : Packet} (read : decode raw = .ok packet) :
    raw.length = headerLength + packet.payload.length := by
  rw [← length_clearReserved, ← encode_of_decode read, length_encode]

/-- A string is read as a packet exactly when it is that packet written, but
for the reserved bits. -/
theorem decode_eq_ok_iff {raw : Bytes} {packet : Packet} :
    decode raw = .ok packet ↔ clearReserved raw = packet.encode := by
  constructor
  · intro read
    exact (encode_of_decode read).symm
  · intro written
    rw [← decode_clearReserved, written, decode_encode]

/-- Reading inverts writing.  The strings that can be read are those of twenty
bytes or more whose channel is one of the eight that exist, and writing inverts
reading but for the reserved bits. -/
theorem codec_exact :
    (∀ packet, decode (encode packet) = .ok packet) ∧
    ∀ raw,
      ((∃ packet, decode raw = .ok packet) ↔ 20 ≤ raw.length ∧ channelField raw < 8) ∧
      ∀ packet, decode raw = .ok packet → encode packet = clearReserved raw := by
  constructor
  · exact decode_encode
  · intro raw
    constructor
    · exact exists_decode_eq_ok_iff
    · intro packet read
      exact encode_of_decode read

end Packet

end ClusterOverlay
