import ClusterOverlay.Packet

/-!
# Frames on a byte stream

On a connection every packet travels as one frame, its length in front:

```text
length of packet : 32 bits | packet
```

A frame is complete once all its bytes are there.  A length above the limit
ends the stream: the reader refuses it before any of the packet has arrived.
`Framing.read` gives the packets of a whole stream and says how it ended, and a
`Framing.Reader` does the same piece by piece.  `Framing.take?_eq_some_iff` says
which streams start with a complete frame.
-/

namespace ClusterOverlay

namespace Framing

/-- The frame that carries a packet. -/
def frame (packet : Bytes) : Bytes :=
  Bytes.ofUInt32 (UInt32.ofNat packet.length) ++ packet

/-- Split a complete frame off the front of a stream. -/
def take? (stream : Bytes) : Option (Bytes × Bytes) :=
  match Bytes.takeUInt32? stream with
  | some (length, rest) =>
      if length.toNat ≤ Packet.frameLimit ∧ length.toNat ≤ rest.length then
        some (rest.take length.toNat, rest.drop length.toNat)
      else
        none
  | none => none

/-- A complete frame can be split off exactly when the stream starts with the
frame of a packet that is not too long. -/
theorem take?_eq_some_iff {stream packet rest : Bytes} :
    take? stream = some (packet, rest) ↔
      packet.length ≤ Packet.frameLimit ∧ stream = frame packet ++ rest := by
  constructor
  · intro found
    unfold take? at found
    split at found
    · next length body word =>
        rw [Bytes.takeUInt32?_eq_some_iff] at word
        split at found
        · next fits =>
            simp only [Option.some.injEq, Prod.mk.injEq] at found
            obtain ⟨rfl, rfl⟩ := found
            have taken : (body.take length.toNat).length = length.toNat := by
              rw [List.length_take]
              omega
            refine ⟨by omega, ?_⟩
            rw [frame, taken, UInt32.ofNat_toNat, List.append_assoc, List.take_append_drop]
            exact word
        · contradiction
    · contradiction
  · rintro ⟨short, rfl⟩
    have lengthBack : (UInt32.ofNat packet.length).toNat = packet.length := by
      have limit : Packet.frameLimit < 2 ^ 32 := by decide
      simp only [UInt32.toNat_ofNat']
      omega
    simp [take?, frame, lengthBack, short]

theorem length_frame (packet : Bytes) : (frame packet).length = 4 + packet.length := by
  simp [frame]

theorem length_lt_of_take? {stream packet rest : Bytes}
    (split : take? stream = some (packet, rest)) : rest.length < stream.length := by
  obtain ⟨-, rfl⟩ := take?_eq_some_iff.mp split
  rw [List.length_append, length_frame]
  omega

/-- The packets in the complete frames at the front of a stream, and what
follows. -/
def packets (stream : Bytes) : List Bytes × Bytes :=
  match _found : take? stream with
  | some (packet, rest) =>
      let (others, remainder) := packets rest
      (packet :: others, remainder)
  | none => ([], stream)
  termination_by stream.length
  decreasing_by exact length_lt_of_take? _found

/-! ## Whole streams -/

/-- How a stream ended. -/
inductive Ending
  /-- Between two frames, or within a length. -/
  | clean
  /-- With a frame of this many bytes, which is too long. -/
  | oversized (length : Nat)
  /-- Within a packet. -/
  | broken
  deriving DecidableEq, Repr

/-- How a stream ended, judged from what follows its last complete frame. -/
def ending (remainder : Bytes) : Ending :=
  match Bytes.takeUInt32? remainder with
  | some (length, _) =>
      if Packet.frameLimit < length.toNat then .oversized length.toNat else .broken
  | none => .clean

/-- The packets of a whole stream, and how it ended. -/
def read (stream : Bytes) : List Bytes × Ending :=
  let (found, remainder) := packets stream
  (found, ending remainder)

/-! ## Piece by piece -/

/-- A reader of a stream. -/
structure Reader where
  /-- The bytes that belong to no complete frame yet. -/
  unread : Bytes
  /-- Whether the reader still reads. -/
  isOpen : Bool
  deriving DecidableEq, Repr

namespace Reader

/-- A reader of which nothing has been asked. -/
def fresh : Reader :=
  ⟨[], true⟩

/-- Read a piece, and give out the packets that it completes.  A frame that is
too long closes the reader. -/
def feed (reader : Reader) (piece : Bytes) : List Bytes × Reader :=
  if reader.isOpen then
    let (found, remainder) := packets (reader.unread ++ piece)
    match ending remainder with
    | .oversized _ => (found, ⟨[], false⟩)
    | .clean => (found, ⟨remainder, true⟩)
    | .broken => (found, ⟨remainder, true⟩)
  else
    ([], reader)

/-- Read no more. -/
def close (reader : Reader) : Reader :=
  { reader with isOpen := false }

end Reader

end Framing

end ClusterOverlay
