import ClusterOverlay.Proofs.Framing
import ClusterOverlay.Transport

/-!
# What streams consist of

Any stream is complete frames of packets that are not too long, followed by a rest that does not
start with one, in exactly one way: `Framing.Divides` and `divides_iff`.  The rest tells how the
stream ended.  What comes after more of the stream has no influence on what was read before
(`packets_append`), so that a stream may arrive in any pieces, `Reader.feedAll_fresh`.
`Framing.streams_read` puts this together.
-/

namespace ClusterOverlay

namespace Framing

variable {packet stream rest later : Bytes} {found : List Bytes}

/-! ## The grammar of streams -/

theorem take?_eq_none_iff :
    take? stream = none ↔
      ∀ packet later : Bytes, packet.length ≤ Packet.frameLimit →
        stream ≠ frame packet ++ later := by
  simp only [Option.eq_none_iff_forall_ne_some, Prod.forall, ne_eq, take?_eq_some_iff, not_and]

/-- The stream is frames of packets that are not too long, followed by bytes that do not start with
one. -/
structure Divides (stream : Bytes) (found : List Bytes) (rest : Bytes) : Prop where
  streamEq : stream = found.flatMap frame ++ rest
  short : ∀ packet ∈ found, packet.length ≤ Packet.frameLimit
  stops : ∀ packet later : Bytes, packet.length ≤ Packet.frameLimit → rest ≠ frame packet ++ later

theorem packets_of_take?_eq_none (nothing : take? stream = none) :
    packets stream = ([], stream) := by
  rw [packets]
  split
  · next taken =>
      rw [nothing] at taken
      contradiction
  · rfl

/-- Frames in front are read one by one. -/
theorem packets_flatMap_append (short : ∀ packet ∈ found, packet.length ≤ Packet.frameLimit)
    (rest : Bytes) :
    packets (found.flatMap frame ++ rest) = (found ++ (packets rest).1, (packets rest).2) := by
  induction found with
  | nil => rfl
  | cons packet others inductionHypothesis =>
      obtain ⟨packetShort, othersShort⟩ := List.forall_mem_cons.mp short
      rw [List.flatMap_cons, List.append_assoc, packets_frame_append packetShort,
        inductionHypothesis othersShort, List.cons_append]

/-- Streams divide as they are read. -/
theorem divides_packets (stream : Bytes) :
    Divides stream (packets stream).1 (packets stream).2 := by
  fun_induction packets stream with
  | case1 stream packet rest found others remainder restEq inductionHypothesis =>
      rw [restEq] at inductionHypothesis
      obtain ⟨packetShort, streamEq⟩ := take?_eq_some_iff.mp found
      obtain ⟨rfl, othersShort, stops⟩ := inductionHypothesis
      refine ⟨?_, List.forall_mem_cons.mpr ⟨packetShort, othersShort⟩, stops⟩
      rw [streamEq, List.flatMap_cons, List.append_assoc]
  | case2 stream found => exact ⟨rfl, by simp, take?_eq_none_iff.mp found⟩

theorem divides_iff : Divides stream found rest ↔ packets stream = (found, rest) := by
  constructor
  · rintro ⟨rfl, short, stops⟩
    rw [packets_flatMap_append short, packets_of_take?_eq_none (take?_eq_none_iff.mpr stops),
      List.append_nil]
  · intro packetsEq
    have divides := divides_packets stream
    rwa [packetsEq] at divides

/-- What comes later changes nothing about what was read before. -/
theorem packets_append (stream later : Bytes) :
    packets (stream ++ later) =
      ((packets stream).1 ++ (packets ((packets stream).2 ++ later)).1,
        (packets ((packets stream).2 ++ later)).2) := by
  obtain ⟨streamEq, short, -⟩ := divides_packets stream
  calc
    packets (stream ++ later)
    _ = packets ((packets stream).1.flatMap frame ++ ((packets stream).2 ++ later)) := by
        rw [← List.append_assoc, ← streamEq]
    _ = _ := packets_flatMap_append short _

/-! ## How a stream ends -/

theorem length_lt_or_eq_append (bytes : Bytes) :
    bytes.length < 4 ∨ ∃ word later, bytes = Bytes.ofUInt32 word ++ later := by
  cases taken : Bytes.takeUInt32? bytes with
  | none => exact .inl (Bytes.takeUInt32?_eq_none_iff.mp taken)
  | some pair => exact .inr ⟨pair.1, pair.2, Bytes.takeUInt32?_eq_some_iff.mp taken⟩

theorem ending_of_length_lt (short : rest.length < 4) : ending rest = .clean := by
  rw [ending, Bytes.takeUInt32?_eq_none_iff.mpr short]

theorem ending_ofUInt32_append (word : UInt32) (later : Bytes) :
    ending (Bytes.ofUInt32 word ++ later) =
      if Packet.frameLimit < word.toNat then .oversized word.toNat else .broken := by
  rw [ending, Bytes.takeUInt32?_ofUInt32_append]

/-- A length that is too long ends the stream, whatever comes after it. -/
theorem ending_eq_oversized_iff {length : Nat} :
    ending rest = .oversized length ↔
      ∃ word later, rest = Bytes.ofUInt32 word ++ later ∧ word.toNat = length ∧
        Packet.frameLimit < length := by
  constructor
  · intro ended
    rcases length_lt_or_eq_append rest with short | ⟨word, later, rfl⟩
    · rw [ending_of_length_lt short] at ended
      contradiction
    · rw [ending_ofUInt32_append] at ended
      split at ended
      · next long =>
          cases ended
          exact ⟨word, later, rfl, rfl, long⟩
      · contradiction
  · rintro ⟨word, later, rfl, rfl, long⟩
    rw [ending_ofUInt32_append, if_pos long]

theorem ending_eq_clean_iff : ending rest = .clean ↔ rest.length < 4 := by
  refine ⟨fun ended => ?_, ending_of_length_lt⟩
  rcases length_lt_or_eq_append rest with short | ⟨word, later, rfl⟩
  · exact short
  · rw [ending_ofUInt32_append] at ended
    split at ended <;> contradiction

/-- A packet that lacks some of its bytes is no frame. -/
theorem take?_ofUInt32_append_eq_none (word : UInt32) (fits : word.toNat ≤ Packet.frameLimit) :
    take? (Bytes.ofUInt32 word ++ later) = none ↔ later.length < word.toNat := by
  simp [take?, fits]

theorem ending_eq_broken_iff (stops : take? rest = none) :
    ending rest = .broken ↔
      ∃ word later, rest = Bytes.ofUInt32 word ++ later ∧ word.toNat ≤ Packet.frameLimit ∧
        later.length < word.toNat := by
  constructor
  · intro ended
    rcases length_lt_or_eq_append rest with short | ⟨word, later, rfl⟩
    · rw [ending_of_length_lt short] at ended
      contradiction
    · rw [ending_ofUInt32_append] at ended
      split at ended
      · contradiction
      · next fits =>
          have fits := Nat.le_of_not_lt fits
          exact ⟨word, later, rfl, fits, (take?_ofUInt32_append_eq_none word fits).mp stops⟩
  · rintro ⟨word, later, rfl, fits, -⟩
    rw [ending_ofUInt32_append, if_neg (Nat.not_lt_of_le fits)]

theorem take?_eq_none_of_oversized {length : Nat} (ended : ending rest = .oversized length) :
    take? rest = none := by
  obtain ⟨word, later, rfl, rfl, long⟩ := ending_eq_oversized_iff.mp ended
  simp [take?, Nat.not_le_of_lt long]

/-- Nothing is read after a length that is too long. -/
theorem packets_append_of_oversized {length : Nat} (ended : ending rest = .oversized length)
    (later : Bytes) :
    packets (rest ++ later) = ([], rest ++ later) ∧
      ending (rest ++ later) = .oversized length := by
  have stillEnded : ending (rest ++ later) = .oversized length := by
    obtain ⟨word, body, rfl, long⟩ := ending_eq_oversized_iff.mp ended
    exact ending_eq_oversized_iff.mpr ⟨word, body ++ later, List.append_assoc .., long⟩
  exact ⟨packets_of_take?_eq_none (take?_eq_none_of_oversized stillEnded), stillEnded⟩

/-! ## Piece by piece -/

namespace Reader

/-- Read several pieces, and give out the packets that they complete. -/
def feedAll (reader : Reader) : List Bytes → List Bytes × Reader
  | [] => ([], reader)
  | piece :: pieces =>
      let (found, fed) := reader.feed piece
      let (others, last) := fed.feedAll pieces
      (found ++ others, last)

theorem feedAll_cons (reader : Reader) (piece : Bytes) (pieces : List Bytes) :
    reader.feedAll (piece :: pieces) =
      ((reader.feed piece).1 ++ ((reader.feed piece).2.feedAll pieces).1,
        ((reader.feed piece).2.feedAll pieces).2) :=
  rfl

theorem feedAll_of_closed {reader : Reader} (closed : reader.isOpen = false) (pieces : List Bytes) :
    reader.feedAll pieces = ([], reader) := by
  induction pieces with
  | nil => rfl
  | cons piece pieces inductionHypothesis =>
      have refused : reader.feed piece = ([], reader) := by simp [feed, closed]
      rw [feedAll_cons, refused]
      exact inductionHypothesis

theorem feed_of_oversized {unread piece : Bytes} {length : Nat}
    (ended : ending (packets (unread ++ piece)).2 = .oversized length) :
    (⟨unread, true⟩ : Reader).feed piece = ((packets (unread ++ piece)).1, ⟨[], false⟩) := by
  simp [feed, ended]

theorem feed_of_tolerated {unread piece : Bytes}
    (tolerated : ∀ length, ending (packets (unread ++ piece)).2 ≠ .oversized length) :
    (⟨unread, true⟩ : Reader).feed piece =
      ((packets (unread ++ piece)).1, ⟨(packets (unread ++ piece)).2, true⟩) := by
  simp only [feed, if_true]
  split
  · next length ended => exact absurd ended (tolerated length)
  · rfl
  · rfl

/-- A reader that still reads gives out what the whole stream has, and is closed by a length that is
too long. -/
theorem feedAll_unread {unread : Bytes} (stops : take? unread = none)
    (tolerated : ∀ length, ending unread ≠ .oversized length) (pieces : List Bytes) :
    (feedAll ⟨unread, true⟩ pieces).1 = (packets (unread ++ pieces.flatten)).1 ∧
      ((feedAll ⟨unread, true⟩ pieces).2.isOpen = false ↔
        ∃ length, ending (packets (unread ++ pieces.flatten)).2 = .oversized length) := by
  induction pieces generalizing unread with
  | nil =>
      rw [List.flatten_nil, List.append_nil, packets_of_take?_eq_none stops]
      exact ⟨rfl, iff_of_false (by simp [feedAll]) fun ⟨length, ended⟩ => tolerated length ended⟩
  | cons piece pieces inductionHypothesis =>
      rw [List.flatten_cons, ← List.append_assoc, packets_append (unread ++ piece)]
      by_cases closes : ∃ length, ending (packets (unread ++ piece)).2 = .oversized length
      · obtain ⟨length, ended⟩ := closes
        obtain ⟨nothing, stillEnded⟩ := packets_append_of_oversized ended pieces.flatten
        rw [feedAll_cons, feed_of_oversized ended, nothing]
        dsimp only
        rw [feedAll_of_closed rfl]
        exact ⟨rfl, iff_of_true rfl ⟨length, stillEnded⟩⟩
      · have tolerated := not_exists.mp closes
        have stops := take?_eq_none_iff.mpr (divides_packets (unread ++ piece)).stops
        obtain ⟨givenEq, closedIff⟩ := inductionHypothesis stops tolerated
        rw [feedAll_cons, feed_of_tolerated tolerated]
        exact ⟨congrArg _ givenEq, closedIff⟩

/-- However a stream is cut into pieces, its packets are given out, and a length that is too long
closes the reader. -/
theorem feedAll_fresh (pieces : List Bytes) :
    (fresh.feedAll pieces).1 = (read pieces.flatten).1 ∧
      ((fresh.feedAll pieces).2.isOpen = false ↔
        ∃ length, (read pieces.flatten).2 = .oversized length) :=
  feedAll_unread rfl (fun _ => Ending.noConfusion) pieces

end Reader

/-! ## Whole streams -/

theorem read_flatMap_append (short : ∀ packet ∈ found, packet.length ≤ Packet.frameLimit)
    (nothing : take? rest = none) :
    read (found.flatMap frame ++ rest) = (found, ending rest) := by
  rw [read, packets_flatMap_append short, packets_of_take?_eq_none nothing, List.append_nil]

theorem read_flatMap (short : ∀ packet ∈ found, packet.length ≤ Packet.frameLimit) :
    read (found.flatMap frame) = (found, .clean) := by
  rw [← List.append_nil (found.flatMap frame)]
  exact read_flatMap_append short rfl

/-- Writing and reading agree on what fits a frame. -/
theorem checkPacket_eq_ok_iff {transport : Transport} (isOpen : transport.isClosed = false) :
    transport.checkPacket packet = .ok () ↔ read (frame packet) = ([packet], .clean) := by
  rw [Transport.checkPacket, isOpen, if_neg Bool.false_ne_true]
  by_cases short : packet.length ≤ Packet.frameLimit
  · rw [if_neg (Nat.not_lt_of_le short)]
    have back := read_flatMap (List.forall_mem_singleton.mpr short)
    rw [List.flatMap_singleton] at back
    exact iff_of_true rfl back
  · rw [if_pos (Nat.lt_of_not_le short)]
    refine iff_of_false (fun passes => nomatch passes) fun back => short ?_
    have packetMem : packet ∈ (read (frame packet)).1 := by
      rw [back]
      exact List.mem_singleton_self packet
    exact length_le_of_mem_read packetMem

/-- Frames of packets that are not too long are read as these packets.  Any stream is such frames,
followed by a rest that does not start with one, in exactly one way, and these packets are read.
The stream ends with an oversized length exactly when the rest starts with one, within a packet
exactly when some of its bytes are missing, and otherwise cleanly, with less than a length.
Nothing is read after an oversized length.  The same is read in whatever pieces the stream comes,
and what is written is what can be read. -/
theorem streams_read (stream : Bytes) :
    (∀ packets : List Bytes, (∀ packet ∈ packets, packet.length ≤ Packet.frameLimit) →
      read (packets.flatMap frame) = (packets, .clean)) ∧
    (∃ rest, (∀ others left, Divides stream others left ↔ others = (read stream).1 ∧ left = rest) ∧
      (∀ length, (read stream).2 = .oversized length ↔
        ∃ word later, rest = Bytes.ofUInt32 word ++ later ∧ word.toNat = length ∧
          Packet.frameLimit < length) ∧
      ((read stream).2 = .broken ↔
        ∃ word later, rest = Bytes.ofUInt32 word ++ later ∧ word.toNat ≤ Packet.frameLimit ∧
          later.length < word.toNat) ∧
      ((read stream).2 = .clean ↔ rest.length < 4)) ∧
    (∀ packets word later, (∀ packet ∈ packets, packet.length ≤ Packet.frameLimit) →
      Packet.frameLimit < word.toNat →
        read (packets.flatMap frame ++ (Bytes.ofUInt32 word ++ later)) =
          (packets, .oversized word.toNat)) ∧
    (∀ pieces : List Bytes, pieces.flatten = stream →
      (Reader.fresh.feedAll pieces).1 = (read stream).1 ∧
      ((Reader.fresh.feedAll pieces).2.isOpen = false ↔
        ∃ length, (read stream).2 = .oversized length)) ∧
    ∀ (transport : Transport) (packet : Bytes), transport.isClosed = false →
      (transport.checkPacket packet = .ok () ↔ read (frame packet) = ([packet], .clean)) := by
  refine ⟨?_, ⟨(packets stream).2, ?_, ?_, ?_, ?_⟩, ?_, ?_, ?_⟩
  · exact fun packets => read_flatMap
  · intro others left
    rw [divides_iff, Prod.ext_iff]
    exact and_congr eq_comm eq_comm
  · exact fun length => ending_eq_oversized_iff
  · exact ending_eq_broken_iff (take?_eq_none_iff.mpr (divides_packets stream).stops)
  · exact ending_eq_clean_iff
  · intro found word later short long
    have ended := ending_eq_oversized_iff.mpr ⟨word, later, rfl, rfl, long⟩
    rw [read_flatMap_append short (take?_eq_none_of_oversized ended), ended]
  · rintro pieces rfl
    exact Reader.feedAll_fresh pieces
  · exact fun transport packet => checkPacket_eq_ok_iff

/-- An empty packet among others, a length one above the limit, and a packet behind it. -/
theorem streams_read_oversized :
    let found : List Bytes := [[7, 8], [], [9]]
    let word : UInt32 := 15361
    let pieces : List Bytes := [[0, 0], [0, 2, 7], [8, 0, 0, 0, 0, 0, 0, 0, 1, 9, 0, 0, 60],
      [1, 0, 0], [0, 1, 5]]
    (∀ packet ∈ found, packet.length ≤ Packet.frameLimit) ∧ Packet.frameLimit < word.toNat ∧
      pieces.flatten = found.flatMap frame ++ (Bytes.ofUInt32 word ++ frame [5]) ∧
      read pieces.flatten = (found, .oversized 15361) ∧
      (Reader.fresh.feedAll pieces).1 = found ∧
      (Reader.fresh.feedAll pieces).2.isOpen = false := by
  intro found word pieces
  have short : ∀ packet ∈ found, packet.length ≤ Packet.frameLimit := by decide
  have long : Packet.frameLimit < word.toNat := by decide
  have streamEq : pieces.flatten = found.flatMap frame ++ (Bytes.ofUInt32 word ++ frame [5]) := by
    decide
  obtain ⟨-, -, oversized, inPieces, -⟩ := streams_read pieces.flatten
  have readEq : read pieces.flatten = (found, .oversized 15361) := by
    rw [streamEq]
    exact oversized found word (frame [5]) short long
  obtain ⟨givenEq, closedIff⟩ := inPieces pieces rfl
  rw [readEq] at givenEq closedIff
  exact ⟨short, long, streamEq, readEq, givenEq, closedIff.mpr ⟨15361, rfl⟩⟩

end Framing

end ClusterOverlay
