import ClusterOverlay.Control
import ClusterOverlay.Proofs.Membership
import ClusterOverlay.Proofs.Packet
import ClusterOverlay.Proofs.Peer

/-!
# The binary form of rosters

Peers, placements and rosters have one written form each, and reading accepts
exactly these forms, whatever follows them.  A peer can be written if its host
is short, and with it everything that names peers: nothing else is refused when
it is written.

More can be written than read, because a reader makes demands that a writer does
not check: the index of a placement and the number of members of a cluster must
fit a word, and a roster must be one that `Roster.check` accepts, with at most
eight clusters.  `Roster.Readable` lists these demands, and
`Roster.decode_eq_ok_iff` says that there are no others.  For each part of a
roster there is one lemma of this kind, for reading it off the front of a
string; `membership_codecs` puts the whole forms together, and
`Control.decode_eq_ok_iff` says the same of the messages that are made of them.
-/

namespace ClusterOverlay

/-! ## Steps that succeed -/

section Steps

variable {ε α β γ : Type} {first : Except ε α} {second : Except ε β}

theorem bind_eq_ok_iff {next : α → Except ε β} {result : β} :
    first >>= next = .ok result ↔ ∃ middle, first = .ok middle ∧ next middle = .ok result :=
  ⟨exists_of_bind_eq_ok, by rintro ⟨middle, rfl, done⟩; exact done⟩

/-- A result made of two steps needs both. -/
theorem join_eq_ok_iff {join : α → β → γ} {result : γ} :
    (do return join (← first) (← second)) = .ok result ↔
      ∃ left right, first = .ok left ∧ second = .ok right ∧ result = join left right := by
  simp only [bind_eq_ok_iff]
  constructor
  · rintro ⟨left, leftEq, right, rightEq, made⟩
    cases made
    exact ⟨left, right, leftEq, rightEq, rfl⟩
  · rintro ⟨left, right, leftEq, rightEq, rfl⟩
    exact ⟨left, leftEq, right, rightEq, rfl⟩

/-- What does not succeed fails. -/
theorem exists_eq_error_iff : (∃ cause, first = .error cause) ↔ ¬ ∃ result, first = .ok result := by
  cases first <;> simp

end Steps

/-! ## Peers -/

namespace Peer

/-- Every written peer has a byte for the length of its host, and four for its
port. -/
theorem length_of_encode {peer : Peer} {body : Bytes} (written : peer.encode = .ok body) :
    5 ≤ body.length := by
  obtain ⟨_, rfl⟩ := encode_eq_ok_iff.mp written
  simp

theorem decode_eq_ok_iff {bytes : Bytes} {peer : Peer} :
    decode bytes = .ok peer ↔ ∃ body, peer.encode = .ok body ∧ body <+: bytes := by
  constructor
  · intro found
    obtain ⟨⟨_, rest⟩, split, rfl⟩ := exists_of_map_eq_ok found
    obtain ⟨body, written, rfl⟩ := read_eq_ok_iff.mp split
    exact ⟨body, written, List.prefix_append body rest⟩
  · rintro ⟨body, written, rest, rfl⟩
    rw [decode, read_eq_ok_iff.mpr ⟨body, written, rfl⟩]
    rfl

end Peer

/-! ## Placements -/

namespace Placement

variable {bytes rest : Bytes}

/-- A number can be read exactly when the string starts with a word, and it is
that of the word. -/
theorem readNat_eq_ok_iff {number : Nat} :
    readNat bytes = .ok (number, rest) ↔
      number < UInt32.size ∧ bytes = Bytes.ofUInt32 (UInt32.ofNat number) ++ rest := by
  unfold readNat
  constructor
  · intro found
    split at found
    · next word later split =>
        cases found
        rw [Bytes.takeUInt32?_eq_some_iff] at split
        exact ⟨word.toNat_lt, by rw [UInt32.ofNat_toNat, split]⟩
    · contradiction
  · rintro ⟨small, rfl⟩
    rw [Bytes.takeUInt32?_ofUInt32_append]
    simp only [UInt32.toNat_ofNat_of_lt' small]

theorem encode_eq_ok_iff {placement : Placement} {body : Bytes} :
    placement.encode = .ok body ↔ ∃ name, placement.peer.encode = .ok name ∧
      body = name ++ Bytes.ofUInt32 (UInt32.ofNat placement.cluster) := by
  rw [encode, bind_eq_ok_iff]
  simp only [pure, Except.pure, Except.ok.injEq, eq_comm]

theorem exists_encode_iff {placement : Placement} :
    (∃ body, placement.encode = .ok body) ↔ placement.peer.IsShort := by
  simp only [encode_eq_ok_iff, ← Peer.exists_encode_iff]
  exact ⟨fun ⟨_, name, written, _⟩ => ⟨name, written⟩,
    fun ⟨name, written⟩ => ⟨_, name, written, rfl⟩⟩

/-- Reading accepts exactly the placements whose index fits its word, as they
are written, whatever follows. -/
theorem decode_eq_ok_iff {placement : Placement} :
    decode bytes = .ok placement ↔ placement.cluster < UInt32.size ∧
      ∃ body, placement.encode = .ok body ∧ body <+: bytes := by
  simp only [encode_eq_ok_iff]
  constructor
  · intro found
    obtain ⟨⟨peer, afterPeer⟩, split, found⟩ := exists_of_bind_eq_ok found
    obtain ⟨⟨cluster, later⟩, counted, found⟩ := exists_of_bind_eq_ok found
    cases found
    obtain ⟨name, written, rfl⟩ := Peer.read_eq_ok_iff.mp split
    obtain ⟨small, rfl⟩ := readNat_eq_ok_iff.mp counted
    exact ⟨small, _, ⟨name, written, rfl⟩, later, List.append_assoc ..⟩
  · rintro ⟨small, _, ⟨name, written, rfl⟩, later, rfl⟩
    rw [List.append_assoc, decode, bind_eq_ok_iff]
    refine ⟨(_, _), Peer.read_eq_ok_iff.mpr ⟨name, written, rfl⟩, bind_eq_ok_iff.mpr ?_⟩
    exact ⟨(_, later), readNat_eq_ok_iff.mpr ⟨small, rfl⟩, rfl⟩

end Placement

/-! ## Rosters -/

namespace Roster

variable {bytes rest body : Bytes} {peers : List Peer} {clusters : List (List Peer)}

/-! ### Lists of peers -/

theorem encodePeers_cons_eq_ok_iff {peer : Peer} :
    encodePeers (peer :: peers) = .ok body ↔ ∃ first later, peer.encode = .ok first ∧
      encodePeers peers = .ok later ∧ body = first ++ later := by
  rw [encodePeers]
  exact join_eq_ok_iff

theorem exists_encodePeers_iff :
    (∃ body, encodePeers peers = .ok body) ↔ ∀ peer ∈ peers, peer.IsShort := by
  induction peers with
  | nil => simp [encodePeers]
  | cons peer peers inductionHypothesis =>
      rw [List.forall_mem_cons, ← Peer.exists_encode_iff, ← inductionHypothesis]
      simp only [encodePeers_cons_eq_ok_iff]
      constructor
      · rintro ⟨_, first, later, written, laterWritten, rfl⟩
        exact ⟨⟨first, written⟩, later, laterWritten⟩
      · rintro ⟨⟨first, written⟩, later, laterWritten⟩
        exact ⟨_, first, later, written, laterWritten, rfl⟩

/-- No written list is shorter than five bytes for each of its peers. -/
theorem length_of_encodePeers (written : encodePeers peers = .ok body) :
    peers.length * 5 ≤ body.length := by
  induction peers generalizing body with
  | nil => simp
  | cons peer peers inductionHypothesis =>
      obtain ⟨first, later, firstWritten, laterWritten, rfl⟩ :=
        encodePeers_cons_eq_ok_iff.mp written
      have head := Peer.length_of_encode firstWritten
      have tail := inductionHypothesis laterWritten
      rw [List.length_cons, List.length_append]
      omega

theorem readPeers_eq_ok_iff {count : Nat} :
    readPeers count bytes = .ok (peers, rest) ↔ peers.length = count ∧
      ∃ body, encodePeers peers = .ok body ∧ bytes = body ++ rest := by
  induction count generalizing bytes peers with
  | zero =>
      rw [readPeers, List.length_eq_zero_iff]
      constructor
      · intro found
        cases found
        exact ⟨rfl, [], rfl, rfl⟩
      · rintro ⟨rfl, _, written, rfl⟩
        cases written
        rfl
  | succ count inductionHypothesis =>
      constructor
      · intro found
        obtain ⟨⟨peer, afterPeer⟩, split, found⟩ := exists_of_bind_eq_ok found
        obtain ⟨⟨others, last⟩, laterFound, found⟩ := exists_of_bind_eq_ok found
        cases found
        obtain ⟨first, written, rfl⟩ := Peer.read_eq_ok_iff.mp split
        obtain ⟨rfl, later, laterWritten, rfl⟩ := inductionHypothesis.mp laterFound
        refine ⟨rfl, first ++ later, ?_, (List.append_assoc ..).symm⟩
        exact encodePeers_cons_eq_ok_iff.mpr ⟨first, later, written, laterWritten, rfl⟩
      · rintro ⟨lengthEq, _, written, rfl⟩
        match peers, lengthEq with
        | peer :: others, lengthEq =>
          obtain ⟨first, later, firstWritten, laterWritten, rfl⟩ :=
            encodePeers_cons_eq_ok_iff.mp written
          have laterFound := inductionHypothesis.mpr
            ⟨Nat.succ.inj lengthEq, later, laterWritten, (rfl : later ++ rest = _)⟩
          rw [List.append_assoc, readPeers, bind_eq_ok_iff]
          refine ⟨(_, _), Peer.read_eq_ok_iff.mpr ⟨first, firstWritten, rfl⟩, ?_⟩
          exact bind_eq_ok_iff.mpr ⟨(_, rest), laterFound, rfl⟩

/-! ### Lists with their length -/

theorem encodeCounted_eq_ok_iff :
    encodeCounted peers = .ok body ↔ ∃ listed, encodePeers peers = .ok listed ∧
      body = Bytes.ofUInt32 (UInt32.ofNat peers.length) ++ listed := by
  rw [encodeCounted, bind_eq_ok_iff]
  simp only [pure, Except.pure, Except.ok.injEq, eq_comm]

theorem exists_encodeCounted_iff :
    (∃ body, encodeCounted peers = .ok body) ↔ ∀ peer ∈ peers, peer.IsShort := by
  simp only [encodeCounted_eq_ok_iff, ← exists_encodePeers_iff]
  exact ⟨fun ⟨_, listed, written, _⟩ => ⟨listed, written⟩,
    fun ⟨listed, written⟩ => ⟨_, listed, written, rfl⟩⟩

theorem encodeClusters_cons_eq_ok_iff {cluster : List Peer} :
    encodeClusters (cluster :: clusters) = .ok body ↔ ∃ first later,
      encodeCounted cluster = .ok first ∧ encodeClusters clusters = .ok later ∧
        body = first ++ later := by
  rw [encodeClusters]
  exact join_eq_ok_iff

theorem exists_encodeClusters_iff :
    (∃ body, encodeClusters clusters = .ok body) ↔ ∀ peer ∈ clusters.flatten, peer.IsShort := by
  induction clusters with
  | nil => simp [encodeClusters]
  | cons cluster clusters inductionHypothesis =>
      rw [List.flatten_cons, List.forall_mem_append, ← exists_encodeCounted_iff,
        ← inductionHypothesis]
      simp only [encodeClusters_cons_eq_ok_iff]
      constructor
      · rintro ⟨_, first, later, written, laterWritten, rfl⟩
        exact ⟨⟨first, written⟩, later, laterWritten⟩
      · rintro ⟨⟨first, written⟩, later, laterWritten⟩
        exact ⟨_, first, later, written, laterWritten, rfl⟩

/-- The early look at the length of the string refuses nothing that could be
read. -/
theorem readClusters_eq_ok_iff {count : Nat} :
    readClusters count bytes = .ok (clusters, rest) ↔ clusters.length = count ∧
      (∀ cluster ∈ clusters, cluster.length < UInt32.size) ∧
      ∃ body, encodeClusters clusters = .ok body ∧ bytes = body ++ rest := by
  induction count generalizing bytes clusters with
  | zero =>
      rw [readClusters, List.length_eq_zero_iff]
      constructor
      · intro found
        cases found
        exact ⟨rfl, by simp, [], rfl, rfl⟩
      · rintro ⟨rfl, _, _, written, rfl⟩
        cases written
        rfl
  | succ count inductionHypothesis =>
      constructor
      · intro found
        obtain ⟨⟨members, afterCount⟩, counted, found⟩ := exists_of_bind_eq_ok found
        obtain ⟨_, _, found⟩ := exists_of_bind_eq_ok found
        obtain ⟨⟨cluster, afterCluster⟩, listFound, found⟩ := exists_of_bind_eq_ok found
        obtain ⟨⟨others, last⟩, laterFound, found⟩ := exists_of_bind_eq_ok found
        cases found
        obtain ⟨small, rfl⟩ := Placement.readNat_eq_ok_iff.mp counted
        obtain ⟨rfl, listed, written, rfl⟩ := readPeers_eq_ok_iff.mp listFound
        obtain ⟨rfl, othersSmall, later, laterWritten, rfl⟩ := inductionHypothesis.mp laterFound
        have first := encodeCounted_eq_ok_iff.mpr ⟨listed, written, rfl⟩
        refine ⟨rfl, List.forall_mem_cons.mpr ⟨small, othersSmall⟩, _,
          encodeClusters_cons_eq_ok_iff.mpr ⟨_, later, first, laterWritten, rfl⟩, ?_⟩
        simp only [List.append_assoc]
      · rintro ⟨lengthEq, small, _, written, rfl⟩
        match clusters, lengthEq with
        | cluster :: others, lengthEq =>
          obtain ⟨_, later, counted, laterWritten, rfl⟩ := encodeClusters_cons_eq_ok_iff.mp written
          obtain ⟨listed, listWritten, rfl⟩ := encodeCounted_eq_ok_iff.mp counted
          obtain ⟨firstSmall, othersSmall⟩ := List.forall_mem_cons.mp small
          have room := length_of_encodePeers listWritten
          have laterFound := inductionHypothesis.mpr
            ⟨Nat.succ.inj lengthEq, othersSmall, later, laterWritten, (rfl : later ++ rest = _)⟩
          simp only [List.append_assoc]
          rw [readClusters, bind_eq_ok_iff]
          refine ⟨(_, _), Placement.readNat_eq_ok_iff.mpr ⟨firstSmall, rfl⟩,
            bind_eq_ok_iff.mpr ⟨(), Peer.require_eq_ok_iff.mpr ?_, bind_eq_ok_iff.mpr ?_⟩⟩
          · simp only [List.length_append]
            omega
          · exact ⟨(_, _), readPeers_eq_ok_iff.mpr ⟨rfl, listed, listWritten, rfl⟩,
              bind_eq_ok_iff.mpr ⟨(_, rest), laterFound, rfl⟩⟩

/-! ### Whole rosters -/

theorem readCount_eq_ok_iff {count : Nat} :
    readCount bytes = .ok (count, rest) ↔ count ≤ clusterLimit ∧
      bytes = Bytes.ofUInt32 (UInt32.ofNat count) ++ rest := by
  have limit : clusterLimit < UInt32.size := by decide
  constructor
  · intro found
    obtain ⟨⟨number, later⟩, counted, found⟩ := exists_of_bind_eq_ok found
    simp only at found
    split at found
    · contradiction
    · next within =>
        cases found
        exact ⟨Nat.not_lt.mp within, (Placement.readNat_eq_ok_iff.mp counted).2⟩
  · rintro ⟨within, rfl⟩
    rw [readCount, bind_eq_ok_iff]
    refine ⟨(count, rest), Placement.readNat_eq_ok_iff.mpr ⟨by omega, rfl⟩, ?_⟩
    simp only [if_neg (Nat.not_lt.mpr within)]

/-- The roster is one that a reader accepts: it is led, has no more clusters than
there may be, and the number of members of each cluster fits its word. -/
structure Readable (roster : Roster) : Prop extends Led roster where
  clustersLe : roster.clusters.length ≤ clusterLimit
  counted : ∀ cluster ∈ roster.clusters, cluster.length < UInt32.size

theorem encode_eq_ok_iff {roster : Roster} :
    roster.encode = .ok body ↔ ∃ clusters servers, encodeClusters roster.clusters = .ok clusters ∧
      encodeCounted roster.servers = .ok servers ∧
      body = Bytes.ofUInt32 (UInt32.ofNat roster.clusters.length) ++ clusters ++ servers := by
  rw [encode]
  exact join_eq_ok_iff

/-- A roster can be written exactly when all whom it names have short hosts. -/
theorem exists_encode_iff {roster : Roster} :
    (∃ body, roster.encode = .ok body) ↔
      ∀ peer ∈ roster.members ++ roster.servers, peer.IsShort := by
  rw [List.forall_mem_append, members, ← exists_encodeClusters_iff, ← exists_encodeCounted_iff]
  simp only [encode_eq_ok_iff]
  constructor
  · rintro ⟨_, clusters, servers, clustersWritten, serversWritten, rfl⟩
    exact ⟨⟨clusters, clustersWritten⟩, servers, serversWritten⟩
  · rintro ⟨⟨clusters, clustersWritten⟩, servers, serversWritten⟩
    exact ⟨_, clusters, servers, clustersWritten, serversWritten, rfl⟩

/-- Reading accepts exactly the readable rosters as they are written, whatever
follows. -/
theorem decode_eq_ok_iff {roster : Roster} :
    decode bytes = .ok roster ↔
      roster.Readable ∧ ∃ body, roster.encode = .ok body ∧ body <+: bytes := by
  simp only [encode_eq_ok_iff]
  constructor
  · intro found
    obtain ⟨⟨count, afterCount⟩, counted, found⟩ := exists_of_bind_eq_ok found
    obtain ⟨⟨clusters, afterClusters⟩, clustersFound, found⟩ := exists_of_bind_eq_ok found
    obtain ⟨⟨serverCount, afterServerCount⟩, serversCounted, found⟩ := exists_of_bind_eq_ok found
    obtain ⟨⟨servers, last⟩, serversFound, found⟩ := exists_of_bind_eq_ok found
    obtain ⟨_, checked, found⟩ := exists_of_bind_eq_ok found
    cases found
    obtain ⟨within, rfl⟩ := readCount_eq_ok_iff.mp counted
    obtain ⟨rfl, small, body, written, rfl⟩ := readClusters_eq_ok_iff.mp clustersFound
    obtain ⟨_, rfl⟩ := readCount_eq_ok_iff.mp serversCounted
    obtain ⟨rfl, listed, listWritten, rfl⟩ := readPeers_eq_ok_iff.mp serversFound
    have serversWritten := encodeCounted_eq_ok_iff.mpr ⟨listed, listWritten, rfl⟩
    refine ⟨⟨led_iff_check.mpr checked, within, small⟩, _,
      ⟨body, _, written, serversWritten, rfl⟩, last, ?_⟩
    simp only [List.append_assoc]
  · rintro ⟨readable, _, ⟨body, _, written, serversWritten, rfl⟩, last, rfl⟩
    obtain ⟨listed, listWritten, rfl⟩ := encodeCounted_eq_ok_iff.mp serversWritten
    have serversWithin := readable.lengthEq ▸ readable.clustersLe
    simp only [List.append_assoc]
    rw [decode, bind_eq_ok_iff]
    refine ⟨(_, _), readCount_eq_ok_iff.mpr ⟨readable.clustersLe, rfl⟩, bind_eq_ok_iff.mpr ?_⟩
    refine ⟨(_, _), readClusters_eq_ok_iff.mpr ⟨rfl, readable.counted, body, written, rfl⟩,
      bind_eq_ok_iff.mpr ?_⟩
    refine ⟨(_, _), readCount_eq_ok_iff.mpr ⟨serversWithin, rfl⟩, bind_eq_ok_iff.mpr ?_⟩
    refine ⟨(_, last), readPeers_eq_ok_iff.mpr ⟨rfl, listed, listWritten, rfl⟩,
      bind_eq_ok_iff.mpr ?_⟩
    exact ⟨(), led_iff_check.mp readable.toLed, rfl⟩

end Roster

/-! ## Messages -/

namespace Control

/-- Whom a message names. -/
def named : Control → List Peer
  | hello sender => [sender]
  | alive sender => [sender]
  | add placement => [placement.peer]
  | remove placement => [placement.peer]
  | network roster => roster.members ++ roster.servers
  | close => []

/-- A reader accepts what the message says. -/
def Readable : Control → Prop
  | hello _ => True
  | alive _ => True
  | add placement => placement.cluster < UInt32.size
  | remove placement => placement.cluster < UInt32.size
  | network roster => roster.Readable
  | close => True

theorem exists_encode_iff {message : Control} :
    (∃ body, message.encode = .ok body) ↔ ∀ peer ∈ message.named, peer.IsShort := by
  cases message with
  | hello sender | alive sender =>
      rw [named, List.forall_mem_singleton]
      exact Peer.exists_encode_iff
  | add placement | remove placement =>
      rw [named, List.forall_mem_singleton]
      exact Placement.exists_encode_iff
  | network roster => exact Roster.exists_encode_iff
  | close => exact ⟨fun _ _ nobody => absurd nobody List.not_mem_nil, fun _ => ⟨[], rfl⟩⟩

/-- Under the content of a message, reading accepts exactly the readable messages as
they are written, whatever follows. -/
theorem decode_eq_ok_iff {content : Content} {payload : Bytes} {message : Control} :
    decode content payload = .ok (some message) ↔
      message.content = content ∧ message.Readable ∧
        ∃ body, message.encode = .ok body ∧ body <+: payload := by
  constructor
  · intro found
    cases content with
    | hello | alive =>
        obtain ⟨sender, read, made⟩ := exists_of_map_eq_ok found
        cases made
        exact ⟨rfl, trivial, Peer.decode_eq_ok_iff.mp read⟩
    | add | remove =>
        obtain ⟨placement, read, made⟩ := exists_of_map_eq_ok found
        cases made
        exact ⟨rfl, Placement.decode_eq_ok_iff.mp read⟩
    | network =>
        obtain ⟨roster, read, made⟩ := exists_of_map_eq_ok found
        cases made
        exact ⟨rfl, Roster.decode_eq_ok_iff.mp read⟩
    | close =>
        cases found
        exact ⟨rfl, trivial, [], rfl, List.nil_prefix⟩
    | coalesced | data => cases found
  · rintro ⟨rfl, readable, written⟩
    cases message with
    | hello sender | alive sender =>
        rw [content, decode, Peer.decode_eq_ok_iff.mpr written]
        rfl
    | add placement | remove placement =>
        rw [content, decode, Placement.decode_eq_ok_iff.mpr ⟨readable, written⟩]
        rfl
    | network roster =>
        rw [content, decode, Roster.decode_eq_ok_iff.mpr ⟨readable, written⟩]
        rfl
    | close => rfl

/-- A readable message is read back from what was written. -/
theorem decode_encode {message : Control} {payload : Bytes} (readable : message.Readable)
    (written : message.encode = .ok payload) :
    decode message.content payload = .ok (some message) :=
  decode_eq_ok_iff.mpr ⟨rfl, readable, payload, written, List.prefix_rfl⟩

end Control

/-! ## The three forms together -/

/-- Writing a peer, a placement or a roster fails exactly if a host in it is
longer than 255 bytes.  Reading returns a value exactly from its written form
and whatever follows it, if a reader accepts the value: any peer, a placement
whose index fits a word, a roster that passes the check and keeps to the limits.
So what is written is read back, and what is read was written. -/
theorem membership_codecs :
    (∀ peer : Peer,
      ((∃ cause, peer.encode = .error cause) ↔ 255 < peer.hostBytes.length) ∧
      ∀ bytes, Peer.decode bytes = .ok peer ↔
        ∃ body, peer.encode = .ok body ∧ body <+: bytes) ∧
    (∀ placement : Placement,
      ((∃ cause, placement.encode = .error cause) ↔ 255 < placement.peer.hostBytes.length) ∧
      ∀ bytes, Placement.decode bytes = .ok placement ↔ placement.cluster < UInt32.size ∧
        ∃ body, placement.encode = .ok body ∧ body <+: bytes) ∧
    ∀ roster : Roster,
      ((∃ cause, roster.encode = .error cause) ↔
        ∃ peer ∈ roster.members ++ roster.servers, 255 < peer.hostBytes.length) ∧
      (roster.check = .ok () ↔ roster.clusters.length = roster.servers.length ∧
        ∀ (index : Nat) (cluster : List Peer) (server : Peer),
          roster.clusters[index]? = some cluster → roster.servers[index]? = some server →
            server ∈ cluster) ∧
      ∀ bytes, Roster.decode bytes = .ok roster ↔
        (roster.check = .ok () ∧ roster.clusters.length ≤ 8 ∧
          ∀ cluster ∈ roster.clusters, cluster.length < UInt32.size) ∧
        ∃ body, roster.encode = .ok body ∧ body <+: bytes := by
  refine ⟨fun peer => ⟨?_, fun bytes => Peer.decode_eq_ok_iff⟩,
    fun placement => ⟨?_, fun bytes => Placement.decode_eq_ok_iff⟩,
    fun roster => ⟨?_, ?_, fun bytes => ?_⟩⟩
  · rw [exists_eq_error_iff, Peer.exists_encode_iff, Peer.IsShort, Nat.not_le]
  · rw [exists_eq_error_iff, Placement.exists_encode_iff, Peer.IsShort, Nat.not_le]
  · rw [exists_eq_error_iff, Roster.exists_encode_iff]
    simp only [Peer.IsShort, not_forall, Nat.not_le, exists_prop]
  · rw [← Roster.led_iff_check]
    constructor
    · intro led
      exact ⟨led.lengthEq, fun _ _ _ => led.serverMem⟩
    · rintro ⟨lengthEq, leads⟩
      exact ⟨lengthEq, leads _ _ _⟩
  · rw [Roster.decode_eq_ok_iff, ← Roster.led_iff_check]
    apply and_congr_left
    intro _
    constructor
    · intro readable
      exact ⟨readable.toLed, readable.clustersLe, readable.counted⟩
    · rintro ⟨led, clustersLe, counted⟩
      exact ⟨led, clustersLe, counted⟩

end ClusterOverlay
