import ClusterOverlay.Address
import ClusterOverlay.CodecError

/-!
# Peers

A peer is known by the host and port on which it listens.  Peers are compared
by name, never by address: two spellings of one address are two peers.  This
file orders peers, resolves them, and gives their binary form

```text
length of host : 8 bits | host | port : 32 bits
```

The main statement, `Peer.read_eq_ok_iff`, says that reading accepts exactly
what writing produces.
-/

namespace ClusterOverlay

/-- A member of the overlay, named by the host and port of its listener. -/
structure Peer where
  host : String
  port : UInt16
  deriving DecidableEq, Repr

namespace Peer

/-- The written form of a peer, `host:port`. -/
def text (peer : Peer) : String :=
  peer.host ++ ":" ++ peer.port.toNat.repr

/-! ## Order -/

/-- Peers are ordered by host, then by port. -/
def precedes (left right : Peer) : Bool :=
  left.host < right.host || (left.host == right.host && left.port < right.port)

/-- Put a peer into its place in an ascending list, unless it is there already. -/
def insertAscending (peer : Peer) : List Peer → List Peer
  | [] => [peer]
  | head :: tail =>
      if peer = head then head :: tail
      else if peer.precedes head then peer :: head :: tail
      else head :: insertAscending peer tail

@[simp]
theorem mem_insertAscending {peer other : Peer} {peers : List Peer} :
    other ∈ insertAscending peer peers ↔ other = peer ∨ other ∈ peers := by
  induction peers with
  | nil => simp [insertAscending]
  | cons head tail ih =>
      unfold insertAscending
      split
      · next same => subst same; simp
      · split
        · simp
        · simp only [List.mem_cons, ih]
          exact ⟨fun h => by rcases h with h | h | h <;> simp [h],
            fun h => by rcases h with h | h | h <;> simp [h]⟩

/-- The peers of a list in ascending order, each once. -/
def ascending (peers : List Peer) : List Peer :=
  peers.foldr insertAscending []

/-- Arranging a list in ascending order keeps its members. -/
@[simp]
theorem mem_ascending {peer : Peer} {peers : List Peer} :
    peer ∈ ascending peers ↔ peer ∈ peers := by
  induction peers with
  | nil => simp [ascending]
  | cons head tail ih =>
      change peer ∈ insertAscending head (ascending tail) ↔ peer ∈ head :: tail
      simp [ih]

/-! ## Addresses -/

/-- The peer that an endpoint names. -/
def ofEndpoint (endpoint : Endpoint) : Peer :=
  ⟨endpoint.address.text, endpoint.port⟩

/-- The endpoint of a peer, if its host has an address.  As long as no system is
asked, only a host that spells an address has one. -/
def endpoint (peer : Peer) (resolver : Resolver := Resolver.empty) :
    Except CodecError Endpoint :=
  match resolver.address? peer.host with
  | some address => .ok ⟨address, peer.port⟩
  | none => .error (.unresolvableHost peer.host)

/-- The same peer, its host spelled as in the packets addressed to it. -/
def canonical (peer : Peer) (resolver : Resolver := Resolver.empty) : Except CodecError Peer :=
  (peer.endpoint resolver).map ofEndpoint

/-! ## Binary form -/

/-- The bytes of a host in UTF-8. -/
def hostBytes (peer : Peer) : Bytes :=
  Bytes.ofText peer.host

/-- Write a peer; its host may have at most 255 bytes. -/
def encode (peer : Peer) : Except CodecError Bytes :=
  if peer.hostBytes.length < 256 then
    .ok (UInt8.ofNat peer.hostBytes.length :: peer.hostBytes ++
      Bytes.ofUInt32 (UInt32.ofNat peer.port.toNat))
  else
    .error (.hostTooLong peer.hostBytes.length)

/-- Refuse a string with fewer than `needed` bytes left. -/
def require (needed : Nat) (bytes : Bytes) : Except CodecError Unit :=
  if bytes.length < needed then .error (.recordTruncated needed bytes.length) else .ok ()

/-- Read the host and port of a peer whose host has `length` bytes. -/
def readBody (length : Nat) (bytes : Bytes) : Except CodecError (Peer × Bytes) := do
  require (length + 4) bytes
  let some host := Bytes.text? (bytes.take length)
    | .error .invalidHost
  let some (port, rest) := Bytes.takeUInt32? (bytes.drop length)
    | .error (.recordTruncated (length + 4) bytes.length)
  if port.toNat < 65536 then
    .ok (⟨host, UInt16.ofNat port.toNat⟩, rest)
  else
    .error (.invalidPort port)

/-- Read a peer off the front of a byte string. -/
def read : Bytes → Except CodecError (Peer × Bytes)
  | [] => .error (.recordTruncated 1 0)
  | length :: rest => readBody length.toNat rest

/-- Read a peer; bytes after it are ignored. -/
def decode (bytes : Bytes) : Except CodecError Peer :=
  (read bytes).map Prod.fst

theorem encode_eq_ok_iff {peer : Peer} {bytes : Bytes} :
    peer.encode = .ok bytes ↔
      peer.hostBytes.length < 256 ∧
        bytes = UInt8.ofNat peer.hostBytes.length :: peer.hostBytes ++
          Bytes.ofUInt32 (UInt32.ofNat peer.port.toNat) := by
  unfold encode
  split
  · next short => simp [short, eq_comm]
  · next long => simp [long]

theorem require_eq_ok_iff {needed : Nat} {bytes : Bytes} :
    require needed bytes = .ok () ↔ needed ≤ bytes.length := by
  unfold require
  split <;> simp <;> omega

/-- The body of a peer is its host, of the length announced, and its port. -/
theorem readBody_eq_ok_iff {length : Nat} {bytes rest : Bytes} {peer : Peer} :
    readBody length bytes = .ok (peer, rest) ↔
      peer.hostBytes.length = length ∧
        bytes = peer.hostBytes ++ (Bytes.ofUInt32 (UInt32.ofNat peer.port.toNat) ++ rest) := by
  constructor
  · intro found
    unfold readBody at found
    cases enough : require (length + 4) bytes with
    | error cause => simp [enough, bind, Except.bind] at found
    | ok _ =>
        have long : length + 4 ≤ bytes.length := require_eq_ok_iff.mp enough
        simp only [enough, bind, Except.bind] at found
        cases host : Bytes.text? (bytes.take length) with
        | none => simp [host] at found
        | some text =>
            simp only [host] at found
            rw [Bytes.text?_eq_some_iff] at host
            cases word : Bytes.takeUInt32? (bytes.drop length) with
            | none => simp [word] at found
            | some split =>
                obtain ⟨port, remainder⟩ := split
                simp only [word] at found
                rw [Bytes.takeUInt32?_eq_some_iff] at word
                split at found
                · next small =>
                    simp only [Except.ok.injEq, Prod.mk.injEq] at found
                    obtain ⟨rfl, rfl⟩ := found
                    have portBack :
                        UInt32.ofNat (UInt16.ofNat port.toNat).toNat = port := by
                      apply UInt32.toNat_inj.mp
                      simp only [UInt32.toNat_ofNat', UInt16.toNat_ofNat']
                      omega
                    simp only [hostBytes, ← host, portBack, ← word, List.take_append_drop,
                      List.length_take, and_true]
                    omega
                · contradiction
  · rintro ⟨rfl, rfl⟩
    have enough : require (peer.hostBytes.length + 4)
        (peer.hostBytes ++ (Bytes.ofUInt32 (UInt32.ofNat peer.port.toNat) ++ rest)) = .ok () := by
      rw [require_eq_ok_iff]
      simp
    have portBound := peer.port.toNat_lt
    rw [readBody, enough]
    simp [bind, Except.bind, hostBytes, portBound]

/-- Reading accepts exactly what writing produces, whatever follows. -/
theorem read_eq_ok_iff {bytes rest : Bytes} {peer : Peer} :
    read bytes = .ok (peer, rest) ↔ ∃ body, peer.encode = .ok body ∧ bytes = body ++ rest := by
  constructor
  · intro found
    cases bytes with
    | nil => simp [read] at found
    | cons length tail =>
        obtain ⟨lengthEq, rfl⟩ := readBody_eq_ok_iff.mp found
        have bound := length.toNat_lt
        have lengthBack : UInt8.ofNat peer.hostBytes.length = length := by
          rw [lengthEq]
          simp
        refine ⟨_, encode_eq_ok_iff.mpr ⟨by omega, rfl⟩, ?_⟩
        simp [lengthBack]
  · rintro ⟨body, written, rfl⟩
    obtain ⟨short, rfl⟩ := encode_eq_ok_iff.mp written
    have lengthBack : (UInt8.ofNat peer.hostBytes.length).toNat = peer.hostBytes.length := by
      simp only [UInt8.toNat_ofNat']
      omega
    rw [List.append_assoc, List.cons_append, read, readBody_eq_ok_iff]
    exact ⟨lengthBack.symm, rfl⟩

end Peer

end ClusterOverlay
