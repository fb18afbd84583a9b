import ClusterOverlay.Peer

/-!
# Rosters and placements

A *roster* is a full account of the membership: clusters in order, and for
each cluster the member that leads it, its server.  A *placement* says that
one peer joins or leaves one cluster.  Both have a binary form, built from
that of peers:

```text
placement = peer | cluster : 32 bits
roster    = number of clusters : 32 bits | (number of members : 32 bits | peers)*
            | number of servers : 32 bits | peers
```

Reading a roster refuses one that `Roster.check` refuses, and one of more than
eight clusters.
-/

namespace ClusterOverlay

/-- The largest number of clusters in one overlay. -/
def clusterLimit : Nat := 8

/-! ## Placements -/

/-- A peer and the cluster that it joins or leaves. -/
structure Placement where
  peer : Peer
  cluster : Nat
  deriving DecidableEq, Repr

namespace Placement

/-- Write a placement.  Of the cluster's index the low 32 bits are kept. -/
def encode (placement : Placement) : Except CodecError Bytes := do
  return (← placement.peer.encode) ++ Bytes.ofUInt32 (UInt32.ofNat placement.cluster)

/-- Read a count or an index of 32 bits. -/
def readNat (bytes : Bytes) : Except CodecError (Nat × Bytes) :=
  match Bytes.takeUInt32? bytes with
  | some (word, rest) => .ok (word.toNat, rest)
  | none => .error (.recordTruncated 4 bytes.length)

/-- Read a placement; bytes after it are ignored. -/
def decode (bytes : Bytes) : Except CodecError Placement := do
  let (peer, rest) ← Peer.read bytes
  let (cluster, _) ← readNat rest
  return ⟨peer, cluster⟩

end Placement

/-! ## Rosters -/

/-- Clusters in order, and the server of each. -/
structure Roster where
  clusters : List (List Peer)
  servers : List Peer
  deriving DecidableEq, Repr

namespace Roster

/-- The roster without clusters. -/
def empty : Roster := ⟨[], []⟩

/-- Every cluster has a server, and the server is one of its members. -/
def check (roster : Roster) : Except CodecError Unit :=
  if roster.clusters.length ≠ roster.servers.length then
    .error (.serverCountMismatch roster.clusters.length roster.servers.length)
  else
    match (roster.clusters.zip roster.servers).findIdx? fun (cluster, server) =>
        !cluster.contains server with
    | some index => .error (.serverNotMember index)
    | none => .ok ()

/-! ### Binary form -/

/-- Write the peers of a list one after another. -/
def encodePeers : List Peer → Except CodecError Bytes
  | [] => .ok []
  | peer :: peers => do return (← peer.encode) ++ (← encodePeers peers)

/-- Write a list of peers with its length in front. -/
def encodeCounted (peers : List Peer) : Except CodecError Bytes := do
  return Bytes.ofUInt32 (UInt32.ofNat peers.length) ++ (← encodePeers peers)

/-- Write the clusters of a roster one after another. -/
def encodeClusters : List (List Peer) → Except CodecError Bytes
  | [] => .ok []
  | cluster :: clusters => do return (← encodeCounted cluster) ++ (← encodeClusters clusters)

/-- Write a roster. -/
def encode (roster : Roster) : Except CodecError Bytes := do
  return Bytes.ofUInt32 (UInt32.ofNat roster.clusters.length) ++
    (← encodeClusters roster.clusters) ++ (← encodeCounted roster.servers)

/-- Read a given number of peers. -/
def readPeers : Nat → Bytes → Except CodecError (List Peer × Bytes)
  | 0, bytes => .ok ([], bytes)
  | count + 1, bytes => do
      let (peer, bytes) ← Peer.read bytes
      let (peers, bytes) ← readPeers count bytes
      return (peer :: peers, bytes)

/-- Read a given number of clusters.  A count of members for which the string
is too short, at five bytes a member, is refused before any of them is read. -/
def readClusters : Nat → Bytes → Except CodecError (List (List Peer) × Bytes)
  | 0, bytes => .ok ([], bytes)
  | count + 1, bytes => do
      let (members, bytes) ← Placement.readNat bytes
      Peer.require (members * 5) bytes
      let (cluster, bytes) ← readPeers members bytes
      let (clusters, bytes) ← readClusters count bytes
      return (cluster :: clusters, bytes)

/-- Read the number of clusters, or of servers, which is limited. -/
def readCount (bytes : Bytes) : Except CodecError (Nat × Bytes) := do
  let (count, bytes) ← Placement.readNat bytes
  if clusterLimit < count then
    .error (.tooManyClusters count)
  else
    .ok (count, bytes)

/-- Read a roster; bytes after it are ignored. -/
def decode (bytes : Bytes) : Except CodecError Roster := do
  let (clusterCount, bytes) ← readCount bytes
  let (clusters, bytes) ← readClusters clusterCount bytes
  let (serverCount, bytes) ← readCount bytes
  let (servers, _) ← readPeers serverCount bytes
  let roster : Roster := ⟨clusters, servers⟩
  roster.check
  return roster

end Roster

end ClusterOverlay
