import ClusterOverlay.Listeners
import ClusterOverlay.Peer

/-!
# Batches of small payloads

Small payloads for one peer travel together.  A batch is a concatenation of
records:

```text
length of data : 32 bits | channel : 8 bits | data
```

The sending side keeps one batch per peer, and gives it out once it is long or
old enough.  The receiving side splits a batch into its records and hands each
to the listener of its channel; whatever follows the last complete record is
ignored.  `Record.take?_eq_some_iff` says which strings start with a complete
record.
-/

namespace ClusterOverlay

/-! ## Records -/

/-- One payload of a batch, with the code of its channel as received. -/
structure Record where
  channelCode : UInt8
  data : Bytes
  deriving DecidableEq, Repr

namespace Record

/-- Write a record. -/
def encode (record : Record) : Bytes :=
  Bytes.ofUInt32 (UInt32.ofNat record.data.length) ++ record.channelCode :: record.data

/-- Split a complete record off the front of a byte string. -/
def take? (bytes : Bytes) : Option (Record × Bytes) :=
  match Bytes.takeUInt32? bytes with
  | some (length, channelCode :: rest) =>
      if length.toNat ≤ rest.length then
        some (⟨channelCode, rest.take length.toNat⟩, rest.drop length.toNat)
      else
        none
  | _ => none

/-- A complete record can be split off exactly when the string starts with the
written form of a record whose data is not too long. -/
theorem take?_eq_some_iff {bytes rest : Bytes} {record : Record} :
    take? bytes = some (record, rest) ↔
      record.data.length < UInt32.size ∧ bytes = record.encode ++ rest := by
  constructor
  · intro found
    unfold take? at found
    split at found
    · next length channelCode body word =>
        rw [Bytes.takeUInt32?_eq_some_iff] at word
        split at found
        · next fits =>
            simp only [Option.some.injEq, Prod.mk.injEq] at found
            obtain ⟨rfl, rfl⟩ := found
            have bound := length.toNat_lt
            have taken : (body.take length.toNat).length = length.toNat := by
              rw [List.length_take]
              omega
            refine ⟨by rw [taken]; exact bound, ?_⟩
            rw [encode, taken, UInt32.ofNat_toNat, List.append_assoc, List.cons_append,
              List.take_append_drop]
            exact word
        · contradiction
    · contradiction
  · rintro ⟨short, rfl⟩
    have lengthBack : (UInt32.ofNat record.data.length).toNat = record.data.length := by
      rw [UInt32.toNat_ofNat']
      exact Nat.mod_eq_of_lt short
    simp [take?, encode, lengthBack]

theorem length_encode (record : Record) : record.encode.length = 5 + record.data.length := by
  simp only [encode, List.length_append, Bytes.length_ofUInt32, List.length_cons]
  omega

theorem length_lt_of_take? {bytes rest : Bytes} {record : Record}
    (split : take? bytes = some (record, rest)) : rest.length < bytes.length := by
  obtain ⟨-, rfl⟩ := take?_eq_some_iff.mp split
  rw [List.length_append, length_encode]
  omega

/-- The complete records at the front of a byte string, and what follows. -/
def split (bytes : Bytes) : List Record × Bytes :=
  match _found : take? bytes with
  | some (record, rest) =>
      let (records, remainder) := split rest
      (record :: records, remainder)
  | none => ([], bytes)
  termination_by bytes.length
  decreasing_by exact length_lt_of_take? _found

end Record

namespace Listeners

/-- What the listener of a record's channel gets.  A record of an unknown
channel is skipped. -/
def dispatchRecord (listeners : Listeners) (record : Record) : List Delivery :=
  match Channel.ofCode record.channelCode with
  | .ok channel => listeners.dispatch channel record.data
  | .error _ => []

/-- What the listeners get of a batch, record by record. -/
def dispatchBatch (listeners : Listeners) (batch : Bytes) : List Delivery :=
  (Record.split batch).1.flatMap listeners.dispatchRecord

end Listeners

/-! ## Collecting -/

/-- The records collected for one peer so far. -/
structure Batch where
  payload : Bytes
  /-- When the first record was collected. -/
  startedAt : Nat
  deriving DecidableEq, Repr

/-- A batch on its way to a peer. -/
structure Parcel where
  peer : Peer
  payload : Bytes
  deriving DecidableEq, Repr

/-- The batches being collected, one per peer. -/
structure Batcher where
  /-- A batch of at least this many bytes is full. -/
  threshold : Nat
  /-- A batch leaves at this age at the latest. -/
  maxLatency : Nat
  batches : Table Peer Batch

namespace Batcher

/-- Nothing collected yet. -/
def empty (threshold maxLatency : Nat) : Batcher :=
  ⟨threshold, maxLatency, Table.empty⟩

/-- Number of peers with a batch. -/
def pending (batcher : Batcher) : Nat :=
  batcher.batches.size

/-- Collect a payload for a peer.  If that fills the batch, it is given out. -/
def collect (batcher : Batcher) (now : Nat) (data : Bytes) (peer : Peer) (channel : Channel) :
    Option Parcel × Batcher :=
  let batch := (batcher.batches.find? peer).getD ⟨[], now⟩
  let payload := batch.payload ++ Record.encode ⟨channel.code, data⟩
  if batcher.threshold ≤ payload.length then
    (some ⟨peer, payload⟩, { batcher with batches := batcher.batches.erase peer })
  else
    (none, { batcher with batches := batcher.batches.insert peer { batch with payload } })

/-- The batches of the given peers, in that order. -/
def parcels (batcher : Batcher) (peers : List Peer) : List Parcel :=
  peers.filterMap fun peer => (batcher.batches.find? peer).map fun batch => ⟨peer, batch.payload⟩

/-- Give out every batch that is old enough, in the order of the peers. -/
def flushAged (batcher : Batcher) (now : Nat) : List Parcel × Batcher :=
  let aged := batcher.batches.keep fun batch => batcher.maxLatency ≤ now - batch.startedAt
  (batcher.parcels (Peer.ascending aged.keys),
    { batcher with
      batches := batcher.batches.keep fun batch => !(batcher.maxLatency ≤ now - batch.startedAt) })

/-- Give out every batch, in the order of the peers. -/
def flushAll (batcher : Batcher) : List Parcel × Batcher :=
  (batcher.parcels (Peer.ascending batcher.batches.keys),
    { batcher with batches := Table.empty })

end Batcher

end ClusterOverlay
