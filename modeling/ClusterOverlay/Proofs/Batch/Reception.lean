import ClusterOverlay.Proofs.Batch
import ClusterOverlay.Proofs.Packet

/-!
# Every batch is read to its last complete record

Any bytes may arrive as a batch.  `Record.Divides` says, by the written form of records alone,
how bytes divide into complete records and a rest; `Record.divides_iff` that this is one way and
no other, namely the way they are split.  The receiving side goes through the bytes record by
record: `Listeners.round?` is one round of it, and a record in front of any bytes takes one round
(`Listeners.round?_encode_append`), so that it gets to the rest and stops there
(`Listeners.rounds_eq`).  `Listeners.received` collects what has been done by then.
-/

namespace ClusterOverlay

namespace Record

variable {bytes rest later : Bytes} {record : Record} {records : List Record}

/-! ## The grammar of batches -/

theorem take?_eq_none_iff :
    take? bytes = none ↔
      ∀ (record : Record) (later : Bytes), record.data.length < UInt32.size →
        bytes ≠ record.encode ++ later := by
  simp only [Option.eq_none_iff_forall_ne_some, Prod.forall, ne_eq, take?_eq_some_iff, not_and]

/-- The bytes are written records, followed by bytes that do not start with one. -/
structure Divides (bytes : Bytes) (records : List Record) (rest : Bytes) : Prop where
  bytesEq : bytes = records.flatMap encode ++ rest
  short : ∀ record ∈ records, record.data.length < UInt32.size
  stops : ∀ (record : Record) (later : Bytes), record.data.length < UInt32.size →
    rest ≠ record.encode ++ later

theorem Divides.cons (short : record.data.length < UInt32.size)
    (divides : Divides later records rest) :
    Divides (record.encode ++ later) (record :: records) rest := by
  refine ⟨?_, List.forall_mem_cons.mpr ⟨short, divides.short⟩, divides.stops⟩
  rw [divides.bytesEq, List.flatMap_cons, List.append_assoc]

/-- Bytes divide as they are split. -/
theorem divides_split (bytes : Bytes) : Divides bytes (split bytes).1 (split bytes).2 := by
  induction length : bytes.length using Nat.strongRecOn generalizing bytes with
  | ind size inductionHypothesis =>
      subst length
      cases found : take? bytes with
      | none =>
          rw [split_of_take?_eq_none found]
          exact ⟨rfl, by simp, take?_eq_none_iff.mp found⟩
      | some pair =>
          have divides := inductionHypothesis _ (length_lt_of_take? found) pair.2 rfl
          obtain ⟨short, bytesEq⟩ := take?_eq_some_iff.mp found
          rw [split_of_take? found]
          exact bytesEq ▸ divides.cons short

/-- Bytes divide in no other way than they are split. -/
theorem Divides.split_eq (divides : Divides bytes records rest) :
    split bytes = (records, rest) := by
  obtain ⟨rfl, short, stops⟩ := divides
  induction records with
  | nil => exact split_of_take?_eq_none (take?_eq_none_iff.mpr stops)
  | cons record records inductionHypothesis =>
      obtain ⟨recordShort, short⟩ := List.forall_mem_cons.mp short
      rw [List.flatMap_cons, List.append_assoc, split_encode_append recordShort,
        inductionHypothesis short]

theorem divides_iff : Divides bytes records rest ↔ split bytes = (records, rest) := by
  refine ⟨Divides.split_eq, fun splitEq => ?_⟩
  have divides := divides_split bytes
  rwa [splitEq] at divides

/-! ## Known channels -/

/-- The channel code of a record is that of a channel. -/
def known (record : Record) : Bool :=
  record.channelCode.toNat < 8

/-- What the dispatcher gets of a record: its data, if the channel is known. -/
def handed? (record : Record) : Option (Channel × Bytes) :=
  match Channel.ofCode record.channelCode with
  | .ok channel => some (channel, record.data)
  | .error _ => none

/-- A record of a known channel is handed over as it is, and no other is. -/
theorem map_handed? (record : Record) :
    record.handed?.map Batcher.record = if record.known then some record else none := by
  have channels := Channel.exists_ofCode_eq_ok_iff record.channelCode.toNat_lt
  rw [UInt8.ofNat_toNat] at channels
  cases read : Channel.ofCode record.channelCode with
  | ok channel =>
      have knows : record.known = true := decide_eq_true (channels.mp ⟨channel, read⟩)
      rw [handed?, read, Option.map_some, if_pos knows, Batcher.record,
        ← Channel.ofCode_eq_ok_iff.mp read]
  | error refusal =>
      have unknown : record.known = false := by
        refine decide_eq_false fun small => ?_
        obtain ⟨channel, readOther⟩ := channels.mpr small
        cases read.symm.trans readOther
      simp [handed?, read, unknown]

theorem map_filterMap_handed? (records : List Record) :
    (records.filterMap handed?).map Batcher.record = records.filter known := by
  rw [List.map_filterMap, ← List.filterMap_eq_filter]
  congr 1
  funext record
  rw [map_handed?]
  rfl

end Record

/-! ## Going through a batch -/

/-- How far the receiving side is with a batch. -/
structure Reception where
  unread : Bytes
  /-- What the dispatcher was given, in this order. -/
  handed : List (Channel × Bytes)
  /-- What the listeners got of it. -/
  deliveries : List Delivery
  /-- How often there was a listener. -/
  count : Nat
  deriving DecidableEq, Repr

/-- A batch that has just arrived. -/
def Reception.start (bytes : Bytes) : Reception :=
  ⟨bytes, [], [], 0⟩

namespace Listeners

variable {listeners : Listeners} {record : Record} {records : List Record} {later : Bytes}

/-- One round: the next record is handed over if its channel is known, and skipped otherwise.
There is no round when the bytes are used up or cut off within a record. -/
def round? (listeners : Listeners) (reception : Reception) : Option Reception :=
  (Record.take? reception.unread).map fun (record, later) =>
    match Channel.ofCode record.channelCode with
    | .ok channel =>
        { unread := later
          handed := reception.handed ++ [(channel, record.data)]
          deliveries := reception.deliveries ++ listeners.dispatch channel record.data
          count :=
            if listeners.contains channel then reception.count + 1 else reception.count }
    | .error _ => { reception with unread := later }

/-- A number of rounds, if there are so many. -/
def rounds (listeners : Listeners) : Nat → Reception → Option Reception
  | 0, reception => some reception
  | size + 1, reception => (listeners.rounds size reception).bind listeners.round?

/-- A payload on a channel is delivered once if the channel has a listener. -/
theorem length_dispatch (listeners : Listeners) (channel : Channel) (payload : Bytes) :
    (listeners.dispatch channel payload).length =
      if listeners.contains channel then 1 else 0 := by
  rw [dispatch, Table.contains]
  cases listeners.find? channel <;> rfl

/-- A record in front takes one round, whatever follows it. -/
theorem round?_encode_append (short : record.data.length < UInt32.size)
    {handed : List (Channel × Bytes)} {deliveries : List Delivery} :
    listeners.round? ⟨record.encode ++ later, handed, deliveries, deliveries.length⟩ =
      some ⟨later, handed ++ record.handed?.toList,
        deliveries ++ listeners.dispatchRecord record,
        (deliveries ++ listeners.dispatchRecord record).length⟩ := by
  have taken := Record.take?_eq_some_iff.mpr ⟨short, Eq.refl (record.encode ++ later)⟩
  simp only [round?, taken, Option.map_some, Record.handed?, dispatchRecord]
  cases Channel.ofCode record.channelCode with
  | ok channel =>
      simp only [Option.toList_some, List.length_append, length_dispatch]
      split <;> rfl
  | error refusal => simp

/-- There is no round exactly when no complete record is in front. -/
theorem round?_eq_none_iff {reception : Reception} :
    listeners.round? reception = .none ↔ Record.take? reception.unread = .none :=
  Option.map_eq_none_iff

/-- Records in front take one round each. -/
theorem rounds_eq (listeners : Listeners)
    (short : ∀ record ∈ records, record.data.length < UInt32.size) (rest : Bytes) :
    listeners.rounds records.length (.start (records.flatMap Record.encode ++ rest)) =
      some ⟨rest, records.filterMap Record.handed?, records.flatMap listeners.dispatchRecord,
        (records.flatMap listeners.dispatchRecord).length⟩ := by
  -- From the end: the earlier rounds leave the last record in front of the rest.
  induction records using List.reverseRecOn generalizing rest with
  | nil => rfl
  | append_singleton records record inductionHypothesis =>
      obtain ⟨earlier, recordShort⟩ := List.forall_mem_append.mp short
      rw [List.flatMap_append, List.flatMap_singleton, List.append_assoc, List.length_append,
        List.length_singleton, rounds, inductionHypothesis earlier, Option.bind_some,
        round?_encode_append (recordShort _ (List.mem_singleton_self _)), List.filterMap_append,
        List.flatMap_append, List.flatMap_singleton]
      rfl

/-- A record of no channel, one without a listener, an empty one, and one that is cut off. -/
example : Listeners.rounds ⟨[(.chat, "log")]⟩ 3
    (.start [0, 0, 0, 1, 12, 9, 0, 0, 0, 2, 2, 8, 9, 0, 0, 0, 0, 7, 0, 0, 0, 3, 7, 1]) =
      some ⟨[0, 0, 0, 3, 7, 1], [(.canvas, [8, 9]), (.chat, [])], [⟨"log", .chat, []⟩], 1⟩ :=
  rfl

/-! ## What the listeners get -/

theorem dispatchRecord_eq_flatMap (listeners : Listeners) (record : Record) :
    listeners.dispatchRecord record =
      record.handed?.toList.flatMap fun pair => listeners.dispatch pair.1 pair.2 := by
  rw [dispatchRecord, Record.handed?]
  cases Channel.ofCode record.channelCode <;> simp

/-- The listeners get what the dispatcher is given for a channel with a listener. -/
theorem map_dispatch (listeners : Listeners) (pair : Channel × Bytes) :
    (listeners.dispatch pair.1 pair.2).map
        (fun delivery => (delivery.channel, delivery.payload)) =
      [pair].filter (listeners.contains ·.1) := by
  rw [dispatch, List.filter_singleton, Table.contains]
  cases listeners.find? pair.1 <;> rfl

theorem find?_of_mem_dispatch {channel : Channel} {payload : Bytes} {delivery : Delivery}
    (deliveryMem : delivery ∈ listeners.dispatch channel payload) :
    listeners.find? delivery.channel = some delivery.listener := by
  rw [dispatch] at deliveryMem
  cases found : listeners.find? channel with
  | none => simp [found] at deliveryMem
  | some listener =>
      rw [found, List.mem_singleton] at deliveryMem
      rw [deliveryMem, found]

/-- The deliveries of a batch, by what the dispatcher is given of it. -/
theorem flatMap_dispatchRecord (listeners : Listeners) (records : List Record) :
    records.flatMap listeners.dispatchRecord =
      (records.filterMap Record.handed?).flatMap fun pair =>
        listeners.dispatch pair.1 pair.2 := by
  rw [List.filterMap_eq_flatMap_toList, List.flatMap_assoc]
  exact congrArg records.flatMap (funext listeners.dispatchRecord_eq_flatMap)

theorem map_flatMap_dispatch (listeners : Listeners) (handed : List (Channel × Bytes)) :
    (handed.flatMap fun pair => listeners.dispatch pair.1 pair.2).map
        (fun delivery => (delivery.channel, delivery.payload)) =
      handed.filter (listeners.contains ·.1) := by
  induction handed with
  | nil => rfl
  | cons pair handed inductionHypothesis =>
      rw [List.flatMap_cons, List.map_append, map_dispatch, inductionHypothesis,
        ← List.filter_append, List.singleton_append]

/-- Any bytes are complete records followed by a rest that does not start with one, in exactly one
way.  The receiving side goes through them in as many rounds as there are records, and is then at
the rest, with which there is no round.  The dispatcher was given exactly the records of known
channels, in their order and each with its data.  Of these every one whose channel has a listener
went to that listener, no other went anywhere, and the number returned is theirs. -/
theorem received (listeners : Listeners) (bytes : Bytes) :
    ∃ records rest,
      (∀ others left, Record.Divides bytes others left ↔ others = records ∧ left = rest) ∧
      ∃ last : Reception,
        listeners.rounds records.length (.start bytes) = some last ∧
        listeners.round? last = .none ∧
        last.unread = rest ∧
        last.handed.map Batcher.record = records.filter Record.known ∧
        last.deliveries = listeners.dispatchBatch bytes ∧
        last.deliveries.map (fun delivery => (delivery.channel, delivery.payload)) =
          last.handed.filter (listeners.contains ·.1) ∧
        (∀ delivery ∈ last.deliveries,
          listeners.find? delivery.channel = some delivery.listener) ∧
        last.count = last.deliveries.length := by
  obtain ⟨bytesEq, short, stops⟩ := Record.divides_split bytes
  have through := rounds_eq listeners short (Record.split bytes).2
  rw [← bytesEq] at through
  refine ⟨(Record.split bytes).1, (Record.split bytes).2, fun others left => ?_, _, through,
    round?_eq_none_iff.mpr (Record.take?_eq_none_iff.mpr stops), rfl,
    Record.map_filterMap_handed? _, rfl, ?_, ?_, rfl⟩
  · rw [Record.divides_iff, Prod.ext_iff]
    exact and_congr eq_comm eq_comm
  · dsimp only
    rw [flatMap_dispatchRecord, map_flatMap_dispatch]
  · dsimp only
    rw [flatMap_dispatchRecord]
    intro delivery deliveryMem
    obtain ⟨_, _, dispatched⟩ := List.mem_flatMap.mp deliveryMem
    exact find?_of_mem_dispatch dispatched

end Listeners

end ClusterOverlay
