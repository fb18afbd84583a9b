import ClusterOverlay.Batch
import Mathlib.Data.List.Induction
import Mathlib.Data.List.Nodup

/-!
# Nothing is lost in batches

A batcher is called to collect a payload, to give out what is old, or to give
out everything.  What has left for a peer, followed by what still waits for it,
are the `payloads` of the peer.  `collected` says that they split, without a
rest, into exactly the payloads that were handed over for the peer, each on its
channel and in the order of the calls, and that a batch that waits is short of
the threshold and as old as its first record.

One call decides it: a call that hands nothing over for a peer leaves its
payloads as they are (`payloads_concat_of_not_handed`), and one that does makes
the last of them longer by a record (`payloads_concat_of_handed`).  Records are
split off a string before whatever follows them (`Record.split_append`), so a
longer batch keeps the records it had.
-/

namespace ClusterOverlay

namespace Record

/-! ## Splitting what was put together -/

theorem split_of_take? {bytes rest : Bytes} {record : Record}
    (found : take? bytes = some (record, rest)) :
    split bytes = (record :: (split rest).1, (split rest).2) := by
  rw [split]
  split
  · next other remainder foundOther =>
      cases found.symm.trans foundOther
      rfl
  · next missing => cases found.symm.trans missing

theorem split_of_take?_eq_none {bytes : Bytes} (missing : take? bytes = none) :
    split bytes = ([], bytes) := by
  rw [split]
  split
  · next found => cases missing.symm.trans found
  · rfl

@[simp]
theorem split_nil : split [] = ([], []) :=
  split_of_take?_eq_none rfl

/-- The string consists of complete records. -/
def Whole (bytes : Bytes) : Prop :=
  (split bytes).2 = []

@[simp]
theorem whole_nil : Whole [] := by
  simp [Whole]

/-- A written record comes back first, whatever follows it. -/
theorem split_encode_append {record : Record} (short : record.data.length < UInt32.size)
    (rest : Bytes) :
    split (record.encode ++ rest) = (record :: (split rest).1, (split rest).2) :=
  split_of_take? (take?_eq_some_iff.mpr ⟨short, rfl⟩)

/-- Complete records are split off before anything that follows them. -/
theorem split_append {front : Bytes} (whole : Whole front) (back : Bytes) :
    split (front ++ back) = ((split front).1 ++ (split back).1, (split back).2) := by
  induction length : front.length using Nat.strongRecOn generalizing front with
  | ind size inductionHypothesis =>
      subst length
      cases found : take? front with
      | none =>
          rw [Whole, split_of_take?_eq_none found] at whole
          dsimp only at whole
          subst whole
          simp
      | some pair =>
          rcases pair with ⟨record, rest⟩
          have shorter := length_lt_of_take? found
          obtain ⟨short, rfl⟩ := take?_eq_some_iff.mp found
          rw [Whole, split_of_take? found] at whole
          rw [split_of_take? found, List.append_assoc, split_encode_append short,
            inductionHypothesis _ shorter whole rfl]
          rfl

/-- Whole strings stay whole when a record is added. -/
theorem split_append_encode {front : Bytes} (whole : Whole front) (record : Record)
    (short : record.data.length < UInt32.size) :
    split (front ++ record.encode) = ((split front).1 ++ [record], []) := by
  have alone := split_encode_append short []
  rw [List.append_nil, split_nil] at alone
  rw [split_append whole, alone]

end Record

namespace Listeners

/-- Where everybody listens, a record reaches the listener of its channel. -/
theorem dispatchRecord_eq {listeners : Listeners}
    (subscribed : ∀ channel, listeners.contains channel = true) (channel : Channel)
    (data : Bytes) :
    (listeners.dispatchRecord ⟨channel.code, data⟩).map
      (fun delivery => (delivery.channel, delivery.payload)) = [(channel, data)] := by
  obtain ⟨listener, found⟩ := Option.isSome_iff_exists.mp (subscribed channel)
  simp [dispatchRecord, dispatch, found]

end Listeners

namespace Peer

theorem insertAscending_perm {peer : Peer} {peers : List Peer} (absent : peer ∉ peers) :
    (insertAscending peer peers).Perm (peer :: peers) := by
  induction peers with
  | nil => exact List.Perm.refl _
  | cons head tail inductionHypothesis =>
      rw [List.mem_cons, not_or] at absent
      rw [insertAscending, if_neg absent.1]
      split
      · exact List.Perm.refl _
      · exact ((inductionHypothesis absent.2).cons head).trans (List.Perm.swap _ _ _)

/-- Arranging distinct peers only changes their order. -/
theorem ascending_perm {peers : List Peer} (distinct : peers.Nodup) :
    (ascending peers).Perm peers := by
  induction peers with
  | nil => exact List.Perm.refl _
  | cons head tail inductionHypothesis =>
      obtain ⟨fresh, tailDistinct⟩ := List.nodup_cons.mp distinct
      have absent : head ∉ ascending tail := by rwa [mem_ascending]
      exact (insertAscending_perm absent).trans ((inductionHypothesis tailDistinct).cons head)

end Peer

namespace Parcel

/-- The payloads among some parcels that go to a peer. -/
def payloadsFor (peer : Peer) (parcels : List Parcel) : List Bytes :=
  (parcels.filter fun parcel => parcel.peer = peer).map Parcel.payload

theorem payloadsFor_append (peer : Peer) (parcels later : List Parcel) :
    payloadsFor peer (parcels ++ later) = payloadsFor peer parcels ++ payloadsFor peer later := by
  simp [payloadsFor]

end Parcel

namespace Batcher

open Parcel (payloadsFor)

/-! ## Calls -/

/-- Something that is asked of a batcher at some time. -/
inductive Call
  | collect (now : Nat) (data : Bytes) (peer : Peer) (channel : Channel)
  | flushAged (now : Nat)
  | flushAll (now : Nat)
  deriving DecidableEq, Repr

namespace Call

/-- When the call is made. -/
def time : Call → Nat
  | collect now _ _ _ => now
  | flushAged now => now
  | flushAll now => now

/-- The payload that a call hands over for a peer, and its channel. -/
def handed? (peer : Peer) : Call → Option (Channel × Bytes)
  | collect _ data other channel => if other = peer then some (channel, data) else none
  | flushAged _ => none
  | flushAll _ => none

theorem eq_collect_of_handed? {call : Call} {peer : Peer} {channel : Channel} {data : Bytes}
    (own : call.handed? peer = some (channel, data)) :
    call = collect call.time data peer channel := by
  cases call with
  | collect now handedData other handedChannel =>
      simp only [handed?] at own
      split at own
      · next same =>
          cases own
          rw [same, time]
      · contradiction
  | flushAged now => simp [handed?] at own
  | flushAll now => simp [handed?] at own

end Call

/-- What some calls hand over for a peer, in their order. -/
def handed (peer : Peer) (calls : List Call) : List (Channel × Bytes) :=
  calls.filterMap (Call.handed? peer)

/-- What a batcher gives out because of a call, and what becomes of it. -/
def answer (batcher : Batcher) : Call → List Parcel × Batcher
  | .collect now data peer channel =>
      let (parcel, after) := batcher.collect now data peer channel
      (parcel.toList, after)
  | .flushAged now => batcher.flushAged now
  | .flushAll _ => batcher.flushAll

/-- The batcher after some calls. -/
def after (batcher : Batcher) (calls : List Call) : Batcher :=
  calls.foldl (fun batcher call => (batcher.answer call).2) batcher

/-- What a batcher gives out because of some calls. -/
def sent (batcher : Batcher) : List Call → List Parcel
  | [] => []
  | call :: later => (batcher.answer call).1 ++ (batcher.answer call).2.sent later

/-- The batch that waits for a peer. -/
def waiting (batcher : Batcher) (peer : Peer) : Option Batch :=
  batcher.batches.find? peer

/-- What has left for a peer because of some calls, and then what waits for it
after them. -/
def payloads (batcher : Batcher) (peer : Peer) (calls : List Call) : List Bytes :=
  payloadsFor peer (batcher.sent calls) ++
    (((batcher.after calls).waiting peer).map Batch.payload).toList

theorem after_concat (batcher : Batcher) (calls : List Call) (call : Call) :
    batcher.after (calls ++ [call]) = ((batcher.after calls).answer call).2 := by
  simp [after]

theorem sent_concat (batcher : Batcher) (calls : List Call) (call : Call) :
    batcher.sent (calls ++ [call]) =
      batcher.sent calls ++ ((batcher.after calls).answer call).1 := by
  induction calls generalizing batcher with
  | nil => simp [sent, after]
  | cons first later inductionHypothesis =>
      simp only [List.cons_append, sent, inductionHypothesis, List.append_assoc]
      rfl

theorem handed_concat (peer : Peer) (calls : List Call) (call : Call) :
    handed peer (calls ++ [call]) = handed peer calls ++ (call.handed? peer).toList := by
  rw [handed, handed, List.filterMap_append]
  congr 1

/-! ## One call -/

variable {batcher : Batcher}

theorem payloadsFor_parcels_of_notMem {peers : List Peer} {peer : Peer} (absent : peer ∉ peers) :
    payloadsFor peer (batcher.parcels peers) = [] := by
  simp only [payloadsFor, List.map_eq_nil_iff, List.filter_eq_nil_iff, parcels,
    List.mem_filterMap, Option.map_eq_some_iff, decide_eq_true_eq]
  rintro parcel ⟨other, otherMem, batch, -, rfl⟩ rfl
  exact absent otherMem

/-- Among the batches of distinct peers, that of a peer is given out once. -/
theorem payloadsFor_parcels_of_mem {peers : List Peer} (distinct : peers.Nodup) {peer : Peer}
    (listed : peer ∈ peers) :
    payloadsFor peer (batcher.parcels peers) =
      ((batcher.waiting peer).map Batch.payload).toList := by
  obtain ⟨front, back, rfl⟩ := List.append_of_mem listed
  obtain ⟨fresh, -⟩ := List.nodup_cons.mp (List.nodup_middle.mp distinct)
  rw [List.mem_append, not_or] at fresh
  have parts : batcher.parcels (front ++ peer :: back) =
      batcher.parcels front ++
        ((batcher.waiting peer).map fun batch => ⟨peer, batch.payload⟩).toList ++
          batcher.parcels back := by
    simp only [parcels, List.filterMap_append, List.filterMap_cons, waiting, List.append_assoc]
    cases batcher.batches.find? peer <;> rfl
  rw [parts, Parcel.payloadsFor_append, Parcel.payloadsFor_append,
    payloadsFor_parcels_of_notMem fresh.1, payloadsFor_parcels_of_notMem fresh.2,
    List.nil_append, List.append_nil]
  cases batcher.waiting peer <;> simp [payloadsFor]

/-- Giving out the batches that pass a test gives a peer its own if that passes. -/
theorem payloadsFor_keep (distinct : batcher.batches.Distinct) (test : Batch → Bool)
    (peer : Peer) :
    payloadsFor peer (batcher.parcels (Peer.ascending (batcher.batches.keep test).keys)) =
      (((batcher.waiting peer).filter test).map Batch.payload).toList := by
  have keptDistinct := Table.distinct_keep distinct test
  have listed : peer ∈ Peer.ascending (batcher.batches.keep test).keys ↔
      ∃ batch, (batcher.waiting peer).filter test = some batch := by
    rw [Peer.mem_ascending, Table.mem_keys_iff, Table.find?_keep distinct]
    rfl
  cases passed : (batcher.waiting peer).filter test with
  | none => exact payloadsFor_parcels_of_notMem (by simp [listed, passed])
  | some batch =>
      have found := (Option.filter_eq_some_iff.mp passed).1
      rw [payloadsFor_parcels_of_mem ((Peer.ascending_perm keptDistinct).nodup_iff.mpr keptDistinct)
        (listed.mpr ⟨batch, passed⟩), found]

/-- No call changes the limits of a batcher, or gives a peer two batches. -/
theorem answer_keeps (distinct : batcher.batches.Distinct) (call : Call) :
    (batcher.answer call).2.threshold = batcher.threshold ∧
      (batcher.answer call).2.batches.Distinct := by
  cases call with
  | collect now data peer channel =>
      simp only [answer, collect]
      split
      · exact ⟨rfl, Table.distinct_erase distinct _⟩
      · exact ⟨rfl, Table.distinct_insert distinct _ _⟩
  | flushAged now => exact ⟨rfl, Table.distinct_keep distinct _⟩
  | flushAll now => exact ⟨rfl, Table.distinct_empty⟩

theorem after_keeps (distinct : batcher.batches.Distinct) (calls : List Call) :
    (batcher.after calls).threshold = batcher.threshold ∧
      (batcher.after calls).batches.Distinct := by
  induction calls generalizing batcher with
  | nil => exact ⟨rfl, distinct⟩
  | cons call later inductionHypothesis =>
      obtain ⟨thresholdEq, stillDistinct⟩ := answer_keeps distinct call
      obtain ⟨laterEq, laterDistinct⟩ := inductionHypothesis stillDistinct
      exact ⟨laterEq.trans thresholdEq, laterDistinct⟩

/-- A call that hands nothing over for a peer leaves the batch of the peer alone,
or gives it out. -/
theorem answer_of_not_handed (distinct : batcher.batches.Distinct) {call : Call} {peer : Peer}
    (foreign : call.handed? peer = none) :
    (payloadsFor peer (batcher.answer call).1 = [] ∧
        (batcher.answer call).2.waiting peer = batcher.waiting peer) ∨
      (payloadsFor peer (batcher.answer call).1 =
          ((batcher.waiting peer).map Batch.payload).toList ∧
        (batcher.answer call).2.waiting peer = none) := by
  cases call with
  | collect now data other channel =>
      have different : other ≠ peer := by
        rintro rfl
        simp [Call.handed?] at foreign
      left
      simp only [answer, collect]
      split
      · exact ⟨by simp [payloadsFor, different], Table.find?_erase_of_ne (Ne.symm different)⟩
      · exact ⟨rfl, Table.find?_insert_of_ne (Ne.symm different)⟩
  | flushAged now =>
      have given := payloadsFor_keep distinct
        (fun batch => batcher.maxLatency ≤ now - batch.startedAt) peer
      have left : (batcher.answer (.flushAged now)).2.waiting peer =
          (batcher.waiting peer).filter fun batch =>
            !(batcher.maxLatency ≤ now - batch.startedAt) :=
        Table.find?_keep distinct _ peer
      change payloadsFor peer (batcher.answer (.flushAged now)).1 = _ at given
      rw [given, left]
      cases batcher.waiting peer with
      | none => simp
      | some batch =>
          by_cases aged : batcher.maxLatency ≤ now - batch.startedAt
          · exact .inr (by simp [aged])
          · exact .inl (by simpa [aged] using Nat.lt_of_not_le aged)
  | flushAll now =>
      have everything : (batcher.batches.keep fun _ => true) = batcher.batches := by
        simp [Table.keep]
      have unsorted : (batcher.waiting peer).filter (fun _ => true) = batcher.waiting peer := by
        cases batcher.waiting peer <;> rfl
      have given := payloadsFor_keep distinct (fun _ => true) peer
      rw [everything, unsorted] at given
      exact .inr ⟨given, rfl⟩

/-- The payload waiting for a peer; none is as good as an empty one. -/
def begun (batcher : Batcher) (peer : Peer) : Bytes :=
  ((batcher.waiting peer).map Batch.payload).getD []

/-- A payload that is handed over for a peer makes its batch longer by a record,
and the batch leaves exactly if that fills it. -/
theorem answer_of_handed (batcher : Batcher) {call : Call} {peer : Peer} {channel : Channel}
    {data : Bytes} (own : call.handed? peer = some (channel, data)) {payload : Bytes}
    (payloadEq : batcher.begun peer ++ Record.encode ⟨channel.code, data⟩ = payload) :
    if batcher.threshold ≤ payload.length then
      payloadsFor peer (batcher.answer call).1 = [payload] ∧
        (batcher.answer call).2.waiting peer = none
    else
      payloadsFor peer (batcher.answer call).1 = [] ∧
        (batcher.answer call).2.waiting peer =
          some ⟨payload, ((batcher.waiting peer).map Batch.startedAt).getD call.time⟩ := by
  rw [Call.eq_collect_of_handed? own]
  have begunEq : ((batcher.batches.find? peer).getD ⟨[], call.time⟩).payload =
      batcher.begun peer := by
    simp only [begun, waiting]
    cases batcher.batches.find? peer <;> rfl
  simp only [answer, collect, begunEq, payloadEq]
  split
  · exact ⟨by simp [payloadsFor], Table.find?_erase_self _ _⟩
  · refine ⟨rfl, (Table.find?_insert_self _ _ _).trans ?_⟩
    simp only [waiting, Call.time]
    cases batcher.batches.find? peer <;> rfl

/-! ## Runs -/

theorem payloads_concat_of_not_handed (distinct : batcher.batches.Distinct) (calls : List Call)
    {call : Call} {peer : Peer} (foreign : call.handed? peer = none) :
    batcher.payloads peer (calls ++ [call]) = batcher.payloads peer calls := by
  have kept := (after_keeps distinct calls).2
  rw [payloads, payloads, sent_concat, after_concat, Parcel.payloadsFor_append]
  rcases answer_of_not_handed kept foreign with ⟨given, left⟩ | ⟨given, left⟩
  · rw [given, left, List.append_nil]
  · simp [given, left]

theorem payloads_concat_of_handed (batcher : Batcher) (calls : List Call) {call : Call}
    {peer : Peer} {channel : Channel} {data : Bytes}
    (own : call.handed? peer = some (channel, data)) :
    batcher.payloads peer (calls ++ [call]) =
      payloadsFor peer (batcher.sent calls) ++
        [(batcher.after calls).begun peer ++ Record.encode ⟨channel.code, data⟩] := by
  have step := answer_of_handed (batcher.after calls) own rfl
  rw [payloads, sent_concat, after_concat, Parcel.payloadsFor_append]
  split at step
  · simp [step.1, step.2]
  · simp [step.1, step.2]

/-- The records of payloads, in their order. -/
def recordsOf (payloads : List Bytes) : List Record :=
  payloads.flatMap fun payload => (Record.split payload).1

/-- The record that carries a payload on a channel. -/
def record (pair : Channel × Bytes) : Record :=
  ⟨pair.1.code, pair.2⟩

/-- The payloads of a peer consist of complete records, and these are what was
handed over for it. -/
structure Faithful (batcher : Batcher) (peer : Peer) (calls : List Call) : Prop where
  whole : ∀ payload ∈ batcher.payloads peer calls, Record.Whole payload
  recordsEq : recordsOf (batcher.payloads peer calls) = (handed peer calls).map record

theorem Faithful.whole_begun {calls : List Call} {peer : Peer}
    (faithful : Faithful batcher peer calls) :
    Record.Whole ((batcher.after calls).begun peer) := by
  cases waits : (batcher.after calls).waiting peer with
  | none => simp [begun, waits]
  | some batch =>
      have listed : batch.payload ∈ batcher.payloads peer calls := by
        simp [payloads, waits]
      simpa [begun, waits] using faithful.whole _ listed

/-- One more call keeps the payloads of a peer faithful. -/
theorem Faithful.concat (distinct : batcher.batches.Distinct) {calls : List Call} {peer : Peer}
    (faithful : Faithful batcher peer calls) {call : Call}
    (short : ∀ pair ∈ call.handed? peer, pair.2.length < UInt32.size) :
    Faithful batcher peer (calls ++ [call]) := by
  cases own : call.handed? peer with
  | none =>
      have same := payloads_concat_of_not_handed distinct calls own
      refine ⟨same ▸ faithful.whole, ?_⟩
      rw [same, handed_concat, own, faithful.recordsEq]
      simp
  | some pair =>
      rcases pair with ⟨channel, data⟩
      have longer := payloads_concat_of_handed batcher calls own
      have added := Record.split_append_encode faithful.whole_begun ⟨channel.code, data⟩
        (short _ own)
      refine ⟨?_, ?_⟩
      · rw [longer]
        intro payload listed
        rcases List.mem_append.mp listed with earlier | last
        · exact faithful.whole payload (List.mem_append_left _ earlier)
        · rw [List.mem_singleton.mp last, Record.Whole, added]
      · have before : recordsOf (batcher.payloads peer calls) =
            recordsOf (payloadsFor peer (batcher.sent calls)) ++
              (Record.split ((batcher.after calls).begun peer)).1 := by
          simp only [payloads, recordsOf, List.flatMap_append, begun]
          cases (batcher.after calls).waiting peer <;> simp
        have after : recordsOf (batcher.payloads peer (calls ++ [call])) =
            recordsOf (batcher.payloads peer calls) ++ [⟨channel.code, data⟩] := by
          rw [longer, before, List.append_assoc]
          simp [recordsOf, added]
        rw [after, faithful.recordsEq, handed_concat, own]
        simp [record]

/-- The batch holds what was handed over for the peer since some call, when its
first record was collected, and is short of the threshold. -/
structure Young (threshold : Nat) (peer : Peer) (calls : List Call) (batch : Batch) :
    Prop where
  short : batch.payload.length < threshold
  begun : ∃ before data channel later,
    calls = before ++ Call.collect batch.startedAt data peer channel :: later ∧
      (Record.split batch.payload).1 =
        (handed peer (Call.collect batch.startedAt data peer channel :: later)).map record

/-- One more call keeps the batch of a peer young. -/
theorem Faithful.young_concat (distinct : batcher.batches.Distinct) {calls : List Call}
    {peer : Peer} (faithful : Faithful batcher peer calls)
    (young : ∀ batch ∈ (batcher.after calls).waiting peer,
      Young batcher.threshold peer calls batch)
    {call : Call} (short : ∀ pair ∈ call.handed? peer, pair.2.length < UInt32.size) :
    ∀ batch ∈ (batcher.after (calls ++ [call])).waiting peer,
      Young batcher.threshold peer (calls ++ [call]) batch := by
  intro batch waits
  rw [after_concat, Option.mem_def] at waits
  obtain ⟨thresholdEq, kept⟩ := after_keeps distinct calls
  cases own : call.handed? peer with
  | none =>
      rcases answer_of_not_handed kept own with ⟨-, left⟩ | ⟨-, left⟩
      · obtain ⟨batchShort, before, data, channel, later, rfl, recordsEq⟩ :=
          young batch (left ▸ waits)
        refine ⟨batchShort, before, data, channel, later ++ [call], by simp, ?_⟩
        rw [← List.cons_append, handed_concat, own, recordsEq]
        simp
      · rw [left] at waits
        contradiction
  | some pair =>
      rcases pair with ⟨channel, data⟩
      have step := answer_of_handed (batcher.after calls) own rfl
      have added := Record.split_append_encode faithful.whole_begun ⟨channel.code, data⟩
        (short _ own)
      split at step
      · rw [step.2] at waits
        contradiction
      · next lacking =>
          rw [step.2, Option.some.injEq] at waits
          subst waits
          refine ⟨thresholdEq ▸ Nat.lt_of_not_le lacking, ?_⟩
          rw [added]
          cases waited : (batcher.after calls).waiting peer with
          | none =>
              refine ⟨calls, data, channel, [], ?_, ?_⟩
              · rw [Option.map_none, Option.getD_none, ← Call.eq_collect_of_handed? own]
              · simp [begun, waited, handed, Call.handed?, record]
          | some batch =>
              obtain ⟨-, before, first, firstChannel, later, callsEq, recordsEq⟩ :=
                young batch waited
              refine ⟨before, first, firstChannel, later ++ [call], ?_, ?_⟩
              · simp [callsEq]
              · rw [Option.map_some, Option.getD_some, ← List.cons_append, handed_concat, own,
                  List.map_append, ← recordsEq]
                simp [begun, waited, record]

/-- Calls of any number keep the payloads of a peer faithful and its batch young. -/
theorem faithful_and_young (threshold maxLatency : Nat) (peer : Peer) (calls : List Call)
    (short : ∀ pair ∈ handed peer calls, pair.2.length < UInt32.size) :
    Faithful (empty threshold maxLatency) peer calls ∧
      ∀ batch ∈ ((empty threshold maxLatency).after calls).waiting peer,
        Young threshold peer calls batch := by
  induction calls using List.reverseRecOn with
  | nil => exact ⟨⟨by simp [payloads, sent, after, waiting, empty, payloadsFor], rfl⟩,
      by simp [after, waiting, empty]⟩
  | append_singleton calls call inductionHypothesis =>
      rw [handed_concat] at short
      obtain ⟨faithful, young⟩ := inductionHypothesis fun pair pairMem =>
        short pair (List.mem_append_left _ pairMem)
      have lastShort : ∀ pair ∈ call.handed? peer, pair.2.length < UInt32.size :=
        fun pair pairMem => short pair (List.mem_append_right _ (Option.mem_toList.mpr pairMem))
      exact ⟨faithful.concat Table.distinct_empty lastShort,
        faithful.young_concat Table.distinct_empty young lastShort⟩

/-- What reaches the listeners of a peer is what was handed over for it, on its
channels and in its order, and nothing is left over.  A batch that waits holds
what came for the peer since its first record, is short of the threshold, and
is as old as that record. -/
theorem collected (threshold maxLatency : Nat) {listeners : Listeners}
    (subscribed : ∀ channel, listeners.contains channel = true) (calls : List Call)
    (peer : Peer) (short : ∀ pair ∈ handed peer calls, pair.2.length < UInt32.size) :
    ((((empty threshold maxLatency).payloads peer calls).flatMap listeners.dispatchBatch).map
        fun delivery => (delivery.channel, delivery.payload)) = handed peer calls ∧
      (∀ payload ∈ (empty threshold maxLatency).payloads peer calls,
        (Record.split payload).2 = []) ∧
      ∀ batch ∈ ((empty threshold maxLatency).after calls).waiting peer,
        batch.payload.length < threshold ∧
          ∃ before data channel later,
            calls = before ++ .collect batch.startedAt data peer channel :: later ∧
              (Record.split batch.payload).1 =
                (handed peer (.collect batch.startedAt data peer channel :: later)).map
                  record := by
  obtain ⟨faithful, young⟩ := faithful_and_young threshold maxLatency peer calls short
  refine ⟨?_, faithful.whole, fun batch waits => ⟨(young batch waits).short,
    (young batch waits).begun⟩⟩
  have byRecord : ((empty threshold maxLatency).payloads peer calls).flatMap
      listeners.dispatchBatch = ((handed peer calls).map record).flatMap
        listeners.dispatchRecord := by
    rw [← faithful.recordsEq, recordsOf, List.flatMap_assoc]
    rfl
  rw [byRecord, List.flatMap_map, List.map_flatMap]
  have each : ∀ pair : Channel × Bytes, (listeners.dispatchRecord (record pair)).map
      (fun delivery => (delivery.channel, delivery.payload)) = [pair] :=
    fun pair => Listeners.dispatchRecord_eq subscribed pair.1 pair.2
  simp [each]

/-- A batch fills, one grows old, one is given out on demand, and one waits. -/
theorem collected_twoPeers :
    let left : Peer := ⟨"left", 1⟩
    let right : Peer := ⟨"right", 1⟩
    let listeners : Listeners := ⟨[.networking, .screenSharing, .canvas, .uiUx, .controller, .ai,
      .cloud, .chat].map fun channel => (channel, "everything")⟩
    let calls : List Call := [.collect 0 [1, 2] left .chat, .collect 1 [] right .ai,
      .flushAged 5, .collect 6 [3, 4, 5] left .canvas, .collect 7 [9] left .chat,
      .collect 8 [7] left .ai, .flushAged 18, .collect 19 [6] left .chat, .flushAll 20,
      .collect 21 [8] left .chat, .collect 22 [] left .cloud]
    (∀ channel, listeners.contains channel = true) ∧
      (∀ pair ∈ handed left calls, pair.2.length < UInt32.size) ∧
      (((empty 16 10).payloads left calls).flatMap listeners.dispatchBatch).map
          (fun delivery => (delivery.channel, delivery.payload)) =
        [(.chat, [1, 2]), (.canvas, [3, 4, 5]), (.chat, [9]), (.ai, [7]), (.chat, [6]),
          (.chat, [8]), (.cloud, [])] ∧
      (∀ payload ∈ (empty 16 10).payloads left calls, (Record.split payload).2 = []) ∧
      ∃ payload, ((empty 16 10).after calls).waiting left = some ⟨payload, 21⟩ ∧
        payload.length < 16 := by
  intro left right listeners calls
  have subscribed : ∀ channel, listeners.contains channel = true := by
    intro channel
    cases channel <;> rfl
  have short : ∀ pair ∈ handed left calls, pair.2.length < UInt32.size := by decide
  have found : ((empty 16 10).after calls).waiting left =
      some ⟨[0, 0, 0, 1, 7, 8, 0, 0, 0, 0, 6], 21⟩ := by decide +kernel
  obtain ⟨delivered, whole, young⟩ := collected 16 10 subscribed calls left short
  exact ⟨subscribed, short, delivered.trans (by decide), whole, _, found, (young _ found).1⟩

end Batcher

end ClusterOverlay
