import ClusterOverlay.Proofs.Batch
import ClusterOverlay.Ticker

/-!
# How long records wait

A record waits from the call that appends it until a parcel leaves for its peer.  `held` lists
what waits for a peer in this sense, with the times of the calls and without a look at the time
that a batch carries.  `Matches` ties the two together: the batch that waits consists of what is
held, and is as old as the first of it.

So a check gives out the batches whose oldest record has waited for the latency, and no others
(`payloadsFor_flushAged`).  While checks are never further apart than an interval, as those of a
ticker are (`checked_of_ticked`), whatever is held was younger than the latency at the last check
(`lastCheck_lt`), and a call comes no later than the interval after that.  `latency_kept` puts this
together.
-/

namespace ClusterOverlay

namespace Batcher

open Parcel (payloadsFor)

/-! ## What waits -/

/-- The record that a call appends for a peer, with the time of the call. -/
def Call.appended? (peer : Peer) (call : Call) : Option (Nat × Record) :=
  (call.handed? peer).map fun pair => (call.time, record pair)

/-- The bytes of some records, one after another. -/
def bytesOf (items : List (Nat × Record)) : Bytes :=
  items.flatMap fun item => item.2.encode

/-- What waits for a peer after a call, if some records waited before it: a parcel for the peer
takes everything along. -/
def hold (batcher : Batcher) (peer : Peer) (items : List (Nat × Record)) (call : Call) :
    List (Nat × Record) :=
  if payloadsFor peer (batcher.answer call).1 = [] then items ++ (call.appended? peer).toList
  else []

/-- The records that wait for a peer after some calls, each with the time at which it was
appended. -/
def held (batcher : Batcher) (peer : Peer) (calls : List Call) : List (Nat × Record) :=
  (calls.foldl
    (fun state call => ((state.1.answer call).2, state.1.hold peer state.2 call)) (batcher, [])).2

/-- The time at which the oldest record was appended that waits for a peer. -/
def oldest? (batcher : Batcher) (peer : Peer) (calls : List Call) : Option Nat :=
  ((batcher.held peer calls).map Prod.fst).min?

/-- A record leaves with a call: the parcel for its peer consists of the records that wait and of
what the call appends, and the record is one of these. -/
structure Releases (batcher : Batcher) (peer : Peer) (before : List Call) (call : Call)
    (item : Nat × Record) : Prop where
  waits : item ∈ batcher.held peer before ++ (call.appended? peer).toList
  givenEq : payloadsFor peer ((batcher.after before).answer call).1 =
    [bytesOf (batcher.held peer before ++ (call.appended? peer).toList)]

variable {batcher : Batcher} {peer : Peer} {calls : List Call} {call : Call}

theorem held_concat (batcher : Batcher) (peer : Peer) (calls : List Call) (call : Call) :
    batcher.held peer (calls ++ [call]) =
      (batcher.after calls).hold peer (batcher.held peer calls) call := by
  have reached : ∀ (calls : List Call) (state : Batcher × List (Nat × Record)),
      (calls.foldl (fun state call =>
        ((state.1.answer call).2, state.1.hold peer state.2 call)) state).1 =
          state.1.after calls := by
    intro calls
    induction calls with
    | nil => exact fun _ => rfl
    | cons first later inductionHypothesis => exact fun state => inductionHypothesis _
  rw [held, List.foldl_concat, reached]
  rfl

theorem held_concat_of_kept
    (kept : payloadsFor peer ((batcher.after calls).answer call).1 = []) :
    batcher.held peer (calls ++ [call]) =
      batcher.held peer calls ++ (call.appended? peer).toList := by
  rw [held_concat, hold, if_pos kept]

theorem time_of_appended? {item : Nat × Record} (appended : call.appended? peer = some item) :
    item.1 = call.time := by
  obtain ⟨pair, -, rfl⟩ := Option.map_eq_some_iff.mp appended
  rfl

/-- The batch that waits for a peer consists of some records, and is as old as the first. -/
def Matches (batcher : Batcher) (peer : Peer) (items : List (Nat × Record)) : Prop :=
  batcher.waiting peer = items.head?.map fun first => ⟨bytesOf items, first.1⟩

theorem Matches.begun_eq {items : List (Nat × Record)} (agrees : Matches batcher peer items) :
    batcher.begun peer = bytesOf items := by
  rw [begun, agrees]
  cases items <;> rfl

/-- What leaves with a call for a peer is nothing, or all that waited and what the call appends;
and the batch that waits after it consists of what is held then. -/
theorem Matches.answer (distinct : batcher.batches.Distinct) {items : List (Nat × Record)}
    (agrees : Matches batcher peer items) (call : Call) :
    (payloadsFor peer (batcher.answer call).1 = [] ∨
        payloadsFor peer (batcher.answer call).1 =
          [bytesOf (items ++ (call.appended? peer).toList)]) ∧
      Matches (batcher.answer call).2 peer (batcher.hold peer items call) := by
  cases own : call.handed? peer with
  | none =>
      have nothing : call.appended? peer = none := by rw [Call.appended?, own, Option.map_none]
      rw [hold, nothing, Option.toList_none, List.append_nil]
      rcases answer_of_not_handed distinct own with ⟨given, left⟩ | ⟨given, left⟩
      · rw [if_pos given]
        exact ⟨.inl given, left.trans agrees⟩
      · rw [agrees] at given
        cases items with
        | nil =>
            have nobody : payloadsFor peer (batcher.answer call).1 = [] := given
            rw [if_pos nobody]
            exact ⟨.inl nobody, left⟩
        | cons first later =>
            refine ⟨.inr given, ?_⟩
            rw [if_neg (by simp [given])]
            exact left
  | some pair =>
      have appended : call.appended? peer = some (call.time, record pair) := by
        rw [Call.appended?, own, Option.map_some]
      have payloadEq : batcher.begun peer ++ Record.encode ⟨pair.1.code, pair.2⟩ =
          bytesOf (items ++ [(call.time, record pair)]) := by
        rw [agrees.begun_eq]
        simp [bytesOf, record]
      have step := answer_of_handed batcher own payloadEq
      rw [hold, appended, Option.toList_some]
      split at step
      · refine ⟨.inr step.1, ?_⟩
        rw [if_neg (by simp [step.1])]
        exact step.2
      · refine ⟨.inl step.1, ?_⟩
        rw [if_pos step.1, Matches, step.2, agrees]
        cases items <;> rfl

section Runs

variable {threshold maxLatency : Nat}

theorem distinct_after (threshold maxLatency : Nat) (calls : List Call) :
    ((empty threshold maxLatency).after calls).batches.Distinct := by
  have none : (empty threshold maxLatency).batches.Distinct := Table.distinct_empty
  exact (after_keeps none calls).2

theorem matches_held (threshold maxLatency : Nat) (peer : Peer) (calls : List Call) :
    Matches ((empty threshold maxLatency).after calls) peer
      ((empty threshold maxLatency).held peer calls) := by
  induction calls using List.reverseRecOn with
  | nil => exact Table.find?_empty peer
  | append_singleton calls call inductionHypothesis =>
      rw [after_concat, held_concat]
      exact (inductionHypothesis.answer (distinct_after threshold maxLatency calls) call).2

/-- A parcel for a peer takes along all that waits and what is appended with it. -/
theorem payloadsFor_answer (threshold maxLatency : Nat) (peer : Peer) (calls : List Call)
    (call : Call) :
    let start := empty threshold maxLatency
    payloadsFor peer ((start.after calls).answer call).1 = [] ∨
      payloadsFor peer ((start.after calls).answer call).1 =
        [bytesOf (start.held peer calls ++ (call.appended? peer).toList)] :=
  ((matches_held threshold maxLatency peer calls).answer
    (distinct_after threshold maxLatency calls) call).1

theorem maxLatency_after (batcher : Batcher) (calls : List Call) :
    (batcher.after calls).maxLatency = batcher.maxLatency := by
  induction calls using List.reverseRecOn with
  | nil => rfl
  | append_singleton calls call inductionHypothesis =>
      rw [after_concat, ← inductionHypothesis]
      cases call with
      | collect now data peer channel =>
          simp only [answer, collect]
          split <;> rfl
      | flushAged now => rfl
      | flushAll now => rfl

/-! ## The oldest record -/

/-- What waits was appended by calls, in their order. -/
theorem times_held_sublist (batcher : Batcher) (peer : Peer) (calls : List Call) :
    ((batcher.held peer calls).map Prod.fst).Sublist (calls.map Call.time) := by
  induction calls using List.reverseRecOn with
  | nil => exact List.Sublist.refl _
  | append_singleton calls call inductionHypothesis =>
      rw [held_concat, hold, List.map_append]
      split
      · rw [List.map_append]
        refine inductionHypothesis.append ?_
        cases appended : call.appended? peer with
        | none => exact List.nil_sublist _
        | some item => simp [time_of_appended? appended]
      · exact List.nil_sublist _

/-- In the course of time the record that was appended first is the oldest. -/
theorem oldest?_eq (ordered : calls.Pairwise fun first second => first.time ≤ second.time) :
    batcher.oldest? peer calls = (batcher.held peer calls).head?.map Prod.fst := by
  have sorted : ((batcher.held peer calls).map Prod.fst).Pairwise (· ≤ ·) :=
    (List.pairwise_map.mpr ordered).sublist (times_held_sublist batcher peer calls)
  rw [oldest?, ← List.head?_map]
  generalize (batcher.held peer calls).map Prod.fst = times at sorted
  cases times with
  | nil => rfl
  | cons first later =>
      rw [List.head?_cons, List.min?_eq_some_iff]
      refine ⟨List.mem_cons_self, ?_⟩
      rintro time (_ | ⟨_, timeMem⟩)
      · exact Nat.le_refl first
      · exact List.rel_of_pairwise_cons sorted timeMem

theorem exists_time_eq_of_held {item : Nat × Record} (waits : item ∈ batcher.held peer calls) :
    ∃ call ∈ calls, call.time = item.1 :=
  List.mem_map.mp ((times_held_sublist batcher peer calls).subset (List.mem_map_of_mem waits))

theorem exists_oldest?_eq {item : Nat × Record} (waits : item ∈ batcher.held peer calls) :
    ∃ oldest, batcher.oldest? peer calls = some oldest ∧ oldest ≤ item.1 := by
  have timeMem := List.mem_map_of_mem (f := Prod.fst) waits
  obtain ⟨oldest, oldestEq⟩ := Option.isSome_iff_exists.mp
    (List.isSome_min?_of_mem timeMem)
  exact ⟨oldest, oldestEq, (List.min?_eq_some_iff.mp oldestEq).2 _ timeMem⟩

/-! ## Checks -/

/-- A check gives out the batches whose oldest record has waited for the latency. -/
theorem payloadsFor_flushAged {now : Nat}
    (ordered : (calls ++ [Call.flushAged now]).Pairwise
      fun first second => first.time ≤ second.time) (peer : Peer) :
    let start := empty threshold maxLatency
    payloadsFor peer ((start.after calls).answer (.flushAged now)).1 =
      if ∃ oldest ∈ start.oldest? peer calls, oldest + maxLatency ≤ now then
        [bytesOf (start.held peer calls)]
      else [] := by
  intro start
  obtain ⟨orderedBefore, _, notLater⟩ := List.pairwise_append.mp ordered
  have given : payloadsFor peer ((start.after calls).answer (.flushAged now)).1 = _ :=
    payloadsFor_keep (distinct_after threshold maxLatency calls)
      (fun batch => (start.after calls).maxLatency ≤ now - batch.startedAt) peer
  have agrees : (start.after calls).waiting peer = _ := matches_held threshold maxLatency peer calls
  have latencyEq : (start.after calls).maxLatency = maxLatency := maxLatency_after start calls
  rw [given, agrees, latencyEq, oldest?_eq orderedBefore]
  cases heldEq : start.held peer calls with
  | nil => simp
  | cons first later =>
      have waits : first ∈ start.held peer calls := heldEq ▸ List.mem_cons_self
      obtain ⟨call, callMem, timeEq⟩ := exists_time_eq_of_held waits
      have before : call.time ≤ now := notLater call callMem _ List.mem_cons_self
      have sameAge : maxLatency ≤ now - first.1 ↔ first.1 + maxLatency ≤ now := by omega
      by_cases aged : maxLatency ≤ now - first.1
      · simp [aged, sameAge.mp aged]
      · simp [Nat.lt_of_not_le aged, mt sameAge.mpr aged]

/-- What a check leaves behind is younger than the latency. -/
theorem lt_of_kept {now oldest : Nat}
    (ordered : (calls ++ [Call.flushAged now]).Pairwise
      fun first second => first.time ≤ second.time)
    (kept : payloadsFor peer
      (((empty threshold maxLatency).after calls).answer (.flushAged now)).1 = [])
    (oldestEq : (empty threshold maxLatency).oldest? peer calls = some oldest) :
    now < oldest + maxLatency := by
  rw [payloadsFor_flushAged ordered, ite_eq_right_iff] at kept
  by_contra aged
  exact List.cons_ne_nil _ _ (kept ⟨oldest, oldestEq, Nat.le_of_not_lt aged⟩)

/-- After a check every batch that waits has an oldest record, which is younger than the
latency. -/
theorem exists_oldest?_lt {now : Nat}
    (ordered : (calls ++ [Call.flushAged now]).Pairwise
      fun first second => first.time ≤ second.time)
    {batch : Batch} (waits : ((empty threshold maxLatency).after
      (calls ++ [.flushAged now])).waiting peer = some batch) :
    ∃ oldest ∈ (empty threshold maxLatency).oldest? peer (calls ++ [.flushAged now]),
      now < oldest + maxLatency := by
  rw [matches_held, Option.map_eq_some_iff] at waits
  obtain ⟨first, firstEq, -⟩ := waits
  have firstMem := List.mem_of_head? firstEq
  by_cases kept : payloadsFor peer
      (((empty threshold maxLatency).after calls).answer (.flushAged now)).1 = []
  · have stays : (empty threshold maxLatency).held peer (calls ++ [.flushAged now]) =
        (empty threshold maxLatency).held peer calls := by
      rw [held_concat_of_kept kept]
      exact List.append_nil _
    obtain ⟨oldest, oldestEq, -⟩ := exists_oldest?_eq firstMem
    refine ⟨oldest, oldestEq, lt_of_kept ordered kept ?_⟩
    rw [oldest?, ← stays]
    exact oldestEq
  · rw [held_concat, hold, if_neg kept] at firstMem
    contradiction

/-! ## Checks at an interval -/

/-- When the latest check was made, if it was made at some time before a call. -/
def Call.lastCheck (latest : Nat) : Call → Nat
  | collect _ _ _ _ => latest
  | flushAged now => now
  | flushAll _ => latest

/-- When the latest check was made, if it was made at some time before some calls. -/
def lastCheck (latest : Nat) (calls : List Call) : Nat :=
  calls.foldl Call.lastCheck latest

/-- No call comes later than the interval after the latest check. -/
def Checked (interval : Nat) : Nat → List Call → Prop
  | _, [] => True
  | latest, call :: later =>
      call.time ≤ latest + interval ∧ Checked interval (call.lastCheck latest) later

theorem Checked.time_le {interval latest : Nat} {before later : List Call}
    (checked : Checked interval latest (before ++ call :: later)) :
    call.time ≤ lastCheck latest before + interval := by
  induction before generalizing latest with
  | nil => exact checked.1
  | cons first rest inductionHypothesis => exact inductionHypothesis checked.2

/-- Checks are made by a ticker, each just when it is due, and nothing is asked while one is
overdue. -/
def Ticked : Ticker → List Call → Prop
  | _, [] => True
  | ticker, .flushAged now :: later => now = ticker.next ∧ Ticked ticker.advance later
  | ticker, call :: later => call.time ≤ ticker.next ∧ Ticked ticker later

/-- A ticker makes checks that are never further apart than its period. -/
theorem checked_of_ticked {ticker : Ticker} {latest : Nat} (ticked : Ticked ticker calls)
    (soon : ticker.next ≤ latest + ticker.period) : Checked ticker.period latest calls := by
  induction calls generalizing ticker latest with
  | nil => trivial
  | cons call later inductionHypothesis =>
      cases call with
      | collect _ _ _ _ | flushAll _ =>
          exact ⟨Nat.le_trans ticked.1 soon, inductionHypothesis ticked.2 soon⟩
      | flushAged now =>
          obtain ⟨rfl, laterTicked⟩ := ticked
          have laterChecked : Checked ticker.advance.period ticker.next later :=
            inductionHypothesis laterTicked (Nat.le_refl _)
          exact ⟨soon, laterChecked⟩

theorem lastCheck_le {origin bound : Nat} (begun : origin ≤ bound)
    (notLater : ∀ call ∈ calls, call.time ≤ bound) : lastCheck origin calls ≤ bound := by
  induction calls generalizing origin with
  | nil => exact begun
  | cons first later inductionHypothesis =>
      obtain ⟨firstLe, laterLe⟩ := List.forall_mem_cons.mp notLater
      refine inductionHypothesis ?_ laterLe
      cases first with
      | collect _ _ _ _ | flushAll _ => exact begun
      | flushAged now => exact firstLe

/-- What waits was younger than the latency at the latest check, for which a latency of zero
counts as one: what is appended at the very time of a check waits on. -/
theorem lastCheck_lt {origin : Nat} (begins : ∀ call ∈ calls, origin ≤ call.time)
    (ordered : calls.Pairwise fun first second => first.time ≤ second.time)
    {item : Nat × Record} (waits : item ∈ (empty threshold maxLatency).held peer calls) :
    lastCheck origin calls < item.1 + max maxLatency 1 := by
  induction calls using List.reverseRecOn with
  | nil => contradiction
  | append_singleton calls call inductionHypothesis =>
      obtain ⟨orderedBefore, _, notLater⟩ := List.pairwise_append.mp ordered
      obtain ⟨beginsBefore, begun⟩ := List.forall_mem_append.mp begins
      have recent := inductionHypothesis beginsBefore orderedBefore
      by_cases kept : payloadsFor peer
          (((empty threshold maxLatency).after calls).answer call).1 = []
      · rw [held_concat_of_kept kept, List.mem_append, Option.mem_toList] at waits
        rw [lastCheck, List.foldl_concat]
        rcases waits with earlier | appended
        · cases call with
          | collect _ _ _ _ | flushAll _ => exact recent earlier
          | flushAged now =>
              obtain ⟨oldest, oldestEq, oldestLe⟩ := exists_oldest?_eq earlier
              have young := lt_of_kept ordered kept oldestEq
              simp only [Call.lastCheck]
              omega
        · have lastLe : lastCheck origin calls ≤ call.time :=
            lastCheck_le (begun call List.mem_cons_self)
              fun other otherMem => notLater other otherMem call List.mem_cons_self
          have timeEq := time_of_appended? appended
          cases call with
          | collect now data other channel =>
              change lastCheck origin calls < _
              omega
          | flushAged now => simp [Call.appended?, Call.handed?] at appended
          | flushAll now => simp [Call.appended?, Call.handed?] at appended
      · rw [held_concat, hold, if_neg kept] at waits
        contradiction

/-- Whatever a call finds waiting, or appends, has waited less than the latency and the
interval. -/
theorem Checked.time_lt {interval origin : Nat} {before later : List Call}
    (checked : Checked interval origin (before ++ call :: later))
    (begins : ∀ other ∈ before ++ call :: later, origin ≤ other.time)
    (ordered : (before ++ call :: later).Pairwise fun first second => first.time ≤ second.time)
    {item : Nat × Record}
    (waits : item ∈ (empty threshold maxLatency).held peer before ++
      (call.appended? peer).toList) :
    call.time < item.1 + (max maxLatency 1 + interval) := by
  rcases List.mem_append.mp waits with earlier | appended
  · have recent := lastCheck_lt (List.forall_mem_append.mp begins).1
      (List.pairwise_append.mp ordered).1 earlier
    have soon := checked.time_le
    omega
  · have timeEq := time_of_appended? (Option.mem_toList.mp appended)
    omega

/-- A record leaves before a call by which it would have waited too long. -/
theorem exists_releases {bound : Nat} {before later : List Call} {item : Nat × Record}
    (prompt : ∀ middle given rest, call :: later = middle ++ given :: rest →
      item ∈ (empty threshold maxLatency).held peer (before ++ middle) ++
        (given.appended? peer).toList → given.time < bound)
    (waits : item ∈ (empty threshold maxLatency).held peer before ++
      (call.appended? peer).toList)
    (lasts : ∃ other ∈ call :: later, bound ≤ other.time) :
    ∃ middle given rest, call :: later = middle ++ given :: rest ∧
      (empty threshold maxLatency).Releases peer (before ++ middle) given item ∧
        given.time < bound := by
  induction later generalizing before call with
  | nil =>
      obtain ⟨other, otherMem, late⟩ := lasts
      rw [List.mem_singleton] at otherMem
      subst otherMem
      have early := prompt [] other [] rfl (by simpa using waits)
      omega
  | cons next later inductionHypothesis =>
      have early := prompt [] call (next :: later) rfl (by simpa using waits)
      rcases payloadsFor_answer threshold maxLatency peer before call with kept | given
      · -- Nothing leaves with this call, so the record still waits at the next one.
        have waitsOn : item ∈ (empty threshold maxLatency).held peer (before ++ [call]) ++
            (next.appended? peer).toList := by
          rw [held_concat_of_kept kept]
          exact List.mem_append_left _ waits
        have promptLater : ∀ middle given rest, next :: later = middle ++ given :: rest →
            item ∈ (empty threshold maxLatency).held peer (before ++ [call] ++ middle) ++
              (given.appended? peer).toList → given.time < bound := by
          intro middle given rest splitEq waiting
          rw [List.append_assoc, List.singleton_append] at waiting
          exact prompt (call :: middle) given rest (congrArg (call :: ·) splitEq) waiting
        have laterLasts : ∃ other ∈ next :: later, bound ≤ other.time := by
          obtain ⟨other, otherMem, late⟩ := lasts
          rcases List.mem_cons.mp otherMem with rfl | otherMem
          · omega
          · exact ⟨other, otherMem, late⟩
        obtain ⟨middle, given, rest, splitEq, releases, givenEarly⟩ :=
          inductionHypothesis promptLater waitsOn laterLasts
        refine ⟨call :: middle, given, rest, congrArg (call :: ·) splitEq, ?_, givenEarly⟩
        rwa [List.append_assoc, List.singleton_append] at releases
      · refine ⟨[], call, next :: later, rfl, ?_, early⟩
        rw [List.append_nil]
        exact ⟨waits, given⟩

/-! ## Runs -/

/-- A batch below the threshold leaves with a check alone, unless everything is asked for. -/
theorem eq_flushAged_of_short {parcel : Parcel}
    (given : parcel ∈ (batcher.answer call).1) (short : parcel.payload.length < batcher.threshold)
    (notAll : ∀ now, call ≠ .flushAll now) : call = .flushAged call.time := by
  cases call with
  | collect now data other channel =>
      simp only [answer, collect] at given
      split at given
      · next full =>
          rw [Option.mem_toList] at given
          change some _ = some parcel at given
          cases given
          exact absurd short (Nat.not_lt_of_le full)
      · contradiction
  | flushAged now => rfl
  | flushAll now => exact absurd rfl (notAll now)

/-- A check gives out, for each peer, the batch whose oldest record has waited for the latency,
and nothing else; the batches that wait after it are younger.  If checks are never further apart
than an interval, as a ticker makes them, a record leaves less than the latency and the interval
after it was appended, provided that the run lasts so long; a latency of zero counts as one.  No
batch below the threshold leaves before its oldest record has waited for the latency, unless
everything is asked for. -/
theorem latency_kept (threshold maxLatency interval origin : Nat) {calls : List Call}
    (begins : ∀ call ∈ calls, origin ≤ call.time)
    (ordered : calls.Pairwise fun first second => first.time ≤ second.time) :
    let start := empty threshold maxLatency
    (∀ before now later, calls = before ++ Call.flushAged now :: later → ∀ peer,
        payloadsFor peer ((start.after before).answer (.flushAged now)).1 =
            (if ∃ oldest ∈ start.oldest? peer before, oldest + maxLatency ≤ now then
              [bytesOf (start.held peer before)]
            else []) ∧
          ∀ batch ∈ (start.after (before ++ [.flushAged now])).waiting peer,
            ∃ oldest ∈ start.oldest? peer (before ++ [.flushAged now]),
              now < oldest + maxLatency) ∧
      (Ticked (.starting origin interval) calls → Checked interval origin calls) ∧
      (Checked interval origin calls → ∀ before call later, calls = before ++ call :: later →
        ∀ peer, ∀ item ∈ call.appended? peer,
          (∃ other ∈ call :: later, item.1 + (max maxLatency 1 + interval) ≤ other.time) →
          ∃ middle given rest, call :: later = middle ++ given :: rest ∧
            start.Releases peer (before ++ middle) given item ∧
              given.time < item.1 + (max maxLatency 1 + interval)) ∧
      ∀ before call later, calls = before ++ call :: later →
        ∀ parcel ∈ ((start.after before).answer call).1, parcel.payload.length < threshold →
          (∀ now, call ≠ .flushAll now) →
            ∃ oldest ∈ start.oldest? parcel.peer before, oldest + maxLatency ≤ call.time := by
  intro start
  have orderedUpTo : ∀ before call later, calls = before ++ call :: later →
      (before ++ [call]).Pairwise fun first second => first.time ≤ second.time := by
    rintro before call later rfl
    exact ordered.sublist
      ((List.singleton_sublist.mpr List.mem_cons_self).append_left before)
  refine ⟨?_, fun ticked => checked_of_ticked ticked (Nat.le_add_right origin interval), ?_, ?_⟩
  · intro before now later callsEq peer
    have upTo := orderedUpTo before (.flushAged now) later callsEq
    exact ⟨payloadsFor_flushAged upTo peer, fun batch waits => exists_oldest?_lt upTo waits⟩
  · rintro checked before call later rfl peer item appended lasts
    refine exists_releases ?_ (List.mem_append_right _ (Option.mem_toList.mpr appended)) lasts
    intro middle given rest splitEq waits
    rw [splitEq, ← List.append_assoc] at checked begins ordered
    exact checked.time_lt begins ordered waits
  · intro before call later callsEq parcel given short notAll
    have thresholdEq : (start.after before).threshold = threshold :=
      (after_keeps (distinct_after threshold maxLatency []) before).1
    have check := eq_flushAged_of_short given (thresholdEq.symm ▸ short) notAll
    have upTo := orderedUpTo before call later callsEq
    rw [check] at given upTo
    by_contra young
    have nothing : payloadsFor parcel.peer
        ((start.after before).answer (.flushAged call.time)).1 = _ :=
      payloadsFor_flushAged upTo parcel.peer
    rw [if_neg young] at nothing
    have listed : parcel.payload ∈ payloadsFor parcel.peer
        ((start.after before).answer (.flushAged call.time)).1 :=
      List.mem_map_of_mem (List.mem_filter.mpr ⟨given, by simp⟩)
    rw [nothing] at listed
    contradiction

/-- A batch fills, the next one leaves with the first check after its latency, and a third is
still too young. -/
theorem latency_kept_threeBatches :
    let peer : Peer := ⟨"left", 1⟩
    let filling : List Call := [.flushAged 0, .collect 1 [1, 2, 3] peer .chat,
      .collect 2 [4, 5] peer .ai]
    let waiting : List Call := [.collect 4 [6] peer .chat, .flushAged 5, .flushAged 10]
    let calls := filling ++ waiting ++
      [.flushAged 15, .collect 18 [7] peer .chat, .flushAged 20]
    (∀ call ∈ calls, 0 ≤ call.time) ∧
      (calls.Pairwise fun first second => first.time ≤ second.time) ∧
      Ticked (.starting 0 5) calls ∧ Checked 5 0 calls ∧
      payloadsFor peer (((empty 14 10).after (filling ++ waiting)).answer (.flushAged 15)).1 =
        [[0, 0, 0, 1, 7, 6]] ∧
      (∃ middle given rest, waiting ++
          [.flushAged 15, .collect 18 [7] peer .chat, .flushAged 20] = middle ++ given :: rest ∧
        (empty 14 10).Releases peer (filling ++ middle) given (4, ⟨7, [6]⟩) ∧
        given.time < 4 + (max 10 1 + 5)) ∧
      ∃ oldest ∈ (empty 14 10).oldest? peer (filling ++ waiting), oldest + 10 ≤ 15 := by
  intro peer filling waiting calls
  have begins : ∀ call ∈ calls, 0 ≤ call.time := fun _ _ => Nat.zero_le _
  have ordered : calls.Pairwise fun first second => first.time ≤ second.time := by decide
  have ticked : Ticked (.starting 0 5) calls := by
    simp [calls, filling, waiting, Ticked, Ticker.starting, Ticker.advance, Call.time]
  have leaves : payloadsFor peer
      (((empty 14 10).after (filling ++ waiting)).answer (.flushAged 15)).1 =
        [[0, 0, 0, 1, 7, 6]] := by decide
  obtain ⟨-, regular, prompt, soonest⟩ := latency_kept 14 10 5 0 begins ordered
  refine ⟨begins, ordered, ticked, regular ticked, leaves, ?_, ?_⟩
  · exact prompt (regular ticked) filling (.collect 4 [6] peer .chat) _ rfl peer (4, ⟨7, [6]⟩) rfl
      ⟨.flushAged 20, by simp, by decide⟩
  · exact soonest (filling ++ waiting) (.flushAged 15) _ rfl ⟨peer, [0, 0, 0, 1, 7, 6]⟩
      (by decide) (by decide) (by simp)

/-- With no latency at all, a record that is appended at the very time of a check waits for the
next one, and has then waited for the whole interval. -/
theorem releases_after_interval :
    let peer : Peer := ⟨"left", 1⟩
    let before : List Call := [.flushAged 0, .collect 0 [1] peer .chat]
    let calls := before ++ [.flushAged 5]
    (∀ call ∈ calls, 0 ≤ call.time) ∧
      (calls.Pairwise fun first second => first.time ≤ second.time) ∧
      Ticked (.starting 0 5) calls ∧ Checked 5 0 calls ∧
      (empty 2048 0).held peer before = [(0, ⟨7, [1]⟩)] ∧
      (empty 2048 0).Releases peer before (.flushAged 5) (0, ⟨7, [1]⟩) ∧
      ¬ (Call.flushAged 5).time < 0 + (0 + 5) := by
  intro peer before calls
  have ticked : Ticked (.starting 0 5) calls := by
    simp [calls, before, Ticked, Ticker.starting, Ticker.advance, Call.time]
  exact ⟨fun _ _ => Nat.zero_le _, by decide, ticked, checked_of_ticked ticked (by decide),
    by decide, ⟨by decide, by decide⟩, by decide⟩

end Runs

end Batcher

end ClusterOverlay
