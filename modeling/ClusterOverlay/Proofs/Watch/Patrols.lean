import ClusterOverlay.Proofs.Batch
import ClusterOverlay.Proofs.Watch
import Mathlib.Data.Nat.Find

/-!
# When peers are reported

A patrol scans at equal distances after its beginning, one timeout apart.  Calls may come at any
time between two scans, and at the very time of a scan before or after it.  `Patrol.Punctual` says
that the scans happen when they are due, as they do when time passes
(`Patrol.exists_elapse_eq_after`).  Calls before the beginning are no exception
(`Patrol.start_after`).

Whoever is under watch has been heard of and left alone since (`Patrol.exists_hears`), and no scan
has come since that was more than one timeout later (`Patrol.Patrolling`).  So a report is made by
the first scan that is late enough, `FirstScan`, and by no other.  `Patrol.patrolled` puts this
together.
-/

namespace ClusterOverlay

/-! ## What a watch has for a peer after a call -/

namespace Watch

variable {watch : Watch} {now : Nat} {peer : Peer}

theorem find?_remove (watch : Watch) (peer other : Peer) :
    (watch.remove peer).lastSeen.find? other =
      if other = peer then none else watch.lastSeen.find? other := by
  by_cases same : other = peer
  · subst same
    rw [if_pos rfl]
    exact Table.find?_erase_self ..
  · rw [if_neg same]
    exact Table.find?_erase_of_ne same

theorem find?_refresh_of_ne {other : Peer} (different : other ≠ peer) :
    (watch.refresh now peer).lastSeen.find? other = watch.lastSeen.find? other := by
  unfold refresh
  split
  · rw [find?_add, if_neg different]
  · rfl

theorem contains_eq_false_iff :
    watch.contains peer = false ↔ watch.lastSeen.find? peer = none :=
  Option.isSome_eq_false_iff.trans Option.isNone_iff_eq_none

/-- A scan reports those who were heard of too long ago. -/
theorem mem_scan_iff (distinct : watch.lastSeen.Distinct) :
    peer ∈ (watch.scan now).1 ↔
      ∃ lastSeen, watch.lastSeen.find? peer = some lastSeen ∧ lastSeen + watch.timeout < now := by
  have late : ∀ lastSeen, watch.isOverdue now lastSeen = true ↔ lastSeen + watch.timeout < now := by
    intro lastSeen
    rw [isOverdue, decide_eq_true_eq]
    omega
  rw [scan, Peer.mem_ascending, Table.mem_keys_iff, Table.find?_keep distinct]
  simp only [Option.filter_eq_some_iff, late]

/-- A scan leaves a peer what the watch has for it, unless it reports the peer. -/
theorem find?_scan (distinct : watch.lastSeen.Distinct) :
    (watch.scan now).2.lastSeen.find? peer =
      if peer ∈ (watch.scan now).1 then none else watch.lastSeen.find? peer := by
  have kept : (watch.scan now).2.lastSeen.find? peer = _ :=
    Table.find?_keep distinct (!watch.isOverdue now ·) peer
  have late : ∀ lastSeen, watch.isOverdue now lastSeen =
      decide (lastSeen + watch.timeout < now) :=
    fun lastSeen => decide_eq_decide.mpr (by omega)
  simp only [kept, mem_scan_iff distinct]
  cases watch.lastSeen.find? peer with
  | none => simp
  | some lastSeen =>
      by_cases overdue : lastSeen + watch.timeout < now
      · simp [late, overdue]
      · simp [late, overdue]

end Watch

/-! ## Scans at equal distances -/

/-- The first of the scans, made at equal distances after the beginning, for which more than the
timeout has passed since a peer was heard of. -/
structure FirstScan (timeout begun heard time : Nat) : Prop where
  onGrid : ∃ count, time = begun + (count + 1) * timeout
  late : heard + timeout < time
  least : ∀ count, heard + timeout < begun + (count + 1) * timeout →
    time ≤ begun + (count + 1) * timeout

namespace FirstScan

variable {timeout begun heard time : Nat}

theorem exists_firstScan (positive : 0 < timeout) (begun heard : Nat) :
    ∃ time, FirstScan timeout begun heard time := by
  have late : ∃ count, heard + timeout < begun + (count + 1) * timeout := by
    refine ⟨heard + timeout, ?_⟩
    have far := Nat.le_mul_of_pos_right (heard + timeout + 1) positive
    omega
  refine ⟨begun + (Nat.find late + 1) * timeout, ⟨_, rfl⟩, Nat.find_spec late, ?_⟩
  intro count countLate
  exact Nat.add_le_add_left (Nat.mul_le_mul_right timeout
    (Nat.succ_le_succ (Nat.find_min' late countLate))) begun

theorem eq (first : FirstScan timeout begun heard time) {other : Nat}
    (second : FirstScan timeout begun heard other) : time = other := by
  obtain ⟨count, countEq⟩ := first.onGrid
  obtain ⟨otherCount, otherEq⟩ := second.onGrid
  exact Nat.le_antisymm (otherEq ▸ first.least otherCount (otherEq ▸ second.late))
    (countEq ▸ second.least count (countEq ▸ first.late))

/-- Whoever was heard of after the beginning is silent for at most two timeouts. -/
theorem le_two_mul (first : FirstScan timeout begun heard time) (positive : 0 < timeout)
    (after : begun ≤ heard) : time ≤ heard + 2 * timeout := by
  obtain ⟨count, timeEq⟩ := first.onGrid
  have late := first.late
  cases count with
  | zero => omega
  | succ count =>
      -- Otherwise the scan before would have been late enough.
      by_contra far
      rw [Nat.succ_mul] at timeEq
      have least := first.least count (by omega)
      omega

end FirstScan

namespace Patrol

/-! ## Runs -/

/-- A patrol over nobody that begins at some time. -/
def starting (timeout begun : Nat) : Patrol :=
  (idle timeout).start begun

/-- Something that happens to a patrol at some time. -/
inductive Event
  | add (now : Nat) (peer : Peer)
  | remove (now : Nat) (peer : Peer)
  | refresh (now : Nat) (peer : Peer)
  | scan (now : Nat)
  deriving DecidableEq, Repr

namespace Event

/-- When the event happens. -/
def time : Event → Nat
  | add now _ => now
  | remove now _ => now
  | refresh now _ => now
  | scan now => now

/-- The event removes a peer. -/
def Removes (peer : Peer) : Event → Prop
  | remove _ other => other = peer
  | add _ _ | refresh _ _ | scan _ => False

/-- The number of scans, if there were some before. -/
def count (scans : Nat) : Event → Nat
  | scan _ => scans + 1
  | add _ _ | remove _ _ | refresh _ _ => scans

end Event

/-- What a patrol is after an event. -/
def meet (patrol : Patrol) : Event → Patrol
  | .add now peer => { patrol with watch := patrol.watch.add now peer }
  | .remove _ peer => { patrol with watch := patrol.watch.remove peer }
  | .refresh now peer => { patrol with watch := patrol.watch.refresh now peer }
  | .scan now => patrol.scan now

/-- What a patrol is after some events. -/
def after (patrol : Patrol) (events : List Event) : Patrol :=
  events.foldl meet patrol

/-- Whom an event reports. -/
def news (patrol : Patrol) : Event → List Peer
  | .scan now => (patrol.watch.scan now).1
  | .add _ _ | .remove _ _ | .refresh _ _ => []

/-- When a peer was last heard of, if it is under watch. -/
def lastSeen? (patrol : Patrol) (peer : Peer) : Option Nat :=
  patrol.watch.lastSeen.find? peer

/-- A peer is heard of: it is put under watch, or it is under watch and refreshed. -/
def Hears (patrol : Patrol) (peer : Peer) : Event → Prop
  | .add _ other => other = peer
  | .refresh _ other => other = peer ∧ patrol.watch.contains peer
  | .remove _ _ | .scan _ => False

/-- In the course of some events a peer is neither heard of nor removed. -/
def LeavesAlone (peer : Peer) : Patrol → List Event → Prop
  | _, [] => True
  | patrol, event :: later =>
      ¬ patrol.Hears peer event ∧ ¬ event.Removes peer ∧ LeavesAlone peer (patrol.meet event) later

/-- A scan happens just when it is due, and nothing else happens while one is overdue. -/
def Fits (patrol : Patrol) : Event → Prop
  | .scan now => patrol.due = some now
  | event => ∀ time ∈ patrol.due, event.time ≤ time

/-- All scans happen when they are due. -/
def Punctual : Patrol → List Event → Prop
  | _, [] => True
  | patrol, event :: later => patrol.Fits event ∧ Punctual (patrol.meet event) later

instance (patrol : Patrol) (peer : Peer) : (event : Event) → Decidable (patrol.Hears peer event)
  | .add _ other => inferInstanceAs (Decidable (other = peer))
  | .refresh _ other => inferInstanceAs (Decidable (other = peer ∧ patrol.watch.contains peer))
  | .remove _ _ | .scan _ => inferInstanceAs (Decidable False)

instance (patrol : Patrol) : (event : Event) → Decidable (patrol.Fits event)
  | .scan now => inferInstanceAs (Decidable (patrol.due = some now))
  | .add now _ | .remove now _ | .refresh now _ =>
      inferInstanceAs (Decidable (∀ time ∈ patrol.due, now ≤ time))

instance decidablePunctual : (patrol : Patrol) → (events : List Event) →
    Decidable (patrol.Punctual events)
  | _, [] => isTrue trivial
  | patrol, event :: later =>
      have := decidablePunctual (patrol.meet event) later
      inferInstanceAs (Decidable (patrol.Fits event ∧ (patrol.meet event).Punctual later))

variable {patrol : Patrol} {peer : Peer} {event : Event} {events later : List Event}
  {timeout begun : Nat}

@[simp]
theorem after_nil (patrol : Patrol) : patrol.after [] = patrol :=
  rfl

@[simp]
theorem after_cons (patrol : Patrol) (event : Event) (later : List Event) :
    patrol.after (event :: later) = (patrol.meet event).after later :=
  rfl

@[simp]
theorem after_append (patrol : Patrol) (events later : List Event) :
    patrol.after (events ++ later) = (patrol.after events).after later :=
  List.foldl_append

theorem punctual_append : patrol.Punctual (events ++ later) ↔
    patrol.Punctual events ∧ (patrol.after events).Punctual later := by
  induction events generalizing patrol with
  | nil => exact (iff_of_eq (true_and _)).symm
  | cons event events inductionHypothesis =>
      rw [List.cons_append, Punctual, inductionHypothesis, Punctual, after_cons, and_assoc]

theorem leavesAlone_append : patrol.LeavesAlone peer (events ++ later) ↔
    patrol.LeavesAlone peer events ∧ (patrol.after events).LeavesAlone peer later := by
  induction events generalizing patrol with
  | nil => exact (iff_of_eq (true_and _)).symm
  | cons event events inductionHypothesis =>
      simp only [List.cons_append, LeavesAlone, inductionHypothesis, after_cons, and_assoc]

/-- An event adds its reports to those that were made before. -/
theorem reports_meet (patrol : Patrol) (event : Event) :
    (patrol.meet event).reports = patrol.reports ++ (patrol.news event).map (event.time, ·) := by
  cases event with
  | add _ _ | remove _ _ | refresh _ _ => exact (List.append_nil _).symm
  | scan now => rfl

theorem timeout_meet (patrol : Patrol) (event : Event) :
    (patrol.meet event).watch.timeout = patrol.watch.timeout := by
  cases event with
  | add _ _ | remove _ _ | scan _ => rfl
  | refresh now peer =>
      simp only [meet, Watch.refresh]
      split <;> rfl

theorem timeout_after (patrol : Patrol) (events : List Event) :
    (patrol.after events).watch.timeout = patrol.watch.timeout := by
  induction events generalizing patrol with
  | nil => rfl
  | cons event later inductionHypothesis =>
      rw [after_cons, inductionHypothesis, timeout_meet]

/-- Whether the calls before the beginning are answered before it or after it comes to the
same. -/
theorem start_after (patrol : Patrol) (begun : Nat) (calls : ∀ now, Event.scan now ∉ events) :
    (patrol.after events).start begun = (patrol.start begun).after events := by
  induction events generalizing patrol with
  | nil => rfl
  | cons event later inductionHypothesis =>
      have step : (patrol.meet event).start begun = (patrol.start begun).meet event := by
        have sameTimeout := timeout_meet patrol event
        cases event with
        | add _ _ | remove _ _ => rfl
        | refresh now peer =>
            rw [start, sameTimeout]
            rfl
        | scan now => exact absurd List.mem_cons_self (calls now)
      rw [after_cons, inductionHypothesis _ fun now nowMem => calls now (.tail _ nowMem), step,
        after_cons]

/-- To let time pass is to scan when scans are due. -/
theorem exists_elapse_eq_after (patrol : Patrol) (now target : Nat) :
    ∃ times : List Nat, patrol.Punctual (times.map .scan) ∧ (∀ time ∈ times, time ≤ target) ∧
      patrol.elapse now target = patrol.after (times.map .scan) := by
  rw [elapse, ClusterOverlay.elapse]
  generalize target - now + 1 = fuel
  induction fuel generalizing patrol with
  | zero => exact ⟨[], trivial, by simp, rfl⟩
  | succ fuel inductionHypothesis =>
      rw [actUntil]
      split
      · next time dueEq =>
          split
          · next inTime =>
              obtain ⟨times, punctual, early, timesEq⟩ := inductionHypothesis (patrol.scan time)
              exact ⟨time :: times, ⟨dueEq, punctual⟩,
                List.forall_mem_cons.mpr ⟨inTime, early⟩, timesEq⟩
          · exact ⟨[], trivial, by simp, rfl⟩
      · exact ⟨[], trivial, by simp, rfl⟩

/-! ## One event -/

theorem distinct_meet (distinct : patrol.watch.lastSeen.Distinct) (event : Event) :
    (patrol.meet event).watch.lastSeen.Distinct := by
  cases event with
  | add now peer => exact Table.distinct_insert distinct peer now
  | remove now peer => exact Table.distinct_erase distinct peer
  | refresh now peer =>
      simp only [meet, Watch.refresh]
      split
      · exact Table.distinct_insert distinct peer now
      · exact distinct
  | scan now => exact Table.distinct_keep distinct _

theorem distinct_after (distinct : patrol.watch.lastSeen.Distinct) (events : List Event) :
    (patrol.after events).watch.lastSeen.Distinct := by
  induction events generalizing patrol with
  | nil => exact distinct
  | cons event later inductionHypothesis =>
      exact inductionHypothesis (distinct_meet distinct event)

theorem mem_news_iff (distinct : patrol.watch.lastSeen.Distinct) :
    peer ∈ patrol.news event ↔ event = .scan event.time ∧
      ∃ heard, patrol.lastSeen? peer = some heard ∧
        heard + patrol.watch.timeout < event.time := by
  cases event with
  | add _ _ | remove _ _ | refresh _ _ => simp [news]
  | scan now =>
      have reported : peer ∈ patrol.news (.scan now) ↔ _ := Watch.mem_scan_iff distinct
      rw [reported]
      exact (and_iff_right rfl).symm

theorem lastSeen?_meet_of_hears (heard : patrol.Hears peer event) :
    (patrol.meet event).lastSeen? peer = some event.time := by
  cases event with
  | add now other =>
      cases heard
      exact Table.find?_insert_self ..
  | refresh now other =>
      obtain ⟨rfl, watched⟩ := heard
      rw [lastSeen?, meet, Watch.refresh, if_pos watched]
      exact Table.find?_insert_self ..
  | remove _ _ | scan _ => contradiction

theorem lastSeen?_meet_of_removes (removed : event.Removes peer) :
    (patrol.meet event).lastSeen? peer = none := by
  cases event with
  | remove now other =>
      cases removed
      exact Table.find?_erase_self ..
  | add _ _ | refresh _ _ | scan _ => contradiction

/-- Whoever is left alone stays as it was, or is reported and no longer under watch. -/
theorem lastSeen?_meet_of_leavesAlone (distinct : patrol.watch.lastSeen.Distinct)
    (unheard : ¬ patrol.Hears peer event) (kept : ¬ event.Removes peer) :
    (patrol.meet event).lastSeen? peer =
      if peer ∈ patrol.news event then none else patrol.lastSeen? peer := by
  cases event with
  | add now other =>
      have different : peer ≠ other := fun same => unheard same.symm
      exact (Watch.find?_add ..).trans (if_neg different)
  | remove now other =>
      have different : peer ≠ other := fun same => kept same.symm
      exact (Watch.find?_remove ..).trans (if_neg different)
  | refresh now other =>
      by_cases same : other = peer
      · have unwatched : ¬ patrol.watch.contains other :=
          fun watched => unheard ⟨same, same ▸ watched⟩
        rw [lastSeen?, meet, Watch.refresh, if_neg unwatched]
        rfl
      · exact Watch.find?_refresh_of_ne (Ne.symm same)
  | scan now => exact Watch.find?_scan distinct

/-- Whoever is not under watch stays so until it is added, and is not reported. -/
theorem lastSeen?_meet_of_eq_none (distinct : patrol.watch.lastSeen.Distinct)
    (unwatched : patrol.lastSeen? peer = none) (notAdded : ∀ now, event ≠ .add now peer) :
    (patrol.meet event).lastSeen? peer = none := by
  by_cases removed : event.Removes peer
  · exact lastSeen?_meet_of_removes removed
  · have unheard : ¬ patrol.Hears peer event := by
      intro heard
      cases event with
      | add now other => exact notAdded now (congrArg (Event.add now) heard)
      | refresh now other =>
          have watched := heard.2
          rw [Watch.contains_eq_false_iff.mpr unwatched] at watched
          contradiction
      | remove _ _ | scan _ => contradiction
    rw [lastSeen?_meet_of_leavesAlone distinct unheard removed, unwatched, ite_self]

theorem lastSeen?_after_of_eq_none (distinct : patrol.watch.lastSeen.Distinct)
    (unwatched : patrol.lastSeen? peer = none) (notAdded : ∀ now, Event.add now peer ∉ events) :
    (patrol.after events).lastSeen? peer = none := by
  induction events generalizing patrol with
  | nil => exact unwatched
  | cons event later inductionHypothesis =>
      refine inductionHypothesis (distinct_meet distinct event)
        (lastSeen?_meet_of_eq_none distinct unwatched ?_) fun now nowMem =>
          notAdded now (.tail _ nowMem)
      rintro now rfl
      exact notAdded now List.mem_cons_self

/-- Whoever is left alone for no longer than the timeout stays under watch. -/
theorem lastSeen?_after_of_leavesAlone {heard : Nat} (distinct : patrol.watch.lastSeen.Distinct)
    (seen : patrol.lastSeen? peer = some heard) (alone : patrol.LeavesAlone peer events)
    (soon : ∀ event ∈ events, event.time ≤ heard + patrol.watch.timeout) :
    (patrol.after events).lastSeen? peer = some heard := by
  induction events generalizing patrol with
  | nil => exact seen
  | cons event later inductionHypothesis =>
      obtain ⟨unheard, kept, laterAlone⟩ := alone
      obtain ⟨eventSoon, laterSoon⟩ := List.forall_mem_cons.mp soon
      have unreported : peer ∉ patrol.news event := by
        rw [mem_news_iff distinct, seen]
        rintro ⟨-, _, ⟨⟩, late⟩
        omega
      refine inductionHypothesis (distinct_meet distinct event) ?_ laterAlone ?_
      · rw [lastSeen?_meet_of_leavesAlone distinct unheard kept, if_neg unreported, seen]
      · rwa [timeout_meet]

/-- Whoever is reported is no longer under watch. -/
theorem lastSeen?_meet_of_mem_news (distinct : patrol.watch.lastSeen.Distinct)
    (reported : peer ∈ patrol.news event) : (patrol.meet event).lastSeen? peer = none := by
  cases event with
  | add _ _ | remove _ _ | refresh _ _ => contradiction
  | scan now =>
      rw [lastSeen?_meet_of_leavesAlone distinct id id, if_pos reported]

theorem nodup_news (distinct : patrol.watch.lastSeen.Distinct) (event : Event) :
    (patrol.news event).Nodup := by
  cases event with
  | add _ _ | remove _ _ | refresh _ _ => exact List.nodup_nil
  | scan now =>
      have silent := Table.distinct_keep distinct (patrol.watch.isOverdue now)
      exact (Peer.ascending_perm silent).nodup_iff.mpr silent

/-! ## The course of a patrol -/

/-- A patrol that began at some time, after some scans: the next one is due, and nobody was silent
for more than the timeout at the last one. -/
structure Patrolling (timeout begun scans now : Nat) (patrol : Patrol) : Prop where
  timeoutEq : patrol.watch.timeout = timeout
  ticking : ∃ ticker, patrol.scans = some ticker ∧
    ticker.next = begun + (scans + 1) * timeout ∧ ticker.period = timeout
  distinct : patrol.watch.lastSeen.Distinct
  young : 0 < scans → begun + scans * timeout ≤ now ∧ ∀ peer heard,
    patrol.lastSeen? peer = some heard → begun + scans * timeout ≤ heard + timeout

theorem patrolling_starting (timeout begun : Nat) :
    Patrolling timeout begun 0 0 (starting timeout begun) :=
  ⟨rfl, ⟨_, rfl, by rw [Nat.zero_add, Nat.one_mul]; rfl, rfl⟩, Table.distinct_empty,
    fun scanned => absurd scanned (Nat.lt_irrefl 0)⟩

namespace Patrolling

variable {scans now : Nat}

theorem due_eq (patrolling : Patrolling timeout begun scans now patrol) :
    patrol.due = some (begun + (scans + 1) * timeout) := by
  obtain ⟨ticker, scansEq, nextEq, -⟩ := patrolling.ticking
  rw [due, scansEq, Option.map_some, nextEq]

theorem time_eq_of_scan (patrolling : Patrolling timeout begun scans now patrol) {time : Nat}
    (fits : patrol.Fits (.scan time)) : time = begun + (scans + 1) * timeout :=
  Option.some.inj (fits.symm.trans patrolling.due_eq)

/-- No event comes later than the scan that is due. -/
theorem time_le (patrolling : Patrolling timeout begun scans now patrol)
    (fits : patrol.Fits event) : event.time ≤ begun + (scans + 1) * timeout := by
  cases event with
  | scan time => exact Nat.le_of_eq (patrolling.time_eq_of_scan fits)
  | add _ _ | remove _ _ | refresh _ _ => exact fits _ patrolling.due_eq

/-- A time that a watch has after an event was there before, or is that of the event. -/
theorem lastSeen?_of_meet (patrolling : Patrolling timeout begun scans now patrol) {heard : Nat}
    (seen : (patrol.meet event).lastSeen? peer = some heard) :
    heard = event.time ∨ patrol.lastSeen? peer = some heard ∧ peer ∉ patrol.news event := by
  by_cases hears : patrol.Hears peer event
  · rw [lastSeen?_meet_of_hears hears, Option.some.injEq] at seen
    exact .inl seen.symm
  · by_cases removed : event.Removes peer
    · rw [lastSeen?_meet_of_removes removed] at seen
      contradiction
    · rw [lastSeen?_meet_of_leavesAlone patrolling.distinct hears removed,
        Option.ite_none_left_eq_some] at seen
      exact .inr ⟨seen.2, seen.1⟩

theorem meet (patrolling : Patrolling timeout begun scans now patrol)
    (notBack : now ≤ event.time) (fits : patrol.Fits event) :
    Patrolling timeout begun (event.count scans) event.time (patrol.meet event) := by
  obtain ⟨ticker, scansEq, nextEq, periodEq⟩ := patrolling.ticking
  refine ⟨(timeout_meet patrol event).trans patrolling.timeoutEq, ?_,
    distinct_meet patrolling.distinct event, ?_⟩
  · cases event with
    | add _ _ | remove _ _ | refresh _ _ => exact ⟨ticker, scansEq, nextEq, periodEq⟩
    | scan time =>
        refine ⟨ticker.advance, by rw [Patrol.meet, Patrol.scan, scansEq]; rfl, ?_, periodEq⟩
        rw [Ticker.advance, nextEq, periodEq, Event.count, Nat.add_assoc, ← Nat.succ_mul]
  · cases event with
    | add _ _ | remove _ _ | refresh _ _ =>
        intro scanned
        obtain ⟨reached, young⟩ := patrolling.young scanned
        have reached := Nat.le_trans reached notBack
        refine ⟨reached, fun peer heard seen => ?_⟩
        rcases patrolling.lastSeen?_of_meet seen with rfl | ⟨before, -⟩
        · exact Nat.le_add_right_of_le reached
        · exact young peer heard before
    | scan time =>
        have reached : begun + (scans + 1) * timeout ≤ time :=
          Nat.le_of_eq (patrolling.time_eq_of_scan fits).symm
        refine fun _ => ⟨reached, fun peer heard seen => ?_⟩
        rcases patrolling.lastSeen?_of_meet seen with rfl | ⟨before, unreported⟩
        · exact Nat.le_add_right_of_le reached
        · rw [mem_news_iff patrolling.distinct, patrolling.timeoutEq] at unreported
          exact Nat.le_trans reached
            (Nat.le_of_not_lt fun late => unreported ⟨rfl, heard, before, late⟩)

/-- Whoever is reported has been heard of, and this is the first scan that is late enough. -/
theorem firstScan (patrolling : Patrolling timeout begun scans now patrol)
    (fits : patrol.Fits event) (reported : peer ∈ patrol.news event) :
    event = .scan event.time ∧
      ∃ heard, patrol.lastSeen? peer = some heard ∧ FirstScan timeout begun heard event.time := by
  obtain ⟨isScan, heard, seen, late⟩ := (mem_news_iff patrolling.distinct).mp reported
  rw [patrolling.timeoutEq] at late
  rw [isScan] at fits
  have timeEq : event.time = begun + (scans + 1) * timeout := patrolling.time_eq_of_scan fits
  refine ⟨isScan, heard, seen, ⟨scans, timeEq⟩, late, fun count countLate => ?_⟩
  -- At the last scan before, nobody was overdue.
  have notBefore : scans ≤ count := by
    rcases Nat.eq_zero_or_pos scans with unscanned | scanned
    · omega
    · have young := (patrolling.young scanned).2 peer heard seen
      have less : scans * timeout < (count + 1) * timeout := by omega
      exact Nat.le_of_lt_succ (Nat.lt_of_mul_lt_mul_right less)
  rw [timeEq]
  exact Nat.add_le_add_left (Nat.mul_le_mul_right timeout (Nat.succ_le_succ notBefore)) begun

theorem mono {later : Nat} (patrolling : Patrolling timeout begun scans now patrol)
    (notBack : now ≤ later) : Patrolling timeout begun scans later patrol :=
  { patrolling with
    young := fun scanned =>
      ⟨Nat.le_trans (patrolling.young scanned).1 notBack, (patrolling.young scanned).2⟩ }

theorem after (patrolling : Patrolling timeout begun scans now patrol) {time : Nat}
    (notBack : ∀ event ∈ events, now ≤ event.time) (notLater : ∀ event ∈ events, event.time ≤ time)
    (ordered : events.Pairwise fun first second => first.time ≤ second.time)
    (punctual : patrol.Punctual events) (nowLe : now ≤ time) :
    ∃ number, Patrolling timeout begun number time (patrol.after events) := by
  induction events generalizing patrol scans now with
  | nil => exact ⟨scans, patrolling.mono nowLe⟩
  | cons event later inductionHypothesis =>
      obtain ⟨inOrder, laterOrdered⟩ := List.pairwise_cons.mp ordered
      obtain ⟨eventNotLater, laterNotLater⟩ := List.forall_mem_cons.mp notLater
      exact inductionHypothesis (patrolling.meet (notBack event List.mem_cons_self) punctual.1)
        inOrder laterNotLater laterOrdered punctual.2 eventNotLater

/-- A patrol that goes on for long enough makes the first scan that is late enough.  Whoever is
left alone until then is still under watch. -/
theorem exists_scan {heard time count : Nat}
    (patrolling : Patrolling timeout begun scans now patrol)
    (notBack : ∀ event ∈ events, now ≤ event.time)
    (ordered : events.Pairwise fun first second => first.time ≤ second.time)
    (punctual : patrol.Punctual events) (first : FirstScan timeout begun heard time)
    (timeEq : time = begun + (count + 1) * timeout) (ahead : scans ≤ count)
    (lasts : ∃ event ∈ events, event = .scan time ∨ time < event.time) :
    ∃ middle rest, events = middle ++ .scan time :: rest ∧
      (patrol.lastSeen? peer = some heard → patrol.LeavesAlone peer middle →
        (patrol.after middle).lastSeen? peer = some heard) := by
  induction events generalizing patrol scans now with
  | nil => simp at lasts
  | cons event later inductionHypothesis =>
      obtain ⟨notLater, laterOrdered⟩ := List.pairwise_cons.mp ordered
      obtain ⟨fits, laterPunctual⟩ := punctual
      by_cases isFirst : event = .scan time
      · exact ⟨[], later, by rw [isFirst, List.nil_append], fun seen _ => seen⟩
      have still := patrolling.meet (notBack event List.mem_cons_self) fits
      have aheadStill : event.count scans ≤ count := by
        cases event with
        | add _ _ | remove _ _ | refresh _ _ => exact ahead
        | scan other =>
            refine Nat.lt_of_le_of_ne ahead fun last => isFirst ?_
            rw [patrolling.time_eq_of_scan fits, last, timeEq]
      have laterLasts : ∃ other ∈ later, other = .scan time ∨ time < other.time := by
        have soon := patrolling.time_le fits
        have due : (scans + 1) * timeout ≤ (count + 1) * timeout :=
          Nat.mul_le_mul_right timeout (Nat.succ_le_succ ahead)
        obtain ⟨other, otherMem, reaches⟩ := lasts
        rcases List.mem_cons.mp otherMem with rfl | otherMem
        · have notYet := reaches.resolve_left isFirst
          omega
        · exact ⟨other, otherMem, reaches⟩
      obtain ⟨middle, rest, splitEq, keeps⟩ :=
        inductionHypothesis still notLater laterOrdered laterPunctual aheadStill laterLasts
      refine ⟨event :: middle, rest, by rw [splitEq, List.cons_append], ?_⟩
      rintro seen ⟨unheard, kept, alone⟩
      refine keeps ?_ alone
      rw [lastSeen?_meet_of_leavesAlone patrolling.distinct unheard kept, seen, if_neg]
      intro reported
      -- A scan that reports the peer would be the first that is late enough.
      obtain ⟨isScan, other, otherSeen, otherFirst⟩ := patrolling.firstScan fits reported
      rw [seen, Option.some.injEq] at otherSeen
      subst otherSeen
      exact isFirst (otherFirst.eq first ▸ isScan)

/-- After a peer was heard of, a patrol makes the first scan that is late enough, if it goes on for
long enough. -/
theorem exists_scan_of_hears {time : Nat}
    (patrolling : Patrolling timeout begun scans event.time patrol)
    (notBack : ∀ other ∈ events, event.time ≤ other.time)
    (ordered : events.Pairwise fun first second => first.time ≤ second.time)
    (punctual : patrol.Punctual (event :: events)) (hears : patrol.Hears peer event)
    (first : FirstScan timeout begun event.time time)
    (lasts : ∃ other ∈ events, other = .scan time ∨ time < other.time) :
    ∃ middle rest, events = middle ++ .scan time :: rest ∧
      ((patrol.meet event).LeavesAlone peer middle →
        ((patrol.meet event).after middle).lastSeen? peer = some event.time) := by
  obtain ⟨fits, laterPunctual⟩ := punctual
  obtain ⟨count, timeEq⟩ := first.onGrid
  have still := patrolling.meet (Nat.le_refl _) fits
  have ahead : event.count scans ≤ count := by
    have sameCount : event.count scans = scans := by
      cases event with
      | add _ _ | remove _ _ | refresh _ _ => rfl
      | scan _ => contradiction
    rw [sameCount]
    rcases Nat.eq_zero_or_pos scans with unscanned | scanned
    · omega
    · have reached := (patrolling.young scanned).1
      have late := first.late
      have less : (scans + 1) * timeout < (count + 1) * timeout := by
        rw [Nat.succ_mul]
        omega
      exact Nat.le_of_lt (Nat.lt_of_succ_lt_succ (Nat.lt_of_mul_lt_mul_right less))
  obtain ⟨middle, rest, eventsEq, keeps⟩ :=
    still.exists_scan notBack ordered laterPunctual first timeEq ahead lasts
  exact ⟨middle, rest, eventsEq, keeps (lastSeen?_meet_of_hears hears)⟩

end Patrolling

/-! ## Runs from the beginning -/

section Runs

variable {before middle : List Event}

theorem distinct_starting (timeout begun : Nat) (events : List Event) :
    ((starting timeout begun).after events).watch.lastSeen.Distinct :=
  distinct_after (patrolling_starting timeout begun).distinct events

/-- Whoever is under watch has been heard of, and has been left alone since. -/
theorem exists_hears {heard : Nat}
    (seen : ((starting timeout begun).after events).lastSeen? peer = some heard) :
    ∃ earlier event middle, events = earlier ++ event :: middle ∧ event.time = heard ∧
      ((starting timeout begun).after earlier).Hears peer event ∧
      ((starting timeout begun).after (earlier ++ [event])).LeavesAlone peer middle := by
  induction events using List.reverseRecOn with
  | nil => contradiction
  | append_singleton events event inductionHypothesis =>
      have distinct := distinct_starting timeout begun events
      rw [after_append, after_cons, after_nil] at seen
      by_cases hears : ((starting timeout begun).after events).Hears peer event
      · rw [lastSeen?_meet_of_hears hears, Option.some.injEq] at seen
        exact ⟨events, event, [], rfl, seen, hears, trivial⟩
      by_cases removed : event.Removes peer
      · rw [lastSeen?_meet_of_removes removed] at seen
        contradiction
      rw [lastSeen?_meet_of_leavesAlone distinct hears removed,
        Option.ite_none_left_eq_some] at seen
      obtain ⟨earlier, first, middle, eventsEq, timeEq, heard, alone⟩ := inductionHypothesis seen.2
      refine ⟨earlier, first, middle ++ [event], by rw [eventsEq, List.append_assoc]; rfl, timeEq,
        heard, leavesAlone_append.mpr ⟨alone, ?_, removed, trivial⟩⟩
      rwa [← after_append, List.append_assoc, List.singleton_append, ← eventsEq]

theorem exists_patrolling
    (ordered : (before ++ event :: later).Pairwise fun first second => first.time ≤ second.time)
    (punctual : (starting timeout begun).Punctual (before ++ event :: later)) :
    ∃ scans, Patrolling timeout begun scans event.time ((starting timeout begun).after before) ∧
      ((starting timeout begun).after before).Punctual (event :: later) := by
  obtain ⟨orderedBefore, -, inOrder⟩ := List.pairwise_append.mp ordered
  obtain ⟨punctualBefore, punctualLater⟩ := punctual_append.mp punctual
  obtain ⟨scans, patrolling⟩ := (patrolling_starting timeout begun).after
    (fun _ _ => Nat.zero_le _) (fun other otherMem => inOrder other otherMem _ List.mem_cons_self)
    orderedBefore punctualBefore (Nat.zero_le _)
  exact ⟨scans, patrolling, punctualLater⟩

/-- Whoever is left alone is reported by the first scan that is late enough, and no longer under
watch after it. -/
theorem reported_of_leavesAlone {time : Nat}
    (ordered : (before ++ event :: later).Pairwise fun first second => first.time ≤ second.time)
    (punctual : (starting timeout begun).Punctual (before ++ event :: later))
    (hears : ((starting timeout begun).after before).Hears peer event)
    (first : FirstScan timeout begun event.time time)
    (lasts : ∃ other ∈ later, other = .scan time ∨ time < other.time) :
    ∃ middle rest, later = middle ++ .scan time :: rest ∧
      (((starting timeout begun).after (before ++ [event])).LeavesAlone peer middle →
        peer ∈ ((starting timeout begun).after (before ++ event :: middle)).news (.scan time) ∧
        ((starting timeout begun).after
          (before ++ event :: middle ++ [.scan time])).watch.contains peer = false) := by
  obtain ⟨scans, patrolling, punctualLater⟩ := exists_patrolling ordered punctual
  obtain ⟨notBack, laterOrdered⟩ := List.pairwise_cons.mp (List.pairwise_append.mp ordered).2.1
  obtain ⟨middle, rest, laterEq, keeps⟩ :=
    patrolling.exists_scan_of_hears notBack laterOrdered punctualLater hears first lasts
  refine ⟨middle, rest, laterEq, fun alone => ?_⟩
  rw [after_append, after_cons, after_nil] at alone
  have distinct := distinct_starting timeout begun (before ++ event :: middle)
  have reported : peer ∈
      ((starting timeout begun).after (before ++ event :: middle)).news (.scan time) := by
    rw [mem_news_iff distinct, timeout_after, after_append, after_cons, keeps alone]
    exact ⟨rfl, event.time, rfl, first.late⟩
  refine ⟨reported, Watch.contains_eq_false_iff.mpr ?_⟩
  rw [after_append]
  exact lastSeen?_meet_of_mem_news distinct reported

/-- Only those are reported who have been left alone since they were heard of, and only by the first
scan that is late enough. -/
theorem exists_firstScan_of_reported
    (ordered : (before ++ event :: later).Pairwise fun first second => first.time ≤ second.time)
    (punctual : (starting timeout begun).Punctual (before ++ event :: later))
    (reported : peer ∈ ((starting timeout begun).after before).news event) :
    event = .scan event.time ∧
      ∃ earlier heard middle, before = earlier ++ heard :: middle ∧
        ((starting timeout begun).after earlier).Hears peer heard ∧
        ((starting timeout begun).after (earlier ++ [heard])).LeavesAlone peer middle ∧
        FirstScan timeout begun heard.time event.time := by
  obtain ⟨scans, patrolling, punctualLater⟩ := exists_patrolling ordered punctual
  obtain ⟨isScan, heard, seen, first⟩ := patrolling.firstScan punctualLater.1 reported
  obtain ⟨earlier, given, middle, beforeEq, rfl, hears, alone⟩ := exists_hears seen
  exact ⟨isScan, earlier, given, middle, beforeEq, hears, alone, first⟩

/-- Whoever is left alone for no longer than the timeout is still under watch. -/
theorem lastSeen?_of_leavesAlone {heard : Event}
    (ordered : (before ++ heard :: middle ++ event :: later).Pairwise
      fun first second => first.time ≤ second.time)
    (hears : ((starting timeout begun).after before).Hears peer heard)
    (alone : ((starting timeout begun).after (before ++ [heard])).LeavesAlone peer middle)
    (soon : event.time ≤ heard.time + timeout) :
    ((starting timeout begun).after (before ++ heard :: middle)).lastSeen? peer =
      some heard.time := by
  have inOrder : ∀ other ∈ middle, other.time ≤ event.time := fun other otherMem =>
    (List.pairwise_append.mp ordered).2.2 other
      (List.mem_append_right before (.tail _ otherMem)) event List.mem_cons_self
  have distinct := distinct_starting timeout begun (before ++ [heard])
  have seen : ((starting timeout begun).after (before ++ [heard])).lastSeen? peer =
      some heard.time := by
    rw [after_append]
    exact lastSeen?_meet_of_hears hears
  rw [List.append_cons, after_append]
  refine lastSeen?_after_of_leavesAlone distinct seen alone fun other otherMem => ?_
  rw [timeout_after]
  exact Nat.le_trans (inOrder other otherMem) soon

/-- Whoever was reported or removed is not under watch until it is added. -/
theorem lastSeen?_of_gone (gone : peer ∈ ((starting timeout begun).after before).news event ∨
      event.Removes peer)
    (notAdded : ∀ now, Event.add now peer ∉ middle) :
    ((starting timeout begun).after (before ++ event :: middle)).lastSeen? peer = none := by
  have distinct := distinct_starting timeout begun before
  rw [after_append, after_cons]
  refine lastSeen?_after_of_eq_none (distinct_meet distinct event) ?_ notAdded
  rcases gone with reported | removed
  · exact lastSeen?_meet_of_mem_news distinct reported
  · exact lastSeen?_meet_of_removes removed

/-- A peer that is heard of is reported by the first scan, made at a multiple of the timeout after
the beginning, for which more than the timeout has passed since, if it is left alone until then.
This is at most two timeouts after a time at which the patrol had begun.  Nobody is reported
otherwise: neither before, nor after a removal, nor again before it is added. -/
theorem patrolled (timeout begun : Nat) (positive : 0 < timeout) {events : List Event}
    (ordered : events.Pairwise fun first second => first.time ≤ second.time)
    (punctual : (starting timeout begun).Punctual events) :
    let start := starting timeout begun
    (∀ before event later, events = before ++ event :: later → ∀ peer,
        (start.after before).Hears peer event →
        ∃ time, FirstScan timeout begun event.time time ∧
          (begun ≤ event.time → time ≤ event.time + 2 * timeout) ∧
          ((∃ other ∈ later, other = .scan time ∨ time < other.time) →
            ∃ middle rest, later = middle ++ .scan time :: rest ∧
              ((start.after (before ++ [event])).LeavesAlone peer middle →
                peer ∈ (start.after (before ++ event :: middle)).news (.scan time) ∧
                (start.after (before ++ event :: middle ++ [.scan time])).watch.contains peer =
                  false))) ∧
      (∀ before event later, events = before ++ event :: later →
        (start.after (before ++ [event])).reports = (start.after before).reports ++
            ((start.after before).news event).map (event.time, ·) ∧
          ((start.after before).news event).Nodup ∧
          ∀ peer ∈ (start.after before).news event, event = .scan event.time ∧
            ∃ earlier heard middle, before = earlier ++ heard :: middle ∧
              (start.after earlier).Hears peer heard ∧
              (start.after (earlier ++ [heard])).LeavesAlone peer middle ∧
              FirstScan timeout begun heard.time event.time) ∧
      (∀ before heard middle event later, events = before ++ heard :: middle ++ event :: later →
        ∀ peer, (start.after before).Hears peer heard →
          (start.after (before ++ [heard])).LeavesAlone peer middle →
          event.time ≤ heard.time + timeout →
            (start.after (before ++ heard :: middle)).watch.contains peer = true ∧
              peer ∉ (start.after (before ++ heard :: middle)).news event) ∧
      ∀ before event middle later, events = before ++ event :: middle ++ later → ∀ peer,
        peer ∈ (start.after before).news event ∨ event.Removes peer →
        (∀ now, Event.add now peer ∉ middle) →
          (start.after (before ++ event :: middle)).watch.contains peer = false ∧
            ∀ other ∈ later.head?,
              peer ∉ (start.after (before ++ event :: middle)).news other := by
  intro start
  have distinct : ∀ events, (start.after events).watch.lastSeen.Distinct :=
    distinct_starting timeout begun
  refine ⟨?_, ?_, ?_, ?_⟩
  · rintro before event later rfl peer hears
    obtain ⟨time, first⟩ := FirstScan.exists_firstScan positive begun event.time
    exact ⟨time, first, first.le_two_mul positive,
      reported_of_leavesAlone ordered punctual hears first⟩
  · rintro before event later rfl
    refine ⟨?_, nodup_news (distinct before) event,
      fun peer => exists_firstScan_of_reported ordered punctual⟩
    rw [after_append]
    exact reports_meet _ event
  · rintro before heard middle event later rfl peer hears alone soon
    have seen := lastSeen?_of_leavesAlone ordered hears alone soon
    refine ⟨Watch.contains_iff.mpr ⟨_, seen⟩, ?_⟩
    rw [mem_news_iff (distinct _), seen, timeout_after]
    rintro ⟨-, _, ⟨⟩, late⟩
    exact Nat.not_lt_of_le soon late
  · rintro before event middle later rfl peer gone notAdded
    have unwatched := lastSeen?_of_gone gone notAdded
    refine ⟨Watch.contains_eq_false_iff.mpr unwatched, fun other _ => ?_⟩
    rw [mem_news_iff (distinct _), unwatched]
    rintro ⟨-, _, ⟨⟩, _⟩

/-- A peer is refreshed at the very time of a scan.  The next scan is not late enough, and the one
after it is; a refresh after that changes nothing. -/
theorem patrolled_onGrid :
    let peer : Peer := ⟨"left", 1⟩
    let other : Peer := ⟨"right", 1⟩
    let before : List Event := [.add 1 peer, .refresh 4 peer, .add 5 other, .remove 6 other,
      .scan 13]
    let later : List Event := [.scan 23, .scan 33, .refresh 34 peer, .scan 43, .add 44 peer]
    let events := before ++ .refresh 13 peer :: later
    let start := starting 10 3
    0 < 10 ∧ (events.Pairwise fun first second => first.time ≤ second.time) ∧
      start.Punctual events ∧ (start.after events).reports = [(33, peer)] ∧
      (∃ middle rest, later = middle ++ .scan 33 :: rest ∧
        ((start.after (before ++ [.refresh 13 peer])).LeavesAlone peer middle →
          peer ∈ (start.after (before ++ .refresh 13 peer :: middle)).news (.scan 33) ∧
          (start.after (before ++ .refresh 13 peer :: middle ++ [.scan 33])).watch.contains peer =
            false)) ∧
      peer ∉ (start.after (before ++ [.refresh 13 peer])).news (.scan 23) ∧
      (start.after (before ++ [.refresh 13 peer, .scan 23] ++
        [.scan 33, .refresh 34 peer, .scan 43])).watch.contains peer = false := by
  intro peer other before later events start
  have ordered : events.Pairwise fun first second => first.time ≤ second.time := by decide
  have punctual : start.Punctual events := by decide
  obtain ⟨onTime, -, notBefore, notAgain⟩ := patrolled 10 3 (by decide) ordered punctual
  refine ⟨by decide, ordered, punctual, by decide, ?_, ?_, ?_⟩
  · obtain ⟨time, first, -, reported⟩ := onTime before (.refresh 13 peer) later rfl peer (by decide)
    have thirdScan : FirstScan 10 3 (Event.refresh 13 peer).time 33 :=
      ⟨⟨2, rfl⟩, by decide, fun count late => by simp only [Event.time] at late; omega⟩
    obtain rfl := first.eq thirdScan
    exact reported ⟨.scan 33, by decide, .inl rfl⟩
  · exact (notBefore before (.refresh 13 peer) [] (.scan 23) _ rfl peer (by decide) True.intro
      (by decide)).2
  · have reported : peer ∈
        (start.after (before ++ [.refresh 13 peer, .scan 23])).news (.scan 33) := by decide
    have split : events = before ++ [.refresh 13 peer, .scan 23] ++
        .scan 33 :: [.refresh 34 peer, .scan 43] ++ [.add 44 peer] := by
      simp [events, later]
    exact (notAgain _ _ _ _ split peer (.inl reported) (by simp)).1

end Runs

end Patrol

end ClusterOverlay
