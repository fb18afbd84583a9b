import ClusterOverlay.Schedule

/-!
# Steps of a schedule

What each operation does to the queues and to what is left of the budgets.
Boundaries that have passed reorder the lowest band and may restore the budgets,
and do nothing else.  Sending takes a packet from one band, as `Schedule.Takes`
says, and `Schedule.next_outcome` tells from which: the highest that has a packet
and budget left.

A schedule is used by calls.  `Schedule.after` is what becomes of it, and
`Schedule.departures` lists what it gives out.
-/

namespace ClusterOverlay

namespace Band

/-- The position of a band among the bands, of which the highest is the first. -/
def rank : Band → Nat
  | highest => 0
  | high => 1
  | low => 2

end Band

/-- The band to which the priority in a packet's header belongs, if the packet
has a header. -/
def Scheduled.band? (item : Scheduled) : Option Band :=
  (Packet.peekPriority item.packet).toOption.map Band.ofPriority

namespace Budgets

theorem get_spend_self {budgets : Budgets} {band : Band} (left : budgets.get band ≠ 0) :
    (budgets.spend band).get band + 1 = budgets.get band := by
  cases band <;> exact Nat.succ_pred_eq_of_ne_zero left

theorem get_spend_of_ne (budgets : Budgets) {band other : Band} (different : other ≠ band) :
    (budgets.spend band).get other = budgets.get other := by
  cases band <;> cases other <;> first | rfl | exact absurd rfl different

end Budgets

namespace Levels

/-- Turning the levels keeps their packets. -/
theorem toList_rotate_perm (levels : Levels) : levels.rotate.toList.Perm levels.toList := by
  simp only [rotate, toList]
  rw [List.append_assoc levels.first]
  exact List.perm_append_comm

theorem toList_turn_perm (levels : Levels) (turns : Nat) :
    (levels.turn turns).toList.Perm levels.toList := by
  unfold turn
  split
  · exact List.Perm.refl _
  · exact levels.toList_rotate_perm
  · exact levels.rotate.toList_rotate_perm.trans levels.toList_rotate_perm

/-- The packet taken is the first of all, and the others stay in order. -/
theorem toList_of_pop? {levels rest : Levels} {item : Scheduled}
    (popped : levels.pop? = some (item, rest)) : levels.toList = item :: rest.toList := by
  rcases levels with ⟨_ | ⟨head, first⟩, _ | ⟨head, second⟩, _ | ⟨head, third⟩⟩ <;>
    simp only [pop?, reduceCtorEq, Option.some.injEq, Prod.mk.injEq] at popped <;>
    rcases popped with ⟨rfl, rfl⟩ <;> simp [toList]

theorem pop?_eq_none_iff {levels : Levels} : levels.pop? = none ↔ levels.toList = [] := by
  rcases levels with ⟨_ | ⟨head, first⟩, _ | ⟨head, second⟩, _ | ⟨head, third⟩⟩ <;>
    simp [pop?, toList]

end Levels

namespace Schedule

/-! ## Boundaries -/

section Boundaries

variable {schedule : Schedule} {now : Nat}

theorem renew_of_due (due : schedule.epoch ≤ now - schedule.epochStart) :
    schedule.renew now =
      { schedule with
        tokens := schedule.budgets
        epochStart := now - (now - schedule.epochStart) % schedule.epoch } :=
  if_pos due

theorem renew_of_not_due (early : ¬ schedule.epoch ≤ now - schedule.epochStart) :
    schedule.renew now = schedule :=
  if_neg early

theorem rotate_of_due (due : schedule.rotation ≤ now - schedule.rotationStart) :
    schedule.rotate now =
      { schedule with
        low := schedule.low.turn ((now - schedule.rotationStart) / schedule.rotation)
        rotationStart := now - (now - schedule.rotationStart) % schedule.rotation } :=
  if_pos due

theorem rotate_of_not_due (early : ¬ schedule.rotation ≤ now - schedule.rotationStart) :
    schedule.rotate now = schedule :=
  if_neg early

variable (schedule now)

/-- Restoring the budgets moves no packet. -/
theorem queue_renew (band : Band) : (schedule.renew now).queue band = schedule.queue band := by
  by_cases due : schedule.epoch ≤ now - schedule.epochStart
  · rw [renew_of_due due]
    cases band <;> rfl
  · rw [renew_of_not_due due]

/-- Rotating keeps every packet in its band. -/
theorem queue_rotate_perm (band : Band) :
    ((schedule.rotate now).queue band).Perm (schedule.queue band) := by
  by_cases due : schedule.rotation ≤ now - schedule.rotationStart
  · rw [rotate_of_due due]
    cases band with
    | highest | high => exact List.Perm.refl _
    | low => exact Levels.toList_turn_perm _ _
  · rw [rotate_of_not_due due]

theorem queue_advance_perm (band : Band) :
    ((schedule.advance now).queue band).Perm (schedule.queue band) := by
  rw [advance, ← schedule.queue_renew now band]
  exact queue_rotate_perm _ now band

theorem queue_advance_eq_nil_iff (band : Band) :
    (schedule.advance now).queue band = [] ↔ schedule.queue band = [] := by
  rw [← List.length_eq_zero_iff, (schedule.queue_advance_perm now band).length_eq,
    List.length_eq_zero_iff]

/-- Everything but the lowest band has nothing to do with rotation. -/
theorem exists_rotate_eq :
    ∃ low rotationStart, schedule.rotate now = { schedule with low, rotationStart } := by
  by_cases due : schedule.rotation ≤ now - schedule.rotationStart
  · exact ⟨_, _, rotate_of_due due⟩
  · exact ⟨schedule.low, schedule.rotationStart, rotate_of_not_due due⟩

end Boundaries

/-! ## Packets that enter -/

theorem mem_queue_append {schedule : Schedule} {band other : Band} {item waiting : Scheduled}
    (waits : waiting ∈ (schedule.append band item).queue other) :
    waiting ∈ schedule.queue other ∨ waiting = item ∧ other = band := by
  cases band <;> cases other <;> grind [append, queue, Levels.toList]

/-- A packet that is accepted is put at the end of the band that its header
names, once boundaries are taken into account. -/
theorem add_eq_ok_iff {schedule after : Schedule} {now : Nat} {nextHop : Peer} {packet : Bytes} :
    schedule.add now nextHop packet = .ok after ↔
      ∃ band, Scheduled.band? ⟨nextHop, packet⟩ = some band ∧
        after = (schedule.advance now).append band ⟨nextHop, packet⟩ := by
  unfold add Scheduled.band?
  cases Packet.peekPriority packet with
  | error cause => simp [Except.map, Except.toOption]
  | ok priority => simp [Except.map, Except.toOption, eq_comm]

/-! ## Packets that leave -/

/-- A packet of the given band leaves, and nothing else happens. -/
structure Takes (schedule : Schedule) (band : Band) (item : Scheduled) (after : Schedule) :
    Prop where
  queueEq : schedule.queue band = item :: after.queue band
  queueOther : ∀ other, other ≠ band → after.queue other = schedule.queue other
  tokensEq : after.tokens.get band + 1 = schedule.tokens.get band
  tokensOther : ∀ other, other ≠ band → after.tokens.get other = schedule.tokens.get other
  budgetsEq : after.budgets = schedule.budgets
  epochEq : after.epoch = schedule.epoch
  epochStartEq : after.epochStart = schedule.epochStart

/-- Nothing of the band can leave: it has no packet, or no budget left. -/
def IsHeld (schedule : Schedule) (band : Band) : Prop :=
  schedule.tokens.get band = 0 ∨ schedule.queue band = []

theorem pop?_eq_none_iff {schedule : Schedule} {band : Band} :
    schedule.pop? band = none ↔ schedule.queue band = [] := by
  cases band with
  | highest =>
      unfold pop? queue
      cases schedule.highest <;> simp
  | high =>
      unfold pop? queue
      cases schedule.high <;> simp
  | low => simp [pop?, queue, Levels.pop?_eq_none_iff]

theorem take?_eq_none_iff {schedule : Schedule} {band : Band} :
    schedule.take? band = none ↔ schedule.IsHeld band := by
  unfold take? IsHeld
  split
  · next spent => simp [spent]
  · next left => simp [left, pop?_eq_none_iff]

/-- The first packet of the band is taken, and only the queues change. -/
theorem exists_of_pop? {schedule rest : Schedule} {band : Band} {item : Scheduled}
    (popped : schedule.pop? band = some (item, rest)) :
    schedule.queue band = item :: rest.queue band ∧
      (∀ other, other ≠ band → rest.queue other = schedule.queue other) ∧
      ∃ highest high low, rest = { schedule with highest, high, low } := by
  cases band with
  | highest =>
      cases queueEq : schedule.highest with
      | nil => simp [pop?, queueEq] at popped
      | cons head later =>
          simp only [pop?, queueEq, Option.some.injEq, Prod.mk.injEq] at popped
          rcases popped with ⟨rfl, rfl⟩
          refine ⟨queueEq, ?_, _, _, _, rfl⟩
          intro other different
          cases other <;> first | rfl | contradiction
  | high =>
      cases queueEq : schedule.high with
      | nil => simp [pop?, queueEq] at popped
      | cons head later =>
          simp only [pop?, queueEq, Option.some.injEq, Prod.mk.injEq] at popped
          rcases popped with ⟨rfl, rfl⟩
          refine ⟨queueEq, ?_, _, _, _, rfl⟩
          intro other different
          cases other <;> first | rfl | contradiction
  | low =>
      rcases Option.map_eq_some_iff.mp popped with ⟨⟨head, levels⟩, headEq, restEq⟩
      cases restEq
      refine ⟨Levels.toList_of_pop? headEq, ?_, _, _, _, rfl⟩
      intro other different
      cases other <;> first | rfl | contradiction

theorem takes_of_take? {schedule after : Schedule} {band : Band} {item : Scheduled}
    (taken : schedule.take? band = some (item, after)) : schedule.Takes band item after := by
  unfold take? at taken
  split at taken
  · contradiction
  · next left =>
      rcases Option.map_eq_some_iff.mp taken with ⟨⟨first, rest⟩, popped, afterEq⟩
      cases afterEq
      rcases exists_of_pop? popped with ⟨queueEq, queueOther, highest, high, low, rfl⟩
      exact ⟨queueEq, queueOther, Budgets.get_spend_self left,
        fun other different => Budgets.get_spend_of_ne _ different, rfl, rfl, rfl⟩

/-- What asking a schedule for a packet can come to, once boundaries are taken
into account. -/
inductive Outcome (schedule : Schedule) : Option Scheduled → Schedule → Prop
  | nothing (held : ∀ band, schedule.IsHeld band) : Outcome schedule none schedule
  /-- A packet leaves.  Nothing of a higher band can. -/
  | sent {band : Band} {item : Scheduled} {after : Schedule}
      (takes : schedule.Takes band item after)
      (held : ∀ higher : Band, higher.rank < band.rank → schedule.IsHeld higher) :
      Outcome schedule (some item) after

theorem next_outcome (schedule : Schedule) (now : Nat) :
    (schedule.advance now).Outcome (schedule.next now).1 (schedule.next now).2 := by
  simp only [next]
  generalize schedule.advance now = current
  cases highest : current.take? .highest with
  | some first =>
      refine .sent (takes_of_take? highest) ?_
      intro higher above
      cases higher <;> exact absurd above (by decide)
  | none =>
      have highestHeld := take?_eq_none_iff.mp highest
      cases high : current.take? .high with
      | some first =>
          refine .sent (takes_of_take? high) ?_
          intro higher above
          cases higher with
          | highest => exact highestHeld
          | high | low => exact absurd above (by decide)
      | none =>
          have highHeld := take?_eq_none_iff.mp high
          cases low : current.take? .low with
          | some first =>
              refine .sent (takes_of_take? low) ?_
              intro higher above
              cases higher with
              | highest => exact highestHeld
              | high => exact highHeld
              | low => exact absurd above (by decide)
          | none =>
              refine .nothing ?_
              intro band
              cases band with
              | highest => exact highestHeld
              | high => exact highHeld
              | low => exact take?_eq_none_iff.mp low

/-! ## Calls -/

/-- Something that is asked of a schedule at some time. -/
inductive Call
  | add (now : Nat) (nextHop : Peer) (packet : Bytes)
  | next (now : Nat)
  | untilRenewal (now : Nat)
  deriving DecidableEq, Repr

/-- When the call is made. -/
def Call.time : Call → Nat
  | add now _ _ => now
  | next now => now
  | untilRenewal now => now

/-- The packet that a schedule gives out because of a call, and what becomes of
the schedule.  A packet without a header is refused and changes nothing. -/
def answer (schedule : Schedule) : Call → Option Scheduled × Schedule
  | .add now nextHop packet => (none, (schedule.add now nextHop packet).toOption.getD schedule)
  | .next now => schedule.next now
  | .untilRenewal now => (none, (schedule.untilRenewal now).2)

/-- The schedule after some calls. -/
def after (schedule : Schedule) (calls : List Call) : Schedule :=
  calls.foldl (fun schedule call => (schedule.answer call).2) schedule

/-- The packets that a schedule gives out because of some calls, each with the
time at which it leaves. -/
def departures (schedule : Schedule) : List Call → List (Nat × Scheduled)
  | [] => []
  | call :: calls =>
      (schedule.answer call).1.toList.map (call.time, ·) ++
        (schedule.answer call).2.departures calls

end Schedule

end ClusterOverlay
