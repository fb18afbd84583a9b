import ClusterOverlay.Proofs.Schedule.Lanes

/-!
# Polling a schedule

Whoever sends looks at a schedule at any time: how long the epoch still lasts, how many
packets wait, whether one of them may leave.  Each look takes into account the boundaries
that have passed so far.  But a whole number of periods and then another are their sum, and
turns add up as well, so that boundaries taken into account at two times are those of the
later time: `Schedule.advance_advance`.  Hence whatever is asked of a schedule has the same
answer whether it was looked at in between or not: `Schedule.polls_invisible`.
-/

namespace ClusterOverlay

/-! ## Turns add up -/

namespace Levels

/-- Levels are the same if the packets in each place are. -/
theorem eq_of_level_eq {left right : Levels}
    (same : ∀ place, left.level place = right.level place) : left = right := by
  rcases left with ⟨first, second, third⟩
  have firstEq := same 0
  have secondEq := same 1
  have thirdEq := same 2
  simp only [level] at firstEq secondEq thirdEq
  rw [firstEq, secondEq, thirdEq]

theorem turn_zero (levels : Levels) : levels.turn 0 = levels :=
  rfl

theorem turn_turn (levels : Levels) (first second : Nat) :
    (levels.turn first).turn second = levels.turn (first + second) := by
  apply eq_of_level_eq
  intro place
  simp only [level_turn]
  congr 1
  apply Fin.ext
  simp only [Fin.add_def, Fin.ofNat]
  omega

end Levels

namespace Schedule

/-! ## Boundaries taken into account twice -/

/-- The whole periods up to a time, and those that are left from there to a later time. -/
theorem div_add_div_of_le {first second : Nat} (le : first ≤ second) (start period : Nat) :
    (first - start) / period +
        (second - (start + (first - start) / period * period)) / period =
      (second - start) / period := by
  have fewer : (first - start) / period ≤ (second - start) / period :=
    Nat.div_le_div_right (Nat.sub_le_sub_right le start)
  rw [← Nat.sub_sub, Nat.mul_comm, Nat.sub_mul_div, Nat.add_sub_cancel' fewer]

variable {schedule : Schedule} {first second now : Nat}

/-- The budgets are restored if at least one whole epoch has passed. -/
theorem renew_eq (positive : 0 < schedule.epoch) (now : Nat) :
    schedule.renew now =
      { schedule with
        tokens :=
          if (now - schedule.epochStart) / schedule.epoch = 0 then schedule.tokens
          else schedule.budgets
        epochStart := schedule.epochStart +
          (now - schedule.epochStart) / schedule.epoch * schedule.epoch } := by
  by_cases due : schedule.epoch ≤ now - schedule.epochStart
  · have passed : (now - schedule.epochStart) / schedule.epoch ≠ 0 :=
      (Nat.div_pos due positive).ne'
    have whole := Nat.div_add_mod' (now - schedule.epochStart) schedule.epoch
    rw [renew_of_due due, if_neg passed]
    congr 1
    omega
  · rw [renew_of_not_due due, Nat.div_eq_of_lt (Nat.not_le.mp due)]
    simp

/-- The levels turn once for each whole rotation that has passed. -/
theorem rotate_eq (positive : 0 < schedule.rotation) (now : Nat) :
    schedule.rotate now =
      { schedule with
        low := schedule.low.turn ((now - schedule.rotationStart) / schedule.rotation)
        rotationStart := schedule.rotationStart +
          (now - schedule.rotationStart) / schedule.rotation * schedule.rotation } := by
  by_cases due : schedule.rotation ≤ now - schedule.rotationStart
  · have whole := Nat.div_add_mod' (now - schedule.rotationStart) schedule.rotation
    rw [rotate_of_due due]
    congr 1
    omega
  · rw [rotate_of_not_due due, Nat.div_eq_of_lt (Nat.not_le.mp due), Levels.turn_zero]
    simp

theorem renew_renew (positive : 0 < schedule.epoch) (le : first ≤ second) :
    (schedule.renew first).renew second = schedule.renew second := by
  have passed := div_add_div_of_le le schedule.epochStart schedule.epoch
  have positiveAfter : 0 < (schedule.renew first).epoch := by
    rw [renew_eq positive]
    exact positive
  rw [renew_eq positiveAfter, renew_eq positive, renew_eq positive, ← passed, Nat.add_mul,
    Nat.add_assoc]
  congr 1
  by_cases none : (first - schedule.epochStart) / schedule.epoch = 0
  · simp [none]
  · simp [none]

theorem rotate_rotate (positive : 0 < schedule.rotation) (le : first ≤ second) :
    (schedule.rotate first).rotate second = schedule.rotate second := by
  have passed := div_add_div_of_le le schedule.rotationStart schedule.rotation
  have positiveAfter : 0 < (schedule.rotate first).rotation := by
    rw [rotate_eq positive]
    exact positive
  rw [rotate_eq positiveAfter, rotate_eq positive, rotate_eq positive, ← passed, Nat.add_mul,
    Nat.add_assoc, ← Levels.turn_turn]

/-- Budgets and levels do not depend on each other. -/
theorem renew_rotate (epochPositive : 0 < schedule.epoch)
    (rotationPositive : 0 < schedule.rotation) (first second : Nat) :
    (schedule.rotate first).renew second = (schedule.renew second).rotate first := by
  have epochRotated : 0 < (schedule.rotate first).epoch := by
    rw [rotate_eq rotationPositive]
    exact epochPositive
  have rotationRenewed : 0 < (schedule.renew second).rotation := by
    rw [renew_eq epochPositive]
    exact rotationPositive
  rw [renew_eq epochRotated, rotate_eq rotationRenewed, renew_eq epochPositive,
    rotate_eq rotationPositive]

/-- Taking boundaries into account at a time makes no difference to a later time. -/
theorem advance_advance (epochPositive : 0 < schedule.epoch)
    (rotationPositive : 0 < schedule.rotation) (le : first ≤ second) :
    (schedule.advance first).advance second = schedule.advance second := by
  have epochRenewed : 0 < (schedule.renew first).epoch := by
    rw [renew_eq epochPositive]
    exact epochPositive
  have rotationRenewed : ∀ now, 0 < (schedule.renew now).rotation := by
    intro now
    rw [renew_eq epochPositive]
    exact rotationPositive
  simp only [advance]
  rw [renew_rotate epochRenewed (rotationRenewed first), renew_renew epochPositive le,
    rotate_rotate (rotationRenewed second) le]

/-- What waits in a band does not grow or shrink by boundaries. -/
theorem length_queue_advance (schedule : Schedule) (now : Nat) (band : Band) :
    ((schedule.advance now).queue band).length = (schedule.queue band).length :=
  (schedule.queue_advance_perm now band).length_eq

/-! ## Requests -/

/-- Something that is asked of a schedule at some time. -/
inductive Request
  | add (now : Nat) (nextHop : Peer) (packet : Bytes)
  | next (now : Nat)
  | await (now patience : Nat)
  | untilRenewal (now : Nat)
  | size (now : Nat)
  | isEmpty (now : Nat)
  | backlog (now : Nat)
  deriving DecidableEq, Repr

/-- When the request is made. -/
def Request.time : Request → Nat
  | add now _ _ => now
  | next now => now
  | await now _ => now
  | untilRenewal now => now
  | size now => now
  | isEmpty now => now
  | backlog now => now

/-- What the one who makes a request is told. -/
inductive Reply
  | added (outcome : Except CodecError Unit)
  | given (item : Option Scheduled)
  | awaited (item : Option Scheduled) (ended : Nat)
  | renewal (wait : Nat)
  | size (count : Nat)
  | isEmpty (answer : Bool)
  | backlog (counts : Budgets)
  deriving DecidableEq, Repr

/-- What is replied to a request, and what becomes of the schedule.  A packet without a
header is refused and changes nothing. -/
def reply (schedule : Schedule) : Request → Reply × Schedule
  | .add now nextHop packet =>
      match schedule.add now nextHop packet with
      | .ok after => (.added (.ok ()), after)
      | .error cause => (.added (.error cause), schedule)
  | .next now =>
      let (item, after) := schedule.next now
      (.given item, after)
  | .await now patience =>
      let (item, ended, after) := schedule.await now patience
      (.awaited item ended, after)
  | .untilRenewal now =>
      let (wait, after) := schedule.untilRenewal now
      (.renewal wait, after)
  | .size _ => (.size schedule.size, schedule)
  | .isEmpty _ => (.isEmpty schedule.isEmpty, schedule)
  | .backlog _ => (.backlog schedule.backlog, schedule)

/-- What is replied to some requests, one after another. -/
def replies (schedule : Schedule) : List Request → List Reply
  | [] => []
  | request :: later => (schedule.reply request).1 :: (schedule.reply request).2.replies later

/-- The schedule after some requests. -/
def afterRequests (schedule : Schedule) (requests : List Request) : Schedule :=
  requests.foldl (fun schedule request => (schedule.reply request).2) schedule

/-- The request only looks at the schedule: it asks for numbers, or for a packet and gets
none. -/
def Polls (schedule : Schedule) : Request → Prop
  | .add _ _ _ => False
  | .next now => (schedule.next now).1 = none
  | .await _ _ => False
  | .untilRenewal _ => True
  | .size _ => True
  | .isEmpty _ => True
  | .backlog _ => True

instance (schedule : Schedule) : DecidablePred schedule.Polls := fun request => by
  cases request <;> unfold Polls <;> infer_instance

/-- Of a run, `own` are the requests that are left without some of those that only look at the
schedule when they are made, and `answered` is what is replied to them in the run. -/
inductive Polled : Schedule → List Request → List Request → List Reply → Prop
  | start {schedule : Schedule} : Polled schedule [] [] []
  | own {schedule : Schedule} {request : Request} {told : Reply} {own run : List Request}
      {answered : List Reply} (toldEq : (schedule.reply request).1 = told)
      (later : Polled (schedule.reply request).2 own run answered) :
      Polled schedule (request :: own) (request :: run) (told :: answered)
  | poll {schedule : Schedule} {request : Request} {own run : List Request}
      {answered : List Reply} (polls : schedule.Polls request)
      (later : Polled (schedule.reply request).2 own run answered) :
      Polled schedule own (request :: run) answered

/-! ### Periods -/

/-- Both schedules have the same periods. -/
structure Periodic (left right : Schedule) : Prop where
  epochEq : right.epoch = left.epoch
  rotationEq : right.rotation = left.rotation

namespace Periodic

theorem refl (schedule : Schedule) : Periodic schedule schedule :=
  ⟨rfl, rfl⟩

theorem trans {left middle right : Schedule} (first : Periodic left middle)
    (second : Periodic middle right) : Periodic left right :=
  ⟨second.epochEq.trans first.epochEq, second.rotationEq.trans first.rotationEq⟩

theorem advance (schedule : Schedule) (now : Nat) : Periodic schedule (schedule.advance now) := by
  obtain ⟨low, rotationStart, rotated⟩ := exists_rotate_eq (schedule.renew now) now
  obtain ⟨tokens, epochStart, renewed⟩ := exists_renew_eq schedule now
  rw [Schedule.advance, rotated, renewed]
  exact ⟨rfl, rfl⟩

theorem append (schedule : Schedule) (band : Band) (item : Scheduled) :
    Periodic schedule (schedule.append band item) := by
  cases band <;> exact ⟨rfl, rfl⟩

theorem next (schedule : Schedule) (now : Nat) : Periodic schedule (schedule.next now).2 := by
  refine (advance schedule now).trans ?_
  rcases schedule.next_eq_or_exists_take? now with nothing | ⟨band, item, after, taken, sent⟩
  · rw [nothing]
    exact refl _
  · obtain ⟨_, _, _, rotationEq, _⟩ := exists_line_of_take? taken 0
    rw [sent]
    exact ⟨(takes_of_take? taken).epochEq, rotationEq⟩

theorem await (schedule : Schedule) (now patience : Nat) :
    Periodic schedule (schedule.await now patience).2.2 := by
  have first := next schedule now
  simp only [Schedule.await]
  generalize schedule.next now = answered at first ⊢
  rcases answered with ⟨_ | item, after⟩
  · dsimp only
    split
    · exact first
    · have second := next after (wakeTime now (now + (after.untilRenewal now).1))
      generalize after.next (wakeTime now (now + (after.untilRenewal now).1)) = answered at second ⊢
      rcases answered with ⟨_ | item, final⟩ <;> exact first.trans second
  · exact first

/-- No request changes the periods. -/
theorem reply (schedule : Schedule) (request : Request) :
    Periodic schedule (schedule.reply request).2 := by
  cases request with
  | add now nextHop packet =>
      simp only [Schedule.reply]
      cases added : schedule.add now nextHop packet with
      | ok after =>
          obtain ⟨band, _, rfl⟩ := add_eq_ok_iff.mp added
          exact (advance schedule now).trans (append _ band _)
      | error cause => exact refl schedule
  | next now => exact next schedule now
  | await now patience => exact await schedule now patience
  | untilRenewal now => exact advance schedule now
  | size | isEmpty | backlog => exact refl schedule

theorem afterRequests (schedule : Schedule) (requests : List Request) :
    Periodic schedule (schedule.afterRequests requests) := by
  induction requests generalizing schedule with
  | nil => exact refl schedule
  | cons request later inductionHypothesis =>
      exact (reply schedule request).trans (inductionHypothesis _)

end Periodic

/-! ## Two runs -/

/-- Two schedules with periods that are not empty, which are one as soon as boundaries up to
a time are taken into account. -/
structure Alike (now : Nat) (left right : Schedule) : Prop where
  epochPositive : 0 < left.epoch
  rotationPositive : 0 < left.rotation
  advanceEq : left.advance now = right.advance now

namespace Alike

variable {left right : Schedule} {request : Request}

theorem refl (epochPositive : 0 < schedule.epoch) (rotationPositive : 0 < schedule.rotation)
    (now : Nat) : Alike now schedule schedule :=
  ⟨epochPositive, rotationPositive, rfl⟩

theorem epochEq (alike : Alike now left right) : left.epoch = right.epoch := by
  rw [← (Periodic.advance left now).epochEq, alike.advanceEq, (Periodic.advance right now).epochEq]

theorem rotationEq (alike : Alike now left right) : left.rotation = right.rotation := by
  rw [← (Periodic.advance left now).rotationEq, alike.advanceEq,
    (Periodic.advance right now).rotationEq]

theorem later (alike : Alike now left right) {later : Nat} (le : now ≤ later) :
    Alike later left right := by
  refine ⟨alike.epochPositive, alike.rotationPositive, ?_⟩
  rw [← advance_advance alike.epochPositive alike.rotationPositive le, alike.advanceEq,
    advance_advance (alike.epochEq ▸ alike.epochPositive)
      (alike.rotationEq ▸ alike.rotationPositive) le]

theorem next_eq (alike : Alike now left right) : left.next now = right.next now := by
  rw [next, alike.advanceEq]
  rfl

theorem length_queue_eq (alike : Alike now left right) (band : Band) :
    (left.queue band).length = (right.queue band).length := by
  rw [← left.length_queue_advance now, alike.advanceEq, length_queue_advance]

/-- Requests get the same replies on both sides, and leave them alike. -/
theorem reply (alike : Alike request.time left right) :
    (left.reply request).1 = (right.reply request).1 ∧
      Alike request.time (left.reply request).2 (right.reply request).2 := by
  have keeps := Periodic.reply left request
  have positive : 0 < (left.reply request).2.epoch ∧ 0 < (left.reply request).2.rotation :=
    ⟨keeps.epochEq ▸ alike.epochPositive, keeps.rotationEq ▸ alike.rotationPositive⟩
  suffices same : (left.reply request).1 = (right.reply request).1 ∧
      ((left.reply request).2 = (right.reply request).2 ∨
        (left.reply request).2 = left ∧ (right.reply request).2 = right) by
    refine ⟨same.1, positive.1, positive.2, ?_⟩
    rcases same.2 with equal | ⟨leftEq, rightEq⟩
    · rw [equal]
    · rw [leftEq, rightEq]
      exact alike.advanceEq
  cases request with
  | add now nextHop packet =>
      have advanceEq : left.advance now = right.advance now := alike.advanceEq
      simp only [Schedule.reply, Schedule.add, advanceEq]
      cases Packet.peekPriority packet <;> simp [Except.map]
  | next now =>
      have nextEq : left.next now = right.next now := alike.next_eq
      simp [Schedule.reply, nextEq]
  | await now patience =>
      have nextEq : left.next now = right.next now := alike.next_eq
      simp [Schedule.reply, Schedule.await, nextEq]
  | untilRenewal now =>
      have advanceEq : left.advance now = right.advance now := alike.advanceEq
      simp [Schedule.reply, Schedule.untilRenewal, advanceEq]
  | size | isEmpty | backlog =>
      simp [Schedule.reply, Schedule.isEmpty, Schedule.size, Schedule.backlog,
        alike.length_queue_eq]

/-- A request that only looks, made on one side alone, leaves both sides alike. -/
theorem poll (alike : Alike request.time left right) (polls : right.Polls request) :
    Alike request.time left (right.reply request).2 := by
  suffices same : (right.reply request).2 = right ∨
      (right.reply request).2 = right.advance request.time by
    refine ⟨alike.epochPositive, alike.rotationPositive, ?_⟩
    rcases same with equal | advanced
    · rw [equal]
      exact alike.advanceEq
    · rw [advanced, advance_advance (alike.epochEq ▸ alike.epochPositive)
        (alike.rotationEq ▸ alike.rotationPositive) (Nat.le_refl _)]
      exact alike.advanceEq
  cases request with
  | add | await => contradiction
  | next now =>
      refine .inr ?_
      rcases right.next_eq_or_exists_take? now with nothing | ⟨band, item, after, _, sent⟩
      · simp only [Schedule.reply, nothing, Request.time]
      · simp [Polls, sent] at polls
  | untilRenewal now => exact .inr rfl
  | size | isEmpty | backlog => exact .inl rfl

/-- The replies in a run with looks in between are those without. -/
theorem replies_eq {own run : List Request} {answered : List Reply}
    (alike : Alike now left right) (polled : Polled right own run answered)
    (due : ∀ request ∈ run, now ≤ request.time)
    (ordered : run.Pairwise fun first second => first.time ≤ second.time) :
    answered = left.replies own ∧
      ∀ later, now ≤ later → (∀ request ∈ run, request.time ≤ later) →
        Alike later (left.afterRequests own) (right.afterRequests run) := by
  induction polled generalizing now left with
  | start => exact ⟨rfl, fun later le _ => alike.later le⟩
  | @own right request told own run answered toldEq _ inductionHypothesis =>
      obtain ⟨upcoming, restOrdered⟩ := List.pairwise_cons.mp ordered
      have here := alike.later (due request List.mem_cons_self)
      obtain ⟨replyEq, stillAlike⟩ := here.reply
      obtain ⟨rest, final⟩ := inductionHypothesis stillAlike upcoming restOrdered
      refine ⟨by rw [replies, replyEq, toldEq, rest], fun later le last => ?_⟩
      exact final later (last request List.mem_cons_self)
        fun other otherMem => last other (List.mem_cons_of_mem request otherMem)
  | @poll right request own run answered polls _ inductionHypothesis =>
      obtain ⟨upcoming, restOrdered⟩ := List.pairwise_cons.mp ordered
      have here := alike.later (due request List.mem_cons_self)
      obtain ⟨rest, final⟩ := inductionHypothesis (here.poll polls) upcoming restOrdered
      refine ⟨rest, fun later le last => ?_⟩
      exact final later (last request List.mem_cons_self)
        fun other otherMem => last other (List.mem_cons_of_mem request otherMem)

end Alike

/-- Whatever is asked of a schedule gets the same replies, whether the schedule is looked at in
between or not, and however often.  Once boundaries are taken into account, the schedule is the
same as well.  Taking them into account at one time and then at a later one comes to the same
as doing so at the later one alone. -/
theorem polls_invisible {budgets : Budgets} {epoch rotation creation : Nat}
    (epochPositive : 0 < epoch) (rotationPositive : 0 < rotation) {own run : List Request}
    {answered : List Reply}
    (polled : Polled (create budgets epoch rotation creation) own run answered)
    (later : ∀ request ∈ run, creation ≤ request.time)
    (ordered : run.Pairwise fun first second => first.time ≤ second.time) :
    let begun := create budgets epoch rotation creation
    answered = begun.replies own ∧
      (∀ now, creation ≤ now → (∀ request ∈ run, request.time ≤ now) →
        (begun.afterRequests own).advance now = (begun.afterRequests run).advance now) ∧
      ∀ first second, first ≤ second →
        ((begun.afterRequests run).advance first).advance second =
          (begun.afterRequests run).advance second := by
  intro begun
  have alike : Alike creation begun begun := .refl epochPositive rotationPositive creation
  obtain ⟨answeredEq, final⟩ := alike.replies_eq polled later ordered
  refine ⟨answeredEq, fun now le last => (final now le last).advanceEq, ?_⟩
  intro first second le
  have periodic := Periodic.afterRequests begun run
  exact advance_advance (periodic.epochEq ▸ epochPositive)
    (periodic.rotationEq ▸ rotationPositive) le

/-- Looks at a boundary, between two packets and while the budget is spent change neither which
packet leaves when, nor what remains. -/
theorem polls_invisible_spentBudget :
    let peer : Peer := ⟨"10.0.0.1", 9000⟩
    let packet (last : UInt8) : Bytes := 16 :: List.replicate 18 0 ++ [last]
    let begun := create ⟨1, 1, 1⟩ 100 10 5
    let own : List Request := [.add 6 peer (packet 0), .add 16 peer (packet 1), .next 37, .next 240]
    let run : List Request := [.backlog 6, .add 6 peer (packet 0), .untilRenewal 15,
      .add 16 peer (packet 1), .size 16, .next 37, .next 38, .isEmpty 104, .next 240]
    let answered : List Reply := [.added (.ok ()), .added (.ok ()),
      .given (some ⟨peer, packet 0⟩), .given (some ⟨peer, packet 1⟩)]
    Polled begun own run answered ∧ (∀ request ∈ run, 5 ≤ request.time) ∧
      (run.Pairwise fun first second => first.time ≤ second.time) ∧
      answered = begun.replies own ∧
      (begun.afterRequests own).advance 240 = (begun.afterRequests run).advance 240 ∧
      ((begun.afterRequests run).advance 255).advance 777 =
        (begun.afterRequests run).advance 777 := by
  intro peer packet begun own run answered
  have polled : Polled begun own run answered := by
    refine .poll (by decide) (.own (by decide) ?_)
    refine .poll (by decide) (.own (by decide) ?_)
    refine .poll (by decide) (.own (by decide) ?_)
    refine .poll (by decide) (.poll (by decide) (.own (by decide) ?_))
    exact .start
  have later : ∀ request ∈ run, 5 ≤ request.time := by decide
  have ordered : run.Pairwise fun first second => first.time ≤ second.time := by decide
  obtain ⟨answeredEq, final, composed⟩ :=
    polls_invisible (by decide) (by decide) polled later ordered
  exact ⟨polled, later, ordered, answeredEq, final 240 (by decide) (by decide),
    composed 255 777 (by decide)⟩

end Schedule

end ClusterOverlay
