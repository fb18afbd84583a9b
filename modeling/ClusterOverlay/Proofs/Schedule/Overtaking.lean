import ClusterOverlay.Proofs.Schedule.Lanes

/-!
# Packets of the lowest band that are overtaken

A packet of the lowest band enters the first level and waits behind those that are there.
Rotations move its level, and later packets may enter levels that stand before it.  Whenever
its level is the first again, though, it is the one that packets leave from: a packet that
leaves then was ahead of it.  The place of a packet is followed through a run,
`Spot.follow`, and every call keeps the number of packets that were ahead an upper bound,
`Followed.answer`.  Hence no more packets leave in the rotations of its level before it than
were ahead of it when it came, however many come later: `Schedule.low_overtaken_le`.
-/

namespace ClusterOverlay

namespace Levels

/-- While the first level is not empty, packets leave from it. -/
theorem eq_zero_of_pop? {levels rest : Levels} {item : Scheduled} {place : Fin 3}
    (waits : levels.first ≠ []) (popped : levels.pop? = some (item, rest))
    (taken : levels.level place = item :: rest.level place) : place = 0 := by
  rcases levels with ⟨_ | ⟨head, first⟩, second, third⟩
  · contradiction
  · simp only [pop?, Option.some.injEq, Prod.mk.injEq] at popped
    rcases popped with ⟨rfl, rfl⟩
    rcases place_cases place with rfl | rfl | rfl
    · rfl
    · exact absurd taken.symm (List.cons_ne_self _ _)
    · exact absurd taken.symm (List.cons_ne_self _ _)

end Levels

namespace Schedule

/-! ## Following a packet -/

/-- Where a packet of the lowest band waits: at which level, and behind how many others. -/
structure Spot where
  level : Fin 3
  ahead : Nat
  deriving DecidableEq, Repr

namespace Spot

/-- Where a packet of the lowest band is put that comes now. -/
def entry (schedule : Schedule) (now : Nat) : Spot :=
  ⟨Levels.entrance, (schedule.advance now).low.first.length⟩

/-- What a call does to the packet at a spot.  Rotations that the call takes into account move
its level.  If the level gets shorter, its first packet has left: the one at the spot, if none
is ahead of it. -/
def follow (spot : Spot) (schedule : Schedule) (call : Call) : Option Spot :=
  let after := (schedule.answer call).2
  let turns := (after.rotationStart - schedule.rotationStart) / schedule.rotation
  let level := Levels.moved spot.level turns
  if (after.low.level level).length < (schedule.low.level spot.level).length then
    match spot.ahead with
    | 0 => none
    | ahead + 1 => some ⟨level, ahead⟩
  else
    some ⟨level, spot.ahead⟩

/-- Where the packet at a spot waits after some calls, unless it has left. -/
def after (spot : Spot) (schedule : Schedule) : List Call → Option Spot
  | [] => some spot
  | call :: calls => (spot.follow schedule call).bind (·.after (schedule.answer call).2 calls)

end Spot

/-- How many packets of the lowest band leave when the number of rotations since the creation
leaves a given remainder. -/
def leavingIn (creation rotation : Nat) (turn : Fin 3) (departures : List (Nat × Scheduled)) :
    Nat :=
  departures.countP fun departure =>
    departure.2.band? = some .low ∧ (departure.1 - creation) / rotation % 3 = turn

/-! ## Packets in their bands -/

/-- Every packet waits in the band that its header names. -/
def Sorted (schedule : Schedule) : Prop :=
  ∀ band, ∀ item ∈ schedule.queue band, item.band? = some band

namespace Sorted

variable {schedule : Schedule}

theorem create (budgets : Budgets) (epoch rotation creation : Nat) :
    (create budgets epoch rotation creation).Sorted := by
  intro band item waits
  cases band <;> contradiction

theorem advance (sorted : schedule.Sorted) (now : Nat) : (schedule.advance now).Sorted :=
  fun band item waits => sorted band item ((schedule.queue_advance_perm now band).subset waits)

theorem append (sorted : schedule.Sorted) {band : Band} {item : Scheduled}
    (named : item.band? = some band) : (schedule.append band item).Sorted := by
  intro other waiting waits
  rcases mem_queue_append waits with former | ⟨rfl, rfl⟩
  · exact sorted other waiting former
  · exact named

theorem takes (sorted : schedule.Sorted) {band : Band} {item : Scheduled} {after : Schedule}
    (takes : schedule.Takes band item after) : item.band? = some band ∧ after.Sorted := by
  refine ⟨sorted band item (takes.queueEq ▸ List.mem_cons_self), ?_⟩
  intro other waiting waits
  apply sorted other
  by_cases same : other = band
  · subst same
    rw [takes.queueEq]
    exact List.mem_cons_of_mem item waits
  · rw [← takes.queueOther other same]
    exact waits

theorem answer (sorted : schedule.Sorted) (call : Call) : (schedule.answer call).2.Sorted := by
  cases call with
  | add now nextHop packet =>
      rcases schedule.answer_add now nextHop packet with
        ⟨band, named, _, answered⟩ | ⟨_, answered⟩
      · rw [answered]
        exact (sorted.advance now).append named
      · rw [answered]
        exact sorted
  | next now =>
      rcases schedule.next_eq_or_exists_take? now with
        nothing | ⟨band, item, after, taken, sent⟩
      · rw [Schedule.answer, nothing]
        exact sorted.advance now
      · rw [Schedule.answer, sent]
        exact ((sorted.advance now).takes (takes_of_take? taken)).2
  | untilRenewal now => exact sorted.advance now

theorem after (sorted : schedule.Sorted) (calls : List Call) :
    (schedule.after calls).Sorted := by
  induction calls generalizing schedule with
  | nil => exact sorted
  | cons call calls inductionHypothesis => exact inductionHypothesis (sorted.answer call)

end Sorted

/-! ## Lines -/

variable {creation rotation rotations current latest now : Nat}
variable {came left laterCame laterLeft : List (Nat × Scheduled)}
variable {schedule rest : Schedule} {turn : Fin 3} {item : Scheduled} {ahead : Nat}

/-- Rotations that a schedule takes into account are counted from the last one. -/
theorem Laned.rotations_le
    (laned : Laned creation rotation rotations latest came left schedule)
    (inside : InEpoch creation rotation current now) (later : latest ≤ now) :
    rotations ≤ current := by
  have start := Nat.le_trans laned.startLe later
  rw [laned.startEq] at start
  have before : rotations * rotation < (current + 1) * rotation := by
    have upper := inside.2
    omega
  exact Nat.le_of_lt_succ (Nat.lt_of_mul_lt_mul_right before)

/-- Rotations leave every lane as it is. -/
theorem Laned.line_rotate (positive : 0 < rotation)
    (laned : Laned creation rotation rotations latest came left schedule)
    (rotated : Laned creation rotation current now laterCame laterLeft
      (schedule.rotate now)) :
    (schedule.rotate now).line current = schedule.line rotations := by
  have startEq := rotated.startEq
  by_cases due : schedule.rotation ≤ now - schedule.rotationStart
  · have whole := Nat.div_add_mod' (now - schedule.rotationStart) schedule.rotation
    rw [rotate_of_due due] at startEq
    have currentEq : rotations + (now - schedule.rotationStart) / schedule.rotation = current := by
      apply Nat.eq_of_mul_eq_mul_right positive
      rw [Nat.add_mul]
      simp only [laned.rotationEq, laned.startEq] at due whole startEq ⊢
      omega
    rw [← currentEq]
    exact line_rotate_of_due due rotations
  · rw [rotate_of_not_due due, laned.startEq] at startEq
    rw [rotate_of_not_due due,
      Nat.eq_of_mul_eq_mul_right positive (Nat.add_left_cancel startEq)]

/-- Taking boundaries into account leaves every lane as it is. -/
theorem Laned.line_advance (positive : 0 < rotation)
    (laned : Laned creation rotation rotations latest came left schedule)
    (advanced : Laned creation rotation current now laterCame laterLeft
      (schedule.advance now)) :
    (schedule.advance now).line current = schedule.line rotations := by
  rcases schedule.exists_renew_eq now with ⟨tokens, epochStart, renewed⟩
  rw [Schedule.advance, (laned.renew now).line_rotate positive advanced, renewed]
  funext lane
  cases lane <;> rfl

/-- A packet that leaves the lowest band while the first level is not empty was first there. -/
theorem lane_eq_of_take? {lane : Lane} (waits : schedule.low.first ≠ [])
    (taken : schedule.take? .low = some (item, rest))
    (lineEq : schedule.line rotations lane = item :: rest.line rotations lane) :
    lane = .low (Fin.ofNat 3 rotations) := by
  unfold take? at taken
  split at taken
  · contradiction
  rcases Option.map_eq_some_iff.mp taken with ⟨⟨first, rest⟩, popped, afterEq⟩
  cases afterEq
  rcases Option.map_eq_some_iff.mp popped with ⟨⟨head, levels⟩, headEq, restEq⟩
  cases restEq
  cases lane with
  | highest | high => exact absurd lineEq.symm (List.cons_ne_self _ _)
  | low turn => rw [sub_eq_zero.mp (Levels.eq_zero_of_pop? waits headEq lineEq)]

/-! ## A packet that is followed -/

/-- What a call does to a spot, told by the line of its lane. -/
theorem Spot.follow_eq (positive : 0 < rotation) {call : Call}
    (laned : Laned creation rotation rotations latest came left schedule)
    (answered : (schedule.answer call).2 = rest)
    (kept : Laned creation rotation current now laterCame laterLeft rest)
    (le : rotations ≤ current) :
    Spot.follow ⟨turn - Fin.ofNat 3 rotations, ahead⟩ schedule call =
      if (rest.line current (.low turn)).length <
          (schedule.line rotations (.low turn)).length then
        match ahead with
        | 0 => none
        | ahead + 1 => some ⟨turn - Fin.ofNat 3 current, ahead⟩
      else some ⟨turn - Fin.ofNat 3 current, ahead⟩ := by
  have turnsEq : (rest.rotationStart - schedule.rotationStart) / schedule.rotation =
      current - rotations := by
    rw [kept.startEq, laned.startEq, laned.rotationEq, Nat.add_sub_add_left, ← Nat.sub_mul,
      Nat.mul_div_cancel _ positive]
  have levelEq : Levels.moved (turn - Fin.ofNat 3 rotations) (current - rotations) =
      turn - Fin.ofNat 3 current := by
    apply Fin.ext
    simp only [Levels.moved, Fin.sub_def, Fin.ofNat]
    omega
  simp only [Spot.follow, answered, turnsEq, levelEq]
  rfl

/-- After so many rotations, the packet waits at the spot. -/
structure Followed (creation rotation rotations latest : Nat) (turn : Fin 3) (item : Scheduled)
    (spot : Spot) (schedule : Schedule) : Prop where
  laned : ∃ came left, Laned creation rotation rotations latest came left schedule
  sorted : schedule.Sorted
  levelEq : spot.level = turn - Fin.ofNat 3 rotations
  found : (schedule.low.level spot.level)[spot.ahead]? = some item

namespace Followed

variable {spot : Spot}

theorem level_eq_line
    (followed : Followed creation rotation rotations latest turn item spot schedule) :
    schedule.low.level spot.level = schedule.line rotations (.low turn) := by
  rw [followed.levelEq]
  rfl

/-- If nothing leaves the lane of the packet, as many as before are ahead of it. -/
theorem keeps (positive : 0 < rotation)
    (followed : Followed creation rotation rotations latest turn item spot schedule) (call : Call)
    (answered : (schedule.answer call).2 = rest)
    (kept : Laned creation rotation current now laterCame laterLeft rest)
    (le : rotations ≤ current) {more : List Scheduled}
    (lineEq : rest.line current (.low turn) = schedule.line rotations (.low turn) ++ more) :
    ∃ next, spot.follow schedule call = some next ∧ next.ahead = spot.ahead ∧
      Followed creation rotation current now turn item next rest := by
  obtain ⟨_, _, laned⟩ := followed.laned
  have found := followed.found
  rw [followed.level_eq_line] at found
  rcases spot with ⟨level, ahead⟩
  obtain rfl : level = turn - Fin.ofNat 3 rotations := followed.levelEq
  refine ⟨⟨turn - Fin.ofNat 3 current, ahead⟩, ?_, rfl, ⟨_, _, kept⟩,
    answered ▸ followed.sorted.answer call, rfl, ?_⟩
  · rw [Spot.follow_eq positive laned answered kept le, lineEq, if_neg]
    rw [List.length_append]
    exact Nat.not_lt.mpr (Nat.le_add_right _ _)
  · change (rest.line current (.low turn))[ahead]? = some item
    rw [lineEq, List.getElem?_append_left (List.getElem?_eq_some_iff.mp found).1]
    exact found

/-- If the first of a lane leaves, it is the packet itself, or was ahead of it, or the lane is
another. -/
theorem leaves (positive : 0 < rotation)
    (followed : Followed creation rotation rotations latest turn item spot schedule) (call : Call)
    (answered : (schedule.answer call).2 = rest)
    (kept : Laned creation rotation current now laterCame laterLeft rest)
    (le : rotations ≤ current) {lane : Lane} {departed : Scheduled}
    (lineEq : schedule.line rotations lane = departed :: rest.line current lane)
    (lineOther : ∀ other, other ≠ lane →
      rest.line current other = schedule.line rotations other) :
    (spot.follow schedule call = none ∧ departed = item) ∨
      ∃ next, spot.follow schedule call = some next ∧
        (if lane = .low turn then 1 else 0) + next.ahead = spot.ahead ∧
        Followed creation rotation current now turn item next rest := by
  by_cases own : lane = .low turn
  · subst own
    obtain ⟨_, _, laned⟩ := followed.laned
    have found := followed.found
    rw [followed.level_eq_line, lineEq] at found
    have shorter : (rest.line current (.low turn)).length <
        (schedule.line rotations (.low turn)).length := by
      rw [lineEq]
      exact Nat.lt_succ_self _
    rcases spot with ⟨level, ahead⟩
    obtain rfl : level = turn - Fin.ofNat 3 rotations := followed.levelEq
    rw [Spot.follow_eq positive laned answered kept le, if_pos shorter]
    cases ahead with
    | zero => exact .inl ⟨rfl, Option.some.inj found⟩
    | succ ahead =>
        refine .inr ⟨_, rfl, ?_, ⟨_, _, kept⟩, answered ▸ followed.sorted.answer call, rfl, found⟩
        rw [if_pos rfl, Nat.add_comm]
  · obtain ⟨next, followEq, aheadEq, holds⟩ := followed.keeps positive call answered kept le
      ((lineOther _ (Ne.symm own)).trans (List.append_nil _).symm)
    refine .inr ⟨next, followEq, ?_, holds⟩
    rw [if_neg own, Nat.zero_add, aheadEq]

/-- A packet of the lowest band that leaves in the rotations of the packet's level comes from
that level. -/
theorem leavingIn_le
    (followed : Followed creation rotation rotations latest turn item spot schedule)
    (inside : InEpoch creation rotation rotations now) {band : Band} {departed : Scheduled}
    {lane : Lane} (taken : schedule.take? band = some (departed, rest))
    (lineEq : schedule.line rotations lane = departed :: rest.line rotations lane) :
    leavingIn creation rotation turn [(now, departed)] ≤ if lane = .low turn then 1 else 0 := by
  rw [leavingIn, List.countP_singleton, inside.div_eq]
  split
  · next counted =>
      obtain ⟨low, turnEq⟩ := of_decide_eq_true counted
      have named := (followed.sorted.takes (takes_of_take? taken)).1
      obtain rfl : band = .low := Option.some.inj (named.symm.trans low)
      have currentEq : Fin.ofNat 3 rotations = turn := Fin.ext turnEq
      have found := followed.found
      rw [followed.levelEq, currentEq, sub_self] at found
      have waits : schedule.low.first ≠ [] := List.ne_nil_of_mem (List.mem_of_getElem? found)
      rw [if_pos (currentEq ▸ lane_eq_of_take? waits taken lineEq)]
  · exact Nat.zero_le _

/-- A call because of which nothing leaves keeps the packet where it is in its lane. -/
theorem quiet (positive : 0 < rotation)
    (followed : Followed creation rotation rotations latest turn item spot schedule) (call : Call)
    (answered : schedule.answer call = (none, rest))
    (kept : Laned creation rotation current call.time laterCame laterLeft rest)
    (le : rotations ≤ current) {more : List Scheduled}
    (lineEq : rest.line current (.low turn) = schedule.line rotations (.low turn) ++ more) :
    ∃ current next, spot.follow schedule call = some next ∧
      leavingIn creation rotation turn
          ((schedule.answer call).1.toList.map (call.time, ·)) + next.ahead ≤ spot.ahead ∧
      Followed creation rotation current call.time turn item next (schedule.answer call).2 := by
  obtain ⟨next, followEq, aheadEq, holds⟩ :=
    followed.keeps positive call (congrArg Prod.snd answered) kept le lineEq
  refine ⟨current, next, followEq, ?_, ?_⟩
  · rw [answered, aheadEq]
    exact Nat.le_of_eq (Nat.zero_add _)
  · rw [answered]
    exact holds

/-- Whatever is called, the packet leaves, or those of its rotations that leave were ahead of
it. -/
theorem answer (positive : 0 < rotation)
    (followed : Followed creation rotation rotations latest turn item spot schedule) (call : Call)
    (later : latest ≤ call.time) :
    (spot.follow schedule call = none ∧ (schedule.answer call).1 = some item) ∨
      ∃ current next, spot.follow schedule call = some next ∧
        leavingIn creation rotation turn
            ((schedule.answer call).1.toList.map (call.time, ·)) + next.ahead ≤ spot.ahead ∧
        Followed creation rotation current call.time turn item next (schedule.answer call).2 := by
  obtain ⟨came, left, laned⟩ := followed.laned
  obtain ⟨current, inside, advanced⟩ := laned.advance positive later
  have le := laned.rotations_le inside later
  have lineEq := laned.line_advance positive advanced
  have same := (congrFun lineEq (.low turn)).trans (List.append_nil _).symm
  cases call with
  | add now nextHop packet =>
      refine .inr ?_
      rcases schedule.answer_add now nextHop packet with
        ⟨band, named, _, answered⟩ | ⟨_, answered⟩
      · have appended : ((schedule.advance now).append band ⟨nextHop, packet⟩).line current
            (.low turn) = schedule.line rotations (.low turn) ++
              if Lane.low turn = Lane.of current band then [⟨nextHop, packet⟩] else [] := by
          rw [line_append, ← lineEq]
          split
          · rfl
          · exact (List.append_nil _).symm
        exact followed.quiet positive _ answered (advanced.append inside named) le appended
      · exact followed.quiet positive _ answered (laned.mono later) (Nat.le_refl _)
          (List.append_nil _).symm
  | next now =>
      rcases schedule.next_eq_or_exists_take? now with
        nothing | ⟨band, departed, rest, taken, sent⟩
      · exact .inr (followed.quiet positive _ nothing advanced le same)
      · obtain ⟨lane, departedEq, lineOther, _⟩ := exists_line_of_take? taken current
        obtain ⟨time, kept⟩ := advanced.takes taken
        obtain ⟨_, _, _, inPlace⟩ :=
          followed.keeps positive (.untilRenewal now) rfl advanced le same
        have counted := inPlace.leavingIn_le inside taken departedEq
        change (schedule.advance now).line current = _ at lineEq
        rw [lineEq] at departedEq lineOther
        rcases followed.leaves positive (.next now) (congrArg Prod.snd sent) kept le
            departedEq lineOther with ⟨gone, rfl⟩ | ⟨next, followEq, fewer, holds⟩
        · exact .inl ⟨gone, congrArg Prod.fst sent⟩
        · refine .inr ⟨current, next, followEq, ?_, ?_⟩
          · rw [Schedule.answer, sent, ← fewer]
            exact Nat.add_le_add_right counted _
          · rw [Schedule.answer, sent]
            exact holds
  | untilRenewal now => exact .inr (followed.quiet positive _ rfl advanced le same)

/-- While the packet waits, those of its rotations that leave were ahead of it. -/
theorem after (positive : 0 < rotation)
    (followed : Followed creation rotation rotations latest turn item spot schedule)
    {calls : List Call} (later : ∀ call ∈ calls, latest ≤ call.time)
    (ordered : calls.Pairwise fun first second => first.time ≤ second.time) {final : Spot}
    (waits : spot.after schedule calls = some final) :
    ∃ current last, (last = latest ∨ ∃ call ∈ calls, last = call.time) ∧
      leavingIn creation rotation turn (schedule.departures calls) + final.ahead ≤ spot.ahead ∧
      Followed creation rotation current last turn item final (schedule.after calls) := by
  induction calls generalizing rotations latest spot schedule with
  | nil =>
      obtain rfl : spot = final := Option.some.inj waits
      exact ⟨rotations, latest, .inl rfl, Nat.le_of_eq (Nat.zero_add _), followed⟩
  | cons call calls inductionHypothesis =>
      obtain ⟨upcoming, restOrdered⟩ := List.pairwise_cons.mp ordered
      obtain ⟨middle, followEq, restWaits⟩ := Option.bind_eq_some_iff.mp waits
      rcases followed.answer positive call (later call List.mem_cons_self) with
        ⟨gone, _⟩ | ⟨current, next, stays, first, holds⟩
      · rw [followEq] at gone
        contradiction
      · obtain rfl : middle = next := Option.some.inj (followEq.symm.trans stays)
        obtain ⟨reached, last, lastEq, rest, still⟩ :=
          inductionHypothesis holds upcoming restOrdered restWaits
        refine ⟨reached, last, .inr ?_, ?_, still⟩
        · rcases lastEq with rfl | ⟨other, otherMem, rfl⟩
          · exact ⟨call, List.mem_cons_self, rfl⟩
          · exact ⟨other, List.mem_cons_of_mem call otherMem, rfl⟩
        · rw [departures, leavingIn, List.countP_append, ← leavingIn, ← leavingIn]
          omega

end Followed

/-! ## Runs -/

variable {budgets : Budgets} {epoch : Nat} {nextHop : Peer} {packet : Bytes}
variable {former latter : List Call} {spot : Spot}

/-- A packet of the lowest band that is accepted waits at the end of the first level. -/
theorem Followed.enter (positive : 0 < rotation)
    (laned : Laned creation rotation rotations latest came left schedule)
    (sorted : schedule.Sorted) (later : latest ≤ now)
    (low : Scheduled.band? ⟨nextHop, packet⟩ = some .low) :
    Followed creation rotation ((now - creation) / rotation) now
      (Fin.ofNat 3 ((now - creation) / rotation)) ⟨nextHop, packet⟩ (.entry schedule now)
      (schedule.answer (.add now nextHop packet)).2 := by
  obtain ⟨current, inside, advanced⟩ := laned.advance positive later
  rcases schedule.answer_add now nextHop packet with
    ⟨band, named, _, answered⟩ | ⟨refused, _⟩
  · obtain rfl : band = .low := Option.some.inj (named.symm.trans low)
    rw [inside.div_eq, answered]
    refine ⟨⟨_, _, advanced.append inside named⟩, (sorted.advance now).append named,
      (sub_self _).symm, ?_⟩
    exact List.getElem?_concat_length
  · simp [Call.arrival?, low] at refused

/-- However many packets come later, of those that leave before a packet of the lowest band,
when the number of rotations since the creation leaves the same remainder by three as when it
came, there are no more than were in the first level when it came.  The packet is at the spot
to which it is followed, and what leaves when it is followed no further is the packet. -/
theorem low_overtaken_le (positive : 0 < rotation)
    (low : Scheduled.band? ⟨nextHop, packet⟩ = some .low)
    (begins : ∀ call ∈ former ++ .add now nextHop packet :: latter, creation ≤ call.time)
    (ordered : (former ++ .add now nextHop packet :: latter).Pairwise
      fun first second => first.time ≤ second.time)
    (waits : (Spot.entry ((create budgets epoch rotation creation).after former) now).after
      ((create budgets epoch rotation creation).after (former ++ [.add now nextHop packet]))
      latter = some spot) :
    let begun := create budgets epoch rotation creation
    let entered := begun.after (former ++ [.add now nextHop packet])
    leavingIn creation rotation (Fin.ofNat 3 ((now - creation) / rotation))
        (entered.departures latter) ≤ ((begun.after former).advance now).low.first.length ∧
      ((entered.after latter).low.level spot.level)[spot.ahead]? = some ⟨nextHop, packet⟩ ∧
      ∀ call, (∀ other ∈ former ++ .add now nextHop packet :: latter, other.time ≤ call.time) →
        spot.follow (entered.after latter) call = none →
        ((entered.after latter).answer call).1 = some ⟨nextHop, packet⟩ := by
  intro begun entered
  obtain ⟨formerOrdered, latterOrdered, across⟩ := List.pairwise_append.mp ordered
  obtain ⟨upcoming, restOrdered⟩ := List.pairwise_cons.mp latterOrdered
  have enters : .add now nextHop packet ∈ former ++ .add now nextHop packet :: latter :=
    List.mem_append_right former List.mem_cons_self
  obtain ⟨rotations, last, _, lastEq, _, laned⟩ :=
    (Laned.create budgets epoch rotation creation).after positive
      (fun call callMem => begins call (List.mem_append_left _ callMem)) formerOrdered
  have later : last ≤ now := by
    rcases lastEq with rfl | ⟨call, callMem, rfl⟩
    · exact begins _ enters
    · exact across call callMem _ List.mem_cons_self
  have followed := Followed.enter positive laned
    ((Sorted.create budgets epoch rotation creation).after former) later low
  have enteredEq : entered = ((begun.after former).answer (.add now nextHop packet)).2 :=
    List.foldl_append ..
  rw [← enteredEq] at followed
  obtain ⟨current, final, finalEq, counted, holds⟩ :=
    followed.after positive upcoming restOrdered waits
  refine ⟨Nat.le_trans (Nat.le_add_right _ _) counted, holds.found, ?_⟩
  intro call after gone
  have finalLe : final ≤ call.time := by
    rcases finalEq with rfl | ⟨other, otherMem, rfl⟩
    · exact after _ enters
    · exact after other (List.mem_append_right _ (List.mem_cons_of_mem _ otherMem))
  rcases holds.answer positive call finalLe with ⟨_, given⟩ | ⟨_, next, stays, _⟩
  · exact given
  · rw [gone] at stays
    contradiction

/-- Two packets are ahead of the third, and both leave in rotations of its level before it, one
of them three rotations later.  Of the packets that come after it, one leaves before it, but
in another rotation. -/
theorem low_overtaken_le_thirdRotation :
    let peer : Peer := ⟨"10.0.0.1", 9000⟩
    let packet (last : UInt8) : Bytes := 16 :: List.replicate 18 0 ++ [last]
    let begun := create ⟨1, 1, 5⟩ 100 10 5
    let former : List Call := [.add 6 peer (packet 0), .add 7 peer (packet 1)]
    let latter : List Call := [.next 9, .add 10 peer (packet 3), .add 16 peer (packet 4),
      .next 17, .next 36]
    let entered := begun.after (former ++ [.add 8 peer (packet 2)])
    0 < 10 ∧ Scheduled.band? ⟨peer, packet 2⟩ = some .low ∧
      (∀ call ∈ former ++ .add 8 peer (packet 2) :: latter, 5 ≤ call.time) ∧
      ((former ++ .add 8 peer (packet 2) :: latter).Pairwise
        fun first second => first.time ≤ second.time) ∧
      (Spot.entry (begun.after former) 8).after entered latter = some ⟨0, 0⟩ ∧
      entered.departures latter =
        [(9, ⟨peer, packet 0⟩), (17, ⟨peer, packet 4⟩), (36, ⟨peer, packet 1⟩)] ∧
      leavingIn 5 10 0 (entered.departures latter) = 2 ∧
      leavingIn 5 10 0 (entered.departures latter) ≤
        ((begun.after former).advance 8).low.first.length ∧
      ((entered.after latter).answer (.next 37)).1 = some ⟨peer, packet 2⟩ := by
  intro peer packet begun former latter entered
  have low : Scheduled.band? ⟨peer, packet 2⟩ = some .low := by decide
  have begins : ∀ call ∈ former ++ .add 8 peer (packet 2) :: latter, 5 ≤ call.time := by decide
  have ordered : (former ++ .add 8 peer (packet 2) :: latter).Pairwise
      fun first second => first.time ≤ second.time := by decide
  have waits : (Spot.entry (begun.after former) 8).after entered latter = some ⟨0, 0⟩ := by decide
  obtain ⟨overtaken, _, leaves⟩ :=
    @low_overtaken_le 5 10 8 ⟨1, 1, 5⟩ 100 peer (packet 2) former latter ⟨0, 0⟩ (by decide) low
      begins ordered waits
  exact ⟨by decide, low, begins, ordered, waits, by decide, by decide, overtaken,
    leaves (.next 37) (by decide) (by decide)⟩

end Schedule

end ClusterOverlay
