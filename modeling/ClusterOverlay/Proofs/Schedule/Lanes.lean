import Mathlib.Algebra.Group.Fin.Basic
import ClusterOverlay.Proofs.Schedule.Budgets

/-!
# The order in which packets leave

A schedule gives out what it has accepted, each packet once, and keeps the rest:
`Schedule.waiting_answer_perm`.  Packets that share a *lane* leave in the order in
which they came.  The two higher bands are a lane each.  The lowest band has three,
for a packet that comes three rotations later enters the level which has become the
first again.  A rotation moves every lane to another level and changes nothing
about it, `Schedule.line_rotate_of_due`, so that no packet overtakes another of its
lane however many rotations are taken into account at once:
`Schedule.lanes_kept`.
-/

namespace ClusterOverlay

/-- Packets of one lane leave in the order in which they come. -/
inductive Lane
  | highest
  | high
  /-- Packets of the lowest band that come in every third rotation. -/
  | low (turn : Fin 3)
  deriving DecidableEq, Repr

namespace Lane

/-- The lane of a packet of the given band that comes after so many rotations. -/
def of (rotations : Nat) : Band → Lane
  | .highest => highest
  | .high => high
  | .low => low (Fin.ofNat 3 rotations)

/-- The band that a lane is part of. -/
def band : Lane → Band
  | highest => .highest
  | high => .high
  | low _ => .low

@[simp]
theorem band_of (rotations : Nat) (band : Band) : (of rotations band).band = band := by
  cases band <;> rfl

end Lane

/-! ## Levels -/

namespace Levels

/-- The level at a given place. -/
def level (levels : Levels) : Fin 3 → List Scheduled
  | 0 => levels.first
  | 1 => levels.second
  | 2 => levels.third

theorem place_cases (place : Fin 3) : place = 0 ∨ place = 1 ∨ place = 2 := by
  revert place
  decide

/-- The place of the level that packets enter. -/
def entrance : Fin 3 :=
  0

/-- The place to which turns move the level of a place. -/
def moved (place : Fin 3) (turns : Nat) : Fin 3 :=
  place - Fin.ofNat 3 turns

/-- Every turn moves each level up by one place. -/
theorem level_turn (levels : Levels) (turns : Nat) (place : Fin 3) :
    (levels.turn turns).level place = levels.level (place + Fin.ofNat 3 turns) := by
  have short : turns % 3 < 3 := Nat.mod_lt turns (by decide)
  have turnsEq : Fin.ofNat 3 turns = Fin.ofNat 3 (turns % 3) := by
    simp [Fin.ofNat]
  rw [turnsEq]
  unfold turn
  generalize turns % 3 = count at short ⊢
  obtain rfl | rfl | rfl : count = 0 ∨ count = 1 ∨ count = 2 := by omega
  all_goals rcases place_cases place with rfl | rfl | rfl <;> rfl

/-- A packet that is taken was the first of some level, and no other level changes. -/
theorem exists_level_of_pop? {levels rest : Levels} {item : Scheduled}
    (popped : levels.pop? = some (item, rest)) :
    ∃ place, levels.level place = item :: rest.level place ∧
      ∀ other, other ≠ place → rest.level other = levels.level other := by
  rcases levels with ⟨_ | ⟨head, first⟩, _ | ⟨head, second⟩, _ | ⟨head, third⟩⟩ <;>
    simp only [pop?, reduceCtorEq, Option.some.injEq, Prod.mk.injEq] at popped <;>
    rcases popped with ⟨rfl, rfl⟩
  case nil.nil.cons =>
      refine ⟨2, rfl, ?_⟩
      intro other different
      rcases place_cases other with rfl | rfl | rfl <;> first | rfl | contradiction
  case nil.cons.nil | nil.cons.cons =>
      refine ⟨1, rfl, ?_⟩
      intro other different
      rcases place_cases other with rfl | rfl | rfl <;> first | rfl | contradiction
  case cons.nil.nil | cons.nil.cons | cons.cons.nil | cons.cons.cons =>
      refine ⟨0, rfl, ?_⟩
      intro other different
      rcases place_cases other with rfl | rfl | rfl <;> first | rfl | contradiction

end Levels

namespace Schedule

/-! ## What waits in a lane -/

/-- The packets that wait in a lane after so many rotations. -/
def line (schedule : Schedule) (rotations : Nat) : Lane → List Scheduled
  | .highest => schedule.highest
  | .high => schedule.high
  | .low turn => schedule.low.level (turn - Fin.ofNat 3 rotations)

/-- Restoring the budgets touches neither packets nor rotations. -/
theorem exists_renew_eq (schedule : Schedule) (now : Nat) :
    ∃ tokens epochStart, schedule.renew now = { schedule with tokens, epochStart } := by
  by_cases due : schedule.epoch ≤ now - schedule.epochStart
  · exact ⟨_, _, renew_of_due due⟩
  · exact ⟨schedule.tokens, schedule.epochStart, renew_of_not_due due⟩

/-- However many rotations are due at once, they leave every lane as it is. -/
theorem line_rotate_of_due {schedule : Schedule} {now : Nat}
    (due : schedule.rotation ≤ now - schedule.rotationStart) (rotations : Nat) :
    (schedule.rotate now).line
        (rotations + (now - schedule.rotationStart) / schedule.rotation) =
      schedule.line rotations := by
  rw [rotate_of_due due]
  generalize (now - schedule.rotationStart) / schedule.rotation = turns
  funext lane
  cases lane with
  | highest | high => rfl
  | low turn =>
      simp only [line, Levels.level_turn]
      congr 1
      apply Fin.ext
      simp only [Fin.sub_def, Fin.add_def, Fin.ofNat]
      omega

/-- A packet that comes is put at the end of its lane. -/
theorem line_append (schedule : Schedule) (rotations : Nat) (band : Band) (item : Scheduled)
    (lane : Lane) :
    (schedule.append band item).line rotations lane =
      if lane = Lane.of rotations band then schedule.line rotations lane ++ [item]
      else schedule.line rotations lane := by
  cases band with
  | highest | high => cases lane <;> simp [append, line, Lane.of]
  | low =>
      cases lane with
      | highest | high => simp [append, line, Lane.of]
      | low turn =>
          simp only [append, line, Lane.of, Lane.low.injEq]
          by_cases current : turn = Fin.ofNat 3 rotations
          · subst current
            rw [if_pos rfl, sub_self]
            rfl
          · rw [if_neg current]
            have later := sub_ne_zero.mpr current
            generalize turn - Fin.ofNat 3 rotations = place at later ⊢
            rcases Levels.place_cases place with rfl | rfl | rfl
            · contradiction
            · rfl
            · rfl

/-- A packet that is taken was the first of a lane of its band, and no other lane
changes. -/
theorem exists_line_of_take? {schedule after : Schedule} {band : Band} {item : Scheduled}
    (taken : schedule.take? band = some (item, after)) (rotations : Nat) :
    ∃ lane, schedule.line rotations lane = item :: after.line rotations lane ∧
      (∀ other, other ≠ lane → after.line rotations other = schedule.line rotations other) ∧
      after.rotation = schedule.rotation ∧ after.rotationStart = schedule.rotationStart := by
  unfold take? at taken
  split at taken
  · contradiction
  rcases Option.map_eq_some_iff.mp taken with ⟨⟨first, rest⟩, popped, afterEq⟩
  cases afterEq
  cases band with
  | highest =>
      refine ⟨.highest, ?_⟩
      cases queueEq : schedule.highest with
      | nil => simp [pop?, queueEq] at popped
      | cons head later =>
          simp only [pop?, queueEq, Option.some.injEq, Prod.mk.injEq] at popped
          rcases popped with ⟨rfl, rfl⟩
          refine ⟨queueEq, ?_, rfl, rfl⟩
          intro other different
          cases other <;> first | rfl | contradiction
  | high =>
      refine ⟨.high, ?_⟩
      cases queueEq : schedule.high with
      | nil => simp [pop?, queueEq] at popped
      | cons head later =>
          simp only [pop?, queueEq, Option.some.injEq, Prod.mk.injEq] at popped
          rcases popped with ⟨rfl, rfl⟩
          refine ⟨queueEq, ?_, rfl, rfl⟩
          intro other different
          cases other <;> first | rfl | contradiction
  | low =>
      rcases Option.map_eq_some_iff.mp popped with ⟨⟨head, levels⟩, headEq, restEq⟩
      cases restEq
      obtain ⟨place, levelEq, levelOther⟩ := Levels.exists_level_of_pop? headEq
      refine ⟨.low (place + Fin.ofNat 3 rotations), ?_, ?_, rfl, rfl⟩
      · simpa only [line, add_sub_cancel_right] using levelEq
      · intro other different
        cases other with
        | highest | high => rfl
        | low turn =>
            apply levelOther
            rintro rfl
            exact different (by rw [sub_add_cancel])

/-- Asking for a packet gives out nothing, or takes a packet of some band. -/
theorem next_eq_or_exists_take? (schedule : Schedule) (now : Nat) :
    schedule.next now = (none, schedule.advance now) ∨
      ∃ band item after, (schedule.advance now).take? band = some (item, after) ∧
        schedule.next now = (some item, after) := by
  simp only [next]
  generalize schedule.advance now = current
  split
  · next item after found =>
      refine .inr ?_
      rcases Option.or_eq_some_iff.mp found with first | ⟨_, later⟩
      · exact ⟨_, item, after, first, rfl⟩
      · rcases Option.or_eq_some_iff.mp later with second | ⟨_, third⟩
        · exact ⟨_, item, after, second, rfl⟩
        · exact ⟨_, item, after, third, rfl⟩
  · exact .inl rfl

/-! ## What comes and what waits -/

/-- The packet that a call makes a schedule accept, with the time at which it comes. -/
def Call.arrival? : Call → Option (Nat × Scheduled)
  | add now nextHop packet =>
      (Scheduled.band? ⟨nextHop, packet⟩).map fun _ => (now, ⟨nextHop, packet⟩)
  | next _ => none
  | untilRenewal _ => none

/-- The packets that some calls make a schedule accept, each with the time at which
it comes. -/
def arrivals (calls : List Call) : List (Nat × Scheduled) :=
  calls.filterMap Call.arrival?

theorem arrivals_cons (call : Call) (calls : List Call) :
    arrivals (call :: calls) = call.arrival?.toList ++ arrivals calls := by
  unfold arrivals
  cases arrives : call.arrival? with
  | none => rw [List.filterMap_cons_none arrives, Option.toList_none, List.nil_append]
  | some arrival =>
      rw [List.filterMap_cons_some arrives, Option.toList_some, List.singleton_append]

/-- What becomes of a call that adds: the packet comes, and is put at the end of the
band that its header names, or is refused for want of a header. -/
theorem answer_add (schedule : Schedule) (now : Nat) (nextHop : Peer) (packet : Bytes) :
    (∃ band, Scheduled.band? ⟨nextHop, packet⟩ = some band ∧
        (Call.add now nextHop packet).arrival? = some (now, ⟨nextHop, packet⟩) ∧
        schedule.answer (.add now nextHop packet) =
          (none, (schedule.advance now).append band ⟨nextHop, packet⟩)) ∨
      (Call.add now nextHop packet).arrival? = none ∧
        schedule.answer (.add now nextHop packet) = (none, schedule) := by
  cases added : schedule.add now nextHop packet with
  | ok after =>
      obtain ⟨band, sorted, rfl⟩ := add_eq_ok_iff.mp added
      refine .inl ⟨band, sorted, by simp [Call.arrival?, sorted], ?_⟩
      simp [answer, added, Except.toOption]
  | error cause =>
      have refused : Scheduled.band? ⟨nextHop, packet⟩ = none := by
        rw [Option.eq_none_iff_forall_ne_some]
        intro band sorted
        have accepted : schedule.add now nextHop packet = .ok _ :=
          add_eq_ok_iff.mpr ⟨band, sorted, rfl⟩
        rw [added] at accepted
        contradiction
      exact .inr ⟨by simp [Call.arrival?, refused], by simp [answer, added, Except.toOption]⟩

/-- All packets that wait, band by band. -/
def waiting (schedule : Schedule) : List Scheduled :=
  schedule.queue .highest ++ schedule.queue .high ++ schedule.queue .low

theorem waiting_advance_perm (schedule : Schedule) (now : Nat) :
    (schedule.advance now).waiting.Perm schedule.waiting :=
  ((schedule.queue_advance_perm now .highest).append
    (schedule.queue_advance_perm now .high)).append (schedule.queue_advance_perm now .low)

theorem waiting_append_perm (schedule : Schedule) (band : Band) (item : Scheduled) :
    (schedule.append band item).waiting.Perm (item :: schedule.waiting) := by
  rw [List.perm_iff_count]
  intro other
  cases band <;>
    simp only [waiting, append, queue, Levels.toList, List.count_append, List.count_cons,
      List.count_nil] <;>
    omega

/-- A packet that is accepted waits besides those that waited before. -/
theorem waiting_advance_append_perm (schedule : Schedule) (now : Nat) (band : Band)
    (item : Scheduled) :
    ((schedule.advance now).append band item).waiting.Perm (item :: schedule.waiting) :=
  (waiting_append_perm _ band item).trans ((schedule.waiting_advance_perm now).cons item)

theorem Takes.waiting_perm {schedule after : Schedule} {band : Band} {item : Scheduled}
    (takes : schedule.Takes band item after) : schedule.waiting.Perm (item :: after.waiting) := by
  rw [List.perm_iff_count]
  intro other
  have bandEq := takes.queueEq
  have rest := takes.queueOther
  cases band with
  | highest =>
      simp only [waiting, bandEq, rest .high (by decide), rest .low (by decide),
        List.count_append, List.count_cons]
      omega
  | high =>
      simp only [waiting, bandEq, rest .highest (by decide), rest .low (by decide),
        List.count_append, List.count_cons]
      omega
  | low =>
      simp only [waiting, bandEq, rest .highest (by decide), rest .high (by decide),
        List.count_append, List.count_cons]
      omega

/-- A call loses no packet and gives out none twice. -/
theorem waiting_answer_perm (schedule : Schedule) (call : Call) :
    ((schedule.answer call).1.toList ++ (schedule.answer call).2.waiting).Perm
      (call.arrival?.toList.map Prod.snd ++ schedule.waiting) := by
  cases call with
  | add now nextHop packet =>
      rcases schedule.answer_add now nextHop packet with
        ⟨band, _, arrives, answered⟩ | ⟨refused, answered⟩
      · rw [arrives, answered]
        exact schedule.waiting_advance_append_perm now band _
      · rw [refused, answered]
        exact List.Perm.refl _
  | next now =>
      have outcome := schedule.next_outcome now
      simp only [answer, Call.arrival?, Option.toList_none, List.map_nil, List.nil_append]
      generalize schedule.next now = answered at outcome ⊢
      rcases answered with ⟨item?, after⟩
      cases outcome with
      | nothing held => exact schedule.waiting_advance_perm now
      | sent takes held =>
          exact takes.waiting_perm.symm.trans (schedule.waiting_advance_perm now)
  | untilRenewal now => exact schedule.waiting_advance_perm now

/-- Of a schedule that is drained, some of what waited leaves, and the rest goes on waiting. -/
theorem waiting_drain_perm (schedule : Schedule) (now limit : Nat) :
    ((schedule.drain now limit).1 ++ (schedule.drain now limit).2.waiting).Perm
      schedule.waiting := by
  induction limit generalizing schedule with
  | zero => exact List.Perm.refl _
  | succ limit inductionHypothesis =>
      have step := schedule.waiting_answer_perm (.next now)
      rw [answer] at step
      rw [drain]
      rcases answered : schedule.next now with ⟨item?, after⟩
      rw [answered] at step
      cases item? with
      | none => exact step
      | some item => exact ((inductionHypothesis after).cons item).trans step

/-- However many calls are made, what has left and what waits is what waited before
and what has come. -/
theorem waiting_after_perm (schedule : Schedule) (calls : List Call) :
    ((schedule.departures calls).map Prod.snd ++ (schedule.after calls).waiting).Perm
      ((arrivals calls).map Prod.snd ++ schedule.waiting) := by
  induction calls generalizing schedule with
  | nil => exact List.Perm.refl _
  | cons call calls inductionHypothesis =>
      have first := schedule.waiting_answer_perm call
      have rest := inductionHypothesis (schedule.answer call).2
      simp only [departures, arrivals_cons, List.map_append, List.map_map, Function.comp_def,
        List.map_id', List.append_assoc]
      refine (rest.append_left _).trans ?_
      refine (List.perm_append_comm_assoc _ _ _).trans ?_
      refine (first.append_left _).trans ?_
      exact List.perm_append_comm_assoc _ _ _

/-! ## Lanes that are kept -/

/-- The lane of a packet that comes at a given time. -/
def lane? (creation rotation : Nat) (arrival : Nat × Scheduled) : Option Lane :=
  arrival.2.band?.map (Lane.of ((arrival.1 - creation) / rotation))

/-- The packets of one lane among others. -/
def inLane (creation rotation : Nat) (lane : Lane) (arrivals : List (Nat × Scheduled)) :
    List (Nat × Scheduled) :=
  arrivals.filter fun arrival => lane? creation rotation arrival = some lane

theorem inLane_concat_self {creation rotation : Nat} {lane : Lane} {arrival : Nat × Scheduled}
    (own : lane? creation rotation arrival = some lane) (arrivals : List (Nat × Scheduled)) :
    inLane creation rotation lane (arrivals ++ [arrival]) =
      inLane creation rotation lane arrivals ++ [arrival] := by
  simp [inLane, own]

theorem inLane_concat_of_ne {creation rotation : Nat} {lane other : Lane}
    {arrival : Nat × Scheduled} (own : lane? creation rotation arrival = some lane)
    (different : other ≠ lane) (arrivals : List (Nat × Scheduled)) :
    inLane creation rotation other (arrivals ++ [arrival]) =
      inLane creation rotation other arrivals := by
  simp [inLane, own, Ne.symm different]

/-- What holds of a schedule after some calls, the last of them at or before the
latest time, when so many rotations have been taken into account.  The packets that
have left are listed with the times at which they came: in every lane, they and those
that wait are the ones that came, in the same order. -/
structure Laned (creation rotation rotations latest : Nat) (came left : List (Nat × Scheduled))
    (schedule : Schedule) : Prop where
  rotationEq : schedule.rotation = rotation
  startEq : schedule.rotationStart = creation + rotations * rotation
  startLe : schedule.rotationStart ≤ latest
  flow : ∀ lane, ∃ waiting,
    inLane creation rotation lane left ++ waiting = inLane creation rotation lane came ∧
      schedule.line rotations lane = waiting.map Prod.snd

namespace Laned

variable {creation rotation rotations latest now : Nat} {came left : List (Nat × Scheduled)}
variable {schedule : Schedule}

theorem create (budgets : Budgets) (epoch rotation creation : Nat) :
    Laned creation rotation 0 creation [] [] (create budgets epoch rotation creation) where
  rotationEq := rfl
  startEq := by simp [Schedule.create]
  startLe := Nat.le_refl _
  flow := by
    intro lane
    refine ⟨[], rfl, ?_⟩
    cases lane with
    | highest | high => rfl
    | low turn =>
        simp only [line, Schedule.create, List.map_nil]
        rcases Levels.place_cases (turn - Fin.ofNat 3 0) with place | place | place <;>
          rw [place] <;> rfl

theorem mono (laned : Laned creation rotation rotations latest came left schedule)
    (later : latest ≤ now) : Laned creation rotation rotations now came left schedule :=
  { laned with startLe := Nat.le_trans laned.startLe later }

theorem renew (laned : Laned creation rotation rotations latest came left schedule) (now : Nat) :
    Laned creation rotation rotations latest came left (schedule.renew now) := by
  rcases schedule.exists_renew_eq now with ⟨tokens, epochStart, renewed⟩
  rw [renewed]
  exact ⟨laned.rotationEq, laned.startEq, laned.startLe, laned.flow⟩

/-- The rotations that are due are counted, and leave every lane as it is. -/
theorem rotate (positive : 0 < rotation)
    (laned : Laned creation rotation rotations latest came left schedule)
    (later : latest ≤ now) :
    ∃ current, InEpoch creation rotation current now ∧
      Laned creation rotation current now came left (schedule.rotate now) := by
  have start := Nat.le_trans laned.startLe later
  rw [laned.startEq] at start
  obtain ⟨inside, startEq⟩ := inEpoch_of_elapsed positive start
  refine ⟨_, inside, ?_⟩
  by_cases due : schedule.rotation ≤ now - schedule.rotationStart
  · have lineEq := line_rotate_of_due due rotations
    rw [rotate_of_due due] at lineEq ⊢
    simp only [laned.rotationEq, laned.startEq] at lineEq ⊢
    refine ⟨rfl, startEq, Nat.sub_le _ _, ?_⟩
    intro lane
    rw [lineEq]
    exact laned.flow lane
  · rw [rotate_of_not_due due]
    rw [laned.rotationEq, laned.startEq] at due
    rw [Nat.div_eq_of_lt (Nat.not_le.mp due), Nat.add_zero]
    exact ⟨laned.rotationEq, laned.startEq, laned.startEq ▸ start, laned.flow⟩

theorem advance (positive : 0 < rotation)
    (laned : Laned creation rotation rotations latest came left schedule)
    (later : latest ≤ now) :
    ∃ current, InEpoch creation rotation current now ∧
      Laned creation rotation current now came left (schedule.advance now) :=
  (laned.renew now).rotate positive later

/-- A packet that comes now waits at the end of its lane. -/
theorem append (laned : Laned creation rotation rotations latest came left schedule)
    (inside : InEpoch creation rotation rotations now) {band : Band} {item : Scheduled}
    (sorted : item.band? = some band) :
    Laned creation rotation rotations latest (came ++ [(now, item)]) left
      (schedule.append band item) := by
  have own : lane? creation rotation (now, item) = some (Lane.of rotations band) := by
    simp only [lane?, sorted, inside.div_eq, Option.map_some]
  refine ⟨?_, ?_, ?_, ?_⟩
  · cases band <;> exact laned.rotationEq
  · cases band <;> exact laned.startEq
  · cases band <;> exact laned.startLe
  · intro lane
    obtain ⟨waiting, order, lineEq⟩ := laned.flow lane
    rw [line_append]
    by_cases current : lane = Lane.of rotations band
    · subst current
      refine ⟨waiting ++ [(now, item)], ?_, ?_⟩
      · rw [inLane_concat_self own, ← order, List.append_assoc]
      · rw [if_pos rfl, lineEq, List.map_append, List.map_singleton]
    · refine ⟨waiting, ?_, ?_⟩
      · rw [inLane_concat_of_ne own current, order]
      · rw [if_neg current, lineEq]

/-- The packet that leaves is the first that waits in its lane. -/
theorem takes (laned : Laned creation rotation rotations latest came left schedule)
    {band : Band} {item : Scheduled} {after : Schedule}
    (taken : schedule.take? band = some (item, after)) :
    ∃ time, Laned creation rotation rotations latest came (left ++ [(time, item)]) after := by
  obtain ⟨lane, lineEq, lineOther, rotationEq, startEq⟩ := exists_line_of_take? taken rotations
  obtain ⟨waiting, order, waitingEq⟩ := laned.flow lane
  rw [lineEq] at waitingEq
  obtain ⟨⟨time, item⟩, rest, rfl, rfl, restEq⟩ := List.map_eq_cons_iff.mp waitingEq.symm
  have own : lane? creation rotation (time, item) = some lane := by
    have came : (time, item) ∈ inLane creation rotation lane came := by
      rw [← order]
      exact List.mem_append_right _ List.mem_cons_self
    simpa using (List.mem_filter.mp came).2
  refine ⟨time, rotationEq.trans laned.rotationEq, startEq.trans laned.startEq,
    startEq ▸ laned.startLe, ?_⟩
  intro other
  by_cases same : other = lane
  · subst same
    refine ⟨rest, ?_, restEq.symm⟩
    rw [inLane_concat_self own, List.append_assoc, List.singleton_append]
    exact order
  · rw [inLane_concat_of_ne own same, lineOther other same]
    exact laned.flow other

/-- Every call keeps the lanes. -/
theorem answer (positive : 0 < rotation)
    (laned : Laned creation rotation rotations latest came left schedule) (call : Call)
    (later : latest ≤ call.time) :
    ∃ current more, more.map Prod.snd = (schedule.answer call).1.toList ∧
      Laned creation rotation current call.time (came ++ call.arrival?.toList) (left ++ more)
        (schedule.answer call).2 := by
  obtain ⟨current, inside, advanced⟩ := laned.advance positive later
  cases call with
  | add now nextHop packet =>
      rcases schedule.answer_add now nextHop packet with
        ⟨band, sorted, arrives, answered⟩ | ⟨refused, answered⟩
      · refine ⟨current, [], by rw [answered]; rfl, ?_⟩
        rw [arrives, answered, List.append_nil]
        exact advanced.append inside sorted
      · refine ⟨rotations, [], by rw [answered]; rfl, ?_⟩
        rw [refused, answered, Option.toList_none, List.append_nil, List.append_nil]
        exact laned.mono later
  | next now =>
      simp only [Schedule.answer, Call.arrival?, Option.toList_none, List.append_nil]
      rcases schedule.next_eq_or_exists_take? now with nothing | ⟨band, item, rest, taken, sent⟩
      · refine ⟨current, [], by rw [nothing]; rfl, ?_⟩
        rw [nothing, List.append_nil]
        exact advanced
      · obtain ⟨time, kept⟩ := advanced.takes taken
        rw [sent]
        exact ⟨current, [(time, item)], rfl, kept⟩
  | untilRenewal now =>
      refine ⟨current, [], rfl, ?_⟩
      rw [Call.arrival?, Option.toList_none, List.append_nil, List.append_nil]
      exact advanced

/-- Calls at times that do not decrease keep the lanes. -/
theorem after (positive : 0 < rotation)
    (laned : Laned creation rotation rotations latest came left schedule) {calls : List Call}
    (later : ∀ call ∈ calls, latest ≤ call.time)
    (ordered : calls.Pairwise fun first second => first.time ≤ second.time) :
    ∃ current last more, (last = latest ∨ ∃ call ∈ calls, last = call.time) ∧
      more.map Prod.snd = (schedule.departures calls).map Prod.snd ∧
      Laned creation rotation current last (came ++ arrivals calls) (left ++ more)
        (schedule.after calls) := by
  induction calls generalizing rotations latest came left schedule with
  | nil =>
      refine ⟨rotations, latest, [], .inl rfl, rfl, ?_⟩
      rw [arrivals, List.filterMap_nil, List.append_nil, List.append_nil]
      exact laned
  | cons call calls inductionHypothesis =>
      obtain ⟨upcoming, restOrdered⟩ := List.pairwise_cons.mp ordered
      obtain ⟨current, first, firstEq, answered⟩ :=
        laned.answer positive call (later call List.mem_cons_self)
      obtain ⟨final, last, rest, lastEq, restEq, holds⟩ :=
        inductionHypothesis answered upcoming restOrdered
      refine ⟨final, last, first ++ rest, .inr ?_, ?_, ?_⟩
      · rcases lastEq with rfl | ⟨other, otherMem, rfl⟩
        · exact ⟨call, List.mem_cons_self, rfl⟩
        · exact ⟨other, List.mem_cons_of_mem call otherMem, rfl⟩
      · simp [departures, firstEq, restEq, Function.comp_def]
      · rw [arrivals_cons, ← List.append_assoc, ← List.append_assoc]
        exact holds

/-- In every lane, what has left are the first of those that came. -/
theorem isPrefix (laned : Laned creation rotation rotations latest came left schedule)
    (lane : Lane) :
    inLane creation rotation lane left <+: inLane creation rotation lane came := by
  obtain ⟨waiting, order, _⟩ := laned.flow lane
  exact ⟨waiting, order⟩

end Laned

/-! ## Runs -/

/-- The packets of one of the higher bands are those of its lane. -/
theorem filter_band_eq_inLane (creation rotation : Nat) {band : Band} (higher : band ≠ .low)
    (arrivals : List (Nat × Scheduled)) :
    arrivals.filter (·.2.band? = some band) =
      inLane creation rotation (Lane.of 0 band) arrivals := by
  apply List.filter_congr
  intro arrival _
  simp only [lane?, decide_eq_decide, Option.map_eq_some_iff]
  constructor
  · intro sorted
    refine ⟨band, sorted, ?_⟩
    cases band <;> first | rfl | contradiction
  · rintro ⟨other, sorted, laneEq⟩
    have bandEq := congrArg Lane.band laneEq
    rw [Lane.band_of, Lane.band_of] at bandEq
    exact bandEq ▸ sorted

/-- The packets of the lowest band that come when the number of rotations leaves the
given remainder are those of one lane. -/
theorem filter_turn_eq_inLane (creation rotation : Nat) (turn : Fin 3)
    (arrivals : List (Nat × Scheduled)) :
    (arrivals.filter fun arrival => arrival.2.band? = some .low ∧
        (arrival.1 - creation) / rotation % 3 = turn.val) =
      inLane creation rotation (.low turn) arrivals := by
  apply List.filter_congr
  intro arrival _
  simp only [lane?, decide_eq_decide, Option.map_eq_some_iff]
  constructor
  · rintro ⟨sorted, same⟩
    exact ⟨.low, sorted, congrArg Lane.low (Fin.ext same)⟩
  · rintro ⟨band, sorted, laneEq⟩
    cases band with
    | highest | high => contradiction
    | low => exact ⟨sorted, congrArg Fin.val (Lane.low.inj laneEq)⟩

variable {budgets : Budgets} {epoch rotation creation : Nat} {calls : List Call}

/-- In every run, what has come is what has left and what waits, each packet once.
The packets that have left can be told apart by the times at which they came, such
that those of a higher band are the first that came for it, in order, and such that
for every remainder by three of the number of rotations since the creation, those of
the lowest band are the first that came, in order. -/
theorem lanes_kept (positive : 0 < rotation) (later : ∀ call ∈ calls, creation ≤ call.time)
    (ordered : calls.Pairwise fun first second => first.time ≤ second.time) :
    let begun := create budgets epoch rotation creation
    let left := (begun.departures calls).map Prod.snd
    let came := arrivals calls
    (left ++ (begun.after calls).waiting).Perm (came.map Prod.snd) ∧
    ∃ origins : List (Nat × Scheduled), origins.map Prod.snd = left ∧
      (∀ band, band ≠ .low →
        origins.filter (·.2.band? = some band) <+: came.filter (·.2.band? = some band)) ∧
      ∀ turn : Fin 3,
        let kin : Nat × Scheduled → Bool := fun arrival =>
          arrival.2.band? = some .low ∧ (arrival.1 - creation) / rotation % 3 = turn
        origins.filter kin <+: came.filter kin := by
  intro begun left came
  have accounted := begun.waiting_after_perm calls
  rw [show begun.waiting = [] from rfl, List.append_nil] at accounted
  obtain ⟨rotations, _, origins, _, originsEq, laned⟩ :=
    (Laned.create budgets epoch rotation creation).after positive later ordered
  rw [List.nil_append, List.nil_append] at laned
  refine ⟨accounted, origins, originsEq, ?_, ?_⟩
  · intro band higher
    rw [filter_band_eq_inLane creation rotation higher,
      filter_band_eq_inLane creation rotation higher]
    exact laned.isPrefix _
  · intro turn kin
    rw [filter_turn_eq_inLane creation rotation turn, filter_turn_eq_inLane creation rotation turn]
    exact laned.isPrefix _

/-- A packet that comes three rotations after another leaves next, before one that
came between them. -/
theorem lanes_kept_thirdRotation :
    let peer : Peer := ⟨"10.0.0.1", 9000⟩
    let packet (last : UInt8) : Bytes := 16 :: List.replicate 18 0 ++ [last]
    let item (last : UInt8) : Scheduled := ⟨peer, packet last⟩
    let begun := create ⟨1, 1, 3⟩ 100 10 5
    let calls : List Call := [.add 6 peer (packet 0), .add 16 peer (packet 1),
      .add 36 peer (packet 2), .next 37, .next 38]
    let came := [(6, item 0), (16, item 1), (36, item 2)]
    let kin : Nat × Scheduled → Bool := fun arrival =>
      arrival.2.band? = some .low ∧ (arrival.1 - 5) / 10 % 3 = 0
    0 < 10 ∧ (∀ call ∈ calls, 5 ≤ call.time) ∧
      (calls.Pairwise fun first second => first.time ≤ second.time) ∧
      arrivals calls = came ∧
      (begun.departures calls).map Prod.snd = [item 0, item 2] ∧
      ([item 0, item 2] ++ (begun.after calls).waiting).Perm (came.map Prod.snd) ∧
      ∃ origins : List (Nat × Scheduled), origins.map Prod.snd = [item 0, item 2] ∧
        origins.filter kin <+: [(6, item 0), (36, item 2)] := by
  intro peer packet item begun calls came kin
  have later : ∀ call ∈ calls, 5 ≤ call.time := by decide
  have ordered : calls.Pairwise fun first second => first.time ≤ second.time := by decide
  have cameEq : arrivals calls = came := by decide
  have leftEq : (begun.departures calls).map Prod.snd = [item 0, item 2] := by decide
  have kinEq : came.filter kin = [(6, item 0), (36, item 2)] := by decide
  obtain ⟨accounted, origins, originsEq, _, kept⟩ :=
    @lanes_kept ⟨1, 1, 3⟩ 100 10 5 calls (by decide) later ordered
  rw [cameEq] at accounted kept
  refine ⟨by decide, later, ordered, cameEq, leftEq, leftEq ▸ accounted, origins,
    originsEq.trans leftEq, ?_⟩
  rw [← kinEq]
  exact kept 0

end Schedule

end ClusterOverlay
