import ClusterOverlay.Config
import ClusterOverlay.Proofs.Schedule.Polling

/-!
# Waiting for the budgets

When nothing may leave, whoever sends asks how long the epoch still lasts and sleeps for so
long.  The sleep is not empty, and ends at the very boundary at which all budgets are
restored.  Since no budget is empty, a packet leaves then if any waits, and it is the one that
`Schedule.foremost?` names: `Schedule.renewal_serves`.
-/

namespace ClusterOverlay

/-- What is checked of a configuration leaves a schedule with periods and budgets. -/
theorem Config.scheduler_of_check {config : Config} (checked : config.check = .ok ()) :
    (config.scheduler.epoch ≠ 0 ∧ config.scheduler.rotation ≠ 0) ∧
      config.scheduler.highestBudget ≠ 0 ∧ config.scheduler.highBudget ≠ 0 ∧
      config.scheduler.lowBudget ≠ 0 := by
  unfold check at checked
  split at checked
  · contradiction
  · split at checked
    · contradiction
    · next periods =>
        split at checked
        · contradiction
        · next budgets =>
            rw [not_or] at periods
            rw [not_or, not_or] at budgets
            exact ⟨periods, budgets⟩

namespace Schedule

variable {schedule rest : Schedule} {now : Nat} {band : Band}

/-! ## The first of all -/

/-- The packet that is first of all after the levels of the lowest band have turned so often:
the head of the first queue that is not empty. -/
def foremost? (schedule : Schedule) (turns : Nat) : Option Scheduled :=
  let levels := schedule.low.turn turns
  [schedule.highest, schedule.high, levels.first, levels.second, levels.third].findSome? List.head?

/-- The queues one after another have the packet for their head. -/
theorem foremost?_eq_head? (schedule : Schedule) (turns : Nat) :
    schedule.foremost? turns =
      (schedule.highest ++ (schedule.high ++ (schedule.low.turn turns).toList)).head? := by
  rw [foremost?, ← List.head?_flatten]
  simp [Levels.toList]

/-- If anything waits, some packet is first of all. -/
theorem exists_foremost?_eq (waits : schedule.isEmpty = false) (turns : Nat) :
    ∃ item, schedule.foremost? turns = some item := by
  have turned := (schedule.low.toList_turn_perm turns).length_eq
  have enough : schedule.size ≠ 0 := by simpa [isEmpty] using waits
  rw [← Option.isSome_iff_exists, foremost?_eq_head?, List.isSome_head?, ← List.length_pos_iff]
  simp only [size, queue] at enough
  simp only [List.length_append, turned]
  omega

/-- While every band has budget left, the packet that leaves is the first of all. -/
theorem fst_next (left : ∀ band, (schedule.advance now).tokens.get band ≠ 0) :
    (schedule.next now).1 = (schedule.advance now).foremost? 0 := by
  have outcome := schedule.next_outcome now
  rw [foremost?_eq_head?, Levels.turn_zero]
  generalize schedule.next now = answered at outcome ⊢
  generalize schedule.advance now = current at left outcome ⊢
  have nobody : ∀ band, current.IsHeld band → current.queue band = [] :=
    fun band held => held.resolve_left (left band)
  rcases answered with ⟨item?, after⟩
  change item? = (current.queue .highest ++ (current.queue .high ++ current.queue .low)).head?
  cases outcome with
  | nothing held => simp [nobody _ (held _)]
  | @sent band item _ takes held =>
      cases band with
      | highest => simp [takes.queueEq]
      | high => simp [nobody .highest (held _ (by decide)), takes.queueEq]
      | low =>
          simp [nobody .highest (held _ (by decide)), nobody .high (held _ (by decide)),
            takes.queueEq]

/-- Once boundaries are taken into account, the levels have turned as often as rotations are
due. -/
theorem foremost?_advance (positive : 0 < schedule.rotation) (now : Nat) :
    (schedule.advance now).foremost? 0 =
      schedule.foremost? ((now - schedule.rotationStart) / schedule.rotation) := by
  rcases schedule.exists_renew_eq now with ⟨tokens, epochStart, renewed⟩
  have stillPositive : 0 < (schedule.renew now).rotation := by
    rw [renewed]
    exact positive
  rw [advance, rotate_eq stillPositive, renewed]
  rfl

/-! ## The end of the epoch -/

section Wait

variable {budgets : Budgets} {creation epoch rotation number rotations latest : Nat}
variable {departures came left : List (Nat × Scheduled)}

/-- What is left of an epoch ends where the next begins. -/
theorem InEpoch.add_wait (positive : 0 < epoch) (inside : InEpoch creation epoch number now) :
    now + (epoch - (now - creation) % epoch) = creation + (number + 1) * epoch := by
  have whole := Nat.div_add_mod' (now - creation) epoch
  have short := Nat.mod_lt (now - creation) positive
  have begun := inside.1
  rw [inside.div_eq] at whole
  rw [Nat.succ_mul]
  omega

/-- The wait lasts for what is left of the epoch. -/
theorem Budgeted.fst_untilRenewal (positive : 0 < epoch)
    (budgeted : Budgeted budgets creation epoch number latest departures schedule)
    (later : latest ≤ now) :
    (schedule.untilRenewal now).1 = epoch - (now - creation) % epoch := by
  obtain ⟨current, inside, advanced⟩ := budgeted.advance positive later
  have ends := inside.add_wait positive
  rw [Nat.succ_mul] at ends
  simp only [untilRenewal, advanced.startEq, advanced.epochEq]
  omega

/-- At the end of the wait all budgets are whole. -/
theorem Budgeted.tokens_renewed (positive : 0 < epoch)
    (budgeted : Budgeted budgets creation epoch number latest departures schedule)
    (later : latest ≤ now) (band : Band) :
    ((schedule.advance now).advance
      (now + (epoch - (now - creation) % epoch))).tokens.get band = budgets.get band := by
  obtain ⟨current, inside, advanced⟩ := budgeted.advance positive later
  obtain ⟨next, nextInside, renewed⟩ := advanced.advance positive (Nat.le_add_right now _)
  rw [inside.add_wait positive] at nextInside renewed ⊢
  have begins : InEpoch creation epoch (current + 1) (creation + (current + 1) * epoch) := by
    constructor
    · exact Nat.le_refl _
    · rw [Nat.succ_mul (current + 1)]
      omega
  obtain rfl := nextInside.unique begins
  -- Nothing has left yet in the epoch that begins there.
  have balance := renewed.balance band
  rw [sentIn_eq_zero advanced.early] at balance
  exact balance

/-- At the end of the wait the packet leaves that is first of all by then. -/
theorem Budgeted.fst_next_renewed (positive : 0 < epoch) (rotates : 0 < schedule.rotation)
    (filled : ∀ band, budgets.get band ≠ 0)
    (budgeted : Budgeted budgets creation epoch number latest departures schedule)
    (later : latest ≤ now) {wait : Nat} (waitEq : wait = epoch - (now - creation) % epoch) :
    ((schedule.advance now).next (now + wait)).1 =
      schedule.foremost? ((now + wait - schedule.rotationStart) / schedule.rotation) := by
  have left : ∀ band, ((schedule.advance now).advance (now + wait)).tokens.get band ≠ 0 := by
    intro band
    rw [waitEq, budgeted.tokens_renewed positive later band]
    exact filled band
  rw [fst_next left, advance_advance (budgeted.epochEq ▸ positive) rotates (Nat.le_add_right _ _),
    foremost?_advance rotates]

/-- The rotations that are due are those since the creation, without those that have been taken
into account. -/
theorem Laned.turns_eq (positive : 0 < rotation)
    (laned : Laned creation rotation rotations latest came left schedule) (now : Nat) :
    (now - schedule.rotationStart) / schedule.rotation =
      (now - creation) / rotation - (schedule.rotationStart - creation) / rotation := by
  rw [laned.rotationEq, laned.startEq, Nat.add_sub_cancel_left, Nat.mul_div_cancel _ positive,
    ← Nat.sub_sub, Nat.mul_comm, Nat.sub_mul_div]

/-- Of a higher band, those wait that came and have not left, in the order in which they came. -/
theorem Laned.queue_eq_drop
    (laned : Laned creation rotation rotations latest came left schedule) (higher : band ≠ .low) :
    schedule.queue band = ((came.filter (·.2.band? = some band)).map Prod.snd).drop
      ((left.map Prod.snd).countP (·.band? = some band)) := by
  rcases laned.flow (Lane.of 0 band) with ⟨waiting, order, lineEq⟩
  rw [← filter_band_eq_inLane creation rotation higher,
    ← filter_band_eq_inLane creation rotation higher] at order
  have queueEq : schedule.queue band = waiting.map Prod.snd := by
    cases band with
    | highest | high => exact lineEq
    | low => contradiction
  have countEq : (left.map Prod.snd).countP (·.band? = some band) =
      ((left.filter (·.2.band? = some band)).map Prod.snd).length := by
    rw [List.countP_map, List.countP_eq_length_filter, List.length_map]
    rfl
  rw [queueEq, ← order, List.map_append, countEq, List.drop_left]

end Wait

/-! ## Runs -/

/-- Whatever was asked of a schedule, the wait until its budgets are restored is what is left
of the epoch that began at a multiple of its length after the creation.  It is not empty, and
no longer than an epoch.  Whoever asks for a packet when it has passed gets one if any waits:
the oldest of the highest band that has any, and for the lowest band the head of the first
level that has any, after the rotations that are due by then.  In the higher bands the packets
that wait are those that came and have not left, in the order in which they came. -/
theorem renewal_serves {config : Config} (accepted : config.check = .ok ()) {creation now : Nat}
    {calls : List Call} (begins : ∀ call ∈ calls, creation ≤ call.time)
    (ordered : calls.Pairwise fun first second => first.time ≤ second.time)
    (created : creation ≤ now) (reaches : ∀ call ∈ calls, call.time ≤ now) :
    let epoch := milliseconds config.scheduler.epoch
    let rotation := milliseconds config.scheduler.rotation
    let begun := config.scheduler.schedule creation
    let reached := begun.after calls
    let wait := (reached.untilRenewal now).1
    let asked := (reached.untilRenewal now).2
    let later := now + wait
    let turns := (later - creation) / rotation - (reached.rotationStart - creation) / rotation
    (wait = epoch - (now - creation) % epoch ∧ 0 < wait ∧ wait ≤ epoch) ∧
      (reached.isEmpty = false → ∃ item,
        (asked.next later).1 = some item ∧ reached.foremost? turns = some item) ∧
      ∀ band, band ≠ .low → reached.queue band =
        (((arrivals calls).filter (·.2.band? = some band)).map Prod.snd).drop
          (((begun.departures calls).map Prod.snd).countP (·.band? = some band)) := by
  intro epoch rotation begun reached wait asked later turns
  rcases Config.scheduler_of_check accepted with ⟨⟨epochSet, rotationSet⟩, budgetsSet⟩
  have epochPositive : 0 < epoch := Nat.mul_pos (Nat.pos_of_ne_zero epochSet) (by decide)
  have rotationPositive : 0 < rotation := Nat.mul_pos (Nat.pos_of_ne_zero rotationSet) (by decide)
  have lastLe : ∀ last, (last = creation ∨ ∃ call ∈ calls, last = call.time) → last ≤ now := by
    rintro last (rfl | ⟨call, callMem, rfl⟩)
    · exact created
    · exact reaches call callMem
  have filled : ∀ band, begun.budgets.get band ≠ 0 := by
    intro band
    cases band with
    | highest => exact budgetsSet.1
    | high => exact budgetsSet.2.1
    | low => exact budgetsSet.2.2
  obtain ⟨_, last, lastEq, budgeted⟩ :=
    (Budgeted.create begun.budgets epoch rotation creation).after epochPositive begins ordered
  obtain ⟨_, _, origins, _, originsEq, laned⟩ :=
    (Laned.create begun.budgets epoch rotation creation).after rotationPositive begins ordered
  have waitEq : wait = epoch - (now - creation) % epoch :=
    budgeted.fst_untilRenewal epochPositive (lastLe last lastEq)
  have short := Nat.mod_lt (now - creation) epochPositive
  constructor
  · omega
  constructor
  · intro waits
    have rotates : 0 < reached.rotation := laned.rotationEq.symm ▸ rotationPositive
    have served : (asked.next later).1 =
        reached.foremost? ((later - reached.rotationStart) / reached.rotation) :=
      budgeted.fst_next_renewed epochPositive rotates filled (lastLe last lastEq) waitEq
    have turnsEq : (later - reached.rotationStart) / reached.rotation = turns :=
      laned.turns_eq rotationPositive later
    rcases exists_foremost?_eq waits turns with ⟨item, foremost⟩
    exact ⟨item, by rw [served, turnsEq, foremost], foremost⟩
  · intro band higher
    have queueEq := laned.queue_eq_drop higher
    rw [List.nil_append, List.nil_append, originsEq] at queueEq
    exact queueEq

/-- The budget of the lowest band is spent, and two packets wait.  The one that came later stands
in the first level, until a rotation falls due during the wait. -/
theorem renewal_serves_rotation :
    let config : Config := { scheduler := ⟨2, 1, 1, 1, 1⟩ }
    let peer : Peer := ⟨"10.0.0.1", 9000⟩
    let packet (last : UInt8) : Bytes := 16 :: List.replicate 18 0 ++ [last]
    let calls : List Call := [.add 6 peer (packet 0), .add 7 peer (packet 1), .next 8,
      .add 1500005 peer (packet 2)]
    let reached := (config.scheduler.schedule 5).after calls
    config.check = .ok () ∧ (∀ call ∈ calls, 5 ≤ call.time) ∧
      (calls.Pairwise fun first second => first.time ≤ second.time) ∧ 5 ≤ 1500006 ∧
      (∀ call ∈ calls, call.time ≤ 1500006) ∧ reached.isEmpty = false ∧
      (reached.next 1500006).1 = none ∧ reached.low.first = [⟨peer, packet 2⟩] ∧
      (reached.untilRenewal 1500006).1 = 499999 ∧
      ((reached.untilRenewal 1500006).2.next 2000005).1 = some ⟨peer, packet 1⟩ := by
  intro config peer packet calls reached
  have accepted : config.check = .ok () := by decide
  have begins : ∀ call ∈ calls, 5 ≤ call.time := by decide
  have ordered : calls.Pairwise fun first second => first.time ≤ second.time := by decide
  have created : 5 ≤ 1500006 := by decide
  have reaches : ∀ call ∈ calls, call.time ≤ 1500006 := by decide
  have waits : reached.isEmpty = false := by decide
  have held : (reached.next 1500006).1 = none := by decide
  have newest : reached.low.first = [⟨peer, packet 2⟩] := by decide
  obtain ⟨⟨waitEq, _, _⟩, serves, _⟩ :=
    renewal_serves accepted begins ordered created reaches
  have wait : (reached.untilRenewal 1500006).1 = 499999 := waitEq.trans (by decide)
  rcases serves waits with ⟨item, given, foremost⟩
  have itemEq : some item = some ⟨peer, packet 1⟩ := foremost.symm.trans (by decide)
  rw [wait, itemEq] at given
  exact ⟨accepted, begins, ordered, created, reaches, waits, held, newest, wait, given⟩

end Schedule

end ClusterOverlay
