import ClusterOverlay.Proofs.Schedule

/-!
# Budgets of an epoch

A schedule takes epoch boundaries into account only when it is used, however
late that is.  Still its epochs are those counted from its creation, and what is
left of a budget is the budget less what the band has sent in the current epoch:
`Schedule.Budgeted` says so, and every call keeps it.  Hence no band sends more
than its budget in any epoch, and a band that has to wait has sent exactly that
many: `Schedule.budgets_kept`.
-/

namespace ClusterOverlay

namespace Schedule

/-- The time belongs to the epoch with the given number, if epochs are counted
from a creation and have a given length. -/
def InEpoch (creation epoch number time : Nat) : Prop :=
  creation + number * epoch ≤ time ∧ time < creation + (number + 1) * epoch

instance (creation epoch number time : Nat) : Decidable (InEpoch creation epoch number time) :=
  inferInstanceAs (Decidable (_ ∧ _))

/-- The number of the epoch that a time belongs to. -/
theorem InEpoch.div_eq {creation epoch number time : Nat}
    (inside : InEpoch creation epoch number time) : (time - creation) / epoch = number := by
  apply Nat.div_eq_of_lt_le
  · exact Nat.le_sub_of_add_le' inside.1
  · exact Nat.sub_lt_left_of_lt_add (Nat.le_of_add_right_le inside.1) inside.2

/-- A time belongs to one epoch. -/
theorem InEpoch.unique {creation epoch first second time : Nat}
    (firstHolds : InEpoch creation epoch first time)
    (secondHolds : InEpoch creation epoch second time) : first = second :=
  firstHolds.div_eq.symm.trans secondHolds.div_eq

/-- However many epochs have ended since the start of one of them, the current
one begins at a multiple of the length after the creation. -/
theorem inEpoch_of_elapsed {creation epoch number now : Nat} (positive : 0 < epoch)
    (start : creation + number * epoch ≤ now) :
    InEpoch creation epoch (number + (now - (creation + number * epoch)) / epoch) now ∧
      now - (now - (creation + number * epoch)) % epoch =
        creation + (number + (now - (creation + number * epoch)) / epoch) * epoch := by
  generalize elapsedEq : now - (creation + number * epoch) = elapsed
  have whole := Nat.div_add_mod' elapsed epoch
  have short := Nat.mod_lt elapsed positive
  simp only [InEpoch, Nat.add_mul, Nat.one_mul]
  omega

/-- How many packets of a band left in an epoch. -/
def sentIn (creation epoch number : Nat) (band : Band) (departures : List (Nat × Scheduled)) :
    Nat :=
  departures.countP fun departure =>
    departure.2.band? = some band ∧ InEpoch creation epoch number departure.1

theorem sentIn_append (creation epoch number : Nat) (band : Band)
    (former latter : List (Nat × Scheduled)) :
    sentIn creation epoch number band (former ++ latter) =
      sentIn creation epoch number band former + sentIn creation epoch number band latter :=
  List.countP_append

/-- Nothing has left in an epoch that is later than all departures. -/
theorem sentIn_eq_zero {creation epoch number : Nat} {departures : List (Nat × Scheduled)}
    (early : ∀ departure ∈ departures, departure.1 < creation + number * epoch) (band : Band) :
    sentIn creation epoch number band departures = 0 := by
  rw [sentIn, List.countP_eq_zero]
  intro departure departureMem
  have before := early departure departureMem
  rw [decide_eq_true_iff]
  rintro ⟨_, inside⟩
  exact Nat.not_lt.mpr inside.1 before

/-! ## The invariant -/

/-- The schedule is in the epoch with the given number, which began by the time
`latest`, and `departures` have left so far. -/
structure Budgeted (budgets : Budgets) (creation epoch number latest : Nat)
    (departures : List (Nat × Scheduled)) (schedule : Schedule) : Prop where
  budgetsEq : schedule.budgets = budgets
  epochEq : schedule.epoch = epoch
  startEq : schedule.epochStart = creation + number * epoch
  startLe : schedule.epochStart ≤ latest
  /-- Every packet waits in the band that its header names. -/
  sorted : ∀ band, ∀ item ∈ schedule.queue band, item.band? = some band
  /-- No packet has left after the current epoch. -/
  early : ∀ departure ∈ departures, departure.1 < creation + (number + 1) * epoch
  balance : ∀ band, schedule.tokens.get band + sentIn creation epoch number band departures =
    budgets.get band
  within : ∀ former band, sentIn creation epoch former band departures ≤ budgets.get band

namespace Budgeted

variable {budgets : Budgets} {creation epoch number latest now : Nat}
variable {departures : List (Nat × Scheduled)} {schedule : Schedule}

theorem create (budgets : Budgets) (epoch rotation creation : Nat) :
    Budgeted budgets creation epoch 0 creation [] (create budgets epoch rotation creation) where
  budgetsEq := rfl
  epochEq := rfl
  startEq := by simp [Schedule.create]
  startLe := Nat.le_refl _
  sorted := by
    intro band item waits
    cases band <;> contradiction
  early := by simp
  balance := fun _ => rfl
  within := fun _ _ => Nat.zero_le _

theorem mono (budgeted : Budgeted budgets creation epoch number latest departures schedule)
    (later : latest ≤ now) :
    Budgeted budgets creation epoch number now departures schedule :=
  { budgeted with startLe := Nat.le_trans budgeted.startLe later }

/-- An epoch that has not ended is still the current one. -/
theorem inEpoch_of_not_due
    (budgeted : Budgeted budgets creation epoch number latest departures schedule)
    (later : latest ≤ now) (early : ¬ schedule.epoch ≤ now - schedule.epochStart) :
    InEpoch creation epoch number now := by
  have start := Nat.le_trans budgeted.startLe later
  rw [budgeted.epochEq] at early
  rw [budgeted.startEq] at early start
  refine ⟨start, ?_⟩
  rw [Nat.succ_mul]
  omega

/-- An epoch that has ended gives way to a later one. -/
theorem inEpoch_of_due (positive : 0 < epoch)
    (budgeted : Budgeted budgets creation epoch number latest departures schedule)
    (later : latest ≤ now) (due : schedule.epoch ≤ now - schedule.epochStart) :
    ∃ current, number < current ∧ InEpoch creation epoch current now ∧
      now - (now - schedule.epochStart) % schedule.epoch = creation + current * epoch := by
  have start := Nat.le_trans budgeted.startLe later
  rw [budgeted.epochEq] at due ⊢
  rw [budgeted.startEq] at due start ⊢
  have passed : 0 < (now - (creation + number * epoch)) / epoch := Nat.div_pos due positive
  exact ⟨_, Nat.lt_add_of_pos_right passed, inEpoch_of_elapsed positive start⟩

/-- Taking boundaries into account moves on to the epoch of the time. -/
theorem advance (positive : 0 < epoch)
    (budgeted : Budgeted budgets creation epoch number latest departures schedule)
    (later : latest ≤ now) :
    ∃ current, InEpoch creation epoch current now ∧
      Budgeted budgets creation epoch current now departures (schedule.advance now) := by
  have sorted : ∀ band, ∀ item ∈ (schedule.advance now).queue band, item.band? = some band :=
    fun band item waits =>
      budgeted.sorted band item ((schedule.queue_advance_perm now band).subset waits)
  rcases exists_rotate_eq (schedule.renew now) now with ⟨low, rotationStart, rotated⟩
  rw [Schedule.advance] at sorted ⊢
  by_cases due : schedule.epoch ≤ now - schedule.epochStart
  · obtain ⟨current, later, inside, startEq⟩ := budgeted.inEpoch_of_due positive later due
    have early : ∀ departure ∈ departures, departure.1 < creation + current * epoch := by
      intro departure departureMem
      have next : (number + 1) * epoch ≤ current * epoch := Nat.mul_le_mul_right epoch later
      exact Nat.lt_of_lt_of_le (budgeted.early departure departureMem)
        (Nat.add_le_add_left next creation)
    rw [rotated, renew_of_due due, startEq] at sorted ⊢
    refine ⟨current, inside, budgeted.budgetsEq, budgeted.epochEq, rfl, inside.1, sorted, ?_, ?_,
      budgeted.within⟩
    · intro departure departureMem
      have before := early departure departureMem
      rw [Nat.succ_mul]
      omega
    · intro band
      rw [sentIn_eq_zero early, Nat.add_zero, budgeted.budgetsEq]
  · have inside := budgeted.inEpoch_of_not_due later due
    rw [rotated, renew_of_not_due due] at sorted ⊢
    exact ⟨number, inside, budgeted.budgetsEq, budgeted.epochEq, budgeted.startEq,
      budgeted.startEq ▸ inside.1, sorted, budgeted.early, budgeted.balance, budgeted.within⟩

/-- What has left stays as it was if nothing leaves. -/
theorem append (budgeted : Budgeted budgets creation epoch number latest departures schedule)
    {band : Band} {item : Scheduled} (sorted : item.band? = some band) :
    Budgeted budgets creation epoch number latest departures (schedule.append band item) := by
  refine ⟨?_, ?_, ?_, ?_, ?_, budgeted.early, ?_, budgeted.within⟩
  · cases band <;> exact budgeted.budgetsEq
  · cases band <;> exact budgeted.epochEq
  · cases band <;> exact budgeted.startEq
  · cases band <;> exact budgeted.startLe
  · intro other waiting waits
    rcases mem_queue_append waits with former | ⟨rfl, rfl⟩
    · exact budgeted.sorted other waiting former
    · exact sorted
  · cases band <;> exact budgeted.balance

/-- A departure is counted for its band and for the current epoch, and no other. -/
theorem sentIn_departure {band : Band} {item : Scheduled} (sorted : item.band? = some band)
    (inside : InEpoch creation epoch number now) (other : Nat) (otherBand : Band) :
    sentIn creation epoch other otherBand [(now, item)] =
      if other = number ∧ otherBand = band then 1 else 0 := by
  rw [sentIn, List.countP_singleton]
  congr 1
  rw [decide_eq_true_eq, sorted, Option.some.injEq, eq_iff_iff]
  constructor
  · rintro ⟨rfl, otherInside⟩
    exact ⟨otherInside.unique inside, rfl⟩
  · rintro ⟨rfl, rfl⟩
    exact ⟨rfl, inside⟩

/-- A packet that leaves is paid for out of what is left of the budget. -/
theorem takes (budgeted : Budgeted budgets creation epoch number latest departures schedule)
    (inside : InEpoch creation epoch number now) {band : Band} {item : Scheduled}
    {after : Schedule} (takes : schedule.Takes band item after) :
    Budgeted budgets creation epoch number latest (departures ++ [(now, item)]) after := by
  have sorted : item.band? = some band := by
    apply budgeted.sorted band
    rw [takes.queueEq]
    exact List.mem_cons_self
  have balance : ∀ other, after.tokens.get other +
      sentIn creation epoch number other (departures ++ [(now, item)]) = budgets.get other := by
    intro other
    have former := budgeted.balance other
    rw [sentIn_append, sentIn_departure sorted inside]
    by_cases same : other = band
    · subst same
      have spent := takes.tokensEq
      rw [if_pos ⟨rfl, rfl⟩]
      omega
    · rw [if_neg (fun both => same both.2), takes.tokensOther other same]
      exact former
  refine ⟨takes.budgetsEq.trans budgeted.budgetsEq, takes.epochEq.trans budgeted.epochEq,
    takes.epochStartEq.trans budgeted.startEq, takes.epochStartEq ▸ budgeted.startLe,
    ?_, ?_, balance, ?_⟩
  · intro other waiting waits
    apply budgeted.sorted other
    by_cases same : other = band
    · subst same
      rw [takes.queueEq]
      exact List.mem_cons_of_mem item waits
    · rw [← takes.queueOther other same]
      exact waits
  · intro departure departureMem
    rcases List.mem_append.mp departureMem with former | latter
    · exact budgeted.early departure former
    · rw [List.mem_singleton.mp latter]
      exact inside.2
  · intro former other
    by_cases current : former = number
    · subst current
      exact Nat.le_trans (Nat.le_add_left _ _) (Nat.le_of_eq (balance other))
    · rw [sentIn_append, sentIn_departure sorted inside, if_neg (fun both => current both.1)]
      exact budgeted.within former other

/-- Every call keeps the invariant, and adds what it makes leave to the
departures. -/
theorem answer (positive : 0 < epoch)
    (budgeted : Budgeted budgets creation epoch number latest departures schedule)
    (call : Call) (later : latest ≤ call.time) :
    ∃ current, Budgeted budgets creation epoch current call.time
      (departures ++ (schedule.answer call).1.toList.map (call.time, ·))
      (schedule.answer call).2 := by
  obtain ⟨current, inside, advanced⟩ := budgeted.advance positive later
  cases call with
  | add now nextHop packet =>
      simp only [Schedule.answer, Option.toList_none, List.map_nil, List.append_nil]
      cases added : schedule.add now nextHop packet with
      | error cause => exact ⟨number, budgeted.mono later⟩
      | ok after =>
          obtain ⟨band, sorted, rfl⟩ := add_eq_ok_iff.mp added
          exact ⟨current, advanced.append sorted⟩
  | next now =>
      have outcome := schedule.next_outcome now
      simp only [Schedule.answer]
      generalize schedule.next now = answered at outcome ⊢
      rcases answered with ⟨item?, after⟩
      cases outcome with
      | nothing held =>
          rw [Option.toList_none, List.map_nil, List.append_nil]
          exact ⟨current, advanced⟩
      | sent takes held => exact ⟨current, advanced.takes inside takes⟩
  | untilRenewal now =>
      simp only [Schedule.answer, Option.toList_none, List.map_nil, List.append_nil]
      exact ⟨current, advanced⟩

/-- Calls at times that do not decrease keep the invariant. -/
theorem after (positive : 0 < epoch)
    (budgeted : Budgeted budgets creation epoch number latest departures schedule)
    {calls : List Call} (later : ∀ call ∈ calls, latest ≤ call.time)
    (ordered : calls.Pairwise fun first second => first.time ≤ second.time) :
    ∃ current last, (last = latest ∨ ∃ call ∈ calls, last = call.time) ∧
      Budgeted budgets creation epoch current last (departures ++ schedule.departures calls)
        (schedule.after calls) := by
  induction calls generalizing number latest departures schedule with
  | nil =>
      rw [Schedule.departures, List.append_nil]
      exact ⟨number, latest, .inl rfl, budgeted⟩
  | cons call calls inductionHypothesis =>
      obtain ⟨upcoming, restOrdered⟩ := List.pairwise_cons.mp ordered
      obtain ⟨current, answered⟩ := budgeted.answer positive call (later call List.mem_cons_self)
      obtain ⟨final, last, lastEq, holds⟩ := inductionHypothesis answered upcoming restOrdered
      refine ⟨final, last, .inr ?_, ?_⟩
      · rcases lastEq with rfl | ⟨other, otherMem, rfl⟩
        · exact ⟨call, List.mem_cons_self, rfl⟩
        · exact ⟨other, List.mem_cons_of_mem call otherMem, rfl⟩
      · rw [Schedule.departures, ← List.append_assoc]
        exact holds

/-- A band that may not send although a packet waits has spent its budget. -/
theorem sentIn_eq_of_isHeld
    (budgeted : Budgeted budgets creation epoch number latest departures schedule) {band : Band}
    (held : schedule.IsHeld band) (waits : schedule.queue band ≠ []) :
    sentIn creation epoch number band departures = budgets.get band := by
  rcases held with spent | nobody
  · have balance := budgeted.balance band
    rw [spent, Nat.zero_add] at balance
    exact balance
  · exact absurd nobody waits

end Budgeted

/-! ## Runs -/

variable {budgets : Budgets} {epoch rotation creation : Nat} {calls : List Call}

/-- In every run no band sends more than its budget in any epoch.  Whenever a
band has a packet waiting and nothing, or only a packet of a lower band, is
given out, the band has sent exactly its budget in the epoch. -/
theorem budgets_kept (positive : 0 < epoch) (later : ∀ call ∈ calls, creation ≤ call.time)
    (ordered : calls.Pairwise fun first second => first.time ≤ second.time) :
    let begun := create budgets epoch rotation creation
    (∀ number band,
      sentIn creation epoch number band (begun.departures calls) ≤ budgets.get band) ∧
    ∀ former now latter, calls = former ++ .next now :: latter →
      ∀ number, InEpoch creation epoch number now →
      ∀ band, (begun.after former).queue band ≠ [] →
        (∀ item, ((begun.after former).next now).1 = some item →
          ∃ lower, item.band? = some lower ∧ band.rank < lower.rank) →
        sentIn creation epoch number band (begun.departures former) = budgets.get band := by
  intro begun
  have fresh := Budgeted.create budgets epoch rotation creation
  constructor
  · obtain ⟨current, last, _, holds⟩ := fresh.after positive later ordered
    exact holds.within
  · rintro former now latter rfl number inside band waits lower
    obtain ⟨formerOrdered, _, before⟩ := List.pairwise_append.mp ordered
    obtain ⟨previous, last, lastEq, holds⟩ := fresh.after positive
      (fun call callMem => later call (List.mem_append_left _ callMem)) formerOrdered
    have lastLe : last ≤ now := by
      rcases lastEq with rfl | ⟨call, callMem, rfl⟩
      · exact later (.next now) (by simp)
      · exact before call callMem (.next now) List.mem_cons_self
    obtain ⟨current, currentInside, advanced⟩ := holds.advance positive lastLe
    rw [inside.unique currentInside]
    apply advanced.sentIn_eq_of_isHeld
    · have outcome := (begun.after former).next_outcome now
      generalize (begun.after former).next now = answered at outcome lower
      rcases answered with ⟨item?, after⟩
      cases outcome with
      | nothing held => exact held band
      | @sent sending item _ takes held =>
          obtain ⟨other, otherEq, below⟩ := lower item rfl
          have sorted : item.band? = some sending := by
            apply advanced.sorted sending
            rw [takes.queueEq]
            exact List.mem_cons_self
          rw [sorted, Option.some.injEq] at otherEq
          exact held band (otherEq ▸ below)
    · exact mt (queue_advance_eq_nil_iff _ now band).mp waits

/-- A budget of one packet is spent when the second packet is asked for.  The
epoch after the next begins twenty instants after the creation, though nobody
asks before. -/
theorem budgets_kept_late :
    let peer : Peer := ⟨"10.0.0.1", 9000⟩
    let packet : Bytes := List.replicate 20 0
    let begun := create ⟨1, 1, 1⟩ 10 30 5
    let former : List Call := [.add 6 peer packet, .add 7 peer packet, .next 26]
    let calls := former ++ [.next 28]
    0 < 10 ∧ (∀ call ∈ calls, 5 ≤ call.time) ∧
      (calls.Pairwise fun first second => first.time ≤ second.time) ∧
      InEpoch 5 10 2 28 ∧ (begun.after former).queue .highest ≠ [] ∧
      ((begun.after former).next 28).1 = none ∧
      sentIn 5 10 2 .highest (begun.departures calls) ≤ 1 ∧
      sentIn 5 10 2 .highest (begun.departures former) = 1 := by
  intro peer packet begun former calls
  have later : ∀ call ∈ calls, 5 ≤ call.time := by decide
  have ordered : calls.Pairwise fun first second => first.time ≤ second.time := by decide
  have inside : InEpoch 5 10 2 28 := by decide
  have waits : (begun.after former).queue .highest ≠ [] := by decide
  have held : ((begun.after former).next 28).1 = none := by decide
  obtain ⟨within, spent⟩ :=
    @budgets_kept ⟨1, 1, 1⟩ 10 30 5 calls (by decide) later ordered
  refine ⟨by decide, later, ordered, inside, waits, held, within 2 .highest, ?_⟩
  apply spent former 28 [] rfl 2 inside .highest waits
  intro item given
  exact absurd (held.symm.trans given) (Option.some_ne_none item).symm

end Schedule

end ClusterOverlay
