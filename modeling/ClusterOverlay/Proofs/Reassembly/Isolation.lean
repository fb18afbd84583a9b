import ClusterOverlay.Proofs.Reassembly.Calls

/-!
# Messages in reassembly do not disturb each other

Every fragment, whatever message it belongs to, makes a reassembly forget what
is too old, so the calls of other messages do change when the beginning of a
message disappears.  They never change what is given out: `undisturbed` compares
a run with the run of the calls of one message alone.

The two runs need not keep the same of the message.  The run with all calls may
have forgotten what the other run still holds, and `Alike` therefore compares
only what is fresh.  What a fragment finds is never more than that, and what is
fresh later is fresh already, so the comparison survives every call at its time.
-/

namespace ClusterOverlay

namespace Partial

/-- What is fresh later is fresh already. -/
theorem filter_isFresh_of_le {ttl earlier later : Nat} (le : earlier ≤ later)
    (message : Option Partial) :
    (message.filter (·.isFresh ttl earlier)).filter (·.isFresh ttl later) =
      message.filter (·.isFresh ttl later) := by
  rw [Option.filter_filter]
  congr 1
  funext message
  rw [Bool.eq_iff_iff]
  simp only [isFresh, Bool.and_eq_true, decide_eq_true_eq]
  omega

end Partial

namespace Reassembly

variable {key : UInt32 × Endpoint}

/-! ## Calls of a message -/

/-- The message that a call is about: the id in its packet, and who sent it.
Bytes that are no packet, and the call to forget, are about none. -/
def Call.key? (call : Call) : Option (UInt32 × Endpoint) :=
  call.packet?.map fun (sender, packet) => (packet.messageId, sender)

theorem Call.key?_of_fragment? {call : Call} {fragment : Packet}
    (brings : call.fragment? = some (key, fragment)) : call.key? = some key := by
  obtain ⟨packetEq, fits⟩ := fragment?_eq_some_iff.mp brings
  simp [Call.key?, packetEq, fits.ownId]

/-- What a reassembly gives out at each of some calls. -/
def answers (reassembly : Reassembly) : List Call → List (Option Packet)
  | [] => []
  | call :: later => (reassembly.answer call).1 :: (reassembly.answer call).2.answers later

/-- What a reassembly gives out, of some calls, at those of one message. -/
def answersTo (key : UInt32 × Endpoint) (reassembly : Reassembly) :
    List Call → List (Option Packet)
  | [] => []
  | call :: later =>
      if call.key? = some key then
        (reassembly.answer call).1 :: (reassembly.answer call).2.answersTo key later
      else
        (reassembly.answer call).2.answersTo key later

/-- What is given out at a call that brings no fragment does not depend on what is
kept. -/
theorem answer_eq_of_fragment?_eq_none {call : Call} (quiet : call.fragment? = none)
    (left right : Reassembly) : (left.answer call).1 = (right.answer call).1 := by
  cases brought : call.packet? with
  | none =>
      cases call with
      | bytes now sender raw =>
          simp only [Call.packet?] at brought
          split at brought
          · contradiction
          · next unread => simp only [answer, acceptRaw, unread]
      | decoded now sender packet => simp [Call.packet?] at brought
      | evict now => rfl
  | some pair =>
      rcases pair with ⟨sender, packet⟩
      rw [answer_eq_accept brought, answer_eq_accept brought, accept, accept]
      split
      · rfl
      next inRange =>
      split
      · next long =>
          have brings : call.fragment? = some ((packet.messageId, sender), packet) :=
            fragment?_eq_some_iff.mpr ⟨brought, rfl, UInt32.not_le.mp inRange, long⟩
          rw [quiet] at brings
          contradiction
      · rfl

/-! ## Two runs -/

/-- Two reassemblies hold the same of a message, as far as it is fresh. -/
structure Alike (key : UInt32 × Endpoint) (now : Nat) (left right : Reassembly) : Prop where
  ttlEq : left.ttl = right.ttl
  leftDistinct : left.messages.Distinct
  rightDistinct : right.messages.Distinct
  slotEq : (left.slot key).filter (·.isFresh left.ttl now) =
    (right.slot key).filter (·.isFresh right.ttl now)

namespace Alike

variable {now : Nat} {left right : Reassembly}

theorem later (alike : Alike key now left right) {later : Nat} (le : now ≤ later) :
    Alike key later left right := by
  refine ⟨alike.ttlEq, alike.leftDistinct, alike.rightDistinct, ?_⟩
  rw [← Partial.filter_isFresh_of_le le, alike.slotEq, alike.ttlEq,
    Partial.filter_isFresh_of_le le]

/-- A call of the message gives out the same on both sides, and leaves both sides
alike. -/
theorem answer_of_own {call : Call} (alike : Alike key call.time left right)
    (own : call.key? = some key) :
    (left.answer call).1 = (right.answer call).1 ∧
      Alike key call.time (left.answer call).2 (right.answer call).2 := by
  obtain ⟨leftTtl, leftDistinct⟩ := answer_keeps alike.leftDistinct call
  obtain ⟨rightTtl, rightDistinct⟩ := answer_keeps alike.rightDistinct call
  have ttlEq := (leftTtl.trans alike.ttlEq).trans rightTtl.symm
  cases brought : call.fragment? with
  | none =>
      have quiet : call.sweeps = false := by
        cases call with
        | bytes now sender raw => simp [Call.sweeps, brought]
        | decoded now sender packet => simp [Call.sweeps, brought]
        | evict now => simp [Call.key?, Call.packet?] at own
      refine ⟨answer_eq_of_fragment?_eq_none brought left right, ?_⟩
      rw [answer_of_not_sweeps quiet, answer_of_not_sweeps quiet]
      exact alike
  | some pair =>
      rcases pair with ⟨other, fragment⟩
      have same : other = key :=
        Option.some.inj ((Call.key?_of_fragment? brought).symm.trans own)
      subst same
      obtain ⟨leftGiven, leftSlot⟩ := Reassembly.answer_of_own alike.leftDistinct brought rfl
      obtain ⟨rightGiven, rightSlot⟩ := Reassembly.answer_of_own alike.rightDistinct brought rfl
      rw [alike.slotEq] at leftGiven leftSlot
      refine ⟨leftGiven.trans rightGiven.symm, ttlEq, leftDistinct, rightDistinct, ?_⟩
      rw [leftSlot, rightSlot, ttlEq]

/-- A call that is not of the message, made on one side alone, leaves both sides
alike. -/
theorem answer_of_foreign {call : Call} (alike : Alike key call.time left right)
    (foreign : call.key? ≠ some key) : Alike key call.time (left.answer call).2 right := by
  obtain ⟨leftTtl, leftDistinct⟩ := answer_keeps alike.leftDistinct call
  cases sweeps : call.sweeps with
  | false =>
      rw [answer_of_not_sweeps sweeps]
      exact alike
  | true =>
      have swept := slot_answer_of_foreign alike.leftDistinct sweeps fun fragment brings =>
        foreign (Call.key?_of_fragment? brings)
      refine ⟨leftTtl.trans alike.ttlEq, leftDistinct, alike.rightDistinct, ?_⟩
      rw [swept, leftTtl, Partial.filter_isFresh_of_le (Nat.le_refl _), alike.slotEq]

/-- Runs that begin alike, one of them with the calls of the message alone, give
out the same at these calls. -/
theorem answersTo_eq (alike : Alike key now left right) {calls : List Call}
    (due : ∀ call ∈ calls, now ≤ call.time)
    (ordered : calls.Pairwise fun first second => first.time ≤ second.time) :
    left.answersTo key calls = right.answers (calls.filter (·.key? = some key)) := by
  induction calls generalizing now left right with
  | nil => rfl
  | cons call later inductionHypothesis =>
      obtain ⟨first, laterOrdered⟩ := List.pairwise_cons.mp ordered
      have here := alike.later (due call List.mem_cons_self)
      by_cases own : call.key? = some key
      · obtain ⟨given, stillAlike⟩ := here.answer_of_own own
        rw [answersTo, if_pos own, List.filter_cons_of_pos (by simpa using own), answers, given,
          inductionHypothesis stillAlike first laterOrdered]
      · rw [answersTo, if_neg own, List.filter_cons_of_neg (by simpa using own),
          inductionHypothesis (here.answer_of_foreign own) first laterOrdered]

end Alike

/-- Whatever else is asked of a reassembly, what it gives out at the calls of a
message is what it would give out if they were all. -/
theorem undisturbed (ttl : Nat) (key : UInt32 × Endpoint) {calls : List Call}
    (ordered : calls.Pairwise fun first second => first.time ≤ second.time) :
    (empty ttl).answersTo key calls =
      (empty ttl).answers (calls.filter (·.key? = some key)) := by
  have alike : Alike key 0 (empty ttl) (empty ttl) :=
    ⟨rfl, Table.distinct_empty, Table.distinct_empty, rfl⟩
  exact alike.answersTo_eq (fun call _ => Nat.zero_le call.time) ordered

/-- Another sender uses the same id, bytes that are no packet arrive, and a call
to forget makes the beginning of the message disappear that the run of its own
calls still holds; its fragments even disagree on their number. -/
theorem undisturbed_sameId :
    let own : Endpoint := ⟨⟨10, 0, 0, 1⟩, 41000⟩
    let other : Endpoint := ⟨⟨10, 0, 0, 2⟩, 41000⟩
    let fragment (index count : UInt32) (payload : Bytes) : Packet :=
      ⟨.use, 0, .chat, .data, false, ⟨⟨10, 0, 0, 9⟩, 9000⟩, 7, index, count, payload⟩
    let calls : List Call := [.decoded 0 own (fragment 0 2 [1]),
      .bytes 50 other (fragment 0 2 [9]).encode, .bytes 60 own [1, 2, 3], .evict 100,
      .decoded 110 other (fragment 1 2 [8]), .bytes 120 own (fragment 1 2 [2]).encode,
      .decoded 130 own (fragment 5 2 [6]), .decoded 140 own (fragment 0 3 [4]),
      .decoded 150 own (fragment 1 2 [2]), .decoded 160 own (fragment 0 2 [1])]
    (calls.Pairwise fun first second => first.time ≤ second.time) ∧
      (empty 100).answersTo (7, own) calls =
        (empty 100).answers (calls.filter (·.key? = some (7, own))) ∧
      (empty 100).answersTo (7, own) calls =
        [none, none, none, none, none, some (fragment 0 1 [1, 2])] := by
  intro own other fragment calls
  have ordered : calls.Pairwise fun first second => first.time ≤ second.time := by
    decide +kernel
  exact ⟨ordered, undisturbed 100 (7, own) ordered, by decide +kernel⟩

end Reassembly

end ClusterOverlay
