import ClusterOverlay.Proofs.Reassembly.Isolation
import ClusterOverlay.Proofs.Reassembly.RoundTrip

/-!
# Fragments that arrive once

A message is not complete before as many fragments of it have arrived as it has.
So if every fragment arrives exactly once, and they come soon one after another,
the message is given out with the last of them and nothing is given out before:
`Shipment.answers_of_once`.
-/

namespace ClusterOverlay

namespace Reassembly

theorem answers_concat (reassembly : Reassembly) (calls : List Call) (last : Call) :
    reassembly.answers (calls ++ [last]) =
      reassembly.answers calls ++ [((reassembly.after calls).answer last).1] := by
  induction calls generalizing reassembly with
  | nil => rfl
  | cons call later inductionHypothesis =>
      rw [List.cons_append, answers, inductionHypothesis]
      rfl

/-- A full window is no shorter than the message. -/
theorem Window.toNat_le_length_of_isFull {window : Window} {count : UInt32}
    (full : window.isFull count = true) : count.toNat ≤ window.length := by
  simp only [isFull, List.all_eq_true, List.any_eq_true, decide_eq_true_eq] at full
  have covered : List.range count.toNat ⊆ window.map (·.fragment.index.toNat) := by
    intro index indexMem
    rcases full index indexMem with ⟨arrival, arrivalMem, rfl⟩
    exact List.mem_map_of_mem arrivalMem
  have shorter := (List.subperm_of_subset List.nodup_range covered).length_le
  rwa [List.length_range, List.length_map] at shorter

namespace Shipment

variable {shipment : Shipment} {ttl : Nat} {calls : List Call} {last : Call}

theorem alone_of_brings (brings : ∀ call ∈ calls, shipment.Brings call) :
    shipment.Alone calls :=
  fun call callMem _ _ => brings call callMem

/-- Fewer fragments than there are do not make a shipment complete. -/
theorem lacking_of_length_lt (few : shipment.size < UInt32.size) (several : 1 < shipment.size)
    (brings : ∀ call ∈ calls, shipment.Brings call) (short : calls.length < shipment.size) :
    ¬ shipment.Complete calls := by
  intro complete
  have countEq : (UInt32.ofNat shipment.size).toNat = shipment.size := Nat.mod_eq_of_lt few
  have full := (complete_iff few several (alone_of_brings brings) countEq).mp complete
  have long := Window.toNat_le_length_of_isFull full
  rw [countEq] at long
  have fewer : (arrivals shipment.key calls).length ≤ calls.length :=
    List.length_filterMap_le _ calls
  omega

/-- What is given out with a fragment before which the shipment is not complete: the packet if
this one makes it complete, and otherwise nothing. -/
theorem answer_of_brings (few : shipment.size < UInt32.size) (several : 1 < shipment.size)
    (brings : ∀ call ∈ calls ++ [last], shipment.Brings call)
    (ordered : (calls ++ [last]).Pairwise fun first second => first.time ≤ second.time)
    (prompt : ∀ call ∈ calls, last.time < call.time + ttl) (lacking : ¬ shipment.Complete calls) :
    let given := (((Reassembly.empty ttl).after calls).answer last).1
    (¬ shipment.Complete (calls ++ [last]) → given = none) ∧
      (shipment.Complete (calls ++ [last]) →
        ∃ route, given = some { shipment.packet with
          route, messageId := shipment.messageId, index := 0, count := 1 }) := by
  intro given
  have alone := alone_of_brings brings
  have lastMem : last ∈ calls ++ [last] := List.mem_append_right _ List.mem_cons_self
  obtain ⟨original, originalMem, copies⟩ := brings last lastMem
  obtain ⟨_, own⟩ := exists_own few several originalMem copies
  have countEq := toNat_count_of_own few alone lastMem own
  have idle : ((Reassembly.empty ttl).after []).slot shipment.key = none := rfl
  obtain ⟨ttlEq, tracks⟩ := tracks_of_idle idle calls
  have windowEq := extend_eq_arrivals few several alone ordered
    (fun call callMem _ => prompt call callMem) own lacking
  have givenEq := (tracks.answer_of_own own rfl).1
  rw [ttlEq, windowEq] at givenEq
  have fullIff := complete_iff few several alone countEq
  constructor
  · intro still
    rw [if_neg (mt fullIff.mpr still)] at givenEq
    exact givenEq
  · intro complete
    rw [if_pos (fullIff.mp complete)] at givenEq
    obtain ⟨route, _, merged⟩ := merge?_of_complete few several alone complete
    exact ⟨route, givenEq.trans merged⟩

/-- As long as there are fewer fragments than there are in all, nothing is given out. -/
theorem answers_of_length_lt (few : shipment.size < UInt32.size) (several : 1 < shipment.size)
    (brings : ∀ call ∈ calls, shipment.Brings call)
    (ordered : calls.Pairwise fun first second => first.time ≤ second.time)
    (prompt : calls.Pairwise fun first second => second.time < first.time + ttl)
    (short : calls.length < shipment.size) :
    (Reassembly.empty ttl).answers calls = List.replicate calls.length none := by
  induction calls using List.reverseRecOn with
  | nil => rfl
  | append_singleton calls last inductionHypothesis =>
      obtain ⟨promptBefore, _, promptLast⟩ := List.pairwise_append.mp prompt
      have bringsBefore : ∀ call ∈ calls, shipment.Brings call := fun call callMem =>
        brings call (List.mem_append_left _ callMem)
      have still : ¬ shipment.Complete (calls ++ [last]) :=
        lacking_of_length_lt few several brings short
      rw [List.length_append, List.length_singleton] at short
      have before := inductionHypothesis bringsBefore (List.pairwise_append.mp ordered).1
        promptBefore (by omega)
      have lacking : ¬ shipment.Complete calls :=
        lacking_of_length_lt few several bringsBefore (by omega)
      have given := (answer_of_brings few several brings ordered
        (fun call callMem => promptLast call callMem last List.mem_cons_self) lacking).1 still
      rw [answers_concat, before, given, List.length_append, List.length_singleton,
        List.replicate_succ']

/-- If every fragment arrives once, and all of them within the limit, the packet is given out
with the last, and nothing before. -/
theorem answers_of_once (few : shipment.size < UInt32.size)
    (brings : ∀ call ∈ calls, shipment.Brings call) (complete : shipment.Complete calls)
    (once : calls.length = shipment.size)
    (ordered : calls.Pairwise fun first second => first.time ≤ second.time)
    (prompt : calls.Pairwise fun first second => second.time < first.time + ttl) :
    ∃ route, (Reassembly.empty ttl).answers calls =
      List.replicate (shipment.size - 1) none ++ [some { shipment.packet with
        route, messageId := shipment.messageId, index := 0, count := 1 }] := by
  rcases List.eq_nil_or_concat calls with rfl | ⟨earlier, last, rfl⟩
  · have positive := shipment.size_pos
    rw [← once] at positive
    contradiction
  rw [List.concat_eq_append] at *
  have lastMem : last ∈ earlier ++ [last] := List.mem_append_right _ List.mem_cons_self
  obtain ⟨promptBefore, _, promptLast⟩ := List.pairwise_append.mp prompt
  have bringsBefore : ∀ call ∈ earlier, shipment.Brings call := fun call callMem =>
    brings call (List.mem_append_left _ callMem)
  have lengthEq : earlier.length = shipment.size - 1 := by
    rw [← once, List.length_append, List.length_singleton, Nat.add_sub_cancel]
  rcases Nat.lt_or_eq_of_le (Nat.succ_le_of_lt shipment.size_pos) with several | single
  · have short : earlier.length < shipment.size := by omega
    have silent := answers_of_length_lt few several bringsBefore (List.pairwise_append.mp ordered).1
      promptBefore short
    obtain ⟨route, given⟩ := (answer_of_brings few several brings ordered
      (fun call callMem => promptLast call callMem last List.mem_cons_self)
      (lacking_of_length_lt few several bringsBefore short)).2 complete
    exact ⟨route, by rw [answers_concat, silent, given, lengthEq]⟩
  -- a packet of one fragment is never kept, so the case above does not apply to it
  · have nothing : earlier = [] := by
      apply List.length_eq_zero_iff.mp
      omega
    subst nothing
    obtain ⟨route, _, given⟩ : ∃ route, shipment.LatestRoute ([] ++ [last]) route ∧ _ :=
      answer_of_size_eq_one single.symm (brings last lastMem) (Reassembly.empty ttl)
    exact ⟨route, by rw [← single, List.nil_append, answers, given]; rfl⟩

end Shipment

end Reassembly

end ClusterOverlay
