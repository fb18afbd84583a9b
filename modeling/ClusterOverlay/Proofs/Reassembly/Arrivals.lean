import ClusterOverlay.Proofs.Reassembly.Window

/-!
# Arrivals

A window never holds more than the fragments that arrived, and it holds all of
them as long as nothing is forgotten, nothing is complete, and the fragments
agree on their number: see `Window.mem_arrivals_of_mem_foldl_next` and
`Window.foldl_next_eq_arrivals`.
-/

namespace ClusterOverlay

namespace Reassembly

/-- The fragments that calls bring of the message with the given key, in
order. -/
def arrivals (key : UInt32 × Endpoint) (calls : List Call) : Window :=
  calls.filterMap fun call => (call.own? key).map (⟨call.time, ·⟩)

namespace Window

variable {key : UInt32 × Endpoint} {ttl : Nat} {calls : List Call} {call : Call}
variable {fragment : Packet} {arrival : Arrival}

@[simp]
theorem arrivals_nil (key : UInt32 × Endpoint) : arrivals key [] = [] :=
  rfl

theorem arrivals_concat_of_own (own : call.own? key = some fragment) :
    arrivals key (calls ++ [call]) = arrivals key calls ++ [⟨call.time, fragment⟩] := by
  simp [arrivals, own]

theorem arrivals_concat_of_foreign (foreign : call.own? key = none) :
    arrivals key (calls ++ [call]) = arrivals key calls := by
  simp [arrivals, foreign]

theorem mem_arrivals_iff :
    arrival ∈ arrivals key calls ↔
      ∃ call ∈ calls, call.own? key = some arrival.fragment ∧ call.time = arrival.time := by
  simp only [arrivals, List.mem_filterMap, Option.map_eq_some_iff]
  constructor
  · rintro ⟨call, callMem, fragment, own, rfl⟩
    exact ⟨call, callMem, own, rfl⟩
  · rintro ⟨call, callMem, own, timeEq⟩
    exact ⟨call, callMem, arrival.fragment, own, by rw [timeEq]⟩

/-- The piece kept for an index is the one that the last of the calls to bring
it has brought. -/
theorem find?_pieces_arrivals (index : UInt32) :
    (arrivals key calls).pieces.find? index =
      calls.reverse.findSome? fun call =>
        (call.own? key).filter fun fragment => fragment.index = index := by
  induction calls using List.reverseRecOn with
  | nil => rfl
  | append_singleton earlier call inductionHypothesis =>
      rw [List.reverse_append, List.reverse_singleton, List.singleton_append,
        List.findSome?_cons]
      cases own : call.own? key with
      | none =>
          rw [arrivals_concat_of_foreign own, inductionHypothesis]
          rfl
      | some fragment =>
          rw [arrivals_concat_of_own own, pieces_concat]
          by_cases same : fragment.index = index
          · subst same
            simp [Option.filter]
          · rw [Table.find?_insert_of_ne (Ne.symm same), inductionHypothesis]
            simp [Option.filter, same]

/-! ## What a window holds -/

theorem mem_of_mem_sweep {window : Window} {now : Nat}
    (arrivalMem : arrival ∈ window.sweep ttl now) : arrival ∈ window := by
  unfold sweep at arrivalMem
  split at arrivalMem
  · split at arrivalMem
    · exact arrivalMem
    · contradiction
  · contradiction

theorem mem_of_mem_next {window : Window} (arrivalMem : arrival ∈ window.next key ttl call) :
    arrival ∈ window ∨ call.own? key = some arrival.fragment ∧ call.time = arrival.time := by
  unfold next at arrivalMem
  split at arrivalMem
  · split at arrivalMem
    · next fragment own =>
        dsimp only at arrivalMem
        split at arrivalMem
        · contradiction
        · rcases mem_or_eq_of_mem_extend arrivalMem with earlier | rfl
          · exact .inl (mem_of_mem_sweep earlier)
          · exact .inr ⟨own, rfl⟩
    · exact .inl (mem_of_mem_sweep arrivalMem)
  · exact .inl arrivalMem

/-- A window holds nothing but what arrived. -/
theorem mem_arrivals_of_mem_foldl_next
    (arrivalMem : arrival ∈ calls.foldl (next key ttl) []) : arrival ∈ arrivals key calls := by
  induction calls using List.reverseRecOn with
  | nil => exact arrivalMem
  | append_singleton earlier call inductionHypothesis =>
      rw [List.foldl_concat] at arrivalMem
      rw [mem_arrivals_iff]
      rcases mem_of_mem_next arrivalMem with before | ⟨own, timeEq⟩
      · rcases mem_arrivals_iff.mp (inductionHypothesis before) with ⟨other, otherMem, brought⟩
        exact ⟨other, List.mem_append_left _ otherMem, brought⟩
      · exact ⟨call, List.mem_append_right _ List.mem_cons_self, own, timeEq⟩

/-- More fragments cover more indices. -/
theorem isFull_mono {smaller larger : Window} {count : UInt32} (subset : smaller ⊆ larger)
    (full : smaller.isFull count = true) : larger.isFull count = true := by
  simp only [isFull, List.all_eq_true, List.any_eq_true] at full ⊢
  intro index indexMem
  rcases full index indexMem with ⟨arrival, arrivalMem, same⟩
  exact ⟨arrival, subset arrivalMem, same⟩

theorem sweep_eq_self {window : Window} {now : Nat}
    (fresh : ∀ arrival ∈ window, now - arrival.time < ttl) : window.sweep ttl now = window := by
  unfold sweep
  cases window with
  | nil => rfl
  | cons first later => exact if_pos (fresh first List.mem_cons_self)

theorem extend_eq_concat {window : Window} {now : Nat}
    (agreed : ∀ arrival ∈ window, arrival.fragment.count = fragment.count) :
    window.extend now fragment = window ++ [⟨now, fragment⟩] := by
  refine if_pos (List.all_eq_true.mpr ?_)
  intro arrival arrivalMem
  exact decide_eq_true (agreed arrival arrivalMem)

theorem arrivals_subset_concat (key : UInt32 × Endpoint) (calls : List Call) (call : Call) :
    arrivals key calls ⊆ arrivals key (calls ++ [call]) := by
  intro arrival arrivalMem
  rcases mem_arrivals_iff.mp arrivalMem with ⟨other, otherMem, brought⟩
  exact mem_arrivals_iff.mpr ⟨other, List.mem_append_left _ otherMem, brought⟩

/-- As long as nothing is forgotten and nothing is complete, a window holds all
that arrived. -/
theorem foldl_next_eq_arrivals {count : UInt32}
    (agreed : ∀ arrival ∈ arrivals key calls, arrival.fragment.count = count)
    (fresh : ∀ call ∈ calls, ∀ arrival ∈ arrivals key calls, call.time - arrival.time < ttl)
    (lacking : (arrivals key calls).isFull count = false) :
    calls.foldl (next key ttl) [] = arrivals key calls := by
  induction calls using List.reverseRecOn with
  | nil => rfl
  | append_singleton earlier call inductionHypothesis =>
      have subset := arrivals_subset_concat key earlier call
      have before : earlier.foldl (next key ttl) [] = arrivals key earlier := by
        refine inductionHypothesis (fun arrival arrivalMem => agreed arrival (subset arrivalMem))
          ?_ ?_
        · intro other otherMem arrival arrivalMem
          exact fresh other (List.mem_append_left _ otherMem) arrival (subset arrivalMem)
        · exact Bool.eq_false_iff.mpr fun full => by simp [isFull_mono subset full] at lacking
      have kept : (arrivals key earlier).sweep ttl call.time = arrivals key earlier := by
        apply sweep_eq_self
        intro arrival arrivalMem
        exact fresh call (List.mem_append_right _ List.mem_cons_self) arrival (subset arrivalMem)
      rw [List.foldl_concat, before, next, kept]
      cases own : call.own? key with
      | none =>
          rw [arrivals_concat_of_foreign own]
          exact ite_self _
      | some fragment =>
          rw [arrivals_concat_of_own own] at agreed lacking ⊢
          have countEq : fragment.count = count := agreed ⟨call.time, fragment⟩ (by simp)
          have sameCount : ∀ arrival ∈ arrivals key earlier,
              arrival.fragment.count = fragment.count := by
            intro arrival arrivalMem
            rw [agreed arrival (List.mem_append_left _ arrivalMem), countEq]
          rw [if_pos (sweeps_of_own? own)]
          dsimp only
          rw [extend_eq_concat sameCount, countEq, lacking]
          exact if_neg Bool.false_ne_true

end Window

end Reassembly

end ClusterOverlay
