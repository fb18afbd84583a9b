import Mathlib.Data.List.Induction
import Mathlib.Data.List.Nodup
import Mathlib.Data.List.Perm.Subperm
import ClusterOverlay.Proofs.Reassembly.Calls

/-!
# Windows

The *window* of a message lists the fragments of it that arrived since
reassembly of the message last began.  It begins anew when the fragments change
their number, when the message is forgotten, and when it is complete, that is,
when every index occurs in the window.  `Tracks.after` says that what is
kept of the message is at all times what its window makes of it, and
`Tracks.answer_of_own` that the message is given out when its window is full.
-/

namespace ClusterOverlay

namespace Reassembly

/-- A fragment and the time of its arrival. -/
structure Arrival where
  time : Nat
  fragment : Packet
  deriving DecidableEq, Repr

/-- The fragments of one message since its reassembly last began, oldest
first. -/
abbrev Window := List Arrival

namespace Window

/-- The latest copy of each fragment. -/
def pieces (window : Window) : Table UInt32 Packet :=
  window.foldl (fun pieces arrival => pieces.insert arrival.fragment.index arrival.fragment)
    .empty

/-- The message that a window makes, if there is anything in it. -/
def message? (window : Window) : Option Partial :=
  window.head?.map fun first => ⟨first.fragment.count, window.pieces, first.time⟩

/-- Every index below the number of fragments occurs. -/
def isFull (window : Window) (count : UInt32) : Bool :=
  (List.range count.toNat).all fun index =>
    window.any fun arrival => arrival.fragment.index.toNat = index

/-- What is left of a window once what is too old is forgotten. -/
def sweep (window : Window) (ttl now : Nat) : Window :=
  match window.head? with
  | some first => if now - first.time < ttl then window else []
  | none => []

/-- A window with a fragment added.  One whose number of fragments is another
begins anew. -/
def extend (window : Window) (now : Nat) (fragment : Packet) : Window :=
  if window.all fun arrival => arrival.fragment.count = fragment.count then
    window ++ [⟨now, fragment⟩]
  else
    [⟨now, fragment⟩]

/-- What a call makes of the window of a message. -/
def next (key : UInt32 × Endpoint) (ttl : Nat) (window : Window) (call : Call) : Window :=
  if call.sweeps then
    match call.own? key with
    | some fragment =>
        let full := (window.sweep ttl call.time).extend call.time fragment
        if full.isFull fragment.count then [] else full
    | none => window.sweep ttl call.time
  else
    window

/-! ## Pieces -/

@[simp]
theorem pieces_concat (window : Window) (arrival : Arrival) :
    pieces (window ++ [arrival]) =
      window.pieces.insert arrival.fragment.index arrival.fragment := by
  simp [pieces]

theorem distinct_pieces (window : Window) : window.pieces.Distinct := by
  induction window using List.reverseRecOn with
  | nil => exact Table.distinct_empty
  | append_singleton earlier arrival inductionHypothesis =>
      rw [pieces_concat]
      exact Table.distinct_insert inductionHypothesis _ _

/-- The piece kept for an index is its latest copy. -/
theorem find?_pieces (window : Window) (index : UInt32) :
    window.pieces.find? index =
      (window.reverse.find? fun arrival => arrival.fragment.index = index).map
        Arrival.fragment := by
  induction window using List.reverseRecOn with
  | nil => rfl
  | append_singleton earlier arrival inductionHypothesis =>
      rw [pieces_concat, List.reverse_append]
      by_cases same : arrival.fragment.index = index
      · subst same
        simp
      · rw [Table.find?_insert_of_ne (Ne.symm same), inductionHypothesis]
        simp [same]

theorem mem_keys_pieces_iff {window : Window} {index : UInt32} :
    index ∈ window.pieces.keys ↔ ∃ arrival ∈ window, arrival.fragment.index = index := by
  rw [Table.mem_keys_iff]
  simp only [find?_pieces, Option.map_eq_some_iff]
  constructor
  · rintro ⟨_, arrival, found, _⟩
    have mem := List.mem_of_find?_eq_some found
    exact ⟨arrival, List.mem_reverse.mp mem, by simpa using List.find?_some found⟩
  · rintro ⟨arrival, arrivalMem, same⟩
    have found : (window.reverse.find? fun other => other.fragment.index = index).isSome := by
      rw [List.find?_isSome]
      exact ⟨arrival, List.mem_reverse.mpr arrivalMem, decide_eq_true same⟩
    rcases Option.isSome_iff_exists.mp found with ⟨latest, latestEq⟩
    exact ⟨_, latest, latestEq, rfl⟩

/-- Each piece has an index of its own below the number of fragments. -/
theorem keys_pieces_subperm {window : Window} {count : UInt32}
    (inRange : ∀ arrival ∈ window, arrival.fragment.index < count) :
    (window.pieces.keys.map UInt32.toNat).Subperm (List.range count.toNat) := by
  have distinct : (window.pieces.keys.map UInt32.toNat).Nodup :=
    List.Nodup.map (fun _ _ => UInt32.toNat_inj.mp) window.distinct_pieces
  refine distinct.subperm ?_
  intro place placeMem
  rcases List.mem_map.mp placeMem with ⟨index, indexMem, rfl⟩
  rcases mem_keys_pieces_iff.mp indexMem with ⟨arrival, arrivalMem, rfl⟩
  exact List.mem_range.mpr (UInt32.lt_iff_toNat_lt.mp (inRange arrival arrivalMem))

theorem length_keys_pieces (window : Window) :
    (window.pieces.keys.map UInt32.toNat).length = window.pieces.size := by
  simp [Table.size, Table.keys]

/-- As many pieces as there are indices means that every index has a piece. -/
theorem size_pieces_eq_iff {window : Window} {count : UInt32}
    (inRange : ∀ arrival ∈ window, arrival.fragment.index < count) :
    window.pieces.size = count.toNat ↔ window.isFull count = true := by
  have bounded := keys_pieces_subperm inRange
  have fullIff : window.isFull count = true ↔
      List.range count.toNat ⊆ window.pieces.keys.map UInt32.toNat := by
    simp only [isFull, List.all_eq_true, List.any_eq_true, decide_eq_true_iff, List.subset_def,
      List.mem_map, mem_keys_pieces_iff, exists_exists_and_eq_and]
  rw [← length_keys_pieces, fullIff]
  constructor
  · intro same
    have perm := bounded.perm_of_length_le (by simp [same])
    exact perm.symm.subset
  · intro covered
    have upper := bounded.length_le
    have lower := (List.nodup_range.subperm covered).length_le
    rw [List.length_range] at upper lower
    exact Nat.le_antisymm upper lower

/-! ## Well-formed windows -/

/-- A window holds fragments of one message that agree on their number. -/
structure Proper (key : UInt32 × Endpoint) (window : Window) : Prop where
  fits : ∀ arrival ∈ window, Fits key arrival.fragment
  agreed : ∀ first ∈ window, ∀ second ∈ window, first.fragment.count = second.fragment.count

theorem proper_nil (key : UInt32 × Endpoint) : Proper key [] := by
  constructor <;> simp

theorem Proper.sweep {key : UInt32 × Endpoint} {window : Window} (proper : Proper key window)
    (ttl now : Nat) : Proper key (window.sweep ttl now) := by
  unfold Window.sweep
  split
  · split
    · exact proper
    · exact proper_nil key
  · exact proper_nil key

/-- After a fragment was added, all agree with it on their number. -/
theorem count_eq_of_mem_extend {window : Window} {now : Nat} {fragment : Packet}
    {arrival : Arrival} (arrivalMem : arrival ∈ window.extend now fragment) :
    arrival.fragment.count = fragment.count := by
  unfold extend at arrivalMem
  split at arrivalMem
  · next same =>
      rcases List.mem_append.mp arrivalMem with earlier | last
      · exact of_decide_eq_true (List.all_eq_true.mp same arrival earlier)
      · rw [List.mem_singleton.mp last]
  · rw [List.mem_singleton.mp arrivalMem]

/-- A fragment is added to what was there, or begins anew. -/
theorem mem_or_eq_of_mem_extend {window : Window} {now : Nat} {fragment : Packet}
    {arrival : Arrival} (arrivalMem : arrival ∈ window.extend now fragment) :
    arrival ∈ window ∨ arrival = ⟨now, fragment⟩ := by
  unfold extend at arrivalMem
  split at arrivalMem
  · rcases List.mem_append.mp arrivalMem with earlier | last
    · exact .inl earlier
    · exact .inr (List.mem_singleton.mp last)
  · exact .inr (List.mem_singleton.mp arrivalMem)

theorem Proper.extend {key : UInt32 × Endpoint} {window : Window} (proper : Proper key window)
    (now : Nat) {fragment : Packet} (fits : Fits key fragment) :
    Proper key (window.extend now fragment) := by
  constructor
  · intro arrival arrivalMem
    rcases mem_or_eq_of_mem_extend arrivalMem with earlier | rfl
    · exact proper.fits arrival earlier
    · exact fits
  · intro first firstMem second secondMem
    rw [count_eq_of_mem_extend firstMem, count_eq_of_mem_extend secondMem]

/-! ## The message of a window -/

theorem message?_sweep (window : Window) (ttl now : Nat) :
    window.message?.filter (·.isFresh ttl now) = (window.sweep ttl now).message? := by
  cases window with
  | nil => rfl
  | cons first later =>
      by_cases young : now - first.time < ttl
      · simp [message?, Window.sweep, Partial.isFresh, young]
      · simpa [message?, Window.sweep, Partial.isFresh, young] using Nat.not_lt.mp young

/-- Adding a fragment to a message is adding it to the window. -/
theorem message?_extend {key : UInt32 × Endpoint} {window : Window}
    (proper : Proper key window) (now : Nat) (fragment : Packet) :
    (window.extend now fragment).message? =
      some (Partial.taking window.message? now fragment) := by
  cases window with
  | nil => simp [extend, message?, pieces, Partial.taking, Partial.add, Partial.start]
  | cons first later =>
      by_cases same : first.fragment.count = fragment.count
      · have all : (first :: later).all
            (fun arrival => arrival.fragment.count = fragment.count) = true := by
          rw [List.all_eq_true]
          intro arrival arrivalMem
          exact decide_eq_true ((proper.agreed _ arrivalMem _ List.mem_cons_self).trans same)
        have piecesEq := pieces_concat (first :: later) ⟨now, fragment⟩
        rw [List.cons_append] at piecesEq
        rw [extend, if_pos all]
        simp [message?, piecesEq, Partial.taking, Partial.add, same]
      · have notAll : ¬ (first :: later).all
            (fun arrival => arrival.fragment.count = fragment.count) = true := by
          simp [same]
        rw [extend, if_neg notAll]
        simp [message?, pieces, Partial.taking, Partial.add, Partial.start, same]

/-- A message is complete if its window is full. -/
theorem isComplete_iff {key : UInt32 × Endpoint} {window : Window} (proper : Proper key window)
    {message : Partial} (messageEq : window.message? = some message) :
    message.isComplete = true ↔ window.isFull message.count = true := by
  cases window with
  | nil => simp [message?] at messageEq
  | cons first later =>
      rw [message?, List.head?_cons, Option.map_some, Option.some.injEq] at messageEq
      subst messageEq
      have inRange : ∀ arrival ∈ first :: later,
          arrival.fragment.index < first.fragment.count := by
        intro arrival arrivalMem
        rw [proper.agreed first List.mem_cons_self arrival arrivalMem]
        exact (proper.fits arrival arrivalMem).inRange
      rw [Partial.isComplete, decide_eq_true_iff]
      exact size_pieces_eq_iff inRange

end Window

/-! ## The slot of a window -/

/-- The reassembly keeps of the message with the given key what the window
makes of it. -/
structure Tracks (key : UInt32 × Endpoint) (reassembly : Reassembly) (window : Window) :
    Prop where
  distinct : reassembly.messages.Distinct
  proper : window.Proper key
  slotEq : reassembly.slot key = window.message?

namespace Tracks

variable {key : UInt32 × Endpoint} {reassembly : Reassembly} {window : Window}

theorem empty (key : UInt32 × Endpoint) (ttl : Nat) : Tracks key (.empty ttl) [] :=
  ⟨Table.distinct_empty, Window.proper_nil key, rfl⟩

/-- A fragment of the message makes it complete if the window is full with it. -/
theorem answer_of_own (tracks : Tracks key reassembly window) {call : Call} {fragment : Packet}
    (own : call.own? key = some fragment) {full : Window}
    (fullEq : (window.sweep reassembly.ttl call.time).extend call.time fragment = full) :
    (reassembly.answer call).1 =
        (if full.isFull fragment.count then full.message?.bind Partial.merge? else none) ∧
      (reassembly.answer call).2.slot key =
        if full.isFull fragment.count then none else full.message? := by
  have brings := own?_eq_some_iff.mp own
  have fits := (fragment?_eq_some_iff.mp brings).2
  have swept := tracks.proper.sweep reassembly.ttl call.time
  have messageEq := Window.message?_extend swept call.time fragment
  rw [fullEq, ← Window.message?_sweep, ← tracks.slotEq] at messageEq
  have complete := Window.isComplete_iff (fullEq ▸ swept.extend call.time fits) messageEq
  rw [Partial.count_taking] at complete
  rcases Reassembly.answer_of_own tracks.distinct brings rfl with ⟨given, left⟩
  rw [given, left, messageEq]
  by_cases isFull : full.isFull fragment.count = true
  · simp [isFull, complete.mpr isFull]
  · simp [isFull, mt complete.mp isFull]

/-- Every call does to the slot what it does to the window. -/
theorem answer (tracks : Tracks key reassembly window) (call : Call) :
    Tracks key (reassembly.answer call).2 (window.next key reassembly.ttl call) := by
  have swept := tracks.proper.sweep reassembly.ttl call.time
  have stillDistinct := (answer_keeps tracks.distinct call).2
  unfold Window.next
  cases sweeps : call.sweeps with
  | false =>
      rw [answer_of_not_sweeps sweeps]
      exact tracks
  | true =>
      rw [if_pos rfl]
      cases own : call.own? key with
      | none =>
          refine ⟨stillDistinct, swept, ?_⟩
          rw [slot_answer_of_foreign tracks.distinct sweeps, tracks.slotEq,
            Window.message?_sweep]
          intro fragment brings
          rw [own?_eq_some_iff.mpr brings] at own
          contradiction
      | some fragment =>
          have fits := (fragment?_eq_some_iff.mp (own?_eq_some_iff.mp own)).2
          have left := (tracks.answer_of_own own rfl).2
          dsimp only
          split
          · next full =>
              rw [if_pos full] at left
              exact ⟨stillDistinct, Window.proper_nil key, left⟩
          · next lacking =>
              rw [if_neg lacking] at left
              exact ⟨stillDistinct, swept.extend call.time fits, left⟩

/-- Any calls do to the slot what they do to the window. -/
theorem after (tracks : Tracks key reassembly window) (calls : List Call) :
    Tracks key (reassembly.after calls)
      (calls.foldl (Window.next key reassembly.ttl) window) := by
  induction calls generalizing reassembly window with
  | nil => exact tracks
  | cons call later inductionHypothesis =>
      have step := inductionHypothesis (tracks.answer call)
      rw [(answer_keeps tracks.distinct call).1] at step
      exact step

/-- Nothing is kept of a message whose window is empty, and only then. -/
theorem slot_eq_none_iff (tracks : Tracks key reassembly window) :
    reassembly.slot key = none ↔ window = [] := by
  rw [tracks.slotEq, Window.message?, Option.map_eq_none_iff, List.head?_eq_none_iff]

end Tracks

end Reassembly

end ClusterOverlay
