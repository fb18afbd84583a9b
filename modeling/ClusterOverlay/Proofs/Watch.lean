import ClusterOverlay.Watch

/-!
# What a watch remembers

A watch is described by the time that it has for each peer.  Following a scope
leaves the peers that stay in it their times, and gives newcomers the present one:
`Watch.find?_follow`.  A scan gives nobody up without a report,
`Watch.contains_or_mem_of_scan`.
-/

namespace ClusterOverlay

namespace Table

variable {κ υ : Type} [DecidableEq κ]

theorem contains_iff {table : Table κ υ} {key : κ} :
    table.contains key = true ↔ ∃ value, table.find? key = some value :=
  Option.isSome_iff_exists

/-- Sorting out keys leaves the others their values. -/
theorem find?_filter_keys (table : Table κ υ) (test : κ → Bool) (key : κ) :
    (⟨table.entries.filter (test ·.1)⟩ : Table κ υ).find? key =
      if test key then table.find? key else none := by
  simp only [find?, List.find?_filter]
  by_cases passes : test key
  · rw [if_pos passes]
    congr 2
    funext entry
    by_cases same : entry.1 = key
    · simp [same, passes]
    · simp [same]
  · rw [if_neg passes, Option.map_eq_none_iff, List.find?_eq_none]
    intro entry _
    by_cases same : entry.1 = key
    · simp [same, passes]
    · simp [same]

end Table

namespace Watch

variable {watch : Watch} {now : Nat} {peer : Peer}

theorem contains_iff : watch.contains peer = true ↔
    ∃ lastSeen, watch.lastSeen.find? peer = some lastSeen :=
  Table.contains_iff

/-! ## Following a scope -/

theorem find?_add (watch : Watch) (now : Nat) (peer other : Peer) :
    (watch.add now peer).lastSeen.find? other =
      if other = peer then some now else watch.lastSeen.find? other := by
  by_cases same : other = peer
  · subst same
    rw [if_pos rfl]
    exact Table.find?_insert_self ..
  · rw [if_neg same]
    exact Table.find?_insert_of_ne same

/-- Newcomers start now; whoever is under watch already keeps the time. -/
theorem find?_foldl_add (watch : Watch) (now : Nat) (scope : List Peer) (peer : Peer) :
    (scope.foldl (fun watch peer => if watch.contains peer then watch else watch.add now peer)
        watch).lastSeen.find? peer =
      if peer ∈ scope then some ((watch.lastSeen.find? peer).getD now)
      else watch.lastSeen.find? peer := by
  induction scope generalizing watch with
  | nil => rfl
  | cons first rest inductionHypothesis =>
      rw [List.foldl_cons, inductionHypothesis]
      by_cases known : watch.contains first
      · rw [if_pos known]
        obtain ⟨lastSeen, seen⟩ := contains_iff.mp known
        by_cases same : peer = first
        · subst same
          simp [seen]
        · simp [same]
      · rw [if_neg known, find?_add]
        have unseen : watch.lastSeen.find? first = none := by
          simpa [contains, Table.contains] using known
        by_cases same : peer = first
        · subst same
          simp [unseen]
        · simp [same]

/-- Following a scope, a watch has a time for exactly the peers in it: the one that it
had before, and the present one for newcomers. -/
theorem find?_follow (watch : Watch) (now : Nat) (scope : List Peer) (peer : Peer) :
    (watch.follow now scope).lastSeen.find? peer =
      if peer ∈ scope then some ((watch.lastSeen.find? peer).getD now) else none := by
  unfold follow
  rw [find?_foldl_add, Table.find?_filter_keys watch.lastSeen scope.contains]
  by_cases inside : peer ∈ scope
  · simp [inside]
  · simp [inside]

theorem contains_follow_iff {scope : List Peer} :
    (watch.follow now scope).contains peer = true ↔ peer ∈ scope := by
  rw [contains_iff, find?_follow]
  by_cases inside : peer ∈ scope
  · simp [inside]
  · simp [inside]

/-! ## Hearing of peers -/

/-- Whoever is heard of, the same peers are under watch. -/
theorem contains_refresh (watch : Watch) (now : Nat) (peer other : Peer) :
    (watch.refresh now peer).contains other = watch.contains other := by
  unfold refresh
  split
  · next known =>
      rw [contains, Table.contains, find?_add]
      by_cases same : other = peer
      · subst same
        rw [if_pos rfl, known]
        rfl
      · rw [if_neg same]
        rfl
  · rfl

/-! ## Scans -/

/-- A scan adds nobody. -/
theorem contains_of_scan (kept : (watch.scan now).2.contains peer) : watch.contains peer := by
  obtain ⟨lastSeen, seen⟩ := contains_iff.mp kept
  have listed := Table.mem_keys_iff.mpr ⟨lastSeen, seen⟩
  obtain ⟨entry, entryMem, rfl⟩ := List.mem_map.mp listed
  have entryMem : entry ∈ watch.lastSeen.entries := (List.mem_filter.mp entryMem).1
  exact contains_iff.mpr (Table.mem_keys_iff.mp (List.mem_map.mpr ⟨entry, entryMem, rfl⟩))

/-- Whoever is under watch stays so or is reported. -/
theorem contains_or_mem_of_scan (watched : watch.contains peer) (now : Nat) :
    (watch.scan now).2.contains peer ∨ peer ∈ (watch.scan now).1 := by
  have listed := Table.mem_keys_iff.mpr (contains_iff.mp watched)
  obtain ⟨entry, entryMem, rfl⟩ := List.mem_map.mp listed
  by_cases overdue : watch.isOverdue now entry.2
  · refine .inr (Peer.mem_ascending.mpr (List.mem_map.mpr ⟨entry, ?_, rfl⟩))
    exact List.mem_filter.mpr ⟨entryMem, overdue⟩
  · refine .inl (contains_iff.mpr (Table.mem_keys_iff.mp (List.mem_map.mpr ⟨entry, ?_, rfl⟩)))
    exact List.mem_filter.mpr ⟨entryMem, by simpa using overdue⟩

end Watch

end ClusterOverlay
