import ClusterOverlay.Proofs.Reassembly.Shipment

/-!
# Completion

A message is given out by the call that makes its window full, and by no other; it is made of
the latest copy of each fragment in the window.  A window holds the last of what arrived, and
begins anew when it is full.  Hence nothing that arrived is in two messages that are given
out, and what is kept of a message always lacks something:
`Reassembly.given_iff_full`.
-/

namespace ClusterOverlay

namespace Reassembly

namespace Window

variable {key : UInt32 × Endpoint} {ttl now : Nat} {window arrived : Window} {fragment : Packet}
variable {count : UInt32} {message : Partial}

/-! ## The message of a full window -/

/-- The latest copy of the fragment with an index. -/
def latest? (window : Window) (index : Nat) : Option Packet :=
  (window.reverse.find? fun arrival => arrival.fragment.index.toNat = index).map Arrival.fragment

theorem find?_pieces_eq_latest? (window : Window) (index : UInt32) :
    window.pieces.find? index = window.latest? index.toNat := by
  rw [find?_pieces, latest?]
  simp only [UInt32.toNat_inj]

theorem isFull_iff :
    window.isFull count = true ↔
      ∀ index < count.toNat, ∃ arrival ∈ window, arrival.fragment.index.toNat = index := by
  simp only [isFull, List.all_eq_true, List.any_eq_true, List.mem_range, decide_eq_true_eq]

theorem isSome_latest?_iff {index : Nat} :
    (window.latest? index).isSome ↔
      ∃ arrival ∈ window, arrival.fragment.index.toNat = index := by
  simp [latest?]

/-- The message of a full window is made of the latest copy of each fragment. -/
theorem merge?_of_isFull (messageEq : window.message? = some message)
    (full : window.isFull message.count = true) (positive : 0 < message.count.toNat) :
    ∃ latest : Nat → Packet,
      (∀ index < message.count.toNat, window.latest? index = some (latest index)) ∧
        message.merge? = some { latest 0 with
          index := 0
          count := 1
          payload := (List.range message.count.toNat).flatMap fun index =>
            (latest index).payload } := by
  have covered : ∀ index, index < message.count.toNat → (window.latest? index).isSome :=
    fun index below => isSome_latest?_iff.mpr (isFull_iff.mp full index below)
  obtain ⟨first, _, rfl⟩ := Option.map_eq_some_iff.mp messageEq
  let latest : Nat → Packet := fun index => (window.latest? index).getD first.fragment
  have latestEq : ∀ index, index < first.fragment.count.toNat →
      window.latest? index = some (latest index) := by
    intro index below
    obtain ⟨copy, found⟩ := Option.isSome_iff_exists.mp (covered index below)
    simp [latest, found]
  have pieceEq : ∀ index, index < first.fragment.count.toNat →
      window.pieces.find? (UInt32.ofNat index) = some (latest index) := by
    intro index below
    have placeEq : (UInt32.ofNat index).toNat = index :=
      UInt32.toNat_ofNat_of_lt' (Nat.lt_trans below first.fragment.count.toNat_lt)
    rw [find?_pieces_eq_latest?, placeEq, latestEq index below]
  refine ⟨latest, latestEq, ?_⟩
  have headEq : window.pieces.find? 0 = some (latest 0) := pieceEq 0 positive
  have payloadEq : Partial.payload ⟨first.fragment.count, window.pieces, first.time⟩ =
      (List.range first.fragment.count.toNat).flatMap fun index => (latest index).payload := by
    rw [Partial.payload_eq]
    apply List.flatMap_congr
    intro index indexMem
    rw [pieceEq index (List.mem_range.mp indexMem)]
    rfl
  rw [Partial.merge?, headEq, payloadEq]
  rfl

/-! ## Windows hold the last that arrived -/

theorem sweep_isSuffix (window : Window) (ttl now : Nat) : window.sweep ttl now <:+ window := by
  unfold sweep
  split
  · split
    · exact List.suffix_rfl
    · exact List.nil_suffix
  · exact List.nil_suffix

theorem extend_isSuffix (suffix : window <:+ arrived) (now : Nat) (fragment : Packet) :
    window.extend now fragment <:+ arrived ++ [⟨now, fragment⟩] := by
  unfold extend
  split
  · obtain ⟨before, rfl⟩ := suffix
    exact ⟨before, (List.append_assoc _ _ _).symm⟩
  · exact List.suffix_append _ _

/-- A window holds the last of what arrived. -/
theorem foldl_next_isSuffix (key : UInt32 × Endpoint) (ttl : Nat) (calls : List Call) :
    calls.foldl (next key ttl) [] <:+ arrivals key calls := by
  induction calls using List.reverseRecOn with
  | nil => exact List.suffix_rfl
  | append_singleton earlier call inductionHypothesis =>
      have swept := (sweep_isSuffix _ ttl call.time).trans inductionHypothesis
      rw [List.foldl_concat, next]
      cases own : call.own? key with
      | none =>
          rw [arrivals_concat_of_foreign own]
          split
          · exact swept
          · exact inductionHypothesis
      | some fragment =>
          rw [arrivals_concat_of_own own, if_pos (sweeps_of_own? own)]
          dsimp only
          split
          · exact List.nil_suffix
          · exact extend_isSuffix swept call.time fragment

/-! ## What is kept lacks something -/

/-- The window is not full. -/
def Lacking (window : Window) : Prop :=
  ∀ arrival ∈ window, window.isFull arrival.fragment.count = false

theorem lacking_nil : Lacking [] := by
  simp [Lacking]

theorem Lacking.sweep (lacking : window.Lacking) (ttl now : Nat) :
    (window.sweep ttl now).Lacking := by
  unfold Window.sweep
  split
  · split
    · exact lacking
    · exact lacking_nil
  · exact lacking_nil

/-- No call leaves a full window behind. -/
theorem Lacking.next (lacking : window.Lacking) (key : UInt32 × Endpoint) (ttl : Nat)
    (call : Call) : (window.next key ttl call).Lacking := by
  unfold Window.next
  split
  · split
    · dsimp only
      split
      · exact lacking_nil
      · next notFull =>
          intro arrival arrivalMem
          rw [count_eq_of_mem_extend arrivalMem]
          exact Bool.eq_false_iff.mpr notFull
    · exact lacking.sweep ttl call.time
  · exact lacking

theorem lacking_foldl_next (key : UInt32 × Endpoint) (ttl : Nat) (calls : List Call) :
    Lacking (calls.foldl (Window.next key ttl) []) := by
  induction calls using List.reverseRecOn with
  | nil => exact lacking_nil
  | append_singleton earlier call inductionHypothesis =>
      rw [List.foldl_concat]
      exact inductionHypothesis.next key ttl call

/-- Of a window that is not full, there is a piece and there is an index without one. -/
theorem size_pieces_lt (proper : window.Proper key) (lacking : window.Lacking)
    (messageEq : window.message? = some message) :
    1 ≤ message.pieces.size ∧ message.pieces.size < message.count.toNat := by
  obtain ⟨first, firstEq, rfl⟩ := Option.map_eq_some_iff.mp messageEq
  have firstMem : first ∈ window := List.mem_of_head? firstEq
  have inRange : ∀ arrival ∈ window, arrival.fragment.index < first.fragment.count := by
    intro arrival arrivalMem
    rw [proper.agreed first firstMem arrival arrivalMem]
    exact (proper.fits arrival arrivalMem).inRange
  have upper := (keys_pieces_subperm inRange).length_le
  rw [length_keys_pieces, List.length_range] at upper
  constructor
  · have firstKey : first.fragment.index ∈ window.pieces.keys :=
      mem_keys_pieces_iff.mpr ⟨first, firstMem, rfl⟩
    rw [← length_keys_pieces, List.length_map]
    exact List.length_pos_of_mem firstKey
  · refine Nat.lt_of_le_of_ne upper fun same => ?_
    have full := (size_pieces_eq_iff inRange).mp same
    rw [lacking first firstMem] at full
    contradiction

/-- Each piece is kept under its own index, which is below the number of fragments. -/
theorem fits_of_find?_pieces (proper : window.Proper key)
    (messageEq : window.message? = some message) {index : UInt32} {piece : Packet}
    (found : message.pieces.find? index = some piece) :
    piece.index = index ∧ piece.count = message.count ∧ Fits key piece := by
  obtain ⟨first, firstEq, rfl⟩ := Option.map_eq_some_iff.mp messageEq
  rw [find?_pieces] at found
  obtain ⟨arrival, arrivalEq, rfl⟩ := Option.map_eq_some_iff.mp found
  have arrivalMem := List.mem_reverse.mp (List.mem_of_find?_eq_some arrivalEq)
  exact ⟨by simpa using List.find?_some arrivalEq,
    proper.agreed arrival arrivalMem first (List.mem_of_head? firstEq),
    proper.fits arrival arrivalMem⟩

end Window

/-! ## What is given out -/

variable {ttl : Nat} {key : UInt32 × Endpoint} {former earlier between : List Call}
variable {call completing : Call} {fragment : Packet}

/-- What is kept of a message after any calls is what its window makes of it. -/
theorem tracks_foldl_next (ttl : Nat) (key : UInt32 × Endpoint) (calls : List Call) :
    ((empty ttl).after calls).ttl = ttl ∧
      Tracks key ((empty ttl).after calls) (calls.foldl (Window.next key ttl) []) :=
  ⟨(after_keeps Table.distinct_empty calls).1, (Tracks.empty key ttl).after calls⟩

/-- The window of a message after some calls, with a fragment that another call brings. -/
def Window.upTo (key : UInt32 × Endpoint) (ttl : Nat) (former : List Call) (call : Call)
    (fragment : Packet) : Window :=
  ((former.foldl (next key ttl) []).sweep ttl call.time).extend call.time fragment

/-- A fragment is answered by the message that its window makes, if the window is full. -/
theorem answer_eq_of_own (own : call.own? key = some fragment) :
    (((empty ttl).after former).answer call).1 =
      if (Window.upTo key ttl former call fragment).isFull fragment.count then
        (Window.upTo key ttl former call fragment).message?.bind Partial.merge?
      else none := by
  obtain ⟨ttlEq, tracks⟩ := tracks_foldl_next ttl key former
  have answered := (tracks.answer_of_own own rfl).1
  rw [ttlEq] at answered
  exact answered

/-- A full window makes a message of the latest copy of each fragment. -/
theorem exists_latest_of_isFull (own : call.own? key = some fragment)
    (full : (Window.upTo key ttl former call fragment).isFull fragment.count = true) :
    ∃ latest : Nat → Packet,
      (∀ index < fragment.count.toNat,
        (Window.upTo key ttl former call fragment).latest? index = some (latest index)) ∧
      (((empty ttl).after former).answer call).1 = some { latest 0 with
        index := 0
        count := 1
        payload := (List.range fragment.count.toNat).flatMap fun index =>
          (latest index).payload } := by
  have several : 1 < fragment.count := by
    simpa [Packet.isFragment] using
      (fragment?_eq_some_iff.mp (own?_eq_some_iff.mp own)).2.long
  have positive : 0 < fragment.count.toNat :=
    Nat.lt_trans Nat.one_pos (UInt32.lt_iff_toNat_lt.mp several)
  rw [answer_eq_of_own own, if_pos full]
  generalize windowEq : Window.upTo key ttl former call fragment = window at full ⊢
  obtain ⟨arrival, arrivalMem, _⟩ := Window.isFull_iff.mp full 0 positive
  cases window with
  | nil => contradiction
  | cons first later =>
      have countEq : first.fragment.count = fragment.count :=
        Window.count_eq_of_mem_extend (windowEq ▸ List.mem_cons_self)
      have messageEq : Window.message? (first :: later) =
          some ⟨first.fragment.count, Window.pieces (first :: later), first.time⟩ := rfl
      rw [← countEq] at full positive ⊢
      exact Window.merge?_of_isFull messageEq full positive

/-- A message is given out exactly if its window is full. -/
theorem isSome_answer_iff (own : call.own? key = some fragment) :
    (((empty ttl).after former).answer call).1.isSome ↔
      (Window.upTo key ttl former call fragment).isFull fragment.count = true := by
  constructor
  · intro given
    by_contra notFull
    rw [answer_eq_of_own own, if_neg notFull] at given
    contradiction
  · intro full
    obtain ⟨latest, _, given⟩ := exists_latest_of_isFull own full
    rw [given]
    rfl

/-- Once a message is given out, its window begins anew. -/
theorem foldl_next_of_isSome (own : (completing.own? key).isSome)
    (given : (((empty ttl).after earlier).answer completing).1.isSome) :
    (earlier ++ completing :: between).foldl (Window.next key ttl) [] =
      between.foldl (Window.next key ttl) [] := by
  obtain ⟨fragment, own⟩ := Option.isSome_iff_exists.mp own
  have full := (isSome_answer_iff own).mp given
  have anew : (earlier.foldl (Window.next key ttl) []).next key ttl completing = [] := by
    rw [Window.next, if_pos (sweeps_of_own? own), own]
    exact if_pos full
  rw [List.foldl_append, List.foldl_cons, anew]

/-- A window holds the last that arrived since. -/
theorem upTo_isSuffix (own : call.own? key = some fragment)
    (sinceEq : former.foldl (Window.next key ttl) [] = between.foldl (Window.next key ttl) []) :
    Window.upTo key ttl former call fragment <:+ arrivals key (between ++ [call]) := by
  rw [Window.upTo, sinceEq, Window.arrivals_concat_of_own own]
  exact Window.extend_isSuffix ((Window.sweep_isSuffix _ ttl call.time).trans
    (Window.foldl_next_isSuffix key ttl between)) call.time fragment

/-- A call that brings a fragment of a message makes it come out exactly if the window of the
message, the fragment included, is full.  What comes out is made of the latest copy of each
fragment of the window, which holds the last fragments of the message that arrived, and none
that arrived before the message came out the last time.  Of a message of which anything is
kept, there is at least one fragment and there are not all, each under its own index. -/
theorem given_iff_full (ttl : Nat) (key : UInt32 × Endpoint) (former : List Call) :
    (∀ call fragment, call.own? key = some fragment →
      let given := (((empty ttl).after former).answer call).1
      let window := Window.upTo key ttl former call fragment
      (given.isSome ↔ ∀ index < fragment.count.toNat,
        ∃ arrival ∈ window, arrival.fragment.index.toNat = index) ∧
      (∀ packet, given = some packet → ∃ latest : Nat → Packet,
        (∀ index < fragment.count.toNat, window.latest? index = some (latest index)) ∧
          packet = { latest 0 with
            index := 0
            count := 1
            payload := (List.range fragment.count.toNat).flatMap fun index =>
              (latest index).payload }) ∧
      window <:+ arrivals key (former ++ [call]) ∧
      ∀ earlier completing between, former = earlier ++ completing :: between →
        (completing.own? key).isSome →
        (((empty ttl).after earlier).answer completing).1.isSome →
        window <:+ arrivals key (between ++ [call])) ∧
    ∀ message, ((empty ttl).after former).slot key = some message →
      (1 ≤ message.pieces.size ∧ message.pieces.size < message.count.toNat) ∧
      ∀ index piece, message.pieces.find? index = some piece →
        piece.index = index ∧ index < message.count ∧ piece.messageId = key.1 := by
  constructor
  · intro call fragment own given window
    refine ⟨(isSome_answer_iff own).trans Window.isFull_iff, ?_, upTo_isSuffix own rfl, ?_⟩
    · intro packet packetEq
      have full := (isSome_answer_iff own).mp (Option.isSome_of_eq_some packetEq)
      obtain ⟨latest, latestEq, givenEq⟩ := exists_latest_of_isFull own full
      exact ⟨latest, latestEq, Option.some.inj (packetEq.symm.trans givenEq)⟩
    · rintro earlier completing between rfl completingOwn completed
      exact upTo_isSuffix own (foldl_next_of_isSome completingOwn completed)
  · intro message messageEq
    have tracks := (tracks_foldl_next ttl key former).2
    rw [tracks.slotEq] at messageEq
    refine ⟨Window.size_pieces_lt tracks.proper (Window.lacking_foldl_next key ttl former)
      messageEq, ?_⟩
    intro index piece found
    obtain ⟨indexEq, countEq, fits⟩ := Window.fits_of_find?_pieces tracks.proper messageEq found
    exact ⟨indexEq, indexEq ▸ countEq ▸ fits.inRange, fits.ownId⟩

/-- A message that has come out once begins anew, and again as its fragments change their
number.  It comes out with the latest copies of those that arrived since, whatever arrives of
others in between. -/
theorem given_iff_full_anew :
    let own : Endpoint := ⟨⟨10, 0, 0, 1⟩, 41000⟩
    let other : Endpoint := ⟨⟨10, 0, 0, 2⟩, 41000⟩
    let fragment (index count : UInt32) (payload : Bytes) : Packet :=
      ⟨.use, 0, .chat, .data, false, ⟨⟨10, 0, 0, 9⟩, 9000⟩, 7, index, count, payload⟩
    let earlier : List Call := [.decoded 0 own (fragment 0 2 [1])]
    let completing : Call := .decoded 10 own (fragment 1 2 [2])
    let between : List Call := [.decoded 20 own (fragment 1 3 [9]),
      .decoded 30 own (fragment 1 2 [4]), .decoded 40 other (fragment 0 2 [8]),
      .decoded 50 own (fragment 1 2 [5]), .decoded 60 own (fragment 0 1 [7])]
    let former := earlier ++ completing :: between
    let call : Call := .bytes 70 own (fragment 0 2 [3]).encode
    let window := Window.upTo (7, own) 100 former call (fragment 0 2 [3])
    call.own? (7, own) = some (fragment 0 2 [3]) ∧
      window = [⟨30, fragment 1 2 [4]⟩, ⟨50, fragment 1 2 [5]⟩, ⟨70, fragment 0 2 [3]⟩] ∧
      (((empty 100).after former).answer call).1 = some (fragment 0 1 [3, 5]) ∧
      (∀ index < 2, ∃ arrival ∈ window, arrival.fragment.index.toNat = index) ∧
      window <:+ arrivals (7, own) (between ++ [call]) ∧
      ∃ message, ((empty 100).after former).slot (7, own) = some message ∧
        1 ≤ message.pieces.size ∧ message.pieces.size < message.count.toNat := by
  intro own other fragment earlier completing between former call window
  have brings : call.own? (7, own) = some (fragment 0 2 [3]) := by decide +kernel
  have given : (((empty 100).after former).answer call).1 = some (fragment 0 1 [3, 5]) := by
    decide +kernel
  have kept : (((empty 100).after former).slot (7, own)).isSome := by decide +kernel
  obtain ⟨answers, lacks⟩ := given_iff_full 100 (7, own) former
  obtain ⟨covered, _, _, since⟩ := answers call (fragment 0 2 [3]) brings
  obtain ⟨message, messageEq⟩ := Option.isSome_iff_exists.mp kept
  exact ⟨brings, by decide +kernel, given, covered.mp (Option.isSome_of_eq_some given),
    since earlier completing between rfl (by decide +kernel) (by decide +kernel), message,
    messageEq, (lacks message messageEq).1⟩

end Reassembly

end ClusterOverlay
