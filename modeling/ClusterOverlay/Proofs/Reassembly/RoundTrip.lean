import ClusterOverlay.Proofs.Reassembly.Shipment

/-!
# There and back

The fragments of a shipment reach a reassembly in any order and any number of
times.  `Shipment.roundTrip` says that nothing is given out before copies of all
of them have arrived, and that the packet is given out when the last does.
-/

namespace ClusterOverlay

namespace Reassembly

namespace Shipment

variable {shipment : Shipment} {calls : List Call} {call : Call} {fragment : Packet}

/-! ## What is kept -/

/-- What is kept of a fragment is the last copy of it to have arrived. -/
theorem exists_latest (few : shipment.size < UInt32.size) (several : 1 < shipment.size)
    (alone : shipment.Alone calls) (complete : shipment.Complete calls)
    (fragmentMem : fragment ∈ shipment.fragments) :
    ∃ route, (arrivals shipment.key calls).pieces.find? fragment.index =
        some { fragment with route } ∧
      ∃ before call after, calls = before ++ call :: after ∧
        call.packet? = some (shipment.sender, { fragment with route }) ∧
        ∀ other ∈ after, ¬ other.Copies shipment.sender fragment := by
  rcases complete fragment fragmentMem with ⟨copy, copyMem, copies⟩
  rcases exists_own few several fragmentMem copies with ⟨_, copyOwn⟩
  have kept : fragment.index ∈ (arrivals shipment.key calls).pieces.keys :=
    Window.mem_keys_pieces_iff.mpr
      ⟨⟨copy.time, _⟩, Window.mem_arrivals_iff.mpr ⟨copy, copyMem, copyOwn, rfl⟩, rfl⟩
  rcases Table.mem_keys_iff.mp kept with ⟨latest, latestEq⟩
  have foundEq := latestEq
  rw [Window.find?_pieces_arrivals] at foundEq
  rcases List.findSome?_eq_some_iff.mp foundEq with ⟨after, call, before, callsEq, brings, silent⟩
  rcases Option.filter_eq_some_iff.mp brings with ⟨own, same⟩
  have splitEq : calls = before.reverse ++ call :: after.reverse := by
    rw [← List.reverse_reverse calls, callsEq]
    simp
  have callMem : call ∈ calls := by
    rw [splitEq]
    simp
  rcases exists_original alone callMem own with ⟨original, originalMem, _, route, rfl⟩
  obtain rfl := eq_of_index_eq few originalMem fragmentMem (of_decide_eq_true same)
  have packetEq := (fragment?_eq_some_iff.mp (own?_eq_some_iff.mp own)).1
  refine ⟨route, latestEq, before.reverse, call, after.reverse, splitEq, packetEq, ?_⟩
  intro other otherMem otherCopies
  rcases exists_own few several fragmentMem otherCopies with ⟨otherRoute, otherOwn⟩
  have nothing := silent other (List.mem_reverse.mp otherMem)
  simp [otherOwn, Option.filter] at nothing

/-- The pieces that were kept make up the payload. -/
theorem payload_of_complete (few : shipment.size < UInt32.size) (several : 1 < shipment.size)
    (alone : shipment.Alone calls) (complete : shipment.Complete calls) {message : Partial}
    (countEq : message.count.toNat = shipment.size)
    (piecesEq : message.pieces = (arrivals shipment.key calls).pieces) :
    message.payload = shipment.packet.payload := by
  have parts : ∀ index ∈ List.range shipment.size,
      ((message.pieces.find? (UInt32.ofNat index)).map Packet.payload).getD [] =
        ((Packet.slices shipment.limit shipment.packet.payload)[index]?).getD [] := by
    intro index indexMem
    rcases exists_mem_of_lt few (List.mem_range.mp indexMem) with ⟨fragment, fragmentMem, rfl⟩
    rcases exists_latest few several alone complete fragmentMem with ⟨route, found, _⟩
    rcases eq_carrying_of_mem few fragmentMem with ⟨piece, pieceEq, fragmentEq⟩
    rw [piecesEq, UInt32.ofNat_toNat, found, pieceEq, fragmentEq]
    rfl
  have whole : (List.range shipment.size).map (fun index =>
      ((Packet.slices shipment.limit shipment.packet.payload)[index]?).getD []) =
        Packet.slices shipment.limit shipment.packet.payload := by
    apply List.ext_getElem
    · simp [size]
    · intro index _ bound
      simp [bound]
  rw [message.payload_eq, countEq, List.flatMap_def, List.map_congr_left parts, whole,
    Packet.flatten_slices]

/-- What a full window gives out is the packet, under the route of the last copy
of the first fragment. -/
theorem merge?_of_complete (few : shipment.size < UInt32.size) (several : 1 < shipment.size)
    (alone : shipment.Alone calls) (complete : shipment.Complete calls) :
    ∃ route, shipment.LatestRoute calls route ∧
      (arrivals shipment.key calls).message?.bind Partial.merge? =
        some { shipment.packet with
          route, messageId := shipment.messageId, index := 0, count := 1 } := by
  rcases exists_mem_of_lt few (Nat.lt_trans Nat.one_pos several) with ⟨first, firstMem, indexEq⟩
  rcases exists_latest few several alone complete firstMem with ⟨route, found, latest⟩
  rcases eq_carrying_of_mem few firstMem with ⟨piece, _, firstEq⟩
  have zero : first.index = 0 := UInt32.toNat_inj.mp indexEq
  refine ⟨route, ⟨first, firstMem, zero, latest⟩, ?_⟩
  have nonempty : arrivals shipment.key calls ≠ [] := by
    intro nothing
    rw [nothing] at found
    simp [Window.pieces] at found
  rcases List.exists_cons_of_ne_nil nonempty with ⟨head, later, windowEq⟩
  have headMem : head ∈ arrivals shipment.key calls := by
    rw [windowEq]
    exact List.mem_cons_self
  rcases Window.mem_arrivals_iff.mp headMem with ⟨call, callMem, own, _⟩
  have countEq := toNat_count_of_own few alone callMem own
  let message : Partial :=
    ⟨head.fragment.count, (arrivals shipment.key calls).pieces, head.time⟩
  have messageEq : (arrivals shipment.key calls).message? = some message := by
    simp [Window.message?, windowEq, message]
  have payloadEq : message.payload = shipment.packet.payload :=
    payload_of_complete few several alone complete countEq rfl
  rw [zero] at found
  rw [messageEq, Option.bind_some, Partial.merge?, found, Option.map_some, payloadEq, firstEq]
  rfl

/-! ## The round trip -/

/-- A reassembly that keeps nothing of a message follows the window of the
message from there on. -/
theorem tracks_of_idle {ttl : Nat} {earlier : List Call} {key : UInt32 × Endpoint}
    (idle : ((Reassembly.empty ttl).after earlier).slot key = none) (calls : List Call) :
    (((Reassembly.empty ttl).after earlier).after calls).ttl = ttl ∧
      Tracks key (((Reassembly.empty ttl).after earlier).after calls)
        (calls.foldl (Window.next key ttl) []) := by
  have begun := (Tracks.empty key ttl).after earlier
  have ttlEq := (after_keeps (Tracks.empty key ttl).distinct earlier).1
  rw [begun.slot_eq_none_iff.mp idle] at begun
  have tracks := begun.after calls
  rw [ttlEq] at tracks
  exact ⟨(after_keeps begun.distinct calls).1.trans ttlEq, tracks⟩

/-- A packet of one fragment is given out whenever it arrives. -/
theorem answer_of_size_eq_one (single : shipment.size = 1) (brings : shipment.Brings call)
    (reassembly : Reassembly) :
    ∃ route, shipment.LatestRoute (calls ++ [call]) route ∧
      reassembly.answer call =
        (some { shipment.packet with
          route, messageId := shipment.messageId, index := 0, count := 1 }, reassembly) := by
  have few : shipment.size < UInt32.size := by
    rw [single]
    decide
  rcases brings with ⟨fragment, fragmentMem, copies⟩
  rcases copies.exists_route with ⟨route, brought⟩
  have indexEq : fragment.index = 0 := by
    have bound := toNat_index_lt few fragmentMem
    rw [single, Nat.lt_one_iff] at bound
    exact UInt32.toNat_inj.mp bound
  have countEq : fragment.count = 1 := by
    have sizeEq := toNat_count few fragmentMem
    rw [single] at sizeEq
    exact UInt32.toNat_inj.mp sizeEq
  rcases eq_carrying_of_mem few fragmentMem with ⟨piece, found, fragmentEq⟩
  have payloadEq : piece = shipment.packet.payload := by
    rcases List.length_eq_one_iff.mp single with ⟨only, slicesEq⟩
    have whole := Packet.flatten_slices shipment.limit shipment.packet.payload
    rw [slicesEq] at found whole
    rw [indexEq] at found
    have pieceEq : only = piece := by simpa using found
    have onlyEq : only = shipment.packet.payload := by simpa using whole
    exact pieceEq.symm.trans onlyEq
  have packetEq : { fragment with route } =
      { shipment.packet with
        route, messageId := shipment.messageId, index := fragment.index, count := fragment.count,
        payload := piece } := by
    rw [fragmentEq]
    rfl
  refine ⟨route, ⟨fragment, fragmentMem, indexEq, calls, call, [], rfl, brought, by simp⟩, ?_⟩
  rw [answer_eq_accept brought, packetEq, indexEq, countEq, payloadEq]
  rfl

/-- The window with the last fragment holds nothing but what arrived. -/
theorem extend_subset {ttl : Nat} {last : Call} (own : last.own? shipment.key = some fragment) :
    ((calls.foldl (Window.next shipment.key ttl) []).sweep ttl last.time).extend last.time
        fragment ⊆ arrivals shipment.key (calls ++ [last]) := by
  intro arrival arrivalMem
  rw [Window.arrivals_concat_of_own own]
  rcases Window.mem_or_eq_of_mem_extend arrivalMem with earlier | rfl
  · exact List.mem_append_left _
      (Window.mem_arrivals_of_mem_foldl_next (Window.mem_of_mem_sweep earlier))
  · exact List.mem_append_right _ List.mem_cons_self

/-- As long as the shipment is not complete, and the first of it has not become
too old, the window holds all that arrived, the last fragment included. -/
theorem extend_eq_arrivals {ttl : Nat} {last : Call} (few : shipment.size < UInt32.size)
    (several : 1 < shipment.size) (alone : shipment.Alone (calls ++ [last]))
    (ordered : (calls ++ [last]).Pairwise fun first second => first.time ≤ second.time)
    (prompt : ∀ call ∈ calls, shipment.Brings call → last.time < call.time + ttl)
    (own : last.own? shipment.key = some fragment) (lacking : ¬ shipment.Complete calls) :
    ((calls.foldl (Window.next shipment.key ttl) []).sweep ttl last.time).extend last.time
        fragment = arrivals shipment.key (calls ++ [last]) := by
  have lastMem : last ∈ calls ++ [last] := List.mem_append_right _ List.mem_cons_self
  have earlierMem : ∀ call ∈ calls, call ∈ calls ++ [last] := fun _ => List.mem_append_left _
  have aloneBefore : shipment.Alone calls := fun call callMem =>
    alone call (earlierMem call callMem)
  have notLate : ∀ call ∈ calls, call.time ≤ last.time := fun call callMem =>
    (List.pairwise_append.mp ordered).2.2 call callMem last List.mem_cons_self
  have countEq := toNat_count_of_own few alone lastMem own
  have agreed : ∀ arrival ∈ arrivals shipment.key calls,
      arrival.fragment.count = fragment.count := by
    intro arrival arrivalMem
    rcases Window.mem_arrivals_iff.mp arrivalMem with ⟨call, callMem, brought, _⟩
    rw [← UInt32.toNat_inj, countEq, toNat_count_of_own few aloneBefore callMem brought]
  have young : ∀ arrival ∈ arrivals shipment.key calls,
      arrival.time ≤ last.time ∧ last.time < arrival.time + ttl := by
    intro arrival arrivalMem
    rcases Window.mem_arrivals_iff.mp arrivalMem with ⟨call, callMem, brought, timeEq⟩
    rw [← timeEq]
    exact ⟨notLate call callMem, prompt call callMem (aloneBefore call callMem _ brought)⟩
  have allKept : calls.foldl (Window.next shipment.key ttl) [] = arrivals shipment.key calls := by
    apply Window.foldl_next_eq_arrivals agreed
    · intro call callMem arrival arrivalMem
      have before := notLate call callMem
      have since := young arrival arrivalMem
      omega
    · rw [← Bool.not_eq_true, ← complete_iff few several aloneBefore countEq]
      exact lacking
  rw [allKept, Window.sweep_eq_self, Window.extend_eq_concat agreed,
    Window.arrivals_concat_of_own own]
  intro arrival arrivalMem
  have since := young arrival arrivalMem
  omega

/-- Nothing is given out before every fragment has arrived.  When the last one
arrives, less than the limit after each of the others, the packet is given out,
and nothing of it is kept. -/
theorem roundTrip (shipment : Shipment) {ttl : Nat} {earlier calls : List Call} {last : Call}
    (few : shipment.size < UInt32.size)
    (idle : ((Reassembly.empty ttl).after earlier).slot shipment.key = none)
    (ordered : (calls ++ [last]).Pairwise fun first second => first.time ≤ second.time)
    (alone : shipment.Alone (calls ++ [last])) (brings : shipment.Brings last) :
    let reassembly := ((Reassembly.empty ttl).after earlier).after calls
    (¬ shipment.Complete (calls ++ [last]) → (reassembly.answer last).1 = none) ∧
      (shipment.Complete (calls ++ [last]) → ¬ shipment.Complete calls →
        (∀ call ∈ calls, shipment.Brings call → last.time < call.time + ttl) →
        ∃ route, shipment.LatestRoute (calls ++ [last]) route ∧
          (reassembly.answer last).1 = some { shipment.packet with
            route, messageId := shipment.messageId, index := 0, count := 1 } ∧
          (reassembly.answer last).2.slot shipment.key = none) := by
  intro reassembly
  rcases tracks_of_idle idle calls with ⟨ttlEq, tracks⟩
  have lastMem : last ∈ calls ++ [last] := List.mem_append_right _ List.mem_cons_self
  rcases Nat.lt_or_eq_of_le (Nat.succ_le_of_lt shipment.size_pos) with several | single
  · rcases brings with ⟨original, originalMem, copies⟩
    rcases exists_own few several originalMem copies with ⟨_, own⟩
    have countEq := toNat_count_of_own few alone lastMem own
    rcases tracks.answer_of_own own rfl with ⟨given, left⟩
    rw [ttlEq] at given left
    constructor
    · intro lacking
      rw [given, if_neg]
      intro full
      exact lacking ((complete_iff few several alone countEq).mpr
        (Window.isFull_mono (extend_subset own) full))
    · intro complete lacking prompt
      have full := (complete_iff few several alone countEq).mp complete
      rw [extend_eq_arrivals few several alone ordered prompt own lacking, if_pos full]
        at given left
      rcases merge?_of_complete few several alone complete with ⟨route, latest, merged⟩
      exact ⟨route, latest, given.trans merged, left⟩
  · rcases answer_of_size_eq_one single.symm brings reassembly with ⟨route, latest, answerEq⟩
    rw [answerEq]
    constructor
    · intro lacking
      exact absurd (complete_of_size_eq_one single.symm lastMem brings) lacking
    · intro _ _ _
      refine ⟨route, latest, rfl, tracks.slot_eq_none_iff.mpr ?_⟩
      rw [List.eq_nil_iff_forall_not_mem]
      intro arrival arrivalMem
      obtain ⟨call, callMem, own, _⟩ :=
        Window.mem_arrivals_iff.mp (Window.mem_arrivals_of_mem_foldl_next arrivalMem)
      rw [own?_eq_none_of_size_eq_one single.symm alone (List.mem_append_left _ callMem)] at own
      contradiction

/-- Five bytes on their way in three fragments. -/
def sample : Shipment where
  packet := ⟨.otherCluster, Fin.last 7, .chat, .data, false, ⟨⟨10, 0, 0, 5⟩, 9000⟩, 0, 0, 1,
    [1, 2, 3, 4, 5]⟩
  limit := 2
  messageId := 7
  sender := ⟨⟨10, 0, 0, 2⟩, 41000⟩

/-- A copy of a fragment of the sample. -/
def sampleCopy (now : Nat) (route : Route) (index : UInt32) (piece : Bytes) : Call :=
  .bytes now sample.sender
    { sample.packet with
      route, messageId := sample.messageId, index, count := 3, payload := piece }.encode

theorem sample_brings (now : Nat) (route : Route) {index : Nat} {piece : Bytes}
    (found : [[1, 2], [3, 4], [5]][index]? = some piece) :
    sample.Brings (sampleCopy now route (UInt32.ofNat index) piece) := by
  have slicesEq : Packet.slices sample.limit sample.packet.payload = [[1, 2], [3, 4], [5]] := by
    simp [sample, Packet.slices]
  refine ⟨_, Packet.mem_fragments_iff.mpr ⟨index, piece, by rw [slicesEq, found], rfl⟩,
    now, _, rfl, ?_⟩
  have copy := Packet.Copy.relayed .sent (Packet.retarget_encode
    (sample.packet.carrying sample.limit sample.messageId index piece) route)
  simpa [Packet.carrying, slicesEq] using copy

theorem sample_size : sample.size = 3 := by
  simp [size, sample, Packet.slices]

/-- The last fragment first, and two copies of the first one over two routes:
nothing is given out before the one in the middle arrives. -/
theorem roundTrip_sample :
    let calls := [sampleCopy 10 .use 2 [5], .evict 11, sampleCopy 12 .otherCluster 0 [1, 2]]
    let again := sampleCopy 13 .sameCluster 0 [1, 2]
    let last := sampleCopy 14 .otherCluster 1 [3, 4]
    (((Reassembly.empty 30).after calls).answer again).1 = none ∧
      ∃ route, sample.LatestRoute (calls ++ [again] ++ [last]) route ∧
        (((Reassembly.empty 30).after (calls ++ [again])).answer last).1 =
          some { sample.packet with route, messageId := 7, index := 0, count := 1 } ∧
        (((Reassembly.empty 30).after (calls ++ [again])).answer last).2.slot sample.key =
          none := by
  intro calls again last
  have few : sample.size < UInt32.size := by
    rw [sample_size]
    decide
  have several : 1 < sample.size := by
    rw [sample_size]
    decide
  have alone : sample.Alone (calls ++ [again] ++ [last]) := by
    intro call callMem fragment own
    simp only [calls, List.cons_append, List.nil_append, List.mem_cons, List.not_mem_nil,
      or_false] at callMem
    rcases callMem with rfl | rfl | rfl | rfl | rfl
    · exact sample_brings 10 .use rfl
    · contradiction
    · exact sample_brings 12 .otherCluster rfl
    · exact sample_brings 13 .sameCluster rfl
    · exact sample_brings 14 .otherCluster rfl
  have aloneBefore : sample.Alone (calls ++ [again]) := fun call callMem =>
    alone call (List.mem_append_left _ callMem)
  have countEq : (3 : UInt32).toNat = sample.size := sample_size.symm
  have lacking : ¬ sample.Complete (calls ++ [again]) := by
    rw [complete_iff few several aloneBefore countEq]
    decide +kernel
  have complete : sample.Complete (calls ++ [again] ++ [last]) := by
    rw [complete_iff few several alone countEq]
    decide +kernel
  have ordered : (calls ++ [again] ++ [last]).Pairwise fun first second =>
      first.time ≤ second.time := by
    decide +kernel
  have prompt : ∀ call ∈ calls ++ [again], last.time < call.time + 30 := by
    decide +kernel
  have idle : ((Reassembly.empty 30).after []).slot sample.key = none := rfl
  have early := sample.roundTrip few idle (List.pairwise_append.mp ordered).1 aloneBefore
    (sample_brings 13 .sameCluster rfl)
  have late := sample.roundTrip few idle ordered alone (sample_brings 14 .otherCluster rfl)
  exact ⟨early.1 lacking, late.2 complete lacking fun call callMem _ => prompt call callMem⟩

end Shipment

end Reassembly

end ClusterOverlay
