import ClusterOverlay.Proofs.Reassembly.Arrivals

/-!
# Shipments

A packet is cut into fragments, each is written, and relays change the route of
some: what arrives is a *copy* of a fragment.  A *shipment* is a packet on its
way in fragments.  `Shipment.complete_iff` says that copies of all fragments
have arrived exactly when every index has.
-/

namespace ClusterOverlay

/-- The payload of a message is made of the pieces that are there. -/
theorem Partial.payload_eq (message : Partial) :
    message.payload = (List.range message.count.toNat).flatMap fun index =>
      ((message.pieces.find? (UInt32.ofNat index)).map Packet.payload).getD [] := by
  unfold payload
  congr 1
  funext index
  cases message.pieces.find? (UInt32.ofNat index) with
  | none => rfl
  | some fragment => rfl

namespace Packet

/-! ## Fragments -/

/-- The fragment of a packet that carries one of its pieces. -/
def carrying (packet : Packet) (limit : Nat) (messageId : UInt32) (index : Nat) (piece : Bytes) :
    Packet :=
  { packet with
    messageId
    index := UInt32.ofNat index
    count := UInt32.ofNat (slices limit packet.payload).length
    payload := piece }

theorem mem_fragments_iff {packet fragment : Packet} {limit : Nat} {messageId : UInt32} :
    fragment ∈ packet.fragments limit messageId ↔
      ∃ index piece, (slices limit packet.payload)[index]? = some piece ∧
        fragment = packet.carrying limit messageId index piece := by
  rw [fragments, List.mem_mapIdx]
  constructor
  · rintro ⟨index, bound, rfl⟩
    exact ⟨index, _, List.getElem?_eq_getElem bound, rfl⟩
  · rintro ⟨index, piece, found, rfl⟩
    rcases List.getElem?_eq_some_iff.mp found with ⟨bound, rfl⟩
    exact ⟨index, bound, rfl⟩

/-- Even the empty payload has a piece. -/
theorem length_slices_pos (limit : Nat) (payload : Bytes) :
    0 < (slices limit payload).length := by
  unfold slices
  split <;> simp

/-- Bytes that come of a written packet when nothing but its route is changed,
once or several times. -/
inductive Copy (packet : Packet) : Bytes → Prop
  | sent : Copy packet packet.encode
  | relayed {raw rewritten : Bytes} {route : Route} (copy : Copy packet raw)
      (replaced : retarget route raw = .ok rewritten) : Copy packet rewritten

/-- A copy of a packet is the packet, but for the route. -/
theorem Copy.exists_route {packet : Packet} {raw : Bytes} (copy : packet.Copy raw) :
    ∃ route, decode raw = .ok { packet with route } := by
  induction copy with
  | sent => exact ⟨packet.route, packet.decode_encode⟩
  | @relayed raw rewritten route copy replaced inductionHypothesis =>
      rcases inductionHypothesis with ⟨former, read⟩
      refine ⟨route, ?_⟩
      rw [decode_retarget replaced, read]
      rfl

end Packet

namespace Reassembly

/-- The call brings the bytes of a copy of the packet. -/
def Call.Copies (call : Call) (sender : Endpoint) (packet : Packet) : Prop :=
  ∃ now raw, call = .bytes now sender raw ∧ packet.Copy raw

theorem Call.Copies.exists_route {call : Call} {sender : Endpoint} {packet : Packet}
    (copies : call.Copies sender packet) :
    ∃ route, call.packet? = some (sender, { packet with route }) := by
  rcases copies with ⟨now, raw, rfl, copy⟩
  rcases copy.exists_route with ⟨route, read⟩
  exact ⟨route, by simp [Call.packet?, read]⟩

/-- A packet on its way in fragments. -/
structure Shipment where
  packet : Packet
  limit : Nat
  messageId : UInt32
  sender : Endpoint
  deriving DecidableEq, Repr

namespace Shipment

/-- The fragments on their way. -/
def fragments (shipment : Shipment) : List Packet :=
  shipment.packet.fragments shipment.limit shipment.messageId

/-- Number of fragments. -/
def size (shipment : Shipment) : Nat :=
  (Packet.slices shipment.limit shipment.packet.payload).length

/-- The key under which the fragments are kept. -/
def key (shipment : Shipment) : UInt32 × Endpoint :=
  (shipment.messageId, shipment.sender)

/-- The call brings a copy of one of the fragments. -/
def Brings (shipment : Shipment) (call : Call) : Prop :=
  ∃ fragment ∈ shipment.fragments, call.Copies shipment.sender fragment

/-- A copy of every fragment has arrived. -/
def Complete (shipment : Shipment) (calls : List Call) : Prop :=
  ∀ fragment ∈ shipment.fragments, ∃ call ∈ calls, call.Copies shipment.sender fragment

/-- No other fragment has the same key. -/
def Alone (shipment : Shipment) (calls : List Call) : Prop :=
  ∀ call ∈ calls, ∀ fragment, call.own? shipment.key = some fragment → shipment.Brings call

/-- The last copy of the first fragment that arrived has the route. -/
def LatestRoute (shipment : Shipment) (calls : List Call) (route : Route) : Prop :=
  ∃ first ∈ shipment.fragments, first.index = 0 ∧
    ∃ before call after, calls = before ++ call :: after ∧
      call.packet? = some (shipment.sender, { first with route }) ∧
      ∀ other ∈ after, ¬ other.Copies shipment.sender first

variable {shipment : Shipment} {calls : List Call} {call : Call} {fragment : Packet}

/-! ## The fragments of a shipment -/

/-- A fragment is known by its index. -/
theorem eq_carrying_of_mem (few : shipment.size < UInt32.size)
    (fragmentMem : fragment ∈ shipment.fragments) :
    ∃ piece,
      (Packet.slices shipment.limit shipment.packet.payload)[fragment.index.toNat]? = some piece ∧
        fragment = shipment.packet.carrying shipment.limit shipment.messageId
          fragment.index.toNat piece := by
  rcases Packet.mem_fragments_iff.mp fragmentMem with ⟨index, piece, found, rfl⟩
  have bound : index < UInt32.size := Nat.lt_trans (List.getElem?_eq_some_iff.mp found).1 few
  have indexEq : (UInt32.ofNat index).toNat = index := by
    rw [UInt32.toNat_ofNat', Nat.mod_eq_of_lt bound]
  refine ⟨piece, ?_, ?_⟩
  · change (Packet.slices _ _)[(UInt32.ofNat index).toNat]? = _
    rw [indexEq]
    exact found
  · change _ = shipment.packet.carrying _ _ (UInt32.ofNat index).toNat piece
    rw [indexEq]

theorem size_pos (shipment : Shipment) : 0 < shipment.size :=
  Packet.length_slices_pos _ _

theorem toNat_count (few : shipment.size < UInt32.size)
    (fragmentMem : fragment ∈ shipment.fragments) : fragment.count.toNat = shipment.size := by
  rcases eq_carrying_of_mem few fragmentMem with ⟨piece, _, fragmentEq⟩
  rw [fragmentEq]
  exact Nat.mod_eq_of_lt few

theorem toNat_index_lt (few : shipment.size < UInt32.size)
    (fragmentMem : fragment ∈ shipment.fragments) : fragment.index.toNat < shipment.size := by
  rcases eq_carrying_of_mem few fragmentMem with ⟨piece, found, _⟩
  exact (List.getElem?_eq_some_iff.mp found).1

theorem messageId_of_mem (fragmentMem : fragment ∈ shipment.fragments) :
    fragment.messageId = shipment.messageId := by
  rcases Packet.mem_fragments_iff.mp fragmentMem with ⟨index, piece, _, rfl⟩
  rfl

/-- Different fragments have different indices. -/
theorem eq_of_index_eq {first second : Packet} (few : shipment.size < UInt32.size)
    (firstMem : first ∈ shipment.fragments) (secondMem : second ∈ shipment.fragments)
    (same : first.index = second.index) : first = second := by
  rcases eq_carrying_of_mem few firstMem with ⟨piece, found, firstEq⟩
  rcases eq_carrying_of_mem few secondMem with ⟨other, otherFound, secondEq⟩
  rw [same] at found firstEq
  rw [found, Option.some.injEq] at otherFound
  subst otherFound
  exact firstEq.trans secondEq.symm

/-- Every index has its fragment. -/
theorem exists_mem_of_lt (few : shipment.size < UInt32.size) {index : Nat}
    (bound : index < shipment.size) :
    ∃ fragment ∈ shipment.fragments, fragment.index.toNat = index := by
  refine ⟨_, Packet.mem_fragments_iff.mpr ⟨index, _, List.getElem?_eq_getElem bound, rfl⟩, ?_⟩
  exact Nat.mod_eq_of_lt (Nat.lt_trans bound few)

/-! ## Copies -/

/-- What arrives under the key is a copy of one of the fragments. -/
theorem exists_original (alone : shipment.Alone calls) (callMem : call ∈ calls)
    (own : call.own? shipment.key = some fragment) :
    ∃ original ∈ shipment.fragments, call.Copies shipment.sender original ∧
      ∃ route, fragment = { original with route } := by
  rcases alone call callMem fragment own with ⟨original, originalMem, copies⟩
  rcases copies.exists_route with ⟨route, brought⟩
  have packetEq := (fragment?_eq_some_iff.mp (own?_eq_some_iff.mp own)).1
  rw [brought, Option.some.injEq, Prod.mk.injEq] at packetEq
  exact ⟨original, originalMem, copies, route, packetEq.2.symm⟩

theorem toNat_count_of_own (few : shipment.size < UInt32.size) (alone : shipment.Alone calls)
    (callMem : call ∈ calls) (own : call.own? shipment.key = some fragment) :
    fragment.count.toNat = shipment.size := by
  rcases exists_original alone callMem own with ⟨original, originalMem, _, route, rfl⟩
  exact (toNat_count few originalMem : original.count.toNat = shipment.size)

/-- Where there are several fragments, every copy of one is kept under the key. -/
theorem exists_own (few : shipment.size < UInt32.size) (several : 1 < shipment.size)
    (fragmentMem : fragment ∈ shipment.fragments)
    (copies : call.Copies shipment.sender fragment) :
    ∃ route, call.own? shipment.key = some { fragment with route } := by
  rcases copies.exists_route with ⟨route, brought⟩
  have countEq := toNat_count few fragmentMem
  have ownId := messageId_of_mem fragmentMem
  refine ⟨route, own?_eq_some_iff.mpr (fragment?_eq_some_iff.mpr ⟨brought, ownId, ?_, ?_⟩)⟩
  · change fragment.index < fragment.count
    rw [UInt32.lt_iff_toNat_lt, countEq]
    exact toNat_index_lt few fragmentMem
  · change decide (1 < fragment.count) = true
    rw [decide_eq_true_iff, UInt32.lt_iff_toNat_lt, countEq]
    exact several

/-- Where there is one fragment, no copy of it is ever kept. -/
theorem own?_eq_none_of_size_eq_one (single : shipment.size = 1) (alone : shipment.Alone calls)
    (callMem : call ∈ calls) : call.own? shipment.key = none := by
  cases own : call.own? shipment.key with
  | none => rfl
  | some fragment =>
      rcases exists_original alone callMem own with ⟨original, originalMem, _, route, rfl⟩
      have long := (fragment?_eq_some_iff.mp (own?_eq_some_iff.mp own)).2.long
      have countEq := toNat_count (by rw [single]; decide) originalMem
      change decide (1 < original.count) = true at long
      rw [decide_eq_true_iff, UInt32.lt_iff_toNat_lt, countEq, single] at long
      contradiction

/-- Where there is one fragment, any copy of it makes the shipment complete. -/
theorem complete_of_size_eq_one (single : shipment.size = 1) (callMem : call ∈ calls)
    (brings : shipment.Brings call) : shipment.Complete calls := by
  have few : shipment.size < UInt32.size := by
    rw [single]
    decide
  rcases brings with ⟨original, originalMem, copies⟩
  intro fragment fragmentMem
  have first := toNat_index_lt few originalMem
  have second := toNat_index_lt few fragmentMem
  rw [single, Nat.lt_one_iff] at first second
  have same : original.index = fragment.index := UInt32.toNat_inj.mp (first.trans second.symm)
  exact ⟨call, callMem, eq_of_index_eq few originalMem fragmentMem same ▸ copies⟩

/-- The shipment is complete if every index has arrived. -/
theorem complete_iff (few : shipment.size < UInt32.size) (several : 1 < shipment.size)
    (alone : shipment.Alone calls) {count : UInt32} (countEq : count.toNat = shipment.size) :
    shipment.Complete calls ↔
      (arrivals shipment.key calls).isFull count = true := by
  simp only [Window.isFull, List.all_eq_true, List.any_eq_true, List.mem_range, countEq,
    decide_eq_true_iff]
  constructor
  · intro complete index bound
    rcases exists_mem_of_lt few bound with ⟨fragment, fragmentMem, rfl⟩
    rcases complete fragment fragmentMem with ⟨call, callMem, copies⟩
    rcases exists_own few several fragmentMem copies with ⟨route, own⟩
    exact ⟨⟨call.time, _⟩, Window.mem_arrivals_iff.mpr ⟨call, callMem, own, rfl⟩, rfl⟩
  · intro full fragment fragmentMem
    rcases full _ (toNat_index_lt few fragmentMem) with ⟨arrival, arrivalMem, same⟩
    rcases Window.mem_arrivals_iff.mp arrivalMem with ⟨call, callMem, own, _⟩
    obtain ⟨original, originalMem, copies, route, fragmentEq⟩ :=
      exists_original alone callMem own
    rw [fragmentEq, UInt32.toNat_inj] at same
    rw [← eq_of_index_eq few originalMem fragmentMem same]
    exact ⟨call, callMem, copies⟩

end Shipment

end Reassembly

end ClusterOverlay
