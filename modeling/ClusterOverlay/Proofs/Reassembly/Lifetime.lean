import ClusterOverlay.Config
import ClusterOverlay.Proofs.Reassembly.Once

/-!
# Fragments that arrive at one instant

Before a reassembly looks at a fragment, it forgets every message that has reached the age at
which messages are forgotten.  Fragments that arrive at one instant are put together in whatever
order they come, if that age is not zero (`Shipment.answers_of_instant`).  If it is zero,
nothing is ever young enough to be found again, and no message of several fragments is given out
(`answers_of_ttl_eq_zero`).

The check of a configuration says nothing about this age.  `Config.answers_of_accepted` puts the
two cases together for the configurations that pass it.
-/

namespace ClusterOverlay

namespace Reassembly

/-! ## Without a lifetime -/

/-- Where messages are forgotten at once, a fragment of several is the first of its message. -/
theorem answer_of_ttl_eq_zero {reassembly : Reassembly} (distinct : reassembly.messages.Distinct)
    (forgetful : reassembly.ttl = 0) {call : Call} {key : UInt32 × Endpoint} {fragment : Packet}
    (brings : call.fragment? = some (key, fragment)) : (reassembly.answer call).1 = none := by
  have nothing : (reassembly.slot key).filter (·.isFresh reassembly.ttl call.time) = none := by
    simp [forgetful, Partial.isFresh]
  have long : 1 < fragment.count.toNat := by
    have several := (fragment?_eq_some_iff.mp brings).2.long
    rwa [Packet.isFragment, decide_eq_true_eq, UInt32.lt_iff_toNat_lt] at several
  have lacking : (Partial.taking none call.time fragment).isComplete = false := by
    simp only [Partial.taking, Partial.start, Partial.add, Partial.isComplete, Table.size,
      Table.insert, Table.erase, Table.empty, Option.getD_none, if_true, List.filter_nil,
      List.length_singleton, decide_eq_false_iff_not]
    omega
  rw [(answer_of_own distinct brings rfl).1, nothing, if_neg (Bool.not_eq_true _ ▸ lacking)]

/-- Where messages are forgotten at once, no message of several fragments is given out. -/
theorem answers_of_ttl_eq_zero {reassembly : Reassembly} (distinct : reassembly.messages.Distinct)
    (forgetful : reassembly.ttl = 0) {calls : List Call}
    (fragments : ∀ call ∈ calls, call.fragment?.isSome) :
    reassembly.answers calls = List.replicate calls.length none := by
  induction calls generalizing reassembly with
  | nil => rfl
  | cons call later inductionHypothesis =>
      obtain ⟨first, rest⟩ := List.forall_mem_cons.mp fragments
      obtain ⟨⟨key, fragment⟩, brings⟩ := Option.isSome_iff_exists.mp first
      obtain ⟨ttlEq, stillDistinct⟩ := answer_keeps distinct call
      rw [answers, answer_of_ttl_eq_zero distinct forgetful brings,
        inductionHypothesis stillDistinct (ttlEq.trans forgetful) rest, List.length_cons,
        List.replicate_succ]

namespace Shipment

variable {shipment : Shipment} {fragment : Packet} {order : List Packet} {ttl now : Nat}

/-! ## All fragments at once -/

/-- The call that brings a fragment as it was written. -/
def bring (shipment : Shipment) (now : Nat) (fragment : Packet) : Call :=
  .bytes now shipment.sender fragment.encode

theorem packet?_bring (shipment : Shipment) (now : Nat) (fragment : Packet) :
    (shipment.bring now fragment).packet? = some (shipment.sender, fragment) := by
  simp [bring, Call.packet?, Packet.decode_encode]

theorem copies_bring (shipment : Shipment) (now : Nat) (fragment : Packet) :
    (shipment.bring now fragment).Copies shipment.sender fragment :=
  ⟨now, _, rfl, .sent⟩

theorem brings_of_subset (now : Nat) (known : order ⊆ shipment.fragments) :
    ∀ call ∈ order.map (shipment.bring now), shipment.Brings call := by
  intro call callMem
  obtain ⟨fragment, fragmentMem, rfl⟩ := List.mem_map.mp callMem
  exact ⟨fragment, known fragmentMem, shipment.copies_bring now fragment⟩

theorem complete_of_subset (now : Nat) (all : shipment.fragments ⊆ order) :
    shipment.Complete (order.map (shipment.bring now)) :=
  fun fragment fragmentMem =>
    ⟨_, List.mem_map_of_mem (all fragmentMem), shipment.copies_bring now fragment⟩

theorem length_fragments (shipment : Shipment) : shipment.fragments.length = shipment.size := by
  simp [fragments, Packet.fragments, size]

/-- As no relay has changed a route, the last copy of the first fragment has that of the
packet. -/
theorem LatestRoute.eq_of_bring {route : Route}
    (latest : shipment.LatestRoute (order.map (shipment.bring now)) route)
    (known : order ⊆ shipment.fragments) : route = shipment.packet.route := by
  obtain ⟨first, _, _, before, call, later, callsEq, brought, _⟩ := latest
  have callMem : call ∈ order.map (shipment.bring now) := by
    rw [callsEq]
    simp
  obtain ⟨fragment, fragmentMem, rfl⟩ := List.mem_map.mp callMem
  rw [packet?_bring, Option.some.injEq, Prod.mk.injEq] at brought
  obtain ⟨index, piece, _, fragmentEq⟩ := Packet.mem_fragments_iff.mp (known fragmentMem)
  calc
    route = fragment.route := by rw [brought.2]
    _ = shipment.packet.route := by rw [fragmentEq]; rfl

theorem ordered_bring (shipment : Shipment) (now : Nat) (order : List Packet) :
    (order.map (shipment.bring now)).Pairwise fun first second => first.time ≤ second.time :=
  List.pairwise_map.mpr (List.pairwise_of_forall fun _ _ => Nat.le_refl now)

theorem prompt_bring (shipment : Shipment) (kept : 0 < ttl) (now : Nat) (order : List Packet) :
    (order.map (shipment.bring now)).Pairwise
      fun first second => second.time < first.time + ttl :=
  List.pairwise_map.mpr (List.pairwise_of_forall fun _ _ => Nat.lt_add_of_pos_right kept)

section Instant

variable {earlier : List Packet} {last : Packet}

theorem lacking_of_perm (few : shipment.size < UInt32.size) (several : 1 < shipment.size)
    (perm : (earlier ++ [last]).Perm shipment.fragments) :
    ¬ shipment.Complete (earlier.map (shipment.bring now)) := by
  have lengthEq := perm.length_eq.trans shipment.length_fragments
  rw [List.length_append, List.length_singleton] at lengthEq
  apply lacking_of_length_lt few several
    (brings_of_subset now fun _ earlierMem => perm.subset (List.mem_append_left _ earlierMem))
  rw [List.length_map]
  omega

/-- The last fragment to arrive at an instant completes the packet. -/
theorem answer_of_instant (kept : 0 < ttl) (few : shipment.size < UInt32.size)
    (several : 1 < shipment.size) (perm : (earlier ++ [last]).Perm shipment.fragments) :
    (((Reassembly.empty ttl).after (earlier.map (shipment.bring now))).answer
      (shipment.bring now last)).1 = some { shipment.packet with
        messageId := shipment.messageId, index := 0, count := 1 } := by
  have split : (earlier ++ [last]).map (shipment.bring now) =
      earlier.map (shipment.bring now) ++ [shipment.bring now last] := by
    rw [List.map_append, List.map_singleton]
  have brings := brings_of_subset now perm.subset
  have complete := complete_of_subset now perm.symm.subset
  have ordered := shipment.ordered_bring now (earlier ++ [last])
  have prompt := shipment.prompt_bring kept now (earlier ++ [last])
  rw [split] at brings complete ordered prompt
  have idle : ((Reassembly.empty ttl).after []).slot shipment.key = none := rfl
  obtain ⟨route, latest, given, _⟩ := (shipment.roundTrip few idle ordered
    (alone_of_brings brings) (brings _ (by simp))).2 complete (lacking_of_perm few several perm)
      fun call callMem _ => (List.pairwise_append.mp prompt).2.2 call callMem _ List.mem_cons_self
  rw [← split] at latest
  rwa [latest.eq_of_bring perm.subset] at given

/-- If messages are kept for any time, the fragments that arrive at one instant are put together
with the last of them, in whatever order they come. -/
theorem answers_of_instant (kept : 0 < ttl) (few : shipment.size < UInt32.size)
    (several : 1 < shipment.size) (perm : order.Perm shipment.fragments) :
    (Reassembly.empty ttl).answers (order.map (shipment.bring now)) =
      List.replicate (order.length - 1) none ++ [some { shipment.packet with
        messageId := shipment.messageId, index := 0, count := 1 }] := by
  have lengthEq := perm.length_eq.trans shipment.length_fragments
  rcases List.eq_nil_or_concat order with rfl | ⟨earlier, last, rfl⟩
  · rw [List.length_nil] at lengthEq
    omega
  rw [List.concat_eq_append] at *
  rw [List.length_append, List.length_singleton] at lengthEq
  have short : (earlier.map (shipment.bring now)).length < shipment.size := by
    rw [List.length_map]
    omega
  have silent := answers_of_length_lt few several
    (brings_of_subset now fun _ earlierMem => perm.subset (List.mem_append_left _ earlierMem))
    (shipment.ordered_bring now earlier) (shipment.prompt_bring kept now earlier) short
  rw [List.map_append, List.map_singleton, answers_concat, silent,
    answer_of_instant kept few several perm, List.length_map, List.length_append,
    List.length_singleton, Nat.add_sub_cancel]

end Instant

end Shipment

end Reassembly

namespace Config

open Reassembly (Shipment)

/-! ## Accepted configurations -/

/-- A configuration is accepted whatever it says about the age at which messages are forgotten.
If it gives them any time, the fragments of a packet that arrive at one instant are put together
with the last of them, in whatever order they come.  If it gives them none, nothing is ever
given out. -/
theorem answers_of_accepted {config : Config} (accepted : config.check = .ok ())
    (packet : Packet) (messageId : UInt32) (sender : Endpoint) (now : Nat)
    (several : 1 < (Packet.slices config.network.maxPayload packet.payload).length)
    (few : (Packet.slices config.network.maxPayload packet.payload).length < UInt32.size)
    {order : List Packet}
    (perm : order.Perm (packet.fragments config.network.maxPayload messageId)) :
    let reassembly := Reassembly.empty (milliseconds config.liveness.reassemblyTtl)
    let answers := reassembly.answers
      (order.map fun fragment => .bytes now sender fragment.encode)
    (config.liveness.reassemblyTtl ≠ 0 →
        answers = List.replicate (order.length - 1) none ++
          [some { packet with messageId, index := 0, count := 1 }]) ∧
      (config.liveness.reassemblyTtl = 0 → answers = List.replicate order.length none) ∧
      ∀ lifetime, check { config with
        liveness := { config.liveness with reassemblyTtl := lifetime } } = .ok () := by
  intro reassembly answers
  let shipment : Shipment := ⟨packet, config.network.maxPayload, messageId, sender⟩
  change 1 < shipment.size at several
  change shipment.size < UInt32.size at few
  change order.Perm shipment.fragments at perm
  refine ⟨fun lives => ?_, fun lifeless => ?_, fun _ => accepted⟩
  · have kept : 0 < milliseconds config.liveness.reassemblyTtl :=
      Nat.mul_pos (Nat.pos_of_ne_zero lives) (by decide)
    exact Shipment.answers_of_instant kept few several perm
  · have forgetful : reassembly.ttl = 0 := by
      simp [reassembly, Reassembly.empty, milliseconds, lifeless]
    have fragments : ∀ call ∈ order.map (shipment.bring now), call.fragment?.isSome := by
      intro call callMem
      obtain ⟨fragment, fragmentMem, copies⟩ :=
        Shipment.brings_of_subset now perm.subset call callMem
      obtain ⟨route, own⟩ := Shipment.exists_own few several fragmentMem copies
      simp [Reassembly.own?_eq_some_iff.mp own]
    have silent := Reassembly.answers_of_ttl_eq_zero Table.distinct_empty forgetful fragments
    rwa [List.length_map] at silent

/-- Five bytes that travel in three fragments. -/
def packetOfThree : Packet :=
  ⟨.use, Fin.last 7, .chat, .data, false, ⟨⟨10, 0, 0, 1⟩, 9000⟩, 0, 0, 1, [1, 2, 3, 4, 5]⟩

theorem slices_packetOfThree :
    Packet.slices 2 packetOfThree.payload = [[1, 2], [3, 4], [5]] := by
  simp [packetOfThree, Packet.slices]

/-- The last of three fragments comes first, and messages are kept for a millisecond. -/
theorem answers_of_accepted_backwards :
    let config : Config := { network := { maxPayload := 2 }, liveness := { reassemblyTtl := 1 } }
    let fragments := packetOfThree.fragments config.network.maxPayload 7
    let reassembly := Reassembly.empty (milliseconds config.liveness.reassemblyTtl)
    let sender : Endpoint := ⟨⟨10, 0, 0, 2⟩, 41000⟩
    config.check = .ok () ∧
      (reassembly.answers (fragments.reverse.map fun fragment =>
          .bytes 5 sender fragment.encode)).getLast? =
        some (some { packetOfThree with messageId := 7, index := 0, count := 1 }) := by
  intro config fragments reassembly sender
  have accepted : config.check = .ok () := by decide
  have several : 1 < (Packet.slices 2 packetOfThree.payload).length := by
    rw [slices_packetOfThree]
    decide
  have few : (Packet.slices 2 packetOfThree.payload).length < UInt32.size := by
    rw [slices_packetOfThree]
    decide
  have answersEq := (answers_of_accepted accepted packetOfThree 7 sender 5 several few
    fragments.reverse_perm).1 (by decide)
  exact ⟨accepted, (congrArg List.getLast? answersEq).trans List.getLast?_concat⟩

/-- A configuration is accepted under which the three fragments of a packet arrive at one
instant, one after another, and nothing is given out. -/
theorem accepted_without_lifetime :
    let config : Config := { network := { maxPayload := 2 }, liveness := { reassemblyTtl := 0 } }
    let fragments := packetOfThree.fragments config.network.maxPayload 7
    let reassembly := Reassembly.empty (milliseconds config.liveness.reassemblyTtl)
    config.check = .ok () ∧ fragments.length = 3 ∧
      reassembly.answers (fragments.map fun fragment =>
        .bytes 5 ⟨⟨10, 0, 0, 2⟩, 41000⟩ fragment.encode) = [none, none, none] := by
  intro config fragments reassembly
  have fragmentsEq : fragments =
      [packetOfThree.carrying 2 7 0 [1, 2], packetOfThree.carrying 2 7 1 [3, 4],
        packetOfThree.carrying 2 7 2 [5]] := by
    simp [fragments, config, Packet.fragments, Packet.carrying, slices_packetOfThree]
  have carryingEq : ∀ index piece, packetOfThree.carrying 2 7 index piece =
      { packetOfThree with
        messageId := 7, index := UInt32.ofNat index, count := 3, payload := piece } := by
    simp [Packet.carrying, slices_packetOfThree]
  rw [fragmentsEq, carryingEq, carryingEq, carryingEq]
  decide +kernel

end Config

end ClusterOverlay
