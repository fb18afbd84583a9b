import ClusterOverlay.Reassembly

/-!
# Calls of a reassembly

A reassembly is called with the bytes of a packet, with a packet, or to forget
what is too old.  A call matters to a message only if it brings a fragment of
it or makes the reassembly forget: `slot_answer_of_own`,
`slot_answer_of_foreign` and `answer_of_not_sweeps` say what becomes of the
slot that a message has, each of them without a word about other messages.
-/

namespace ClusterOverlay

namespace Partial

/-- Whether a message is not too old yet. -/
def isFresh (message : Partial) (ttl now : Nat) : Bool :=
  now - message.startedAt < ttl

/-- A message, or the beginning of one, with a fragment added. -/
def taking (message : Option Partial) (now : Nat) (fragment : Packet) : Partial :=
  (message.getD (start fragment.count now)).add now fragment

theorem count_taking (message : Option Partial) (now : Nat) (fragment : Packet) :
    (taking message now fragment).count = fragment.count := by
  simp only [taking, add]
  split
  · next same => exact same
  · rfl

end Partial

namespace Reassembly

/-- The packet is one of several fragments of the message with the given key,
and its index is in range. -/
structure Fits (key : UInt32 × Endpoint) (fragment : Packet) : Prop where
  ownId : fragment.messageId = key.1
  inRange : fragment.index < fragment.count
  long : fragment.isFragment = true

/-- Something that is asked of a reassembly at some time. -/
inductive Call
  | bytes (now : Nat) (sender : Endpoint) (raw : Bytes)
  | decoded (now : Nat) (sender : Endpoint) (packet : Packet)
  | evict (now : Nat)
  deriving DecidableEq, Repr

namespace Call

/-- When the call is made. -/
def time : Call → Nat
  | bytes now _ _ => now
  | decoded now _ _ => now
  | evict now => now

/-- The packet that a call brings, and who sent it. -/
def packet? : Call → Option (Endpoint × Packet)
  | bytes _ sender raw =>
      match Packet.decode raw with
      | .ok packet => some (sender, packet)
      | .error _ => none
  | decoded _ sender packet => some (sender, packet)
  | evict _ => none

/-- The fragment of a longer message that a call brings, with the key of the
message. -/
def fragment? (call : Call) : Option ((UInt32 × Endpoint) × Packet) :=
  match call.packet? with
  | some (sender, packet) =>
      if packet.index < packet.count ∧ packet.isFragment then
        some ((packet.messageId, sender), packet)
      else
        none
  | none => none

/-- The fragment that a call brings of the message with the given key. -/
def own? (call : Call) (key : UInt32 × Endpoint) : Option Packet :=
  match call.fragment? with
  | some (other, fragment) => if other = key then some fragment else none
  | none => none

/-- Whether the reassembly forgets what is too old because of the call. -/
def sweeps : Call → Bool
  | evict _ => true
  | call => call.fragment?.isSome

end Call

/-- What a reassembly gives out because of a call, and what becomes of it. -/
def answer (reassembly : Reassembly) : Call → Option Packet × Reassembly
  | .bytes now sender raw => reassembly.acceptRaw now sender raw
  | .decoded now sender packet => reassembly.accept now sender packet
  | .evict now => (none, reassembly.evict now)

/-- The reassembly after some calls. -/
def after (reassembly : Reassembly) (calls : List Call) : Reassembly :=
  calls.foldl (fun reassembly call => (reassembly.answer call).2) reassembly

/-- What is kept of the message with the given key. -/
def slot (reassembly : Reassembly) (key : UInt32 × Endpoint) : Option Partial :=
  reassembly.messages.find? key

/-! ## Answers -/

/-- Bytes that are a packet are as good as the packet. -/
theorem answer_eq_accept {call : Call} {sender : Endpoint} {packet : Packet}
    (brings : call.packet? = some (sender, packet)) (reassembly : Reassembly) :
    reassembly.answer call = reassembly.accept call.time sender packet := by
  cases call with
  | bytes now sender raw =>
      simp only [Call.packet?] at brings
      split at brings
      · next read =>
          cases brings
          simp only [answer, acceptRaw, read, Call.time]
      · contradiction
  | decoded now sender packet =>
      cases brings
      rfl
  | evict now => simp [Call.packet?] at brings

theorem fragment?_eq_some_iff {call : Call} {key : UInt32 × Endpoint} {fragment : Packet} :
    call.fragment? = some (key, fragment) ↔
      call.packet? = some (key.2, fragment) ∧ Fits key fragment := by
  unfold Call.fragment?
  constructor
  · intro brings
    split at brings
    · next sender packet packetEq =>
        split at brings
        · next proper =>
            cases brings
            exact ⟨packetEq, rfl, proper.1, proper.2⟩
        · contradiction
    · contradiction
  · rintro ⟨packetEq, ownId, inRange, long⟩
    simp [packetEq, ownId, inRange, long]

theorem own?_eq_some_iff {call : Call} {key : UInt32 × Endpoint} {fragment : Packet} :
    call.own? key = some fragment ↔ call.fragment? = some (key, fragment) := by
  unfold Call.own?
  cases call.fragment? with
  | none => simp
  | some pair =>
      rcases pair with ⟨other, packet⟩
      by_cases same : other = key
      · simp [same]
      · simp [same]

/-- What a reassembly does with a fragment. -/
theorem answer_of_fragment? {call : Call} {key : UInt32 × Endpoint} {fragment : Packet}
    (brings : call.fragment? = some (key, fragment)) (reassembly : Reassembly) :
    reassembly.answer call = reassembly.acceptFragment call.time key.2 fragment := by
  rcases fragment?_eq_some_iff.mp brings with ⟨packetEq, fits⟩
  rw [answer_eq_accept packetEq, accept, if_neg (UInt32.not_le.mpr fits.inRange),
    if_pos fits.long]

/-- A call that makes the reassembly forget asks for that, or brings a fragment. -/
theorem evict_or_fragment {call : Call} (sweeps : call.sweeps = true) :
    (∃ now, call = .evict now) ∨ ∃ key fragment, call.fragment? = some (key, fragment) := by
  cases call with
  | bytes now sender raw =>
      rcases Option.isSome_iff_exists.mp sweeps with ⟨⟨key, fragment⟩, brings⟩
      exact .inr ⟨key, fragment, brings⟩
  | decoded now sender packet =>
      rcases Option.isSome_iff_exists.mp sweeps with ⟨⟨key, fragment⟩, brings⟩
      exact .inr ⟨key, fragment, brings⟩
  | evict now => exact .inl ⟨now, rfl⟩

theorem sweeps_of_fragment? {call : Call} {key : UInt32 × Endpoint} {fragment : Packet}
    (brings : call.fragment? = some (key, fragment)) : call.sweeps = true := by
  cases call <;> simp [Call.sweeps, brings]

theorem sweeps_of_own? {call : Call} {key : UInt32 × Endpoint} {fragment : Packet}
    (own : call.own? key = some fragment) : call.sweeps = true :=
  sweeps_of_fragment? (own?_eq_some_iff.mp own)

/-- A call that brings no fragment and does not ask to forget leaves everything
as it was. -/
theorem answer_of_not_sweeps {call : Call} (quiet : call.sweeps = false)
    (reassembly : Reassembly) : (reassembly.answer call).2 = reassembly := by
  cases brought : call.packet? with
  | none =>
      cases call with
      | bytes now sender raw =>
          simp only [Call.packet?] at brought
          split at brought
          · contradiction
          · next unread => simp only [answer, acceptRaw, unread]
      | decoded now sender packet => simp [Call.packet?] at brought
      | evict now => simp [Call.sweeps] at quiet
  | some pair =>
      rcases pair with ⟨sender, packet⟩
      rw [answer_eq_accept brought, accept]
      split
      · rfl
      next inRange =>
      split
      · next long =>
          have brings : call.fragment? = some ((packet.messageId, sender), packet) :=
            fragment?_eq_some_iff.mpr ⟨brought, rfl, UInt32.not_le.mp inRange, long⟩
          rw [sweeps_of_fragment? brings] at quiet
          contradiction
      · rfl

/-! ## Slots -/

/-- Forgetting looks at the age of a message alone. -/
theorem slot_evict {reassembly : Reassembly} (distinct : reassembly.messages.Distinct)
    (now : Nat) (key : UInt32 × Endpoint) :
    (reassembly.evict now).slot key =
      (reassembly.slot key).filter (·.isFresh reassembly.ttl now) :=
  Table.find?_keep distinct _ key

/-- A fragment looks at the slot of its message alone. -/
theorem acceptFragment_eq {reassembly : Reassembly} (distinct : reassembly.messages.Distinct)
    {now : Nat} {key : UInt32 × Endpoint} {fragment : Packet} (own : fragment.messageId = key.1) :
    reassembly.acceptFragment now key.2 fragment =
      let fresh := reassembly.evict now
      let message :=
        Partial.taking ((reassembly.slot key).filter (·.isFresh reassembly.ttl now)) now fragment
      if message.isComplete then
        (message.merge?, { fresh with messages := fresh.messages.erase key })
      else
        (none, { fresh with messages := fresh.messages.insert key message }) := by
  rw [← slot_evict distinct]
  unfold acceptFragment
  rw [own]
  rfl

/-- What a fragment does to the slot of its message.  A message that it
completes is given out and no longer kept. -/
theorem answer_of_own {reassembly : Reassembly} (distinct : reassembly.messages.Distinct)
    {call : Call} {key : UInt32 × Endpoint} {fragment : Packet}
    (brings : call.fragment? = some (key, fragment)) {message : Partial}
    (messageEq : Partial.taking
      ((reassembly.slot key).filter (·.isFresh reassembly.ttl call.time)) call.time fragment =
        message) :
    (reassembly.answer call).1 = (if message.isComplete then message.merge? else none) ∧
      (reassembly.answer call).2.slot key =
        if message.isComplete then none else some message := by
  have own := (fragment?_eq_some_iff.mp brings).2.ownId
  rw [answer_of_fragment? brings, acceptFragment_eq distinct own]
  simp only [messageEq]
  cases complete : message.isComplete with
  | true => exact ⟨rfl, Table.find?_erase_self _ _⟩
  | false => exact ⟨rfl, Table.find?_insert_self _ _ _⟩

/-- Whatever makes a reassembly forget does no more than that to the slots of
other messages. -/
theorem slot_answer_of_foreign {reassembly : Reassembly}
    (distinct : reassembly.messages.Distinct) {call : Call} {key : UInt32 × Endpoint}
    (sweeps : call.sweeps = true) (foreign : ∀ fragment, call.fragment? ≠ some (key, fragment)) :
    (reassembly.answer call).2.slot key =
      (reassembly.slot key).filter (·.isFresh reassembly.ttl call.time) := by
  rcases evict_or_fragment sweeps with ⟨now, rfl⟩ | ⟨other, fragment, brought⟩
  · exact slot_evict distinct now key
  · have different : key ≠ other := by
      rintro rfl
      exact foreign fragment brought
    have own := (fragment?_eq_some_iff.mp brought).2.ownId
    rw [answer_of_fragment? brought, acceptFragment_eq distinct own,
      ← slot_evict distinct call.time key]
    dsimp only
    split
    · exact Table.find?_erase_of_ne different
    · exact Table.find?_insert_of_ne different

/-! ## Runs -/

/-- No call changes the age at which messages are forgotten, or gives a message
two slots. -/
theorem answer_keeps {reassembly : Reassembly} (distinct : reassembly.messages.Distinct)
    (call : Call) :
    (reassembly.answer call).2.ttl = reassembly.ttl ∧
      (reassembly.answer call).2.messages.Distinct := by
  cases sweeps : call.sweeps with
  | false =>
      rw [answer_of_not_sweeps sweeps]
      exact ⟨rfl, distinct⟩
  | true =>
      have kept : (reassembly.evict call.time).messages.Distinct := Table.distinct_keep distinct _
      rcases evict_or_fragment sweeps with ⟨now, rfl⟩ | ⟨key, fragment, brought⟩
      · exact ⟨rfl, kept⟩
      · have own := (fragment?_eq_some_iff.mp brought).2.ownId
        rw [answer_of_fragment? brought, acceptFragment_eq distinct own]
        dsimp only
        split
        · exact ⟨rfl, Table.distinct_erase kept key⟩
        · exact ⟨rfl, Table.distinct_insert kept key _⟩

theorem after_keeps {reassembly : Reassembly} (distinct : reassembly.messages.Distinct)
    (calls : List Call) :
    (reassembly.after calls).ttl = reassembly.ttl ∧
      (reassembly.after calls).messages.Distinct := by
  induction calls generalizing reassembly with
  | nil => exact ⟨rfl, distinct⟩
  | cons call later inductionHypothesis =>
      rcases answer_keeps distinct call with ⟨ttlEq, stillDistinct⟩
      rcases inductionHypothesis stillDistinct with ⟨laterEq, laterDistinct⟩
      exact ⟨laterEq.trans ttlEq, laterDistinct⟩

end Reassembly

end ClusterOverlay
