import ClusterOverlay.Proofs.Membership.Messages
import ClusterOverlay.Proofs.Node.Start
import ClusterOverlay.Proofs.Outbox
import ClusterOverlay.Proofs.Roster
import ClusterOverlay.Station

/-!
# Letters

A letter is a message on its way to a node.  What a node tells somebody becomes
a letter if it can be written and the recipient has an address, and is lost
otherwise.  The letters of several actions are all that these put into the
node's schedule, under consecutive ids: `Node.posts_foldl_perform`.

Between nodes that are named by their addresses nothing is lost, whatever they
tell each other of their rosters; and every station that starts is so named, by
`Station.isLiteral_of_start`.
-/

namespace ClusterOverlay

/-- A message on its way to a node. -/
structure Letter where
  recipient : Peer
  message : Control
  deriving DecidableEq, Repr

namespace Letter

/-- Whether the message can be written and the recipient has an address. -/
def isSendable (letter : Letter) (resolver : Resolver) : Bool :=
  letter.message.encode.isOk && (letter.recipient.endpoint resolver).isOk

/-- The fragments of the message as they wait on their way to the recipient. -/
def items (letter : Letter) (resolver : Resolver) (limit : Nat) (messageId : UInt32) :
    List Scheduled :=
  match letter.message.encode, letter.recipient.endpoint resolver with
  | .ok payload, .ok endpoint =>
      ((Outbox.packet payload endpoint .use (.control letter.message.content)).fragments limit
        messageId).map (·.toward letter.recipient)
  | _, _ => []

/-- The fragments of several messages under consecutive ids. -/
def itemsOfAll (resolver : Resolver) (limit : Nat) : UInt32 → List Letter → List Scheduled
  | _, [] => []
  | messageId, letter :: later =>
      letter.items resolver limit messageId ++ itemsOfAll resolver limit (messageId + 1) later

theorem itemsOfAll_append {resolver : Resolver} {limit : Nat} (messageId : UInt32)
    (first later : List Letter) :
    itemsOfAll resolver limit messageId (first ++ later) =
      itemsOfAll resolver limit messageId first ++
        itemsOfAll resolver limit (messageId + UInt32.ofNat first.length) later := by
  induction first generalizing messageId with
  | nil => simp [itemsOfAll]
  | cons letter rest inductionHypothesis =>
      have next : messageId + UInt32.ofNat (letter :: rest).length =
          messageId + 1 + UInt32.ofNat rest.length := by
        rw [List.length_cons, Nat.add_comm, UInt32.ofNat_add, UInt32.add_assoc]
        rfl
      rw [List.cons_append, itemsOfAll, itemsOfAll, inductionHypothesis, List.append_assoc, next]

theorem isSendable_iff {letter : Letter} {resolver : Resolver} :
    letter.isSendable resolver = true ↔
      (∃ payload, letter.message.encode = .ok payload) ∧
        ∃ endpoint, letter.recipient.endpoint resolver = .ok endpoint := by
  unfold isSendable
  cases letter.message.encode with
  | error cause => simp [Except.isOk, Except.toBool]
  | ok payload =>
      cases letter.recipient.endpoint resolver with
      | error cause => simp [Except.isOk, Except.toBool]
      | ok endpoint => simp [Except.isOk, Except.toBool]

end Letter

/-- The letter that comes of an action, if one does. -/
def Action.letter? (resolver : Resolver) : Action → Option Letter
  | .tell recipient message =>
      if Letter.isSendable ⟨recipient, message⟩ resolver then some ⟨recipient, message⟩ else none
  | _ => none

/-- The letters that come of several actions. -/
def letters (resolver : Resolver) (actions : List Action) : List Letter :=
  actions.filterMap (Action.letter? resolver)

/-! ## Letters in the queue -/

namespace Mailroom

/-- What can be sent takes an id when it is told, and its fragments are added to what waits. -/
theorem exists_tell_eq_of_isSendable (room : Mailroom) (now : Nat) {letter : Letter}
    (sendable : letter.isSendable room.resolver = true) :
    ∃ outbox, room.tell now letter.recipient letter.message = { room with outbox } ∧
      outbox.maxPayload = room.outbox.maxPayload ∧ outbox.nextId = room.outbox.nextId + 1 ∧
      outbox.schedule.waiting.Perm (room.outbox.schedule.waiting ++
        letter.items room.resolver room.outbox.maxPayload room.outbox.nextId) := by
  obtain ⟨⟨payload, written⟩, endpoint, known⟩ := Letter.isSendable_iff.mp sendable
  obtain ⟨outbox, sent, limitEq, idEq, added⟩ :=
    exists_sendDirect_eq known now payload .use (.control letter.message.content)
  refine ⟨outbox, ?_, limitEq, idEq, ?_⟩
  · rw [tell, sendMessage, written]
    change (room.sendDirect now payload letter.recipient .use _).toOption.getD room = _
    rw [sent]
    rfl
  · rw [Letter.items, written, known]
    exact added

/-- What cannot be sent changes nothing when it is told. -/
theorem tell_of_not_isSendable (room : Mailroom) (now : Nat) {letter : Letter}
    (lost : letter.isSendable room.resolver = false) :
    room.tell now letter.recipient letter.message = room := by
  unfold tell sendMessage
  cases written : letter.message.encode with
  | error cause => rfl
  | ok payload =>
      cases resolved : letter.recipient.endpoint room.resolver with
      | ok endpoint =>
          have sendable := Letter.isSendable_iff.mpr ⟨⟨payload, written⟩, endpoint, resolved⟩
          rw [lost] at sendable
          contradiction
      | error cause =>
          change (room.sendDirect now payload letter.recipient .use _).toOption.getD room = room
          rw [sendDirect, Outbox.sendDirect, Outbox.sendVia, resolved]
          rfl

end Mailroom

namespace Node

/-- The outbox of the second node is that of the first with the letters added. -/
structure Posts (former : Node) (posted : List Letter) (latter : Node) : Prop where
  resolverEq : latter.resolver = former.resolver
  limitEq : latter.outbox.maxPayload = former.outbox.maxPayload
  waiting : latter.outbox.schedule.waiting.Perm (former.outbox.schedule.waiting ++
    Letter.itemsOfAll former.resolver former.outbox.maxPayload former.outbox.nextId posted)
  idEq : latter.outbox.nextId = former.outbox.nextId + UInt32.ofNat posted.length

variable {former middle latter : Node} {posted later : List Letter}

theorem Posts.refl (node : Node) : node.Posts [] node where
  resolverEq := rfl
  limitEq := rfl
  waiting := by rw [Letter.itemsOfAll, List.append_nil]
  idEq := (UInt32.add_zero _).symm

theorem Posts.trans (first : former.Posts posted middle) (second : middle.Posts later latter) :
    former.Posts (posted ++ later) latter where
  resolverEq := second.resolverEq.trans first.resolverEq
  limitEq := second.limitEq.trans first.limitEq
  waiting := by
    have added := second.waiting
    rw [first.resolverEq, first.limitEq, first.idEq] at added
    rw [Letter.itemsOfAll_append, ← List.append_assoc]
    exact added.trans (first.waiting.append_right _)
  idEq := by
    rw [second.idEq, first.idEq, List.length_append, UInt32.ofNat_add, UInt32.add_assoc]

/-- An action posts the letter that comes of it, if one does. -/
theorem posts_perform (now : Nat) (node : Node) (action : Action) :
    node.Posts (action.letter? node.resolver).toList (perform now node action) := by
  cases action with
  | tell recipient message =>
      cases sendable : Letter.isSendable ⟨recipient, message⟩ node.resolver with
      | true =>
          obtain ⟨outbox, told, limitEq, idEq, added⟩ :=
            node.toMailroom.exists_tell_eq_of_isSendable now sendable
          have performed : perform now node (.tell recipient message) = { node with outbox } :=
            congrArg (fun room => { node with toMailroom := room }) told
          rw [Action.letter?, if_pos sendable, performed]
          refine ⟨rfl, limitEq, ?_, idEq⟩
          rw [Option.toList_some, Letter.itemsOfAll, Letter.itemsOfAll, List.append_nil]
          exact added
      | false =>
          have performed : perform now node (.tell recipient message) = node :=
            congrArg (fun room => { node with toMailroom := room })
              (node.toMailroom.tell_of_not_isSendable now sendable)
          rw [Action.letter?, if_neg (Bool.eq_false_iff.mp sendable), performed]
          exact .refl node
  | reconcile =>
      simp only [perform, reconcile]
      split <;> exact ⟨rfl, rfl, (Posts.refl node).waiting, (Posts.refl node).idEq⟩
  | refresh | forget | hangUp | stop =>
      exact ⟨rfl, rfl, (Posts.refl node).waiting, (Posts.refl node).idEq⟩

/-- Several actions post the letters that come of them. -/
theorem posts_foldl_perform (now : Nat) (node : Node) (actions : List Action) :
    node.Posts (letters node.resolver actions) (actions.foldl (perform now) node) := by
  induction actions generalizing node with
  | nil => exact .refl node
  | cons action later inductionHypothesis =>
      have first := posts_perform now node action
      have rest := inductionHypothesis (perform now node action)
      rw [first.resolverEq] at rest
      have split : letters node.resolver (action :: later) =
          (action.letter? node.resolver).toList ++ letters node.resolver later := by
        cases written : action.letter? node.resolver with
        | none => simp [letters, written]
        | some letter => simp [letters, written]
      rw [split]
      exact first.trans rest

/-- A reaction posts the letters that come of its actions. -/
theorem posts_carryOut (node : Node) (now : Nat) (reaction : Reaction) :
    node.Posts (letters node.resolver reaction.actions) (node.carryOut now reaction) := by
  have posts := posts_foldl_perform now { node with view := reaction.view } reaction.actions
  exact ⟨posts.resolverEq, posts.limitEq, posts.waiting, posts.idEq⟩

/-- A node that leaves gives out its batches first.  Then it posts its farewell. -/
theorem posts_leave (node : Node) (now : Nat) :
    (node.inMailroom (·.flushAll now)).Posts
      (letters node.resolver (node.view.farewell node.role)) (node.leave now) := by
  have resolverEq : (node.inMailroom (·.flushAll now)).resolver = node.resolver :=
    node.toMailroom.flushAll_resolver now
  rw [leave_eq, ← resolverEq]
  exact posts_foldl_perform now _ _

end Node

/-! ## Letters among actions -/

theorem mem_letters_iff {resolver : Resolver} {actions : List Action} {letter : Letter} :
    letter ∈ letters resolver actions ↔
      .tell letter.recipient letter.message ∈ actions ∧ letter.isSendable resolver = true := by
  rw [letters, List.mem_filterMap]
  constructor
  · rintro ⟨action, actionMem, written⟩
    cases action with
    | tell recipient message =>
        simp only [Action.letter?, Option.ite_none_right_eq_some, Option.some.injEq] at written
        rcases written with ⟨sendable, rfl⟩
        exact ⟨actionMem, sendable⟩
    | reconcile | refresh | forget | hangUp | stop => contradiction
  · rintro ⟨told, sendable⟩
    exact ⟨_, told, if_pos sendable⟩

/-! ## Peers named by their addresses -/

/-- A node keeps the name with which it starts. -/
theorem Node.self_start (config : Config) (room : Mailroom) (now : Nat) {self mainServer : Peer}
    (fresh : room.view = .initial self mainServer) :
    ((create config room).start now).view.self = self := by
  rw [(holds_start config room now self mainServer fresh).viewEq, fresh, View.initial]
  split
  · rfl
  · rfl

/-- A station that has started is named by the address on which it listens. -/
theorem Station.isLiteral_of_start {config : Config} {device mainServer : Peer} {firstId : UInt32}
    {resolver : Resolver} {listen : Endpoint → Except TransportError UInt16} {now : Nat}
    {station : Station}
    (started : Station.start config device mainServer firstId resolver listen now = .ok station) :
    station.node.view.self.IsLiteral := by
  obtain ⟨_, _, started⟩ := exists_of_bind_eq_ok started
  obtain ⟨endpoint, _, started⟩ := exists_of_bind_eq_ok started
  obtain ⟨mainServer, _, started⟩ := exists_of_bind_eq_ok started
  obtain ⟨port, _, started⟩ := exists_of_bind_eq_ok started
  rw [← Except.ok.inj started]
  dsimp only
  rw [Node.self_start config _ now rfl]
  exact Peer.isLiteral_ofEndpoint endpoint port

/-- A roster of peers with addresses can be written. -/
theorem Roster.exists_encode {roster : Roster} (led : roster.Led)
    (literal : ∀ peer ∈ roster.members, peer.IsLiteral) :
    ∃ bytes, roster.encode = .ok bytes := by
  apply exists_encode_iff.mpr
  intro peer named
  have peerMem : peer ∈ roster.members :=
    (List.mem_append.mp named).elim id fun serverMem => led.servers_subset serverMem
  exact (literal peer peerMem).isShort

/-- Whatever can be written can be sent to whoever is named by its address. -/
theorem Letter.isSendable_of_encode {letter : Letter} {bytes : Bytes} {resolver : Resolver}
    (written : letter.message.encode = .ok bytes) (literal : letter.recipient.IsLiteral) :
    letter.isSendable resolver = true :=
  isSendable_iff.mpr ⟨⟨bytes, written⟩, literal.exists_endpoint resolver⟩

/-- What is told to several peers with addresses reaches each of them. -/
theorem View.mem_letters_tellAll_iff {view : View} {recipients : List Peer} {message : Control}
    {bytes : Bytes} (written : message.encode = .ok bytes)
    (literal : ∀ peer ∈ recipients, peer ≠ view.self → peer.IsLiteral) {resolver : Resolver}
    {letter : Letter} :
    letter ∈ letters resolver (view.tellAll recipients message) ↔
      ∃ peer, (peer ≠ view.self ∧ peer ∈ recipients) ∧ letter = ⟨peer, message⟩ := by
  rw [mem_letters_iff, tell_mem_tellAll_iff]
  constructor
  · rintro ⟨⟨peerMem, other, told⟩, _⟩
    exact ⟨letter.recipient, ⟨other, peerMem⟩, told ▸ rfl⟩
  · rintro ⟨peer, ⟨other, peerMem⟩, rfl⟩
    exact ⟨⟨peerMem, other, rfl⟩,
      Letter.isSendable_of_encode written (literal peer peerMem other)⟩

end ClusterOverlay
