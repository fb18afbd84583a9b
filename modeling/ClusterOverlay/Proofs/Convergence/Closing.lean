import ClusterOverlay.Proofs.Batch
import ClusterOverlay.Proofs.Convergence.Evictions

/-!
# Closing

A main server that leaves closes the overlay.  It tells those whom it watches, each of them
who leads a cluster tells those whom it watches in turn, and whoever is told stops:
`Fleet.Settled.announces_of_farewell` and `Fleet.Settled.announces_of_close`.  Every other
member is watched by exactly one, so each is told once, whatever the order in which letters
arrive, and nothing more is said after that: `Fleet.close_reaches_all`.
-/

namespace ClusterOverlay

open Peer (numbered)

/-! ## Whom a node tells of the end -/

/-- Nobody is told twice. -/
theorem View.nodup_recipients_tellAll {recipients : List Peer} (distinct : recipients.Nodup)
    (view : View) (message : Control) (resolver : Resolver) :
    ((letters resolver (view.tellAll recipients message)).map Letter.recipient).Nodup := by
  have apart := ((Peer.ascending_perm distinct).nodup_iff.mpr distinct).filter (· ≠ view.self)
  have written :
      (fun peer => (Action.letter? resolver (.tell peer message)).map Letter.recipient) =
        Option.guard fun peer => Letter.isSendable ⟨peer, message⟩ resolver := by
    funext peer
    by_cases sendable : Letter.isSendable ⟨peer, message⟩ resolver = true
    · simp [Action.letter?, Option.guard, sendable]
    · simp [Action.letter?, Option.guard, sendable]
  rw [letters, tellAll, List.filterMap_map, List.map_filterMap]
  simp only [Function.comp_apply, written, List.filterMap_eq_filter]
  exact apart.filter _

/-- A node announces the end of the overlay to those whom it watches, and says nothing else. -/
structure Announces (roster : Roster) (mainServer watcher : Peer) (resolver : Resolver)
    (actions : List Action) : Prop where
  messageEq : ∀ letter ∈ letters resolver actions, letter.message = .close
  told : ∀ peer, peer ∈ (letters resolver actions).map Letter.recipient ↔
    roster.Watches mainServer watcher peer
  once : ((letters resolver actions).map Letter.recipient).Nodup

/-- Whoever tells exactly those whom it watches announces the end. -/
theorem Announces.of_tellAll {roster : Roster} {mainServer watcher : Peer} {view : View}
    {recipients : List Peer} (distinct : recipients.Nodup)
    (watched : ∀ peer, peer ≠ view.self ∧ peer ∈ recipients ↔
      roster.Watches mainServer watcher peer)
    (literal : ∀ peer, roster.Watches mainServer watcher peer → peer.IsLiteral)
    {resolver : Resolver} {actions : List Action}
    (said : letters resolver actions = letters resolver (view.tellAll recipients .close)) :
    Announces roster mainServer watcher resolver actions := by
  have mem : ∀ letter, letter ∈ letters resolver actions ↔
      ∃ peer, roster.Watches mainServer watcher peer ∧ letter = ⟨peer, .close⟩ := by
    intro letter
    rw [said, View.mem_letters_tellAll_iff rfl fun peer recipientMem away =>
      literal peer ((watched peer).mp ⟨away, recipientMem⟩)]
    simp only [watched]
  refine ⟨?_, ?_, said ▸ View.nodup_recipients_tellAll distinct view .close resolver⟩
  · intro letter letterMem
    obtain ⟨peer, _, rfl⟩ := (mem letter).mp letterMem
    rfl
  · intro peer
    rw [List.mem_map]
    constructor
    · rintro ⟨letter, letterMem, rfl⟩
      obtain ⟨other, watches, rfl⟩ := (mem letter).mp letterMem
      exact watches
    · intro watches
      exact ⟨⟨peer, .close⟩, (mem _).mpr ⟨peer, watches, rfl⟩, rfl⟩

/-- Whoever is told of the end, except the main server, is about to end. -/
theorem Node.phase_onMessage_close {node : Node} (subject : node.role ≠ .mainServer) (now : Nat) :
    (node.onMessage now .close).phase = .draining now now := by
  unfold onMessage carryOut
  cases role : node.role with
  | mainServer => exact absurd role subject
  | clusterServer =>
      rw [View.react, List.foldl_concat]
      rfl
  | client => rfl

/-- A node that is about to end does so, whatever is left, once it has waited long enough. -/
theorem Node.phase_drainIfDue_of_draining {node : Node} {since next now : Nat}
    (drains : node.phase = .draining since next) (due : next ≤ now)
    (late : since + Phase.drainLimit ≤ now) : (node.drainIfDue now).phase = .stopped now := by
  simp [drainIfDue, drains, due, late, stop]

namespace Fleet

variable {mainServer peer : Peer} {fleet after : Fleet}

namespace Settled

theorem literal_of_watches (settled : fleet.Settled mainServer) {watcher : Peer}
    (watches : (fleet.roster mainServer).Watches mainServer watcher peer) : peer.IsLiteral :=
  settled.literal peer (watches.mem_members settled.presides.toLed)

/-- The main server that leaves announces the end. -/
theorem announces_of_farewell (settled : fleet.Settled mainServer) (resolver : Resolver) :
    Announces (fleet.roster mainServer) mainServer mainServer resolver
      ((fleet.node mainServer).view.farewell (fleet.node mainServer).role) := by
  have presides := settled.presides
  have sound := presides.toSound
  have mainMem := List.mem_of_getElem? presides.leads
  have clusterPeers : ∀ peer, peer ∈ (fleet.node mainServer).view.clusterPeers ↔ _ :=
    fun _ => View.mem_clusterPeers_iff sound.distinct
  rw [presides.selfEq] at clusterPeers
  have distinct : ((fleet.node mainServer).view.servers ++
      (fleet.node mainServer).view.clusterPeers).Nodup := by
    refine List.nodup_append'.mpr ⟨sound.nodup_servers, View.nodup_clusterPeers sound.distinct, ?_⟩
    intro peer leads peerMem
    obtain ⟨away, together⟩ := (clusterPeers peer).mp peerMem
    exact away (sound.eq_of_together mainMem leads together).symm
  rw [(settled.belongs mainServer).role_eq_mainServer]
  refine .of_tellAll ((Peer.ascending_perm distinct).nodup_iff.mpr distinct) ?_
    (fun peer => settled.literal_of_watches) rfl
  intro peer
  rw [roster, sound.watches_mainServer_iff mainMem, presides.selfEq,
    Peer.mem_ascending, List.mem_append, clusterPeers]
  tauto

/-- Any other member that is told of the end announces it. -/
theorem announces_of_close (settled : fleet.Settled mainServer)
    (member : peer ∈ (fleet.roster mainServer).members) (away : peer ≠ mainServer)
    (resolver : Resolver) :
    Announces (fleet.roster mainServer) mainServer peer resolver
      ((fleet.node peer).view.react (fleet.node peer).role .close).actions := by
  have presides := settled.presides
  have belongs := settled.belongs peer
  have same : (fleet.node peer).view.toRoster = fleet.roster mainServer :=
    settled.rosterEq peer member
  have sound : (fleet.node peer).view.Sound := same ▸ presides.toSound
  have mainMem : mainServer ∈ (fleet.node peer).view.servers :=
    same ▸ List.mem_of_getElem? presides.leads
  rw [← same]
  have literal : ∀ other, (fleet.node peer).view.Watches mainServer peer other →
      other.IsLiteral := fun _ watches => settled.literal_of_watches (same ▸ watches)
  by_cases leads : peer ∈ (fleet.node peer).view.servers
  · rw [belongs.role_eq_clusterServer away leads]
    have said : letters resolver ((fleet.node peer).view.react .clusterServer .close).actions =
        letters resolver
          ((fleet.node peer).view.tellAll (fleet.node peer).view.clusterPeers .close) := by
      simp [View.react, letters, Action.letter?]
    refine .of_tellAll (View.nodup_clusterPeers sound.distinct) ?_ literal said
    intro other
    rw [sound.watches_server_iff mainMem leads away, View.mem_clusterPeers_iff sound.distinct,
      belongs.selfEq]
    tauto
  · rw [belongs.role_eq_client away leads]
    have nobody : ∀ other, ¬ (fleet.node peer).view.Watches mainServer peer other :=
      fun other watches => leads (watches.mem_servers mainMem)
    refine ⟨?_, ?_, List.nodup_nil⟩
    · simp [View.react, letters, Action.letter?]
    · simp [View.react, letters, Action.letter?, nobody]

end Settled

/-! ## Letters that are read -/

/-- The main server leaves, and with it closes the overlay. -/
def close (fleet : Fleet) (mainServer : Peer) (now : Nat) : Fleet :=
  fleet.turn mainServer ((fleet.node mainServer).close now)
    ((fleet.node mainServer).view.farewell (fleet.node mainServer).role)

/-- One of the letters on their way arrives, whichever it is, and is read if it can be.  A node
that is about to end reads nothing any more. -/
inductive Hears : Fleet → Option Letter → Fleet → Prop
  | lost {fleet : Fleet} {before after : List Letter} {letter : Letter}
      (underway : fleet.inFlight = before ++ letter :: after)
      (deaf : letter.recipient ∈ fleet.stopped ∨
        (fleet.node letter.recipient).phase ≠ .running) :
      Hears fleet none { fleet with inFlight := before ++ after }
  | read {fleet : Fleet} {before after : List Letter} {letter : Letter} (now : Nat)
      (underway : fleet.inFlight = before ++ letter :: after)
      (live : letter.recipient ∉ fleet.stopped)
      (running : (fleet.node letter.recipient).phase = .running) :
      Hears fleet (some letter)
        ({ fleet with inFlight := before ++ after }.turn letter.recipient
          ((fleet.node letter.recipient).onMessage now letter.message)
          (fleet.reaction letter).actions)

/-- Letters arrive one after another, and those that are read are listed. -/
inductive Heard (fleet : Fleet) : List Letter → Fleet → Prop
  | start : Heard fleet [] fleet
  | next {read : List Letter} {former after : Fleet} {letter? : Option Letter}
      (earlier : Heard fleet read former) (last : Hears former letter? after) :
      Heard fleet (read ++ letter?.toList) after

/-- What holds while the end of the overlay is being announced.  Those to whom a letter was or
is on its way are those who are watched by one who has been told, and each has one letter.
Whoever has not been told is as before, and whoever has been told is about to end. -/
structure Closing (mainServer : Peer) (fleet : Fleet) (read : List Letter) (after : Fleet) :
    Prop where
  messageEq : ∀ letter ∈ read ++ after.inFlight, letter.message = .close
  told : ∀ peer, peer ∈ (read ++ after.inFlight).map Letter.recipient ↔
    ∃ watcher ∈ mainServer :: read.map Letter.recipient,
      (fleet.roster mainServer).Watches mainServer watcher peer
  once : ((read ++ after.inFlight).map Letter.recipient).Nodup
  nodeEq : ∀ peer, peer ∉ mainServer :: read.map Letter.recipient →
    after.node peer = fleet.node peer
  drains : ∀ peer ∈ read.map Letter.recipient, ∃ time,
    (after.node peer).phase = .draining time time
  stoppedEq : after.stopped = fleet.stopped

namespace Closing

variable {read : List Letter}

theorem start (settled : fleet.Settled mainServer) (now : Nat) :
    Closing mainServer fleet [] (fleet.close mainServer now) := by
  have announces := settled.announces_of_farewell (fleet.node mainServer).resolver
  have inFlight : (fleet.close mainServer now).inFlight =
      letters (fleet.node mainServer).resolver
        ((fleet.node mainServer).view.farewell (fleet.node mainServer).role) := by
    rw [close, turn, settled.quiet, List.nil_append]
  refine ⟨?_, ?_, ?_, ?_, by simp, rfl⟩
  · rw [inFlight]
    exact announces.messageEq
  · intro peer
    rw [inFlight]
    simpa using announces.told peer
  · rw [inFlight]
    exact announces.once
  · intro peer away
    exact turn_node_of_ne (by simpa using away) _ _

/-- Whoever has a letter on its way to it is a member that has not been told. -/
theorem unread (settled : fleet.Settled mainServer)
    (closing : Closing mainServer fleet read after) {letter : Letter}
    (letterMem : letter ∈ after.inFlight) :
    letter.recipient ∈ (fleet.roster mainServer).members ∧
      letter.recipient ∉ mainServer :: read.map Letter.recipient := by
  obtain ⟨watcher, _, watches⟩ :=
    (closing.told _).mp (List.mem_map_of_mem (List.mem_append_right read letterMem))
  refine ⟨watches.mem_members settled.presides.toLed, ?_⟩
  have once := closing.once
  rw [List.map_append, List.nodup_append'] at once
  rw [List.mem_cons, not_or]
  exact ⟨watches.1, fun before => once.2.2 before (List.mem_map_of_mem letterMem)⟩

/-- One more letter that is read makes its reader one of those who have been told. -/
theorem exists_told_concat_iff {told : Peer → Prop} {letter : Letter} :
    (∃ watcher ∈ mainServer :: (read ++ [letter]).map Letter.recipient, told watcher) ↔
      (∃ watcher ∈ mainServer :: read.map Letter.recipient, told watcher) ∨
        told letter.recipient := by
  simp only [List.map_append, List.map_singleton, ← List.cons_append, List.mem_append,
    List.mem_singleton, or_and_right, exists_or, exists_eq_left]

/-- Whoever reads that the overlay closes is about to end, as are those who read it before. -/
theorem drains_concat {former : Fleet} (closing : Closing mainServer fleet read former)
    {letter : Letter} (unread : letter.recipient ∉ read.map Letter.recipient)
    (subject : (former.node letter.recipient).role ≠ .mainServer) (inFlight : List Letter)
    (now : Nat) (actions : List Action) :
    ∀ peer ∈ (read ++ [letter]).map Letter.recipient, ∃ time,
      (({ former with inFlight }.turn letter.recipient
        ((former.node letter.recipient).onMessage now .close) actions).node peer).phase =
          .draining time time := by
  intro peer peerTold
  rw [List.map_append, List.map_singleton, List.mem_append, List.mem_singleton] at peerTold
  rcases peerTold with earlier | rfl
  · have other : peer ≠ letter.recipient := fun same => unread (same ▸ earlier)
    obtain ⟨time, drains⟩ := closing.drains peer earlier
    exact ⟨time, (congrArg Node.phase (turn_node_of_ne other _ _)).trans drains⟩
  · refine ⟨now, ?_⟩
    rw [turn_node_self]
    exact Node.phase_onMessage_close subject now

/-- Whoever reads the letter on its way to it passes it on to those whom it watches. -/
theorem passOn (settled : fleet.Settled mainServer) {former : Fleet}
    (closing : Closing mainServer fleet read former) {before later : List Letter}
    {letter : Letter} (underway : former.inFlight = before ++ letter :: later) (now : Nat) :
    Closing mainServer fleet (read ++ [letter])
      ({ former with inFlight := before ++ later }.turn letter.recipient
        ((former.node letter.recipient).onMessage now letter.message)
        (former.reaction letter).actions) := by
  obtain ⟨member, untold⟩ := closing.unread settled (underway ▸ List.mem_append_cons_self)
  have away : letter.recipient ≠ mainServer := List.ne_of_not_mem_cons untold
  have messageEq : letter.message = .close := closing.messageEq letter (by simp [underway])
  have nodeEq := closing.nodeEq _ untold
  let said := letters (former.node letter.recipient).resolver (former.reaction letter).actions
  have announces : Announces (fleet.roster mainServer) mainServer letter.recipient
      (former.node letter.recipient).resolver (former.reaction letter).actions := by
    rw [reaction, nodeEq, messageEq]
    exact settled.announces_of_close member away _
  have perm : (read ++ [letter] ++ (before ++ later ++ said)).Perm
      (read ++ former.inFlight ++ said) := by
    rw [underway, List.append_assoc, List.append_assoc, List.singleton_append, List.append_assoc,
      List.append_assoc, List.cons_append]
    exact List.perm_middle.symm.append_left read
  refine ⟨?_, ?_, ?_, ?_, ?_, closing.stoppedEq⟩
  · intro other otherMem
    rcases List.mem_append.mp (perm.subset otherMem) with earlier | said
    · exact closing.messageEq other earlier
    · exact announces.messageEq other said
  · intro peer
    rw [exists_told_concat_iff, ← closing.told, ← announces.told, ← List.mem_append,
      ← List.map_append]
    exact (perm.map Letter.recipient).mem_iff
  · refine (perm.map Letter.recipient).nodup_iff.mpr ?_
    rw [List.map_append, List.nodup_append']
    refine ⟨closing.once, announces.once, ?_⟩
    -- Whoever was written to before is watched by another, and nobody by two.
    intro peer earlier said
    obtain ⟨watcher, watcherMem, watches⟩ := (closing.told peer).mp earlier
    have same := watches.unique settled.presides.distinct ((announces.told peer).mp said)
    exact untold (same ▸ watcherMem)
  · intro peer peerUntold
    simp only [List.map_append, List.map_singleton, ← List.cons_append, List.mem_append,
      List.mem_singleton, not_or] at peerUntold
    exact (turn_node_of_ne peerUntold.2 _ _).trans (closing.nodeEq peer peerUntold.1)
  · have subject : (former.node letter.recipient).role ≠ .mainServer := by
      rw [nodeEq, (settled.belongs _).roleEq]
      exact View.role_ne_mainServer ((settled.belongs _).self_ne_mainServer away)
    rw [messageEq]
    exact closing.drains_concat (List.not_mem_of_not_mem_cons untold) subject _ now _

/-- No letter is lost. -/
theorem hears (settled : fleet.Settled mainServer)
    (running : ∀ peer ∈ (fleet.roster mainServer).members, (fleet.node peer).phase = .running)
    {former : Fleet} (closing : Closing mainServer fleet read former) {letter? : Option Letter}
    (last : Hears former letter? after) :
    ∃ letter, letter? = some letter ∧ Closing mainServer fleet (read ++ [letter]) after := by
  cases last with
  | @lost before later letter underway deaf =>
      obtain ⟨member, untold⟩ := closing.unread settled (underway ▸ List.mem_append_cons_self)
      rcases deaf with stopped | ends
      · rw [closing.stoppedEq] at stopped
        exact absurd stopped (settled.live _ member)
      · rw [closing.nodeEq _ untold] at ends
        exact absurd (running _ member) ends
  | read now underway => exact ⟨_, rfl, closing.passOn settled underway now⟩

theorem heard (settled : fleet.Settled mainServer)
    (running : ∀ peer ∈ (fleet.roster mainServer).members, (fleet.node peer).phase = .running)
    (now : Nat) (heard : Heard (fleet.close mainServer now) read after) :
    Closing mainServer fleet read after := by
  induction heard with
  | start => exact .start settled now
  | next _ last inductionHypothesis =>
      obtain ⟨letter, rfl, closing⟩ := inductionHypothesis.hears settled running last
      exact closing

theorem subset_members (settled : fleet.Settled mainServer)
    (closing : Closing mainServer fleet read after) :
    ∀ peer ∈ (read ++ after.inFlight).map Letter.recipient,
      peer ∈ (fleet.roster mainServer).members ∧ peer ≠ mainServer := by
  intro peer peerMem
  obtain ⟨watcher, _, watches⟩ := (closing.told peer).mp peerMem
  exact ⟨watches.mem_members settled.presides.toLed, watches.1⟩

theorem nodup_read (closing : Closing mainServer fleet read after) :
    (read.map Letter.recipient).Nodup := by
  have once := closing.once
  rw [List.map_append] at once
  exact once.of_append_left

/-- As every letter is read, and by another member, letters come to an end. -/
theorem acc (settled : fleet.Settled mainServer)
    (running : ∀ peer ∈ (fleet.roster mainServer).members, (fleet.node peer).phase = .running)
    (closing : Closing mainServer fleet read after) :
    Acc (fun next former => ∃ letter?, Hears former letter? next) after := by
  induction left : (fleet.roster mainServer).members.length - read.length using
    Nat.strongRecOn generalizing read after with
  | ind left inductionHypothesis =>
      subst left
      refine Acc.intro _ ?_
      rintro next ⟨letter?, last⟩
      obtain ⟨letter, rfl, later⟩ := closing.hears settled running last
      have subset : (read ++ [letter]).map Letter.recipient ⊆ (fleet.roster mainServer).members :=
        fun peer peerMem => (later.subset_members settled peer
          (by rw [List.map_append]; exact List.mem_append_left _ peerMem)).1
      have bound := (later.nodup_read.subperm subset).length_le
      rw [List.length_map, List.length_append, List.length_singleton] at bound
      refine inductionHypothesis _ ?_ later rfl
      rw [List.length_append, List.length_singleton]
      omega

/-- Once nothing is on its way any more, all but the main server have been told. -/
theorem mem_read_of_quiet (settled : fleet.Settled mainServer)
    (closing : Closing mainServer fleet read after) (quiet : after.inFlight = [])
    (member : peer ∈ (fleet.roster mainServer).members) (away : peer ≠ mainServer) :
    peer ∈ read.map Letter.recipient := by
  have told := closing.told
  rw [quiet, List.append_nil] at told
  have led := settled.presides.toLed
  have mainMem : mainServer ∈ (fleet.roster mainServer).servers :=
    List.mem_of_getElem? settled.presides.leads
  obtain ⟨watcher, watches⟩ := led.exists_watches member away
  refine (told peer).mpr ⟨watcher, ?_, watches⟩
  by_cases main : watcher = mainServer
  · exact main ▸ List.mem_cons_self
  · refine List.mem_cons_of_mem _ ((told watcher).mpr ⟨mainServer, List.mem_cons_self, ?_⟩)
    exact (Roster.watches_iff_of_mem_servers (watches.mem_servers mainMem)).mpr ⟨main, rfl⟩

/-- The recipients of the letters that were read are all members but the main server exactly
when nothing is on its way any more. -/
theorem quiet_iff_perm (settled : fleet.Settled mainServer)
    (closing : Closing mainServer fleet read after) :
    after.inFlight = [] ↔ (read.map Letter.recipient).Perm
      ((fleet.roster mainServer).members.filter (· ≠ mainServer)) := by
  constructor
  · intro quiet
    refine (List.perm_ext_iff_of_nodup closing.nodup_read
      (settled.presides.distinct.filter _)).mpr ?_
    intro peer
    rw [List.mem_filter, decide_eq_true_eq]
    constructor
    · intro peerMem
      exact closing.subset_members settled peer
        (by rw [List.map_append]; exact List.mem_append_left _ peerMem)
    · rintro ⟨member, away⟩
      exact closing.mem_read_of_quiet settled quiet member away
  · intro perm
    rw [List.eq_nil_iff_forall_not_mem]
    intro letter letterMem
    obtain ⟨member, untold⟩ := closing.unread settled letterMem
    have away := List.ne_of_not_mem_cons untold
    refine List.not_mem_of_not_mem_cons untold (perm.mem_iff.mpr ?_)
    exact List.mem_filter.mpr ⟨member, decide_eq_true away⟩

end Closing

/-- The main server leaves, while all other members are running and hold its roster.  In
whatever order letters arrive, everything that is said is that the overlay closes; it is said
to each member but the main server, once, and to nobody else.  No letter is lost, and letters
come to an end: nothing is on its way any more exactly when all members but the main server
have been told.  Whoever has been told ends, at the latest once it has waited long enough. -/
theorem close_reaches_all (settled : fleet.Settled mainServer)
    (running : ∀ peer ∈ (fleet.roster mainServer).members, (fleet.node peer).phase = .running)
    (now : Nat) {read : List Letter} (heard : Heard (fleet.close mainServer now) read after) :
    (∀ letter ∈ read ++ after.inFlight, letter.message = .close ∧
      letter.recipient ∈ (fleet.roster mainServer).members ∧ letter.recipient ≠ mainServer) ∧
    ((read ++ after.inFlight).map Letter.recipient).Nodup ∧
    (∀ next, ¬ Hears after none next) ∧
    Acc (fun next former => ∃ letter?, Hears former letter? next) after ∧
    (after.inFlight = [] ↔ (read.map Letter.recipient).Perm
      ((fleet.roster mainServer).members.filter (· ≠ mainServer))) ∧
    ∀ peer ∈ read.map Letter.recipient, ∃ time,
      (after.node peer).phase = .draining time time ∧
      ∀ later, time + Phase.drainLimit ≤ later →
        ((after.node peer).drainIfDue later).phase = .stopped later := by
  have closing := Closing.heard settled running now heard
  refine ⟨?_, closing.once, ?_, closing.acc settled running, closing.quiet_iff_perm settled, ?_⟩
  · intro letter letterMem
    exact ⟨closing.messageEq letter letterMem,
      closing.subset_members settled _ (List.mem_map_of_mem letterMem)⟩
  · intro next lost
    obtain ⟨letter, none, _⟩ := closing.hears settled running lost
    contradiction
  · intro peer peerTold
    obtain ⟨time, drains⟩ := closing.drains peer peerTold
    refine ⟨time, drains, fun later late => ?_⟩
    exact Node.phase_drainIfDue_of_draining drains
      (Nat.le_trans (Nat.le_add_right time _) late) late

/-- Letters that come to an end can all arrive. -/
theorem Heard.exists_quiet {begun former : Fleet} {read : List Letter}
    (heard : Heard begun read former)
    (ends : Acc (fun next former => ∃ letter?, Hears former letter? next) former) :
    ∃ all final, Heard begun all final ∧ final.inFlight = [] := by
  induction ends generalizing read with
  | intro former _ inductionHypothesis =>
      cases waiting : former.inFlight with
      | nil => exact ⟨read, former, heard, waiting⟩
      | cons letter later =>
          have underway : former.inFlight = [] ++ letter :: later := waiting
          have step : ∃ letter? next, Hears former letter? next := by
            by_cases stopped : letter.recipient ∈ former.stopped
            · exact ⟨_, _, .lost underway (.inl stopped)⟩
            · by_cases awake : (former.node letter.recipient).phase = .running
              · exact ⟨_, _, .read 0 underway stopped awake⟩
              · exact ⟨_, _, .lost underway (.inr awake)⟩
          obtain ⟨letter?, next, last⟩ := step
          exact inductionHypothesis next ⟨letter?, last⟩ (heard.next last)

/-- Of ten peers, the ninth belongs to the cluster of the main server and the tenth to that of
the second.  When the main server leaves, nine letters are read in the end, one by each of the
others. -/
theorem close_reaches_all_ten :
    let fleet := gathered (greeted [2, 3, 4, 5, 6, 7, 8, 9, 10])
    fleet.Settled (numbered 1) ∧
      (∀ peer ∈ (fleet.roster (numbered 1)).members, (fleet.node peer).phase = .running) ∧
      ∃ read after, Heard (fleet.close (numbered 1) 5) read after ∧ after.inFlight = [] ∧
        (read.map Letter.recipient).Perm ([2, 3, 4, 5, 6, 7, 8, 9, 10].map numbered) ∧
        ∀ peer ∈ [2, 3, 4, 5, 6, 7, 8, 9, 10].map numbered, ∃ time,
          (after.node peer).phase = .draining time time := by
  intro fleet
  have settled : fleet.Settled (numbered 1) :=
    settled_gathered (View.Attained.start.hellos _) (by decide +kernel)
  have running : ∀ peer ∈ (fleet.roster (numbered 1)).members,
      (fleet.node peer).phase = .running := by decide +kernel
  have others : ((fleet.roster (numbered 1)).members.filter (· ≠ numbered 1)).Perm
      ([2, 3, 4, 5, 6, 7, 8, 9, 10].map numbered) := by decide +kernel
  obtain ⟨_, _, _, ends, _⟩ := close_reaches_all settled running 5 .start
  obtain ⟨read, after, heard, quiet⟩ := Heard.start.exists_quiet ends
  obtain ⟨_, _, _, _, quietIff, drains⟩ := close_reaches_all settled running 5 heard
  have all := (quietIff.mp quiet).trans others
  refine ⟨settled, running, read, after, heard, quiet, all, ?_⟩
  intro peer peerMem
  obtain ⟨time, phaseEq, _⟩ := drains peer (all.mem_iff.mpr peerMem)
  exact ⟨time, phaseEq⟩

end Fleet

end ClusterOverlay
