import ClusterOverlay.Proofs.Node.Upkeep
import ClusterOverlay.Station

/-!
# Calls of a station

Everything that can happen to a station, one call for each thing: packets reach
it, its recurring activities have their turn, it writes what waits, and the
application sends, listens and closes.  The activities are calls of their own,
so that they may fall between any two packets, and come late.

A call has an outcome, and `Station.outcomes` lists what becomes of the calls of
a run, each with the station that it leaves.
-/

namespace ClusterOverlay

namespace Node

/-- Do something unless the node is about to end. -/
def whileRunning (node : Node) (work : Node → Node) : Node :=
  match node.phase with
  | .running => work node
  | _ => node

theorem whileRunning_of_running {node : Node} (running : node.phase = .running)
    (work : Node → Node) : node.whileRunning work = work node := by
  rw [whileRunning, running]

/-- What leaves the node as it is may be done at any time. -/
theorem whileRunning_of_eq {node : Node} (work : Node → Node) (idle : work node = node) :
    node.whileRunning work = node := by
  unfold whileRunning
  split
  · exact idle
  · rfl

end Node

namespace Station

/-- Something that happens to a station at some time. -/
inductive Call
  /-- A packet reaches the node.  Nothing else happens at that. -/
  | packet (now : Nat) (sender : Endpoint) (raw : Bytes)
  /-- The node looks for silent peers, if that is due. -/
  | scan (now : Nat)
  /-- The first of the peers found silent has its turn. -/
  | silence (now : Nat)
  /-- Old fragments are forgotten, if that is due. -/
  | maintain (now : Nat)
  /-- Old batches are sent, if that is due. -/
  | flush (now : Nat)
  | beat (now : Nat)
  /-- A node that waits for its end looks at what is left. -/
  | drain (now : Nat)
  /-- What may be sent is written. -/
  | write (now : Nat) (reach : Reach)
  | sendData (now : Nat) (data : Bytes) (destinations : List Peer) (channel : Channel)
      (priority : Nat)
  | broadcast (now : Nat) (data : Bytes) (channel : Channel) (priority : Nat)
  | sendCoalesced (now : Nat) (data : Bytes) (peer : Peer) (channel : Channel)
  | subscribe (now : Nat) (channel : Channel) (listener : String)
  | unsubscribe (now : Nat) (channel : Channel)
  | close (now : Nat)
  /-- The station ends without a word. -/
  | cancel (now : Nat)

/-- When the call is made. -/
def Call.time : Call → Nat
  | packet now _ _ => now
  | scan now => now
  | silence now => now
  | maintain now => now
  | flush now => now
  | beat now => now
  | drain now => now
  | write now _ => now
  | sendData now _ _ _ _ => now
  | broadcast now _ _ _ => now
  | sendCoalesced now _ _ _ => now
  | subscribe now _ _ => now
  | unsubscribe now _ => now
  | close now => now
  | cancel now => now

/-- What the one who makes a call is told. -/
inductive Outcome
  | nothing
  | report (report : Except SendError SendReport)
  | collected (outcome : Except SendError Unit)
  | listening (changed : Bool)

/-- Work on the node of a station. -/
def onNode (station : Station) (work : Node → Node) : Station :=
  { station with node := work station.node }

@[simp]
theorem onNode_node (station : Station) (work : Node → Node) :
    (station.onNode work).node = work station.node :=
  rfl

/-- A report on a payload, and the station that has sent it.  A payload that is
refused leaves the station as it is. -/
def reported (station : Station) (sent : Except SendError (SendReport × Station)) :
    Outcome × Station :=
  match sent with
  | .ok (report, after) => (.report (.ok report), after)
  | .error cause => (.report (.error cause), station)

/-- What the caller is told, and what becomes of the station. -/
def answer (station : Station) : Call → Outcome × Station
  | .packet now sender raw =>
      (.nothing, station.onNode (·.whileRunning (·.onPacket now sender raw)))
  | .scan now => (.nothing, station.onNode (·.scanIfDue now))
  | .silence now => (.nothing, station.onNode (·.whileRunning (·.settleNext now)))
  | .maintain now => (.nothing, station.onNode (·.whileRunning (·.maintainIfDue now)))
  | .flush now => (.nothing, station.onNode (·.inMailroom (·.flushIfDue now)))
  | .beat now => (.nothing, station.onNode (·.inMailroom (·.beatIfDue now)))
  | .drain now => (.nothing, station.onNode (·.drainIfDue now))
  | .write now reach => (.nothing, station.settle reach now)
  | .sendData now data destinations channel priority =>
      station.reported (station.sendData now data destinations channel priority)
  | .broadcast now data channel priority =>
      station.reported (station.broadcast now data channel priority)
  | .sendCoalesced now data peer channel =>
      let (outcome, after) := station.sendCoalesced now data peer channel
      (.collected outcome, after)
  | .subscribe _ channel listener =>
      let (changed, after) := station.subscribe channel listener
      (.listening changed, after)
  | .unsubscribe _ channel =>
      let (changed, after) := station.unsubscribe channel
      (.listening changed, after)
  | .close now => (.nothing, station.close now)
  | .cancel now => (.nothing, station.onNode (·.cancel now))

/-- The station after some calls. -/
def after (station : Station) (calls : List Call) : Station :=
  calls.foldl (fun station call => (station.answer call).2) station

/-- What becomes of each of some calls, and of the station at it. -/
def outcomes (station : Station) : List Call → List (Outcome × Station)
  | [] => []
  | call :: later => station.answer call :: (station.answer call).2.outcomes later

@[simp]
theorem after_cons (station : Station) (call : Call) (later : List Call) :
    station.after (call :: later) = (station.answer call).2.after later :=
  rfl

end Station

end ClusterOverlay
