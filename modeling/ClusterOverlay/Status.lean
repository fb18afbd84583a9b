import ClusterOverlay.Station

/-!
# The status page

What a station tells about itself.  Two paths answer requests: `/status` shows
the view and the length of the queues, `/health` only whether the station is
still part of the overlay.
-/

namespace ClusterOverlay

/-- What a station tells about itself. -/
structure Status where
  self : Peer
  role : Role
  mainServer : Peer
  roster : Roster
  /-- Packets waiting in each band. -/
  backlog : Budgets
  /-- Messages in reassembly. -/
  inFlight : Nat
  /-- Batches being collected. -/
  pendingBatches : Nat
  deriving DecidableEq, Repr

/-- The status of a station. -/
def Station.status (station : Station) : Status where
  self := station.node.view.self
  role := station.node.view.role
  mainServer := station.node.view.mainServer
  roster := station.node.view.toRoster
  backlog := station.node.outbox.schedule.backlog
  inFlight := station.node.reassembly.inFlight
  pendingBatches := station.node.batcher.pending

/-! ## Requests -/

/-- How a page is asked for. -/
inductive Method
  | get
  /-- Like `get`, but for the answer without its body. -/
  | head
  | other
  deriving DecidableEq, Repr

/-- The answer to a request. -/
structure Response where
  code : Nat
  /-- The body, unless it is empty. -/
  body : Option Status := none
  deriving DecidableEq, Repr

/-- The path of a request, without its query. -/
def requestPath (target : String) : String :=
  String.ofList (target.toList.takeWhile (· ≠ '?'))

/-- Answer a request. -/
def Station.respond (station : Station) (method : Method) (target : String) : Response :=
  if requestPath target = "/status" then
    match method with
    | .get => ⟨200, some station.status⟩
    | .head => ⟨200, none⟩
    | .other => ⟨405, none⟩
  else if requestPath target = "/health" then
    match method with
    | .other => ⟨405, none⟩
    | _ => ⟨if station.isClosed then 503 else 200, none⟩
  else
    ⟨404, none⟩

end ClusterOverlay
