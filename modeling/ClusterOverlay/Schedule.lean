import ClusterOverlay.Packet
import ClusterOverlay.Peer
import ClusterOverlay.Ticker

/-!
# The send schedule

Packets wait in three bands according to their priority.  Within an epoch each
band may send as many packets as its budget allows, and a band sends only while
every higher band is empty or has spent its budget.  At each epoch boundary
the budgets are restored.

The lowest band has three levels, of which the first that is not empty sends.
New packets enter the first level.  At each rotation boundary every level
moves up by one place and the first becomes the last, with its packets.

Boundaries are counted from the creation of the schedule.  They take effect
when the schedule is next used, however late that is.
-/

namespace ClusterOverlay

/-- A class of priorities. -/
inductive Band
  | highest
  | high
  | low
  deriving DecidableEq, Repr

/-- The band of a priority. -/
def Band.ofPriority (priority : Fin 8) : Band :=
  if priority.val = 0 then .highest else if priority.val = 1 then .high else .low

/-- A packet and the peer that it is written to. -/
structure Scheduled where
  nextHop : Peer
  packet : Bytes
  deriving DecidableEq, Repr

/-- A number of packets for each band. -/
structure Budgets where
  highest : Nat
  high : Nat
  low : Nat
  deriving DecidableEq, Repr

namespace Budgets

/-- The number for a band. -/
def get (budgets : Budgets) : Band → Nat
  | .highest => budgets.highest
  | .high => budgets.high
  | .low => budgets.low

/-- One packet less for a band. -/
def spend (budgets : Budgets) : Band → Budgets
  | .highest => { budgets with highest := budgets.highest - 1 }
  | .high => { budgets with high := budgets.high - 1 }
  | .low => { budgets with low := budgets.low - 1 }

end Budgets

/-- The levels of the lowest band. -/
structure Levels where
  first : List Scheduled
  second : List Scheduled
  third : List Scheduled
  deriving DecidableEq, Repr

namespace Levels

/-- Every level moves up, and the first becomes the last. -/
def rotate (levels : Levels) : Levels :=
  ⟨levels.second, levels.third, levels.first⟩

/-- The levels after a number of turns; three turns change nothing. -/
def turn (levels : Levels) (turns : Nat) : Levels :=
  match turns % 3 with
  | 0 => levels
  | 1 => levels.rotate
  | _ => levels.rotate.rotate

/-- All packets, in the order in which the levels stand. -/
def toList (levels : Levels) : List Scheduled :=
  levels.first ++ levels.second ++ levels.third

/-- Take the packet at the head of the first level that is not empty. -/
def pop? (levels : Levels) : Option (Scheduled × Levels) :=
  match levels.first, levels.second, levels.third with
  | head :: rest, _, _ => some (head, { levels with first := rest })
  | [], head :: rest, _ => some (head, { levels with second := rest })
  | [], [], head :: rest => some (head, { levels with third := rest })
  | [], [], [] => none

end Levels

/-- The packets waiting to be sent, and what may still be sent. -/
structure Schedule where
  /-- The budgets of an epoch. -/
  budgets : Budgets
  epoch : Nat
  rotation : Nat
  highest : List Scheduled
  high : List Scheduled
  low : Levels
  /-- What is left of the budgets. -/
  tokens : Budgets
  /-- The last epoch boundary taken into account. -/
  epochStart : Nat
  /-- The last rotation boundary taken into account. -/
  rotationStart : Nat
  deriving Repr

namespace Schedule

/-- A schedule without packets, created now. -/
def create (budgets : Budgets) (epoch rotation now : Nat) : Schedule :=
  { budgets, epoch, rotation, highest := [], high := [], low := ⟨[], [], []⟩,
    tokens := budgets, epochStart := now, rotationStart := now }

/-! ## Boundaries -/

/-- Restore the budgets if an epoch boundary has passed. -/
def renew (schedule : Schedule) (now : Nat) : Schedule :=
  let elapsed := now - schedule.epochStart
  if schedule.epoch ≤ elapsed then
    { schedule with tokens := schedule.budgets, epochStart := now - elapsed % schedule.epoch }
  else
    schedule

/-- Rotate the levels of the lowest band by as many turns as are due. -/
def rotate (schedule : Schedule) (now : Nat) : Schedule :=
  let elapsed := now - schedule.rotationStart
  if schedule.rotation ≤ elapsed then
    { schedule with
      low := schedule.low.turn (elapsed / schedule.rotation)
      rotationStart := now - elapsed % schedule.rotation }
  else
    schedule

/-- Take all boundaries up to now into account. -/
def advance (schedule : Schedule) (now : Nat) : Schedule :=
  (schedule.renew now).rotate now

/-- Time until the next epoch boundary. -/
def untilRenewal (schedule : Schedule) (now : Nat) : Nat × Schedule :=
  let schedule := schedule.advance now
  (schedule.epochStart + schedule.epoch - now, schedule)

/-! ## Queues -/

/-- The packets of a band, in the order in which they would leave. -/
def queue (schedule : Schedule) : Band → List Scheduled
  | .highest => schedule.highest
  | .high => schedule.high
  | .low => schedule.low.toList

/-- Number of packets waiting. -/
def size (schedule : Schedule) : Nat :=
  (schedule.queue .highest).length + (schedule.queue .high).length + (schedule.queue .low).length

/-- Whether no packet waits. -/
def isEmpty (schedule : Schedule) : Bool :=
  schedule.size = 0

/-- Number of packets waiting in each band. -/
def backlog (schedule : Schedule) : Budgets :=
  ⟨(schedule.queue .highest).length, (schedule.queue .high).length, (schedule.queue .low).length⟩

/-- Put a packet at the end of its band's queue. -/
def append (schedule : Schedule) (band : Band) (item : Scheduled) : Schedule :=
  match band with
  | .highest => { schedule with highest := schedule.highest ++ [item] }
  | .high => { schedule with high := schedule.high ++ [item] }
  | .low =>
      { schedule with low := { schedule.low with first := schedule.low.first ++ [item] } }

/-- Accept a packet for a peer.  Its band follows from the priority in its
header; what is too short for a header is refused. -/
def add (schedule : Schedule) (now : Nat) (nextHop : Peer) (packet : Bytes) :
    Except CodecError Schedule :=
  (Packet.peekPriority packet).map fun priority =>
    (schedule.advance now).append (Band.ofPriority priority) ⟨nextHop, packet⟩

/-- Accept a packet for a peer before it is written. -/
def put (schedule : Schedule) (now : Nat) (nextHop : Peer) (packet : Packet) : Schedule :=
  (schedule.advance now).append (Band.ofPriority packet.priority) ⟨nextHop, packet.encode⟩

/-- A packet that was just written is never refused. -/
theorem add_encode (schedule : Schedule) (now : Nat) (nextHop : Peer) (packet : Packet) :
    schedule.add now nextHop packet.encode = .ok (schedule.put now nextHop packet) := by
  rw [add, Packet.peekPriority_encode]
  rfl

/-- Take the first packet of a band, whatever its budget. -/
def pop? (schedule : Schedule) (band : Band) : Option (Scheduled × Schedule) :=
  match band with
  | .highest =>
      match schedule.highest with
      | [] => none
      | head :: rest => some (head, { schedule with highest := rest })
  | .high =>
      match schedule.high with
      | [] => none
      | head :: rest => some (head, { schedule with high := rest })
  | .low => schedule.low.pop?.map fun (head, low) => (head, { schedule with low })

/-- Take a packet of a band, if its budget allows. -/
def take? (schedule : Schedule) (band : Band) : Option (Scheduled × Schedule) :=
  if schedule.tokens.get band = 0 then none
  else
    (schedule.pop? band).map fun (item, schedule) =>
      (item, { schedule with tokens := schedule.tokens.spend band })

/-- The packet to be sent now: that of the highest band which has a packet and
budget left. -/
def next (schedule : Schedule) (now : Nat) : Option Scheduled × Schedule :=
  let schedule := schedule.advance now
  match (schedule.take? .highest).or ((schedule.take? .high).or (schedule.take? .low)) with
  | some (item, schedule) => (some item, schedule)
  | none => (none, schedule)

/-- Everything that may be sent now, at most `limit` packets. -/
def drain (schedule : Schedule) (now : Nat) : Nat → List Scheduled × Schedule
  | 0 => ([], schedule)
  | limit + 1 =>
      match schedule.next now with
      | (some item, schedule) =>
          let (items, schedule) := schedule.drain now limit
          (item :: items, schedule)
      | (none, schedule) => ([], schedule)

/-- Everything that may be sent now. -/
def drainAll (schedule : Schedule) (now : Nat) : List Scheduled × Schedule :=
  schedule.drain now schedule.size

/-! ## Waiting -/

/-- Wait until a packet may be sent, for at most `patience`, and tell when the
wait ended.  While packets are held back by their budgets, the wait lasts until
the next epoch boundary. -/
def await (schedule : Schedule) (now patience : Nat) : Option Scheduled × Nat × Schedule :=
  let deadline := wakeTime now (now + patience)
  match schedule.next now with
  | (some item, schedule) => (some item, now, schedule)
  | (none, schedule) =>
      let renewal := wakeTime now (now + (schedule.untilRenewal now).1)
      if schedule.isEmpty || deadline < renewal then
        (none, deadline, schedule)
      else
        match schedule.next renewal with
        | (some item, schedule) => (some item, renewal, schedule)
        | (none, schedule) => (none, deadline, schedule)

end Schedule

end ClusterOverlay
