import ClusterOverlay.Peer
import ClusterOverlay.Table
import ClusterOverlay.Ticker

/-!
# Watching peers

A watch remembers when each of its peers was last heard of.  A scan removes
those that have been silent for longer than the timeout and reports them, so
that nobody is reported twice without having been added in between.

A patrol scans once per timeout.
-/

namespace ClusterOverlay

/-- The peers under watch and when each was last heard of. -/
structure Watch where
  timeout : Nat
  lastSeen : Table Peer Nat

namespace Watch

/-- A watch over nobody. -/
def empty (timeout : Nat) : Watch :=
  ⟨timeout, Table.empty⟩

/-- The peers under watch, in ascending order. -/
def peers (watch : Watch) : List Peer :=
  Peer.ascending watch.lastSeen.keys

/-- Whether a peer is under watch. -/
def contains (watch : Watch) (peer : Peer) : Bool :=
  watch.lastSeen.contains peer

/-- Watch a peer from now on. -/
def add (watch : Watch) (now : Nat) (peer : Peer) : Watch :=
  { watch with lastSeen := watch.lastSeen.insert peer now }

/-- Watch a peer no longer. -/
def remove (watch : Watch) (peer : Peer) : Watch :=
  { watch with lastSeen := watch.lastSeen.erase peer }

/-- Note that a peer was heard of, if it is under watch. -/
def refresh (watch : Watch) (now : Nat) (peer : Peer) : Watch :=
  if watch.contains peer then watch.add now peer else watch

/-- Whether a peer last heard of at a given time has been silent for too long. -/
def isOverdue (watch : Watch) (now lastSeen : Nat) : Bool :=
  watch.timeout < now - lastSeen

/-- Remove and report the peers that have been silent for too long, in
ascending order. -/
def scan (watch : Watch) (now : Nat) : List Peer × Watch :=
  (Peer.ascending (watch.lastSeen.keep (watch.isOverdue now)).keys,
    { watch with lastSeen := watch.lastSeen.keep (!watch.isOverdue now ·) })

/-- Watch exactly the given peers.  Those under watch already keep the time at
which they were last heard of; newcomers start now. -/
def follow (watch : Watch) (now : Nat) (scope : List Peer) : Watch :=
  let kept : Watch :=
    { watch with lastSeen := ⟨watch.lastSeen.entries.filter (scope.contains ·.1)⟩ }
  scope.foldl (fun watch peer => if watch.contains peer then watch else watch.add now peer) kept

end Watch

/-! ## Patrols -/

/-- A watch that is scanned once per timeout. -/
structure Patrol where
  watch : Watch
  /-- The scans to come, while the patrol is on. -/
  scans : Option Ticker
  /-- What the scans reported, with the time of the scan. -/
  reports : List (Nat × Peer)

namespace Patrol

/-- A patrol that has not begun, over nobody. -/
def idle (timeout : Nat) : Patrol :=
  ⟨Watch.empty timeout, none, []⟩

/-- Begin to scan.  The first scan is due after one timeout. -/
def start (patrol : Patrol) (now : Nat) : Patrol :=
  { patrol with scans := some (Ticker.after now patrol.watch.timeout) }

/-- Scan no more. -/
def stop (patrol : Patrol) : Patrol :=
  { patrol with scans := none }

/-- When the next scan is due. -/
def due (patrol : Patrol) : Option Nat :=
  patrol.scans.map Ticker.next

/-- The scan that is due at a given time. -/
def scan (time : Nat) (patrol : Patrol) : Patrol :=
  let (silent, watch) := patrol.watch.scan time
  { watch
    scans := patrol.scans.map Ticker.advance
    reports := patrol.reports ++ silent.map (time, ·) }

/-- Let time pass. -/
def elapse (patrol : Patrol) (now target : Nat) : Patrol :=
  ClusterOverlay.elapse due scan now target patrol

end Patrol

end ClusterOverlay
