import ClusterOverlay.Bytes
import ClusterOverlay.Packet.Kind
import ClusterOverlay.Table

/-!
# Listeners

An application listens on a channel; each channel has at most one listener.
A payload on a channel without a listener is dropped.
-/

namespace ClusterOverlay

/-- A payload handed to a listener. -/
structure Delivery where
  listener : String
  channel : Channel
  payload : Bytes
  deriving DecidableEq, Repr

/-- The listener of each channel that has one. -/
abbrev Listeners := Table Channel String

namespace Listeners

/-- Nobody listens. -/
def none : Listeners := Table.empty

/-- Listen on a channel.  A listener that is there already is kept, and the
answer tells whether the new one was taken. -/
def subscribe (listeners : Listeners) (channel : Channel) (listener : String) :
    Bool × Listeners :=
  if listeners.contains channel then (false, listeners)
  else (true, listeners.insert channel listener)

/-- Stop listening on a channel, and tell whether anybody did. -/
def unsubscribe (listeners : Listeners) (channel : Channel) : Bool × Listeners :=
  (listeners.contains channel, listeners.erase channel)

/-- What the listener of a channel gets of a payload. -/
def dispatch (listeners : Listeners) (channel : Channel) (payload : Bytes) : List Delivery :=
  match listeners.find? channel with
  | some listener => [⟨listener, channel, payload⟩]
  | .none => []

end Listeners

end ClusterOverlay
