/-!
# Clocks and tickers

Time is counted in nanoseconds from an arbitrary start.  A ticker is due at
equal distances; whoever holds it acts at each tick and moves it on.  Of
several activities that are due at the same time, the one waited for since the
earliest time goes first.
-/

namespace ClusterOverlay

/-- Nanoseconds in a number of milliseconds. -/
def milliseconds (count : Nat) : Nat :=
  count * 1000000

/-- An activity that recurs at equal distances. -/
structure Ticker where
  /-- When the next tick is due. -/
  next : Nat
  /-- Distance between ticks. -/
  period : Nat
  /-- Since when the next tick is waited for. -/
  since : Nat
  deriving DecidableEq, Repr

namespace Ticker

/-- A ticker whose first tick is due at once. -/
def starting (now period : Nat) : Ticker :=
  ⟨now, period, now⟩

/-- A ticker whose first tick is due after one period. -/
def after (now period : Nat) : Ticker :=
  ⟨now + period, period, now⟩

/-- The ticker after the tick that was due. -/
def advance (ticker : Ticker) : Ticker :=
  { ticker with next := ticker.next + ticker.period, since := ticker.next }

/-- Whether a tick is due at the given time. -/
def isDue (ticker : Ticker) (now : Nat) : Bool :=
  ticker.next ≤ now

end Ticker

/-! ## Simultaneous activities -/

/-- An activity that may be due, and the time since which it is waited for. -/
structure Activity (σ : Type) where
  since : Option Nat
  act : σ → σ

namespace Activity

/-- An activity that recurs with a ticker, if there is one. -/
def ofTicker {σ : Type} (ticker : Option Ticker) (act : σ → σ) : Activity σ :=
  ⟨ticker.map Ticker.since, act⟩

/-- Put an activity before those that are waited for since a later time. -/
def insert {σ : Type} (activity : Activity σ) : List (Activity σ) → List (Activity σ)
  | [] => [activity]
  | head :: tail =>
      if activity.since.getD 0 ≤ head.since.getD 0 then activity :: head :: tail
      else head :: insert activity tail

/-- Do several activities.  The one waited for since the earliest time goes
first; of two waited for since the same time, the first in the list. -/
def inTurn {σ : Type} (activities : List (Activity σ)) (state : σ) : σ :=
  (activities.foldr insert []).foldl (fun state activity => activity.act state) state

end Activity

/-- When a sleeper due at a given time wakes, if nothing else wakes anybody
before.  Clocks run ahead by whole milliseconds, to the first that is not
before the due time. -/
def wakeTime (now due : Nat) : Nat :=
  now + ((due + 999999) / 1000000 - now / 1000000) * 1000000

/-- The earliest of the times that are set. -/
def earliest (times : List (Option Nat)) : Option Nat :=
  (times.filterMap id).min?

/-! ## Letting time pass -/

/-- Act at each time that is due up to `target`, but at most `fuel` times. -/
def actUntil {σ : Type} (due : σ → Option Nat) (act : Nat → σ → σ) (target : Nat) :
    Nat → σ → σ
  | 0, state => state
  | fuel + 1, state =>
      match due state with
      | some time =>
          if time ≤ target then actUntil due act target fuel (act time state) else state
      | none => state

/-- Let time pass from `now` to `target`, acting at each time that is due, in
order.  Acting at a time must leave nothing due at that time; then there are at
most as many acts as there are instants. -/
def elapse {σ : Type} (due : σ → Option Nat) (act : Nat → σ → σ) (now target : Nat)
    (state : σ) : σ :=
  actUntil due act target (target - now + 1) state

end ClusterOverlay
