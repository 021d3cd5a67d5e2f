import Workflow.Schedule.Parser
import Workflow.Time.Written
import Workflow.Time.Zone

/-! The next times at which a schedule fires. -/
namespace Workflow.Schedule

open Time

/-- A span of time from one minute on, in words. -/
def spanText (minutes : Int) : String :=
  let counted (n : Int) (unit : String) : String :=
    if n = 1 then "in 1 " ++ unit else "in " ++ toString n ++ " " ++ unit ++ "s"
  if minutes < 60 then counted minutes "minute"
  else if minutes < 1440 then counted (minutes / 60) "hour"
  else counted (minutes / 1440) "day"

/-- How far ahead something is that lies `nanos` nanoseconds later. -/
def relativeText (nanos : Int) : String :=
  let minutes := nanos.tdiv (60 * nanosPerSecond)
  if minutes < 1 then "in less than a minute" else spanText minutes

/-- The nanoseconds from one time to another. A leap second counts if it is the earlier of the two
on the clock and the later time of day comes behind it. -/
def elapsed (start stop : Timestamp) : Int :=
  let nanos := stop.toNanos - start.toNanos
  if start.secondOfDay < stop.secondOfDay ∧ nanosPerSecond ≤ start.nanos then
    nanos + nanosPerSecond
  else if stop.secondOfDay < start.secondOfDay ∧ nanosPerSecond ≤ stop.nanos then
    nanos - nanosPerSecond
  else nanos

/-- The start of a minute. Beyond the times whose nanoseconds fit a word of 64 bits it is the time
itself. -/
def startOfMinute (t : Timestamp) : Timestamp :=
  let nanos := t.toNanos
  if -0x8000_0000_0000_0000 ≤ nanos ∧ nanos < 0x8000_0000_0000_0000 then
    t.addNanos (-(nanos % (60 * nanosPerSecond)))
  else t

/-- A time at which a schedule fires, with its distance from where the search started. -/
structure Execution where
  time : Timestamp
  relative : String
  deriving Repr, DecidableEq

structure Forecast where
  executions : List Execution := []
  /-- The search gave up before it had found enough. -/
  horizonReached : Bool := false
  deriving Repr, DecidableEq

/-- The first `count` minutes that satisfy `p`, of `tries` minutes from `t` on; `found` holds what
precedes them, last first. -/
def searchLoop (p : Timestamp → Bool) (tries count : Nat) (t : Timestamp)
    (found : List Timestamp) : List Timestamp :=
  match tries, count with
  | 0, _ | _, 0 => found.reverse
  | tries + 1, count + 1 =>
    if p t then searchLoop p tries count (t.addSeconds 60) (t :: found)
    else searchLoop p tries (count + 1) (t.addSeconds 60) found

def search (p : Timestamp → Bool) (tries count : Nat) (t : Timestamp) : List Timestamp :=
  searchLoop p tries count t []

/-- How many minutes are searched for each execution that is asked for. -/
def defaultFactor : Nat :=
  1000

/-- How many minutes are searched. -/
def horizon (count factor : Nat) : Nat :=
  min (count * max factor 1) 0xffff_ffff_ffff_ffff

/-- The next executions behind `start`, on the clocks of a zone. A text that is no schedule has
none. -/
def forecast (zone : Zone) (s : List Char) (count : Nat) (start : Timestamp) (factor : Nat) :
    Forecast :=
  match Cron.parse s with
  | .error _ => {}
  | .ok c =>
    if count = 0 then {}
    -- no minute would be found, however far the horizon is
    else if !c.canFire then { horizonReached := true }
    else
      let fires (t : Timestamp) := c.firesAt (zone.convert t).wall
      let times := search fires (horizon count factor) count ((startOfMinute start).addSeconds 60)
      { executions := times.map fun t => { time := t, relative := relativeText (elapsed start t) }
        horizonReached := times.length < count }

/-- An execution, with the text that was asked about. -/
def Execution.toJson (s : List Char) (e : Execution) : Json :=
  .ofEntries
    [("timestamp", .ofInt e.time.toMillis), ("iso", .string e.time.isoText),
      ("relative", .string e.relative),
      ("cronExpression", .string (String.ofList (Text.trim s)))]

end Workflow.Schedule
