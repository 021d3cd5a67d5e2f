import Workflow.Fields
import Workflow.Schedule.Parser

/-! A memory of the schedules that have been read. -/
namespace Workflow.Schedule

open Text

/-- A schedule that was read, and how many were read before it: who holds it again has the same
mark. -/
structure Shared where
  mark : Nat
  cron : Cron
  deriving Repr, DecidableEq

/-- What is remembered, under the texts without the white space around them. A full cache takes
nothing more. -/
structure Cache where
  capacity : Nat := 512
  entries : Fields Shared := []
  reads : Nat := 0
  deriving Repr, DecidableEq

namespace Cache

def key (s : List Char) : String :=
  String.ofList (trim s)

def size (c : Cache) : Nat :=
  c.entries.length

/-- Remembers a schedule that was just read. -/
def store (c : Cache) (key : String) (shared : Shared) : Cache :=
  { c with
    reads := c.reads + 1
    entries := if c.size < c.capacity then c.entries.insert key shared else c.entries }

/-- The schedule of a text, from memory if it is there. Texts that are no schedule are not
remembered. -/
def get (c : Cache) (s : List Char) : Except (List Fault) Shared × Cache :=
  match c.entries.get? (key s) with
  | some shared => (.ok shared, c)
  | none =>
    match Cron.parse (trim s) with
    | .ok cron =>
      let shared : Shared := { mark := c.reads, cron }
      (.ok shared, c.store (key s) shared)
    | .error faults => (.error faults, c)

def invalidate (c : Cache) (s : List Char) : Cache :=
  { c with entries := c.entries.filter (·.1 ≠ key s) }

def clear (c : Cache) : Cache :=
  { c with entries := [] }

/-- Whether the schedule of a text fires at what a clock shows, with its schedule from memory if it
is there. -/
def textFiresAt (c : Cache) (s : List Char) (t : Time.Timestamp) : Bool × Cache :=
  match c.get s with
  | (.ok shared, c) => (shared.cron.firesAt t, c)
  | (.error _, c) => (false, c)

end Cache

end Workflow.Schedule
