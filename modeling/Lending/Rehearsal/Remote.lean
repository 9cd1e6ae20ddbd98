import Lending.Cache.Frame
import Lending.Rehearsal.Script

/-!
# The scripted remote side

Connections are numbered in the order of the attempts. Each has a state of its own, which the
script can change too: open or not, and how often it was closed. A callback is noted first, then
changes what it changes, then does what its rule says. Each level has a clock, read from a script,
from a counter that stands still for a number of readings, or from a counter that never does.
-/

namespace Lending.Rehearsal

/-- One connection of the remote side. -/
structure Connection where
  isOpen : Bool := false
  closes : Nat := 0

/-- The connection shared among sessions, if the remote side has one. -/
structure SharedConnection where
  active : Bool
  resets : Nat := 0

/-- Where a level's epochs come from. -/
inductive Clock where
  /-- These readings, then a raise, or the numbers after the last of them. -/
  | script (readings : List Nat) (raises : Bool)
  /-- A thousand more each time `period` readings are over, at least one. -/
  | coarse (period : Nat)
  /-- One more each time. -/
  | counter

namespace Clock

/-- Reading `n` of a clock, counted from zero; `none` where it raises. -/
def reading? : Clock → Nat → Option Nat
  | .script readings raises, n =>
    match readings[n]? with
    | some t => some t
    | none =>
      if raises then none else some (readings.getLastD 0 + 1 + (n - readings.length))
  | .coarse period, n => some (n / max 1 period * 1000)
  | .counter, n => some (n + 1)

/-- What a clock raises at its end. -/
def exhausted : String := "clock script exhausted"

/-- Whether the readings themselves can be compared between runs. -/
def isScripted : Clock → Bool
  | .counter => false
  | _ => true

end Clock

/-- The name and arguments of a file operation, as an event shows them. -/
def callOf : FileOp → List String
  | .remove path => ["remove", path]
  | .list path => ["list", path]
  | .listNames path => ["list_names", path]
  | .read path => ["read", path]
  | .write source path => ["write", Report.hex source, path]
  | .rename source target => ["rename", source, target]
  | .mkdir path => ["mkdir", path]
  | .exists path => ["exists", path]
  | .readRaw path => ["read_raw", path]
  | .finalizeRaw => ["finalize_raw"]

/-- What a file operation that succeeds gives, by its script. -/
def valueOf {Step : Type} (outcome : Outcome Step) : FileOp → FileValue
  | .remove _ | .mkdir _ | .exists _ | .finalizeRaw => .flag outcome.flag
  | .list _ | .listNames _ => .names outcome.names
  | .read _ | .write _ _ | .rename _ _ => .unit
  | .readRaw _ => .bytes outcome.data

/-- How a file operation goes, by its script: data moves before the operation can fail. -/
def fileReply {Step : Type} (op : FileOp) (outcome : Outcome Step) : FileReply :=
  { result :=
      match outcome.ending.sessionError? with
      | some e => .error e
      | none => .ok (valueOf outcome op)
    sink := match op with | .read _ => outcome.data | _ => []
    consumed := match op with | .write source _ => source.length | _ => 0 }

/-- A value that a file operation gave. -/
def FileValue.report : FileValue → Report
  | .unit => ok
  | .flag b => .record [("ok", .flag b)]
  | .names names => .record [("ok", .texts names)]
  | .bytes bytes => .record [("ok", .text (Report.hex bytes))]

/-- How a file operation went; where data moves, with the data. -/
def callReport (op : FileOp) (r : FileReply) : Report :=
  let result : Report :=
    match r.result with
    | .ok value => FileValue.report value
    | .error e => e.report
  match op with
  | .read _ => .record [("r", result), ("sink", .text (Report.hex r.sink))]
  | .write _ _ => .record [("r", result), ("consumed", .count r.consumed)]
  | _ => result

end Lending.Rehearsal
