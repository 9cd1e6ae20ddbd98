import Lending.Limits
import Lending.Notice
import Lending.Pool.Basic
import Lending.Pool.Exposition
import Lending.Report

/-!
# What an inspection tells

The reports of limits, errors, health and metrics. A span is reported as its seconds and the
nanoseconds beyond them, a share as the sixteen hexadecimal digits of its word.
-/

namespace Lending

/-- A span of time. -/
def Duration.report (d : Duration) : Report := .counts [d.secs, d.subsecNanos]

/-- A word, in hexadecimal. -/
def Binary64.report (x : Binary64) : Report :=
  .text (Report.hex ((List.range 8).map fun i => (x.word / Nat.pow 256 (7 - i)).toUInt8))

/-- The name of a kind of session error. -/
def ErrorKind.name : ErrorKind → String
  | .notFound => "NotFound"
  | .permissionDenied => "PermissionDenied"
  | .connectionRefused => "ConnectionRefused"
  | .connectionReset => "ConnectionReset"
  | .notConnected => "NotConnected"
  | .brokenPipe => "BrokenPipe"
  | .alreadyExists => "AlreadyExists"
  | .invalidInput => "InvalidInput"
  | .invalidData => "InvalidData"
  | .timedOut => "TimedOut"
  | .interrupted => "Interrupted"
  | .unexpectedEof => "UnexpectedEof"
  | .other => "Other"

/-- Every kind of session error. -/
def ErrorKind.all : List ErrorKind :=
  [.notFound, .permissionDenied, .connectionRefused, .connectionReset, .notConnected, .brokenPipe,
    .alreadyExists, .invalidInput, .invalidData, .timedOut, .interrupted, .unexpectedEof, .other]

/-- The kind of this name. -/
def ErrorKind.ofName? (s : String) : Option ErrorKind := all.find? fun kind => kind.name == s

/-- A session error. -/
def SessionError.report (e : SessionError) : Report :=
  .record [("error", .text "io"), ("kind", .text e.kind.name), ("message", .text e.message)]

/-- The fields of a pool error. -/
def PoolError.fields (e : PoolError) : List (String × Report) :=
  (match e with
    | .exhausted limit => [("error", Report.text "PoolExhausted"), ("timeout", limit.report)]
    | .createFailed _ => [("error", .text "CreateFailed")]
    | .cancelled => [("error", .text "Cancelled")])
    ++ [("message", .text e.message)]

/-- A pool error. -/
def PoolError.report (e : PoolError) : Report := .record e.fields

/-- A pool error with what it becomes on its way to a session's user. -/
def PoolError.layer (e : PoolError) : Report :=
  .record (e.fields ++ [("as_io", (SessionError.pool e).report)]
    ++ (match e.debug? with
      | some s => [("debug", .text s)]
      | none => []))

/-- A pool error, and that error passed through one more pool, up to `n`. -/
def PoolError.layers (e : PoolError) (n : Nat) : Report :=
  .list ((List.range (n + 1)).map fun k => (e.wrapped k).layer)

/-- A text raised by a callback. -/
def Report.raised (message : String) : Report := .record [("panic", .text message)]

/-- The limits of a pool. -/
def Limits.report (l : Limits) : Report :=
  .record [("max_pool_size", .count l.size), ("wait_timeout", .optional Duration.report l.wait),
    ("is_bounded", .flag l.isBounded), ("debug", .text l.debug)]

/-- One change of the limits. -/
inductive Limits.Change where
  | size (n : Nat)
  | wait (d : Duration)

/-- The limits after a change. -/
def Limits.change (l : Limits) : Limits.Change → Limits
  | .size n => l.withSize n
  | .wait d => l.withWait d

/-- The limits at first and after each change. -/
def Limits.history (l : Limits) : List Limits.Change → List Limits
  | [] => [l]
  | change :: rest => l :: (l.change change).history rest

/-- Two histories that start without limits, whether they end in the same ones, and whether the
first ends in what it ends in. -/
def Limits.compare (a b : List Limits.Change) : Report :=
  let last (changes : List Limits.Change) : Limits := changes.foldl Limits.change .unbounded
  .record [("a", .list ((Limits.unbounded.history a).map Limits.report)),
    ("b", .list ((Limits.unbounded.history b).map Limits.report)),
    ("eq", .flag (decide (last a = last b))), ("clone_eq", .flag (decide (last a = last a)))]

/-- A health snapshot, with its verdict once more. -/
def Pool.Health.report (h : Pool.Health) : Report :=
  .record [("is_healthy", .flag h.isHealthy), ("warning_count", .count h.warnings.length),
    ("utilization", h.utilization.report), ("idle_resources", .count h.idle),
    ("active_resources", .count h.active), ("waiting_callers", .count h.waiting),
    ("total_capacity", .count h.capacity), ("warnings", .texts h.warnings),
    ("is_healthy()", .flag h.isHealthy)]

/-- A metrics snapshot. -/
def Pool.Metrics.report (m : Pool.Metrics) : Report :=
  .record [("total_acquired", .count m.counters.acquired),
    ("total_released", .count m.counters.released),
    ("total_created", .count m.counters.created),
    ("total_evicted", .count m.counters.evicted),
    ("stale_evictions", .count m.counters.stale),
    ("total_discarded", .count m.counters.discarded),
    ("exhausted_events", .count m.counters.exhausted),
    ("active_resources", .count m.active),
    ("idle_resources", .count m.idle),
    ("waiting_callers", .count m.waiting),
    ("utilization", m.utilization.report),
    ("max_capacity", .count m.maxCapacity)]

/-- A metrics snapshot by name. -/
def Pool.Metrics.exported (m : Pool.Metrics) : Report := .textRecord m.entries

/-- Both exports of a metrics snapshot. -/
def Pool.Metrics.exports (m : Pool.Metrics) (pool : String) (tags : Tags) : Report :=
  .record [("export", m.exported), ("prometheus", .text (m.exposition pool tags))]

/-- The size of a pool. -/
def Pool.size {α : Type} (p : Pool α) : Report :=
  .counts [p.capacity, p.idle.length, p.active, p.allocated]

/-- The size of a pool and how many wait for it. -/
def Pool.state {α : Type} (p : Pool α) : Report :=
  .counts [p.capacity, p.idle.length, p.active, p.allocated, p.waiting]

/-- All counters. -/
def Pool.Counters.report (c : Pool.Counters) : Report :=
  .counts [c.acquired, c.released, c.created, c.evicted, c.stale, c.discarded, c.exhausted]

/-- A record of a log. -/
def Notice.report (n : Notice) : Report :=
  .record [("log", .text n.level.name), ("message", .text n.message),
    ("fields", .textRecord n.fields)]

end Lending
