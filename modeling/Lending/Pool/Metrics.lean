import Lending.Pool.Health

/-!
# Counters of a pool and what is exported of them

A pool counts what it does (`Counters`): resources acquired, released, created, evicted, found stale
and discarded, and requests that met an exhausted pool. Counters only ever grow. `get_metrics` joins
them with the pool's present size in a snapshot, `PoolMetrics`, which is `Metrics` here.

`Metrics.entries` is its `export`: every figure under its name, with its text. Counts are written in
decimal, the share of the capacity in use with two places. Both exports, the map and the exposition
text, show these texts, so what is to be said of a figure is said of its entry.
-/

namespace Lending.Pool

/-- What a pool has counted since it was made. -/
structure Counters where
  /-- Resources handed to callers. -/
  acquired  : Nat := 0
  /-- Resources that became idle again. -/
  released  : Nat := 0
  /-- Resources made. -/
  created   : Nat := 0
  /-- Resources torn down by the pool. -/
  evicted   : Nat := 0
  /-- Of those, idle ones found stale. -/
  stale     : Nat := 0
  /-- Resources given back without being reused. -/
  discarded : Nat := 0
  /-- Callers whose wait limit passed. -/
  exhausted : Nat := 0
  deriving DecidableEq, Inhabited

/-- The counters and the size of a pool at one moment. -/
structure Metrics where
  counters    : Counters
  active      : Nat
  idle        : Nat
  waiting     : Nat
  utilization : Binary64
  maxCapacity : Nat
  deriving Inhabited

namespace Metrics

/-- The snapshot of a pool with these counts. -/
def of (counters : Counters) (active idle waiting capacity : Nat) : Metrics :=
  { counters, active, idle, waiting
    utilization := Pool.utilization active capacity
    maxCapacity := capacity }

/-- The text of the share of the capacity in use. -/
def utilizationText (m : Metrics) : String := m.utilization.fixed 2

/-- Every figure under its name. -/
def entries (m : Metrics) : List (String × String) :=
  [ ("total_acquired", toString m.counters.acquired),
    ("total_released", toString m.counters.released),
    ("total_created", toString m.counters.created),
    ("total_evicted", toString m.counters.evicted),
    ("stale_evictions", toString m.counters.stale),
    ("total_discarded", toString m.counters.discarded),
    ("exhausted_events", toString m.counters.exhausted),
    ("active_resources", toString m.active),
    ("idle_resources", toString m.idle),
    ("waiting_callers", toString m.waiting),
    ("utilization", m.utilizationText),
    ("max_capacity", toString m.maxCapacity) ]

end Metrics

end Lending.Pool
