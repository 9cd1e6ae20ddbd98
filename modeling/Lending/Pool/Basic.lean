import Lending.Limits
import Lending.Pool.Metrics

/-!
# The shared part of a pool

What the mutex of a `ResourcePool` guards (its `PoolState`: `idle`, `allocated`, `capacity`,
`wait_timeout`, `waiting`), with the pool's condition variable and its counters (specification,
section 3). A **slot** is the right to have one resource alive: a lent resource and an idle one hold
a slot each, and so does a call that checks, evicts or makes a resource. `allocated` counts the
slots.

* `hasRoom` and `overCapacity` are the two comparisons with the limit, `has_room` and
  `over_capacity`. Both are strict, and a limit of `0` is none. `grows` is the test by which
  `resize` decides whether to wake anybody.
* Counts are natural numbers, and a subtraction below zero would stop at zero here. That no step
  takes a slot off which is not there is therefore something to prove, and is proved in
  `Lending.Proofs.Pool.Slots`.
* The condition variable `available` is the list `parked`. Parked callers are tickets. A wake-up
  takes a ticket away, any one of them (`notifyOne`, for `notify_one`) or all (`notifyAll`, for
  `notify_all`), and so does the end of a timed wait (`unpark`); a caller goes on once its ticket is
  gone, whoever took it. Waking is thus part of the state, and a wake-up that reaches nobody is
  lost. `waiting` counts the callers that were woken and have not looked yet as well, as the figure
  that `health_status` and `get_metrics` show does.
* `deadline?` is the end of a wait, fixed once when `acquire` starts. One that the time source
  cannot represent is none, and the caller waits until it is woken.
* `health`, `metrics` and `debug` are what `health_status`, `get_metrics` and the pool's text for
  diagnostics read off the state, each in one critical section. `capacity`, `idle_count`,
  `active_count` and `allocated_count` are the fields themselves, and `active`.
-/

namespace Lending

/-- The shared part of a pool of resources. -/
structure Pool (α : Type) where
  /-- Resources nobody uses, the one to be lent next first. -/
  idle        : List α := []
  /-- Slots taken. -/
  allocated   : Nat := 0
  /-- Most slots that may be taken; `0` for no limit. -/
  capacity    : Nat := 0
  /-- How long a caller waits at the limit; `none` for as long as it takes. -/
  waitLimit   : Option Duration := none
  /-- Callers that wait, or were woken and have not looked yet. -/
  waiting     : Nat := 0
  /-- Tickets of the callers that wait, the longest wait first. -/
  parked      : List Nat := []
  /-- The ticket of the next caller that waits. -/
  nextTicket  : Nat := 0
  counters    : Pool.Counters := {}
  deriving Inhabited

namespace Pool

variable {α : Type}

/-- An empty pool with these limits. -/
def ofLimits (l : Limits) : Pool α := { capacity := l.size, waitLimit := l.wait }

/-- Whether a slot is free. -/
def hasRoom (p : Pool α) : Bool := p.capacity == 0 || decide (p.allocated < p.capacity)

/-- Whether more slots are taken than the limit allows, as after a shrink. -/
def overCapacity (p : Pool α) : Bool :=
  decide (0 < p.capacity) && decide (p.capacity < p.allocated)

/-- Whether the limit `n` lets in more callers than the present one. -/
def grows (p : Pool α) (n : Nat) : Bool :=
  n == 0 || (p.capacity != 0 && decide (p.capacity < n))

/-- Slots whose resource is not idle. -/
def active (p : Pool α) : Nat := p.allocated - p.idle.length

/-- When a caller that arrives at `t` stops waiting. -/
def deadline? (p : Pool α) (t : Instant) : Option Instant :=
  p.waitLimit.bind t.after?

/-- The same pool with other counters. -/
def count (p : Pool α) (f : Counters → Counters) : Pool α := { p with counters := f p.counters }

/-- One parked caller, if there is any, is woken: the one in place `pick`, counted around. -/
def notifyOne (p : Pool α) (pick : Nat) : Pool α :=
  { p with parked := p.parked.eraseIdx (pick % p.parked.length) }

/-- All parked callers are woken. -/
def notifyAll (p : Pool α) : Pool α := { p with parked := [] }

/-- A caller takes a ticket and parks. -/
def park (p : Pool α) : Pool α :=
  { p with
    waiting := p.waiting + 1
    parked := p.parked ++ [p.nextTicket]
    nextTicket := p.nextTicket + 1 }

/-- The caller with this ticket stops waiting. -/
def unpark (p : Pool α) (ticket : Nat) : Pool α :=
  { p with parked := p.parked.filter (· != ticket) }

/-- The pool's health at this moment. -/
def health (p : Pool α) : Health := .of p.idle.length p.active p.capacity p.waiting

/-- The pool's metrics at this moment. -/
def metrics (p : Pool α) : Metrics :=
  .of p.counters p.active p.idle.length p.waiting p.capacity

/-- The pool's size, as diagnostics show it. -/
def debug (p : Pool α) : String :=
  "ResourcePool \x7b capacity: " ++ toString p.capacity
    ++ ", allocated: " ++ toString p.allocated
    ++ ", idle: " ++ toString p.idle.length
    ++ ", waiting: " ++ toString p.waiting ++ ", .. \x7d"

end Pool

end Lending
