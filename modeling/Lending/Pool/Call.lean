import Lending.Pool.Basic
import Lending.Program

/-!
# Calls of a pool

The operations of a `ResourcePool` are `acquire`, `release`, `discard`, `remove_idle`, `resize` and
`set_wait_timeout` (`Pool.Op`; specification, section 4.1), and one that ends it (`Call.teardown`,
the drop of the pool). A `Call` is one of them in flight, at a program point between two steps; a
step is one critical section, one wake-up, or one answer of a callback. The pool's mutex is held
during a critical section only, so every callback runs with the mutex free and may use the pool.

The callbacks (`Pool.Query`) are `create`, `is_stale` and `on_evict`; `drop` stands for letting go
of a resource without `on_evict`. A callback may fail (`failed`, only when making a resource) or
**raise**: then the call ends early, gives up the slot it holds on behalf of the callback, lets go
of the resources in its hands, and raises in turn. A second raise on that way ends everything
(`Call.aborted`).

What the operations do:

* `acquire` takes the first idle resource. A stale one is evicted, its slot given up, and the next
  one taken. With none idle it makes a resource if a slot is free; else it parks until it is woken
  and looks again, or fails when its time is over. Time is only looked at when there is nothing to
  take. One pass through its loop, up to where the mutex is given back, is `Pool.look`.
* `release` makes the resource idle and wakes one caller; above the capacity it gives the slot up
  and evicts the resource instead, waking nobody.
* `discard` lets go of the resource, gives its slot up and wakes one caller.
* `remove_idle` takes all idle resources and their slots, wakes everybody, then evicts them in
  order.
* `resize` and `set_wait_timeout` change the limits; a limit that grows wakes everybody.
* `teardown` evicts what is idle when the pool goes, and counts nothing.

How they are cut into steps:

* The reservation that guards a slot while a callback runs (`SlotReservation`) is the call itself.
  To `keep` it is to go on without giving the slot up; to drop it is `Call.freeing`, and then
  `Call.notifying`, since `free_slot` wakes a caller after it has given the mutex back.
* On the way of a raise a call lets go first of what it took up last: if judging a resource raises,
  its slot is given up, and then the resource is dropped (`Then.drop`). If tearing it down raises,
  the resource has gone with the teardown, and the slot is given up after it (`Then.raise`). If one
  teardown of several raises, those after it are dropped (`Call.abandoning`).
* Counters are counted up without the mutex. The step that counts is the one next to it, since
  nobody else's doing depends on a counter.
* Which of the parked callers `notify_one` wakes is open (`Moment.pick`), and so is what the time
  source answers.
-/

namespace Lending.Pool

variable {α : Type}

/-- The operations of a pool. -/
inductive Op (α : Type) where
  | acquire
  | release (r : α)
  | discard (r : α)
  | removeIdle
  | resize (capacity : Nat)
  | setWaitLimit (d : Duration)
  deriving DecidableEq

/-- What a pool asks of its owner. -/
inductive Query (α : Type) where
  | create
  | isStale (r : α)
  | evict (r : α)
  | drop (r : α)
  deriving DecidableEq

/-- Answers of callbacks, and results of calls. -/
inductive Reply (α : Type) where
  /-- The resource that was made, or is lent. -/
  | got (r : α)
  | failed (e : PoolError)
  | verdict (stale : Bool)
  | done
  | raised (message : String)

/-- What is left to do for a call that gives up a slot. -/
inductive Then (α : Type) where
  /-- `acquire` looks again. -/
  | retry (deadline : Option Instant)
  | finish
  | fail (e : PoolError)
  | raise (message : String)
  /-- The resource in hand is let go, then the call raises. -/
  | drop (r : α) (message : String)

/-- A call of a pool in flight. -/
inductive Call (α : Type) where
  | start (op : Op α)
  /-- The pool goes, and nobody else can use it. -/
  | teardown
  /-- About to look for a resource again. -/
  | retry (deadline : Option Instant)
  /-- The staleness of `r`, taken from the idle ones, is being judged. -/
  | checking (deadline : Option Instant) (r : α)
  /-- `r` was found stale and is being torn down. -/
  | evictingStale (deadline : Option Instant) (r : α)
  /-- A resource is being made, in a slot taken for it. -/
  | creating
  /-- Parked with a ticket; woken once the ticket is gone. -/
  | parked (ticket : Nat) (deadline : Option Instant)
  /-- About to give up a slot. -/
  | freeing (next : Then α)
  /-- About to wake one caller. -/
  | notifying (next : Then α)
  /-- `r` is being let go on the way of a raise. -/
  | dropping (r : α) (message : String)
  /-- `r` came back above the capacity and is being torn down, its slot given up. -/
  | evictingSurplus (r : α)
  /-- Idle resources were taken; about to wake everybody. -/
  | drained (r : α) (rest : List α)
  /-- `r` is being torn down, `rest` is to follow. -/
  | evicting (r : α) (rest : List α) (counted : Bool)
  /-- A teardown raised; `r`, then `rest`, are let go. -/
  | abandoning (r : α) (rest : List α) (message : String)
  /-- The limit grew; about to wake everybody. -/
  | grown
  | over (result : Reply α)
  /-- A raise met another raise. -/
  | aborted

namespace Call

/-- Idle resources still in hand are torn down one by one. -/
def evictAll (counted : Bool) : List α → Call α
  | [] => .over .done
  | r :: rest => .evicting r rest counted

/-- Resources still in hand are let go one by one, and the call raises. -/
def abandonAll (message : String) : List α → Call α
  | [] => .over (.raised message)
  | r :: rest => .abandoning r rest message

/-- Where a call goes once a slot is given up and a caller woken. -/
def ofThen : Then α → Call α
  | .retry deadline => .retry deadline
  | .finish => .over .done
  | .fail e => .over (.failed e)
  | .raise message => .over (.raised message)
  | .drop r message => .dropping r message

/-- What a call needs to go on. -/
def need (p : Pool α) : Call α → Need (Call α) (Query α) (Reply α)
  | .start (.discard r) => .ask (.drop r)
  | .checking _ r => .ask (.isStale r)
  | .evictingStale _ r => .ask (.evict r)
  | .creating => .ask .create
  | .parked ticket _ => if ticket ∈ p.parked then .wait else .step
  | .dropping r _ => .ask (.drop r)
  | .evictingSurplus r => .ask (.evict r)
  | .evicting r _ _ => .ask (.evict r)
  | .abandoning r _ _ => .ask (.drop r)
  | .over result => .over result
  | .aborted => .wait
  | _ => .step

end Call

/-- One look of `acquire` at the pool, in one critical section: an idle resource, else a free slot,
else the end of the wait, else a place among the parked. -/
def look (p : Pool α) (deadline : Option Instant) (now : Instant) :
    Pool α × Call α × List Notice :=
  match p.idle with
  | r :: rest => ({ p with idle := rest }, .checking deadline r, [])
  | [] =>
    if p.hasRoom then
      let p := { p with allocated := p.allocated + 1 }
      (p, .creating, [.creating p.allocated p.capacity])
    else if deadline.any (· ≤ now) then
      let limit := p.waitLimit.getD ⟨0⟩
      (p.count fun c => { c with exhausted := c.exhausted + 1 },
        .over (.failed (.exhausted limit)), [.exhausted limit p.allocated])
    else (p.park, .parked p.nextTicket deadline, [])

namespace Call

/-- Whether the next step of a call is a critical section. -/
def critical : Call α → Bool
  | .start (.discard _) => false
  | .start _ | .retry _ | .parked _ _ | .freeing _ => true
  | _ => false

/-- The next step of a call that needs nothing. -/
def step (m : Moment) (p : Pool α) : Call α → Pool α × Call α × List Notice
  | .start .acquire => p.look (p.deadline? m.start) m.check
  | .retry deadline => p.look deadline m.check
  | .parked _ deadline => { p with waiting := p.waiting - 1 }.look deadline m.check
  | .freeing next => ({ p with allocated := p.allocated - 1 }, .notifying next, [])
  | .notifying next => (p.notifyOne m.pick, .ofThen next, [])
  | .start (.release r) =>
    if p.overCapacity then
      ({ p with allocated := p.allocated - 1 }, .evictingSurplus r, [.surplus])
    else
      ({ p with idle := p.idle ++ [r] }.count fun c => { c with released := c.released + 1 },
        .notifying .finish, [])
  | .start .removeIdle =>
    match p.idle with
    | [] => (p, .over .done, [])
    | r :: rest =>
      ({ p with idle := [], allocated := p.allocated - p.idle.length }, .drained r rest,
        [.removingIdle p.idle.length])
  | .drained r rest => (p.notifyAll, .evicting r rest true, [])
  | .start (.resize n) =>
    ({ p with capacity := n }, if p.grows n then .grown else .over .done, [])
  | .grown => (p.notifyAll, .over .done, [])
  | .start (.setWaitLimit d) => ({ p with waitLimit := some d }, .over .done, [])
  | .teardown =>
    match p.idle with
    | [] => (p, .over .done, [])
    | r :: rest =>
      ({ p with idle := [] }, .evicting r rest false, [.closingIdle p.idle.length])
  | c => (p, c, [])

/-- How a call goes on with the answer of its callback. -/
def resume (p : Pool α) : Call α → Reply α → Pool α × Call α × List Notice
  | .checking deadline r, .verdict true =>
    (p.count fun c => { c with stale := c.stale + 1 }, .evictingStale deadline r, [])
  | .checking _ r, .verdict false =>
    (p.count fun c => { c with acquired := c.acquired + 1 }, .over (.got r), [])
  | .checking _ r, .raised message => (p, .freeing (.drop r message), [])
  | .evictingStale deadline _, .done =>
    (p.count fun c => { c with evicted := c.evicted + 1 }, .freeing (.retry deadline), [])
  | .evictingStale _ _, .raised message => (p, .freeing (.raise message), [])
  | .creating, .got r =>
    (p.count fun c => { c with created := c.created + 1, acquired := c.acquired + 1 },
      .over (.got r), [])
  | .creating, .failed e => (p, .freeing (.fail e), [])
  | .creating, .raised message => (p, .freeing (.raise message), [])
  | .dropping _ message, .done => (p, .over (.raised message), [])
  | .dropping _ _, .raised _ => (p, .aborted, [])
  | .start (.discard _), .done =>
    (p.count fun c => { c with discarded := c.discarded + 1 }, .freeing .finish, [])
  | .start (.discard _), .raised message => (p, .over (.raised message), [])
  | .evictingSurplus _, .done =>
    (p.count fun c => { c with evicted := c.evicted + 1 }, .over .done, [])
  | .evictingSurplus _, .raised message => (p, .over (.raised message), [])
  | .evicting _ rest true, .done =>
    (p.count fun c => { c with evicted := c.evicted + 1 }, evictAll true rest, [])
  | .evicting _ rest false, .done => (p, evictAll false rest, [])
  | .evicting _ rest _, .raised message => (p, abandonAll message rest, [])
  | .abandoning _ rest message, .done => (p, abandonAll message rest, [])
  | .abandoning _ _ _, .raised _ => (p, .aborted, [])
  | c, _ => (p, c, [])

/-- When a parked call stops waiting by itself. -/
def timer? (p : Pool α) : Call α → Option Instant
  | .parked ticket deadline => if ticket ∈ p.parked then deadline else none
  | _ => none

/-- A parked call stops waiting by itself. -/
def expire (p : Pool α) : Call α → Pool α
  | .parked ticket _ => p.unpark ticket
  | _ => p

end Call

/-- The program of a pool: every thread runs calls of the one pool. -/
def program (α : Type) : Program (Pool α) (Call α) (Op α) (Query α) (Reply α) where
  start := .start
  need := Call.need
  step := Call.step
  resume := Call.resume
  timer? := Call.timer?
  expire := Call.expire

end Lending.Pool
