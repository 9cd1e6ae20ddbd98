import Lending.Cache.Frame
import Lending.Guarded

/-!
# The mutexes of a stack of caches

Every level has two mutexes. One guards the shared part of its pool, for the critical sections of
the pool's calls and for looks. With the other one resets take turns (`reset_lock`): a `reset_cache`
takes it first, and has it until it has ended, so while the shared connection is asked for and
reset, the clock is read and what is idle is torn down.

Here every level may be used directly, by everybody and at any time (`Use`): whoever has a level's
factory, its pool or a handle of it, a callback included. Nothing is asked of these users, so there
are more runs than with well-behaved ones.

* `Cache.everyLevel`: the program of a stack with these uses, and `Cache.guarded`, with mutexes.
* `Cache.takes`: the mutex that a frame tries to take next.
* `Cache.has`: the mutexes that it has. `Cache.Taken`: whether somebody has it.
-/

namespace Lending.Cache

/-- The mutexes of a stack. -/
inductive Mutex where
  /-- Guards the shared part of level `k`'s pool. -/
  | pool (k : Nat)
  /-- A reset of level `k` has it from its begin to its end. -/
  | reset (k : Nat)
  deriving DecidableEq

/-- What can be done with a stack whose levels are all within reach. -/
inductive Use where
  /-- What users of the outermost factory do. -/
  | user (op : Op)
  | getSession (k : Nat)
  | close (k h : Nat)
  | drop (k h : Nat)
  | isOpen (k h : Nat)
  | file (k h : Nat) (op : FileOp)
  | reset (k : Nat)
  /-- An operation of level `k`'s pool. -/
  | pool (k : Nat) (op : Pool.Op Nat)
  deriving DecidableEq

/-- Where it starts. -/
def Use.start : Use → Frame
  | .user op => .call op
  | .getSession k => .borrow k
  | .close k h => .giveBack k h
  | .drop k h => .dropHandle k h
  | .isOpen k h => .probe k h
  | .file k h op => .forward k h op
  | .reset k => .reset k
  | .pool k op => .pool k (.start op)

/-- The program of a stack whose levels are all within reach. -/
def everyLevel : Program Cache Frame Use Query Reply where
  start := Use.start
  need := Frame.need
  step := Frame.step
  resume := Frame.resume
  timer? := Frame.timer?
  expire := Frame.expire

/-- The mutexes of the pools, each known by its level. -/
def guard : Guard Cache Frame Nat (Pool Nat) where
  mutex?
    | .pool k x => if x.critical then some k else none
    | _ => none
  view c k := (c.level k).pool

/-- The program of a stack with the mutexes of its pools. -/
def guarded : Program (Guarded.State Cache Nat) (Guarded.Frame Frame Nat (Pool Nat))
    (Guarded.Op Use Nat) Query (Guarded.Reply Reply (Pool Nat)) :=
  everyLevel.guarded guard

/-- The level that is to be reset, if that is what is done. -/
def resets? : Guarded.Op Use Nat → Option Nat
  | .op (.reset k) | .op (.user (.reset k)) => some k
  | _ => none

/-- The mutex that a frame tries to take next. -/
def takes (s : Guarded.State Cache Nat) : Guarded.Frame Frame Nat (Pool Nat) → Option Mutex
  | .free (.reset k) => if k < s.shared.depth then some (.reset k) else none
  | f => (f.takes everyLevel guard s).map .pool

/-- The mutex that a reset has while it is under way. -/
def Frame.turns : Frame → List Mutex
  | .askingShared k | .resettingShared k | .readingClock k _ | .sweeping k _ => [.reset k]
  | _ => []

/-- The mutexes that a frame has. -/
def has : Guarded.Frame Frame Nat (Pool Nat) → List Mutex
  | .free f => f.turns
  | .inside k f => .pool k :: f.turns
  | f => f.has.map .pool

/-- Whether anybody has this mutex. -/
def Taken (s : Guarded.State Cache Nat) : Mutex → Prop
  | .pool k => k ∈ s.taken
  | .reset k => (s.shared.level k).resetting = true

end Lending.Cache
