import Lending.Pool.Call
import Lending.Rehearsal.Crew
import Lending.Rehearsal.Remote

/-!
# Crews that strain a pool and a cache

Two crews whose result does not depend on the schedule: borrowers that share a pool, some of whose
resources are stale; and users who close handles from before a reset while further resets go on.
-/

namespace Lending.Rehearsal

namespace PoolStress

/-- A load on a pool. -/
structure Load where
  capacity   : Nat
  threads    : Nat
  /-- How often each thread borrows. -/
  iterations : Nat
  /-- A resource is stale if its number is a multiple of this, unless it is zero. -/
  staleMod   : Nat
  /-- A resource is discarded each time the count of borrowings is a multiple of this, unless it is
  zero. -/
  discardMod : Nat

/-- Whether `n` falls on the beat of `m`. -/
def onBeat (m n : Nat) : Bool := decide (0 < m) && n % m == 0

/-- A thread: how often it has borrowed, and what it has. -/
structure Borrower where
  done : Nat := 0
  held : Option Nat := none

/-- The limits of the pool under a load. -/
def Load.limits (l : Load) : Limits := { size := l.capacity, wait := some (.of 10 0) }

/-- The borrowers of a load; outside is the number of the next resource. -/
def crew (l : Load) :
    Crew (Pool Nat) (Pool.Call Nat) (Pool.Op Nat) (Pool.Query Nat) (Pool.Reply Nat) Borrower
      Nat where
  program := Pool.program Nat
  answer made
    | .create => (made + 1, .got made)
    | .isStale r => (made, .verdict (onBeat l.staleMod r))
    | .evict _ | .drop _ => (made, .done)
  next? b :=
    match b.held with
    | some r => some (if onBeat l.discardMod b.done then .discard r else .release r)
    | none => if b.done < l.iterations then some .acquire else none
  took b
    | .got r => { b with held := some r }
    | .done => { done := b.done + 1, held := none }
    | _ => { b with done := b.done + 1 }
  holds b := b.held.isSome

/-- What a load came to, and whether the pool kept to its limits. -/
def run (l : Load) : Report :=
  let sh := (crew l).run (.ofLimits l.limits) 0 (List.replicate l.threads {})
  let p := sh.world.shared
  let n := p.counters
  let within (m : Nat) : Bool := l.capacity == 0 || decide (m ≤ l.capacity)
  .record [("acquired", .count n.acquired), ("released", .count n.released),
    ("discarded", .count n.discarded), ("exhausted", .count n.exhausted),
    ("active", .count p.active), ("waiting", .count p.waiting),
    ("peak_ok", .flag (within sh.peak)), ("idle_ok", .flag (within p.idle.length)),
    ("balance_ok", .flag (n.created == n.evicted + n.discarded + p.idle.length)),
    ("stale_ok", .flag (n.stale == n.evicted))]

end PoolStress

namespace CacheStress

/-- A user: what is still to do, the handles got and the epochs stored. -/
structure User where
  todo    : List Cache.Op
  handles : List Nat := []
  epochs  : List Nat := []

/-- A user with these operations of the factory to do, each of which comes with a reference. -/
def User.ofOps (ops : List Cache.Op) : User := { todo := ops.flatMap fun op => [op, .leave] }

/-- The remote side, and the readings taken of the clock. -/
structure Outside where
  connections : List Connection := []
  reads       : Nat := 0

/-- Users of a cache. -/
def crew : Crew Cache Cache.Frame Cache.Op Cache.Query Cache.Reply User Outside where
  program := Cache.program
  answer o
    | .connect =>
      ({ o with connections := o.connections ++ [{ isOpen := true }] }, .got o.connections.length)
    | .isOpen s => (o, .flag ((o.connections[s]?.map (·.isOpen)).getD false))
    | .close s =>
      ({ o with connections := o.connections.modify s fun x => ⟨false, x.closes + 1⟩ }, .done)
    | .clock _ => ({ o with reads := o.reads + 1 }, .reading (o.reads + 1))
    | .file _ _ => (o, .file .released)
    | .isShared => (o, .flag false)
    | .resetShared => (o, .done)
  next? u := u.todo.head?
  took u r :=
    let u := { u with todo := u.todo.tail }
    match r with
    | .got h => { u with handles := u.handles ++ [h] }
    | .reading e => { u with epochs := u.epochs ++ [e] }
    | _ => u
  holds _ := false

/-- Whether each number is greater than the one before. -/
def increasing : List Nat → Bool
  | a :: b :: rest => decide (a < b) && increasing (b :: rest)
  | _ => true

/-- One user takes handles and resets; then the handles are closed, each by a user of its own, while
another goes on resetting. -/
def run (limits : Limits) (handles resets : Nat) : Report :=
  let before := crew.run (.ofLimits [limits] false) {}
    [.ofOps (List.replicate handles .getSession ++ [.reset 0])]
  let got := before.workers.flatMap (·.handles)
  let first := (before.world.shared.level 0).epoch
  let after := crew.run before.world.shared before.outside
    (.ofOps (List.replicate resets (.reset 0)) :: got.map fun h => { todo := [.close h] })
  let l := after.world.shared.level 0
  let n := l.pool.counters
  .record [("closes", .counts (after.outside.connections.map (·.closes))),
    ("increasing", .flag (increasing (first :: after.workers.flatMap (·.epochs)))),
    ("advanced", .flag (decide (first < l.epoch))),
    ("idle", .count l.pool.idle.length), ("allocated", .count l.pool.allocated),
    ("discarded", .count n.discarded), ("released", .count n.released),
    ("evicted", .count n.evicted)]

end CacheStress

end Lending.Rehearsal
