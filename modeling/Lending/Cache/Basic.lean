import Lending.Pool.Call
import Lending.FileOp

/-!
# Stacks of caches

A cache (`CachingSessionFactory`) keeps sessions in a pool and lends them out as **handles**
(`CachedSession`). It is a session factory itself, so caches stack: the sessions of a level are the
handles of the level below it, those of the innermost level are remote sessions (specification,
sections 3 and 4.2). A level is known by its depth, `0` for the outermost; sessions and handles are
numbers, a handle's number being its place in its level's list.

* Each level has an **epoch**, a number that only grows. A handle remembers the epoch under which it
  was lent (`creation_epoch`); a reset moves the level to a new epoch (`advance`), so that every
  session lent before is closed when it comes back instead of being lent again.
* A handle is released when its session has been taken out (`target`), which happens once. Whether
  it is dirty and whether it is released are facts of the handle, and no session carries them.
* `resetting` is the mutex by which resets of a level take turns (`reset_lock`).

Who is alive follows from who refers to whom. The users share the outermost factory (`keepers`
counts them), a factory keeps its pool and the next factory, a pool keeps the next factory, a handle
keeps its pool. So a pool goes when its factory and all its handles are gone, and then the next
factory goes.
-/

namespace Lending

/-- What a user of a cache has in hands. -/
structure Handle where
  /-- The session it stands for, until it is released. -/
  target : Option Nat
  /-- The epoch under which it was lent. -/
  epoch  : Nat
  /-- Whether its session is to be closed rather than reused. -/
  dirty  : Bool := false
  /-- Whether an operation of its user is under way. -/
  inUse  : Bool := false
  /-- Whether the handle itself is no more. -/
  gone   : Bool := false
  deriving DecidableEq

/-- A handle that never was. -/
def Handle.none : Handle := { target := Option.none, epoch := 0, gone := true }

/-- One cache of a stack. -/
structure Level where
  pool         : Pool Nat
  epoch        : Nat := 0
  /-- Whether a reset is under way; resets of a level take turns. -/
  resetting    : Bool := false
  factoryAlive : Bool := true
  poolAlive    : Bool := true
  /-- All handles ever lent. -/
  handles      : List Handle := []
  deriving Inhabited

/-- A stack of caches over one remote side. -/
structure Cache where
  levels  : List Level
  /-- Whether the remote side shares one connection among its sessions, and can reset it. -/
  shared  : Bool := false
  /-- References of users to the outermost factory. -/
  keepers : Nat := 1

namespace Level

/-- Whether nobody refers to the level's pool any more. -/
def abandoned (l : Level) : Bool := !l.factoryAlive && l.handles.all (·.gone)

/-- The level after its factory, or one of its handles, has gone: an abandoned pool goes as well. -/
def release (l : Level) : Level := { l with poolAlive := l.poolAlive && !l.abandoned }

end Level

namespace Cache

/-- A stack with these limits, the outermost first. -/
def ofLimits (limits : List Limits) (shared : Bool) : Cache :=
  { levels := limits.map fun l => { pool := .ofLimits l }, shared }

/-- The number of levels. -/
def depth (c : Cache) : Nat := c.levels.length

/-- Level `k`. -/
def level (c : Cache) (k : Nat) : Level := c.levels[k]?.getD default

/-- Whether the sessions of level `k` are remote ones. -/
def innermost (c : Cache) (k : Nat) : Bool := decide (c.depth ≤ k + 1)

/-- Handle `h` of level `k`. -/
def handle (c : Cache) (k h : Nat) : Handle := (c.level k).handles[h]?.getD .none

/-- The same stack with level `k` changed. -/
def modify (c : Cache) (k : Nat) (f : Level → Level) : Cache :=
  { c with levels := c.levels.modify k f }

/-- The same stack with the pool of level `k` changed. -/
def setPool (c : Cache) (k : Nat) (p : Pool Nat) : Cache :=
  c.modify k fun l => { l with pool := p }

/-- The same stack with handle `h` of level `k` changed. -/
def modifyHandle (c : Cache) (k h : Nat) (f : Handle → Handle) : Cache :=
  c.modify k fun l => { l with handles := l.handles.modify h f }

/-- Session `s` is lent by level `k` under this epoch; the number of the new handle. -/
def lend (c : Cache) (k s epoch : Nat) : Cache × Nat :=
  (c.modify k fun l => { l with handles := l.handles ++ [{ target := some s, epoch }] },
    (c.level k).handles.length)

/-- Handle `h` of level `k` is no more. -/
def forget (c : Cache) (k h : Nat) : Cache := c.modifyHandle k h fun x => { x with gone := true }

/-- The remote session behind session `s` of level `k`; `fuel` levels are looked through. -/
def remoteBehind (c : Cache) : Nat → Nat → Nat → Option Nat
  | 0, _, _ => none
  | fuel + 1, k, s =>
    if c.innermost k then some s else (c.handle (k + 1) s).target.bind (c.remoteBehind fuel (k + 1))

/-- The remote session behind handle `h` of the outermost level, until the handle is released. -/
def remote? (c : Cache) (h : Nat) : Option Nat :=
  (c.handle 0 h).target.bind (c.remoteBehind c.depth 0)

end Cache

end Lending
