import Lending.Cache.Basic

/-!
# Operations of a stack of caches

The users of a stack have one factory, the outermost, and the handles it has lent (`Cache.Op`); the
levels below are reached through the outermost factory. A `Cache.Frame` is an operation in flight,
at a program point. Calls of a level's pool are frames like any other (`Frame.pool`): what such a
call asks is either asked of the remote side, at the innermost level, or done by an operation of the
next level. So a session is made by borrowing from the next level, is stale when its handle is not
open, and is torn down by releasing its handle.

What the operations do (specification, sections 4.2 and 4.3):

* **Borrowing** (`get_session`) loads the epoch, then acquires from the pool; the handle carries the
  epoch from before.
* **Giving back** (`release` of a handle, for its `close`) takes the session out of the handle and
  loads the epoch. If the epochs differ, or the handle is dirty, the session is closed and then
  discarded (`close_and_discard`); else it is released to the pool. A handle without a session is
  left alone. A close that fails is only told about; one that raises ends the operation there,
  before the discard, and takes the session with it.
* **Passing on** (`is_open` and the operations with files) goes through the sessions of a handle to
  the remote one; a handle that has been given back answers by itself.
* **Resetting** (`reset_cache`) takes its turn, resets a shared connection if there is one in use,
  reads the clock until it passes the epoch (`advance`), stores the reading, and removes what is
  idle.
* **Destroying** (`destroy`) removes what is idle; `set_pool_size` and `set_session_wait_timeout`
  pass their limits on to the pool.
* **Dropping** a handle gives its session back first. With its last reference a factory removes what
  is idle, and a pool evicts it; a raise on the way does not keep what is left from going.

The epoch is loaded and stored by single steps, and no mutex joins a load with what is done after
it: between the look of a release at the epoch and the call of the pool, and between the store of a
reset and the removal of what is idle, every other thread may run.

A factory operation comes with a reference to the outermost factory, so it may outlive the one of
its user, who gives the operation's reference up as well (`Op.leave`), once the result is taken. The
operations of one handle exclude each other (`Frame.within`).
-/

namespace Lending.Cache

/-- The operations of users. -/
inductive Op where
  | getSession
  | close (h : Nat)
  | drop (h : Nat)
  /-- Handle `h` of level `k` is marked dirty; one of an inner level is reached through the handle
  that has it. -/
  | markDirty (h : Nat) (k : Nat := 0)
  | isOpen (h : Nat)
  | file (h : Nat) (op : FileOp)
  | reset (k : Nat)
  | destroy (k : Nat)
  | setSize (k n : Nat)
  | setWaitLimit (k : Nat) (d : Duration)
  /-- A reference to the outermost factory is taken. -/
  | hold
  /-- One reference to the outermost factory is given up. -/
  | leave
  deriving DecidableEq

/-- What is asked of the remote side, and of the clocks. -/
inductive Query where
  | connect
  | isOpen (s : Nat)
  | close (s : Nat)
  | file (s : Nat) (op : FileOp)
  | isShared
  | resetShared
  /-- The clock of level `k` is read. -/
  | clock (k : Nat)
  deriving DecidableEq

/-- Answers of the remote side, and results of operations. -/
inductive Reply where
  | done
  /-- A session connected, or the number of a handle. -/
  | got (n : Nat)
  | failed (e : PoolError)
  | refused (e : SessionError)
  | flag (b : Bool)
  /-- The reading of a clock, or the epoch a reset has stored. -/
  | reading (n : Nat)
  | file (r : FileReply)
  | raised (message : String)
  /-- The operation found nothing to work on. -/
  | unavailable

/-- An operation of a stack in flight. -/
inductive Frame where
  /-- A user's operation that is about to start. -/
  | call (op : Op)
  /-- An operation of a user on handle `h` is under way, from this frame on. -/
  | within (h : Nat) (body : Frame)
  /-- A call of level `k`'s pool. -/
  | pool (k : Nat) (x : Pool.Call Nat)
  | borrow (k : Nat)
  /-- A session is being acquired for a handle with this epoch. -/
  | borrowing (k epoch : Nat)
  /-- Whether handle `h` is open is about to be found out. -/
  | probe (k h : Nat)
  /-- A file operation on handle `h` is about to be passed on. -/
  | forward (k h : Nat) (op : FileOp)
  /-- The remote side's answer is passed on. -/
  | remote (q : Query)
  | giveBack (k h : Nat)
  /-- Session `s` of level `k` is being closed, to be discarded then. -/
  | closing (k s : Nat)
  /-- Handle `h`, a session of the level above, is being torn down. -/
  | retire (k h : Nat)
  | dropHandle (k h : Nat)
  /-- A dropped handle's session is being given back. -/
  | releasing (k h : Nat)
  /-- A dropped handle is about to go. -/
  | letGo (k h : Nat) (fault : Option String)
  /-- Level `k`'s pool goes: what is idle is torn down. -/
  | dropPool (k : Nat)
  /-- Level `k`'s pool is empty; the next factory is about to go. -/
  | poolGone (k : Nat) (fault : Option String)
  /-- Level `k`'s factory goes: what is idle is removed. -/
  | dropFactory (k : Nat)
  /-- Level `k`'s factory is about to give up its reference to the pool. -/
  | factoryGone (k : Nat) (fault : Option String)
  /-- The last reference to level `k`'s pool is gone. -/
  | thenPool (k : Nat) (fault : Option String)
  /-- The last reference to level `k`'s factory is gone. -/
  | thenFactory (k : Nat) (fault : Option String)
  | reset (k : Nat)
  | askingShared (k : Nat)
  | resettingShared (k : Nat)
  /-- The clock is being read, to pass this epoch. -/
  | readingClock (k previous : Nat)
  /-- The epoch is stored; what is idle is being removed. -/
  | sweeping (k epoch : Nat)
  | over (r : Reply)
  /-- A raise met another raise. -/
  | aborted

/-- How an operation ends that met a fault, or none. -/
def Reply.ofFault : Option String → Reply
  | none => .done
  | some message => .raised message

namespace Reply

/-- The result of a pool call as one of the stack. -/
def ofPool : Pool.Reply Nat → Reply
  | .got r => .got r
  | .failed e => .failed e
  | .verdict b => .flag b
  | .done => .done
  | .raised message => .raised message

/-- An answer as the pool takes it. A session made by the next level that failed is an error of that
level's factory; a session that is open is not stale; one that could not be closed properly is torn
down nevertheless. -/
def toPool (q : Pool.Query Nat) : Reply → Pool.Reply Nat
  | .got n => .got n
  | .failed e => .failed (.createFailed (.pool e))
  | .refused e =>
    match q with
    | .create => .failed (.createFailed e)
    | _ => .done
  | .flag b => .verdict (!b)
  | .raised message => .raised message
  | .done | .reading _ | .file _ | .unavailable => .done

/-- What is told about an answer to a pool. -/
def notices (q : Pool.Query Nat) : Reply → List Notice
  | .refused e =>
    match q with
    | .evict _ => [.evictFailed e]
    | _ => []
  | _ => []

end Reply

namespace Frame

/-- How the question of level `k`'s pool is answered: by the remote side, by an operation of the
next level, or at once, where a remote session is let go. -/
def ofQuery (c : Cache) (k : Nat) : Pool.Query Nat → Need Frame Query Reply
  | .create => if c.innermost k then .ask .connect else .sub (.borrow (k + 1))
  | .isStale s => if c.innermost k then .ask (.isOpen s) else .sub (.probe (k + 1) s)
  | .evict s => if c.innermost k then .ask (.close s) else .sub (.retire (k + 1) s)
  | .drop s => if c.innermost k then .step else .sub (.dropHandle (k + 1) s)

/-- What an operation needs to go on. -/
def need (c : Cache) : Frame → Need Frame Query Reply
  | .within _ body => .sub body
  | .pool k x =>
    match x.need (c.level k).pool with
    | .step | .sub _ => .step
    | .wait => .wait
    | .ask q => ofQuery c k q
    | .over r => .over (.ofPool r)
  | .borrowing k _ => .sub (.pool k (.start .acquire))
  | .remote q => .ask q
  | .closing k s => if c.innermost k then .ask (.close s) else .sub (.giveBack (k + 1) s)
  | .retire k h => .sub (.giveBack k h)
  | .releasing k h => .sub (.giveBack k h)
  | .dropPool k => .sub (.pool k .teardown)
  | .dropFactory k => .sub (.pool k (.start .removeIdle))
  | .thenPool k _ => .sub (.dropPool k)
  | .thenFactory k _ => .sub (.dropFactory k)
  | .reset k => if (c.level k).resetting then .wait else .step
  | .askingShared _ => .ask .isShared
  | .resettingShared _ => .ask .resetShared
  | .readingClock k _ => .ask (.clock k)
  | .sweeping k _ => .sub (.pool k (.start .removeIdle))
  | .over r => .over r
  | .aborted => .wait
  | _ => .step

/-- An operation on level `k`'s factory starts at `body`, with a reference taken for it. -/
def onFactory (c : Cache) (k : Nat) (body : Frame) : Cache × Frame :=
  if 0 < c.keepers && decide (k < c.depth) then ({ c with keepers := c.keepers + 1 }, body)
  else (c, .over .unavailable)

/-- An operation on handle `h` starts at `body`, if no other one uses the handle. -/
def onHandle (c : Cache) (h : Nat) (body : Frame) : Cache × Frame :=
  if (c.handle 0 h).gone || (c.handle 0 h).inUse then (c, .over .unavailable)
  else (c.modifyHandle 0 h fun x => { x with inUse := true }, .within h body)

/-- One reference is given up, and the factory goes with the last. -/
def leave (c : Cache) : Cache × Frame :=
  if c.keepers = 0 then (c, .over .unavailable)
  else
    ({ c with keepers := c.keepers - 1 }, if c.keepers = 1 then .dropFactory 0 else .over .done)

/-- A user's operation starts, if what it needs is there. -/
def begin (c : Cache) : Op → Cache × Frame
  | .getSession => onFactory c 0 (.borrow 0)
  | .reset k => onFactory c k (.reset k)
  | .destroy k => onFactory c k (.pool k (.start .removeIdle))
  | .setSize k n => onFactory c k (.pool k (.start (.resize n)))
  | .setWaitLimit k d => onFactory c k (.pool k (.start (.setWaitLimit d)))
  | .hold => onFactory c 0 (.over .done)
  | .leave => leave c
  | .close h => onHandle c h (.giveBack 0 h)
  | .drop h => onHandle c h (.dropHandle 0 h)
  | .isOpen h => onHandle c h (.probe 0 h)
  | .file h op => onHandle c h (.forward 0 h op)
  | .markDirty h k => (c.modifyHandle k h fun x => { x with dirty := true }, .over .done)

/-- A handle's session is taken out and goes where it belongs. -/
def giveBackStep (c : Cache) (k h : Nat) : Cache × Frame × List Notice :=
  let x := c.handle k h
  match x.target with
  | none => (c, .over .done, [.alreadyReleased x.epoch])
  | some s =>
    let c := c.modifyHandle k h fun x => { x with target := none }
    let current := (c.level k).epoch
    if x.epoch ≠ current then (c, .closing k s, [.outdated x.epoch current])
    else if x.dirty then (c, .closing k s, [.dirty current])
    else (c, .pool k (.start (.release s)), [.returning current])

/-- A level's factory or a handle of it has gone; its pool goes if it was the last. -/
def releaseLevel (c : Cache) (k : Nat) (fault : Option String) : Cache × Frame :=
  let last := (c.level k).poolAlive && (c.level k).abandoned
  (c.modify k Level.release, if last then .thenPool k fault else .over (.ofFault fault))

/-- The next step of an operation that needs nothing. -/
def step (m : Moment) (c : Cache) : Frame → Cache × Frame × List Notice
  | .call op =>
    let (c, f) := begin c op
    (c, f, [])
  | .pool k x =>
    let (p, x, notices) :=
      match x.need (c.level k).pool with
      | .ask _ => x.resume (c.level k).pool .done
      | _ => x.step m (c.level k).pool
    (c.setPool k p, .pool k x, notices)
  | .borrow k => (c, .borrowing k (c.level k).epoch, [])
  | .probe k h =>
    match (c.handle k h).target with
    | none => (c, .over (.flag false), [])
    | some s => (c, if c.innermost k then .remote (.isOpen s) else .probe (k + 1) s, [])
  | .forward k h op =>
    match (c.handle k h).target with
    | none => (c, .over (.file .released), [])
    | some s => (c, if c.innermost k then .remote (.file s op) else .forward (k + 1) s op, [])
  | .giveBack k h => giveBackStep c k h
  | .dropHandle k h =>
    (c, if (c.handle k h).target.isSome then .releasing k h else .letGo k h none, [])
  | .letGo k h fault =>
    let (c, f) := releaseLevel (c.forget k h) k fault
    (c, f, [])
  | .factoryGone k fault =>
    let (c, f) := releaseLevel (c.modify k fun l => { l with factoryAlive := false }) k fault
    (c, f, [])
  | .poolGone k fault =>
    (c, if c.innermost k then .over (.ofFault fault) else .thenFactory (k + 1) fault, [])
  | .reset k =>
    (c.modify k fun l => { l with resetting := true },
      if c.shared && c.innermost k then .askingShared k else .readingClock k (c.level k).epoch,
      [.resetting])
  | f => (c, f, [])

/-- A reset ends. -/
def endReset (c : Cache) (k : Nat) (r : Reply) : Cache × Frame × List Notice :=
  (c.modify k fun l => { l with resetting := false }, .over r, [])

/-- What goes last has gone, after this fault or none. -/
def afterLast (c : Cache) (fault : Option String) : Reply → Cache × Frame × List Notice
  | .raised message =>
    (c, if fault.isSome then .aborted else .over (.raised message), [])
  | _ => (c, .over (.ofFault fault), [])

/-- How an operation goes on with the result or the answer it needed. -/
def resume (c : Cache) : Frame → Reply → Cache × Frame × List Notice
  | .within h _, r => (c.modifyHandle 0 h fun x => { x with inUse := false }, .over r, [])
  | .pool k x, r =>
    match x.need (c.level k).pool with
    | .ask q =>
      let (p, x, notices) := x.resume (c.level k).pool (r.toPool q)
      (c.setPool k p, .pool k x, r.notices q ++ notices)
    | _ => (c, .pool k x, [])
  | .borrowing k epoch, .got s =>
    let (c, h) := c.lend k s epoch
    (c, .over (.got h), [])
  | .borrowing _ _, r => (c, .over r, [])
  | .remote _, r => (c, .over r, [])
  | .closing k s, .raised message =>
    (if c.innermost k then c else c.forget (k + 1) s, .over (.raised message), [])
  | .closing k s, .refused e => (c, .pool k (.start (.discard s)), [.closeFailed e])
  | .closing k s, _ => (c, .pool k (.start (.discard s)), [])
  | .retire k h, r => (c.forget k h, .over r, [])
  | .releasing k h, .raised message => (c, .letGo k h (some message), [])
  | .releasing k h, _ => (c, .letGo k h none, [])
  | .dropPool k, .raised message => (c, .poolGone k (some message), [])
  | .dropPool k, _ => (c, .poolGone k none, [])
  | .dropFactory k, .raised message => (c, .factoryGone k (some message), [])
  | .dropFactory k, _ => (c, .factoryGone k none, [])
  | .thenPool _ fault, r => afterLast c fault r
  | .thenFactory _ fault, r => afterLast c fault r
  | .askingShared k, .raised message => endReset c k (.raised message)
  | .askingShared k, .flag true => (c, .resettingShared k, [])
  | .askingShared k, _ => (c, .readingClock k (c.level k).epoch, [])
  | .resettingShared k, .raised message => endReset c k (.raised message)
  | .resettingShared k, _ => (c, .readingClock k (c.level k).epoch, [])
  | .readingClock k _, .raised message => endReset c k (.raised message)
  | .readingClock k previous, .reading n =>
    if previous < n then
      (c.modify k fun l => { l with epoch := n }, .sweeping k n, [.advanced n])
    else (c, .readingClock k previous, [])
  | .sweeping k _, .raised message => endReset c k (.raised message)
  | .sweeping k epoch, _ => endReset c k (.reading epoch)
  | f, _ => (c, f, [])

/-- When a waiting operation stops waiting by itself. -/
def timer? (c : Cache) : Frame → Option Instant
  | .pool k x => x.timer? (c.level k).pool
  | _ => none

/-- A waiting operation stops waiting by itself. -/
def expire (c : Cache) : Frame → Cache
  | .pool k x => c.setPool k (x.expire (c.level k).pool)
  | _ => c

end Frame

/-- The program of a stack: every thread runs operations on the one stack. -/
def program : Program Cache Frame Op Query Reply where
  start := .call
  need := Frame.need
  step := Frame.step
  resume := Frame.resume
  timer? := Frame.timer?
  expire := Frame.expire

end Lending.Cache
