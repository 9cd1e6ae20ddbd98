import Lending.Error

/-!
# Notices

What a pool and a cache tell about themselves while they run. A notice is the occasion with its
figures; `Notice.level`, `Notice.message` and `Notice.fields` give the record that a log shows.

Notices come out of the steps of a program, beside the new state, and nothing is decided by them.
Two tell of an error that goes no further: a session that could not be closed as a pool evicted it
(`evictFailed`), and one that could not be closed as its handle was released (`closeFailed`).
-/

namespace Lending

/-- How much a notice matters. -/
inductive NoticeLevel where
  | trace
  | debug
  | warn
  deriving DecidableEq

/-- The name of a level. -/
def NoticeLevel.name : NoticeLevel → String
  | .trace => "TRACE"
  | .debug => "DEBUG"
  | .warn => "WARN"

/-- An occasion worth a record. -/
inductive Notice where
  /-- A slot was taken for a resource that is about to be made. -/
  | creating (allocated capacity : Nat)
  /-- A caller's wait limit passed. -/
  | exhausted (limit : Duration) (allocated : Nat)
  /-- A returned resource is evicted because the pool has shrunk. -/
  | surplus
  /-- Idle resources are about to be evicted. -/
  | removingIdle (count : Nat)
  /-- The pool goes, and its idle resources with it. -/
  | closingIdle (count : Nat)
  /-- A cache starts to invalidate its sessions. -/
  | resetting
  /-- A cache has moved to a new epoch. -/
  | advanced (epoch : Nat)
  /-- A handle was closed a second time. -/
  | alreadyReleased (epoch : Nat)
  /-- A session is closed because its cache was reset since it was handed out. -/
  | outdated (session current : Nat)
  /-- A session is closed because its user asked for it. -/
  | dirty (epoch : Nat)
  /-- A session goes back to its pool. -/
  | returning (epoch : Nat)
  /-- A session could not be closed properly on its way out of the pool. -/
  | evictFailed (error : SessionError)
  /-- A session could not be closed properly when its handle was released. -/
  | closeFailed (error : SessionError)

namespace Notice

/-- How much the notice matters. -/
def level : Notice → NoticeLevel
  | creating .. | returning .. => .trace
  | evictFailed .. | closeFailed .. => .warn
  | _ => .debug

/-- The occasion in words. -/
def message : Notice → String
  | creating .. => "creating pooled resource"
  | exhausted .. => "pool exhausted"
  | surplus => "pool above capacity, evicting returned resource"
  | removingIdle .. => "removing idle resources"
  | closingIdle .. => "evicting idle resources on pool drop"
  | resetting =>
    "cache reset; idle sessions will be removed, in-use sessions will be closed when returned"
  | advanced .. => "session epoch advanced"
  | alreadyReleased .. => "session already released"
  | outdated .. => "closing session after cache reset"
  | dirty .. => "closing dirty session"
  | returning .. => "releasing session back to the pool"
  | evictFailed .. => "failed to close evicted session"
  | closeFailed .. => "failed to close session"

/-- The figures by name. -/
def fields : Notice → List (String × String)
  | creating allocated capacity =>
    [("allocated", toString allocated), ("capacity", toString capacity)]
  | exhausted limit allocated => [("timeout", limit.text), ("allocated", toString allocated)]
  | removingIdle count | closingIdle count => [("count", toString count)]
  | advanced epoch | alreadyReleased epoch | dirty epoch | returning epoch =>
    [("epoch", toString epoch)]
  | outdated session current =>
    [("session_epoch", toString session), ("current_epoch", toString current)]
  | evictFailed error | closeFailed error => [("error", error.message)]
  | surplus | resetting => []

end Notice

end Lending
