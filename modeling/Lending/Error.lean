import Lending.Duration

/-!
# Why a resource could not be had

A pool fails for one of three causes (`PoolError`): it is exhausted (`PoolExhausted`), making the
resource failed (`CreateFailed`), or the request was given up (`Cancelled`). A remote session fails
with a kind and a text (`SessionError`). The two convert into each other as an error passes from one
level of a stack of pools to the next: a session error becomes the cause of a failed creation
(`PoolError.createFailed`, for `create_failed`), a pool error becomes a session error that shows it
(`SessionError.pool`), of a kind that depends on the cause. Messages only ever gain a lead, so the
text of the first cause stays the end of every message built on it.
-/

namespace Lending

/-- The kinds of session error. -/
inductive ErrorKind where
  | notFound
  | permissionDenied
  | connectionRefused
  | connectionReset
  | notConnected
  | brokenPipe
  | alreadyExists
  | invalidInput
  | invalidData
  | timedOut
  | interrupted
  | unexpectedEof
  | other
  deriving DecidableEq, Inhabited

mutual
/-- Why a pool handed out nothing. -/
inductive PoolError where
  /-- The wait limit passed while the pool was at its capacity. -/
  | exhausted (limit : Duration)
  /-- The resource could not be made. -/
  | createFailed (cause : SessionError)
  /-- The request was given up. -/
  | cancelled

/-- Why a session operation failed. -/
inductive SessionError where
  /-- Reported by the session itself. -/
  | reported (kind : ErrorKind) (message : String)
  /-- A pool in front of the session failed. -/
  | pool (cause : PoolError)
end

mutual
/-- The text of a pool error. -/
def PoolError.message : PoolError → String
  | .exhausted limit => "Pool exhausted - no resource became available within " ++ limit.text
  | .createFailed cause => "Failed to create pooled resource: " ++ cause.message
  | .cancelled => "Operation was cancelled"

/-- The text of a session error; that of a pool error is shown unchanged. -/
def SessionError.message : SessionError → String
  | .reported _ message => message
  | .pool cause => cause.message
end

/-- The kind under which a pool error is passed on as a session error. -/
def PoolError.kind : PoolError → ErrorKind
  | .exhausted _ => .timedOut
  | .createFailed _ => .other
  | .cancelled => .interrupted

/-- The kind of a session error. -/
def SessionError.kind : SessionError → ErrorKind
  | .reported kind _ => kind
  | .pool cause => cause.kind

/-- The constructor and payload of a pool error; a cause has no such text. -/
def PoolError.debug? : PoolError → Option String
  | .exhausted limit => some ("PoolExhausted(" ++ limit.text ++ ")")
  | .createFailed _ => none
  | .cancelled => some "Cancelled"

/-- The error of an operation on a handle whose session is gone. -/
def SessionError.released : SessionError :=
  .reported .notConnected "session already released to the cache"

/-- `e` as it arrives after passing through `n` further pools, each of which failed to create its
resource because of it. -/
def PoolError.wrapped (e : PoolError) : Nat → PoolError
  | 0 => e
  | n + 1 => .createFailed (.pool (e.wrapped n))

end Lending
