import Lending.Error

/-!
# Remote sessions

What a session can be asked to do with files, and what comes back: the operations of `Session` but
for `is_open` and `close`, which are questions of their own here. A session is known to a cache by a
number only; whoever connects is outside.

Two operations move data besides their result: `read` writes into a sink of the caller, `write`
consumes a source of the caller, and both may have done so before they fail. So a `FileReply` has
three parts, and a handle that passes an operation on passes on all three. On a handle without a
session nothing is written and nothing is consumed (`FileReply.released`).
-/

namespace Lending

/-- A file operation of a session. -/
inductive FileOp where
  | remove (path : String)
  | list (path : String)
  | listNames (path : String)
  | read (path : String)
  | write (source : List UInt8) (path : String)
  | rename (source target : String)
  | mkdir (path : String)
  | exists (path : String)
  | readRaw (path : String)
  | finalizeRaw
  deriving DecidableEq

/-- What a file operation that succeeded gives. -/
inductive FileValue where
  | unit
  | flag (b : Bool)
  | names (names : List String)
  | bytes (bytes : List UInt8)
  deriving DecidableEq

/-- How a file operation went. -/
structure FileReply where
  result   : Except SessionError FileValue
  /-- What was written into the sink. -/
  sink     : List UInt8 := []
  /-- How much of the source was consumed. -/
  consumed : Nat := 0

/-- How every file operation goes once the session is gone. -/
def FileReply.released : FileReply := { result := .error .released }

end Lending
