import Lending.Pool.Call

/-!
# A pool and the references to it

Whoever uses a `ResourcePool` has a reference to it, and the references are counted. A call comes
with a reference of its own, so it may outlive the one of its caller, as when a callback gives that
up; the caller gives the call's reference up as well (`Op.leave`), once the result is taken. Who
gives up the last reference ends the pool: what is still idle is torn down on that thread
(`Call.teardown`), and a raise of this teardown is what the `leave` comes to.

Resources that are released after their owner has gone are therefore torn down when the last
reference goes (specification, section 4.1). With no reference left an operation finds nothing to
work on, and does nothing.
-/

namespace Lending.Pool

/-- A pool with the references to it. -/
structure Held (α : Type) where
  pool    : Pool α
  keepers : Nat := 1

namespace Held

variable {α : Type}

/-- What users do with a pool they have a reference to. -/
inductive Op (α : Type) where
  /-- A reference is taken, and then this is done. -/
  | call (op : Pool.Op α)
  /-- A reference is taken. -/
  | hold
  /-- One reference is given up. -/
  | leave

/-- An operation in flight. -/
inductive Frame (α : Type) where
  | start (op : Op α)
  | call (x : Call α)

/-- Whether anybody refers to the pool. -/
def alive (s : Held α) : Bool := decide (0 < s.keepers)

namespace Frame

/-- What an operation needs to go on. -/
def need (s : Held α) : Frame α → Need (Frame α) (Query α) (Reply α)
  | .start _ => .step
  | .call x =>
    match x.need s.pool with
    | .step | .sub _ => .step
    | .ask q => .ask q
    | .wait => .wait
    | .over r => .over r

/-- An operation starts; with no reference left there is nothing to operate on. -/
def begin (s : Held α) (op : Op α) : Held α × Frame α :=
  if s.alive then
    match op with
    | .call op => ({ s with keepers := s.keepers + 1 }, .call (.start op))
    | .hold => ({ s with keepers := s.keepers + 1 }, .call (.over .done))
    | .leave =>
      ({ s with keepers := s.keepers - 1 },
        .call (if s.keepers = 1 then .teardown else .over .done))
  else (s, .call (.over .done))

/-- The next step of an operation that needs nothing. -/
def step (m : Moment) (s : Held α) : Frame α → Held α × Frame α × List Notice
  | .start op =>
    let (s, f) := begin s op
    (s, f, [])
  | .call x =>
    let (p, x, notices) := x.step m s.pool
    ({ s with pool := p }, .call x, notices)

/-- How an operation goes on with the answer it needed. -/
def resume (s : Held α) : Frame α → Reply α → Held α × Frame α × List Notice
  | .call x, r =>
    let (p, x, notices) := x.resume s.pool r
    ({ s with pool := p }, .call x, notices)
  | f, _ => (s, f, [])

/-- When a waiting operation stops waiting by itself. -/
def timer? (s : Held α) : Frame α → Option Instant
  | .call x => x.timer? s.pool
  | _ => none

/-- A waiting operation stops waiting by itself. -/
def expire (s : Held α) : Frame α → Held α
  | .call x => { s with pool := x.expire s.pool }
  | _ => s

end Frame

/-- The program of a pool that lives as long as somebody refers to it. -/
def program (α : Type) : Program (Held α) (Frame α) (Op α) (Query α) (Reply α) where
  start := .start
  need := Frame.need
  step := Frame.step
  resume := Frame.resume
  timer? := Frame.timer?
  expire := Frame.expire

end Held

end Lending.Pool
