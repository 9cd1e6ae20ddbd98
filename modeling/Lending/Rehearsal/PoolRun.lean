import Lending.Pool.Held
import Lending.Rehearsal.Stage

/-!
# Rehearsals of a single pool

The resources are numbers, made in order, a failed attempt using one up too. The script keeps the
resources it has acquired in a list (`held`) and gives them back by place or by number. A step of
the script may run inside a callback as well as on its own. The script has one reference to the
pool, and once it has given that up its steps come too late; the pool itself stays until the calls
and the waiters under way are through with it.
-/

namespace Lending.Rehearsal.PoolRun

/-- The callbacks that a rule can script. -/
inductive Callback where
  | stale
  | evict
  deriving DecidableEq

/-- Which held resource a step means: one by number, or one by place, counted around. -/
inductive Which where
  | number (id : Nat)
  | place (i : Nat)

/-- A step of the script. -/
inductive Step where
  | acquire
  | release (which : Which)
  | discard (which : Which)
  | removeIdle
  | resize (n : Nat)
  | setTimeout (d : Duration)
  | rule (on : Callback) (id : Nat) (outcome : Outcome Step)
  | counts
  | health
  | metrics
  | exported
  | prometheus (name : String) (tags : Tags)
  | debug
  /-- Some waiters start, at least one. -/
  | spawn (n : Nat)
  /-- All waiters are waited for. -/
  | join
  | drop

/-- What is outside the pool. -/
structure Outside where
  /-- How the attempts to make a resource will go. -/
  creates  : List (Outcome Step)
  /-- Attempts so far. -/
  attempts : Nat := 0
  rules    : Rules Callback Step := {}
  /-- Resources the script has, in the order of acquisition. -/
  held     : List Nat := []
  /-- Whether the script still refers to the pool. -/
  holds    : Bool := true

/-- A callback happens. -/
def pose (o : Outside) : Pool.Query Nat → Posed Step Outside
  | .create =>
    let n := o.attempts
    { outside := { o with attempts := n + 1 }
      event? := some (.text ("create:" ++ toString n))
      outcome := o.creates[n]?.getD .plain
      number := n }
  | .isStale r =>
    let (outcome, rules) := o.rules.take .stale r
    { outside := { o with rules }, event? := some (.text ("check:" ++ toString r)), outcome }
  | .evict r =>
    let (outcome, rules) := o.rules.take .evict r
    { outside := { o with rules }, event? := some (.text ("evict:" ++ toString r)), outcome }
  | .drop _ => { outside := o, event? := none, outcome := .plain }

/-- How a callback answers. -/
def answer (q : Pool.Query Nat) (number : Nat) (outcome : Outcome Step) : Pool.Reply Nat :=
  match outcome.ending, q with
  | .raise message, _ => .raised message
  | ending, .create =>
    match ending.poolError? with
    | some e => .failed e
    | none => .got number
  | _, .isStale _ => .verdict outcome.stale
  | _, .evict _ | _, .drop _ => .done

/-- The resource that a step means, and what is held once the step has it. -/
def Which.pick (held : List Nat) : Which → Option (Nat × List Nat)
  | .number id => some (id, held)
  | .place i =>
    let i := i % held.length
    held[i]?.map fun id => (id, held.eraseIdx i)

/-- How a step of the script starts. -/
abbrev Start := Begun (Pool.Held.Op Nat) Step

/-- A step that is one call of the pool starts. -/
def calling (step : Step) (op : Pool.Op Nat) : Start := .tasks step [.call (.call op), .call .leave]

/-- A step that gives a resource back starts. -/
def giveBack (o : Outside) (which : Which) (step : Which → Step) (op : Nat → Pool.Op Nat) :
    Outside × Start :=
  match which.pick o.held with
  | none => (o, .done skip)
  | some (id, held) => ({ o with held }, calling (step (.number id)) (op id))

/-- What a step does that keeps the pool there meanwhile. -/
def holding (tasks : List (Task (Pool.Held.Op Nat))) : List (Task (Pool.Held.Op Nat)) :=
  .call .hold :: tasks ++ [.call .leave]

/-- A step of a script that refers to the pool starts. -/
def beginHeld (p : Pool Nat) (o : Outside) (step : Step) : Outside × Start :=
  match step with
  | .acquire => (o, calling step .acquire)
  | .release which => giveBack o which .release .release
  | .discard which => giveBack o which .discard .discard
  | .removeIdle => (o, calling step .removeIdle)
  | .resize n => (o, calling step (.resize n))
  | .setTimeout d => (o, calling step (.setWaitLimit d))
  | .rule on id outcome => ({ o with rules := o.rules.set on id outcome }, .done ok)
  | .counts => (o, .done p.size)
  | .health => (o, .done p.health.report)
  | .metrics => (o, .done p.metrics.report)
  | .exported => (o, .done p.metrics.exported)
  | .prometheus name tags => (o, .done (.text (p.metrics.exposition name tags)))
  | .debug => (o, .done (.text p.debug))
  | .spawn n => (o, .tasks step (holding (Task.crowd n [.call .acquire, .leave])))
  | .join => (o, .tasks step (holding [.join]))
  | .drop => ({ o with holds := false }, .tasks step [.call .leave])

/-- A step starts. -/
def begin (s : Pool.Held Nat) (o : Outside) (step : Step) : Outside × Start :=
  if o.holds then beginHeld s.pool o step
  else (o, .done (match step with | .drop => ok | _ => gone))

/-- What a call of a step came to. -/
def outcomeOf (o : Outside) (step : Step) : Pool.Reply Nat → Outside × Report
  | .raised message => (o, .raised message)
  | .failed e => (o, e.report)
  | .got id => ({ o with held := o.held ++ [id] }, .record [("id", .count id)])
  | .done | .verdict _ =>
    match step with
    | .release (.number id) | .discard (.number id) => (o, .record [("id", .count id)])
    | _ => (o, ok)

/-- What an operation of a step came to. Giving up a reference decides the step only by a raise. -/
def finish (o : Outside) (step : Step) (op : Pool.Held.Op Nat) (r : Pool.Reply Nat) :
    Outside × Option Report :=
  match op, r with
  | .call _, r =>
    let (o, report) := outcomeOf o step r
    (o, some report)
  | _, .raised message => (o, some (.raised message))
  | _, _ => (o, none)

/-- The script's way with a pool. -/
def play (logged : Bool) :
    Play (Pool.Held Nat) (Pool.Held.Frame Nat) (Pool.Held.Op Nat) (Pool.Query Nat)
      (Pool.Reply Nat) Step Outside where
  program := Pool.Held.program Nat
  locks
    | .call x => x.critical
    | .start _ => false
  parks
    | .call (.parked _ _) => true
    | _ => false
  logged
  pose
  reply o q number outcome := (o, answer q number outcome)
  begin s o _ step := begin s o step
  finish _ := finish

/-- A pool in rehearsal. -/
abbrev PoolStage :=
  Stage (Pool.Held Nat) (Pool.Held.Frame Nat) (Pool.Held.Op Nat) (Pool.Query Nat)
    (Pool.Reply Nat) Step Outside

/-- What the calls of waiters came to. -/
def called (st : PoolStage) : List (Pool.Reply Nat) :=
  st.replies.filterMap fun
    | (.call _, r) => some r
    | _ => none

/-- The resources that waiters got, in order. -/
def gotten (replies : List (Pool.Reply Nat)) : List Nat :=
  (replies.filterMap fun
    | .got id => some id
    | _ => none).mergeSort

/-- What waiters got instead of a resource. -/
def refusals (replies : List (Pool.Reply Nat)) : List Report :=
  Report.sorted (replies.filterMap fun
    | .failed e => some e.report
    | .raised message => some (.raised message)
    | _ => none)

/-- The report of a step, `raced` where other threads ran meanwhile. -/
def told (logged : Bool) (st : PoolStage) (raced : Bool) : Report :=
  let p := st.world.shared.pool
  let replies := called st
  .record (
    [("r", st.results.headD .null), ("ev", st.happened raced)]
      ++ (if st.world.shared.alive then [("st", p.state), ("m", p.counters.report)] else [])
      ++ (if replies.isEmpty then []
          else
            [("w", .record [("ids", .counts (gotten replies)),
              ("errors", .list (refusals replies))])])
      ++ (play logged).stuckReport st)

/-- Whether other threads run during a step, as it stands in the script. -/
def Step.races : Step → Bool
  | .spawn _ => true
  | _ => false

/-- A step of the script on its own, with its report. -/
def perform (logged : Bool) (st : PoolStage) (step : Step) : PoolStage × Report :=
  let raced := !st.waiters.isEmpty || step.races
  let st := (play logged).perform st.clear step
  let held := st.outside.held ++ gotten (called st)
  ({ st with outside := { st.outside with held } }, told logged st raced)

/-- The steps of a script, one after another. -/
def performAll (logged : Bool) : PoolStage → List Step → PoolStage × List Report
  | st, [] => (st, [])
  | st, step :: rest =>
    let (st, report) := perform logged st step
    let (st, reports) := performAll logged st rest
    (st, report :: reports)

/-- A rehearsal: the steps of the script, a step that lets waiters through if any are left, and the
end of the pool. -/
def run (limits : Limits) (creates : List (Outcome Step)) (steps : List Step) (logged : Bool) :
    Report :=
  let start : PoolStage := Play.opening { pool := .ofLimits limits } { creates }
  let (st, reports) := performAll logged start steps
  let last := (if st.waiters.isEmpty then [] else [Step.resize 0]) ++ [.drop]
  .list (reports ++ (performAll logged st last).2)

end Lending.Rehearsal.PoolRun
