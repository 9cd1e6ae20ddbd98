import Lending.Program
import Lending.Rehearsal.Script

/-!
# The stage of a rehearsal

A stage is a world with a scripted outside. Thread `0` does the steps of the script, the other
threads are **waiters**, each with a few operations of its own. A callback is posed: it is noted as
an event, and its scripted outcome looked up; the steps of its hook then run on the same thread, on
top of the operation that asked, and at last it answers. What is left of that is an **errand** of
the thread; the step of the script that thread `0` does is an errand without a question, and so is
what a waiter does.

A step is done at once, or is a row of tasks (`Task`): operations, waiters to start, pauses that let
the others go on, and the wait for all waiters.

`Play.advance?` is the next thing that one thread does, and `Play.next?` the next thing that
happens:

* **A thread goes on as long as it can**, and then the one that has been still for longest. So who
  is woken comes after the one that woke it. Only who pauses lets all others go first.
* **Of several woken at once the first comes last**, if the one that woke them goes on to the shared
  state again (`Play.goAhead?`): the others are in line for that state already, and get it first.
* **A step of the script and a pause take a `beat` of time**; else time stands still while anybody
  can do something. When nobody can, waits that end within a `blink` end; and when there are none,
  and thread `0` is in the middle of a step, time moves on to the earliest end of a timed wait.

Every move of the world is a `Program.apply`, so whatever holds of all runs of a program holds on
its stage.
-/

namespace Lending.Rehearsal

/-- A part of a step. -/
inductive Task (Op : Type) where
  /-- An operation is done. -/
  | call (op : Op)
  /-- A waiter starts, to do these operations one after another. -/
  | start (ops : List Op)
  /-- Everybody else goes on as far as possible. -/
  | pause
  /-- All waiters are waited for. -/
  | join

/-- Some waiters start, at least one, each after a pause; and one more pause. -/
def Task.crowd {Op : Type} (n : Nat) (ops : List Op) : List (Task Op) :=
  (List.replicate (max 1 n) [.pause, .start ops]).flatten ++ [.pause]

/-- A step in progress, or what a waiter does. -/
structure Doing (Op Step : Type) where
  /-- The step, unless a waiter does this. -/
  step    : Option Step
  /-- What the step comes to, as things stand. -/
  report  : Report := ok
  /-- The operation under way. -/
  current : Option Op := none
  /-- What is left to do. -/
  tasks   : List (Task Op)

/-- A script step or a callback that a thread is busy with. -/
structure Errand (Op Query Step : Type) where
  /-- The callback, and a number it was given when it was posed. -/
  question : Option (Query × Nat)
  outcome  : Outcome Step
  /-- Steps to do before the callback answers. -/
  todo     : List Step
  /-- The step in progress. -/
  doing    : Option (Doing Op Step)

/-- A world in rehearsal. -/
structure Stage (Shared Frame Op Query Reply Step Outside : Type) where
  world   : World Shared Frame
  outside : Outside
  now     : Instant := 0
  /-- The threads, the one that went on last at the end. -/
  order   : List Nat := [0]
  /-- The first of several threads that the last one has woken at once. -/
  first?  : Option Nat := none
  /-- What has happened in this step of the script, the latest first. -/
  events  : List Report := []
  /-- For each thread what it is busy with, the innermost first. -/
  errands : List (List (Errand Op Query Step))
  /-- What the steps of the script came to, the latest first. -/
  results : List Report := []
  /-- What operations of waiters came to in this step of the script, in order. -/
  replies : List (Op × Reply) := []

/-- A callback as the outside takes it. -/
structure Posed (Step Outside : Type) where
  outside : Outside
  event?  : Option Report
  outcome : Outcome Step
  number  : Nat := 0

/-- How a step of a script starts. -/
inductive Begun (Op Step : Type) where
  /-- It is done at once. -/
  | done (r : Report)
  /-- It is a row of tasks; the step as it is to be remembered. -/
  | tasks (step : Step) (tasks : List (Task Op))

/-- A program and the script's way with it. -/
structure Play (Shared Frame Op Query Reply Step Outside : Type) where
  program : Program Shared Frame Op Query Reply
  /-- Whether the next step of a frame takes its turn at the shared state. -/
  locks   : Frame → Bool
  /-- Whether a frame is parked until something is given back. -/
  parks   : Frame → Bool
  /-- Whether notices are events. -/
  logged  : Bool
  pose    : Outside → Query → Posed Step Outside
  /-- The answer of a callback whose hook is done. -/
  reply   : Outside → Query → Nat → Outcome Step → Outside × Reply
  /-- A step starts; the flag tells whether there are waiters. -/
  begin   : Shared → Outside → Bool → Step → Outside × Begun Op Step
  /-- An operation of a step has come to something; what the step comes to, if this decides it. -/
  finish  : Shared → Outside → Step → Op → Reply → Outside × Option Report

namespace Stage

variable {Shared Frame Op Query Reply Step Outside : Type}

/-- What thread `i` is busy with. -/
def errandsOf (st : Stage Shared Frame Op Query Reply Step Outside) (i : Nat) :
    List (Errand Op Query Step) :=
  st.errands[i]?.getD []

/-- The stage with thread `i` busy with something else. -/
def setErrands (st : Stage Shared Frame Op Query Reply Step Outside) (i : Nat)
    (errands : List (Errand Op Query Step)) : Stage Shared Frame Op Query Reply Step Outside :=
  { st with errands := st.errands.set i errands }

/-- The stage with the innermost errand of thread `i` doing something else. -/
def setDoing (st : Stage Shared Frame Op Query Reply Step Outside) (i : Nat)
    (doing : Option (Doing Op Step)) : Stage Shared Frame Op Query Reply Step Outside :=
  { st with
    errands := st.errands.modify i fun
      | [] => []
      | e :: below => { e with doing } :: below }

/-- A step of the script came to `r`: an event inside a callback, else a result. -/
def record (st : Stage Shared Frame Op Query Reply Step Outside) (inside : Bool) (r : Report) :
    Stage Shared Frame Op Query Reply Step Outside :=
  if inside then { st with events := .record [("hook", r)] :: st.events }
  else { st with results := r :: st.results }

/-- The waiters that are not done. -/
def waiters (st : Stage Shared Frame Op Query Reply Step Outside) : List Nat :=
  (List.range st.errands.length).filter fun i => 0 < i && !(st.errandsOf i).isEmpty

/-- Whether thread `0` is in the middle of a step. -/
def busy (st : Stage Shared Frame Op Query Reply Step Outside) : Bool := !(st.errandsOf 0).isEmpty

/-- Whether thread `i` pauses. -/
def pauses (st : Stage Shared Frame Op Query Reply Step Outside) (i : Nat) : Bool :=
  match (st.errandsOf i).head?.bind (·.doing) with
  | some ⟨_, _, none, .pause :: _⟩ => true
  | _ => false

end Stage

namespace Play

variable {Shared Frame Op Query Reply Step Outside : Type}
  (play : Play Shared Frame Op Query Reply Step Outside)

/-- A move of the world, with its notices. -/
def move? (st : Stage Shared Frame Op Query Reply Step Outside) (m : Move Op Reply) :
    Option (Stage Shared Frame Op Query Reply Step Outside) :=
  (play.program.apply st.world m).map fun (world, notices) =>
    { st with
      world
      events :=
        if play.logged then (notices.map Notice.report).reverse ++ st.events else st.events }

/-- A callback of thread `i` is posed. -/
def posed (st : Stage Shared Frame Op Query Reply Step Outside) (i : Nat) (q : Query) :
    Stage Shared Frame Op Query Reply Step Outside :=
  let p := play.pose st.outside q
  { st with
    outside := p.outside
    events := p.event?.toList ++ st.events }.setErrands i
      (⟨some (q, p.number), p.outcome, p.outcome.hook, none⟩ :: st.errandsOf i)

/-- The next step of an errand of thread `i` starts. -/
def begun (st : Stage Shared Frame Op Query Reply Step Outside) (i : Nat)
    (e : Errand Op Query Step) (below : List (Errand Op Query Step)) (step : Step)
    (rest : List Step) : Stage Shared Frame Op Query Reply Step Outside :=
  let (outside, b) := play.begin st.world.shared st.outside (!st.waiters.isEmpty) step
  let st := { st with outside }
  let busyWith (doing : Option (Doing Op Step)) := { e with todo := rest, doing } :: below
  match b with
  | .done r => (st.setErrands i (busyWith none)).record e.question.isSome r
  | .tasks step tasks => st.setErrands i (busyWith (some { step := some step, tasks }))

/-- A waiter starts, to do these operations. -/
def waiterStarted (st : Stage Shared Frame Op Query Reply Step Outside) (ops : List Op) :
    Stage Shared Frame Op Query Reply Step Outside :=
  let st := (play.move? st .spawn).getD st
  let doing : Doing Op Step := { step := none, tasks := ops.map .call }
  { st with
    errands := st.errands ++ [[⟨none, .plain, [], some doing⟩]]
    order := st.order ++ [st.errands.length] }

/-- The operation `op` of thread `i` has come to `r`. -/
def returned (st : Stage Shared Frame Op Query Reply Step Outside) (i : Nat) (d : Doing Op Step)
    (op : Op) (r : Reply) : Stage Shared Frame Op Query Reply Step Outside :=
  let d := { d with current := none }
  match d.step with
  | none => { st with replies := st.replies ++ [(op, r)] }.setDoing i (some d)
  | some step =>
    let (outside, report?) := play.finish st.world.shared st.outside step op r
    { st with outside }.setDoing i (some { d with report := report?.getD d.report })

/-- What thread `i` does next in its operation `op`. -/
def goOn? (st : Stage Shared Frame Op Query Reply Step Outside) (i : Nat) (d : Doing Op Step)
    (op : Op) : Option (Stage Shared Frame Op Query Reply Step Outside) :=
  match play.program.status st.world i with
  | .ready => play.move? st (.run i (.at st.now))
  | .asking q => some (play.posed st i q)
  | .returned r => (play.move? st (.collect i)).map fun st => play.returned st i d op r
  | .idle | .waiting => none

/-- A short time, in nanoseconds, that a step of the script takes, and a pause: waits with the same
limit that begin one step after the other end in that order. It is shorter than a `blink`, so no
wait ends unseen between two steps. -/
def beat : Nat := 100000

/-- What thread `i` does next in a step, `inside` a callback or not. -/
def carryOn? (st : Stage Shared Frame Op Query Reply Step Outside) (i : Nat) (inside : Bool)
    (d : Doing Op Step) : Option (Stage Shared Frame Op Query Reply Step Outside) :=
  match d.current, d.tasks with
  | some op, _ => play.goOn? st i d op
  | none, [] =>
    let st := st.setDoing i none
    some (if d.step.isSome then st.record inside d.report else st)
  | none, .call op :: rest =>
    play.move? (st.setDoing i (some { d with current := some op, tasks := rest })) (.enter i op)
  | none, .start ops :: rest =>
    some (play.waiterStarted (st.setDoing i (some { d with tasks := rest })) ops)
  | none, .pause :: rest =>
    some ({ st with now := st.now + beat }.setDoing i (some { d with tasks := rest }))
  | none, .join :: rest =>
    if st.waiters.all (· == i) then some (st.setDoing i (some { d with tasks := rest })) else none

/-- The next thing that thread `i` does, if it can do anything. -/
def advance? (st : Stage Shared Frame Op Query Reply Step Outside) (i : Nat) :
    Option (Stage Shared Frame Op Query Reply Step Outside) :=
  match st.errandsOf i with
  | [] => none
  | e :: below =>
    match e.doing, e.todo, e.question with
    | some d, _, _ => play.carryOn? st i e.question.isSome d
    | none, step :: rest, _ => some (play.begun st i e below step rest)
    | none, [], none => some (st.setErrands i below)
    | none, [], some (q, number) =>
      let (outside, r) := play.reply st.outside q number e.outcome
      play.move? ({ st with outside }.setErrands i below) (.answer i r)

/-- When thread `i` stops waiting by itself. -/
def timer? (st : Stage Shared Frame Op Query Reply Step Outside) (i : Nat) : Option Instant :=
  (st.world.stack i).head?.bind (play.program.timer? st.world.shared)

/-- When the first timed wait ends. -/
def alarm? (st : Stage Shared Frame Op Query Reply Step Outside) : Option Instant :=
  ((List.range st.world.threads.length).filterMap (play.timer? st)).min?

/-- Time moves on to `t`, and the threads whose wait ends then go on. -/
def passTime (st : Stage Shared Frame Op Query Reply Step Outside) (t : Instant) :
    Stage Shared Frame Op Query Reply Step Outside :=
  let due := (List.range st.world.threads.length).filter fun i => play.timer? st i == some t
  due.foldl (fun st i => (play.move? st (.expire i)).getD st) { st with now := max st.now t }

/-- A wait this short, in nanoseconds, is over before anybody can see it: a millisecond. -/
def blink : Nat := 1000000

/-- Whether thread `i` waits for another thread. -/
def waits (st : Stage Shared Frame Op Query Reply Step Outside) (i : Nat) : Bool :=
  match play.program.status st.world i with
  | .waiting => true
  | _ => false

/-- Thread `i` goes on, if it can do anything, and is then the last one that did. Of several threads
it has woken at once, the first comes last if thread `i` now takes its own turn at the shared
state. -/
def goAhead? (st : Stage Shared Frame Op Query Reply Step Outside) (i : Nat) :
    Option (Stage Shared Frame Op Query Reply Step Outside) :=
  (play.advance? st i).map fun st' =>
    let woken := st.order.filter fun j => play.waits st j && !play.waits st' j
    let first? := if st.order.getLast? = some i then st.first? else none
    let late := if (st.world.stack i).head?.any play.locks then first?.toList else []
    { st' with
      order := st'.order.filter (fun j => j != i && !late.contains j) ++ late ++ [i]
      first? := if 1 < woken.length then woken.head? else first?.filter fun j => !late.contains j }

/-- The next thing that happens. -/
def next? (st : Stage Shared Frame Op Query Reply Step Outside) :
    Option (Stage Shared Frame Op Query Reply Step Outside) :=
  let (later, sooner) := (st.order.getLast?.toList ++ st.order).partition st.pauses
  let alarm := play.alarm? st
  sooner.findSome? (play.goAhead? st)
    <|> (alarm.filter (· ≤ st.now + blink)).map (play.passTime st)
    <|> later.findSome? (play.goAhead? st)
    <|> if st.busy then alarm.map (play.passTime st) else none

/-- Everybody goes on until nobody can, for at most `fuel` moves. -/
def settle : Nat → Stage Shared Frame Op Query Reply Step Outside →
    Stage Shared Frame Op Query Reply Step Outside
  | 0, st => st
  | fuel + 1, st =>
    match play.next? st with
    | some st => settle fuel st
    | none => st

/-- More moves than any step of a script takes. -/
def patience : Nat := Nat.pow 2 40

/-- Whether a waiter is stuck when nobody can go on: it is neither done nor parked. -/
def stuck (st : Stage Shared Frame Op Query Reply Step Outside) : Bool :=
  st.waiters.any fun i => !(st.world.stack i).head?.any play.parks

/-- Thread `0` does a step of the script, and everybody goes on until nobody can. -/
def perform (st : Stage Shared Frame Op Query Reply Step Outside) (step : Step) :
    Stage Shared Frame Op Query Reply Step Outside :=
  let errand := ⟨none, .plain, [step], none⟩ :: st.errandsOf 0
  let order := st.order.erase 0 ++ [0]
  play.settle patience ({ st with now := st.now + beat, order }.setErrands 0 errand)

/-- The stage before the first step: one thread without work. -/
def opening (shared : Shared) (outside : Outside) :
    Stage Shared Frame Op Query Reply Step Outside :=
  { world := ⟨shared, [[]]⟩, outside, errands := [[]] }

/-- That waiters are stuck is part of the report of a step. -/
def stuckReport (st : Stage Shared Frame Op Query Reply Step Outside) : List (String × Report) :=
  if play.stuck st then [("stuck", .flag true)] else []

end Play

namespace Stage

variable {Shared Frame Op Query Reply Step Outside : Type}

/-- What has happened, in order; where threads raced, in the byte order of the texts. -/
def happened (st : Stage Shared Frame Op Query Reply Step Outside) (raced : Bool) : Report :=
  .list (if raced then Report.sorted st.events.reverse else st.events.reverse)

/-- The stage with nothing told yet about the next step. -/
def clear (st : Stage Shared Frame Op Query Reply Step Outside) :
    Stage Shared Frame Op Query Reply Step Outside :=
  { st with events := [], results := [], replies := [] }

end Stage

end Lending.Rehearsal
