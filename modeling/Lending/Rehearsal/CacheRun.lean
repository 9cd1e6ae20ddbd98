import Lending.Rehearsal.Remote
import Lending.Rehearsal.Stage

/-!
# Rehearsals of a stack of caches

The script numbers the handles of the outermost level as it gets them, and names one by any number,
counted around. A step that names a handle which is gone, or which an enclosing step uses, is
skipped; a step that needs the factory after the script has given it up comes too late.

Epochs from a counter mean nothing by themselves, so each is shown as its rank: `0` for the first
epoch, and then by order of first sight, level by level.
-/

namespace Lending.Rehearsal.CacheRun

/-- The callbacks that a rule can script. -/
inductive Callback where
  | check
  | close
  deriving DecidableEq

/-- How a session is asked for. -/
inductive Route where
  | direct
  /-- Through the interface of factories: failures are session errors. -/
  | factory
  /-- On another thread: a raise is a request given up. -/
  | background

/-- A step on a handle. -/
inductive HandleStep where
  | close
  | drop
  | dirty
  | info
  | isOpen
  | debug
  | call (op : FileOp)

/-- A step on the factory of one level. -/
inductive LevelStep where
  | reset
  | destroy
  | setTimeout (d : Duration)
  | setSize (n : Nat)
  | health
  | metrics
  | exported
  | prometheus (name : String) (tags : Tags)
  | poolDebug
  | capable

/-- A step of the script. -/
inductive Step where
  | get (route : Route)
  | handle (h : Nat) (what : HandleStep) (outcome : Outcome Step)
  | level (k : Nat) (what : LevelStep)
  | setOpen (id : Nat) (isOpen : Bool)
  | rule (on : Callback) (id : Nat) (outcome : Outcome Step)
  | share (active : Bool)
  /-- Some waiters start, at least one. -/
  | spawn (n : Nat)
  /-- All waiters are waited for. -/
  | join
  | dropCache

/-- What is outside the stack. -/
structure Outside where
  /-- How the attempts to connect will go. -/
  connects    : List (Outcome Step)
  connections : List Connection := []
  shared      : Option SharedConnection
  rules       : Rules Callback Step := {}
  clocks      : List Clock
  /-- Readings taken of each clock. -/
  reads       : List Nat
  /-- How the file operation that is about to start will go. -/
  next        : Outcome Step := .plain
  /-- The handles the script has got, in its own numbering. -/
  handles     : List Nat := []
  /-- Whether the script still refers to the factory. -/
  holds       : Bool := true
  /-- Epochs seen of each level. -/
  seen        : List (List Nat)

namespace Outside

/-- The clock of level `k`. -/
def clock (o : Outside) (k : Nat) : Clock := o.clocks[k]?.getD .counter

/-- An epoch of level `k` as it is shown. -/
def shown (o : Outside) (k epoch : Nat) : Outside × Report :=
  if (o.clock k).isScripted then (o, .count epoch)
  else if epoch = 0 then (o, .count 0)
  else
    let seen := o.seen[k]?.getD []
    match seen.idxOf? epoch with
    | some i => (o, .count (i + 1))
    | none => ({ o with seen := o.seen.set k (seen ++ [epoch]) }, .count (seen.length + 1))

/-- A connection after a change. -/
def modify (o : Outside) (id : Nat) (f : Connection → Connection) : Outside :=
  { o with connections := o.connections.modify id f }

/-- Whether a connection is open. -/
def isOpen (o : Outside) (id : Nat) : Bool := (o.connections[id]?.map (·.isOpen)).getD false

end Outside

/-- The text of a flag. -/
def flagText (b : Bool) : String := if b then "true" else "false"

/-- A callback happens. -/
def pose (o : Outside) : Cache.Query → Posed Step Outside
  | .connect =>
    let n := o.connections.length
    { outside := { o with connections := o.connections ++ [{}] }
      event? := some (.text ("connect:" ++ toString n))
      outcome := o.connects[n]?.getD .plain
      number := n }
  | .isOpen s =>
    let (outcome, rules) := o.rules.take .check s
    { outside := { o with rules }
      event? := some (.text ("check:" ++ toString s ++ ":" ++ flagText (o.isOpen s)))
      outcome }
  | .close s =>
    let (outcome, rules) := o.rules.take .close s
    { outside := { o with rules }.modify s fun x => ⟨false, x.closes + 1⟩
      event? := some (.text ("close:" ++ toString s))
      outcome }
  | .file s op =>
    { outside := { o with next := .plain }
      event? := some (.record [("call", .texts (callOf op)), ("id", .count s)])
      outcome := o.next }
  | .isShared =>
    let active := (o.shared.map (·.active)).getD false
    { outside := o
      event? := some (.text ("is_shared:" ++ flagText active))
      outcome := { flag := active } }
  | .resetShared =>
    { outside := { o with shared := o.shared.map fun x => ⟨false, x.resets + 1⟩ }
      event? := some (.text "reset_shared")
      outcome := .plain }
  | .clock k =>
    let n := o.reads[k]?.getD 0
    { outside := { o with reads := o.reads.set k (n + 1) }
      event? := none
      outcome :=
        match (o.clock k).reading? n with
        | some _ => .plain
        | none => { ending := .raise Clock.exhausted }
      number := ((o.clock k).reading? n).getD 0 }

/-- How a callback answers. -/
def answer (o : Outside) (q : Cache.Query) (number : Nat) (outcome : Outcome Step) :
    Outside × Cache.Reply :=
  match outcome.ending, q with
  | .raise message, _ => (o, .raised message)
  | ending, .connect =>
    match ending.sessionError? with
    | some e => (o, .refused e)
    | none =>
      ({ o.modify number fun x => { x with isOpen := true } with
          shared := o.shared.map fun x => { x with active := true } }, .got number)
  | _, .isOpen s => (o, .flag (o.isOpen s))
  | ending, .close _ =>
    match ending.sessionError? with
    | some e => (o, .refused e)
    | none => (o, .done)
  | _, .file _ op => (o, .file (fileReply op outcome))
  | _, .isShared => (o, .flag outcome.flag)
  | _, .resetShared => (o, .done)
  | _, .clock _ => (o, .reading number)

/-- A text for a step that would start waiters while there are some. -/
def busy : Report := .text "busy"

/-- How a step of the script starts. -/
abbrev Start := Begun Cache.Op Step

/-- A step on a handle starts. -/
def beginHandle (c : Cache) (o : Outside) (h : Nat) (what : HandleStep) (outcome : Outcome Step) :
    Outside × Start :=
  let place := h % o.handles.length
  match o.handles[place]? with
  | none => (o, .done skip)
  | some id =>
    let x := c.handle 0 id
    let enter (o : Outside) (op : Cache.Op) : Outside × Start :=
      (o, .tasks (.handle place what outcome) [.call op])
    if x.gone || x.inUse then (o, .done skip)
    else
      match what with
      | .close => enter o (.close id)
      | .drop => enter o (.drop id)
      | .dirty => enter o (.markDirty id)
      | .isOpen => enter o (.isOpen id)
      | .call op => enter { o with next := outcome } (.file id op)
      | .info =>
        let (o, epoch) := o.shown 0 x.epoch
        (o, .done (.record [("dirty", .flag x.dirty), ("released", .flag x.target.isNone),
          ("id", .optional Report.count (c.remote? id)), ("epoch", epoch)]))
      | .debug =>
        let (o, epoch) := o.shown 0 x.epoch
        (o, .done (.text ("CachedSession \x7b creation_epoch: " ++ epoch.compact
          ++ ", dirty: " ++ flagText x.dirty
          ++ ", released: " ++ flagText x.target.isNone ++ ", .. \x7d")))

/-- A step on a level's factory starts. -/
def beginLevel (c : Cache) (o : Outside) (k : Nat) (what : LevelStep) :
    Outside × Start :=
  let p := (c.level k).pool
  let enter (op : Cache.Op) : Outside × Start :=
    (o, .tasks (.level k what) [.call op, .call .leave])
  if !o.holds then (o, .done gone)
  else if c.depth ≤ k then (o, .done skip)
  else
    match what with
    | .reset => enter (.reset k)
    | .destroy => enter (.destroy k)
    | .setTimeout d => enter (.setWaitLimit k d)
    | .setSize n => enter (.setSize k n)
    | .health => (o, .done p.health.report)
    | .metrics => (o, .done p.metrics.report)
    | .exported => (o, .done p.metrics.exported)
    | .prometheus name tags => (o, .done (.text (p.metrics.exposition name tags)))
    | .poolDebug => (o, .done (.text p.debug))
    | .capable => (o, .done (.flag (c.shared && c.innermost k)))

/-- A step starts; the flag tells whether there are waiters. -/
def begin (c : Cache) (o : Outside) (waiting : Bool) (step : Step) : Outside × Start :=
  match step with
  | .get _ =>
    (o, if o.holds then .tasks step [.call .getSession, .call .leave] else .done gone)
  | .handle h what outcome => beginHandle c o h what outcome
  | .level k what => beginLevel c o k what
  | .setOpen id isOpen =>
    if id < o.connections.length then
      (o.modify id fun x => { x with isOpen }, .done ok)
    else (o, .done skip)
  | .rule on id outcome => ({ o with rules := o.rules.set on id outcome }, .done ok)
  | .share active =>
    match o.shared with
    | some x => ({ o with shared := some { x with active } }, .done ok)
    | none => (o, .done skip)
  | .spawn n =>
    (o, if !o.holds then .done gone
        else if waiting then .done busy
        else
          .tasks step
            (.call .hold :: Task.crowd n [.getSession, .leave] ++ [.call .leave]))
  | .join => (o, .tasks step [.join])
  | .dropCache =>
    if o.holds then ({ o with holds := false }, .tasks step [.call .leave]) else (o, .done ok)

/-- A handle the script has got, under its next number. -/
def obtained (c : Cache) (o : Outside) (h : Nat) : Outside × Report :=
  let number := o.handles.length
  let (o, epoch) := o.shown 0 (c.handle 0 h).epoch
  ({ o with handles := o.handles ++ [h] },
    .record [("h", .count number), ("id", .optional Report.count (c.remote? h)),
      ("epoch", epoch)])

/-- A failure to get a session, as the one who asked sees it. -/
def refusal : Route → PoolError → Report
  | .factory, e => (SessionError.pool e).report
  | _, e => e.report

/-- What a step came to by its operation. -/
def outcomeOf (c : Cache) (o : Outside) (step : Step) : Cache.Reply → Outside × Report
  | .raised message =>
    match step with
    | .get .background => (o, PoolError.cancelled.report)
    | _ => (o, .raised message)
  | .got h => obtained c o h
  | .failed e =>
    match step with
    | .get route => (o, refusal route e)
    | _ => (o, e.report)
  | .refused e => (o, e.report)
  | .flag b => (o, .flag b)
  | .reading epoch =>
    match step with
    | .level k _ =>
      let (o, epoch) := o.shown k (c.level k).epoch
      (o, .record [("epoch", epoch)])
    | _ => (o, .count epoch)
  | .file r =>
    match step with
    | .handle _ (.call op) _ => (o, callReport op r)
    | _ => (o, ok)
  | .done => (o, ok)
  | .unavailable => (o, gone)

/-- What an operation of a step came to. A change of the references decides the step only by a
raise. -/
def finish (c : Cache) (o : Outside) (step : Step) (op : Cache.Op) (r : Cache.Reply) :
    Outside × Option Report :=
  match op, r with
  | .hold, .raised message | .leave, .raised message => (o, some (.raised message))
  | .hold, _ | .leave, _ => (o, none)
  | _, r =>
    let (o, report) := outcomeOf c o step r
    (o, some report)

/-- The script's way with a stack. -/
def play (logged : Bool) :
    Play Cache Cache.Frame Cache.Op Cache.Query Cache.Reply Step Outside where
  program := Cache.program
  locks
    | .pool _ x => x.critical
    | _ => false
  parks
    | .pool _ (.parked _ _) => true
    | _ => false
  logged
  pose
  reply := answer
  begin
  finish

/-- A stack in rehearsal. -/
abbrev CacheStage := Stage Cache Cache.Frame Cache.Op Cache.Query Cache.Reply Step Outside

/-- What the requests of waiters came to. -/
def asked (st : CacheStage) : List Cache.Reply :=
  st.replies.filterMap fun
    | (.getSession, r) => some r
    | _ => none

/-- The handles that waiters got, by the number of the session behind them. -/
def gotten (c : Cache) (replies : List Cache.Reply) : List Nat :=
  let got := replies.filterMap fun
    | .got h => some h
    | _ => none
  got.mergeSort fun a b => decide ((c.remote? a).getD 0 ≤ (c.remote? b).getD 0)

/-- What waiters got instead of a handle. -/
def refusals (replies : List Cache.Reply) : List Report :=
  Report.sorted (replies.filterMap fun
    | .failed e => some e.report
    | .raised message => some (.raised message)
    | _ => none)

/-- The script takes the handles that waiters got. -/
def obtainedAll (c : Cache) : Outside → List Nat → Outside × List Report
  | o, [] => (o, [])
  | o, h :: rest =>
    let (o, report) := obtained c o h
    let (o, reports) := obtainedAll c o rest
    (o, report :: reports)

/-- The state of a level, from its place on. -/
def levelReports (o : Outside) : Nat → List Level → Outside × List Report
  | _, [] => (o, [])
  | k, l :: rest =>
    let (o, epoch) := o.shown k l.epoch
    let (o, reports) := levelReports o (k + 1) rest
    let reads :=
      if (o.clock k).isScripted then [("reads", Report.count (o.reads[k]?.getD 0))] else []
    (o, .record ([("st", l.pool.state), ("m", l.pool.counters.report), ("epoch", epoch)] ++ reads)
      :: reports)

/-- A stage with the report of its step, `raced` where other threads ran meanwhile. -/
def told (logged : Bool) (st : CacheStage) (raced : Bool) : CacheStage × Report :=
  let c := st.world.shared
  let replies := asked st
  let (o, got) := obtainedAll c st.outside (gotten c replies)
  let alive := (c.level 0).factoryAlive
  let (o, levels) := if alive then levelReports o 0 c.levels else (o, [])
  let connections := o.connections.map fun x => Report.list [.flag x.isOpen, .count x.closes]
  ({ st with outside := o }, .record (
    [("r", st.results.headD .null), ("ev", st.happened raced), ("conns", .list connections)]
      ++ (if alive then [("levels", .list levels)] else [])
      ++ (match o.shared with
          | some x => [("shared", .list [.flag x.active, .count x.resets])]
          | none => [])
      ++ (if replies.isEmpty then []
          else [("w", .record [("got", .list got), ("errors", .list (refusals replies))])])
      ++ (play logged).stuckReport st))

/-- Whether other threads run during a step, as it stands in the script. -/
def Step.races : Step → Bool
  | .spawn _ => true
  | _ => false

/-- A step of the script, told with what has happened before it. -/
def performNext (logged : Bool) (st : CacheStage) (step : Step) : CacheStage × Report :=
  told logged ((play logged).perform st step) (!st.waiters.isEmpty || step.races)

/-- A step of the script on its own, with its report. -/
def perform (logged : Bool) (st : CacheStage) (step : Step) : CacheStage × Report :=
  performNext logged st.clear step

/-- The steps of a script, one after another. -/
def performAll (logged : Bool) : CacheStage → List Step → CacheStage × List Report
  | st, [] => (st, [])
  | st, step :: rest =>
    let (st, report) := perform logged st step
    let (st, reports) := performAll logged st rest
    (st, report :: reports)

/-- Level by level from the innermost, the size limit is lifted while waiters are left. -/
def letThrough (logged : Bool) : CacheStage → Nat → CacheStage × List Report
  | st, 0 => (st, [])
  | st, k + 1 =>
    if st.waiters.isEmpty then (st, [])
    else
      let (st, report) := perform logged st (.level k (.setSize 0))
      let (st, reports) := letThrough logged st k
      (st, report :: reports)

/-- Of the given handles of the script, each that is left when its turn comes is dropped. -/
def dropLeft (logged : Bool) : CacheStage → List Nat → CacheStage × List Report
  | st, [] => (st, [])
  | st, h :: rest =>
    if (st.world.shared.handle 0 (st.outside.handles[h]?.getD 0)).gone then dropLeft logged st rest
    else
      let (st, report) := perform logged st (.handle h .drop .plain)
      let (st, reports) := dropLeft logged st rest
      (st, report :: reports)

/-- One level of a script: its limits and its clock. -/
structure LevelScript where
  limits : Limits := {}
  clock  : Clock := .counter

/-- The levels of a stack, which has at least one: a plain one where the script names none. -/
def LevelScript.stack : List LevelScript → List LevelScript
  | [] => [{}]
  | levels => levels

/-- The stage before the first step. The innermost level asks the remote side once whether it shares
a connection. -/
def opening (levels : List LevelScript) (shared : Option Bool) (connects : List (Outcome Step)) :
    CacheStage :=
  let st : CacheStage := Play.opening
    (.ofLimits (levels.map (·.limits)) shared.isSome)
    { connects
      shared := shared.map fun active => { active }
      clocks := levels.map (·.clock)
      reads := levels.map fun _ => 0
      seen := levels.map fun _ => [] }
  { st with events := [.text "capability"] }

/-- A rehearsal: whether the outermost level shares a connection, the steps of the script, and the
end of everything. -/
def run (levels : List LevelScript) (shared : Option Bool) (connects : List (Outcome Step))
    (steps : List Step) (logged : Bool) : Report :=
  let levels := LevelScript.stack levels
  let (st, first) := performNext logged (opening levels shared connects) (.level 0 .capable)
  let (st, reports) := performAll logged st steps
  let (st, through) := letThrough logged st levels.length
  let (st, left) := perform logged st .dropCache
  let (_, drops) := dropLeft logged st (List.range st.outside.handles.length)
  .list (first :: reports ++ through ++ [left] ++ drops)

end Lending.Rehearsal.CacheRun
