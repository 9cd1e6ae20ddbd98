import Lending.Notice

/-!
# Programs: threads of nested operations over shared state

An operation in flight is a **frame**: a program point with the values that are live there. A frame
tells what it needs to go on (`Need`): nothing, another operation first, an answer from outside (a
callback), another thread's doing, or nothing more because it has ended. A **thread** is a stack of
frames, the innermost first. While a frame waits for an answer from outside, whoever computes that
answer may start further operations on the same thread, on top of it: that is how callbacks
re-enter the program.

A `World` is the shared state with any number of threads. `Program.apply` gives what one `Move`
does to it; a run is any sequence of moves that apply. So a move is the unit of atomicity: one
critical section, one load or store, one wake-up, one answer of a callback. What a move depends on
beside the state is in the move: the readings of the time source and the waiter that a wake-up
reaches (`Moment`), and the answer of a callback.

* `Program.status`: what a thread is doing.
* `Program.apply`: one move, `none` where it does not apply.
* `Program.Reach`: the worlds that runs come to.
-/

namespace Lending

/-- What the state does not decide about a step. -/
structure Moment where
  /-- What the time source answers when a critical section computes the end of a wait. -/
  start : Instant
  /-- What it answers when the section compares the end of a wait with the present. -/
  check : Instant
  /-- Which of the waiters a wake-up reaches. -/
  pick  : Nat := 0
  deriving DecidableEq, Inhabited

/-- A moment at which the time source stands still, and a wake-up reaches the longest wait. -/
def Moment.at (t : Instant) : Moment := ⟨t, t, 0⟩

/-- What a frame needs to go on. -/
inductive Need (Frame Query Reply : Type) where
  /-- Nothing: it can take its next step. -/
  | step
  /-- Another operation, whose result it takes. -/
  | sub (f : Frame)
  /-- An answer from outside. -/
  | ask (q : Query)
  /-- That another thread does something. -/
  | wait
  /-- Nothing more: it has ended with this result. -/
  | over (r : Reply)

/-- The operations of a program and how their frames go on. -/
structure Program (Shared Frame Op Query Reply : Type) where
  /-- An operation that is about to start. -/
  start  : Op → Frame
  need   : Shared → Frame → Need Frame Query Reply
  /-- The next step of a frame that needs nothing. -/
  step   : Moment → Shared → Frame → Shared × Frame × List Notice
  /-- How a frame goes on with the result or the answer it needed. -/
  resume : Shared → Frame → Reply → Shared × Frame × List Notice
  /-- When a frame that waits stops waiting by itself. -/
  timer? : Shared → Frame → Option Instant
  /-- A frame that waits with a limit stops waiting. -/
  expire : Shared → Frame → Shared

/-- Shared state and threads. -/
structure World (Shared Frame : Type) where
  shared  : Shared
  threads : List (List Frame)

/-- What can happen next in a world. -/
inductive Move (Op Reply : Type) where
  /-- A thread comes into being, with nothing to do. -/
  | spawn
  /-- An operation starts on thread `i`: one without work, or one inside a callback. -/
  | enter (i : Nat) (op : Op)
  /-- Thread `i` takes a step. -/
  | run (i : Nat) (m : Moment)
  /-- The callback that thread `i` waits for answers. -/
  | answer (i : Nat) (r : Reply)
  /-- Thread `i` waits with a limit and stops waiting. -/
  | expire (i : Nat)
  /-- The caller of thread `i`'s innermost operation takes its result. -/
  | collect (i : Nat)

/-- What a thread is doing. -/
inductive Status (Query Reply : Type) where
  /-- Nothing. -/
  | idle
  /-- It can take a step. -/
  | ready
  /-- A callback runs. -/
  | asking (q : Query)
  /-- It waits for another thread. -/
  | waiting
  /-- Its innermost operation has ended, and the one who started it can take the result. -/
  | returned (r : Reply)

namespace World

variable {Shared Frame : Type}

/-- No thread at all. -/
def init (s : Shared) : World Shared Frame := ⟨s, []⟩

/-- The frames of thread `i`, innermost first. -/
def stack (w : World Shared Frame) (i : Nat) : List Frame := w.threads[i]?.getD []

/-- The frames of all threads. -/
def frames (w : World Shared Frame) : List Frame := w.threads.flatten

/-- The same world with other frames on thread `i`, and other shared state. -/
def update (w : World Shared Frame) (i : Nat) (s : Shared) (fs : List Frame) :
    World Shared Frame :=
  ⟨s, w.threads.set i fs⟩

/-- The same world with `f` on top of thread `i`. -/
def push (w : World Shared Frame) (i : Nat) (f : Frame) : World Shared Frame :=
  w.update i w.shared (f :: w.stack i)

end World

namespace Program

variable {Shared Frame Op Query Reply : Type} (P : Program Shared Frame Op Query Reply)

/-- What thread `i` is doing. -/
def status (w : World Shared Frame) (i : Nat) : Status Query Reply :=
  match w.stack i with
  | [] => .idle
  | f :: below =>
    match P.need w.shared f with
    | .step | .sub _ => .ready
    | .ask q => .asking q
    | .wait => .waiting
    | .over r =>
      match below with
      | [] => .returned r
      | g :: _ =>
        match P.need w.shared g with
        | .sub _ => .ready
        | _ => .returned r

/-- The step of a thread with these frames. -/
def runStack (m : Moment) (w : World Shared Frame) (i : Nat) :
    List Frame → Option (World Shared Frame × List Notice)
  | [] => none
  | f :: below =>
    match P.need w.shared f with
    | .step =>
      let (s, f', notices) := P.step m w.shared f
      some (w.update i s (f' :: below), notices)
    | .sub g => some (w.update i w.shared (g :: f :: below), [])
    | .over r =>
      match below with
      | [] => none
      | g :: rest =>
        match P.need w.shared g with
        | .sub _ =>
          let (s, g', notices) := P.resume w.shared g r
          some (w.update i s (g' :: rest), notices)
        | _ => none
    | _ => none

/-- What a move does, and what is told about it; `none` where the move does not apply. -/
def apply (w : World Shared Frame) : Move Op Reply → Option (World Shared Frame × List Notice)
  | .spawn => some (⟨w.shared, w.threads ++ [[]]⟩, [])
  | .enter i op =>
    if i < w.threads.length then
      match P.status w i with
      | .idle | .asking _ => some (w.push i (P.start op), [])
      | _ => none
    else none
  | .run i m => P.runStack m w i (w.stack i)
  | .answer i r =>
    match w.stack i with
    | [] => none
    | f :: below =>
      match P.need w.shared f with
      | .ask _ =>
        let (s, f', notices) := P.resume w.shared f r
        some (w.update i s (f' :: below), notices)
      | _ => none
  | .expire i =>
    match w.stack i with
    | [] => none
    | f :: _ => (P.timer? w.shared f).map fun _ => (⟨P.expire w.shared f, w.threads⟩, [])
  | .collect i =>
    match P.status w i with
    | .returned _ => some (w.update i w.shared (w.stack i).tail, [])
    | _ => none

/-- The worlds that runs from `w₀` come to. -/
inductive Reach (w₀ : World Shared Frame) : World Shared Frame → Prop
  | refl : Reach w₀ w₀
  | move {w w' : World Shared Frame} (m : Move Op Reply) {notices : List Notice} :
      Reach w₀ w → P.apply w m = some (w', notices) → Reach w₀ w'

/-- The world after a list of moves, `none` if one of them does not apply. -/
def run? (w : World Shared Frame) : List (Move Op Reply) → Option (World Shared Frame)
  | [] => some w
  | m :: ms => (P.apply w m).bind fun r => run? r.1 ms

end Program

end Lending
