import Lending.Program
import Lending.Rehearsal.Stage

/-!
# Crews

A crew is a number of workers, each on a thread of its own, that use one program at the same time.
A worker does one operation after another, and may choose the next by what the last one came to.
The schedule is the finest there is: the workers take turns, and a turn is a single move of the
world. A worker that has to wait lets the others go on.
-/

namespace Lending.Rehearsal

/-- How a crew uses a program. -/
structure Crew (Shared Frame Op Query Reply Worker Outside : Type) where
  program : Program Shared Frame Op Query Reply
  /-- How callbacks answer. -/
  answer  : Outside → Query → Outside × Reply
  /-- What a worker does next, if it is not done. -/
  next?   : Worker → Option Op
  /-- What a worker makes of a result. -/
  took    : Worker → Reply → Worker
  /-- Whether a worker has something lent to it. -/
  holds   : Worker → Bool

/-- A crew at work. -/
structure Shift (Shared Frame Worker Outside : Type) where
  world   : World Shared Frame
  outside : Outside
  workers : List Worker
  /-- Whose turn it is. -/
  turn    : Nat := 0
  /-- Most workers that have had something lent to them at once. -/
  peak    : Nat := 0

namespace Crew

variable {Shared Frame Op Query Reply Worker Outside : Type}
  (crew : Crew Shared Frame Op Query Reply Worker Outside)

/-- A move of the world. -/
def move? (sh : Shift Shared Frame Worker Outside) (m : Move Op Reply) :
    Option (Shift Shared Frame Worker Outside) :=
  (crew.program.apply sh.world m).map fun r => { sh with world := r.1 }

/-- Worker `i` takes the result of its operation. -/
def took? (sh : Shift Shared Frame Worker Outside) (i : Nat) (r : Reply) :
    Option (Shift Shared Frame Worker Outside) :=
  (crew.move? sh (.collect i)).map fun sh =>
    let workers := sh.workers.modify i fun w => crew.took w r
    { sh with workers, peak := max sh.peak (workers.countP crew.holds) }

/-- One move of worker `i`, if it can do anything. -/
def advance? (sh : Shift Shared Frame Worker Outside) (i : Nat) :
    Option (Shift Shared Frame Worker Outside) :=
  match crew.program.status sh.world i with
  | .ready => crew.move? sh (.run i (.at 0))
  | .asking q =>
    let (outside, r) := crew.answer sh.outside q
    crew.move? { sh with outside } (.answer i r)
  | .returned r => crew.took? sh i r
  | .idle => (sh.workers[i]?.bind crew.next?).bind fun op => crew.move? sh (.enter i op)
  | .waiting => none

/-- One move of the first worker, from the one whose turn it is, that can do anything. -/
def advanceAny? (sh : Shift Shared Frame Worker Outside) :
    Option (Shift Shared Frame Worker Outside) :=
  let n := sh.workers.length
  (List.range n).findSome? fun k =>
    let i := (sh.turn + k) % n
    (crew.advance? sh i).map fun sh => { sh with turn := i + 1 }

/-- The crew works until nobody can do anything, for at most `fuel` moves. -/
def work : Nat → Shift Shared Frame Worker Outside → Shift Shared Frame Worker Outside
  | 0, sh => sh
  | fuel + 1, sh =>
    match crew.advanceAny? sh with
    | some sh => work fuel sh
    | none => sh

/-- These workers do all they have to do. -/
def run (shared : Shared) (outside : Outside) (workers : List Worker) :
    Shift Shared Frame Worker Outside :=
  crew.work Play.patience { world := ⟨shared, workers.map fun _ => []⟩, outside, workers }

end Crew

end Lending.Rehearsal
