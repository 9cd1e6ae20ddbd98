import Lending.Program

/-!
# Programs with their mutexes

A step of a program is a critical section, or needs none. `Program.guarded` makes the mutexes of the
sections part of the state. A frame whose next step is a section tries to take the section's mutex;
while that is taken the frame waits, whoever has it, so no mutex is reentrant. The frame has the
mutex from then until a move of its own gives it back. No callback runs for a frame in between, and
it starts no other operation: it is the top of its thread.

A program is stated without its mutexes, each section being one step, and proved about in that form.
That this loses nothing is a theorem about `Program.guarded` (`Lending.Guarded.reach_iff`): with
mutexes the same worlds are reached, but for the mutexes and the looks.

Besides, everybody may look at what a mutex guards (`Op.look`), which is a section of its own.

* `Guarded.Frame.takes`: the mutex that a frame tries to take next.
* `Guarded.Frame.has`: the mutexes that it has.
-/

namespace Lending

/-- How the critical sections of a program are guarded. -/
structure Guard (Shared Inner Mutex View : Type) where
  /-- The mutex of a frame's next step, if that is a critical section. -/
  mutex? : Inner → Option Mutex
  /-- What one sees who looks at what a mutex guards. -/
  view   : Shared → Mutex → View

namespace Guarded

/-- Shared state with the mutexes that are taken for a critical section. -/
structure State (Shared Mutex : Type) where
  shared : Shared
  taken  : List Mutex := []

/-- An operation in flight, in a critical section or not. -/
inductive Frame (Inner Mutex View : Type) where
  /-- In no critical section. -/
  | free (f : Inner)
  /-- The critical section is done, and its mutex about to be given back. -/
  | inside (m : Mutex) (f : Inner)
  /-- About to look at what a mutex guards. -/
  | look (m : Mutex)
  /-- It has looked, and is about to give the mutex back. -/
  | looking (m : Mutex) (v : View)
  | seen (v : View)

/-- The operations of a program, and looks. -/
inductive Op (Inner Mutex : Type) where
  | op (op : Inner)
  | look (m : Mutex)
  deriving DecidableEq

/-- The answers and results of a program, and what one has seen. -/
inductive Reply (Inner View : Type) where
  | reply (r : Inner)
  | view (v : View)

namespace Frame

variable {Shared Inner Op Query Reply Mutex View : Type} [DecidableEq Mutex]
  (P : Program Shared Inner Op Query Reply) (G : Guard Shared Inner Mutex View)

/-- The mutex that a frame tries to take next. -/
def takes (s : State Shared Mutex) : Frame Inner Mutex View → Option Mutex
  | .free f =>
    match P.need s.shared f with
    | .step => G.mutex? f
    | _ => none
  | .look m => some m
  | _ => none

/-- The mutexes that a frame has. -/
def has : Frame Inner Mutex View → List Mutex
  | .inside m _ | .looking m _ => [m]
  | _ => []

/-- What a frame needs to go on: who tries to take a mutex waits while it is taken. -/
def need (s : State Shared Mutex) :
    Frame Inner Mutex View → Need (Frame Inner Mutex View) Query (Guarded.Reply Reply View)
  | .free f =>
    match P.need s.shared f with
    | .step => if (G.mutex? f).any (· ∈ s.taken) then .wait else .step
    | .sub g => .sub (.free g)
    | .ask q => .ask q
    | .wait => .wait
    | .over r => .over (.reply r)
  | .look m => if m ∈ s.taken then .wait else .step
  | .seen v => .over (.view v)
  | .inside _ _ | .looking _ _ => .step

/-- The next step of a frame that needs nothing. -/
def step (t : Moment) (s : State Shared Mutex) :
    Frame Inner Mutex View → State Shared Mutex × Frame Inner Mutex View × List Notice
  | .free f =>
    let (shared, f', notices) := P.step t s.shared f
    match G.mutex? f with
    | some m => (⟨shared, m :: s.taken⟩, .inside m f', notices)
    | none => (⟨shared, s.taken⟩, .free f', notices)
  | .inside m f => (⟨s.shared, s.taken.erase m⟩, .free f, [])
  | .look m => (⟨s.shared, m :: s.taken⟩, .looking m (G.view s.shared m), [])
  | .looking m v => (⟨s.shared, s.taken.erase m⟩, .seen v, [])
  | .seen v => (s, .seen v, [])

/-- How a frame goes on with the result or the answer it needed. -/
def resume (s : State Shared Mutex) : Frame Inner Mutex View → Guarded.Reply Reply View →
    State Shared Mutex × Frame Inner Mutex View × List Notice
  | .free f, .reply r =>
    let (shared, f', notices) := P.resume s.shared f r
    (⟨shared, s.taken⟩, .free f', notices)
  | f, _ => (s, f, [])

/-- When a frame that waits stops waiting by itself. -/
def timer? (s : State Shared Mutex) : Frame Inner Mutex View → Option Instant
  | .free f => P.timer? s.shared f
  | _ => none

/-- A frame that waits with a limit stops waiting. -/
def expire (s : State Shared Mutex) : Frame Inner Mutex View → State Shared Mutex
  | .free f => ⟨P.expire s.shared f, s.taken⟩
  | _ => s

end Frame

end Guarded

/-- A program whose critical sections take their mutexes. -/
def Program.guarded {Shared Inner Op Query Reply Mutex View : Type} [DecidableEq Mutex]
    (P : Program Shared Inner Op Query Reply) (G : Guard Shared Inner Mutex View) :
    Program (Guarded.State Shared Mutex) (Guarded.Frame Inner Mutex View) (Guarded.Op Op Mutex)
      Query (Guarded.Reply Reply View) where
  start
    | .op op => .free (P.start op)
    | .look m => .look m
  need := Guarded.Frame.need P G
  step := Guarded.Frame.step P G
  resume := Guarded.Frame.resume P
  timer? := Guarded.Frame.timer? P
  expire := Guarded.Frame.expire P

end Lending
