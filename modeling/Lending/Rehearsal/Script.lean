import Lending.Report.Inspection

/-!
# Scripts

A rehearsal runs a program against a scripted outside. The script says for a callback what it does
before it answers (a **hook**: further steps on the same thread) and how it ends.
-/

namespace Lending.Rehearsal

/-- How a scripted callback ends. -/
inductive Ending where
  | succeed
  | fail (e : SessionError)
  | exhausted (limit : Duration)
  | cancel
  | raise (message : String)

/-- The session error of an ending that is one. -/
def Ending.sessionError? : Ending → Option SessionError
  | .fail e => some e
  | .exhausted limit => some (.pool (.exhausted limit))
  | .cancel => some (.pool .cancelled)
  | _ => none

/-- The pool error of an ending that is one. -/
def Ending.poolError? : Ending → Option PoolError
  | .fail e => some (.createFailed e)
  | .exhausted limit => some (.exhausted limit)
  | .cancel => some .cancelled
  | _ => none

/-- What a scripted callback does; what it answers with depends on the callback. -/
structure Outcome (Step : Type) where
  hook   : List Step := []
  ending : Ending := .succeed
  stale  : Bool := false
  flag   : Bool := false
  names  : List String := []
  data   : List UInt8 := []

/-- A callback that does nothing and succeeds. -/
def Outcome.plain {Step : Type} : Outcome Step := {}

/-- What single callbacks will do, by name and number; a rule serves once. -/
structure Rules (Kind Step : Type) where
  entries : List ((Kind × Nat) × Outcome Step) := []

namespace Rules

variable {Kind Step : Type} [DecidableEq Kind]

/-- A rule in place of an earlier one for the same callback. -/
def set (rules : Rules Kind Step) (kind : Kind) (id : Nat) (outcome : Outcome Step) :
    Rules Kind Step :=
  ⟨((kind, id), outcome) :: rules.entries.filter fun entry => entry.1 != (kind, id)⟩

/-- The rule for a callback, used up; without one it just succeeds. -/
def take (rules : Rules Kind Step) (kind : Kind) (id : Nat) :
    Outcome Step × Rules Kind Step :=
  match rules.entries.find? fun entry => entry.1 == (kind, id) with
  | none => (.plain, rules)
  | some entry => (entry.2, ⟨rules.entries.filter fun entry => entry.1 != (kind, id)⟩)

end Rules

/-- A text for something that went well. -/
def ok : Report := .text "ok"

/-- A text for a step that found nothing to work on. -/
def skip : Report := .text "skip"

/-- A text for a step that came too late. -/
def gone : Report := .text "gone"

end Lending.Rehearsal
