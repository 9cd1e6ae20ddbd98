import Lending.Proofs.Cache.Custody

/-!
# A diary of the remote side

What becomes of a remote session shows at the remote side: it is connected, asked things, and
closed. A diary has all that in the order in which it happened, and which sessions were lost on the
way.

* `Query.fits`: the answers to a question, where nothing raises.
* `Event`, `Diary`: what is recorded; `Diary.write` records a move.
* `Diary.note`: as `write`, with a promise of the remote side, that a close does not raise.
-/

namespace Lending.Cache

/-- The answers to a question, where nothing raises. -/
def Query.fits : Query → Reply → Bool
  | .connect, .got _ | .connect, .failed _ | .connect, .refused _ => true
  | .isOpen _, .flag _ | .isShared, .flag _ => true
  | .close _, .done | .close _, .refused _ | .resetShared, .done => true
  | .file _ _, .file _ => true
  | .clock _, .reading _ => true
  | _, _ => false

/-- Whether a reply is one to a close that does not raise. -/
def Reply.settles : Reply → Bool
  | .done | .refused _ => true
  | _ => false

theorem Reply.fault_of_settles {r : Reply} (h : r.settles = true) : r.fault = none := by
  cases r with
  | done | refused => rfl
  | _ => cases h

theorem Query.settles_of_fits {s : Nat} {r : Reply} (h : (Query.close s).fits r = true) :
    r.settles = true := by
  cases r with
  | done | refused => rfl
  | _ => cases h

/-- What happens to the sessions of the remote side. -/
inductive Event where
  /-- The remote side, or a clock, is being asked. -/
  | asked (q : Query)
  /-- A level lends what leads to this session. -/
  | lent (s : Nat)
  deriving DecidableEq

/-- The session that an event is about. -/
def Event.about : Event → Option Nat
  | .asked (.isOpen s) | .asked (.close s) | .asked (.file s _) | .lent s => some s
  | .asked _ => none

/-- What is recorded of the remote side. -/
structure Diary where
  /-- The sessions connected. -/
  connected : List Nat := []
  /-- The sessions that the innermost level let go of, as finding out whether they are open
  raised. -/
  lost      : List Nat := []
  /-- What happened, the last first. -/
  log       : List Event := []
  deriving DecidableEq

/-- The innermost level. -/
def bottom (c : Cache) : Nat := c.depth - 1

section

variable (w : World Cache Frame) (m : Move Op Reply)

/-- The question that the move to this world asks. -/
def askedBy : Option Query :=
  (Program.put w m).bind fun f =>
    match f.need w.shared with
    | .ask q => some q
    | _ => none

/-- The remote session that is lent by a move, at whatever level. -/
def ledTo : Option Nat :=
  match program.heard w m with
  | some (.borrowing k _, .got s) => w.shared.remoteBehind w.shared.depth k s
  | _ => none

/-- The session of level `k` that its pool lets go of by a move, as judging it raised. -/
def strayBy (k : Nat) : List Nat :=
  match program.heard w m with
  | some (.pool j (.checking _ s), .raised _) => if j = k then [s] else []
  | _ => []

/-- Whether a close that answers has not raised. -/
def shuts : Bool :=
  match m with
  | .answer i r =>
    match program.status w i with
    | .asking (.close s) => (Query.close s).fits r
    | _ => true
  | _ => true

end

namespace Diary

/-- A move is written down. -/
def write (D : Diary) (w : World Cache Frame) (m : Move Op Reply) (w' : World Cache Frame) :
    Diary where
  connected := D.connected ++ bornBy w.shared.bottom w m
  lost := D.lost ++ strayBy w m w.shared.bottom
  log := (askedBy w' m).toList.map .asked ++ ((ledTo w m).toList.map .lent ++ D.log)

/-- A move is written down; a close that raises is objected to. -/
def note (D : Diary) (w : World Cache Frame) (m : Move Op Reply) (w' : World Cache Frame) :
    Option Diary :=
  if shuts w m then some (D.write w m w') else none

variable {D D' : Diary} {w w' : World Cache Frame} {m : Move Op Reply}

theorem of_note (hn : D.note w m w' = some D') : shuts w m = true ∧ D' = D.write w m w' := by
  unfold note at hn
  split at hn
  · rename_i hs
    cases hn
    exact ⟨hs, rfl⟩
  · cases hn

end Diary

/-- A close is heard of by an answer that fits. -/
theorem fits_of_shuts {w : World Cache Frame} {i s : Nat} {f : Frame} {below : List Frame}
    {r : Reply} (h : shuts w (.answer i r) = true) (hst : w.stack i = f :: below)
    (hn : f.need w.shared = .ask (.close s)) : (Query.close s).fits r = true := by
  simpa only [shuts, Program.status_of_ask (P := program) hst hn] using h

end Lending.Cache
