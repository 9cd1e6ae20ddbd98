import Lending.Proofs.Cache.Balance
import Lending.Proofs.Cache.Tenure
import Lending.Proofs.Pool.Clearing

/-!
# What is idle on a level, torn down

Destroying a level, the last step of a reset and the end of a factory remove what is idle from the
level's pool, and the end of the pool tears down what is idle then. Each is a call of the pool that
stands in some place of a thread, for itself or above the operation that needs it, with whatever is
needed to tear a session down above it. So what holds of a clearing of a pool holds of these: it
reaches the idle sessions in order, up to the first whose teardown raises.

* `cleared_of_kept`: a clearing of a level's pool, in any run of a stack.
* `idle_le_allocated`: the slots that it takes off are there.
* `cleared_up_to_raise`: clearings of pools, of pools with references and of the levels of a stack.

The operations of a cache that come to this are `destroy`, the end of a `reset_cache`, and the drop
of a factory and of its pool. At an inner level to evict a session is to release its handle, and a
raise there may come from any level below.
-/

namespace Lending.Cache

/-- The record of a clearing of a level's pool. -/
def scribe : Program.Scribe Cache Frame Reply (Pool.Clearance Nat) where
  fresh := {}
  step L t c f c' :=
    match f with
    | .pool k x =>
      match x.asks with
      | some _ => L.hear x .done
      | none => L.step t (c.level k).pool x (c'.level k).pool
    | _ => L
  hear L _ f r :=
    match f with
    | .pool _ x =>
      match x.asks with
      | some q => L.hear x (r.toPool q)
      | none => L
    | _ => L

namespace Frame

/-- How far the pool's call has got, where the operation is one. -/
def Reached (L : Pool.Clearance Nat) : Frame → Prop
  | .pool _ x => Pool.Clears L x
  | _ => L = {}

variable {L : Pool.Clearance Nat} {m : Moment} {c c' : Cache} {f f' g : Frame} {r : Reply}

theorem reached_onFactory {op : Op} {k : Nat} (h : Op.OnFactory op k f) : Reached {} f := by
  cases h with
  | destroy | setSize | setWaitLimit => exact .start rfl
  | getSession | reset | hold => rfl

theorem reached_releaseLevel (c : Cache) (k : Nat) (fault : Option String) :
    Reached {} (releaseLevel c k fault).2 := by
  unfold releaseLevel
  dsimp only
  split <;> rfl

/-- What an operation needs has taken nothing yet. -/
theorem Needs.reached (h : Needs c f g) : Reached {} g := by
  cases h with
  | within ho => cases ho <;> rfl
  | borrowing | dropPool | dropFactory | sweeping => exact .start rfl
  | make | judge | evict | letGo | closing | retire | releasing | thenPool | thenFactory => rfl

/-- What a step of a pool's call leaves of the pool, as far as a clearing goes. -/
theorem setPool_of_clears {k : Nat} {x x' : Pool.Call Nat} {p' : Pool Nat}
    (hs : Pool.Call.Steps m (c.level k).pool x p' x') (hx : x.clears = true) :
    ((c.setPool k p').level k).pool.idle = p'.idle ∧
    ((c.setPool k p').level k).pool.allocated = p'.allocated := by
  rw [pool_setPool]
  split
  · exact ⟨rfl, rfl⟩
  · rename_i out
    have none : (c.level k).pool.idle = [] := by
      have outside : c.depth ≤ k := by omega
      unfold level
      rw [List.getElem?_eq_none outside]
      rfl
    cases hs with
    | nothingIdle | nothingLeft => exact ⟨rfl, rfl⟩
    | drain hi | closeDown hi => cases none.symm.trans hi
    | _ => cases hx

/-- A step keeps the record right. -/
theorem Steps.reached (h : Steps m c f c' f') (hL : Reached L f) :
    Reached (scribe.step L m c f c') f' := by
  cases h with
  | @pool k x x' p' hs =>
    show Pool.Clears (scribe.step L m c (.pool k x) _) x'
    simp only [scribe, hs.asks]
    exact Pool.Clears.steps hL hs (setPool_of_clears hs)
  | @letGoRemote k s x x' count hi hx ha =>
    show Pool.Clears (scribe.step L m c (.pool k x) _) x'
    simp only [scribe, Pool.Call.asks_of_need hx]
    exact Pool.Clears.answered hL ha
  | onFactory ho =>
    cases hL
    exact reached_onFactory ho
  | onHandle ho =>
    cases hL
    rfl
  | putBack =>
    cases hL
    exact .start rfl
  | probe | forward | dropHandle | poolGone | reset =>
    cases hL
    split <;> rfl
  | letGo | factoryGone =>
    cases hL
    exact reached_releaseLevel ..
  | unavailable | leave | last | markDirty | borrow | probeReleased | forwardReleased
  | alreadyReleased | close =>
    cases hL
    rfl

/-- A result or an answer keeps it right. -/
theorem Resumed.reached (h : Resumed c f r c' f') (hL : Reached L f) :
    Reached (scribe.hear L c f r) f' := by
  cases h with
  | @pool k x x' q r count hx ha =>
    show Pool.Clears (scribe.hear L c (.pool k x) r) x'
    simp only [scribe, Pool.Call.asks_of_need hx]
    exact Pool.Clears.answered hL ha
  | closed =>
    cases hL
    exact .start rfl
  | poolWent | factoryWent =>
    cases hL
    unfold afterLast
    split
    · dsimp only
      split <;> rfl
    · rfl
  | resetRaised hf =>
    cases hf <;> cases hL <;> rfl
  | within | lent | notLent | remote | closeRaised | retired | released
  | poolEmptied | factoryEmptied | foundShared | notShared | sharedReset | advanced
  | readAgain | swept =>
    cases hL
    rfl

end Frame

/-- **What a clearing of a level's pool does**, in any run. -/
theorem cleared_of_kept {i n k : Nat} {c₀ : Cache} {L : Pool.Clearance Nat} {w : World Cache Frame}
    (h : program.Kept (program.watch scribe i n) {} (World.init c₀) L w) {t : Pool.Taken Nat}
    {x : Pool.Call Nat} (hx : w.frameAt i n = some (.pool k x)) (ht : L.took = some t) :
    Pool.Cleared L t x := by
  have reached : ∀ f, w.frameAt i n = some f → Frame.Reached L f := by
    refine Program.watched ?_ ?_ ?_ ?_ h
    · exact fun op => rfl
    · exact fun hw hf hn => (Frame.needs (Frame.started_of_reach hw _ hf) hn).reached
    · exact fun _ _ hL hn he => (Frame.steps hn he).reached hL
    · exact fun _ _ hL hn he => (Frame.resumed hn he).reached hL
  exact (reached _ hx : Pool.Clears L x).cleared ht

/-- The slots that a clearing takes off are there: while a level's pool is alive, what is idle has
slots. -/
theorem idle_le_allocated {limits : List Limits} {shared : Bool} {w : World Cache Frame} {k : Nat}
    (hk : k < limits.length) (hw : program.Reach (World.init (.ofLimits limits shared)) w)
    (alive : (w.shared.level k).poolAlive = true) :
    (w.shared.level k).pool.idle.length ≤ (w.shared.level k).pool.allocated := by
  obtain ⟨n, counted⟩ := exists_lost k hw
  have slots := (Accounted.of_kept hk counted).slots alive
  omega

/-- **A clearing gets up to the first raise.** Removing what is idle from a pool takes the whole
queue and its slots, the end of a pool the queue, and leaves nothing idle. Then the resources are
torn down in the order of the queue, each once, and nothing else is. All of them are as long as no
teardown raises; the first that raises is the last, and those after it are let go without one.

This holds of every such call of every run of a pool with references and of a level of a stack,
whatever else happens meanwhile: of destroying a level, of the last step of a reset, and of the end
of a factory and of a pool. Left alone, with teardowns of any outcomes, the call does come to its
end. And the slots that it takes off are there. -/
theorem cleared_up_to_raise {α : Type} [DecidableEq α] (s₀ : Pool.Held α) (c₀ : Cache)
    (faults : Nat → Option String) (p : Pool α) (l : Limits) (limits : List Limits) (shared : Bool)
    (k i n : Nat) :
    (∀ {L : Pool.Clearance α} {w : World (Pool.Held α) (Pool.Held.Frame α)} {t : Pool.Taken α}
      {x : Pool.Call α},
      (Pool.Held.program α).Kept ((Pool.Held.program α).watch (Pool.Held.scribe α) i n) {}
        (World.init s₀) L w →
      w.frameAt i n = some (.call x) → L.took = some t → Pool.Cleared L t x) ∧
    (∀ {L : Pool.Clearance Nat} {w : World Cache Frame} {t : Pool.Taken Nat} {x : Pool.Call Nat},
      program.Kept (program.watch scribe i n) {} (World.init c₀) L w →
      w.frameAt i n = some (.pool k x) → L.took = some t → Pool.Cleared L t x) ∧
    (Pool.program α).Leads (Pool.teardowns faults) (.start .removeIdle) p [] (fun log p' x =>
      ∃ r, x = .over r ∧ Pool.Emptied faults p.idle log r ∧ p'.idle = [] ∧
        p'.allocated = p.allocated - p.idle.length) ∧
    (Pool.program α).Leads (Pool.teardowns faults) .teardown p [] (fun log p' x =>
      ∃ r, x = .over r ∧ Pool.Emptied faults p.idle log r ∧ p'.idle = [] ∧
        p'.allocated = p.allocated) ∧
    (∀ {L : Pool.Held.Ledger α} {w : World (Pool.Held α) (Pool.Held.Frame α)},
      (Pool.Held.program α).Kept Pool.Held.Ledger.note {} (World.init { pool := .ofLimits l }) L w →
      w.shared.pool.idle.length ≤ w.shared.pool.allocated) ∧
    (∀ {w : World Cache Frame},
      k < limits.length → program.Reach (World.init (.ofLimits limits shared)) w →
      (w.shared.level k).poolAlive = true →
      (w.shared.level k).pool.idle.length ≤ (w.shared.level k).pool.allocated) := by
  refine ⟨?_, ?_, Pool.removeIdle_alone faults p, Pool.teardown_alone faults p, ?_, ?_⟩
  · exact fun kept place took => Pool.Held.cleared_of_kept kept place took
  · exact fun kept place took => cleared_of_kept kept place took
  · exact fun kept => Pool.Held.idle_le_allocated kept
  · exact fun hk hw alive => idle_le_allocated hk hw alive

/-- Two resources are idle, and are removed; the teardown of the first raises. -/
def firstRaises : List (Move (Pool.Held.Op Nat) (Pool.Reply Nat)) :=
  [.spawn, .enter 0 (.call .removeIdle), .run 0 (.at 0), .run 0 (.at 0), .run 0 (.at 0),
    .answer 0 (.raised "teardown blew up"), .answer 0 .done]

/-- Two sessions are idle, and their level is destroyed; the close of the first raises. -/
def firstCloseRaises : List (Move Op Reply) :=
  [.spawn, .enter 0 (.destroy 0), .run 0 (.at 0), .run 0 (.at 0), .run 0 (.at 0),
    .answer 0 (.raised "close blew up"), .run 0 (.at 0)]

theorem cleared_up_to_raise_firstRaises :
    (∃ L w t, (Pool.Held.program Nat).keep?
        ((Pool.Held.program Nat).watch (Pool.Held.scribe Nat) 0 0) {}
        (World.init { pool := { idle := [0, 1], allocated := 2 } }) firstRaises = some (L, w) ∧
      w.frameAt 0 0 = some (.call (.over (.raised "teardown blew up"))) ∧ L.took = some t ∧
      t.before.idle = [0, 1] ∧ t.after.idle = [] ∧ t.after.allocated = 0 ∧ L.lost = [1]) ∧
    ∃ L w t, program.keep? (program.watch scribe 0 0) {}
        (World.init { levels := [{ pool := { idle := [0, 1], allocated := 2 } }] })
        firstCloseRaises = some (L, w) ∧
      w.frameAt 0 0 = some (.pool 0 (.over (.raised "close blew up"))) ∧ L.took = some t ∧
      t.before.idle = [0, 1] ∧ t.after.idle = [] ∧ t.after.allocated = 0 ∧ L.lost = [1] := by
  obtain ⟨pools, levels, -⟩ := cleared_up_to_raise { pool := { idle := [0, 1], allocated := 2 } }
    { levels := [{ pool := { idle := [0, 1], allocated := 2 } }] } (fun _ => none)
    ({} : Pool Nat) {} [] false 0 0 0
  have pool : (Pool.Held.program Nat).keep?
      ((Pool.Held.program Nat).watch (Pool.Held.scribe Nat) 0 0) {}
      (World.init { pool := { idle := [0, 1], allocated := 2 } }) firstRaises = some (_, _) := rfl
  have level : program.keep? (program.watch scribe 0 0) {}
      (World.init { levels := [{ pool := { idle := [0, 1], allocated := 2 } }] })
      firstCloseRaises = some (_, _) := rfl
  have cleared := pools (Program.kept_of_keep? pool) rfl rfl
  have cleared' := levels (Program.kept_of_keep? level) rfl rfl
  refine ⟨⟨_, _, _, pool, rfl, rfl, rfl, cleared.empties.idle, cleared.empties.removed rfl, ?_⟩,
    _, _, _, level, rfl, rfl, rfl, cleared'.empties.idle, cleared'.empties.removed rfl, ?_⟩
  · rcases cleared.ended _ rfl with ⟨quiet, -⟩ | ⟨torn, y, message, -, queue, last⟩
    · cases quiet
    · rfl
  · rcases cleared'.ended _ rfl with ⟨quiet, -⟩ | ⟨torn, y, message, -, queue, last⟩
    · cases quiet
    · rfl

end Lending.Cache
