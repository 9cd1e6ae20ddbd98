import Lending.Proofs.Pool.Slots

/-!
# When `acquire` gives up

A call gives up in the critical section that finds nothing idle and no slot free after the time it
may wait until. That time is fixed in the call's first critical section and kept through every
wake-up and every stale resource on the way; it is looked at only where there is nothing to take. So
a refusal comes late enough, with the pool full, and takes nothing.

A `Vigil` watches one call, given by its thread and its place on it, while any other threads run.
The time source may stand still, but does not go back: `Vigil.note` objects to that.

* `Call.Steps.looks_or_keeps`: a step is a look with the deadline of the call, or keeps the deadline
  and the error that the call is about to end with.
* `Heeds`: what a call is about to do accords with what was seen of it.
* `refused_in_time`: a call that ends with an exhausted pool gave up late enough in a full pool, or
  its `create` callback failed so.

The error is `PoolExhausted`. Where `create` answers with one, as the factory of a cache does whose
own pool is exhausted, `acquire` passes it on like any other error, and the law names it apart. A
limit of waits whose end no time source can represent never refuses anybody.
-/

namespace Lending.Pool

variable {α : Type}

namespace Call

/-! ## Deadlines and errors on the way -/

/-- The deadline of an `acquire` on its way. -/
def deadline? : Call α → Option (Option Instant)
  | .retry deadline | .checking deadline _ | .evictingStale deadline _ | .parked _ deadline
  | .freeing (.retry deadline) | .notifying (.retry deadline) => some deadline
  | _ => none

/-- The error that a call is about to end with, or has ended with. -/
def error? : Call α → Option PoolError
  | .freeing (.fail e) | .notifying (.fail e) | .over (.failed e) => some e
  | _ => none

/-- The deadline of the look that is the next step of a call. -/
def looksUntil (m : Moment) (p : Pool α) : Call α → Option (Option Instant)
  | .start .acquire => some (p.deadline? m.start)
  | .retry deadline | .parked _ deadline => some deadline
  | _ => none

/-- A call that looks is no longer one that waits. -/
theorem step_of_looksUntil {m : Moment} {p : Pool α} {c : Call α} {deadline : Option Instant}
    (h : c.looksUntil m p = some deadline) :
    c.step m p = { p with waiting := p.waiting - c.waits }.look deadline m.check := by
  cases c with
  | start op =>
    cases op with
    | acquire =>
      cases h
      rfl
    | release | discard | removeIdle | resize | setWaitLimit => cases h
  | retry | parked =>
    cases h
    rfl
  | _ => cases h

variable {m : Moment} {p p' : Pool α} {c c' : Call α} {r : Reply α}

theorem Steps.looks_or_keeps (h : Steps m p c p' c') :
    (∃ deadline, c.looksUntil m p = some deadline ∧
      Looked { p with waiting := p.waiting - c.waits } deadline m.check p' c') ∨
    c'.deadline? = c.deadline? ∧ c'.error? = c.error? := by
  cases h with
  | acquire h | retry h | woken _ h => exact Or.inl ⟨_, rfl, h⟩
  | free next | notify next => cases next <;> exact Or.inr ⟨rfl, rfl⟩
  | surplus | putBack | nothingIdle | drain | wakeDrained | grow | shrink | wakeGrown
  | setWaitLimit | nothingLeft | closeDown => exact Or.inr ⟨rfl, rfl⟩

/-- An answer brings no deadline. -/
theorem Answered.deadline? (h : Answered c r c') {deadline : Option Instant}
    (hd : c'.deadline? = some deadline) : c.deadline? = some deadline := by
  cases h with
  | stale | staleEvicted | unasked => exact hd
  | evicted _ rest => cases rest <;> cases hd
  | evictRaised _ rest | abandoned _ rest => cases rest <;> cases hd
  | fresh | checkRaised | staleRaised | created | notCreated | createRaised | dropped | dropRaised
  | discarded | discardRaised | surplusEvicted | surplusRaised | abandonRaised => cases hd

/-- The only error that an answer brings is that of `create`. -/
theorem Answered.error? (h : Answered c r c') {e : PoolError} (he : c'.error? = some e) :
    c.error? = some e ∨ c = .creating ∧ r = .failed e := by
  cases h with
  | notCreated =>
    cases he
    exact Or.inr ⟨rfl, rfl⟩
  | unasked => exact Or.inl he
  | evicted _ rest => cases rest <;> cases he
  | evictRaised _ rest | abandoned _ rest => cases rest <;> cases he
  | stale | staleEvicted | fresh | checkRaised | staleRaised | created | createRaised | dropped
  | dropRaised | discarded | discardRaised | surplusEvicted | surplusRaised | abandonRaised =>
    cases he

/-- A call that is asked has no error yet. -/
theorem error?_of_ask {q : Query α} (hn : c.need p = .ask q) : c.error? = none := by
  cases c with
  | freeing | notifying | «over» => cases hn
  | _ => rfl

end Call

/-- A look keeps the deadline. -/
theorem Looked.deadline? {p p' : Pool α} {deadline : Option Instant} {now : Instant} {c' : Call α}
    (h : Looked p deadline now p' c') {d : Option Instant} (hd : c'.deadline? = some d) :
    d = deadline := by
  cases h with
  | took | parked => exact (Option.some.inj hd).symm
  | reserved | expired => cases hd

/-! ## The record -/

/-- A step that a call took. -/
structure Taken (α : Type) where
  time   : Instant
  before : Pool α
  call   : Call α
  after  : Pool α

/-- What is seen of the call in one place. -/
structure Vigil (α : Type) where
  /-- The last reading of the time source. -/
  now   : Instant := 0
  /-- When the call took its first step, and the limit of waits then. -/
  begun : Option (Instant × Option Duration) := none
  /-- The last step it took. -/
  last  : Option (Taken α) := none
  /-- The error with which its `create` callback failed. -/
  told  : Option PoolError := none

namespace Vigil

/-- A step is written down. -/
def step (V : Vigil α) (t : Moment) (p : Pool α) (c : Call α) (p' : Pool α) : Vigil α where
  now := t.check
  begun := V.begun.or (some (t.start, p.waitLimit))
  last := some ⟨t.check, p, c, p'⟩
  told := V.told

/-- The error of `create` is written down. -/
def hear (V : Vigil α) : Call α → Reply α → Vigil α
  | .creating, .failed e => { V with told := some e }
  | _, _ => V

theorem begun_hear (V : Vigil α) (c : Call α) (r : Reply α) : (V.hear c r).begun = V.begun := by
  unfold hear
  split <;> rfl

/-- What the move means for the call in place `n` of thread `i` is written down; a time source that
goes back is objected to. -/
def note (i n : Nat) (V : Vigil α) (w : World (Pool α) (Call α)) (m : Move (Op α) (Reply α))
    (w' : World (Pool α) (Call α)) : Option (Vigil α) :=
  match m with
  | .enter j _ => some (if j = i ∧ (w.stack j).length = n then { now := V.now } else V)
  | .run j t =>
    if V.now ≤ t.start ∧ t.start ≤ t.check then
      match w.stack j with
      | c :: below =>
        some (if j = i ∧ below.length = n then V.step t w.shared c w'.shared
          else { V with now := t.check })
      | [] => some V
    else none
  | .answer j r =>
    match w.stack j with
    | c :: below => some (if j = i ∧ below.length = n then V.hear c r else V)
    | [] => some V
  | _ => some V

end Vigil

/-- The step `s` is one in which a call gave up that began at `start` with a limit for its wait. -/
structure GaveUp (start : Instant) (limit : Duration) (s : Taken α) : Prop where
  /-- The end of the wait can be represented, and is not after the step. -/
  late    : ∃ deadline, start.after? limit = some deadline ∧ deadline ≤ s.time
  idle    : s.before.idle = []
  limited : 0 < s.before.capacity
  full    : s.before.capacity ≤ s.before.allocated
  kept    : s.after.idle = s.before.idle ∧ s.after.allocated = s.before.allocated ∧
    s.after.capacity = s.before.capacity ∧ s.after.waitLimit = s.before.waitLimit
  /-- The call is no longer counted if it was before. -/
  waiting : s.after.waiting + s.call.waits = s.before.waiting

theorem GaveUp.of_hasRoom {start time : Instant} {limit : Duration} {p : Pool α} {c : Call α}
    (late : ∃ deadline, start.after? limit = some deadline ∧ deadline ≤ time)
    (hi : p.idle = []) (hr : p.hasRoom = false) (hw : c.waits ≤ p.waiting)
    (f : Counters → Counters) :
    GaveUp start limit ⟨time, p, c, { p with waiting := p.waiting - c.waits }.count f⟩ := by
  have full : ¬(p.capacity = 0 ∨ p.allocated < p.capacity) := by
    rw [← hasRoom_iff, hr]
    exact nofun
  have limited : 0 < p.capacity := by omega
  have taken : p.capacity ≤ p.allocated := by omega
  exact ⟨late, hi, limited, taken, ⟨rfl, rfl, rfl, rfl⟩, Nat.sub_add_cancel hw⟩

/-- The call gave up with this error in its last step. -/
def Vigil.Refused (V : Vigil α) (e : PoolError) : Prop :=
  ∃ start limit s, V.begun = some (start, some limit) ∧ V.last = some s ∧ s.time ≤ V.now ∧
    GaveUp start limit s ∧ e = .exhausted (s.before.waitLimit.getD ⟨0⟩)

/-- What a call is about to do accords with what was seen of it. -/
structure Heeds (V : Vigil α) (c : Call α) : Prop where
  fresh    : c.begun = false → V.begun = none
  /-- Its deadline comes from the first step. -/
  deadline : ∀ d, c.deadline? = some d →
    ∃ start limit, V.begun = some (start, limit) ∧ d = limit.bind start.after?
  /-- Its error was told to it, or it has given up. -/
  error    : ∀ e, c.error? = some e → V.told = some e ∨ c = .over (.failed e) ∧ V.Refused e

namespace Heeds

variable {V : Vigil α} {c c' : Call α} {p p' : Pool α} {t : Moment} {r : Reply α}

/-- Time may go by. -/
theorem later (h : Heeds V c) {now : Instant} (hnow : V.now ≤ now) :
    Heeds { V with now := now } c := by
  refine ⟨h.fresh, h.deadline, fun e he => ?_⟩
  rcases h.error e he with told | ⟨hc, start, limit, s, hb, hl, ht, rest⟩
  · exact Or.inl told
  · exact Or.inr ⟨hc, start, limit, s, hb, hl, ht.trans hnow, rest⟩

theorem start (op : Op α) (now : Instant) : Heeds { now := now } (.start op) :=
  ⟨fun _ => rfl, nofun, nofun⟩

/-- The deadline with which a call looks is that of its first step. -/
theorem looksUntil (h : Heeds V c) {deadline : Option Instant}
    (hl : c.looksUntil t p = some deadline) (p' : Pool α) :
    ∃ start limit, (V.step t p c p').begun = some (start, limit) ∧
      deadline = limit.bind start.after? := by
  have kept : c.deadline? = some deadline →
      ∃ start limit, (V.step t p c p').begun = some (start, limit) ∧
        deadline = limit.bind start.after? := by
    intro hd
    obtain ⟨start, limit, hb, rfl⟩ := h.deadline deadline hd
    refine ⟨start, limit, ?_, rfl⟩
    rw [Vigil.step, hb]
    rfl
  cases c with
  | start op =>
    cases op with
    | acquire =>
      cases hl
      refine ⟨t.start, p.waitLimit, ?_, rfl⟩
      rw [Vigil.step, h.fresh rfl]
      rfl
    | release | discard | removeIdle | resize | setWaitLimit => cases hl
  | retry | parked => exact kept hl
  | _ => cases hl

/-- **A step keeps a call in accord**: it gives up only late, and where there is nothing to take. -/
theorem steps (h : Heeds V c) (hs : Call.Steps t p c p' c') (hw : c.waits ≤ p.waiting) :
    Heeds (V.step t p c p') c' := by
  refine ⟨fun hb => absurd (hs.begun.symm.trans hb) nofun, ?_, ?_⟩
  · intro d hd
    rcases hs.looks_or_keeps with ⟨deadline, looks, looked⟩ | ⟨same, -⟩
    · rw [looked.deadline? hd]
      exact h.looksUntil looks p'
    · obtain ⟨start, limit, hb, rfl⟩ := h.deadline d (same.symm.trans hd)
      refine ⟨start, limit, ?_, rfl⟩
      rw [Vigil.step, hb]
      rfl
  · intro e he
    rcases hs.looks_or_keeps with ⟨deadline, looks, looked⟩ | ⟨-, same⟩
    · obtain ⟨start, limit, hb, rfl⟩ := h.looksUntil looks p'
      cases looked with
      | took | reserved | parked => cases he
      | expired hi hr hd =>
        cases he
        obtain ⟨limit, rfl⟩ : ∃ d, limit = some d := by
          cases limit with
          | none => cases hd
          | some d => exact ⟨d, rfl⟩
        have late : ∃ deadline, start.after? limit = some deadline ∧ deadline ≤ t.check := by
          simpa [Option.any_eq_true] using hd
        have gaveUp := GaveUp.of_hasRoom (p := p) late hi hr hw
        exact Or.inr ⟨rfl, start, limit, _, hb, rfl, Nat.le_refl _, gaveUp _, rfl⟩
    · rcases h.error e (same.symm.trans he) with told | ⟨rfl, -⟩
      · exact Or.inl told
      · cases hs

/-- An answer keeps a call in accord. -/
theorem answered (h : Heeds V c) (ha : Call.Answered c r c') {q : Query α}
    (hn : c.need p = .ask q) : Heeds (V.hear c r) c' := by
  refine ⟨?_, ?_, ?_⟩
  · intro hc
    rw [Vigil.begun_hear]
    refine h.fresh ?_
    rcases ha.begun with begun | rfl
    · exact absurd (begun.symm.trans hc) nofun
    · exact hc
  · intro d hd
    rw [Vigil.begun_hear]
    exact h.deadline d (ha.deadline? hd)
  · intro e he
    rcases ha.error? he with before | ⟨rfl, rfl⟩
    · rw [Call.error?_of_ask hn] at before
      cases before
    · exact Or.inl rfl

end Heeds

section

variable {i n : Nat} {l : Limits} {V V' : Vigil α} {w w' : World (Pool α) (Call α)}

/-- A move keeps the call in the watched place in accord with the record. -/
theorem Heeds.move {m : Move (Op α) (Reply α)} {notices : List Notice}
    (h : ∀ c, w.frameAt i n = some c → Heeds V c)
    (waiting : w.shared.waiting = w.total Call.waits)
    (ha : (program α).apply w m = some (w', notices)) (hn : V.note i n w m w' = some V') :
    ∀ c, w'.frameAt i n = some c → Heeds V' c := by
  cases moved ha with
  | spawn =>
    cases hn
    intro c hc
    rw [World.frameAt, World.stack_spawn] at hc
    exact h c hc
  | enter op hj =>
    cases hn
    exact World.forall_frameAt_push (I := Heeds) hj (fun _ _ => .start op V.now) h
  | @step j t c c' below p' hst steps =>
    simp only [Vigil.note, hst, Option.ite_none_right_eq_some, Option.some.injEq] at hn
    obtain ⟨⟨started, checked⟩, rfl⟩ := hn
    refine World.forall_frameAt_replace (I := Heeds) hst ?_
      fun c hc => (h c hc).later (started.trans checked)
    rintro rfl rfl
    refine (h c (World.frameAt_top hst)).steps steps ?_
    rw [waiting]
    exact w.le_total Call.waits (World.mem_frames_of_stack hst)
  | @answer j r c c' below _ f hst hne _ answered =>
    simp only [Vigil.note, hst, Option.some.injEq] at hn
    subst hn
    refine World.forall_frameAt_replace (I := Heeds) hst ?_ h
    rintro rfl rfl
    exact (h c (World.frameAt_top hst)).answered answered hne
  | expire hst =>
    cases hn
    exact h
  | collect hst =>
    cases hn
    exact fun c hc => h c (World.frameAt_pop hst hc)

theorem heeds_of_kept
    (h : (program α).Kept (Vigil.note i n) {} (World.init (.ofLimits l)) V w) :
    ∀ c, w.frameAt i n = some c → Heeds V c := by
  induction h with
  | refl => exact fun c hc => absurd hc (by simp [World.frameAt, World.stack, World.init])
  | move m h ha hn ih => exact Heeds.move ih (waiting_eq_total h.reach) ha hn

/-- **A look takes what there is**, however late it is: the first idle resource, else a free
slot. -/
theorem apply_of_looksUntil {j : Nat} {t : Moment} {c : Call α} {below : List (Call α)}
    {deadline : Option Instant} (hst : w.stack j = c :: below)
    (hn : (program α).need w.shared c = .step) (hl : c.looksUntil t w.shared = some deadline)
    (any : w.shared.idle ≠ [] ∨ w.shared.hasRoom = true) :
    ∃ p' c' notices,
      (program α).apply w (.run j t) = some (w.update j p' (c' :: below), notices) ∧
      ((∃ r, w.shared.idle = r :: p'.idle ∧ c' = .checking deadline r) ∨
        w.shared.idle = [] ∧ p'.allocated = w.shared.allocated + 1 ∧ c' = .creating) := by
  have step : (program α).step t w.shared c = _ := Call.step_of_looksUntil hl
  refine ⟨_, _, _, by simp only [Program.apply, Program.runStack, hst, hn, step]; rfl, ?_⟩
  have looked := looked { w.shared with waiting := w.shared.waiting - c.waits } deadline t.check
  generalize (look _ deadline t.check).1 = p' at looked ⊢
  generalize (look _ deadline t.check).2.1 = c' at looked ⊢
  cases looked with
  | took hi => exact Or.inl ⟨_, hi, rfl⟩
  | reserved hi hr => exact Or.inr ⟨hi, rfl, rfl⟩
  | expired hi hr | parked hi hr =>
    rcases any with any | any
    · exact absurd hi any
    · cases hr.symm.trans any

/-- **A refusal comes in time and takes nothing.** In every world that a run from a fresh pool comes
to, under a time source that does not go back:

* a call that ends with an exhausted pool was told so by its `create` callback, or gave up in its
  last step: its wait had a limit when it began, the end of the wait could be represented and was
  over, nothing was idle and no slot was free, and the step left the pool as it was but for the call
  itself, which is no longer counted as waiting;
* the calls counted as waiting are those that are parked, or woken and have not looked yet;
* and a call that looks and finds an idle resource or room goes on with it, however late it is. -/
theorem refused_in_time (l : Limits)
    (h : (program α).Kept (Vigil.note i n) {} (World.init (.ofLimits l)) V w) :
    (∀ limit, w.frameAt i n = some (.over (.failed (.exhausted limit))) →
      V.told = some (.exhausted limit) ∨ V.Refused (.exhausted limit)) ∧
    w.shared.waiting = w.total Call.waits ∧
    ∀ j t c below deadline, w.stack j = c :: below → (program α).need w.shared c = .step →
      c.looksUntil t w.shared = some deadline →
      w.shared.idle ≠ [] ∨ w.shared.hasRoom = true →
      ∃ p' c' notices,
        (program α).apply w (.run j t) = some (w.update j p' (c' :: below), notices) ∧
        ((∃ r, w.shared.idle = r :: p'.idle ∧ c' = .checking deadline r) ∨
          w.shared.idle = [] ∧ p'.allocated = w.shared.allocated + 1 ∧ c' = .creating) := by
  refine ⟨fun limit hf => ?_, waiting_eq_total h.reach, ?_⟩
  · rcases (heeds_of_kept h _ hf).error _ rfl with told | ⟨-, refused⟩
    · exact Or.inl told
    · exact Or.inr refused
  · intro j t c below deadline hst hn hl any
    exact apply_of_looksUntil hst hn hl any

end

/-- The second of two callers is woken before its time is over, and again when it is. -/
def wokenTwice : List (Move (Op Nat) (Reply Nat)) :=
  [.spawn, .enter 0 .acquire, .run 0 (.at 0), .answer 0 (.got 7), .spawn, .enter 1 .acquire,
    .run 1 (.at 1), .expire 1, .run 1 (.at 3), .expire 1, .run 1 (.at 6)]

theorem refused_in_time_wokenTwice : ∃ V w,
    (program Nat).keep? (Vigil.note 1 0) {}
      (World.init (.ofLimits { size := 1, wait := some ⟨5⟩ })) wokenTwice = some (V, w) ∧
    w.frameAt 1 0 = some (.over (.failed (.exhausted ⟨5⟩))) ∧ V.Refused (.exhausted ⟨5⟩) ∧
    w.shared.waiting = 0 := by
  have run : (program Nat).keep? (Vigil.note 1 0) {}
      (World.init (.ofLimits { size := 1, wait := some ⟨5⟩ })) wokenTwice = some (_, _) := rfl
  obtain ⟨ends, counted, -⟩ := refused_in_time _ (Program.kept_of_keep? run)
  rcases ends ⟨5⟩ rfl with told | refused
  · cases told
  · exact ⟨_, _, run, rfl, refused, counted⟩

/-- Making a resource meets with the exhaustion of another pool, and no wait has a limit here. -/
def refusedElsewhere : List (Move (Op Nat) (Reply Nat)) :=
  [.spawn, .enter 0 .acquire, .run 0 (.at 0), .answer 0 (.failed (.exhausted ⟨5000000⟩)),
    .run 0 (.at 0), .run 0 (.at 0)]

/-- Not every call that ends with an exhausted pool had a limit for its wait. -/
theorem exhausted_unlimited_refusedElsewhere : ∃ V w,
    (program Nat).keep? (Vigil.note 0 0) {} (World.init (.ofLimits { size := 1 }))
      refusedElsewhere = some (V, w) ∧
    w.frameAt 0 0 = some (.over (.failed (.exhausted ⟨5000000⟩))) ∧ V.begun = some (0, none) :=
  ⟨_, _, rfl, rfl, rfl⟩

end Lending.Pool
