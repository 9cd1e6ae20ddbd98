import Lending.Proofs.Pool.Refusal

/-!
# The limit that a refusal reports

A refusal names a time within which no resource became available. The end of that time was fixed in
the first critical section of the call, with the limit of waits there was then. The time that is
named is read off the pool where the call gives up, which may be many looks later: by then another
thread, or a callback of the call itself, may have set another limit.

A `Watch` is a `Vigil` that also keeps the limit that took effect last while the call was looking
for a resource. It asks nothing of the time source.

* `Call.Steps.waitLimit`: only a call that sets the limit changes it.
* `Reports`: while a call is looking, the pool has the limit that the call began with, unless
  another one took effect since.
* `reported_limit`: so a refusal reports the limit that the end of its wait came from, unless
  another one took effect meanwhile, and then that other one.
* `reported_limit_setMeanwhile`: which nobody has waited for.

The end of the wait is fixed where `acquire` starts, from the `wait_timeout` of that moment; the
error is built where it ends, from the `wait_timeout` of that one. In between `set_wait_timeout`
changes what is reported and not how long the wait is.
-/

namespace Lending.Pool

variable {α : Type}

namespace Call

/-- The limit of waits that the next step of a call brings. -/
def sets : Call α → Option Duration
  | .start (.setWaitLimit d) => some d
  | _ => none

variable {m : Moment} {p p' : Pool α} {c c' : Call α}

/-- Only a call that sets the limit of waits changes it. -/
theorem Steps.waitLimit (h : Steps m p c p' c') : p'.waitLimit = c.sets.or p.waitLimit := by
  cases h with
  | acquire h | retry h | woken _ h => cases h <;> rfl
  | free | notify | surplus | putBack | nothingIdle | drain | wakeDrained | grow | shrink
  | wakeGrown | setWaitLimit | nothingLeft | closeDown => rfl

theorem sets_of_looksUntil {deadline : Option Instant} (h : c.looksUntil m p = some deadline) :
    c.sets = none := by
  cases c with
  | start op =>
    cases op with
    | setWaitLimit => cases h
    | _ => rfl
  | _ => rfl

theorem sets_of_deadline? {deadline : Option Instant} (h : c.deadline? = some deadline) :
    c.sets = none := by
  cases c with
  | start => cases h
  | _ => rfl

theorem begun_of_deadline? {deadline : Option Instant} (h : c.deadline? = some deadline) :
    c.begun = true := by
  cases c with
  | start | teardown => cases h
  | _ => rfl

end Call

/-! ## The record -/

/-- What is seen of the call in one place, and of the limit of waits meanwhile. -/
structure Watch (α : Type) extends Vigil α where
  /-- The limit that took effect last while the call was looking. -/
  since : Option Duration := none

namespace Watch

/-- The call in the watched place takes a step, or hears an answer. -/
def own (W : Watch α) (V : Vigil α) : Watch α := { W with toVigil := V }

/-- A step of another call is written down, if the watched one is looking meanwhile. -/
def other (W : Watch α) (looking : Bool) (c : Call α) : Watch α :=
  if looking then { W with since := c.sets.or W.since } else W

/-- What the move means for the call in place `n` of thread `i` is written down. -/
def note (i n : Nat) (W : Watch α) (w : World (Pool α) (Call α)) (m : Move (Op α) (Reply α))
    (w' : World (Pool α) (Call α)) : Option (Watch α) :=
  match m with
  | .enter j _ => some (if j = i ∧ (w.stack j).length = n then {} else W)
  | .run j t =>
    match w.stack j with
    | c :: below =>
      some (if j = i ∧ below.length = n then W.own (W.step t w.shared c w'.shared)
        else W.other ((w.frameAt i n).any fun d => d.deadline?.isSome) c)
    | [] => some W
  | .answer j r =>
    match w.stack j with
    | c :: below => some (if j = i ∧ below.length = n then W.own (W.hear c r) else W)
    | [] => some W
  | _ => some W

end Watch

/-- What a call is about to report accords with what was seen of it and of the limit. -/
structure Reports (W : Watch α) (p : Pool α) (c : Call α) : Prop where
  heeds   : Heeds W.toVigil c
  fresh   : c.begun = false → W.since = none
  /-- While it looks, the limit is the one it began with, or the one that took effect since. -/
  limit   : ∀ deadline, c.deadline? = some deadline →
    ∀ start limit, W.begun = some (start, limit) → p.waitLimit = W.since.or limit
  /-- Its error was told to it, or names that limit. -/
  refused : ∀ e, c.error? = some e → W.told = some e ∨
    ∀ start limit, W.begun = some (start, some limit) → e = .exhausted (W.since.getD limit)

namespace Reports

variable {W : Watch α} {p p' : Pool α} {c c' d : Call α} {t : Moment} {r : Reply α}

theorem start (op : Op α) (p : Pool α) : Reports {} p (.start op) :=
  ⟨.start op 0, fun _ => rfl, nofun, nofun⟩

/-- The limit of the pool does not matter where it is the same. -/
theorem congr (h : Reports W p c) (hp : p'.waitLimit = p.waitLimit) : Reports W p' c :=
  ⟨h.heeds, h.fresh, fun deadline hd => hp ▸ h.limit deadline hd, h.refused⟩

/-- Where a call looks, the limit is the one it began with, or the one that took effect since. -/
theorem looksUntil (h : Reports W p c) {deadline : Option Instant}
    (hl : c.looksUntil t p = some deadline) {start : Instant} {limit : Option Duration}
    (hb : (W.step t p c p').begun = some (start, limit)) : p.waitLimit = W.since.or limit := by
  have kept : c.deadline? = some deadline → p.waitLimit = W.since.or limit := by
    intro hd
    obtain ⟨_, _, begun, -⟩ := h.heeds.deadline deadline hd
    rw [Vigil.step, begun] at hb
    cases hb
    exact h.limit deadline hd _ _ begun
  cases c with
  | start op =>
    cases op with
    | acquire =>
      rw [Vigil.step, h.heeds.fresh rfl] at hb
      cases hb
      rw [h.fresh rfl]
      rfl
    | release | discard | removeIdle | resize | setWaitLimit => cases hl
  | retry | parked => exact kept hl
  | _ => cases hl

/-- **A step of the call itself** keeps its report in accord. -/
theorem steps (h : Reports W p c) (hs : Call.Steps t p c p' c') (hw : c.waits ≤ p.waiting) :
    Reports (W.own (W.step t p c p')) p' c' := by
  refine ⟨h.heeds.steps hs hw, fun hb => absurd (hs.begun.symm.trans hb) nofun, ?_, ?_⟩
  · intro deadline hd start limit hb
    rw [hs.waitLimit]
    rcases hs.looks_or_keeps with ⟨_, looks, -⟩ | ⟨same, -⟩
    · rw [Call.sets_of_looksUntil looks]
      exact h.looksUntil looks hb
    · have hd := same.symm.trans hd
      obtain ⟨_, _, begun, -⟩ := h.heeds.deadline deadline hd
      have hb : (W.begun.or (some (t.start, p.waitLimit))) = some (start, limit) := hb
      rw [begun] at hb
      cases hb
      rw [Call.sets_of_deadline? hd]
      exact h.limit deadline hd _ _ begun
  · intro e he
    rcases hs.looks_or_keeps with ⟨_, looks, looked⟩ | ⟨-, same⟩
    · cases looked with
      | took | reserved | parked => cases he
      | expired =>
        cases he
        refine Or.inr fun start limit hb => ?_
        show PoolError.exhausted (p.waitLimit.getD ⟨0⟩) = .exhausted (W.since.getD limit)
        rw [h.looksUntil looks hb]
        cases W.since <;> rfl
    · rcases h.heeds.error e (same.symm.trans he) with told | ⟨rfl, -⟩
      · exact Or.inl told
      · cases hs

/-- An answer to the call keeps its report in accord. -/
theorem answered (h : Reports W p c) (ha : Call.Answered c r c') {q : Query α}
    (hn : c.need p = .ask q) : Reports (W.own (W.hear c r)) p c' := by
  refine ⟨h.heeds.answered ha hn, ?_, ?_, ?_⟩
  · intro hc
    rcases ha.begun with begun | rfl
    · exact absurd (begun.symm.trans hc) nofun
    · exact h.fresh hc
  · intro deadline hd start limit hb
    have hb : (W.hear c r).begun = some (start, limit) := hb
    rw [Vigil.begun_hear] at hb
    exact h.limit deadline (ha.deadline? hd) start limit hb
  · intro e he
    rcases ha.error? he with before | ⟨rfl, rfl⟩
    · rw [Call.error?_of_ask hn] at before
      cases before
    · exact Or.inl rfl

/-- **A step of another call** keeps the report in accord: the record follows the limit while the
call looks, and stays as it is once it has ended. -/
theorem other (h : Reports W p c) (hs : Call.Steps t p d p' c') :
    Reports (W.other c.deadline?.isSome d) p' c := by
  unfold Watch.other
  split
  · rename_i looking
    obtain ⟨deadline, hd⟩ := Option.isSome_iff_exists.mp looking
    have none : c.error? = none := by
      cases c with
      | freeing next | notifying next =>
        cases next with
        | fail => cases hd
        | _ => rfl
      | «over» => cases hd
      | _ => rfl
    refine ⟨h.heeds, fun hc => ?_, fun deadline hd start limit hb => ?_, fun e he => ?_⟩
    · exact absurd ((Call.begun_of_deadline? hd).symm.trans hc) nofun
    · rw [hs.waitLimit, h.limit deadline hd start limit hb, ← Option.or_assoc]
    · exact absurd (none.symm.trans he) nofun
  · rename_i still
    refine ⟨h.heeds, h.fresh, fun deadline hd => ?_, h.refused⟩
    rw [hd] at still
    exact absurd rfl still

end Reports

section

variable {i n : Nat} {l : Limits} {W W' : Watch α} {w w' : World (Pool α) (Call α)}

/-- A move keeps the report of the call in the watched place in accord with the record. -/
theorem Reports.move {m : Move (Op α) (Reply α)} {notices : List Notice}
    (h : ∀ c, w.frameAt i n = some c → Reports W w.shared c)
    (waiting : w.shared.waiting = w.total Call.waits)
    (ha : (program α).apply w m = some (w', notices)) (hn : W.note i n w m w' = some W') :
    ∀ c, w'.frameAt i n = some c → Reports W' w'.shared c := by
  cases moved ha with
  | spawn =>
    cases hn
    intro c hc
    rw [World.frameAt, World.stack_spawn] at hc
    exact h c hc
  | enter op hj =>
    cases hn
    exact World.forall_frameAt_push (I := (Reports · w.shared)) hj (fun _ _ => .start op _) h
  | @step j t c c' below p' hst steps =>
    simp only [Watch.note, hst, Option.some.injEq] at hn
    subst hn
    refine World.forall_frameAt_replace (I := (Reports · p')) hst ?_ fun c hc => ?_
    · rintro rfl rfl
      refine (h c (World.frameAt_top hst)).steps steps ?_
      rw [waiting]
      exact w.le_total Call.waits (World.mem_frames_of_stack hst)
    · rw [hc]
      exact (h c hc).other steps
  | @answer j r c c' below _ f hst hne _ answered =>
    simp only [Watch.note, hst, Option.some.injEq] at hn
    subst hn
    refine World.forall_frameAt_replace (I := (Reports · (w.shared.count f))) hst ?_
      fun c hc => (h c hc).congr rfl
    rintro rfl rfl
    exact ((h c (World.frameAt_top hst)).answered answered hne).congr rfl
  | expire hst =>
    cases hn
    exact fun c hc => (h c hc).congr rfl
  | collect hst =>
    cases hn
    exact fun c hc => h c (World.frameAt_pop hst hc)

theorem reports_of_kept
    (h : (program α).Kept (Watch.note i n) {} (World.init (.ofLimits l)) W w) :
    ∀ c, w.frameAt i n = some c → Reports W w.shared c := by
  induction h with
  | refl => exact fun c hc => absurd hc (by simp [World.frameAt, World.stack, World.init])
  | move m h ha hn ih => exact Reports.move ih (waiting_eq_total h.reach) ha hn

/-- **A refusal reports the limit of the moment.** In every world that a run from a fresh pool comes
to, a call that ends with an exhausted pool was told so by its `create` callback, or gave up by
itself. Then it began under some limit; the end of its wait came from that limit and was over when
it gave up; and it reports that limit, unless another one took effect while it was looking for a
resource: then it reports the last of these. -/
theorem reported_limit (l : Limits) {d : Duration}
    (h : (program α).Kept (Watch.note i n) {} (World.init (.ofLimits l)) W w)
    (hd : w.frameAt i n = some (.over (.failed (.exhausted d)))) :
    W.told = some (.exhausted d) ∨
    ∃ start limit deadline s, W.begun = some (start, some limit) ∧
      start.after? limit = some deadline ∧ W.last = some s ∧ deadline ≤ s.time ∧
      d = W.since.getD limit := by
  have reports := reports_of_kept h _ hd
  rcases reports.heeds.error _ rfl with told | ⟨-, start, limit, s, begun, last, -, gaveUp, -⟩
  · exact Or.inl told
  rcases reports.refused _ rfl with told | names
  · exact Or.inl told
  obtain ⟨deadline, ends, late⟩ := gaveUp.late
  exact Or.inr ⟨start, limit, deadline, s, begun, ends, last, late,
    PoolError.exhausted.inj (names start limit begun)⟩

end

/-- One call waits under a limit of three for the only resource, the limit is set to five, and the
call gives up after three. -/
def setMeanwhile : List (Move (Op Nat) (Reply Nat)) :=
  [.spawn, .enter 0 .acquire, .run 0 (.at 0), .answer 0 (.got 7), .collect 0, .spawn,
    .enter 1 .acquire, .run 1 (.at 0), .enter 0 (.setWaitLimit ⟨5⟩), .run 0 (.at 1), .expire 1,
    .run 1 (.at 3)]

theorem reported_limit_setMeanwhile : ∃ W w,
    (program Nat).keep? (Watch.note 1 0) {}
      (World.init (.ofLimits { size := 1, wait := some ⟨3⟩ })) setMeanwhile = some (W, w) ∧
    w.frameAt 1 0 = some (.over (.failed (.exhausted ⟨5⟩))) ∧ W.since = some ⟨5⟩ ∧
    ∃ start limit deadline s, W.begun = some (start, some limit) ∧
      start.after? limit = some deadline ∧ W.last = some s ∧ deadline ≤ s.time ∧
      s.time = 3 ∧ limit = ⟨3⟩ ∧ (⟨5⟩ : Duration) = W.since.getD limit := by
  have run : (program Nat).keep? (Watch.note 1 0) {}
      (World.init (.ofLimits { size := 1, wait := some ⟨3⟩ })) setMeanwhile = some (_, _) := rfl
  rcases reported_limit _ (Program.kept_of_keep? run) rfl with told | ⟨start, limit, deadline, s,
    begun, ends, last, late, named⟩
  · cases told
  · refine ⟨_, _, run, rfl, rfl, start, limit, deadline, s, begun, ends, last, late, ?_, ?_, named⟩
    · cases last
      rfl
    · cases begun
      rfl

end Lending.Pool
