import Lending.Proofs.Pool.Balance

/-!
# No more resources than are needed

A resource is made only where none is idle, and the slot for it is taken in the same critical
section that found none. So as long as no resource goes, and none fails to be made, slots are only
ever added while all of them are in use: their number is the highest number ever in use at once.

A `Demand` record counts how often a resource was asked for, and keeps the most slots that were in
use at once. `Demand.note` objects to what takes a slot back (`forgoes`); callers and callbacks are
bound to nothing else, and the limit may change at any time.

* `Steps.reserves`: the making of a resource starts where none is idle, in a slot taken for it.
* `Steps.allocated_of_ne`: no other step takes a slot.
* `made_as_needed`: so the resources asked for, the slots, and the peak of use are one number.

In these runs `create` is called lazily: never while something is idle, and never more often than
resources were in use at one time. A caller that finds nothing idle while another one is about to
`release` does make a resource; that the peak counts both is what makes the law exact.
-/

namespace Lending.Pool

variable {α : Type}

namespace Call

/-- Whether a call is at a point where it gives up a slot, or is bound to come to one. -/
def parts : Call α → Bool
  | .start (.discard _) | .evictingStale _ _ | .freeing _ => true
  | _ => false

variable {m : Moment} {p p' : Pool α} {c c' : Call α} {r : Reply α}

/-- A call that does not part with its slot gives up those of surplus and of idle resources only. -/
theorem surrenders_of_not_parts (hc : c.parts = false) :
    c.surrenders p = c.overflows p + c.sweeps p := by
  cases c with
  | freeing next => cases hc
  | start op =>
    cases op with
    | removeIdle => exact (Nat.zero_add _).symm
    | _ => rfl
  | _ => rfl

/-- Only an answer brings a call to such a point. -/
theorem Steps.parts (h : Steps m p c p' c') : c'.parts = false := by
  cases h with
  | acquire h | retry h | woken _ h => cases h <;> rfl
  | notify next => cases next <;> rfl
  | free | surplus | putBack | nothingIdle | drain | wakeDrained | grow | shrink | wakeGrown
  | setWaitLimit | nothingLeft | closeDown => rfl

/-- An answer brings a call to such a point by a verdict, a failure or a raise. -/
theorem Answered.parts (h : Answered c r c') (hc : c.parts = false) (stale : r ≠ .verdict true)
    (failed : ∀ e, r ≠ .failed e) (raised : ∀ message, r ≠ .raised message) :
    c'.parts = false := by
  cases h with
  | stale => exact absurd rfl stale
  | notCreated => exact absurd rfl (failed _)
  | checkRaised | staleRaised | createRaised | dropRaised | discardRaised | surplusRaised
  | evictRaised | abandonRaised => exact absurd rfl (raised _)
  | staleEvicted | discarded => cases hc
  | evicted _ rest => cases rest <;> rfl
  | abandoned _ rest => cases rest <;> rfl
  | unasked => exact hc
  | fresh | created | dropped | surplusEvicted => rfl

/-- **The making of a resource starts only where none is idle**, in a slot taken for it. -/
theorem Steps.reserves (h : Steps m p c p' c') (hc : c' = .creating) :
    p.idle = [] ∧ p'.idle = [] ∧ p'.allocated = p.allocated + 1 := by
  cases h with
  | acquire h | retry h | woken _ h =>
    cases h with
    | reserved hi hr => exact ⟨hi, hi, rfl⟩
    | took | expired | parked => cases hc
  | notify next => cases next <;> cases hc
  | free | surplus | putBack | nothingIdle | drain | wakeDrained | grow | shrink | wakeGrown
  | setWaitLimit | nothingLeft | closeDown => cases hc

/-- No other step takes a slot. -/
theorem Steps.allocated_of_ne (h : Steps m p c p' c') (hc : c' ≠ .creating) :
    p'.allocated = p.allocated - c.surrenders p := by
  cases h with
  | acquire h | retry h | woken _ h =>
    cases h with
    | reserved => exact absurd rfl hc
    | took | expired | parked => rfl
  | surplus r ho | putBack r ho => simp [surrenders, ho]
  | nothingIdle hi => simp [surrenders, hi]
  | free | notify | drain | wakeDrained | grow | shrink | wakeGrown | setWaitLimit | nothingLeft
  | closeDown => rfl

end Call

/-! ## The record -/

/-- Whether a move is one by which a resource goes, or fails to be made: it is discarded, found
stale, above the limit when it comes back, or removed while idle; or a callback fails or raises. -/
def forgoes (w : World (Pool α) (Call α)) : Move (Op α) (Reply α) → Bool
  | .enter _ (.discard _) => true
  | .answer _ (.verdict true) | .answer _ (.failed _) | .answer _ (.raised _) => true
  | .run i _ =>
    match w.stack i with
    | c :: _ => c.overflows w.shared + c.sweeps w.shared != 0
    | [] => false
  | _ => false

/-- Whether a move to this world starts the making of a resource. -/
def asksFor (w' : World (Pool α) (Call α)) : Move (Op α) (Reply α) → Nat
  | .run i _ =>
    match (program α).status w' i with
    | .asking .create => 1
    | _ => 0
  | _ => 0

/-- What is recorded of the demand for resources. -/
structure Demand where
  /-- How often the making of a resource has started. -/
  asked : Nat := 0
  /-- The most slots whose resource was in use at one moment. -/
  peak  : Nat := 0

/-- A move is written down; one by which a resource goes, or fails to be made, is objected to. -/
def Demand.note (D : Demand) (w : World (Pool α) (Call α)) (m : Move (Op α) (Reply α))
    (w' : World (Pool α) (Call α)) : Option Demand :=
  if forgoes w m then none
  else some { asked := D.asked + asksFor w' m, peak := max D.peak w'.shared.active }

theorem Demand.of_note {D D' : Demand} {w w' : World (Pool α) (Call α)}
    {m : Move (Op α) (Reply α)} (h : D.note w m w' = some D') :
    forgoes w m = false ∧
      D' = { asked := D.asked + asksFor w' m, peak := max D.peak w'.shared.active } := by
  unfold note at h
  split at h
  · cases h
  · rename_i kept
    cases h
    exact ⟨by simpa using kept, rfl⟩

section

variable {w' : World (Pool α) (Call α)} {i : Nat} {moment : Moment} {c : Call α}
  {below : List (Call α)}

theorem asksFor_creating (hs : w'.stack i = c :: below) (hc : c = .creating) :
    asksFor w' (.run i moment) = 1 := by
  subst hc
  simp only [asksFor, Program.status_of_ask hs (P := program α) rfl]

theorem eq_creating_of_asking (hs : w'.stack i = c :: below)
    (ha : (program α).status w' i = .asking .create) : c = .creating := by
  have hn : c.need w'.shared = .ask .create := Program.need_of_asking hs ha
  cases c with
  | creating => rfl
  | start op => cases op <;> cases hn
  | parked ticket deadline =>
    simp only [Call.need] at hn
    split at hn <;> cases hn
  | _ => cases hn

theorem asksFor_of_ne (hs : w'.stack i = c :: below) (hc : c ≠ .creating) :
    asksFor w' (.run i moment) = 0 := by
  have still : (program α).status w' i ≠ .asking .create :=
    fun ha => hc (eq_creating_of_asking hs ha)
  simp only [asksFor]

end

/-- As many slots are taken as resources were asked for, and as were in use at once. -/
structure Demanded (D : Demand) (w : World (Pool α) (Call α)) : Prop where
  asked : D.asked = w.shared.allocated
  peak  : D.peak = w.shared.allocated
  /-- No call is bound to give up a slot. -/
  kept  : ∀ c ∈ w.frames, c.parts = false

namespace Demanded

variable {D D' : Demand} {w w' : World (Pool α) (Call α)}

/-- **A move keeps the three numbers equal.** -/
theorem move {m : Move (Op α) (Reply α)} {notices : List Notice} (h : Demanded D w)
    (ha : (program α).apply w m = some (w', notices)) (hn : D.note w m w' = some D') :
    Demanded D' w' := by
  obtain ⟨kept, rfl⟩ := Demand.of_note hn
  obtain ⟨asked, peak, intact⟩ := h
  -- what is in use never exceeds the slots
  have still : w'.shared.allocated = w.shared.allocated →
      max D.peak w'.shared.active = w'.shared.allocated := by
    intro same
    have : w'.shared.active ≤ w'.shared.allocated := Nat.sub_le ..
    omega
  cases moved ha with
  | spawn => exact ⟨asked, still rfl, by simpa using intact⟩
  | enter op hi =>
    refine ⟨asked, still rfl, World.forall_frames_update intact [] ?_ rfl⟩
    cases op with
    | discard r => cases kept
    | acquire | release | removeIdle | resize | setWaitLimit => rfl
  | @step i moment c c' below p' hst steps =>
    have hst' := World.stack_update_self (World.lt_length_of_stack hst) p' (c' :: below)
    have taken : c.overflows w.shared + c.sweeps w.shared = 0 := by
      simpa [forgoes, hst] using kept
    have whole := intact c (World.mem_frames_of_stack hst)
    have intact' := World.forall_frames_update (s := p') intact [c] steps.parts hst
    by_cases made : c' = .creating
    · obtain ⟨-, none, one⟩ := steps.reserves made
      refine ⟨?_, ?_, intact'⟩
      · rw [asksFor_creating hst' made, asked]
        exact one.symm
      · show max D.peak p'.active = p'.allocated
        have : p'.active = p'.allocated := by simp [Pool.active, none]
        omega
    · have same : p'.allocated = w.shared.allocated := by
        rw [steps.allocated_of_ne made, Call.surrenders_of_not_parts whole, taken, Nat.sub_zero]
      refine ⟨?_, still same, intact'⟩
      rw [asksFor_of_ne hst' made, asked]
      exact same.symm
  | @answer i r c c' below _ f hst _ _ answered =>
    refine ⟨asked, still rfl, World.forall_frames_update intact [c] ?_ hst⟩
    have whole := intact c (World.mem_frames_of_stack hst)
    refine answered.parts whole ?_ ?_ ?_
    · rintro rfl
      cases kept
    · rintro e rfl
      cases kept
    · rintro message rfl
      cases kept
  | expire hst => exact ⟨asked, still rfl, intact⟩
  | collect hst => exact ⟨asked, still rfl, World.forall_frames_pop intact hst⟩

theorem of_kept {l : Limits}
    (h : (program α).Kept Demand.note {} (World.init (.ofLimits l)) D w) : Demanded D w := by
  induction h with
  | refl => exact ⟨rfl, rfl, nofun⟩
  | move m _ ha hn ih => exact ih.move ha hn

end Demanded

/-- **Resources are made as they are needed.** In every world that a run from a fresh pool comes to,
if no resource went and none failed to be made:

* the making of a resource was started as often as there are slots taken, and as there were slots
  in use at once at most;
* and it is only started where nothing is idle and every slot is in use. -/
theorem made_as_needed (l : Limits) {D : Demand} {w : World (Pool α) (Call α)}
    (h : (program α).Kept Demand.note {} (World.init (.ofLimits l)) D w) :
    D.asked = w.shared.allocated ∧ D.asked = D.peak ∧
    ∀ i moment w' notices, (program α).apply w (.run i moment) = some (w', notices) →
      (program α).status w' i = .asking .create →
        w.shared.idle = [] ∧ w.shared.active = w.shared.allocated ∧
          w'.shared.active = D.peak + 1 := by
  obtain ⟨asked, peak, intact⟩ := Demanded.of_kept h
  refine ⟨asked, asked.trans peak.symm, ?_⟩
  intro i moment w' notices ha asking
  cases Program.effect_of_apply ha with
  | @step _ _ c c' below p' _ hst hne he =>
    have hst' := World.stack_update_self (World.lt_length_of_stack hst) p' (c' :: below)
    obtain ⟨none, none', one⟩ := (Call.steps hne he).reserves (eq_creating_of_asking hst' asking)
    refine ⟨none, ?_, ?_⟩
    · simp [Pool.active, none]
    · show p'.active = D.peak + 1
      simp only [Pool.active, none', List.length_nil]
      omega
  | descend hst hne => exact absurd hne (program_flat _ _ _)
  | ascend hst _ hg => exact absurd hg (program_flat _ _ _)

/-- Two callers have a resource each, one gives its own back, and the next caller gets that one. -/
def twoAtOnce : List (Move (Op Nat) (Reply Nat)) :=
  [.spawn, .enter 0 .acquire, .run 0 (.at 0), .answer 0 (.got 7), .collect 0,
    .enter 0 .acquire, .run 0 (.at 0), .answer 0 (.got 8), .collect 0,
    .enter 0 (.release 7), .run 0 (.at 0), .run 0 (.at 0), .collect 0,
    .enter 0 (.resize 1), .run 0 (.at 0), .collect 0,
    .enter 0 .acquire, .run 0 (.at 0), .answer 0 (.verdict false), .collect 0]

theorem made_as_needed_twoAtOnce : ∃ w,
    (program Nat).keep? Demand.note {} (World.init (.ofLimits {})) twoAtOnce =
      some ({ asked := 2, peak := 2 }, w) ∧ 2 = w.shared.allocated ∧
    ∀ i moment w' notices, (program Nat).apply w (.run i moment) = some (w', notices) →
      (program Nat).status w' i = .asking .create →
        w.shared.idle = [] ∧ w.shared.active = w.shared.allocated ∧ w'.shared.active = 2 + 1 := by
  have run : (program Nat).keep? Demand.note {} (World.init (.ofLimits {})) twoAtOnce =
      some ({ asked := 2, peak := 2 }, _) := rfl
  obtain ⟨asked, -, starts⟩ := made_as_needed {} (Program.kept_of_keep? run)
  exact ⟨_, run, asked, starts⟩

end Lending.Pool
