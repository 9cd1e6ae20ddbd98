import Lending.Proofs.Program

/-!
# What is seen of one place

An operation keeps its place on its thread until its result is taken, whatever else runs on the
thread above it and on other threads. A record of a place is about the operation that stands there:
it starts afresh with each one that comes to the place, and is told its steps and what it hears.

* `Program.Scribe`: how such a record is kept, and `Program.watch`, the record along a run.
* `Program.watched`: what each step and each reply keeps of a frame and its record holds of them in
  every run. What others do does not matter, since it touches neither.
-/

namespace Lending.Program

variable {Shared Frame Op Query Reply Record : Type}

/-- How a record of one operation is kept. -/
structure Scribe (Shared Frame Reply Record : Type) where
  /-- Nothing has been seen yet. -/
  fresh : Record
  /-- A step, with the shared state before and after. -/
  step  : Record → Moment → Shared → Frame → Shared → Record
  /-- A result or an answer that the operation goes on with. -/
  hear  : Record → Shared → Frame → Reply → Record

/-- The record of the operation in place `n` of thread `i`. -/
def watch (P : Program Shared Frame Op Query Reply) (S : Scribe Shared Frame Reply Record)
    (i n : Nat) (R : Record) (w : World Shared Frame) (m : Move Op Reply)
    (w' : World Shared Frame) : Option Record :=
  match m with
  | .enter j _ => some (if j = i ∧ (w.stack j).length = n then S.fresh else R)
  | .run j t =>
    match w.stack j with
    | [] => some R
    | f :: below =>
      match P.need w.shared f with
      | .step => some (if j = i ∧ below.length = n then S.step R t w.shared f w'.shared else R)
      | .sub _ => some (if j = i ∧ (w.stack j).length = n then S.fresh else R)
      | .over r =>
        match below with
        | g :: rest => some (if j = i ∧ rest.length = n then S.hear R w.shared g r else R)
        | [] => some R
      | _ => some R
  | .answer j r =>
    match w.stack j with
    | f :: below => some (if j = i ∧ below.length = n then S.hear R w.shared f r else R)
    | [] => some R
  | _ => some R

/-- What holds of every operation that starts, and what each step and each reply keep, holds of the
operation in a place and its record. -/
theorem watched {P : Program Shared Frame Op Query Reply} {S : Scribe Shared Frame Reply Record}
    {I : Record → Frame → Prop} {i n : Nat} {s₀ : Shared} {R : Record} {w : World Shared Frame}
    (start : ∀ op, I S.fresh (P.start op))
    (sub : ∀ {w f g}, P.Reach (World.init s₀) w → f ∈ w.frames → P.need w.shared f = .sub g →
      I S.fresh g)
    (step : ∀ {w R t f s' f' notices}, P.Reach (World.init s₀) w → f ∈ w.frames → I R f →
      P.need w.shared f = .step → P.step t w.shared f = (s', f', notices) →
      I (S.step R t w.shared f s') f')
    (hear : ∀ {w R f r s' f' notices}, P.Reach (World.init s₀) w → f ∈ w.frames → I R f →
      ((∃ q, P.need w.shared f = .ask q) ∨ ∃ g, P.need w.shared f = .sub g) →
      P.resume w.shared f r = (s', f', notices) → I (S.hear R w.shared f r) f')
    (h : P.Kept (P.watch S i n) S.fresh (World.init s₀) R w) :
    ∀ f, w.frameAt i n = some f → I R f := by
  induction h with
  | refl => exact fun f hf => absurd hf (by simp [World.frameAt, World.stack, World.init])
  | @move R R' w w' m notices h ha hn ih =>
    cases effect_of_apply ha with
    | spawn =>
      cases hn
      intro f hf
      rw [World.frameAt, World.stack_spawn] at hf
      exact ih f hf
    | enter op hj _ =>
      cases hn
      exact World.forall_frameAt_push (I := I) hj (fun _ _ => start op) ih
    | @step j t f f' below s' _ hst hne he =>
      simp only [watch, hst, hne, Option.some.injEq] at hn
      subst hn
      refine World.forall_frameAt_replace (I := I) hst ?_ ih
      rintro rfl rfl
      exact step h.reach (World.mem_frames_of_stack hst) (ih f (World.frameAt_top hst)) hne he
    | @descend j t f g below hst hne =>
      simp only [watch, hst, hne, Option.some.injEq] at hn
      subst hn
      rw [← hst]
      exact World.forall_frameAt_push (I := I) (World.lt_length_of_stack hst)
        (fun _ _ => sub h.reach (World.mem_frames_of_stack hst) hne) ih
    | @ascend j t f g g' y rest r s' _ hst hne hg he =>
      simp only [watch, hst, hne, Option.some.injEq] at hn
      subst hn
      have mem : g ∈ w.frames := World.mem_frames_of_below hst List.mem_cons_self
      have second : (w.update j w.shared (g :: rest)).stack j = g :: rest :=
        World.stack_update_self (World.lt_length_of_stack hst) ..
      have below : ∀ f, (w.update j w.shared (g :: rest)).frameAt i n = some f → I R f :=
        fun f hf => ih f (World.frameAt_pop hst hf)
      rw [← World.update_update w.shared s' (g :: rest) (g' :: rest)]
      refine World.forall_frameAt_replace (I := I) second ?_ below
      rintro rfl rfl
      exact hear h.reach mem (below g (World.frameAt_top second)) (Or.inr ⟨y, hg⟩) he
    | @answer j r f f' below q s' _ hst hne he =>
      simp only [watch, hst, Option.some.injEq] at hn
      subst hn
      refine World.forall_frameAt_replace (I := I) hst ?_ ih
      rintro rfl rfl
      exact hear h.reach (World.mem_frames_of_stack hst) (ih f (World.frameAt_top hst))
        (Or.inl ⟨q, hne⟩) he
    | expire hst ht =>
      cases hn
      exact ih
    | collect hst hne =>
      cases hn
      exact fun f hf => ih f (World.frameAt_pop hst hf)

end Lending.Program
