import Lending.Proofs.Program
import Mathlib.Data.List.ReduceOption

/-!
# The calls under way on a thread

A frame is on a stack because somebody outside started it, or because another frame needs it. The
record kept here tells which, and what was started, frame by frame; so it also tells which calls
from outside are under way on a thread, and in which order they were made.

* `Program.calls`: the record of one thread.
* `Program.forall₂_calls`: what holds of every operation where it starts, and is kept by what it
  does, holds of every frame and the call that it was started by.
-/

namespace Lending.Program

variable {Shared Frame Op Query Reply : Type} {P : Program Shared Frame Op Query Reply}

/-- For every frame of thread `i`, innermost first: the call from outside that started it, or `none`
if another frame needs it. -/
def calls (i : Nat) (C : List (Option Op)) (w : World Shared Frame) (m : Move Op Reply)
    (w' : World Shared Frame) : Option (List (Option Op)) :=
  match m with
  | .enter j op => some (if j = i then some op :: C else C)
  | .run _ _ | .collect _ =>
    some (if (w.stack i).length < (w'.stack i).length then none :: C
      else C.drop ((w.stack i).length - (w'.stack i).length))
  | _ => some C

/-- The calls from outside that are under way, innermost first. -/
def underWay (C : List (Option Op)) : List Op := C.reduceOption

theorem mem_underWay {C : List (Option Op)} {op : Op} : op ∈ underWay C ↔ some op ∈ C :=
  List.reduceOption_mem_iff

/-- What is on one side of a pairing has its other half. -/
theorem exists_of_forall₂ {α β : Type} {A : α → β → Prop} {as : List α} {bs : List β}
    (h : List.Forall₂ A as bs) {a : α} (ha : a ∈ as) : ∃ b ∈ bs, A a b := by
  induction h with
  | nil => exact absurd ha List.not_mem_nil
  | cons top _ ih =>
    rcases List.mem_cons.mp ha with rfl | ha
    · exact ⟨_, List.mem_cons_self, top⟩
    · obtain ⟨b, hb, pair⟩ := ih ha
      exact ⟨b, List.mem_cons_of_mem _ hb, pair⟩

/-- **What a frame is for.** -/
theorem forall₂_calls {A : Option Op → Frame → Prop} {i : Nat} {s₀ : Shared}
    {C : List (Option Op)} {w : World Shared Frame}
    (start : ∀ op, A (some op) (P.start op))
    (sub : ∀ {c s f g}, A c f → P.need s f = .sub g → A none g)
    (step : ∀ {c t s f s' f' notices}, A c f → P.need s f = .step →
      P.step t s f = (s', f', notices) → A c f')
    (hear : ∀ {c s f r s' f' notices}, A c f →
      ((∃ q, P.need s f = .ask q) ∨ ∃ g, P.need s f = .sub g) →
      P.resume s f r = (s', f', notices) → A c f')
    (h : P.Kept (calls i) [] (World.init s₀) C w) : List.Forall₂ A C (w.stack i) := by
  induction h with
  | refl => exact .nil
  | @move C C' w w' m _ _ ha hn ih =>
    -- Where another thread moves, nothing comes on the stack of thread `i` or goes.
    have aside : ∀ {j s fs}, j ≠ i → List.Forall₂ A
        (if (w.stack i).length < ((w.update j s fs).stack i).length then none :: C
          else C.drop ((w.stack i).length - ((w.update j s fs).stack i).length))
        ((w.update j s fs).stack i) := by
      intro j s fs hji
      rw [World.stack_update_ne (Ne.symm hji), if_neg (Nat.lt_irrefl _), Nat.sub_self]
      exact ih
    cases effect_of_apply ha with
    | spawn =>
      cases hn
      rw [World.stack_spawn]
      exact ih
    | @enter j op hj _ =>
      cases hn
      by_cases hji : j = i
      · subst hji
        rw [if_pos rfl, World.stack_update_self hj]
        exact .cons (start op) ih
      · rw [if_neg hji, World.stack_update_ne (Ne.symm hji)]
        exact ih
    | @step j t f f' below s _ hs hne he =>
      cases hn
      by_cases hji : j = i
      · subst hji
        rw [hs] at ih
        rw [World.stack_update_self (World.lt_length_of_stack hs), hs]
        cases ih with
        | cons top rest =>
          rw [if_neg (by simp)]
          simpa using ⟨step top hne he, rest⟩
      · exact aside hji
    | @descend j t f g below hs hne =>
      cases hn
      by_cases hji : j = i
      · subst hji
        rw [hs] at ih
        rw [World.stack_update_self (World.lt_length_of_stack hs), hs]
        cases ih with
        | cons top rest =>
          rw [if_pos (by simp)]
          exact .cons (sub top hne) (.cons top rest)
      · exact aside hji
    | @ascend j t f g g' x rest r s _ hs hne hg he =>
      cases hn
      by_cases hji : j = i
      · subst hji
        rw [hs] at ih
        rw [World.stack_update_self (World.lt_length_of_stack hs), hs]
        cases ih with
        | cons top ih =>
          cases ih with
          | cons second rest =>
            rw [if_neg (by simp)]
            simpa using ⟨hear second (Or.inr ⟨x, hg⟩) he, rest⟩
      · exact aside hji
    | @answer j r f f' below q s _ hs hne he =>
      cases hn
      by_cases hji : j = i
      · subst hji
        rw [hs] at ih
        rw [World.stack_update_self (World.lt_length_of_stack hs)]
        cases ih with
        | cons top rest => exact .cons (hear top (Or.inl ⟨q, hne⟩) he) rest
      · rw [World.stack_update_ne (Ne.symm hji)]
        exact ih
    | expire hs ht =>
      cases hn
      exact ih
    | @collect j f below r hs hne =>
      cases hn
      by_cases hji : j = i
      · subst hji
        rw [hs] at ih
        rw [World.stack_update_self (World.lt_length_of_stack hs), hs]
        cases ih with
        | cons top rest =>
          rw [if_neg (by simp)]
          simpa using rest
      · exact aside hji

end Lending.Program
