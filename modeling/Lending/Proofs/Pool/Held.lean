import Lending.Pool.Held
import Lending.Proofs.Pool.Call

/-!
# The transitions of a pool with references

* `Frame.Steps`: what an operation on a pool with references does next (`steps`). It is a step of
  the pool's call, or what happens to the references when the operation begins.
* `Frame.exists_answered`: an answer goes to a call of the pool.
* `Moved`: what a move does to a world of such operations (`moved`).
-/

namespace Lending.Pool.Held

variable {α : Type}

namespace Frame

/-- One step of an operation that needs nothing. -/
inductive Steps (m : Moment) (s : Held α) : Frame α → Held α → Frame α → Prop
  /-- Nobody refers to the pool any more, and there is nothing to operate on. -/
  | dead (op : Op α) (ha : s.alive = false) : Steps m s (.start op) s (.call (.over .done))
  | call (op : Pool.Op α) (ha : s.alive = true) :
      Steps m s (.start (.call op)) { s with keepers := s.keepers + 1 } (.call (.start op))
  | hold (ha : s.alive = true) :
      Steps m s (.start .hold) { s with keepers := s.keepers + 1 } (.call (.over .done))
  | leave (ha : s.alive = true) (hk : s.keepers ≠ 1) :
      Steps m s (.start .leave) { s with keepers := s.keepers - 1 } (.call (.over .done))
  /-- The last reference goes, and the pool with it. -/
  | last (hk : s.keepers = 1) :
      Steps m s (.start .leave) { s with keepers := s.keepers - 1 } (.call .teardown)
  | inner {x x' : Call α} {p' : Pool α} (h : Call.Steps m s.pool x p' x') :
      Steps m s (.call x) { s with pool := p' } (.call x')

/-- **What an operation that needs nothing does.** -/
theorem steps {m : Moment} {s s' : Held α} {f f' : Frame α} {notices : List Notice}
    (hn : f.need s = .step) (h : f.step m s = (s', f', notices)) : Steps m s f s' f' := by
  cases f with
  | start op =>
    obtain ⟨rfl, rfl⟩ : (begin s op).1 = s' ∧ (begin s op).2 = f' := by
      simp only [step, Prod.mk.injEq] at h
      exact ⟨h.1, h.2.1⟩
    unfold begin
    split
    · rename_i ha
      cases op with
      | call op => exact .call op ha
      | hold => exact .hold ha
      | leave =>
        by_cases hk : s.keepers = 1
        · simp only [if_pos hk]
          exact .last hk
        · simp only [if_neg hk]
          exact .leave ha hk
    · rename_i ha
      exact .dead op (by simpa using ha)
  | call x =>
    cases h
    refine .inner (Call.steps ?_ rfl)
    simp only [need] at hn
    cases hx : x.need s.pool with
    | step => rfl
    | sub g => exact absurd hx (Call.need_ne_sub _ _ _)
    | ask | wait | «over» => rw [hx] at hn; exact absurd hn nofun

/-- An answer goes to a call of the pool, and changes nothing of the pool but its counters. -/
theorem exists_answered {s s' : Held α} {f f' : Frame α} {q : Query α} {r : Reply α}
    {notices : List Notice} (hn : f.need s = .ask q) (h : f.resume s r = (s', f', notices)) :
    ∃ c c' count, f = .call c ∧ f' = .call c' ∧ s' = { s with pool := s.pool.count count } ∧
      c.need s.pool = .ask q ∧ Call.Answered c r c' := by
  cases f with
  | start op => exact absurd hn nofun
  | call c =>
    cases h
    obtain ⟨count, hp⟩ := Call.exists_resume_eq_count (p := s.pool) (c := c) (r := r) rfl
    refine ⟨c, _, count, rfl, rfl, by rw [hp], ?_, Call.answered (p := s.pool) rfl⟩
    simp only [need] at hn
    cases hc : c.need s.pool with
    | ask q' =>
      rw [hc] at hn
      cases hn
      rfl
    | step | sub | wait | «over» => rw [hc] at hn; exact absurd hn nofun

/-- Only a call of the pool ends. -/
theorem exists_over {s : Held α} {f : Frame α} {r : Reply α} (hn : f.need s = .over r) :
    ∃ c, f = .call c ∧ c.need s.pool = .over r := by
  cases f with
  | start op => exact absurd hn nofun
  | call c =>
    refine ⟨c, rfl, ?_⟩
    simp only [need] at hn
    cases hc : c.need s.pool with
    | «over» r' =>
      rw [hc] at hn
      cases hn
      rfl
    | step | sub | ask | wait => rw [hc] at hn; exact absurd hn nofun

end Frame

/-- No operation needs another operation of the program. -/
theorem program_flat : (program α).Flat := by
  intro s f g hn
  cases f with
  | start op => exact absurd hn nofun
  | call x =>
    have hn : Frame.need s (.call x) = .sub g := hn
    simp only [Frame.need] at hn
    cases hx : x.need s.pool with
    | step | sub | ask | wait | «over» => rw [hx] at hn; exact absurd hn nofun

/-- What a move does to a world of operations. -/
inductive Moved (w : World (Held α) (Frame α)) :
    Move (Op α) (Reply α) → World (Held α) (Frame α) → Prop
  | spawn : Moved w .spawn ⟨w.shared, w.threads ++ [[]]⟩
  | enter {i : Nat} (op : Op α) (hi : i < w.threads.length) :
      Moved w (.enter i op) (w.update i w.shared (.start op :: w.stack i))
  | step {i : Nat} {moment : Moment} {f f' : Frame α} {below : List (Frame α)} {s' : Held α}
      (hs : w.stack i = f :: below) (hn : f.need w.shared = .step)
      (h : Frame.Steps moment w.shared f s' f') :
      Moved w (.run i moment) (w.update i s' (f' :: below))
  | answer {i : Nat} {reply : Reply α} {c c' : Call α} {below : List (Frame α)} {q : Query α}
      {count : Counters → Counters} (hs : w.stack i = .call c :: below)
      (hn : c.need w.shared.pool = .ask q) (h : Call.Answered c reply c') :
      Moved w (.answer i reply)
        (w.update i { w.shared with pool := w.shared.pool.count count } (.call c' :: below))
  | expire {i ticket : Nat} {deadline : Option Instant} {below : List (Frame α)}
      (hs : w.stack i = .call (.parked ticket deadline) :: below) :
      Moved w (.expire i) ⟨{ w.shared with pool := w.shared.pool.unpark ticket }, w.threads⟩
  | collect {i : Nat} {reply : Reply α} {below : List (Frame α)}
      (hs : w.stack i = .call (.over reply) :: below) :
      Moved w (.collect i) (w.update i w.shared below)

/-- **What a move does**, in the terms of the operations it moves. -/
theorem moved {w w' : World (Held α) (Frame α)} {m : Move (Op α) (Reply α)}
    {notices : List Notice} (h : (program α).apply w m = some (w', notices)) : Moved w m w' := by
  cases Program.effect_of_apply h with
  | spawn => exact .spawn
  | enter op hi _ => exact .enter op hi
  | step hs hn he => exact .step hs hn (Frame.steps hn he)
  | descend hs hn => exact absurd hn (program_flat _ _ _)
  | ascend hs _ hg => exact absurd hg (program_flat _ _ _)
  | answer hs hn he =>
    obtain ⟨c, c', count, rfl, rfl, rfl, asked, answered⟩ := Frame.exists_answered hn he
    exact .answer hs asked answered
  | @expire i f below t hs ht =>
    cases f with
    | start op => exact absurd ht nofun
    | call c =>
      cases c with
      | parked ticket deadline => exact .expire hs
      | _ => exact absurd ht nofun
  | collect hs hn =>
    obtain ⟨c, rfl, ended⟩ := Frame.exists_over hn
    obtain rfl := Call.eq_over_of_need ended
    exact .collect hs

end Lending.Pool.Held
