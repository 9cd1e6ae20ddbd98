import Lending.Proofs.Place
import Lending.Proofs.Pool.Acquire
import Lending.Proofs.Pool.Live
import Lending.Proofs.Pool.Refusal

/-!
# How far a clearing gets

`removeIdle` and the end of a pool take all idle resources in one critical section, and then tear
them down one by one, outside of it. A teardown that raises ends that: what is left in the hands of
the call goes with it and is never torn down. So a raise is the end of more than the resource it is
about.

A `Clearance` is a record of the call in one place, whatever else runs meanwhile, other clearings of
the same pool among it.

* `Clears`: how far the call in the place is, with one constructor for each point it can be at
  (`Clears.steps`, `Clears.answered`).
* `Cleared`: what this means for the resources taken. They are torn down in order, all of them as
  long as nothing raises; the first that raises is the last, and those after it are let go.
* `removeIdle_alone`, `teardown_alone`: a clearing that is left alone does come to its end.

The calls are `remove_idle` and the drop of a pool. Both go through a list that they have drained,
with no guard for the elements behind the one being torn down: on the way of a raise those are
dropped, which is not a call of `on_evict`.
-/

namespace Lending.Pool

variable {α : Type}

namespace Call

/-- Whether the next step of a call takes all idle resources, to tear them down. -/
def clears : Call α → Bool
  | .start .removeIdle | .teardown => true
  | _ => false

/-- Whether a call has resources in its hands that it took to tear them down. -/
def clearing : Call α → Bool
  | .drained _ _ | .evicting _ _ _ | .abandoning _ _ _ => true
  | _ => false

theorem clearing_of_begun {c : Call α} (h : c.begun = false) : c.clearing = false := by
  cases c with
  | start | teardown => rfl
  | _ => cases h

theorem clearing_ofThen (next : Then α) : (ofThen next).clearing = false := by
  cases next <;> rfl

end Call

theorem Looked.clearing {p p' : Pool α} {deadline : Option Instant} {now : Instant} {c' : Call α}
    (h : Looked p deadline now p' c') : c'.clearing = false := by
  cases h <;> rfl

/-! ## The record -/

/-- What is seen of a call that tears down idle resources. -/
structure Clearance (α : Type) where
  /-- The step that took them. -/
  took : Option (Taken α) := none
  /-- The resources torn down so far, in order, and how each teardown raised, if it did. -/
  torn : List (α × Option String) := []
  /-- The resources let go since one raised. -/
  lost : List α := []

namespace Clearance

/-- A step of the call is written down, if it takes the idle resources. -/
def step (L : Clearance α) (t : Moment) (p : Pool α) (c : Call α) (p' : Pool α) : Clearance α :=
  if c.clears then { L with took := some ⟨t.check, p, c, p'⟩ } else L

/-- An answer to the call is written down, if it is about one of the resources taken. -/
def hear (L : Clearance α) : Call α → Reply α → Clearance α
  | .evicting x _ _, .done => { L with torn := L.torn ++ [(x, none)] }
  | .evicting x _ _, .raised message => { L with torn := L.torn ++ [(x, some message)] }
  | .abandoning x _ _, .done | .abandoning x _ _, .raised _ => { L with lost := L.lost ++ [x] }
  | _, _ => L

theorem hear_of_not_takes {L : Clearance α} {c : Call α} {r : Reply α} (h : c.takes r = false) :
    L.hear c r = L := by
  cases c with
  | evicting | abandoning => cases r <;> first | rfl | cases h
  | _ => rfl

end Clearance

/-- Resources whose teardown did not raise. -/
def unraised (rs : List α) : List (α × Option String) := rs.map fun r => (r, none)

theorem unraised_append (rs : List α) (r : α) :
    unraised rs ++ [(r, none)] = unraised (rs ++ [r]) := by
  rw [unraised, unraised, List.map_append]
  rfl

theorem map_fst_unraised (rs : List α) : (unraised rs).map Prod.fst = rs := by
  rw [unraised, List.map_map]
  exact List.map_id _

/-- The step left nothing idle; the slots of what was idle went with it, unless the pool does. -/
structure Empties (t : Taken α) : Prop where
  idle    : t.after.idle = []
  removed : t.call = .start .removeIdle →
    t.after.allocated = t.before.allocated - t.before.idle.length
  ended   : t.call ≠ .start .removeIdle →
    t.call = .teardown ∧ t.after.allocated = t.before.allocated

namespace Empties

variable {time : Instant} {p p' : Pool α}

theorem removeIdle (idle : p'.idle = []) (allocated : p'.allocated = p.allocated - p.idle.length) :
    Empties ⟨time, p, .start .removeIdle, p'⟩ := ⟨idle, fun _ => allocated, fun hc => absurd rfl hc⟩

theorem teardown (idle : p'.idle = []) (allocated : p'.allocated = p.allocated) :
    Empties ⟨time, p, .teardown, p'⟩ := ⟨idle, nofun, fun _ => ⟨rfl, allocated⟩⟩

end Empties

/-- How far a call is, with what was seen of it. -/
inductive Clears : Clearance α → Call α → Prop
  /-- It has taken nothing. -/
  | other {c : Call α} (h : c.clearing = false) : Clears {} c
  /-- It is about to wake everybody. -/
  | drained {t : Taken α} {x : α} {rest : List α} (ht : Empties t)
      (hq : t.before.idle = x :: rest) :
      Clears { took := some t } (.drained x rest)
  /-- The next one is being torn down. -/
  | evicting {t : Taken α} {torn rest : List α} {x : α} {counted : Bool} (ht : Empties t)
      (hq : t.before.idle = torn ++ x :: rest) :
      Clears { took := some t, torn := unraised torn } (.evicting x rest counted)
  | done {t : Taken α} {torn : List α} (ht : Empties t) (hq : t.before.idle = torn) :
      Clears { took := some t, torn := unraised torn } (.over .done)
  /-- The teardown of `y` raised, and what is left is being let go. -/
  | abandoning {t : Taken α} {torn lost rest : List α} {x y : α} {message : String} (ht : Empties t)
      (hq : t.before.idle = torn ++ y :: (lost ++ x :: rest)) :
      Clears ⟨some t, unraised torn ++ [(y, some message)], lost⟩ (.abandoning x rest message)
  | raised {t : Taken α} {torn lost : List α} {y : α} {message : String} (ht : Empties t)
      (hq : t.before.idle = torn ++ y :: lost) :
      Clears ⟨some t, unraised torn ++ [(y, some message)], lost⟩ (.over (.raised message))
  /-- Letting one go raised as well. -/
  | aborted {t : Taken α} {torn lost rest : List α} {y : α} {message : String} (ht : Empties t)
      (hq : t.before.idle = torn ++ y :: (lost ++ rest)) :
      Clears ⟨some t, unraised torn ++ [(y, some message)], lost⟩ .aborted

namespace Clears

variable {L : Clearance α} {t : Moment} {p p' p'' : Pool α} {c c' : Call α} {r : Reply α}

theorem start (h : c.begun = false) : Clears {} c := .other (Call.clearing_of_begun h)

/-- What the record of a clearing says of a call that has no resources in its hands any more. -/
theorem evictAll {taken : Taken α} {torn rest : List α} {counted : Bool} (ht : Empties taken)
    (hq : taken.before.idle = torn ++ rest) :
    Clears { took := some taken, torn := unraised torn } (Call.evictAll counted rest) := by
  cases rest with
  | nil => exact .done ht (hq.trans (List.append_nil _))
  | cons x rest => exact .evicting ht hq

/-- None is torn down yet. -/
theorem evictAll_first {taken : Taken α} {rest : List α} (ht : Empties taken)
    (hq : taken.before.idle = rest) (counted : Bool) :
    Clears { took := some taken } (Call.evictAll counted rest) :=
  @evictAll α taken [] rest counted ht hq

theorem abandonAll {taken : Taken α} {torn lost rest : List α} {y : α} {message : String}
    (ht : Empties taken) (hq : taken.before.idle = torn ++ y :: (lost ++ rest)) :
    Clears ⟨some taken, unraised torn ++ [(y, some message)], lost⟩
      (Call.abandonAll message rest) := by
  cases rest with
  | nil => exact .raised ht (by rw [hq, List.append_nil])
  | cons x rest => exact .abandoning ht hq

/-- **A step of the call** keeps the record right. The pool that is written down is the one after
the step, as far as a clearing goes. -/
theorem steps (h : Clears L c) (hs : Call.Steps t p c p' c')
    (hp : c.clears = true → p''.idle = p'.idle ∧ p''.allocated = p'.allocated) :
    Clears (L.step t p c p'') c' := by
  have none : ∀ {d : Call α}, c.clears = false → c.clearing = false → (∀ r, c ≠ .over r) →
      c ≠ .aborted → d.clearing = false → Clears (L.step t p c p'') d := by
    intro d clears clearing unended unaborted hd
    rw [Clearance.step, clears]
    cases h with
    | other => exact .other hd
    | drained | evicting | abandoning => cases clearing
    | done | raised => exact absurd rfl (unended _)
    | aborted => exact absurd rfl unaborted
  cases hs with
  | acquire h | retry h | woken _ h => exact none rfl rfl nofun nofun h.clearing
  | notify next => exact none rfl rfl nofun nofun (Call.clearing_ofThen next)
  | free | surplus | putBack | grow | shrink | wakeGrown | setWaitLimit =>
    exact none rfl rfl nofun nofun rfl
  | nothingIdle hi =>
    cases h
    obtain ⟨idle, allocated⟩ := hp rfl
    exact evictAll_first (.removeIdle (idle.trans hi) (by rw [allocated, hi]; rfl)) hi true
  | drain hi =>
    cases h
    obtain ⟨idle, allocated⟩ := hp rfl
    exact .drained (.removeIdle idle allocated) hi
  | nothingLeft hi =>
    cases h
    obtain ⟨idle, allocated⟩ := hp rfl
    exact evictAll_first (.teardown (idle.trans hi) allocated) hi false
  | closeDown hi =>
    cases h
    obtain ⟨idle, allocated⟩ := hp rfl
    exact evictAll_first (.teardown (p := p) idle allocated) hi false
  | wakeDrained =>
    cases h with
    | other h => cases h
    | drained ht hq => exact evictAll_first ht hq true

/-- **An answer to the call** keeps the record right. -/
theorem answered (h : Clears L c) (ha : Call.Answered c r c') : Clears (L.hear c r) c' := by
  cases ha with
  | evicted x rest counted =>
    cases h with
    | other h => cases h
    | @evicting taken torn _ _ _ ht hq =>
      have queue : taken.before.idle = torn ++ [x] ++ rest := hq.trans (List.append_cons ..)
      have next := @evictAll α taken (torn ++ [x]) rest counted ht queue
      rwa [← unraised_append] at next
  | evictRaised x rest counted message =>
    cases h with
    | other h => cases h
    | evicting ht hq => exact abandonAll ht hq
  | abandoned x rest message =>
    cases h with
    | other h => cases h
    | abandoning ht hq =>
      exact abandonAll ht (by rw [hq, List.append_assoc, List.singleton_append])
  | abandonRaised x rest message message' =>
    cases h with
    | other h => cases h
    | abandoning ht hq =>
      exact .aborted ht (by rw [hq, List.append_assoc, List.singleton_append])
  | unasked ht =>
    rw [Clearance.hear_of_not_takes ht]
    exact h
  | stale | fresh | checkRaised | staleEvicted | staleRaised | created | notCreated | createRaised
  | dropped | dropRaised | discarded | discardRaised | surplusEvicted | surplusRaised =>
    cases h
    exact .other rfl

end Clears

/-! ## What becomes of the resources -/

/-- What became of the resources that a call took to tear them down. -/
structure Cleared (L : Clearance α) (t : Taken α) (c : Call α) : Prop where
  empties : Empties t
  /-- They are torn down in order, each once, and nothing else is. -/
  order   : L.torn.map Prod.fst <+: t.before.idle
  /-- When the call ends, all of them are, unless a teardown raised: then it was the last one, and
  those after it were let go. -/
  ended   : ∀ r, c = .over r →
    (r = .done ∧ L.torn = unraised t.before.idle ∧ L.lost = []) ∨
    ∃ torn y message, r = .raised message ∧ t.before.idle = torn ++ y :: L.lost ∧
      L.torn = unraised torn ++ [(y, some message)]

theorem Clears.cleared {L : Clearance α} {t : Taken α} {c : Call α} (h : Clears L c)
    (ht : L.took = some t) : Cleared L t c := by
  have stopped : ∀ {torn rest : List α} {y : α} {message : String},
      (unraised torn ++ [(y, some message)]).map Prod.fst <+: torn ++ y :: rest := by
    intro torn rest y message
    rw [List.map_append, map_fst_unraised]
    exact ⟨rest, by simp⟩
  cases h with
  | other => cases ht
  | drained empties hq =>
    cases ht
    exact ⟨empties, List.nil_prefix, nofun⟩
  | evicting empties hq =>
    cases ht
    refine ⟨empties, ?_, nofun⟩
    rw [map_fst_unraised, hq]
    exact List.prefix_append ..
  | @done _ torn empties hq =>
    cases ht
    have whole : (unraised torn).map Prod.fst = t.before.idle := by rw [map_fst_unraised, hq]
    refine ⟨empties, ⟨[], (List.append_nil _).trans whole⟩, fun r hr => ?_⟩
    cases hr
    exact Or.inl ⟨rfl, by rw [hq], rfl⟩
  | abandoning empties hq | aborted empties hq =>
    cases ht
    exact ⟨empties, by rw [hq]; exact stopped, nofun⟩
  | raised empties hq =>
    cases ht
    refine ⟨empties, by rw [hq]; exact stopped, fun r hr => ?_⟩
    cases hr
    exact Or.inr ⟨_, _, _, rfl, hq, rfl⟩

/-! ## A pool with references -/

namespace Held

/-- The record of a clearing of a pool with references. -/
def scribe (α : Type) : Program.Scribe (Held α) (Frame α) (Reply α) (Clearance α) where
  fresh := {}
  step L t s f s' :=
    match f with
    | .call c => L.step t s.pool c s'.pool
    | .start _ => L
  hear L _ f r :=
    match f with
    | .call c => L.hear c r
    | .start _ => L

/-- How far the call of an operation is; one that has not begun has no call yet. -/
def Frame.Clears (L : Clearance α) : Frame α → Prop
  | .call c => Pool.Clears L c
  | .start _ => L = {}

/-- **What a clearing of the pool does**, in any run. -/
theorem cleared_of_kept {i n : Nat} {s₀ : Held α} {L : Clearance α} {w : World (Held α) (Frame α)}
    (h : (program α).Kept ((program α).watch (scribe α) i n) {} (World.init s₀) L w) {t : Taken α}
    {c : Call α} (hc : w.frameAt i n = some (.call c)) (ht : L.took = some t) :
    Pool.Cleared L t c := by
  have clears : ∀ f, w.frameAt i n = some f → Frame.Clears L f := by
    refine Program.watched ?_ ?_ ?_ ?_ h
    · exact fun op => rfl
    · exact fun _ _ hn => absurd hn (program_flat _ _ _)
    · intro w L t f s' f' notices _ _ hL hn he
      cases Frame.steps hn he with
      | dead | call | hold | leave | last =>
        cases hL
        exact .other rfl
      | inner hs => exact Clears.steps hL hs fun _ => ⟨rfl, rfl⟩
    · intro w L f r s' f' notices _ _ hL hn he
      rcases hn with ⟨q, hn⟩ | ⟨g, hn⟩
      · obtain ⟨c, c', count, rfl, rfl, -, -, ha⟩ := Frame.exists_answered hn he
        exact Clears.answered hL ha
      · exact absurd hn (program_flat _ _ _)
  exact (clears _ hc : Pool.Clears L c).cleared ht

/-- The slots that a clearing takes off are there: what is idle has slots, as long as callers give
back only what they hold. -/
theorem idle_le_allocated [DecidableEq α] {l : Limits} {L : Ledger α}
    {w : World (Held α) (Frame α)}
    (h : (program α).Kept Ledger.note {} (World.init { pool := .ofLimits l }) L w) :
    w.shared.pool.idle.length ≤ w.shared.pool.allocated := by
  have covered : _ ≤ _ := SlotsCovered.of_kept h
  omega

end Held

/-! ## A clearing that is left alone -/

/-- Teardowns with these outcomes, by their place in the order in which they are called: each raises
with its message, if it has one. They remember what was asked. -/
def teardowns (faults : Nat → Option String) : Outside (List (Query α)) (Query α) (Reply α) :=
  fun log q =>
    (match q with
      | .evict _ => ((faults (log.countP Query.evicts)).map Reply.raised).getD .done
      | _ => .done,
    log ++ [q])

/-- What is asked of the callbacks about these resources, and what the call comes to. -/
inductive Emptied (faults : Nat → Option String) (idle : List α) : List (Query α) → Reply α → Prop
  /-- No teardown raises. -/
  | all (quiet : ∀ j < idle.length, faults j = none) :
      Emptied faults idle (idle.map .evict) .done
  /-- The teardown of `x` is the first that raises. -/
  | raised {torn rest : List α} {x : α} {message : String} (hq : idle = torn ++ x :: rest)
      (quiet : ∀ j < torn.length, faults j = none) (raises : faults torn.length = some message) :
      Emptied faults idle ((torn ++ [x]).map .evict ++ rest.map .drop) (.raised message)

section

variable {faults : Nat → Option String} {torn : List α} {p : Pool α} {message : String}

theorem countP_evict (rs : List α) : (rs.map Query.evict).countP Query.evicts = rs.length := by
  rw [List.countP_map]
  exact List.countP_eq_length.mpr fun _ _ => rfl

/-- How the next teardown comes out, after these. -/
theorem outcome (torn : List α) (x : α) : teardowns faults (torn.map .evict) (.evict x) =
    (((faults torn.length).map Reply.raised).getD .done, (torn ++ [x]).map .evict) := by
  unfold teardowns
  rw [countP_evict, List.map_append]
  rfl

/-- The resources left are let go. -/
theorem leads_abandonAll (log : List (Query α)) (rest : List α) (p : Pool α) :
    (program α).Leads (teardowns faults) (Call.abandonAll message rest) p log
      fun log' p' c => log' = log ++ rest.map .drop ∧ p' = p ∧ c = .over (.raised message) := by
  induction rest generalizing log with
  | nil => exact .here ⟨(List.append_nil _).symm, rfl, rfl⟩
  | cons x rest ih =>
    refine .ask rfl ?_
    refine (ih (log ++ [Query.drop x])).imp ?_
    rintro log' p' c ⟨rfl, rfl, rfl⟩
    exact ⟨by rw [List.append_assoc]; rfl, rfl, rfl⟩

/-- The resources left are torn down, up to the first that raises. -/
theorem leads_evictAll (rest : List α) (quiet : ∀ j < torn.length, faults j = none)
    (counted : Bool) :
    (program α).Leads (teardowns faults) (Call.evictAll counted rest) p (torn.map .evict)
      fun log p' c => ∃ r f, c = .over r ∧ Emptied faults (torn ++ rest) log r ∧
        p' = p.count f := by
  induction rest generalizing torn p with
  | nil =>
    rw [List.append_nil]
    exact .here ⟨.done, id, rfl, .all quiet, rfl⟩
  | cons x rest ih =>
    have more : torn ++ x :: rest = torn ++ [x] ++ rest := List.append_cons ..
    refine .ask rfl ?_
    rw [outcome]
    cases raises : faults torn.length with
    | none =>
      obtain ⟨f, resumed⟩ : ∃ f, (Call.evicting x rest counted).resume p .done =
          (p.count f, Call.evictAll counted rest, []) := by
        cases counted
        · exact ⟨id, rfl⟩
        · exact ⟨_, rfl⟩
      have quiet' : ∀ j < (torn ++ [x]).length, faults j = none := by
        intro j hj
        rw [List.length_append, List.length_singleton] at hj
        rcases Nat.lt_succ_iff_lt_or_eq.mp hj with hj | rfl
        · exact quiet j hj
        · exact raises
      show (program α).Leads _ ((Call.evicting x rest counted).resume p .done).2.1
        ((Call.evicting x rest counted).resume p .done).1 ((torn ++ [x]).map Query.evict) _
      rw [resumed]
      refine (ih quiet').imp ?_
      rintro log p' c ⟨r, f', rfl, emptied, rfl⟩
      exact ⟨r, f' ∘ f, rfl, more ▸ emptied, rfl⟩
    | some message =>
      have resumed : (Call.evicting x rest counted).resume p (.raised message) =
          (p, Call.abandonAll message rest, []) := by
        cases counted <;> rfl
      show (program α).Leads _ ((Call.evicting x rest counted).resume p (.raised message)).2.1
        ((Call.evicting x rest counted).resume p (.raised message)).1
        ((torn ++ [x]).map Query.evict) _
      rw [resumed]
      refine (leads_abandonAll _ rest p).imp ?_
      rintro log p' c ⟨rfl, rfl, rfl⟩
      exact ⟨_, id, rfl, .raised rfl quiet raises, rfl⟩

/-- **What `removeIdle` does**, left alone. -/
theorem removeIdle_alone (faults : Nat → Option String) (p : Pool α) :
    (program α).Leads (teardowns faults) (.start .removeIdle) p [] fun log p' c =>
      ∃ r, c = .over r ∧ Emptied faults p.idle log r ∧ p'.idle = [] ∧
        p'.allocated = p.allocated - p.idle.length := by
  refine .step rfl fun t => ?_
  have quiet : ∀ j < ([] : List α).length, faults j = none :=
    fun j hj => absurd hj (Nat.not_lt_zero j)
  show (program α).Leads _ (Call.step t p (.start .removeIdle)).2.1
    (Call.step t p (.start .removeIdle)).1 _ _
  cases hi : p.idle with
  | nil =>
    rw [Call.step, hi]
    exact .here ⟨.done, rfl, .all quiet, hi, (Nat.sub_zero _).symm⟩
  | cons x rest =>
    rw [Call.step, hi]
    refine .step rfl fun t => ?_
    refine (leads_evictAll (x :: rest) quiet true).imp ?_
    rintro log p' c ⟨r, f, rfl, emptied, rfl⟩
    exact ⟨r, rfl, emptied, rfl, rfl⟩

/-- **What the end of a pool does**, left alone. -/
theorem teardown_alone (faults : Nat → Option String) (p : Pool α) :
    (program α).Leads (teardowns faults) .teardown p [] fun log p' c =>
      ∃ r, c = .over r ∧ Emptied faults p.idle log r ∧ p'.idle = [] ∧
        p'.allocated = p.allocated := by
  refine .step rfl fun t => ?_
  have quiet : ∀ j < ([] : List α).length, faults j = none :=
    fun j hj => absurd hj (Nat.not_lt_zero j)
  show (program α).Leads _ (Call.step t p .teardown).2.1 (Call.step t p .teardown).1 _ _
  cases hi : p.idle with
  | nil =>
    rw [Call.step, hi]
    exact .here ⟨.done, rfl, .all quiet, hi, rfl⟩
  | cons x rest =>
    rw [Call.step, hi]
    refine (leads_evictAll (x :: rest) quiet false).imp ?_
    rintro log p' c ⟨r, f, rfl, emptied, rfl⟩
    exact ⟨r, rfl, emptied, rfl, rfl⟩

end

end Lending.Pool
