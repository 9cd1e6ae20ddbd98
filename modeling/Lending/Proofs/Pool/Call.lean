import Lending.Pool.Call
import Lending.Proofs.Program

/-!
# The transitions of a pool's calls

Everything that a call can do, one constructor for each way on, with the condition under which it is
taken:

* `Looked`: one look of `acquire` at the pool.
* `Call.Steps`: one step of a call that needs nothing (`steps`).
* `Call.Answered`: how a call goes on with the answer of its callback (`answered`). An answer never
  touches more of the pool than its counters (`exists_resume_eq_count`).
* `Moved`: what a move does to a world of calls (`moved`).

An invariant of the pool is proved by cases on these, never by opening `Call.step`.

A critical section of the pool's mutex is one step, and so is a wake-up; callbacks run between
steps. How a call goes on when its callback has returned, failed or raised is in `Answered`.
-/

namespace Lending.Pool

variable {α : Type}

/-! ## Fields that a change of the pool leaves alone -/

section Fields

variable (p : Pool α)

@[simp] theorem idle_count (f : Counters → Counters) : (p.count f).idle = p.idle := rfl
@[simp] theorem allocated_count (f : Counters → Counters) :
    (p.count f).allocated = p.allocated := rfl
@[simp] theorem capacity_count (f : Counters → Counters) :
    (p.count f).capacity = p.capacity := rfl
@[simp] theorem waiting_count (f : Counters → Counters) : (p.count f).waiting = p.waiting := rfl
@[simp] theorem parked_count (f : Counters → Counters) : (p.count f).parked = p.parked := rfl
@[simp] theorem nextTicket_count (f : Counters → Counters) :
    (p.count f).nextTicket = p.nextTicket := rfl
@[simp] theorem counters_count (f : Counters → Counters) :
    (p.count f).counters = f p.counters := rfl

@[simp] theorem idle_notifyOne (n : Nat) : (p.notifyOne n).idle = p.idle := rfl
@[simp] theorem allocated_notifyOne (n : Nat) : (p.notifyOne n).allocated = p.allocated := rfl
@[simp] theorem capacity_notifyOne (n : Nat) : (p.notifyOne n).capacity = p.capacity := rfl
@[simp] theorem waiting_notifyOne (n : Nat) : (p.notifyOne n).waiting = p.waiting := rfl
@[simp] theorem nextTicket_notifyOne (n : Nat) : (p.notifyOne n).nextTicket = p.nextTicket := rfl
@[simp] theorem counters_notifyOne (n : Nat) : (p.notifyOne n).counters = p.counters := rfl

@[simp] theorem idle_notifyAll : p.notifyAll.idle = p.idle := rfl
@[simp] theorem allocated_notifyAll : p.notifyAll.allocated = p.allocated := rfl
@[simp] theorem capacity_notifyAll : p.notifyAll.capacity = p.capacity := rfl
@[simp] theorem waiting_notifyAll : p.notifyAll.waiting = p.waiting := rfl
@[simp] theorem parked_notifyAll : p.notifyAll.parked = [] := rfl
@[simp] theorem nextTicket_notifyAll : p.notifyAll.nextTicket = p.nextTicket := rfl

@[simp] theorem idle_park : p.park.idle = p.idle := rfl
@[simp] theorem allocated_park : p.park.allocated = p.allocated := rfl
@[simp] theorem capacity_park : p.park.capacity = p.capacity := rfl
@[simp] theorem waiting_park : p.park.waiting = p.waiting + 1 := rfl
@[simp] theorem parked_park : p.park.parked = p.parked ++ [p.nextTicket] := rfl
@[simp] theorem nextTicket_park : p.park.nextTicket = p.nextTicket + 1 := rfl
@[simp] theorem counters_park : p.park.counters = p.counters := rfl

@[simp] theorem idle_unpark (t : Nat) : (p.unpark t).idle = p.idle := rfl
@[simp] theorem allocated_unpark (t : Nat) : (p.unpark t).allocated = p.allocated := rfl
@[simp] theorem capacity_unpark (t : Nat) : (p.unpark t).capacity = p.capacity := rfl
@[simp] theorem waiting_unpark (t : Nat) : (p.unpark t).waiting = p.waiting := rfl
@[simp] theorem nextTicket_unpark (t : Nat) : (p.unpark t).nextTicket = p.nextTicket := rfl

end Fields

theorem hasRoom_iff {p : Pool α} :
    p.hasRoom = true ↔ p.capacity = 0 ∨ p.allocated < p.capacity := by
  simp [hasRoom]

theorem overCapacity_iff {p : Pool α} :
    p.overCapacity = true ↔ 0 < p.capacity ∧ p.capacity < p.allocated := by
  simp [overCapacity]

theorem grows_iff {p : Pool α} {n : Nat} :
    p.grows n = true ↔ n = 0 ∨ p.capacity ≠ 0 ∧ p.capacity < n := by
  simp [grows]

/-! ## Looking -/

/-- What one look of `acquire` at the pool comes to. -/
inductive Looked (p : Pool α) (deadline : Option Instant) (now : Instant) :
    Pool α → Call α → Prop
  /-- The first idle resource is taken. -/
  | took {r : α} {rest : List α} (hi : p.idle = r :: rest) :
      Looked p deadline now { p with idle := rest } (.checking deadline r)
  /-- A slot is reserved for a resource that is about to be made. -/
  | reserved (hi : p.idle = []) (hr : p.hasRoom = true) :
      Looked p deadline now { p with allocated := p.allocated + 1 } .creating
  /-- The time to wait is over. -/
  | expired (hi : p.idle = []) (hr : p.hasRoom = false)
      (hd : deadline.any (· ≤ now) = true) :
      Looked p deadline now (p.count fun c => { c with exhausted := c.exhausted + 1 })
        (.over (.failed (.exhausted (p.waitLimit.getD ⟨0⟩))))
  | parked (hi : p.idle = []) (hr : p.hasRoom = false)
      (hd : deadline.any (· ≤ now) = false) :
      Looked p deadline now p.park (.parked p.nextTicket deadline)

theorem looked (p : Pool α) (deadline : Option Instant) (now : Instant) :
    Looked p deadline now (p.look deadline now).1 (p.look deadline now).2.1 := by
  unfold look
  split
  · rename_i r rest hi
    exact .took hi
  · rename_i hi
    split
    · rename_i hr
      exact .reserved hi hr
    · rename_i hr
      split
      · rename_i hd
        exact .expired hi (by simpa using hr) hd
      · rename_i hd
        exact .parked hi (by simpa using hr) (by simpa using hd)

namespace Call

/-! ## Stepping -/

/-- One step of a call that needs nothing. -/
inductive Steps (m : Moment) (p : Pool α) : Call α → Pool α → Call α → Prop
  | acquire {p' : Pool α} {c' : Call α} (h : Looked p (p.deadline? m.start) m.check p' c') :
      Steps m p (.start .acquire) p' c'
  | retry {deadline : Option Instant} {p' : Pool α} {c' : Call α}
      (h : Looked p deadline m.check p' c') : Steps m p (.retry deadline) p' c'
  /-- A woken caller is no longer counted as one that waits, and looks. -/
  | woken {ticket : Nat} {deadline : Option Instant} {p' : Pool α} {c' : Call α}
      (ht : ticket ∉ p.parked)
      (h : Looked { p with waiting := p.waiting - 1 } deadline m.check p' c') :
      Steps m p (.parked ticket deadline) p' c'
  | free (next : Then α) :
      Steps m p (.freeing next) { p with allocated := p.allocated - 1 } (.notifying next)
  | notify (next : Then α) : Steps m p (.notifying next) (p.notifyOne m.pick) (ofThen next)
  | surplus (r : α) (ho : p.overCapacity = true) :
      Steps m p (.start (.release r)) { p with allocated := p.allocated - 1 } (.evictingSurplus r)
  | putBack (r : α) (ho : p.overCapacity = false) :
      Steps m p (.start (.release r))
        ({ p with idle := p.idle ++ [r] }.count fun c => { c with released := c.released + 1 })
        (.notifying .finish)
  | nothingIdle (hi : p.idle = []) : Steps m p (.start .removeIdle) p (.over .done)
  | drain {r : α} {rest : List α} (hi : p.idle = r :: rest) :
      Steps m p (.start .removeIdle)
        { p with idle := [], allocated := p.allocated - p.idle.length } (.drained r rest)
  | wakeDrained (r : α) (rest : List α) :
      Steps m p (.drained r rest) p.notifyAll (.evicting r rest true)
  | grow (n : Nat) (hg : p.grows n = true) :
      Steps m p (.start (.resize n)) { p with capacity := n } .grown
  | shrink (n : Nat) (hg : p.grows n = false) :
      Steps m p (.start (.resize n)) { p with capacity := n } (.over .done)
  | wakeGrown : Steps m p .grown p.notifyAll (.over .done)
  | setWaitLimit (d : Duration) :
      Steps m p (.start (.setWaitLimit d)) { p with waitLimit := some d } (.over .done)
  | nothingLeft (hi : p.idle = []) : Steps m p .teardown p (.over .done)
  | closeDown {r : α} {rest : List α} (hi : p.idle = r :: rest) :
      Steps m p .teardown { p with idle := [] } (.evicting r rest false)

theorem need_ne_sub (p : Pool α) (c f : Call α) : c.need p ≠ .sub f := by
  cases c with
  | start op => cases op <;> exact nofun
  | parked ticket deadline =>
    show (if ticket ∈ p.parked then Need.wait else Need.step) ≠ _
    split <;> exact nofun
  | _ => exact nofun

/-- **What a call that needs nothing does.** -/
theorem steps {m : Moment} {p p' : Pool α} {c c' : Call α} {notices : List Notice}
    (hn : c.need p = .step) (h : c.step m p = (p', c', notices)) : Steps m p c p' c' := by
  obtain ⟨rfl, rfl, rfl⟩ : (c.step m p).1 = p' ∧ (c.step m p).2.1 = c' ∧
      (c.step m p).2.2 = notices := by simp [h]
  cases c with
  | start op =>
    cases op with
    | acquire => exact .acquire (looked ..)
    | release r =>
      simp only [step]
      split
      · rename_i ho
        exact .surplus r ho
      · rename_i ho
        exact .putBack r (by simpa using ho)
    | discard r => exact absurd hn nofun
    | removeIdle =>
      simp only [step]
      split
      · rename_i hi
        exact .nothingIdle hi
      · rename_i r rest hi
        exact .drain hi
    | resize n =>
      simp only [step]
      split
      · rename_i hg
        exact .grow n hg
      · rename_i hg
        exact .shrink n (by simpa using hg)
    | setWaitLimit d => exact .setWaitLimit d
  | teardown =>
    simp only [step]
    split
    · rename_i hi
      exact .nothingLeft hi
    · rename_i r rest hi
      exact .closeDown hi
  | retry deadline => exact .retry (looked ..)
  | parked ticket deadline =>
    refine .woken (fun ht => ?_) (looked ..)
    simp [need, ht] at hn
  | freeing next => exact .free next
  | notifying next => exact .notify next
  | drained r rest => exact .wakeDrained r rest
  | grown => exact .wakeGrown
  | checking | evictingStale | creating | dropping | evictingSurplus | evicting | abandoning
  | «over» | aborted => exact absurd hn nofun

/-! ## Answers -/

/-- Whether an answer is one that the callback of a call can give. -/
def takes : Call α → Reply α → Bool
  | .checking _ _, .verdict _ | .checking _ _, .raised _ => true
  | .creating, .got _ | .creating, .failed _ | .creating, .raised _ => true
  | .start (.discard _), .done | .start (.discard _), .raised _ => true
  | .evictingStale _ _, .done | .evictingStale _ _, .raised _ => true
  | .evictingSurplus _, .done | .evictingSurplus _, .raised _ => true
  | .evicting _ _ _, .done | .evicting _ _ _, .raised _ => true
  | .dropping _ _, .done | .dropping _ _, .raised _ => true
  | .abandoning _ _ _, .done | .abandoning _ _ _, .raised _ => true
  | _, _ => false

/-- How a call goes on with the answer of its callback. -/
inductive Answered : Call α → Reply α → Call α → Prop
  | stale (deadline : Option Instant) (r : α) :
      Answered (.checking deadline r) (.verdict true) (.evictingStale deadline r)
  | fresh (deadline : Option Instant) (r : α) :
      Answered (.checking deadline r) (.verdict false) (.over (.got r))
  | checkRaised (deadline : Option Instant) (r : α) (message : String) :
      Answered (.checking deadline r) (.raised message) (.freeing (.drop r message))
  | staleEvicted (deadline : Option Instant) (r : α) :
      Answered (.evictingStale deadline r) .done (.freeing (.retry deadline))
  | staleRaised (deadline : Option Instant) (r : α) (message : String) :
      Answered (.evictingStale deadline r) (.raised message) (.freeing (.raise message))
  | created (r : α) : Answered .creating (.got r) (.over (.got r))
  | notCreated (e : PoolError) : Answered .creating (.failed e) (.freeing (.fail e))
  | createRaised (message : String) :
      Answered .creating (.raised message) (.freeing (.raise message))
  | dropped (r : α) (message : String) :
      Answered (.dropping r message) .done (.over (.raised message))
  | dropRaised (r : α) (message message' : String) :
      Answered (.dropping r message) (.raised message') .aborted
  | discarded (r : α) : Answered (.start (.discard r)) .done (.freeing .finish)
  | discardRaised (r : α) (message : String) :
      Answered (.start (.discard r)) (.raised message) (.over (.raised message))
  | surplusEvicted (r : α) : Answered (.evictingSurplus r) .done (.over .done)
  | surplusRaised (r : α) (message : String) :
      Answered (.evictingSurplus r) (.raised message) (.over (.raised message))
  | evicted (r : α) (rest : List α) (counted : Bool) :
      Answered (.evicting r rest counted) .done (evictAll counted rest)
  | evictRaised (r : α) (rest : List α) (counted : Bool) (message : String) :
      Answered (.evicting r rest counted) (.raised message) (abandonAll message rest)
  | abandoned (r : α) (rest : List α) (message : String) :
      Answered (.abandoning r rest message) .done (abandonAll message rest)
  | abandonRaised (r : α) (rest : List α) (message message' : String) :
      Answered (.abandoning r rest message) (.raised message') .aborted
  /-- An answer to another question than the one asked changes nothing. -/
  | unasked {c : Call α} {reply : Reply α} (ht : c.takes reply = false) : Answered c reply c

/-- **How a call goes on with an answer.** -/
theorem answered {p p' : Pool α} {c c' : Call α} {reply : Reply α}
    {notices : List Notice} (h : c.resume p reply = (p', c', notices)) : Answered c reply c' := by
  obtain rfl : (c.resume p reply).2.1 = c' := by simp [h]
  cases c with
  | checking deadline r =>
    cases reply with
    | verdict stale =>
      cases stale with
      | true => exact .stale deadline r
      | false => exact .fresh deadline r
    | raised message => exact .checkRaised deadline r message
    | got | failed | done => exact .unasked rfl
  | evictingStale deadline r =>
    cases reply with
    | done => exact .staleEvicted deadline r
    | raised message => exact .staleRaised deadline r message
    | got | failed | verdict => exact .unasked rfl
  | creating =>
    cases reply with
    | got r => exact .created r
    | failed e => exact .notCreated e
    | raised message => exact .createRaised message
    | verdict | done => exact .unasked rfl
  | dropping r message =>
    cases reply with
    | done => exact .dropped r message
    | raised message' => exact .dropRaised r message message'
    | got | failed | verdict => exact .unasked rfl
  | start op =>
    cases op with
    | discard r =>
      cases reply with
      | done => exact .discarded r
      | raised message => exact .discardRaised r message
      | got | failed | verdict => exact .unasked rfl
    | acquire | release | removeIdle | resize | setWaitLimit => exact .unasked rfl
  | evictingSurplus r =>
    cases reply with
    | done => exact .surplusEvicted r
    | raised message => exact .surplusRaised r message
    | got | failed | verdict => exact .unasked rfl
  | evicting r rest counted =>
    cases reply with
    | done => cases counted <;> exact .evicted r rest _
    | raised message => cases counted <;> exact .evictRaised r rest _ message
    | got | failed | verdict => cases counted <;> exact .unasked rfl
  | abandoning r rest message =>
    cases reply with
    | done => exact .abandoned r rest message
    | raised message' => exact .abandonRaised r rest message message'
    | got | failed | verdict => exact .unasked rfl
  | teardown | retry | parked | freeing | notifying | drained | grown | «over» | aborted =>
    exact .unasked rfl

/-- Whether a call has taken its first step. -/
def begun : Call α → Bool
  | .start _ | .teardown => false
  | _ => true

/-- A call never comes back to its start. -/
theorem Steps.begun {m : Moment} {p p' : Pool α} {c c' : Call α} (h : Steps m p c p' c') :
    c'.begun = true := by
  cases h with
  | acquire h | retry h | woken _ h => cases h <;> rfl
  | notify next => cases next <;> rfl
  | free | surplus | putBack | nothingIdle | drain | wakeDrained | grow | shrink | wakeGrown
  | setWaitLimit | nothingLeft | closeDown => rfl

theorem Answered.begun {c c' : Call α} {r : Reply α} (h : Answered c r c') :
    c'.begun = true ∨ c' = c := by
  cases h with
  | evicted _ rest => cases rest <;> exact Or.inl rfl
  | evictRaised _ rest | abandoned _ rest => cases rest <;> exact Or.inl rfl
  | unasked => exact Or.inr rfl
  | stale | fresh | checkRaised | staleEvicted | staleRaised | created | notCreated | createRaised
  | dropped | dropRaised | discarded | discardRaised | surplusEvicted | surplusRaised
  | abandonRaised => exact Or.inl rfl

/-! ## What a call has taken -/

/-- The resource whose staleness a call has judged. -/
def checks : Call α → List α
  | .checking _ r => [r]
  | _ => []

/-- The resources that a call hands to its caller. -/
def handed : Call α → List α
  | .over (.got r) => [r]
  | _ => []

section

variable {m : Moment} {p p' : Pool α} {c c' : Call α} {r : Reply α}

/-- A step hands nothing out. -/
theorem Steps.handed (h : Steps m p c p' c') : c'.handed = [] := by
  cases h with
  | acquire h | retry h | woken _ h => cases h <;> rfl
  | notify next => cases next <;> rfl
  | free | surplus | putBack | nothingIdle | drain | wakeDrained | grow | shrink | wakeGrown
  | setWaitLimit | nothingLeft | closeDown => rfl

/-- A step judges the first idle resource, which it takes. -/
theorem Steps.checks (h : Steps m p c p' c') : ∀ x ∈ c'.checks, p.idle = x :: p'.idle := by
  cases h with
  | acquire h | retry h | woken _ h =>
    cases h with
    | took hi =>
      intro x hx
      rw [List.mem_singleton.mp hx]
      exact hi
    | reserved | expired | parked => exact nofun
  | notify next => cases next <;> exact nofun
  | free | surplus | putBack | nothingIdle | drain | wakeDrained | grow | shrink | wakeGrown
  | setWaitLimit | nothingLeft | closeDown => exact nofun

/-- An answer hands out what it finds fresh, or makes. -/
theorem Answered.handed (h : Answered c r c') : ∀ x ∈ c'.handed, x ∈ c.handed ∨
    (∃ deadline, c = .checking deadline x ∧ r = .verdict false) ∨ c = .creating ∧ r = .got x := by
  cases h with
  | fresh deadline y =>
    intro x hx
    rw [List.mem_singleton.mp hx]
    exact Or.inr (Or.inl ⟨deadline, rfl, rfl⟩)
  | created y =>
    intro x hx
    rw [List.mem_singleton.mp hx]
    exact Or.inr (Or.inr ⟨rfl, rfl⟩)
  | unasked => exact fun x hx => Or.inl hx
  | evicted _ rest => cases rest <;> exact nofun
  | evictRaised _ rest | abandoned _ rest => cases rest <;> exact nofun
  | stale | checkRaised | staleEvicted | staleRaised | notCreated | createRaised | dropped
  | dropRaised | discarded | discardRaised | surplusEvicted | surplusRaised | abandonRaised =>
    exact nofun

theorem Answered.checks (h : Answered c r c') : ∀ x ∈ c'.checks, x ∈ c.checks := by
  cases h with
  | evicted _ rest => cases rest <;> exact nofun
  | evictRaised _ rest | abandoned _ rest => cases rest <;> exact nofun
  | unasked => exact fun x hx => hx
  | stale | fresh | checkRaised | staleEvicted | staleRaised | created | notCreated | createRaised
  | dropped | dropRaised | discarded | discardRaised | surplusEvicted | surplusRaised
  | abandonRaised => exact nofun

theorem eq_over_of_need (h : c.need p = .over r) : c = .over r := by
  cases c with
  | «over» r' =>
    cases h
    rfl
  | start op => cases op <;> cases h
  | parked ticket deadline =>
    simp only [need] at h
    split at h <;> cases h
  | _ => cases h

/-- A call that has ended with a resource has it for its caller. -/
theorem mem_handed_of_over {x : α} (hn : c.need p = .over (.got x)) : x ∈ c.handed := by
  obtain rfl := eq_over_of_need hn
  exact List.mem_singleton_self x

/-- Only a release makes a resource idle. -/
theorem Steps.idle (h : Steps m p c p' c') :
    ∀ x ∈ p'.idle, x ∈ p.idle ∨ c = .start (.release x) := by
  have looked : ∀ {q q' : Pool α} {deadline : Option Instant} {now : Instant} {d : Call α},
      Looked q deadline now q' d → ∀ x ∈ q'.idle, x ∈ q.idle := by
    intro q q' deadline now d h
    cases h with
    | took hi =>
      rw [hi]
      exact fun x hx => List.mem_cons_of_mem _ hx
    | reserved | expired | parked => exact fun x hx => hx
  cases h with
  | acquire h | retry h | woken _ h => exact fun x hx => Or.inl (looked h x hx)
  | putBack r ho =>
    intro x hx
    rcases List.mem_append.mp hx with hx | hx
    · exact Or.inl hx
    · rw [List.mem_singleton.mp hx]
      exact Or.inr rfl
  | drain | closeDown => exact nofun
  | free | notify | surplus | nothingIdle | wakeDrained | grow | shrink | wakeGrown
  | setWaitLimit | nothingLeft => exact fun x hx => Or.inl hx

end

/-- An answer changes nothing of the pool but its counters. -/
theorem exists_resume_eq_count {p p' : Pool α} {c c' : Call α} {r : Reply α}
    {notices : List Notice} (h : c.resume p r = (p', c', notices)) : ∃ f, p' = p.count f := by
  obtain rfl : (c.resume p r).1 = p' := by simp [h]
  unfold resume
  split <;> dsimp only
  all_goals first
    | exact ⟨_, rfl⟩
    | exact ⟨id, rfl⟩

end Call

/-- No frame of the pool's program needs another operation of it. -/
theorem program_flat : (program α).Flat := Call.need_ne_sub

/-- What a move does to a world of calls. -/
inductive Moved (w : World (Pool α) (Call α)) :
    Move (Op α) (Reply α) → World (Pool α) (Call α) → Prop
  | spawn : Moved w .spawn ⟨w.shared, w.threads ++ [[]]⟩
  | enter {i : Nat} (op : Op α) (hi : i < w.threads.length) :
      Moved w (.enter i op) (w.update i w.shared (.start op :: w.stack i))
  | step {i : Nat} {moment : Moment} {c c' : Call α} {below : List (Call α)} {p' : Pool α}
      (hs : w.stack i = c :: below) (h : Call.Steps moment w.shared c p' c') :
      Moved w (.run i moment) (w.update i p' (c' :: below))
  | answer {i : Nat} {reply : Reply α} {c c' : Call α} {below : List (Call α)} {q : Query α}
      {f : Counters → Counters} (hs : w.stack i = c :: below) (hn : c.need w.shared = .ask q)
      (hf : (c.resume w.shared reply).1 = w.shared.count f) (h : Call.Answered c reply c') :
      Moved w (.answer i reply) (w.update i (w.shared.count f) (c' :: below))
  /-- Only a parked call has a time at which it gives up. -/
  | expire {i ticket : Nat} {deadline : Option Instant} {below : List (Call α)}
      (hs : w.stack i = .parked ticket deadline :: below) :
      Moved w (.expire i) ⟨w.shared.unpark ticket, w.threads⟩
  | collect {i : Nat} {reply : Reply α} {below : List (Call α)}
      (hs : w.stack i = .over reply :: below) :
      Moved w (.collect i) (w.update i w.shared below)

/-- **What a move does**, in the terms of the calls it moves. -/
theorem moved {w w' : World (Pool α) (Call α)} {m : Move (Op α) (Reply α)}
    {notices : List Notice} (h : (program α).apply w m = some (w', notices)) : Moved w m w' := by
  cases Program.effect_of_apply h with
  | spawn => exact .spawn
  | enter op hi _ => exact .enter op hi
  | step hs hn he => exact .step hs (Call.steps hn he)
  | descend hs hn => exact absurd hn (program_flat _ _ _)
  | ascend hs _ hg => exact absurd hg (program_flat _ _ _)
  | answer hs hn he =>
    obtain ⟨f, rfl⟩ := Call.exists_resume_eq_count he
    exact .answer hs hn (congrArg Prod.fst he) (Call.answered he)
  | @expire i c below t hs ht =>
    cases c with
    | parked ticket deadline => exact .expire hs
    | _ => exact absurd ht nofun
  | collect hs hn =>
    obtain rfl := Call.eq_over_of_need hn
    exact .collect hs

/-- What a call asks does not depend on the pool. -/
theorem program_steady : (program α).Steady := by
  intro p p' c q hn
  cases c with
  | parked ticket deadline =>
    have : (if ticket ∈ p.parked then Need.wait else Need.step) = .ask q := hn
    split at this <;> exact absurd this nofun
  | start op => cases op <;> exact hn
  | _ => exact hn

end Lending.Pool
