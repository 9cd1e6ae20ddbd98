import Lending.Proofs.Alone
import Lending.Proofs.Pool.Call

/-!
# What `acquire` does

An `acquire` that is left alone, with callbacks that do not use the pool: which callbacks it calls,
in which order, and what it comes to. It goes through the idle resources until one is fresh, and
looks for room only where none is left.

The outcomes of the callbacks are given beforehand (`Outcomes`): one for each idle resource, by its
place in the queue, and one for a resource to be made. What is remembered of the callbacks is the
list of questions they have answered.

* `Acquired`: what an `acquire` comes to, with one constructor for each way it can end.
* `acquire_alone`: it does come to that. The idle resources split into the longest stretch found
  stale and a rest, whose head decides, and there is one look for each of the stretch and one more.

The stretch found stale is torn down resource by resource, each with its own slot: `is_stale`, then
`on_evict`, then `free_slot`, and the loop again. So by the time the call looks for room, the slots
of the stretch are free, whatever the capacity is, and a raise on the way leaves those behind it
untouched.
-/

namespace Lending.Pool

variable {α : Type}

/-- What the callbacks make of an idle resource. -/
inductive Trial where
  | fresh
  /-- It is found stale and torn down. -/
  | stale
  | judgingRaises (message : String)
  /-- It is found stale, and tearing it down raises. -/
  | teardownRaises (message : String)
  deriving DecidableEq

/-- What comes of making a resource. -/
inductive Making (α : Type) where
  | made (r : α)
  | fails (e : PoolError)
  | raises (message : String)

/-- The outcomes of the callbacks of one `acquire`. -/
structure Outcomes (α : Type) where
  /-- Of the idle resources, by their place in the queue. -/
  trial  : Nat → Trial
  making : Making α

/-- Whether a question is to tear a resource down. -/
def Query.evicts : Query α → Bool
  | .evict _ => true
  | _ => false

namespace Trial

/-- The answer to whether the resource is stale. -/
def verdict : Trial → Reply α
  | .fresh => .verdict false
  | .stale | .teardownRaises _ => .verdict true
  | .judgingRaises message => .raised message

/-- The answer to its teardown. -/
def teardown : Trial → Reply α
  | .teardownRaises message => .raised message
  | _ => .done

end Trial

/-- The answer to the making of a resource. -/
def Making.reply : Making α → Reply α
  | .made r => .got r
  | .fails e => .failed e
  | .raises message => .raised message

/-- The answer to a question when `n` resources have been torn down. Each that is stale is torn down
before the next one is judged, so the one at hand has place `n`. -/
def Outcomes.reply (o : Outcomes α) (n : Nat) : Query α → Reply α
  | .isStale _ => (o.trial n).verdict
  | .evict _ => (o.trial n).teardown
  | .create => o.making.reply
  | .drop _ => .done

/-- Callbacks with these outcomes. They remember the questions, in order. -/
def Outcomes.outside (o : Outcomes α) : Outside (List (Query α)) (Query α) (Reply α) :=
  fun log q => (o.reply (log.countP Query.evicts) q, log ++ [q])

/-- The questions about stale resources: whether each is, and its teardown at once. -/
def consults (rs : List α) : List (Query α) := rs.flatMap fun r => [.isStale r, .evict r]

theorem consults_append (rs : List α) (r : α) :
    consults (rs ++ [r]) = consults rs ++ [.isStale r] ++ [.evict r] := by
  simp [consults]

theorem countP_consults (rs : List α) : (consults rs).countP Query.evicts = rs.length := by
  induction rs with
  | nil => rfl
  | cons r rs ih =>
    show ([Query.isStale r, .evict r] ++ consults rs).countP Query.evicts = _
    rw [List.countP_append, ih, List.length_cons]
    exact Nat.add_comm ..

/-- What an `acquire` comes to in pool `p`, of whose idle resources `stale` come first and are found
stale, and the ones of the list are left: the questions asked, the pool, and the call. -/
inductive Acquired (p : Pool α) (o : Outcomes α) (stale : List α) :
    List α → List (Query α) → Pool α → Call α → Prop
  /-- The next one is fresh, and is lent. -/
  | lent {r : α} {rest : List α} {p' : Pool α} (next : o.trial stale.length = .fresh)
      (idle : p'.idle = rest) (allocated : p'.allocated = p.allocated - stale.length) :
      Acquired p o stale (r :: rest) (consults stale ++ [.isStale r]) p' (.over (.got r))
  /-- Judging the next one raises: it is lost, and its slot is free. -/
  | judgingRaised {r : α} {rest : List α} {p' : Pool α} {message : String}
      (next : o.trial stale.length = .judgingRaises message)
      (idle : p'.idle = rest) (allocated : p'.allocated = p.allocated - (stale.length + 1)) :
      Acquired p o stale (r :: rest) (consults stale ++ [.isStale r, .drop r]) p'
        (.over (.raised message))
  /-- Tearing the next one down raises: it is lost, and its slot is free. -/
  | teardownRaised {r : α} {rest : List α} {p' : Pool α} {message : String}
      (next : o.trial stale.length = .teardownRaises message)
      (idle : p'.idle = rest) (allocated : p'.allocated = p.allocated - (stale.length + 1)) :
      Acquired p o stale (r :: rest) (consults stale ++ [.isStale r, .evict r]) p'
        (.over (.raised message))
  /-- All are stale, there is room, and a resource is made, which is not judged. -/
  | made {r : α} {p' : Pool α}
      (room : p.capacity = 0 ∨ p.allocated - stale.length < p.capacity)
      (making : o.making = .made r) (idle : p'.idle = [])
      (allocated : p'.allocated = p.allocated - stale.length + 1) :
      Acquired p o stale [] (consults stale ++ [.create]) p' (.over (.got r))
  | notMade {e : PoolError} {p' : Pool α}
      (room : p.capacity = 0 ∨ p.allocated - stale.length < p.capacity)
      (making : o.making = .fails e) (idle : p'.idle = [])
      (allocated : p'.allocated = p.allocated - stale.length) :
      Acquired p o stale [] (consults stale ++ [.create]) p' (.over (.failed e))
  | makingRaised {message : String} {p' : Pool α}
      (room : p.capacity = 0 ∨ p.allocated - stale.length < p.capacity)
      (making : o.making = .raises message) (idle : p'.idle = [])
      (allocated : p'.allocated = p.allocated - stale.length) :
      Acquired p o stale [] (consults stale ++ [.create]) p' (.over (.raised message))
  /-- All are stale, there is no room, and the call waits. -/
  | parked {ticket : Nat} {deadline : Option Instant} {p' : Pool α}
      (full : ¬(p.capacity = 0 ∨ p.allocated - stale.length < p.capacity))
      (waits : ticket ∈ p'.parked) (idle : p'.idle = [])
      (allocated : p'.allocated = p.allocated - stale.length) :
      Acquired p o stale [] (consults stale) p' (.parked ticket deadline)
  /-- All are stale, there is no room, and the time to wait is over. -/
  | refused {limit : Duration} {p' : Pool α}
      (full : ¬(p.capacity = 0 ∨ p.allocated - stale.length < p.capacity))
      (limited : p.waitLimit = some limit) (idle : p'.idle = [])
      (allocated : p'.allocated = p.allocated - stale.length) :
      Acquired p o stale [] (consults stale) p' (.over (.failed (.exhausted limit)))

/-! ## What the callbacks answer on the way -/

section

variable (o : Outcomes α) (done : List α) (r : α)

theorem outside_isStale : o.outside (consults done) (.isStale r) =
    ((o.trial done.length).verdict, consults done ++ [.isStale r]) := by
  unfold Outcomes.outside
  rw [countP_consults]
  rfl

theorem outside_evict : o.outside (consults done ++ [.isStale r]) (.evict r) =
    ((o.trial done.length).teardown, consults done ++ [.isStale r] ++ [.evict r]) := by
  unfold Outcomes.outside
  rw [List.countP_append, countP_consults]
  rfl

end

/-! ## The next idle resource -/

theorem look_idle {p : Pool α} {r : α} {rest : List α} (hi : p.idle = r :: rest)
    (deadline : Option Instant) (now : Instant) :
    p.look deadline now = ({ p with idle := rest }, .checking deadline r, []) := by
  unfold look
  rw [hi]

section

variable {p q : Pool α} {o : Outcomes α} {done left rest : List α} {r : α} {message : String}
  {deadline : Option Instant} {log : List (Query α)}
  {G : List (Query α) → Pool α → Call α → Prop}

/-- A slot is given up and a caller woken. -/
theorem leads_freeing {next : Then α}
    (h : ∀ n, (program α).Leads o.outside (Call.ofThen next)
      ({ q with allocated := q.allocated - 1 }.notifyOne n) log G) :
    (program α).Leads o.outside (.freeing next) q log G := by
  refine .step rfl fun _ => ?_
  refine .step rfl fun t => ?_
  exact h t.pick

/-- A stale resource is torn down, its slot is given up, and `acquire` looks again. -/
theorem leads_stale (trial : o.trial done.length = .stale)
    (h : ∀ f n, (program α).Leads o.outside (.retry deadline)
      ({ q.count f with allocated := q.allocated - 1 }.notifyOne n) (consults (done ++ [r])) G) :
    (program α).Leads o.outside (.checking deadline r) q (consults done) G := by
  refine .ask rfl ?_
  rw [outside_isStale, trial]
  refine .ask rfl ?_
  rw [outside_evict, trial, ← consults_append]
  refine leads_freeing fun n => ?_
  exact h (fun c => { c with stale := c.stale + 1, evicted := c.evicted + 1 }) n

/-- The next resource decides what becomes of the call when it is not stale and gone. -/
theorem leads_checking (fresh : o.trial done.length ≠ .stale) (idle : q.idle = rest)
    (allocated : q.allocated = p.allocated - done.length) :
    (program α).Leads o.outside (.checking deadline r) q (consults done)
      (Acquired p o done (r :: rest)) := by
  have one_less : q.allocated - 1 = p.allocated - (done.length + 1) := by omega
  refine .ask rfl ?_
  rw [outside_isStale]
  cases trial : o.trial done.length with
  | fresh => exact .here (.lent trial idle allocated)
  | stale => exact absurd trial fresh
  | judgingRaises message =>
    refine leads_freeing fun n => .ask rfl (.here ?_)
    show Acquired p o done (r :: rest) (consults done ++ [.isStale r] ++ [.drop r]) _ _
    rw [List.append_assoc]
    exact .judgingRaised trial idle one_less
  | teardownRaises message =>
    refine .ask rfl ?_
    rw [outside_evict, trial, List.append_assoc]
    exact leads_freeing fun n => .here (.teardownRaised trial idle one_less)

/-! ## None idle -/

/-- A resource is made in the slot taken for it, or the slot is given up. -/
theorem leads_creating (room : p.capacity = 0 ∨ p.allocated - done.length < p.capacity)
    (idle : q.idle = []) (allocated : q.allocated = p.allocated - done.length + 1) :
    (program α).Leads o.outside .creating q (consults done) (Acquired p o done []) := by
  have given_up : q.allocated - 1 = p.allocated - done.length := by omega
  refine .ask rfl ?_
  show (program α).Leads o.outside (Call.resume q .creating o.making.reply).2.1
    (Call.resume q .creating o.making.reply).1 (consults done ++ [.create]) _
  cases making : o.making with
  | made r => exact .here (.made room making idle allocated)
  | fails e => exact leads_freeing fun n => .here (.notMade room making idle given_up)
  | raises message =>
    exact leads_freeing fun n => .here (.makingRaised room making idle given_up)

end

/-! ## The whole call -/

/-- An `acquire` in pool `p` that has torn `done` down, when it looks: the pool `q` is `p` without
these and their slots, and the call has a deadline only where waiting has a limit. -/
structure AcquireMidway (p : Pool α) (done : List α) (left : List α) (q : Pool α)
    (deadline : Option Instant) : Prop where
  idle      : q.idle = left
  allocated : q.allocated = p.allocated - done.length
  capacity  : q.capacity = p.capacity
  waitLimit : q.waitLimit = p.waitLimit
  limited   : deadline.isSome = true → ∃ limit, p.waitLimit = some limit

section

variable {p q : Pool α} {o : Outcomes α} {done left rest : List α} {r : α}
  {deadline : Option Instant} {now : Instant}

/-- One more is gone, and a caller was woken. -/
theorem AcquireMidway.next (h : AcquireMidway p done (r :: left) q deadline)
    (f : Counters → Counters) (n : Nat) :
    AcquireMidway p (done ++ [r]) left
      ({ ({ q with idle := left }).count f with allocated := q.allocated - 1 }.notifyOne n)
      deadline where
  idle := rfl
  allocated := by
    show q.allocated - 1 = _
    rw [h.allocated, List.length_append, List.length_singleton]
    omega
  capacity := h.capacity
  waitLimit := h.waitLimit
  limited := h.limited

/-- With none idle there is room, or the time is over, or the call waits. -/
theorem leads_look_nil (h : AcquireMidway p done [] q deadline) :
    (program α).Leads o.outside (q.look deadline now).2.1 (q.look deadline now).1 (consults done)
      (Acquired p o done []) := by
  have room_iff : q.hasRoom = true ↔
      p.capacity = 0 ∨ p.allocated - done.length < p.capacity := by
    rw [hasRoom_iff, h.capacity, h.allocated]
  have looked := looked q deadline now
  generalize (q.look deadline now).1 = q' at looked ⊢
  generalize (q.look deadline now).2.1 = c at looked ⊢
  cases looked with
  | took hi => cases h.idle.symm.trans hi
  | reserved hi hr =>
    exact leads_creating (room_iff.mp hr) hi (congrArg (· + 1) h.allocated)
  | expired hi hr hd =>
    obtain ⟨t, rfl⟩ : ∃ t, deadline = some t := by
      cases deadline with
      | none => cases hd
      | some t => exact ⟨t, rfl⟩
    obtain ⟨limit, hl⟩ := h.limited rfl
    have full : ¬(p.capacity = 0 ∨ p.allocated - done.length < p.capacity) := by
      rw [← room_iff, hr]
      exact nofun
    rw [h.waitLimit, hl]
    exact .here (.refused full hl hi h.allocated)
  | parked hi hr hd =>
    have full : ¬(p.capacity = 0 ∨ p.allocated - done.length < p.capacity) := by
      rw [← room_iff, hr]
      exact nofun
    exact .here (.parked full (List.mem_append_right _ (List.mem_singleton_self _)) hi
      h.allocated)

/-- The call that looks goes through what is left of the stale stretch. -/
theorem leads_look (stale : ∀ j, done.length ≤ j → j < (done ++ left).length → o.trial j = .stale)
    (longest : rest ≠ [] → o.trial (done ++ left).length ≠ .stale)
    (h : AcquireMidway p done (left ++ rest) q deadline) :
    (program α).Leads o.outside (q.look deadline now).2.1 (q.look deadline now).1 (consults done)
      (Acquired p o (done ++ left) rest) := by
  induction left generalizing done q now with
  | nil =>
    rw [List.append_nil] at longest ⊢
    cases rest with
    | nil => exact leads_look_nil h
    | cons r rest =>
      rw [look_idle h.idle]
      exact leads_checking (longest (List.cons_ne_nil _ _)) rfl h.allocated
  | cons r left ih =>
    have tail : done ++ r :: left = done ++ [r] ++ left := List.append_cons ..
    have trial : o.trial done.length = .stale :=
      stale _ (Nat.le_refl _) (by rw [List.length_append, List.length_cons]; omega)
    rw [look_idle h.idle]
    rw [tail] at stale longest ⊢
    refine leads_stale trial fun f n => .step rfl fun t => ?_
    refine ih (fun j hj => stale j ?_) longest (h.next f n)
    rw [List.length_append] at hj
    omega

end

/-- **What `acquire` does.** Of the idle resources of a pool the longest stretch of stale ones comes
first, and `rest` follows it. An `acquire` that is left alone comes to an end, or parks: it asks
about the stretch in order and tears each one down at once; then the head of `rest` decides, or
where nothing is left, whether there is room. -/
theorem acquire_alone (p : Pool α) (o : Outcomes α) (stale rest : List α)
    (idle : p.idle = stale ++ rest) (hs : ∀ j, j < stale.length → o.trial j = .stale)
    (longest : rest ≠ [] → o.trial stale.length ≠ .stale) :
    (program α).Leads o.outside (.start .acquire) p [] (Acquired p o stale rest) := by
  refine .step rfl fun t => ?_
  have limited : (p.deadline? t.start).isSome = true → ∃ limit, p.waitLimit = some limit := by
    intro some
    cases hl : p.waitLimit with
    | none => simp [deadline?, hl] at some
    | some limit => exact ⟨limit, rfl⟩
  have midway : AcquireMidway p [] (stale ++ rest) p (p.deadline? t.start) :=
    ⟨idle, rfl, rfl, rfl, limited⟩
  have stretch : ∀ j, ([] : List α).length ≤ j → j < ([] ++ stale).length → o.trial j = .stale :=
    fun j _ hj => hs j hj
  exact leads_look stretch longest midway

/-- Four idle resources. -/
def fourIdle : Pool Nat := { idle := [0, 1, 2, 3], allocated := 4 }

/-- Every other idle resource is stale. -/
def everyOther : Outcomes Nat where
  trial n := if n % 2 = 0 then .stale else .fresh
  making := .raises "not needed"

theorem acquire_alone_fourIdle : ∃ w, (program Nat).Reach ⟨fourIdle, [[.start .acquire]]⟩ w ∧
    w.stack 0 = [.over (.got 1)] ∧ w.shared.idle = [2, 3] ∧ w.shared.allocated = 3 := by
  have stale : ∀ j, j < [0].length → everyOther.trial j = .stale := by decide
  have comes := acquire_alone fourIdle everyOther [0] [1, 2, 3] rfl stale (by decide)
    ⟨fourIdle, [[.start .acquire]]⟩ 0 [] rfl rfl
  obtain ⟨log, w, reach, call, hw, acquired⟩ := comes.reach
  have top : w.stack 0 = [call] := by
    rw [hw]
    rfl
  cases acquired with
  | lent next idle allocated => exact ⟨w, reach, top, idle, allocated⟩
  | judgingRaised next | teardownRaised next => cases next

end Lending.Pool
