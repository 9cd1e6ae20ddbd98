import Lending.Proofs.Pool.Slots
import Mathlib.Data.List.Nodup
import Mathlib.Data.List.Perm.Subperm

/-!
# No wake-up is lost

A wake-up is told after the lock is free again, it may reach a call that then gives up, and what it
announces may be taken by a newcomer; a surplus resource comes back without any. All the same nobody
sleeps beside a free resource.

* `Ticketed`: every parked ticket is the ticket of one call.
* `WaitersServed`: while anybody is parked, each idle resource and each free slot has a call that
  will see to it: one about to wake somebody, or one that is awake and has not looked yet.
* `no_wakeup_lost`: when no call can take a step and one is parked, nothing is idle and no slot is
  free.

Users are bound to nothing here, not even to give back only what they hold.

There are three kinds of wake-ups: `notify_one` after a resource came back or a slot was given up,
`notify_all` after `remove_idle` has given up the slots of what it took, and `notify_all` after a
`resize` that grows. Each comes after the critical section that it tells of, so there is a moment at
which something is free and nobody has been told. The sum in `WaitersServed` counts these moments. A
`release` above the limit tells nobody, and what it leaves behind is a pool at its limit or above.
-/

namespace Lending.Pool

variable {α : Type}

/-- What can be had at once under a limit: idle resources, and new ones in free slots. -/
def available (p : Pool α) : Nat := p.idle.length + (p.capacity - p.allocated)

namespace Call

/-- The ticket of a call that is parked, or woken and has not looked yet. -/
def tickets : Call α → List Nat
  | .parked ticket _ => [ticket]
  | _ => []

/-- Calls about to wake one caller. -/
def wakesOne : Call α → Nat
  | .notifying _ => 1
  | _ => 0

/-- Calls about to wake everybody. -/
def wakesAll : Call α → Nat
  | .drained _ _ | .grown => 1
  | _ => 0

@[simp] theorem length_tickets (c : Call α) : c.tickets.length = c.waits := by
  cases c <;> rfl

@[simp] theorem tickets_ofThen (next : Then α) : (ofThen next).tickets = [] := by
  cases next <;> rfl

@[simp] theorem wakesOne_ofThen (next : Then α) : (ofThen next).wakesOne = 0 := by
  cases next <;> rfl

/-- A call that is asked or has ended wakes nobody. -/
theorem wakes_of_need {p : Pool α} {c : Call α} (hn : c.need p ≠ .step) :
    c.wakesOne = 0 ∧ c.wakesAll = 0 := by
  cases c with
  | notifying | drained | grown => exact absurd rfl hn
  | start | teardown | retry | checking | evictingStale | creating | parked | freeing | dropping
  | evictingSurplus | evicting | abandoning | «over» | aborted => exact ⟨rfl, rfl⟩

end Call

/-! ## Tickets -/

/-- What a step does to the tickets. -/
inductive Ticketing (p p' : Pool α) (c' : Call α) : Prop
  | kept (hc : c'.tickets = []) (hp : p'.parked.Sublist p.parked)
      (hn : p'.nextTicket = p.nextTicket)
  /-- The call takes the next ticket. -/
  | parks (hc : c'.tickets = [p.nextTicket]) (hp : p'.parked = p.parked ++ [p.nextTicket])
      (hn : p'.nextTicket = p.nextTicket + 1)

theorem Looked.ticketing {p p' : Pool α} {deadline : Option Instant} {now : Instant}
    {c' : Call α} (h : Looked p deadline now p' c') : Ticketing p p' c' := by
  cases h with
  | took | reserved | expired => exact .kept rfl (List.Sublist.refl _) rfl
  | parked => exact .parks rfl rfl rfl

namespace Call

variable {m : Moment} {p p' : Pool α} {c c' : Call α} {r : Reply α}

theorem Steps.ticketing (h : Steps m p c p' c') : Ticketing p p' c' := by
  cases h with
  | acquire h | retry h => exact h.ticketing
  | woken _ h =>
    cases h.ticketing with
    | kept hc hp hn => exact .kept hc hp hn
    | parks hc hp hn => exact .parks hc hp hn
  | notify next => exact .kept (tickets_ofThen next) (List.eraseIdx_sublist ..) rfl
  | wakeDrained | wakeGrown => exact .kept rfl (List.nil_sublist _) rfl
  | grow n hg | shrink n hg => exact .kept rfl (List.Sublist.refl _) rfl
  | free | surplus | putBack | nothingIdle | drain | setWaitLimit | nothingLeft | closeDown =>
    exact .kept rfl (List.Sublist.refl _) rfl

/-- Only a call whose ticket is gone goes on. -/
theorem Steps.notMem_parked (h : Steps m p c p' c') : ∀ t ∈ c.tickets, t ∉ p.parked := by
  cases h with
  | woken ht _ =>
    intro t hmem
    rw [List.mem_singleton.mp hmem]
    exact ht
  | acquire | retry | free | notify | surplus | putBack | nothingIdle | drain | wakeDrained | grow
  | shrink | wakeGrown | setWaitLimit | nothingLeft | closeDown => exact nofun

/-- An answer wakes nobody. -/
theorem Answered.wakes (h : Answered c r c') (hc : c.wakesOne = 0 ∧ c.wakesAll = 0) :
    c'.wakesOne = 0 ∧ c'.wakesAll = 0 := by
  cases h with
  | evicted _ rest => cases rest <;> exact ⟨rfl, rfl⟩
  | evictRaised _ rest | abandoned _ rest => cases rest <;> exact ⟨rfl, rfl⟩
  | unasked => exact hc
  | stale | fresh | checkRaised | staleEvicted | staleRaised | created | notCreated | createRaised
  | dropped | dropRaised | discarded | discardRaised | surplusEvicted | surplusRaised
  | abandonRaised => exact ⟨rfl, rfl⟩

theorem Answered.tickets (h : Answered c r c') : c'.tickets = c.tickets := by
  cases h with
  | evicted _ rest => cases rest <;> rfl
  | evictRaised _ rest | abandoned _ rest => cases rest <;> rfl
  | stale | fresh | checkRaised | staleEvicted | staleRaised | created | notCreated | createRaised
  | dropped | dropRaised | discarded | discardRaised | surplusEvicted | surplusRaised
  | abandonRaised | unasked => rfl

end Call

/-- Every parked ticket is that of one call. -/
structure Ticketed (w : World (Pool α) (Call α)) : Prop where
  distinct : (w.gather Call.tickets).Nodup
  parked   : w.shared.parked.Nodup
  known    : ∀ t ∈ w.shared.parked, t ∈ w.gather Call.tickets
  issued   : ∀ t ∈ w.gather Call.tickets, t < w.shared.nextTicket

namespace Ticketed

variable {w w' : World (Pool α) (Call α)}

/-- The calls keep their tickets, and some of them are woken. -/
theorem of_perm (ht : Ticketed w) (hg : (w'.gather Call.tickets).Perm (w.gather Call.tickets))
    (hp : w'.shared.parked.Sublist w.shared.parked)
    (hn : w'.shared.nextTicket = w.shared.nextTicket) : Ticketed w' where
  distinct := hg.nodup_iff.mpr ht.distinct
  parked := ht.parked.sublist hp
  known := fun t h => hg.mem_iff.mpr (ht.known t (hp.subset h))
  issued := fun t h => by rw [hn]; exact ht.issued t (hg.mem_iff.mp h)

/-- A call whose ticket is gone takes a step. -/
theorem step {i : Nat} {c c' : Call α} {below : List (Call α)} {p' : Pool α} (ht : Ticketed w)
    (hst : w.stack i = c :: below) (gone : ∀ t ∈ c.tickets, t ∉ w.shared.parked)
    (h : Ticketing w.shared p' c') : Ticketed (w.update i p' (c' :: below)) := by
  have moved := World.gather_replace (g := Call.tickets) hst p' c'
  obtain ⟨distinct, parked, known, issued⟩ := ht
  have own : ∀ t ∈ c.tickets, t < w.shared.nextTicket :=
    fun t h => issued t (World.mem_gather_of_stack hst h)
  cases h with
  | kept hc hp hn =>
    rw [hc, List.nil_append] at moved
    refine ⟨?_, parked.sublist hp, ?_, ?_⟩
    · exact (moved.nodup_iff.mpr distinct : List.Nodup _).of_append_right
    · intro t h
      have before := hp.subset h
      rcases List.mem_append.mp (moved.mem_iff.mpr (known t before)) with own | other
      · exact absurd before (gone t own)
      · exact other
    · intro t h
      show t < p'.nextTicket
      rw [hn]
      exact issued t (moved.mem_iff.mp (List.mem_append_right _ h))
  | parks hc hp hn =>
    rw [hc, List.singleton_append] at moved
    have fresh : w.shared.nextTicket ∉ w.gather Call.tickets :=
      fun h => Nat.lt_irrefl _ (issued _ h)
    refine ⟨?_, ?_, ?_, ?_⟩
    · have : List.Nodup _ := moved.nodup_iff.mpr (List.nodup_cons.mpr ⟨fresh, distinct⟩)
      exact this.of_append_right
    · show p'.parked.Nodup
      rw [hp, List.nodup_append]
      refine ⟨parked, List.nodup_singleton _, ?_⟩
      rintro t h u hu rfl
      rw [List.mem_singleton] at hu
      exact fresh (known _ (hu ▸ h))
    · intro t h
      have h : t ∈ p'.parked := h
      rw [hp, List.mem_append, List.mem_singleton] at h
      have : t ∈ c.tickets ++ (w.update i p' (c' :: below)).gather Call.tickets := by
        rw [moved.mem_iff, List.mem_cons]
        exact h.symm.imp_right (known t)
      rcases List.mem_append.mp this with mine | other
      · rcases h with h | rfl
        · exact absurd h (gone t mine)
        · exact absurd (own _ mine) (Nat.lt_irrefl _)
      · exact other
    · intro t h
      show t < p'.nextTicket
      have := moved.mem_iff.mp (List.mem_append_right _ h)
      rw [List.mem_cons] at this
      rw [hn]
      rcases this with rfl | h
      · exact Nat.lt_succ_self _
      · exact Nat.lt_succ_of_lt (issued t h)

/-- **A move keeps the tickets in order.** -/
theorem move {m : Move (Op α) (Reply α)} {notices : List Notice} (ht : Ticketed w)
    (ha : (program α).apply w m = some (w', notices)) : Ticketed w' := by
  cases moved ha with
  | spawn => exact ht.of_perm (by simp) (List.Sublist.refl _) rfl
  | enter op hi =>
    have pushed := World.gather_push (g := Call.tickets) hi w.shared (.start op)
    exact ht.of_perm pushed (List.Sublist.refl _) rfl
  | step hst h => exact ht.step hst h.notMem_parked h.ticketing
  | @answer i r c c' below _ f hst _ _ h =>
    have replaced := World.gather_replace (g := Call.tickets) hst (w.shared.count f) c'
    rw [h.tickets, List.perm_append_left_iff] at replaced
    exact ht.of_perm replaced (List.Sublist.refl _) rfl
  | expire hst => exact ht.of_perm (List.Perm.refl _) List.filter_sublist rfl
  | collect hst =>
    have popped := World.gather_pop (g := Call.tickets) hst w.shared
    exact ht.of_perm popped (List.Sublist.refl _) rfl

theorem of_reach {l : Limits} (h : (program α).Reach (World.init (.ofLimits l)) w) :
    Ticketed w := by
  induction h with
  | refl => exact ⟨List.nodup_nil, List.nodup_nil, nofun, nofun⟩
  | move m _ ha ih => exact ih.move ha

theorem total_waits : w.total Call.waits = (w.gather Call.tickets).length := by
  rw [World.length_gather]
  simp only [Call.length_tickets]

/-- Nobody is parked who does not wait. -/
theorem parked_le (ht : Ticketed w) : w.shared.parked.length ≤ w.total Call.waits := by
  rw [total_waits]
  exact (List.subperm_of_subset ht.parked ht.known).length_le

/-- If all who wait are parked, there are no more of them. -/
theorem waits_le (ht : Ticketed w) (h : ∀ t ∈ w.gather Call.tickets, t ∈ w.shared.parked) :
    w.total Call.waits ≤ w.shared.parked.length := by
  rw [total_waits]
  exact (List.subperm_of_subset ht.distinct h).length_le

end Ticketed

/-! ## Wake-ups -/

/-- What a step does to the wake-ups that are due. -/
inductive Waking (p : Pool α) (c : Call α) (p' : Pool α) (c' : Call α) : Prop
  /-- Nobody is parked any more. -/
  | nobody (h : p'.parked = [])
  /-- Everybody is about to be woken. -/
  | everybody (h : c'.wakesAll = 1)
  /-- There was nothing to take. -/
  | nothing (hc : p'.capacity ≠ 0) (ha : p'.available = 0)
  /-- What comes free, what is taken and who is woken keep pace. -/
  | relayed (hc : p.capacity ≠ 0 → p'.capacity ≠ 0)
      (hp : p'.parked.length ≤ p.parked.length) (hw : c.wakesAll = 0)
      (ha : p.capacity ≠ 0 → p'.available + p'.parked.length + c.wakesOne + c.waits ≤
        p.available + p.parked.length + c'.wakesOne + c'.waits)

theorem available_eq_zero {p : Pool α} (hi : p.idle = []) (hr : p.hasRoom = false) :
    p.capacity ≠ 0 ∧ p.available = 0 := by
  have full : ¬ (p.capacity = 0 ∨ p.allocated < p.capacity) := by
    rw [← hasRoom_iff, hr]
    exact Bool.false_ne_true
  refine ⟨fun h => full (Or.inl h), ?_⟩
  unfold available
  rw [hi, List.length_nil]
  omega

theorem Looked.waking {p p' : Pool α} {deadline : Option Instant} {now : Instant} {c c' : Call α}
    (h : Looked p deadline now p' c') (hw : c.wakesOne = 0 ∧ c.wakesAll = 0) (hc : c.waits ≤ 1) :
    Waking p c p' c' := by
  cases h with
  | took hi =>
    refine .relayed id (Nat.le_refl _) hw.2 fun _ => ?_
    simp only [available, hi, List.length_cons, hw.1]
    omega
  | reserved hi hr =>
    refine .relayed id (Nat.le_refl _) hw.2 fun hcap => ?_
    rw [hasRoom_iff] at hr
    simp only [available, hi, List.length_nil, hw.1]
    omega
  | expired hi hr hd =>
    have := available_eq_zero hi hr
    exact .nothing this.1 this.2
  | parked hi hr hd =>
    have := available_eq_zero hi hr
    exact .nothing this.1 this.2

/-- **Every step sees to what it sets free**: it wakes as many as it makes room for, or everybody,
unless nobody is parked or nothing is free. -/
theorem Call.Steps.waking {m : Moment} {p p' : Pool α} {c c' : Call α} (h : Steps m p c p' c') :
    Waking p c p' c' := by
  cases h with
  | acquire h | retry h => exact h.waking ⟨rfl, rfl⟩ (Nat.zero_le 1)
  | woken _ h =>
    cases h.waking (c := .parked _ _) ⟨rfl, rfl⟩ (Nat.le_refl 1) with
    | nobody h => exact .nobody h
    | everybody h => exact .everybody h
    | nothing hc ha => exact .nothing hc ha
    | relayed hc hp hw ha => exact .relayed hc hp hw ha
  | free next =>
    refine .relayed id (Nat.le_refl _) rfl fun _ => ?_
    simp only [available, wakesOne, waits]
    omega
  | notify next =>
    cases hp : p.parked with
    | nil => exact .nobody (by simp [notifyOne, hp])
    | cons t ts =>
      have woken : (p.notifyOne m.pick).parked.length + 1 = p.parked.length := by
        have : m.pick % p.parked.length < p.parked.length :=
          Nat.mod_lt _ (by rw [hp]; exact Nat.succ_pos _)
        simp only [notifyOne, List.length_eraseIdx_of_lt this]
        omega
      refine .relayed id (by omega) rfl fun _ => ?_
      rw [wakesOne_ofThen, waits_ofThen]
      simp only [available, wakesOne, waits, idle_notifyOne, capacity_notifyOne,
        allocated_notifyOne]
      omega
  | surplus r ho =>
    -- the slot that is given up is one above the limit, so none comes free
    refine .relayed id (Nat.le_refl _) rfl fun _ => ?_
    rw [overCapacity_iff] at ho
    simp only [available, wakesOne, waits]
    omega
  | putBack r ho =>
    refine .relayed id (Nat.le_refl _) rfl fun _ => ?_
    simp only [available, wakesOne, waits, idle_count, capacity_count, allocated_count,
      parked_count, List.length_append, List.length_singleton]
    omega
  | drain hi => exact .everybody rfl
  | wakeDrained | wakeGrown => exact .nobody rfl
  | grow n hg => exact .everybody rfl
  | shrink n hg =>
    have small : ¬ (n = 0 ∨ p.capacity ≠ 0 ∧ p.capacity < n) := by
      rw [← grows_iff, hg]
      exact Bool.false_ne_true
    refine .relayed (fun _ => fun h => small (Or.inl h)) (Nat.le_refl _) rfl fun hc => ?_
    simp only [available, wakesOne, waits]
    omega
  | nothingIdle | setWaitLimit | nothingLeft =>
    exact .relayed id (Nat.le_refl _) rfl fun _ => Nat.le_refl _
  | closeDown hi =>
    refine .relayed id (Nat.le_refl _) rfl fun _ => ?_
    simp only [available, wakesOne, waits, List.length_nil]
    omega

/-- While anybody is parked, everybody is about to be woken, or there is a limit and each idle
resource and each free slot has a call that will see to it: one about to wake somebody, or one of
those that wait without being parked. -/
def WaitersServed (w : World (Pool α) (Call α)) : Prop :=
  w.shared.parked = [] ∨ 0 < w.total Call.wakesAll ∨
    w.shared.capacity ≠ 0 ∧
      w.shared.available + w.shared.parked.length ≤ w.total Call.wakesOne + w.total Call.waits

namespace WaitersServed

variable {w w' : World (Pool α) (Call α)}

/-- A change that neither wakes nor sets free anything. -/
theorem of_total (hs : WaitersServed w) (one : w'.total Call.wakesOne = w.total Call.wakesOne)
    (all : w'.total Call.wakesAll = w.total Call.wakesAll)
    (waits : w'.total Call.waits = w.total Call.waits)
    (parked : w'.shared.parked = w.shared.parked)
    (capacity : w'.shared.capacity = w.shared.capacity)
    (available : w'.shared.available = w.shared.available) : WaitersServed w' := by
  unfold WaitersServed at hs ⊢
  rw [one, all, waits, parked, capacity, available]
  exact hs

theorem step {i : Nat} {c c' : Call α} {below : List (Call α)} {p' : Pool α} (hs : WaitersServed w)
    (hst : w.stack i = c :: below) (h : Waking w.shared c p' c')
    (ht : Ticketed (w.update i p' (c' :: below))) :
    WaitersServed (w.update i p' (c' :: below)) := by
  have one := World.total_replace Call.wakesOne hst p' c'
  have all := World.total_replace Call.wakesAll hst p' c'
  have waits := World.total_replace Call.waits hst p' c'
  have parked_le := ht.parked_le
  unfold WaitersServed at hs ⊢
  simp only [World.shared_update] at parked_le ⊢
  cases h with
  | nobody h => exact Or.inl h
  | everybody h =>
    have := w.le_total Call.wakesAll (World.mem_frames_of_stack hst)
    exact Or.inr (Or.inl (by omega))
  | nothing hc ha => exact Or.inr (Or.inr ⟨hc, by omega⟩)
  | relayed hc hp hw ha =>
    rcases hs with hs | hs | ⟨hcap, hs⟩
    · refine Or.inl (List.eq_nil_of_length_eq_zero ?_)
      rw [hs] at hp
      exact Nat.le_zero.mp hp
    · exact Or.inr (Or.inl (by omega))
    · have := ha hcap
      exact Or.inr (Or.inr ⟨hc hcap, by omega⟩)

/-- **A move keeps everybody served.** -/
theorem move {m : Move (Op α) (Reply α)} {notices : List Notice} (hs : WaitersServed w)
    (ht : Ticketed w) (ha : (program α).apply w m = some (w', notices)) : WaitersServed w' := by
  have ht' := ht.move ha
  cases moved ha with
  | spawn => simpa [WaitersServed] using hs
  | enter op hi =>
    have one := World.total_push Call.wakesOne hi w.shared (.start op)
    have all := World.total_push Call.wakesAll hi w.shared (.start op)
    have waits := World.total_push Call.waits hi w.shared (.start op)
    exact hs.of_total one all waits rfl rfl rfl
  | step hst h => exact hs.step hst h.waking ht'
  | @answer i r c c' below _ f hst hn _ h =>
    have before := Call.wakes_of_need (p := w.shared) (c := c) (by simp [hn])
    have after := h.wakes before
    have waited := h.waits
    have one := World.total_replace Call.wakesOne hst (w.shared.count f) c'
    have all := World.total_replace Call.wakesAll hst (w.shared.count f) c'
    have waits := World.total_replace Call.waits hst (w.shared.count f) c'
    rw [after.1, before.1] at one
    rw [after.2, before.2] at all
    rw [waited] at waits
    exact hs.of_total one all (by omega) rfl rfl rfl
  | @expire i ticket deadline below hst =>
    have fewer : (w.shared.unpark ticket).parked.length ≤ w.shared.parked.length :=
      List.length_filter_le ..
    rcases hs with hs | hs | ⟨hcap, hs⟩
    · refine Or.inl (List.eq_nil_of_length_eq_zero ?_)
      rw [hs] at fewer
      exact Nat.le_zero.mp fewer
    · exact Or.inr (Or.inl hs)
    · refine Or.inr (Or.inr ⟨hcap, ?_⟩)
      exact Nat.le_trans (Nat.add_le_add_left fewer _) hs
  | collect hst =>
    have one := World.total_pop Call.wakesOne hst w.shared
    have all := World.total_pop Call.wakesAll hst w.shared
    have waits := World.total_pop Call.waits hst w.shared
    exact hs.of_total one all waits rfl rfl rfl

theorem of_reach {l : Limits} (h : (program α).Reach (World.init (.ofLimits l)) w) :
    WaitersServed w := by
  induction h with
  | refl => exact Or.inl rfl
  | move m h ha ih => exact ih.move (.of_reach h) ha

end WaitersServed

/-! ## Sleeping beside nothing -/

/-- **No wake-up is lost.** In every world that a run from a fresh pool comes to, whatever users
and callbacks do: if a call is parked and no call can take a step, then nothing is idle, and there
is a limit and no slot is free. -/
theorem no_wakeup_lost (l : Limits) {w : World (Pool α) (Call α)}
    (h : (program α).Reach (World.init (.ofLimits l)) w)
    (quiet : ∀ i, (program α).status w i ≠ .ready) {ticket : Nat} {deadline : Option Instant}
    (sleeps : .parked ticket deadline ∈ w.frames) :
    w.shared.idle = [] ∧ 0 < w.shared.capacity ∧ w.shared.capacity ≤ w.shared.allocated := by
  have still : ∀ c ∈ w.frames, c.need w.shared ≠ .step :=
    fun c hc => Program.need_ne_step_of_quiet program_flat program_steady h quiet hc
  have ht := Ticketed.of_reach h
  have asleep : ∀ t ∈ w.gather Call.tickets, t ∈ w.shared.parked := by
    intro t hmem
    obtain ⟨c, hc, hct⟩ := World.mem_gather.mp hmem
    cases c with
    | parked ticket deadline =>
      obtain rfl : t = ticket := List.mem_singleton.mp hct
      by_contra gone
      exact still _ hc (if_neg gone)
    | _ => exact absurd hct nofun
  have waits := ht.waits_le asleep
  have one : w.total Call.wakesOne = 0 :=
    World.total_eq_zero fun c hc => (Call.wakes_of_need (still c hc)).1
  have all : w.total Call.wakesAll = 0 :=
    World.total_eq_zero fun c hc => (Call.wakes_of_need (still c hc)).2
  rcases WaitersServed.of_reach h with hs | hs | ⟨hcap, hs⟩
  · have : ticket ∈ w.shared.parked :=
      asleep ticket (World.mem_gather.mpr ⟨_, sleeps, List.mem_singleton_self ticket⟩)
    rw [hs] at this
    exact absurd this List.not_mem_nil
  · omega
  · unfold available at hs
    refine ⟨List.eq_nil_of_length_eq_zero (by omega), by omega, by omega⟩

theorem no_wakeup_lost_oneForTwo :
    (program Nat).Reach (World.init (.ofLimits { size := 1 })) oneWaiting ∧
    (∀ i, (program Nat).status oneWaiting i ≠ .ready) ∧ .parked 0 none ∈ oneWaiting.frames ∧
    oneWaiting.shared.idle = [] ∧ 0 < oneWaiting.shared.capacity ∧
    oneWaiting.shared.capacity ≤ oneWaiting.shared.allocated := by
  have run : (program Nat).Reach (World.init (.ofLimits { size := 1 })) oneWaiting :=
    Program.reach_of_run? (show (program Nat).run? _ oneForTwo = some oneWaiting from rfl)
  have quiet : ∀ i, (program Nat).status oneWaiting i ≠ .ready := fun
    | 0 | 1 | _ + 2 => nofun
  have sleeps : .parked 0 none ∈ oneWaiting.frames := List.mem_cons_self
  exact ⟨run, quiet, sleeps, no_wakeup_lost { size := 1 } run quiet sleeps⟩

end Lending.Pool
