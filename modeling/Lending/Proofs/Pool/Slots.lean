import Lending.Proofs.Pool.Call

/-!
# Slots add up

`Pool.allocated` counts the slots. Every slot is with an idle resource, with a lent one that has not
come back, or with an `acquire` whose resource is being judged, torn down or made; and
`Pool.waiting` counts the calls that are parked, or woken and have not looked yet.

Callers are bound to one promise: they give back only what they hold. A `Lendings` record keeps what
they hold, and `Lendings.note` objects to a give-back of anything else. Callbacks are bound to
nothing: they may answer anything, fail, raise, and use the pool meanwhile.

* `waiting_eq_total`: the count of waiting calls is right in every run, whatever callers give back.
* `slots_accounted`: both counts hold in every world of every such run; slots are only taken by a
  reservation with room, so a pool whose limit never changed never exceeds it; and no step gives up
  more slots than are taken.

A discard lets go of the resource before it gives up the slot. Should letting go raise, the slot
stays taken (`Lendings.cutShort`): the discard never takes effect.

Slots are taken in one place and given up in three. `acquire` takes one in the critical section in
which `has_room` held; `release` above the limit and `remove_idle` give slots up in theirs, and all
that is left goes through `free_slot`: a stale resource, an attempt to make one that failed or
raised, and a `discard`. `SlotChange` says of every move which of these it is. That `allocated -= 1`
never meets a zero is the third part of the theorem, and holds at each of the subtractions.
-/

namespace Lending.Pool

variable {α : Type}

namespace Call

/-- Lent resources in a call's hands: about to be handed to the caller, or given back with the
giving back not in effect yet. -/
def lent : Call α → Nat
  | .over (.got _) | .start (.release _) | .start (.discard _) | .freeing .finish => 1
  | _ => 0

/-- Slots of an `acquire` whose resource is being judged, torn down or made, until the slot is
kept by the resource or given up. -/
def holds : Call α → Nat
  | .checking _ _ | .evictingStale _ _ | .creating => 1
  | .freeing .finish => 0
  | .freeing _ => 1
  | _ => 0

/-- Calls that are parked, or woken and have not looked yet. -/
def waits : Call α → Nat
  | .parked _ _ => 1
  | _ => 0

/-- Slots that the next step of a call gives up. -/
def surrenders (p : Pool α) : Call α → Nat
  | .freeing _ => 1
  | .start (.release _) => if p.overCapacity then 1 else 0
  | .start .removeIdle => p.idle.length
  | _ => 0

/-- Slots lost by an answer: a discard ends early when letting go of its resource raises. -/
def loses : Call α → Reply α → Nat
  | .start (.discard _), .raised _ => 1
  | _, _ => 0

end Call

/-- What is recorded of the lendings of a pool. -/
structure Lendings (α : Type) where
  /-- The resources that callers hold. -/
  held     : List α := []
  /-- Discards that ended before their slot was given up. -/
  cutShort : Nat := 0
  /-- Whether a change of the limit was ever asked for. -/
  resized  : Bool := false

namespace Lendings

/-- A move is written down; one by which a caller gives back what it does not hold is objected
to. -/
def note [DecidableEq α] (L : Lendings α) (w : World (Pool α) (Call α)) :
    Move (Op α) (Reply α) → World (Pool α) (Call α) → Option (Lendings α)
  | .enter _ (.release r), _ | .enter _ (.discard r), _ =>
    if r ∈ L.held then some { L with held := L.held.erase r } else none
  | .enter _ (.resize _), _ => some { L with resized := true }
  | .answer i reply, _ =>
    match w.stack i with
    | c :: _ => some { L with cutShort := L.cutShort + c.loses reply }
    | [] => some L
  | .collect i, _ =>
    match w.stack i with
    | c :: _ => some { L with held := c.handed ++ L.held }
    | [] => some L
  | _, _ => some L

/-- A record without a change of the limit had none before, and none was asked for since. -/
theorem resized_of_note [DecidableEq α] {L L' : Lendings α} {w w' : World (Pool α) (Call α)}
    {m : Move (Op α) (Reply α)} (h : L.note w m w' = some L') (hL : L'.resized = false) :
    L.resized = false ∧ ∀ i n, m ≠ .enter i (.resize n) := by
  cases m with
  | enter i op =>
    cases op with
    | release r | discard r =>
      simp only [note, Option.ite_none_right_eq_some, Option.some.injEq] at h
      obtain ⟨-, rfl⟩ := h
      exact ⟨hL, nofun⟩
    | resize n =>
      cases h
      exact absurd hL nofun
    | acquire | removeIdle | setWaitLimit =>
      cases h
      exact ⟨hL, nofun⟩
  | answer i r =>
    simp only [note] at h
    split at h <;> cases h <;> exact ⟨hL, nofun⟩
  | collect i =>
    simp only [note] at h
    split at h <;> cases h <;> exact ⟨hL, nofun⟩
  | spawn | run | expire =>
    cases h
    exact ⟨hL, nofun⟩

end Lendings

/-! ## What one step does to the counts -/

theorem Looked.slots {p p' : Pool α} {deadline : Option Instant} {now : Instant} {c' : Call α}
    (h : Looked p deadline now p' c') :
    p'.allocated + p.idle.length = p.allocated + p'.idle.length + (c'.lent + c'.holds) := by
  cases h with
  | took hi => simp [hi, Call.lent, Call.holds]; omega
  | reserved hi hr => simp [hi, Call.lent, Call.holds]
  | expired hi hr hd => simp [Call.lent, Call.holds]
  | parked hi hr hd => simp [Call.lent, Call.holds]

theorem Looked.waiting {p p' : Pool α} {deadline : Option Instant} {now : Instant} {c' : Call α}
    (h : Looked p deadline now p' c') : p'.waiting = p.waiting + c'.waits := by
  cases h <;> simp [Call.waits]

theorem Looked.allocated {p p' : Pool α} {deadline : Option Instant} {now : Instant} {c' : Call α}
    (h : Looked p deadline now p' c') : p'.allocated = p.allocated ∨
      p'.allocated = p.allocated + 1 ∧ p.hasRoom = true := by
  cases h with
  | reserved hi hr => exact Or.inr ⟨rfl, hr⟩
  | took | expired | parked => exact Or.inl rfl

theorem Looked.capacity {p p' : Pool α} {deadline : Option Instant} {now : Instant} {c' : Call α}
    (h : Looked p deadline now p' c') : p'.capacity = p.capacity := by
  cases h <;> rfl

namespace Call

variable {m : Moment} {p p' : Pool α} {c c' : Call α} {r : Reply α}

@[simp] theorem lent_ofThen (next : Then α) : (ofThen next).lent = 0 := by
  cases next <;> rfl

@[simp] theorem holds_ofThen (next : Then α) : (ofThen next).holds = 0 := by
  cases next <;> rfl

@[simp] theorem waits_ofThen (next : Then α) : (ofThen next).waits = 0 := by
  cases next <;> rfl

@[simp] theorem lent_add_holds_freeing (next : Then α) :
    (freeing next).lent + (freeing next).holds = 1 := by
  cases next <;> rfl

@[simp] theorem lent_evictAll (counted : Bool) (rs : List α) : (evictAll counted rs).lent = 0 := by
  cases rs <;> rfl

@[simp] theorem holds_evictAll (counted : Bool) (rs : List α) :
    (evictAll counted rs).holds = 0 := by
  cases rs <;> rfl

@[simp] theorem waits_evictAll (counted : Bool) (rs : List α) :
    (evictAll counted rs).waits = 0 := by
  cases rs <;> rfl

@[simp] theorem lent_abandonAll (message : String) (rs : List α) :
    (abandonAll message rs).lent = 0 := by
  cases rs <;> rfl

@[simp] theorem holds_abandonAll (message : String) (rs : List α) :
    (abandonAll message rs).holds = 0 := by
  cases rs <;> rfl

@[simp] theorem waits_abandonAll (message : String) (rs : List α) :
    (abandonAll message rs).waits = 0 := by
  cases rs <;> rfl

/-- What a step gives up is covered by the call itself or by the idle resources. -/
theorem surrenders_le (p : Pool α) (c : Call α) :
    c.surrenders p ≤ p.idle.length + (c.lent + c.holds) := by
  unfold surrenders
  split
  · rw [lent_add_holds_freeing]; omega
  · split <;> simp only [lent] <;> omega
  · omega
  · omega

/-- **A step moves slots, it never makes or loses one**: what is taken beyond the idle resources
changes as the call's own share does. Only the end of the pool, which nobody counts after, is
left out. -/
theorem Steps.slots (h : Steps m p c p' c') (hc : c ≠ .teardown)
    (hle : c.surrenders p ≤ p.allocated) :
    p'.allocated + p.idle.length + (c.lent + c.holds) =
      p.allocated + p'.idle.length + (c'.lent + c'.holds) := by
  cases h with
  | acquire h | retry h | woken _ h =>
    have := h.slots
    simpa [lent, holds] using this
  | free next =>
    simp only [surrenders] at hle
    rw [lent_add_holds_freeing]
    simp only [lent, holds]
    omega
  | notify next => rw [lent_ofThen, holds_ofThen]; rfl
  | surplus r ho =>
    simp only [surrenders, ho, if_true] at hle
    simp only [lent, holds]
    omega
  | putBack r ho => simp [lent, holds]; omega
  | nothingIdle hi => simp [lent, holds]
  | drain hi =>
    simp only [surrenders] at hle
    simp only [lent, holds, List.length_nil]
    omega
  | wakeDrained r rest => simp [lent, holds]
  | grow n hg => simp [lent, holds]
  | shrink n hg => simp [lent, holds]
  | wakeGrown => simp [lent, holds]
  | setWaitLimit d => simp [lent, holds]
  | nothingLeft hi | closeDown hi => exact absurd rfl hc

/-- A step changes the number of waiting calls as the call's own share does. -/
theorem Steps.waiting (h : Steps m p c p' c') (hle : c.waits ≤ p.waiting) :
    p'.waiting + c.waits = p.waiting + c'.waits := by
  cases h with
  | acquire h | retry h =>
    have := h.waiting
    simpa [waits] using this
  | woken _ h =>
    have := h.waiting
    simp only [waits] at this hle ⊢
    omega
  | notify next => rw [waits_ofThen]; rfl
  | free | surplus | putBack | nothingIdle | drain | wakeDrained | grow | shrink | wakeGrown
  | setWaitLimit | nothingLeft | closeDown => rfl

/-- **A step gives up the slots it says, or reserves one where there is room.** -/
theorem Steps.allocated (h : Steps m p c p' c') :
    p'.allocated = p.allocated - c.surrenders p ∨
      p'.allocated = p.allocated + 1 ∧ p.hasRoom = true := by
  cases h with
  | acquire h | retry h | woken _ h => exact h.allocated
  | surplus r ho => exact Or.inl (by simp [surrenders, ho])
  | putBack r ho => exact Or.inl (by simp [surrenders, ho])
  | free | notify | nothingIdle | drain | wakeDrained | grow | shrink | wakeGrown | setWaitLimit
  | nothingLeft | closeDown => exact Or.inl (by simp_all [surrenders])

/-- A step changes the limit only where a change was asked for. -/
theorem Steps.capacity (h : Steps m p c p' c') (hc : ∀ n, c ≠ .start (.resize n)) :
    p'.capacity = p.capacity := by
  cases h with
  | acquire h | retry h | woken _ h => exact h.capacity
  | grow n | shrink n => exact absurd rfl (hc n)
  | free | notify | surplus | putBack | nothingIdle | drain | wakeDrained | wakeGrown
  | setWaitLimit | nothingLeft | closeDown => rfl

/-- An answer moves slots within a call, or loses the one of a discard that ends early. -/
theorem Answered.slots (h : Answered c r c') :
    c'.lent + c'.holds + c.loses r = c.lent + c.holds := by
  cases h with
  | evicted => rw [lent_evictAll, holds_evictAll]; rfl
  | evictRaised | abandoned => rw [lent_abandonAll, holds_abandonAll]; rfl
  | unasked ht =>
    have : c.loses r = 0 := by
      unfold loses
      split
      · exact absurd ht nofun
      · rfl
    omega
  | stale | fresh | checkRaised | staleEvicted | staleRaised | created | notCreated | createRaised
  | dropped | dropRaised | discarded | discardRaised | surplusEvicted | surplusRaised
  | abandonRaised => rfl

/-- The result of a call that has ended is the caller's, slot and all. -/
theorem collected {p : Pool α} (hn : c.need p = .over r) :
    c.handed.length = c.lent ∧ c.holds = 0 ∧ c.waits = 0 := by
  cases c with
  | «over» result => cases result <;> exact ⟨rfl, rfl, rfl⟩
  | start op => cases op <;> exact absurd hn nofun
  | parked ticket deadline =>
    revert hn
    show (if ticket ∈ p.parked then Need.wait else Need.step) = _ → _
    split <;> exact nofun
  | _ => exact absurd hn nofun

theorem Answered.waits (h : Answered c r c') : c'.waits = c.waits := by
  cases h with
  | evicted => exact waits_evictAll ..
  | evictRaised | abandoned => exact waits_abandonAll ..
  | unasked ht => rfl
  | stale | fresh | checkRaised | staleEvicted | staleRaised | created | notCreated | createRaised
  | dropped | dropRaised | discarded | discardRaised | surplusEvicted | surplusRaised
  | abandonRaised => rfl

end Call

/-! ## What a run does to the counts -/

/-- The end of a pool is not one of its operations. -/
theorem ne_teardown_of_reach {p : Pool α} {w : World (Pool α) (Call α)}
    (h : (program α).Reach (World.init p) w) : ∀ c ∈ w.frames, c ≠ .teardown := by
  refine Program.forall_frames_of_reach ?_ ?_ ?_ ?_ h
  · exact fun op => show Call.start op ≠ .teardown from nofun
  · rintro m s c s' _ notices - hn he rfl
    exact absurd (Call.steps hn he).begun nofun
  · exact fun {s c c'} _ hn => absurd hn (program_flat s c c')
  · rintro s c r s' _ notices hc - he rfl
    exact (Call.answered he).begun.elim nofun fun h => hc h.symm

/-- A move changes the count of waiting calls as it changes the calls. -/
theorem waiting_of_apply {w w' : World (Pool α) (Call α)} {m : Move (Op α) (Reply α)}
    {notices : List Notice} (hw : w.shared.waiting = w.total Call.waits)
    (ha : (program α).apply w m = some (w', notices)) :
    w'.shared.waiting = w'.total Call.waits := by
  cases moved ha with
  | spawn => simpa using hw
  | enter op hi =>
    have waits : (w.update _ w.shared (Call.start op :: w.stack _)).total Call.waits = _ :=
      World.total_push Call.waits hi w.shared (.start op)
    exact hw.trans waits.symm
  | @step i _ c c' below p' hst h =>
    have le : c.waits ≤ w.shared.waiting :=
      hw ▸ w.le_total Call.waits (World.mem_frames_of_stack hst)
    have waited := h.waiting le
    have waits := World.total_replace Call.waits hst p' c'
    simp only [World.shared_update]
    omega
  | @answer i r c c' below _ f hst _ _ h =>
    have waits := World.total_replace Call.waits hst (w.shared.count f) c'
    have waited := h.waits
    simp only [World.shared_update, waiting_count]
    omega
  | expire hst => exact hw
  | collect hst => exact hw.trans (World.total_pop Call.waits hst w.shared).symm

/-- **The pool counts as waiting the calls that are parked**, or woken and have not looked yet. -/
theorem waiting_eq_total {l : Limits} {w : World (Pool α) (Call α)}
    (h : (program α).Reach (World.init (.ofLimits l)) w) :
    w.shared.waiting = w.total Call.waits := by
  induction h with
  | refl => rfl
  | move m _ ha ih => exact waiting_of_apply ih ha

/-- The counts of a world add up. -/
structure Balanced (L : Lendings α) (w : World (Pool α) (Call α)) : Prop where
  /-- Slots: of idle resources, of lent ones that have not come back, of calls. -/
  slots   : w.shared.allocated = w.shared.idle.length
    + (L.held.length + w.total Call.lent + L.cutShort) + w.total Call.holds
  /-- Calls that are parked, or woken and have not looked yet. -/
  waiting : w.shared.waiting = w.total Call.waits

namespace Balanced

variable {L L' : Lendings α} {w w' : World (Pool α) (Call α)} {c : Call α}

/-- No call gives up more slots than are taken. -/
theorem surrenders_le (hb : Balanced L w) (hc : c ∈ w.frames) :
    c.surrenders w.shared ≤ w.shared.allocated := by
  have share := c.surrenders_le w.shared
  have one := w.le_total (fun c : Call α => c.lent + c.holds) hc
  have all := hb.slots
  rw [World.total_add] at one
  omega

theorem waits_le (hb : Balanced L w) (hc : c ∈ w.frames) : c.waits ≤ w.shared.waiting := by
  rw [hb.waiting]
  exact w.le_total Call.waits hc

/-- **A move keeps the counts.** -/
theorem move [DecidableEq α] {m : Move (Op α) (Reply α)} {notices : List Notice}
    (hb : Balanced L w) (hd : ∀ c ∈ w.frames, c ≠ .teardown)
    (ha : (program α).apply w m = some (w', notices)) (hn : L.note w m w' = some L') :
    Balanced L' w' := by
  refine ⟨?_, waiting_of_apply hb.waiting ha⟩
  have slots := hb.slots
  cases moved ha with
  | spawn =>
    obtain rfl : L = L' := Option.some.inj hn
    simpa using slots
  | @enter i op hi =>
    have lent : (w.update i w.shared (.start op :: w.stack i)).total Call.lent = _ :=
      World.total_push Call.lent hi w.shared (.start op)
    have holds : (w.update i w.shared (.start op :: w.stack i)).total Call.holds = _ :=
      World.total_push Call.holds hi w.shared (.start op)
    cases op with
    | release r | discard r =>
      -- what is given back leaves the caller's hands and comes into the call's
      simp only [Lendings.note, Option.ite_none_right_eq_some, Option.some.injEq] at hn
      obtain ⟨hr, rfl⟩ := hn
      have := List.length_erase_of_mem hr
      have := List.length_pos_of_mem hr
      simp only [Call.lent, Call.holds] at lent holds
      simp only [World.shared_update]
      omega
    | acquire | removeIdle | resize n | setWaitLimit d =>
      cases hn
      simp only [Call.lent, Call.holds] at lent holds
      simp only [World.shared_update]
      omega
  | @step i _ c c' below p' hst h =>
    obtain rfl : L = L' := Option.some.inj hn
    have hc := World.mem_frames_of_stack hst
    have kept := h.slots (hd c hc) (hb.surrenders_le hc)
    have lent := World.total_replace Call.lent hst p' c'
    have holds := World.total_replace Call.holds hst p' c'
    simp only [World.shared_update]
    omega
  | @answer i r c c' below _ f hst _ _ h =>
    simp only [Lendings.note, hst, Option.some.injEq] at hn
    subst hn
    have kept := h.slots
    have lent := World.total_replace Call.lent hst (w.shared.count f) c'
    have holds := World.total_replace Call.holds hst (w.shared.count f) c'
    simp only [World.shared_update, idle_count, allocated_count]
    omega
  | expire hst =>
    obtain rfl : L = L' := Option.some.inj hn
    exact slots
  | @collect i r below hst =>
    simp only [Lendings.note, hst, Option.some.injEq] at hn
    subst hn
    have lent := World.total_pop Call.lent hst w.shared
    have holds := World.total_pop Call.holds hst w.shared
    obtain ⟨handed, held, -⟩ := Call.collected (p := w.shared) (c := .over r) rfl
    simp only [World.shared_update, List.length_append]
    omega

theorem of_kept [DecidableEq α] {l : Limits}
    (h : (program α).Kept Lendings.note {} (World.init (.ofLimits l)) L w) : Balanced L w := by
  induction h with
  | refl => exact ⟨rfl, rfl⟩
  | move m h ha hn ih => exact ih.move (ne_teardown_of_reach h.reach) ha hn

end Balanced

/-! ## The limit -/

/-- A world whose limit is the one it started from, and which keeps to it. -/
structure Within (l : Limits) (w : World (Pool α) (Call α)) : Prop where
  capacity  : w.shared.capacity = l.size
  /-- No change of the limit is under way. -/
  unchanged : ∀ c ∈ w.frames, ∀ n, c ≠ .start (.resize n)
  allocated : 0 < l.size → w.shared.allocated ≤ l.size

namespace Within

variable {l : Limits} {w w' : World (Pool α) (Call α)}

/-- **A move keeps a pool within its limit**, unless it asks for another one. -/
theorem move {m : Move (Op α) (Reply α)} {notices : List Notice} (hw : Within l w)
    (hm : ∀ i n, m ≠ .enter i (.resize n))
    (ha : (program α).apply w m = some (w', notices)) : Within l w' := by
  obtain ⟨capacity, unchanged, allocated⟩ := hw
  cases moved ha with
  | spawn => exact ⟨capacity, by simpa using unchanged, allocated⟩
  | @enter i op hi =>
    refine ⟨capacity, ?_, allocated⟩
    refine World.forall_frames_update unchanged [] (fun n hn => ?_) rfl
    cases op with
    | resize k => exact hm i k rfl
    | acquire | release | discard | removeIdle | setWaitLimit => exact absurd hn nofun
  | @step i _ c c' below p' hst steps =>
    have hc := World.mem_frames_of_stack hst
    refine ⟨(steps.capacity (unchanged c hc)).trans capacity, ?_, fun hl => ?_⟩
    · refine World.forall_frames_update unchanged [c] (fun n hn => ?_) hst
      rw [hn] at steps
      exact absurd steps.begun nofun
    · show p'.allocated ≤ l.size
      have := allocated hl
      rcases steps.allocated with h | ⟨h, hr⟩
      · omega
      · rw [hasRoom_iff] at hr
        omega
  | @answer i r c c' below _ f hst _ _ answered =>
    refine ⟨capacity, ?_, allocated⟩
    refine World.forall_frames_update unchanged [c] (fun n hn => ?_) hst
    rcases answered.begun with h | h
    · rw [hn] at h
      exact absurd h nofun
    · exact unchanged c (World.mem_frames_of_stack hst) n (h.symm.trans hn)
  | expire hst => exact ⟨capacity, unchanged, allocated⟩
  | collect hst => exact ⟨capacity, World.forall_frames_pop unchanged hst, allocated⟩

theorem of_kept [DecidableEq α] {L : Lendings α}
    (h : (program α).Kept Lendings.note {} (World.init (.ofLimits l)) L w)
    (hL : L.resized = false) : Within l w := by
  induction h with
  | refl =>
    refine ⟨rfl, fun c hc => absurd hc (by simp [World.frames, World.init]), fun _ => ?_⟩
    exact Nat.zero_le l.size
  | move m h ha hn ih =>
    obtain ⟨before, unasked⟩ := Lendings.resized_of_note hn hL
    exact (ih before).move unasked ha

end Within

/-! ## Slots are accounted for -/

/-- How a move may change the number of slots taken. -/
inductive SlotChange (w w' : World (Pool α) (Call α)) (m : Move (Op α) (Reply α)) : Prop
  | none (h : w'.shared.allocated = w.shared.allocated)
  /-- A call gives up the slots it says, all of them taken. -/
  | surrendered {i : Nat} {moment : Moment} {c : Call α} {below : List (Call α)}
      (hm : m = .run i moment) (hs : w.stack i = c :: below)
      (h : w'.shared.allocated + c.surrenders w.shared = w.shared.allocated)
  /-- One slot is reserved where there is room. -/
  | reserved (hr : w.shared.capacity = 0 ∨ w.shared.allocated < w.shared.capacity)
      (h : w'.shared.allocated = w.shared.allocated + 1)

theorem Balanced.slotChange {L : Lendings α} {w w' : World (Pool α) (Call α)}
    {m : Move (Op α) (Reply α)} {notices : List Notice} (hb : Balanced L w)
    (ha : (program α).apply w m = some (w', notices)) : SlotChange w w' m := by
  cases moved ha with
  | step hst steps =>
    rcases steps.allocated with h | ⟨h, hr⟩
    · have := hb.surrenders_le (World.mem_frames_of_stack hst)
      exact .surrendered rfl hst (by simp only [World.shared_update]; omega)
    · exact .reserved (hasRoom_iff.mp hr) h
  | spawn | enter | answer | expire | collect => exact .none rfl

/-- **Slots are accounted for.** In every world that a run from a fresh pool comes to, whatever
the callbacks answer and do, if callers give back only what they hold:

* slots and waiting calls add up (`Balanced`);
* a pool with a limit that nobody asked to change is within it;
* no call gives up more slots, or leaves more waits, than there are, and no more resources are idle
  than slots are taken;
* a move takes a slot only by a reservation with room, and gives up slots only as its call says. -/
theorem slots_accounted [DecidableEq α] (l : Limits) {L : Lendings α}
    {w : World (Pool α) (Call α)}
    (h : (program α).Kept Lendings.note {} (World.init (.ofLimits l)) L w) :
    Balanced L w ∧
    (L.resized = false →
      w.shared.capacity = l.size ∧ (0 < l.size → w.shared.allocated ≤ l.size)) ∧
    (∀ c ∈ w.frames, c.surrenders w.shared ≤ w.shared.allocated ∧ c.waits ≤ w.shared.waiting) ∧
    w.shared.idle.length ≤ w.shared.allocated ∧
    ∀ m w' notices, (program α).apply w m = some (w', notices) → SlotChange w w' m := by
  have hb := Balanced.of_kept h
  refine ⟨hb, fun hL => ⟨(Within.of_kept h hL).capacity, (Within.of_kept h hL).allocated⟩,
    fun c hc => ⟨hb.surrenders_le hc, hb.waits_le hc⟩, ?_, fun m w' notices => hb.slotChange⟩
  have := hb.slots
  omega

/-- A pool of one resource, lent to one caller while another one waits for it. -/
def oneForTwo : List (Move (Op Nat) (Reply Nat)) :=
  [.spawn, .spawn, .enter 0 .acquire, .run 0 (.at 0), .answer 0 (.got 7), .collect 0,
    .enter 1 .acquire, .run 1 (.at 0)]

/-- What `oneForTwo` comes to. -/
def oneWaiting : World (Pool Nat) (Call Nat) where
  shared :=
    { allocated := 1, capacity := 1, waiting := 1, parked := [0], nextTicket := 1
      counters := { created := 1, acquired := 1 } }
  threads := [[], [.parked 0 none]]

theorem slots_accounted_oneForTwo :
    (program Nat).keep? Lendings.note {} (World.init (.ofLimits { size := 1 })) oneForTwo =
      some ({ held := [7] }, oneWaiting) ∧
    Balanced { held := [7] } oneWaiting ∧
    (false = false → oneWaiting.shared.capacity = 1 ∧
      (0 < 1 → oneWaiting.shared.allocated ≤ 1)) ∧
    (∀ c ∈ oneWaiting.frames, c.surrenders oneWaiting.shared ≤ oneWaiting.shared.allocated ∧
      c.waits ≤ oneWaiting.shared.waiting) ∧
    oneWaiting.shared.idle.length ≤ oneWaiting.shared.allocated ∧
    ∀ m w' notices, (program Nat).apply oneWaiting m = some (w', notices) →
      SlotChange oneWaiting w' m := by
  have run : (program Nat).keep? Lendings.note {} (World.init (.ofLimits { size := 1 }))
      oneForTwo = some ({ held := [7] }, oneWaiting) := rfl
  exact ⟨run, slots_accounted { size := 1 } (Program.kept_of_keep? run)⟩

end Lending.Pool
