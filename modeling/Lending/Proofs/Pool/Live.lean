import Lending.Proofs.Pool.Custody
import Lending.Proofs.Pool.Slots

/-!
# How many resources are alive

A resource is alive from the answer that makes it until it is gone: torn down, discarded, or lost to
a raise. The limit of a pool is one on slots, and a slot need not last as long as its resource.
Draining gives up the slots of all idle resources, and only then tears them down, one by one; so
callers may make new resources meanwhile, and so may the teardown itself.

* `SlotsCovered`: every resource that is alive has a slot, but for those that a drain has in its
  hands.

Where the limit is fixed, as nobody asks for another one (`Ledger.fixed`),

* `Seated`: no slot is taken above it;
* `live_le`: so the pool exceeds its limit by no more than the resources in the hands of drains, and
  by that much it may (`drainedMeanwhile`).

The other way to tear down an idle resource keeps the slot until the teardown has ended: a stale one
is evicted by `acquire` under its reservation. `remove_idle` takes `drained.len()` slots off before
the first `on_evict`, so the two differ in what a limit means while a teardown is under way.
-/

namespace Lending.Pool

variable {α : Type}

namespace Call

/-- The resources that the end of the pool has left to tear down; their slots are never given
up. -/
def closes : Call α → Nat
  | .evicting _ rest false => rest.length + 1
  | _ => 0

/-- The resources that a drain has taken, slots given up, and has left to tear down. -/
def drains : Call α → List α
  | .drained r rest | .evicting r rest true => r :: rest
  | _ => []

/-- Whether a call tears down a resource that came back above the limit. -/
def retires : Call α → Bool
  | .evictingSurplus _ => true
  | _ => false

/-- The slots of a call and of the resources in its hands. -/
def seats (c : Call α) : Nat := c.lent + c.holds + c.closes

variable {m : Moment} {p p' : Pool α} {c c' : Call α} {r : Reply α}

/-- What a call has in its hands has a slot, or was drained. -/
theorem length_hands_le (h : c.retires = false) :
    c.hands.length ≤ c.seats + c.drains.length := by
  cases c with
  | start op => cases op <;> exact Nat.le_refl _
  | «over» result => cases result <;> exact Nat.le_refl _
  | evicting r rest counted =>
    cases counted <;> simp [hands, checks, lends, tears, seats, lent, holds, closes, drains]
  | drained r rest => simp [hands, checks, lends, tears, drains]
  | evictingSurplus r => cases h
  | teardown | retry | checking | evictingStale | creating | parked | freeing | notifying | dropping
  | abandoning | grown | aborted => first | exact Nat.le_refl _ | exact Nat.zero_le _

theorem drains_subset_hands (c : Call α) : c.drains ⊆ c.hands := by
  cases c with
  | drained r rest => exact List.subset_append_right ..
  | evicting r rest counted =>
    cases counted
    · exact List.nil_subset _
    · exact List.subset_append_right ..
  | _ => exact List.nil_subset _

theorem Steps.closes (h : Steps m p c p' c') (hc : c ≠ .teardown) : c'.closes = 0 := by
  cases h with
  | acquire h | retry h | woken _ h => cases h <;> rfl
  | notify next => cases next <;> rfl
  | nothingLeft | closeDown => exact absurd rfl hc
  | free | surplus | putBack | nothingIdle | drain | wakeDrained | grow | shrink | wakeGrown
  | setWaitLimit => rfl

theorem Steps.retires (h : Steps m p c p' c') (hr : c'.retires = true) :
    p.overCapacity = true := by
  cases h with
  | surplus r ho => exact ho
  | acquire h | retry h | woken _ h => cases h <;> exact absurd hr nofun
  | notify next => cases next <;> exact absurd hr nofun
  | free | putBack | nothingIdle | drain | wakeDrained | grow | shrink | wakeGrown | setWaitLimit
  | nothingLeft | closeDown => exact absurd hr nofun

theorem Answered.retires (h : Answered c r c') (hr : c'.retires = true) : c.retires = true := by
  cases h with
  | unasked => exact hr
  | evicted _ rest => cases rest <;> exact absurd hr nofun
  | evictRaised _ rest | abandoned _ rest => cases rest <;> exact absurd hr nofun
  | stale | fresh | checkRaised | staleEvicted | staleRaised | created | notCreated | createRaised
  | dropped | dropRaised | discarded | discardRaised | surplusEvicted | surplusRaised
  | abandonRaised => exact absurd hr nofun

/-- **A step gives no slot up under a resource that it does not drain.** -/
theorem Steps.seats (h : Steps m p c p' c') (hle : p.idle.length + c.seats ≤ p.allocated) :
    p'.idle.length + c'.seats + p.allocated ≤ p'.allocated + (p.idle.length + c.seats) := by
  by_cases hc : c = .teardown
  · subst hc
    cases h with
    | nothingLeft hi => exact Nat.le_of_eq (Nat.add_comm ..)
    | closeDown hi => simp [hi, Call.seats, lent, holds, Call.closes]; omega
  · have covered := c.surrenders_le p
    have moved := h.slots hc (by unfold Call.seats at hle; omega)
    have closed := h.closes hc
    unfold Call.seats
    omega

/-- An answer gives a call no further slot. -/
theorem Answered.seats (h : Answered c r c') : c'.seats ≤ c.seats := by
  cases h with
  | evicted r rest counted =>
    cases counted <;> cases rest <;> simp [Call.seats, evictAll, lent, holds, closes]
  | evictRaised r rest | abandoned r rest =>
    cases rest <;> simp [Call.seats, abandonAll, lent, holds, closes]
  | unasked => exact Nat.le_refl _
  | stale | fresh | checkRaised | staleEvicted | staleRaised | created | notCreated | createRaised
  | dropped | dropRaised | discarded | discardRaised | surplusEvicted | surplusRaised
  | abandonRaised => simp [Call.seats, lent, holds, closes]

end Call

namespace Held

namespace Frame

/-- The slots of an operation, and of the resources in its hands. -/
def seats : Frame α → Nat
  | .start op => (brings op).length
  | .call c => c.seats

/-- The resources that a drain has taken, and has left to tear down. -/
def drains : Frame α → List α
  | .start _ => []
  | .call c => c.drains

/-- Whether an operation asks for another limit, or tears down what came back above the limit. -/
def shifts : Frame α → Bool
  | .start (.call (.resize _)) | .call (.start (.resize _)) => true
  | .call c => c.retires
  | _ => false

theorem length_hands_le {f : Frame α} (h : f.shifts = false) :
    f.hands.length ≤ f.seats + f.drains.length := by
  cases f with
  | start op => simp [hands_start, seats]
  | call c =>
    refine Call.length_hands_le ?_
    cases c with
    | evictingSurplus r => exact h
    | _ => rfl

theorem drains_subset_hands (f : Frame α) : f.drains ⊆ f.hands := by
  cases f with
  | start op => exact List.nil_subset _
  | call c => exact c.drains_subset_hands

variable {m : Moment} {s s' : Held α} {f f' : Frame α}

/-- **A step gives no slot up under a resource that it does not drain.** -/
theorem Steps.seats (h : Steps m s f s' f')
    (hle : s.pool.idle.length + f.seats ≤ s.pool.allocated) :
    s'.pool.idle.length + f'.seats + s.pool.allocated ≤
      s'.pool.allocated + (s.pool.idle.length + f.seats) := by
  cases h with
  | inner h => exact h.seats hle
  | call op ha => cases op <;> exact Nat.le_of_eq (Nat.add_comm ..)
  | dead | hold | leave | last =>
    simp only [Frame.seats, Call.seats, Call.lent, Call.holds, Call.closes]
    omega

/-- Below its limit, and with nobody asking for another one, a pool keeps the one it has. -/
theorem Steps.shifts (h : Steps m s f s' f') (hf : f.shifts = false)
    (within : s.pool.overCapacity = false) :
    f'.shifts = false ∧ s'.pool.capacity = s.pool.capacity ∧
      (s'.pool.allocated ≤ s.pool.allocated ∨
        s'.pool.allocated = s.pool.allocated + 1 ∧ s.pool.hasRoom = true) := by
  cases h with
  | @inner x x' p' h =>
    have asked : ∀ n, x ≠ .start (.resize n) := by
      rintro n rfl
      exact absurd hf nofun
    refine ⟨?_, h.capacity asked, h.allocated.imp_left fun e => e.trans_le (Nat.sub_le ..)⟩
    have begun := h.begun
    cases x' with
    | start op => exact absurd begun nofun
    | evictingSurplus r =>
      rw [h.retires rfl] at within
      exact absurd within nofun
    | _ => rfl
  | call op ha =>
    cases op with
    | resize n => exact absurd hf nofun
    | _ => exact ⟨rfl, rfl, Or.inl (Nat.le_refl _)⟩
  | dead | hold | leave | last => exact ⟨rfl, rfl, Or.inl (Nat.le_refl _)⟩

end Frame

namespace Ledger

variable [DecidableEq α] {L L' : Ledger α} {w w' : World (Held α) (Frame α)}

/-- As `note`, with a limit that is fixed: a move that asks for another one is objected to. -/
def fixed (L : Ledger α) (w : World (Held α) (Frame α)) (m : Move (Op α) (Reply α))
    (w' : World (Held α) (Frame α)) : Option (Ledger α) :=
  match m with
  | .enter _ (.call (.resize _)) => none
  | m => L.note w m w'

theorem note_of_fixed {m : Move (Op α) (Reply α)} (h : L.fixed w m w' = some L') :
    L.note w m w' = some L' ∧ ∀ i op, m = .enter i op → (Frame.start op).shifts = false := by
  unfold fixed at h
  split at h
  · exact absurd h nofun
  · rename_i asked
    refine ⟨h, ?_⟩
    rintro i op rfl
    cases op with
    | call op =>
      cases op with
      | resize n => exact absurd rfl (asked i n)
      | _ => rfl
    | _ => rfl

/-- The resources that are alive: made, and not gone. -/
def live (L : Ledger α) : List α := L.made.filter (· ∉ L.gone)

end Ledger

/-- **What is alive is idle, with a caller, or in the hands of an operation.** -/
theorem Custody.live [DecidableEq α] {L : Ledger α} {w : World (Held α) (Frame α)}
    (h : Custody L w) : L.live.Perm (w.shared.pool.idle ++ w.gather Frame.hands ++ L.held) := by
  have nodup := h.places.nodup_iff.mpr h.distinct
  have apart := List.disjoint_of_nodup_append nodup
  refine (h.places.symm.filter _).trans ?_
  rw [List.filter_append, List.filter_eq_self.mpr, List.filter_eq_nil_iff.mpr, List.append_nil]
  · exact fun r hr => by simpa using hr
  · exact fun r hr => by simpa using fun gone => apart hr gone

namespace Ledger

variable [DecidableEq α] {L L' : Ledger α} {w w' : World (Held α) (Frame α)}

theorem held_of_run {i : Nat} {moment : Moment} (hn : L.note w (.run i moment) w' = some L') :
    L'.held = L.held := by
  simp only [Ledger.note] at hn
  split at hn <;> cases hn
  · rw [Ledger.held_ask]
  · rfl

theorem held_of_answer {i : Nat} {reply : Reply α}
    (hn : L.note w (.answer i reply) w' = some L') : L'.held = L.held := by
  simp only [Ledger.note] at hn
  split at hn
  · split at hn
    · split at hn <;> cases hn
      rw [Ledger.held_ask]
      rfl
    · cases hn
      rfl
  · cases hn
    rfl

end Ledger

/-- What is idle, with a caller, or in the hands of an operation has a slot, unless it was
drained. -/
def SlotsCovered (L : Ledger α) (w : World (Held α) (Frame α)) : Prop :=
  w.shared.pool.idle.length + L.held.length + w.total Frame.seats ≤ w.shared.pool.allocated

namespace SlotsCovered

variable [DecidableEq α] {L L' : Ledger α} {w w' : World (Held α) (Frame α)}
  {m : Move (Op α) (Reply α)} {notices : List Notice}

/-- **A move leaves every resource its slot**, but for those it drains. -/
theorem move (h : SlotsCovered L w) (ha : (program α).apply w m = some (w', notices))
    (hn : L.note w m w' = some L') : SlotsCovered L' w' := by
  unfold SlotsCovered at h ⊢
  cases moved ha with
  | spawn =>
    obtain rfl : L = L' := Option.some.inj hn
    simpa using h
  | @enter i op hi =>
    obtain ⟨held, rfl, hh⟩ := Ledger.note_enter hn
    have brought := hh.length_eq
    have pushed := World.total_push Frame.seats hi w.shared (.start op)
    rw [List.length_append] at brought
    simp only [Frame.seats] at pushed
    simp only [World.shared_update]
    omega
  | @step i moment f f' below s' hst _ steps =>
    have one := w.le_total Frame.seats (World.mem_frames_of_stack hst)
    have kept := steps.seats (by omega)
    have replaced := World.total_replace Frame.seats hst s' f'
    rw [Ledger.held_of_run hn]
    simp only [World.shared_update]
    omega
  | @answer i reply c c' below _ count hst _ answered =>
    have kept := answered.seats
    have replaced := World.total_replace Frame.seats hst
      { w.shared with pool := w.shared.pool.count count } (.call c')
    rw [Ledger.held_of_answer hn]
    simp only [Frame.seats] at replaced
    simp only [World.shared_update, idle_count, allocated_count]
    omega
  | expire hst =>
    obtain rfl : L = L' := Option.some.inj hn
    exact h
  | @collect i reply below hst =>
    simp only [Ledger.note, hst, Option.some.injEq] at hn
    subst hn
    have popped := World.total_pop Frame.seats hst w.shared
    have handed := (Call.collected (p := w.shared.pool) (c := .over reply) rfl).1
    simp only [Frame.seats, Call.seats] at popped
    simp only [World.shared_update, List.length_append, Frame.handed]
    omega

theorem of_kept {l : Limits}
    (h : (program α).Kept Ledger.note {} (World.init { pool := .ofLimits l }) L w) :
    SlotsCovered L w := by
  induction h with
  | refl => exact Nat.le_refl _
  | move m h ha hn ih => exact ih.move ha hn

end SlotsCovered

/-- A world whose limit is the one it started from, where every resource has a slot, but for those
that are drained. -/
structure Seated (l : Limits) (L : Ledger α) (w : World (Held α) (Frame α)) : Prop where
  capacity : w.shared.pool.capacity = l.size
  within   : 0 < l.size → w.shared.pool.allocated ≤ l.size
  unasked  : ∀ f ∈ w.frames, f.shifts = false
  seats    : SlotsCovered L w

namespace Seated

variable [DecidableEq α] {l : Limits} {L L' : Ledger α} {w w' : World (Held α) (Frame α)}
  {m : Move (Op α) (Reply α)} {notices : List Notice}

/-- **A move keeps the limit**: no slot is taken above it. -/
theorem move (h : Seated l L w) (ha : (program α).apply w m = some (w', notices))
    (hf : L.fixed w m w' = some L') : Seated l L' w' := by
  obtain ⟨capacity, within, unasked, seats⟩ := h
  obtain ⟨hn, kept⟩ := Ledger.note_of_fixed hf
  have next := seats.move ha hn
  cases moved ha with
  | spawn => exact ⟨capacity, within, by simpa using unasked, next⟩
  | @enter i op hi =>
    exact ⟨capacity, within, World.forall_frames_update unasked [] (kept i op rfl) rfl, next⟩
  | @step i moment f f' below s' hst _ steps =>
    have hf := World.mem_frames_of_stack hst
    have free : w.shared.pool.overCapacity = false := by
      rw [Bool.eq_false_iff, Ne, overCapacity_iff, capacity]
      rintro ⟨pos, above⟩
      have := within pos
      omega
    obtain ⟨asked, same, slots⟩ := steps.shifts (unasked f hf) free
    refine ⟨same.trans capacity, fun hl => ?_,
      World.forall_frames_update unasked [f] asked hst, next⟩
    show s'.pool.allocated ≤ l.size
    have := within hl
    rcases slots with h | ⟨h, room⟩
    · omega
    · rw [hasRoom_iff] at room
      omega
  | @answer i reply c c' below _ count hst _ answered =>
    refine ⟨capacity, within, World.forall_frames_update unasked [.call c] ?_ hst, next⟩
    have before := unasked _ (World.mem_frames_of_stack hst)
    rcases answered.begun with begun | rfl
    · cases c' with
      | start op => exact absurd begun nofun
      | evictingSurplus r =>
        have retired := answered.retires rfl
        cases c with
        | evictingSurplus r => exact absurd before nofun
        | _ => exact absurd retired nofun
      | _ => rfl
    · exact before
  | expire hst => exact ⟨capacity, within, unasked, next⟩
  | collect hst => exact ⟨capacity, within, World.forall_frames_pop unasked hst, next⟩

theorem of_kept (h : (program α).Kept Ledger.fixed {} (World.init { pool := .ofLimits l }) L w) :
    Seated l L w := by
  induction h with
  | refl =>
    exact ⟨rfl, fun _ => Nat.zero_le _, fun f hf => absurd hf (by simp [World.frames, World.init]),
      Nat.le_refl _⟩
  | move m h ha hn ih => exact ih.move ha hn

end Seated

/-- **Drains aside, the limit bounds what is alive.** In every world that a run from a fresh pool
with a limit comes to, whatever the callbacks answer and do, if nobody asks for another limit, no
resource is made twice, and callers give back only what they hold: there are no more resources
alive than the limit allows, and those that drains have in their hands. -/
theorem live_le [DecidableEq α] (l : Limits) (hl : 0 < l.size) {L : Ledger α}
    {w : World (Held α) (Frame α)}
    (h : (program α).Kept Ledger.fixed {} (World.init { pool := .ofLimits l }) L w) :
    L.live.length ≤ l.size + (w.gather Frame.drains).length ∧
    w.gather Frame.drains ⊆ L.live := by
  have alive := (Custody.of_kept (h.map (fun L => L) fun hn => (Ledger.note_of_fixed hn).1)).live
  have seated := Seated.of_kept h
  constructor
  · have bound : w.total (fun f => f.hands.length) ≤
        w.total fun f => f.seats + f.drains.length :=
      World.total_le_of_mem fun f hf => Frame.length_hands_le (seated.unasked f hf)
    have within := seated.within hl
    have seats : _ ≤ _ := seated.seats
    rw [World.total_add] at bound
    rw [alive.length_eq, List.length_append, List.length_append, World.length_gather,
      World.length_gather]
    omega
  · intro r hr
    obtain ⟨f, hf, hr⟩ := World.mem_gather.mp hr
    refine alive.mem_iff.mpr (List.mem_append_left _ (List.mem_append_right _ ?_))
    exact World.mem_gather.mpr ⟨f, hf, Frame.drains_subset_hands f hr⟩

/-- A pool of one resource is drained, and a caller whose teardown it is makes another one. -/
def drainedMeanwhile : List (Move (Op Nat) (Reply Nat)) :=
  [.spawn, .enter 0 (.call .acquire), .run 0 (.at 0), .run 0 (.at 0), .answer 0 (.got 7),
    .collect 0, .enter 0 (.call (.release 7)), .run 0 (.at 0), .run 0 (.at 0), .run 0 (.at 0),
    .collect 0, .enter 0 (.call .removeIdle), .run 0 (.at 0), .run 0 (.at 0), .run 0 (.at 0),
    .enter 0 (.call .acquire), .run 0 (.at 0), .run 0 (.at 0), .answer 0 (.got 8), .collect 0]

theorem live_le_drainedMeanwhile : ∃ L w,
    (program Nat).keep? Ledger.fixed {} (World.init { pool := .ofLimits { size := 1 } })
      drainedMeanwhile = some (L, w) ∧
    L.live = [8, 7] ∧ w.gather Frame.drains = [7] ∧ 0 < 1 ∧
    L.live.length ≤ 1 + (w.gather Frame.drains).length ∧ w.gather Frame.drains ⊆ L.live := by
  have run : (program Nat).keep? Ledger.fixed {} (World.init { pool := .ofLimits { size := 1 } })
      drainedMeanwhile =
      some ({ made := [8, 7], held := [8], asked := [.create, .evict 7, .create] },
        { shared :=
            { pool :=
                { allocated := 1, capacity := 1
                  counters := { acquired := 2, released := 1, created := 2 } }
              keepers := 5 }
          threads := [[.call (.evicting 7 [] true)]] }) := rfl
  obtain ⟨bound, alive⟩ := live_le { size := 1 } Nat.one_pos (Program.kept_of_keep? run)
  exact ⟨_, _, run, rfl, rfl, Nat.one_pos, bound, alive⟩

end Held

end Lending.Pool
