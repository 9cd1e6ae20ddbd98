import Lending.Proofs.Pool.Live

/-!
# The counters balance

The counters of a pool are counted up outside its lock, in six operations. Each of them stands for
something that happens to a resource, and what happens to resources adds up: what was made is torn
down, discarded, or still has a slot; what was handed out came back, or is still out.

Here no callback raises, and callers give back only what they hold (`Tally.note`); letting go of a
discarded resource may raise. A `Tally` records what the counters say nothing of: the releases that
found the pool above its limit, the resources taken by drains, and the exhaustions that callers were
told of, with those of them that came from making a resource.

* `CountersEven`: what one step, or one answer, does to the counters is balanced by what it does to
  the slots, the idle resources, and the call itself.
* `Tallied`: so four balances hold at any moment.
* `metrics_balance`: and without the shares of calls when no operation is in progress.

An exhaustion is counted by the pool that is exhausted. Where making a resource fails with the
exhaustion of another pool, the caller is told so, and nothing is counted (`exhaustedElsewhere`).

The counters are those of `PoolMetrics`: `total_created` and `total_evicted`, `total_discarded`,
`total_acquired` and `total_released`, `stale_evictions` and `exhausted_events`. The teardown of the
pool itself counts nothing, and is no part of these runs.
-/

namespace Lending.Pool

variable {α : Type}

/-- Whether a call that gives up a slot goes on to tell its caller of an exhaustion. -/
def Then.refuses : Then α → Nat
  | .fail (.exhausted _) => 1
  | _ => 0

namespace Call

/-! ## The share of a call -/

/-- Slots without a resource: one is being made for it, or it is about to be given up. -/
def vacates : Call α → Nat
  | .creating | .freeing _ => 1
  | _ => 0

/-- Slots that are neither with an idle resource nor with one that is out. -/
def occupies : Call α → Nat
  | .checking _ _ | .evictingStale _ _ | .creating | .freeing _ => 1
  | _ => 0

/-- Resources that a call has left to tear down, their slots given up. -/
def unseats : Call α → Nat
  | .evictingSurplus _ => 1
  | .drained _ rest | .evicting _ rest _ => rest.length + 1
  | _ => 0

/-- Whether a call is about to tell its caller of an exhaustion. -/
def refuses : Call α → Nat
  | .freeing next | .notifying next => next.refuses
  | .over (.failed (.exhausted _)) => 1
  | _ => 0

/-! ## What a move of a call adds -/

/-- What an answer adds to the counters. -/
def counts : Call α → Reply α → Counters → Counters
  | .checking _ _, .verdict true, n => { n with stale := n.stale + 1 }
  | .checking _ _, .verdict false, n => { n with acquired := n.acquired + 1 }
  | .creating, .got _, n => { n with created := n.created + 1, acquired := n.acquired + 1 }
  | .start (.discard _), .done, n => { n with discarded := n.discarded + 1 }
  | .evictingStale _ _, .done, n | .evictingSurplus _, .done, n | .evicting _ _ true, .done, n =>
    { n with evicted := n.evicted + 1 }
  | _, _, n => n

/-- Whether the next step of a call is a release above the limit. -/
def overflows (p : Pool α) : Call α → Nat
  | .start (.release _) => if p.overCapacity then 1 else 0
  | _ => 0

/-- The resources that the next step of a call takes from the idle ones, to remove them. -/
def sweeps (p : Pool α) : Call α → Nat
  | .start .removeIdle => p.idle.length
  | _ => 0

/-- Whether an answer is an exhaustion that the making of a resource met with. -/
def relays : Call α → Reply α → Nat
  | .creating, .failed (.exhausted _) => 1
  | _, _ => 0

/-- Whether an answer is a raise of a callback. Letting go of a discarded resource is none. -/
def breaks : Call α → Reply α → Bool
  | .start (.discard _), _ => false
  | _, .raised _ => true
  | _, _ => false

/-- **What an answer does to the pool**: it counts. -/
theorem resume_eq_count (p : Pool α) (c : Call α) (r : Reply α) :
    (c.resume p r).1 = p.count (c.counts r) := by
  cases c with
  | start op => cases op <;> cases r <;> rfl
  | checking deadline x =>
    cases r with
    | verdict stale => cases stale <;> rfl
    | got | failed | done | raised => rfl
  | evicting x rest counted => cases counted <;> cases r <;> rfl
  | _ => cases r <;> rfl

theorem counts_of_not_takes {c : Call α} {r : Reply α} (ht : c.takes r = false) :
    c.counts r = id := by
  funext n
  unfold counts
  split <;> first | rfl | exact absurd ht nofun

theorem relays_of_not_takes {c : Call α} {r : Reply α} (ht : c.takes r = false) :
    c.relays r = 0 := by
  unfold relays
  split <;> first | rfl | exact absurd ht nofun

/-! ## Balanced moves -/

/-- A move of a call from `c` to `c'` that changes the pool from `p` to `p'`: what it adds to the
counters is balanced by what it does to the slots, the idle resources and the call. -/
structure CountersEven (p p' : Pool α) (c c' : Call α) (surplus drained relayed : Nat) : Prop where
  made : p'.counters.created + c'.vacates +
      (p.counters.evicted + p.counters.discarded + p.allocated + c.unseats) =
    p.counters.created + c.vacates +
      (p'.counters.evicted + p'.counters.discarded + p'.allocated + c'.unseats)
  lent : p'.counters.acquired + p'.idle.length + c'.occupies +
      (p.counters.released + p.counters.discarded + p.allocated) =
    p.counters.acquired + p.idle.length + c.occupies +
      (p'.counters.released + p'.counters.discarded + p'.allocated + surplus)
  torn : p'.counters.evicted + c'.tears.length + p.counters.stale =
    p.counters.evicted + c.tears.length + (p'.counters.stale + surplus + drained)
  refused : p'.counters.exhausted + relayed + c.refuses = p.counters.exhausted + c'.refuses

variable {m : Moment} {p p' : Pool α} {c c' : Call α} {r : Reply α}

/-- A move that changes neither the counters nor any share. -/
theorem CountersEven.of_eq (vacates : c'.vacates = c.vacates) (occupies : c'.occupies = c.occupies)
    (unseats : c'.unseats = c.unseats) (tears : c'.tears.length = c.tears.length)
    (refuses : c'.refuses = c.refuses) (idle : p'.idle = p.idle)
    (allocated : p'.allocated = p.allocated) (counters : p'.counters = p.counters) :
    CountersEven p p' c c' 0 0 0 := by
  constructor <;> simp only [vacates, occupies, unseats, tears, refuses, idle, allocated, counters]
  all_goals omega

section

variable (next : Then α)

theorem vacates_ofThen : (ofThen next).vacates = 0 := by cases next <;> rfl
theorem occupies_ofThen : (ofThen next).occupies = 0 := by cases next <;> rfl
theorem unseats_ofThen : (ofThen next).unseats = 0 := by cases next <;> rfl
theorem tears_ofThen : (ofThen next).tears = [] := by cases next <;> rfl

theorem refuses_ofThen : (ofThen next).refuses = next.refuses := by
  cases next with
  | fail e => cases e <;> rfl
  | _ => rfl

end

end Call

/-- Looking is balanced, for a call that has no share yet. -/
theorem Looked.even {p p' : Pool α} {deadline : Option Instant} {now : Instant} {c c' : Call α}
    (h : Looked p deadline now p' c') (hv : c.vacates = 0) (ho : c.occupies = 0)
    (hu : c.unseats = 0) (ht : c.tears = []) (hr : c.refuses = 0) :
    Call.CountersEven p p' c c' 0 0 0 := by
  cases h with
  | took hi | reserved hi _ | expired hi _ _ | parked hi _ _ =>
    constructor <;> simp only [hv, ho, hu, ht, hr]
    all_goals
      simp [hi, Call.vacates, Call.occupies, Call.unseats, Call.tears, Call.refuses]
    all_goals omega

namespace Call

variable {m : Moment} {p p' : Pool α} {c c' : Call α} {r : Reply α}

/-- **Steps are balanced.** -/
theorem Steps.even (h : Steps m p c p' c') (hc : c ≠ .teardown)
    (hle : c.surrenders p ≤ p.allocated) :
    CountersEven p p' c c' (c.overflows p) (c.sweeps p) 0 := by
  cases h with
  | acquire h | retry h => exact h.even rfl rfl rfl rfl rfl
  | @woken ticket deadline _ _ _ h =>
    obtain ⟨made, lent, torn, refused⟩ := h.even (c := .parked ticket deadline) rfl rfl rfl rfl rfl
    exact ⟨made, lent, torn, refused⟩
  | nothingLeft | closeDown => exact absurd rfl hc
  | free next =>
    simp only [surrenders] at hle
    constructor <;> simp [vacates, occupies, unseats, tears, overflows, sweeps, refuses]
    all_goals omega
  | notify next =>
    exact .of_eq (vacates_ofThen next) (occupies_ofThen next) (unseats_ofThen next)
      (congrArg List.length (tears_ofThen next)) (refuses_ofThen next) rfl rfl rfl
  | surplus x full =>
    simp only [surrenders, full, if_true] at hle
    constructor <;> simp [full, vacates, occupies, unseats, tears, overflows, sweeps, refuses]
    all_goals omega
  | putBack x within =>
    constructor <;> simp [within, vacates, occupies, unseats, tears, overflows, sweeps, refuses,
      Then.refuses]
    all_goals omega
  | drain hi =>
    simp only [surrenders] at hle
    constructor <;>
      simp [hi, vacates, occupies, unseats, tears, overflows, sweeps, refuses] at hle ⊢
    all_goals omega
  | nothingIdle hi =>
    have : (start .removeIdle).sweeps p = 0 := by simp [sweeps, hi]
    rw [this]
    exact .of_eq rfl rfl rfl rfl rfl rfl rfl rfl
  | wakeDrained | grow | shrink | wakeGrown | setWaitLimit =>
    exact .of_eq rfl rfl rfl rfl rfl rfl rfl rfl

/-- **Answers are balanced**, if no callback raises. The end of a pool is left out, which counts
nothing. -/
theorem Answered.even (p : Pool α) (h : Answered c r c') (hb : c.breaks r = false)
    (hc : c.closes = 0) : CountersEven p (p.count (c.counts r)) c c' 0 0 (c.relays r) := by
  cases h with
  | checkRaised | staleRaised | createRaised | surplusRaised | evictRaised | abandonRaised
  | dropRaised => exact absurd hb nofun
  | unasked ht =>
    rw [counts_of_not_takes ht, relays_of_not_takes ht]
    exact .of_eq rfl rfl rfl rfl rfl rfl rfl rfl
  | evicted x rest counted =>
    cases counted with
    | false => exact absurd hc (Nat.succ_ne_zero _)
    | true =>
      cases rest with
      | nil | cons =>
        constructor <;> simp [evictAll, counts, relays, vacates, occupies, unseats, tears, refuses]
        all_goals omega
  | abandoned x rest message => cases rest <;> exact .of_eq rfl rfl rfl rfl rfl rfl rfl rfl
  | notCreated e =>
    cases e with
    | exhausted limit =>
      constructor <;> simp [counts, relays, vacates, occupies, unseats, tears, refuses,
        Then.refuses]
    | createFailed | cancelled => exact .of_eq rfl rfl rfl rfl rfl rfl rfl rfl
  | discardRaised => exact .of_eq rfl rfl rfl rfl rfl rfl rfl rfl
  | stale | fresh | staleEvicted | created | dropped | discarded | surplusEvicted =>
    constructor <;> simp [counts, relays, vacates, occupies, unseats, tears, refuses, Then.refuses]
    all_goals omega

theorem Answered.closes (h : Answered c r c') : c'.closes ≤ c.closes := by
  cases h with
  | evicted x rest counted => cases counted <;> cases rest <;> simp [Call.closes, evictAll]
  | evictRaised x rest | abandoned x rest => cases rest <;> simp [Call.closes, abandonAll]
  | unasked => exact Nat.le_refl _
  | stale | fresh | checkRaised | staleEvicted | staleRaised | created | notCreated | createRaised
  | dropped | dropRaised | discarded | discardRaised | surplusEvicted | surplusRaised
  | abandonRaised => exact Nat.zero_le _

end Call

/-- Those who use a pool do not end it. -/
theorem unended_of_reach {p : Pool α} {w : World (Pool α) (Call α)}
    (h : (program α).Reach (World.init p) w) : ∀ c ∈ w.frames, c ≠ .teardown ∧ c.closes = 0 := by
  refine Program.forall_frames_of_reach ?_ ?_ ?_ ?_ h
  · exact fun op => ⟨nofun, rfl⟩
  · rintro m s c s' c' notices ⟨hc, -⟩ hn he
    have steps := Call.steps hn he
    exact ⟨fun e => absurd (e ▸ steps.begun) nofun, steps.closes hc⟩
  · exact fun {s c c'} _ hn => absurd hn (program_flat s c c')
  · rintro s c r s' c' notices ⟨hc, closes⟩ - he
    have answered := Call.answered he
    refine ⟨?_, Nat.le_zero.mp (closes ▸ answered.closes)⟩
    rcases answered.begun with begun | rfl
    · exact fun e => absurd (e ▸ begun) nofun
    · exact hc

/-! ## The record -/

/-- What is recorded of what the counters say nothing of. -/
structure Tally (α : Type) extends Lendings α where
  /-- Releases that found the pool above its limit. -/
  surplus : Nat := 0
  /-- Resources taken from the idle ones to be removed. -/
  drained : Nat := 0
  /-- Exhaustions that the making of a resource met with. -/
  relayed : Nat := 0
  /-- Callers that were told of an exhaustion. -/
  refused : Nat := 0

namespace Tally

/-- Whether a move is a raise of a callback. -/
def breaks (w : World (Pool α) (Call α)) : Move (Op α) (Reply α) → Bool
  | .answer i reply =>
    match w.stack i with
    | c :: _ => c.breaks reply
    | [] => false
  | _ => false

/-- A move is counted. -/
def add (T : Tally α) (w : World (Pool α) (Call α)) : Move (Op α) (Reply α) → Tally α
  | .run i _ =>
    match w.stack i with
    | c :: _ =>
      { T with
        surplus := T.surplus + c.overflows w.shared
        drained := T.drained + c.sweeps w.shared }
    | [] => T
  | .answer i reply =>
    match w.stack i with
    | c :: _ => { T with relayed := T.relayed + c.relays reply }
    | [] => T
  | .collect i =>
    match w.stack i with
    | c :: _ => { T with refused := T.refused + c.refuses }
    | [] => T
  | _ => T

/-- A move is written down. A raise of a callback is objected to, and a move by which a caller gives
back what it does not hold. -/
def note [DecidableEq α] (T : Tally α) (w : World (Pool α) (Call α)) (m : Move (Op α) (Reply α))
    (w' : World (Pool α) (Call α)) : Option (Tally α) :=
  if breaks w m then none
  else (T.toLendings.note w m w').map fun L => { T.add w m with toLendings := L }

theorem of_note [DecidableEq α] {T T' : Tally α} {w w' : World (Pool α) (Call α)}
    {m : Move (Op α) (Reply α)} (h : T.note w m w' = some T') :
    breaks w m = false ∧ T.toLendings.note w m w' = some T'.toLendings ∧
      T' = { T.add w m with toLendings := T'.toLendings } := by
  unfold note at h
  split at h
  · exact absurd h nofun
  · rename_i kept
    obtain ⟨L, hL, rfl⟩ := Option.map_eq_some_iff.mp h
    exact ⟨by simpa using kept, hL, rfl⟩

end Tally

/-- The counters of a world balance, with the share of each call. -/
structure Tallied (T : Tally α) (w : World (Pool α) (Call α)) : Prop where
  made : w.shared.counters.created + w.total Call.vacates =
    w.shared.counters.evicted + w.shared.counters.discarded + w.shared.allocated +
      w.total Call.unseats
  lent : w.shared.counters.acquired + w.shared.idle.length + w.total Call.occupies =
    w.shared.counters.released + w.shared.counters.discarded + w.shared.allocated + T.surplus
  torn : w.shared.counters.evicted + w.total (fun c => c.tears.length) =
    w.shared.counters.stale + T.surplus + T.drained
  refused : w.shared.counters.exhausted + T.relayed = T.refused + w.total Call.refuses

namespace Tallied

variable {T T' : Tally α} {w w' : World (Pool α) (Call α)}

/-- A balanced move of the top call of a thread. -/
theorem replace {i : Nat} {c c' : Call α} {below : List (Call α)} {p' : Pool α}
    {surplus drained relayed : Nat} (h : Tallied T w) (hs : w.stack i = c :: below)
    (even : Call.CountersEven w.shared p' c c' surplus drained relayed)
    (hsurplus : T'.surplus = T.surplus + surplus) (hdrained : T'.drained = T.drained + drained)
    (hrelayed : T'.relayed = T.relayed + relayed) (hrefused : T'.refused = T.refused) :
    Tallied T' (w.update i p' (c' :: below)) := by
  obtain ⟨made, lent, torn, refused⟩ := h
  obtain ⟨made', lent', torn', refused'⟩ := even
  have vacates := World.total_replace Call.vacates hs p' c'
  have unseats := World.total_replace Call.unseats hs p' c'
  have occupies := World.total_replace Call.occupies hs p' c'
  have tears := World.total_replace (fun c : Call α => c.tears.length) hs p' c'
  have refuses := World.total_replace Call.refuses hs p' c'
  constructor <;> simp only [World.shared_update]
  · omega
  · omega
  · omega
  · omega

/-- **A move keeps the balance.** -/
theorem move [DecidableEq α] {m : Move (Op α) (Reply α)} {notices : List Notice}
    (h : Tallied T w) (hb : Balanced T.toLendings w)
    (hc : ∀ c ∈ w.frames, c ≠ .teardown ∧ c.closes = 0)
    (ha : (program α).apply w m = some (w', notices)) (hn : T.note w m w' = some T') :
    Tallied T' w' := by
  obtain ⟨unbroken, -, added⟩ := Tally.of_note hn
  cases moved ha with
  | spawn =>
    rw [added]
    obtain ⟨made, lent, torn, refused⟩ := h
    constructor <;> simpa only [World.total_spawn]
  | @enter i op hi =>
    rw [added]
    have share : ∀ ω : Call α → Nat, ω (.start op) = 0 →
        (w.update i w.shared (.start op :: w.stack i)).total ω = w.total ω := by
      intro ω none
      exact (World.total_push ω hi w.shared (.start op)).trans (by rw [none, Nat.add_zero])
    obtain ⟨made, lent, torn, refused⟩ := h
    constructor <;> simp only [World.shared_update, Tally.add]
    · rwa [share Call.vacates rfl, share Call.unseats rfl]
    · rwa [share Call.occupies rfl]
    · rwa [share (fun c => c.tears.length) rfl]
    · rwa [share Call.refuses rfl]
  | @step i moment c c' below p' hst steps =>
    have hf := World.mem_frames_of_stack hst
    have even := steps.even (hc c hf).1 (hb.surrenders_le hf)
    refine h.replace hst even ?_ ?_ ?_ ?_ <;> rw [added] <;> simp [Tally.add, hst]
  | @answer i reply c c' below _ f hst _ hf answered =>
    rw [← hf, Call.resume_eq_count]
    have kept : c.breaks reply = false := by simpa [Tally.breaks, hst] using unbroken
    have even := answered.even w.shared kept (hc c (World.mem_frames_of_stack hst)).2
    refine h.replace hst even ?_ ?_ ?_ ?_ <;> rw [added] <;> simp [Tally.add, hst]
  | expire hst =>
    rw [added]
    exact ⟨h.made, h.lent, h.torn, h.refused⟩
  | @collect i reply below hst =>
    have share : ∀ ω : Call α → Nat, ω (.over reply) = 0 →
        (w.update i w.shared below).total ω = w.total ω := by
      intro ω none
      have := World.total_pop ω hst w.shared
      rwa [none, Nat.add_zero] at this
    have told := World.total_pop Call.refuses hst w.shared
    rw [added]
    obtain ⟨made, lent, torn, refused⟩ := h
    constructor <;> simp only [World.shared_update, Tally.add, hst]
    · rwa [share Call.vacates rfl, share Call.unseats rfl]
    · rwa [share Call.occupies rfl]
    · rwa [share (fun c => c.tears.length) rfl]
    · omega

theorem of_kept [DecidableEq α] {l : Limits}
    (h : (program α).Kept Tally.note {} (World.init (.ofLimits l)) T w) : Tallied T w := by
  induction h with
  | refl => exact ⟨rfl, rfl, rfl, rfl⟩
  | move m h ha hn ih =>
    have lendings := h.map Tally.toLendings fun hn => (Tally.of_note hn).2.1
    exact ih.move (Balanced.of_kept lendings) (unended_of_reach h.reach) ha hn

end Tallied

/-- **The counters balance.** In every world that a run from a fresh pool comes to, in which no
operation is in progress, if no callback raised and callers gave back only what they held:

* what was made was torn down, discarded, or has a slot;
* what was handed out was released, discarded, is out, or came back above the limit;
* what was torn down was stale, came back above the limit, or was removed from the idle ones;
* the pool counted the exhaustions that callers were told of, but for those that the making of a
  resource met with. -/
theorem metrics_balance [DecidableEq α] (l : Limits) {T : Tally α} {w : World (Pool α) (Call α)}
    (h : (program α).Kept Tally.note {} (World.init (.ofLimits l)) T w)
    (quiet : ∀ i, w.stack i = []) :
    w.shared.metrics.counters.created = w.shared.metrics.counters.evicted +
      w.shared.metrics.counters.discarded + w.shared.allocated ∧
    w.shared.metrics.counters.acquired = w.shared.metrics.counters.released +
      w.shared.metrics.counters.discarded + w.shared.metrics.active + T.surplus ∧
    w.shared.metrics.counters.evicted =
      w.shared.metrics.counters.stale + T.surplus + T.drained ∧
    w.shared.metrics.counters.exhausted + T.relayed = T.refused := by
  obtain ⟨made, lent, torn, refused⟩ := Tallied.of_kept h
  have lendings := h.map Tally.toLendings fun hn => (Tally.of_note hn).2.1
  have slots := (Balanced.of_kept lendings).slots
  have none : ∀ ω : Call α → Nat, w.total ω = 0 := fun ω =>
    World.total_eq_zero fun c hc => absurd (World.frames_eq_nil quiet ▸ hc) List.not_mem_nil
  simp only [none, Nat.add_zero] at made lent torn refused
  have active : w.shared.metrics.active = w.shared.allocated - w.shared.idle.length := rfl
  have counters : w.shared.metrics.counters = w.shared.counters := rfl
  rw [active, counters]
  exact ⟨made, by omega, torn, refused⟩

/-- Two resources are made, and a third caller is refused; then the limit shrinks, one resource
comes back above it, and the other one is drained. -/
def shrunkAndDrained : List (Move (Op Nat) (Reply Nat)) :=
  [.spawn, .enter 0 .acquire, .run 0 (.at 0), .answer 0 (.got 7), .collect 0,
    .enter 0 .acquire, .run 0 (.at 0), .answer 0 (.got 8), .collect 0,
    .enter 0 .acquire, .run 0 (.at 0), .collect 0,
    .enter 0 (.resize 1), .run 0 (.at 0), .collect 0,
    .enter 0 (.release 8), .run 0 (.at 0), .answer 0 .done, .collect 0,
    .enter 0 (.release 7), .run 0 (.at 0), .run 0 (.at 0), .collect 0,
    .enter 0 .removeIdle, .run 0 (.at 0), .run 0 (.at 0), .answer 0 .done, .collect 0]

/-- What `shrunkAndDrained` comes to. -/
def emptied : World (Pool Nat) (Call Nat) where
  shared :=
    { capacity := 1, waitLimit := some ⟨0⟩
      counters := { acquired := 2, released := 1, created := 2, evicted := 2, exhausted := 1 } }
  threads := [[]]

theorem metrics_balance_shrunkAndDrained : ∃ T : Tally Nat,
    (program Nat).keep? Tally.note {} (World.init (.ofLimits { size := 2, wait := some ⟨0⟩ }))
      shrunkAndDrained = some (T, emptied) ∧
    (∀ i, emptied.stack i = []) ∧
    T.surplus = 1 ∧ T.drained = 1 ∧ T.relayed = 0 ∧ T.refused = 1 ∧
    2 = 2 + 0 + emptied.shared.allocated ∧ 2 = 1 + 0 + emptied.shared.metrics.active + T.surplus ∧
    2 = 0 + T.surplus + T.drained ∧ 1 + T.relayed = T.refused := by
  have run : (program Nat).keep? Tally.note {}
      (World.init (.ofLimits { size := 2, wait := some ⟨0⟩ })) shrunkAndDrained =
      some ({ resized := true, surplus := 1, drained := 1, refused := 1 }, emptied) := rfl
  have quiet : ∀ i, emptied.stack i = [] := fun i => by cases i <;> rfl
  have balance := metrics_balance _ (Program.kept_of_keep? run) quiet
  exact ⟨_, run, quiet, rfl, rfl, rfl, rfl, balance⟩

/-- Making a resource meets with the exhaustion of another pool. -/
def exhaustedElsewhere : List (Move (Op Nat) (Reply Nat)) :=
  [.spawn, .enter 0 .acquire, .run 0 (.at 0), .answer 0 (.failed (.exhausted ⟨5000000⟩)),
    .run 0 (.at 0), .run 0 (.at 0), .collect 0]

/-- Not every exhaustion that a caller is told of is counted. -/
theorem refused_uncounted_exhaustedElsewhere : ∃ T w,
    (program Nat).keep? Tally.note {} (World.init (.ofLimits { size := 1, wait := some ⟨0⟩ }))
      exhaustedElsewhere = some (T, w) ∧
    (∀ i, w.stack i = []) ∧ w.shared.metrics.counters.exhausted ≠ T.refused :=
  ⟨{ relayed := 1, refused := 1 },
    { shared := { capacity := 1, waitLimit := some ⟨0⟩ }, threads := [[]] }, rfl,
    fun i => by cases i <;> rfl, nofun⟩

end Lending.Pool
