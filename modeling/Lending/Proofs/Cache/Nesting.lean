import Lending.Proofs.Cache.Level
import Lending.Proofs.Nesting

/-!
# What an operation of a stack stands on

A place on a thread's stack has one **task** from its first frame to its result: it was put there
for something that the frame below needs, or by a user. The frames of a place differ, the task does
not. So the frames below a frame tell what it can be, and the other way round.

* `Pool.Call.service`: which operation of its pool a call comes from.
* `Task`: what a place is there for; `Task.Admits`: the frames it comes to; `Task.On`: what it
  stands on.
* `stands_of_reach`: on every stack of every run, each frame is one of a task that can stand on the
  frames below it.
* `Stands.borrowing`, `Stands.pool_got` and the like: which frames stand above or below which.
-/

namespace Lending

namespace Pool

variable {α : Type}

/-- The operations of a pool, as far as their calls go different ways. -/
inductive Service where
  | acquire
  | giveBack
  | sweep
  | adjust
  | teardown
  deriving DecidableEq

namespace Call

/-- The operation that a call comes from; `none` where several come to the same. -/
def service : Call α → Option Service
  | .start .acquire | .retry _ | .checking _ _ | .evictingStale _ _ | .creating | .parked _ _
  | .dropping _ _ | .over (.got _) => some .acquire
  | .start (.release _) | .start (.discard _) | .evictingSurplus _ | .freeing .finish
  | .notifying .finish => some .giveBack
  | .freeing _ | .notifying _ => some .acquire
  | .start .removeIdle | .drained _ _ | .evicting _ _ true => some .sweep
  | .start (.resize _) | .start (.setWaitLimit _) | .grown => some .adjust
  | .teardown | .evicting _ _ false => some .teardown
  | .abandoning _ _ _ | .over _ | .aborted => none

/-- Whether a call can come from this operation. -/
def Serves (c : Call α) (s : Service) : Prop := c.service = none ∨ c.service = some s

theorem serves_evictAll {counted : Bool} {r : α} {rest : List α} {s : Service}
    (h : (evicting r rest counted).Serves s) : (evictAll counted rest).Serves s := by
  cases rest with
  | nil => exact Or.inl rfl
  | cons r' rest => cases counted <;> exact h

theorem serves_abandonAll (message : String) (rs : List α) (s : Service) :
    (abandonAll message rs).Serves s := by
  cases rs <;> exact Or.inl rfl

theorem Looked.serves {p p' : Pool α} {deadline : Option Instant} {now : Instant} {c' : Call α}
    (h : Looked p deadline now p' c') : c'.Serves .acquire := by
  cases h with
  | took | reserved | parked => exact Or.inr rfl
  | expired => exact Or.inl rfl

variable {m : Moment} {p p' : Pool α} {c c' : Call α} {r : Reply α} {s : Service}

/-- A call goes on as one of the operation it comes from. -/
theorem Steps.serves (h : Steps m p c p' c') (hs : c.Serves s) : c'.Serves s := by
  cases h with
  | acquire h | retry h | woken _ h =>
    obtain rfl : Service.acquire = s := by
      rcases hs with hs | hs
      · exact absurd hs nofun
      · exact Option.some.inj hs
    exact Looked.serves h
  | free next => cases next <;> exact hs
  | notify next =>
    cases next with
    | retry | drop => exact hs
    | finish | fail | raise => exact Or.inl rfl
  | nothingIdle | shrink | wakeGrown | setWaitLimit | nothingLeft => exact Or.inl rfl
  | surplus | putBack | drain | wakeDrained | grow | closeDown => exact hs

theorem Answered.serves (h : Answered c r c') (hs : c.Serves s) : c'.Serves s := by
  cases h with
  | evicted => exact serves_evictAll hs
  | evictRaised | abandoned => exact serves_abandonAll ..
  | dropped | dropRaised | discardRaised | surplusEvicted | surplusRaised | abandonRaised =>
    exact Or.inl rfl
  | unasked | stale | fresh | checkRaised | staleEvicted | staleRaised | created | notCreated
  | createRaised | discarded => exact hs

/-- What a call asks of its owner. -/
def asks : Call α → Option (Query α)
  | .start (.discard r) | .dropping r _ | .abandoning r _ _ => some (.drop r)
  | .checking _ r => some (.isStale r)
  | .evictingStale _ r | .evictingSurplus r | .evicting r _ _ => some (.evict r)
  | .creating => some .create
  | _ => none

theorem asks_of_need {q : Query α} (h : c.need p = .ask q) : c.asks = some q := by
  cases c with
  | start op =>
    cases op with
    | discard r => cases h; rfl
    | acquire | release | removeIdle | resize | setWaitLimit => cases h
  | parked ticket deadline =>
    simp only [need] at h
    split at h <;> cases h
  | checking | evictingStale | creating | dropping | evictingSurplus | evicting | abandoning =>
    cases h
    rfl
  | teardown | retry | freeing | notifying | drained | grown | «over» | aborted =>
    cases h

end Call

end Pool

namespace Cache

/-- What a place on a stack is there for. -/
inductive Task where
  /-- An operation of a user. -/
  | user (op : Op)
  /-- A session of level `k` is borrowed for the pool above it. -/
  | lend (k : Nat)
  /-- A borrowing acquires from level `k`'s pool. -/
  | acquire (k : Nat)
  /-- A handle, or the session it leads to, is made use of. -/
  | use
  /-- Handle `h` of level `k` is torn down by the pool above it. -/
  | retire (k h : Nat)
  | giveBack (k h : Nat)
  | drop (k h : Nat)
  /-- What is idle at level `k` is removed. -/
  | sweep (k : Nat)
  /-- What is idle at level `k` is torn down with the pool. -/
  | teardown (k : Nat)
  /-- Level `k`'s pool goes, and what only it referred to. -/
  | endPool (k : Nat)
  | endFactory (k : Nat)

/-- The frames that an operation of a user comes to. -/
def Op.Runs : Op → Frame → Prop
  | op, .call op' => op' = op
  | _, .over _ => True
  | .getSession, .borrow j | .getSession, .borrowing j _ => j = 0
  | .close h, .within h' body | .drop h, .within h' body | .isOpen h, .within h' body
  | .file h _, .within h' body => h' = h ∧ ∃ op, Op.OnHandle op h body
  | .reset k, .reset j | .reset k, .askingShared j | .reset k, .resettingShared j
  | .reset k, .readingClock j _ | .reset k, .sweeping j _ => j = k
  | .destroy k, .pool j x => j = k ∧ x.Serves .sweep
  | .setSize k _, .pool j x | .setWaitLimit k _, .pool j x => j = k ∧ x.Serves .adjust
  | .leave, .dropFactory j | .leave, .factoryGone j _ | .leave, .thenPool j _ => j = 0
  | .leave, .aborted => True
  | _, _ => False

namespace Task

/-- The frames that a place with this task comes to. -/
def Admits : Task → Frame → Prop
  | .user op, f => op.Runs f
  | .acquire k, .pool j x => j = k ∧ x.Serves .acquire
  | .sweep k, .pool j x => j = k ∧ x.Serves .sweep
  | .teardown k, .pool j x => j = k ∧ x.Serves .teardown
  | .acquire _, _ | .sweep _, _ | .teardown _, _ => False
  | _, .over _ => True
  | .lend k, .borrow j | .lend k, .borrowing j _ => j = k
  | .use, .probe _ _ | .use, .forward _ _ _ | .use, .remote _ => True
  | .retire k h, .retire j h' => j = k ∧ h' = h
  | .giveBack k h, .giveBack j h' => j = k ∧ h' = h
  | .giveBack k _, .closing j _ => j = k
  | .giveBack k _, .pool j x => j = k ∧ x.Serves .giveBack
  | .drop k h, .dropHandle j h' | .drop k h, .releasing j h' | .drop k h, .letGo j h' _ =>
    j = k ∧ h' = h
  | .drop k _, .thenPool j _ => j = k
  | .drop _ _, .aborted | .endPool _, .aborted | .endFactory _, .aborted => True
  | .endPool k, .dropPool j | .endPool k, .poolGone j _ => j = k
  | .endPool k, .thenFactory j _ => j = k + 1
  | .endFactory k, .dropFactory j | .endFactory k, .factoryGone j _
  | .endFactory k, .thenPool j _ => j = k
  | _, _ => False

/-- A frame whose callback runs, in a stack of `d` levels. -/
def Outward (d : Nat) (g : Frame) : Prop := ∃ c q, c.depth = d ∧ g.need c = .ask q

/-- What a place with this task stands on: what a user starts, on nothing or a callback that runs;
else on the frame that needs it. -/
def On (d : Nat) : Task → List Frame → Prop
  | .user _, [] => True
  | .user _, g :: _ => Outward d g
  | .lend k, .pool j x :: _ => k = j + 1 ∧ x.asks = some .create
  | .acquire k, .borrowing j _ :: _ => j = k
  | .use, .pool _ x :: _ => ∃ s, x.asks = some (.isStale s)
  | .use, .within h body :: _ => body = .probe 0 h ∨ ∃ op, body = .forward 0 h op
  | .retire k h, .pool j x :: _ => k = j + 1 ∧ x.asks = some (.evict h)
  | .giveBack k h, .within h' body :: _ => k = 0 ∧ h' = h ∧ body = .giveBack 0 h
  | .giveBack k h, .retire j h' :: _ | .giveBack k h, .releasing j h' :: _ => j = k ∧ h' = h
  | .giveBack k h, .closing j s :: _ => k = j + 1 ∧ s = h ∧ k < d
  | .drop k h, .within h' body :: _ => k = 0 ∧ h' = h ∧ body = .dropHandle 0 h
  | .drop k h, .pool j x :: _ => k = j + 1 ∧ x.asks = some (.drop h)
  | .sweep k, .sweeping j _ :: _ | .sweep k, .dropFactory j :: _ => j = k
  | .teardown k, .dropPool j :: _ => j = k
  | .endPool k, .thenPool j _ :: _ => j = k
  | .endFactory k, .thenFactory j _ :: _ => j = k
  | _, _ => False

end Task

/-- A frame is one of a task that can stand on the frames below it. -/
def Stands (d : Nat) (f : Frame) (below : List Frame) : Prop :=
  ∃ t : Task, t.Admits f ∧ t.On d below

namespace Task

variable {t : Task} {m : Moment} {c c' : Cache} {f f' g : Frame} {r : Reply}

theorem admits_releaseLevel {k : Nat} {fault : Option String}
    (hp : t.Admits (.thenPool k fault)) (ho : ∀ r, t.Admits (.over r)) :
    t.Admits (Frame.releaseLevel c k fault).2 := by
  unfold Frame.releaseLevel
  dsimp only
  split
  · exact hp
  · exact ho _

/-- A call of a pool goes on as one that the same task admits. -/
theorem Admits.pool {k : Nat} {x x' : Pool.Call Nat} (ht : t.Admits (.pool k x))
    (hx : ∀ s, x.Serves s → x'.Serves s) : t.Admits (.pool k x') := by
  cases t with
  | user op =>
    cases op with
    | destroy | setSize | setWaitLimit => exact ⟨ht.1, hx _ ht.2⟩
    | _ => exact ht.elim
  | acquire | sweep | teardown | giveBack => exact ⟨ht.1, hx _ ht.2⟩
  | _ => exact ht.elim

/-- A step goes on with the task. -/
theorem Admits.step (ht : t.Admits f) (h : Frame.Steps m c f c' f') : t.Admits f' := by
  cases h with
  | pool hs => exact ht.pool fun s => hs.serves
  | letGoRemote count hi hx ha => exact ht.pool fun s => ha.serves
  | unavailable op | markDirty | leave | last =>
    cases t with
    | user op =>
      obtain rfl := ht
      first | exact trivial | exact rfl
    | _ => exact ht.elim
  | onFactory ho =>
    cases t with
    | user op =>
      obtain rfl := ht
      cases ho with
      | hold => exact trivial
      | getSession | reset => exact rfl
      | destroy | setSize | setWaitLimit => exact ⟨rfl, Or.inr rfl⟩
    | _ => exact ht.elim
  | onHandle ho =>
    cases t with
    | user op =>
      obtain rfl := ht
      cases ho <;> exact ⟨rfl, _, by constructor⟩
    | _ => exact ht.elim
  | borrow =>
    cases t with
    | user op => cases op <;> first | exact ht.elim | exact ht
    | lend => exact ht
    | _ => exact ht.elim
  | reset =>
    cases t with
    | user op =>
      cases op with
      | reset k => split <;> exact ht
      | _ => exact ht.elim
    | _ => exact ht.elim
  | probeReleased | probe | forwardReleased | forward =>
    cases t with
    | user op => cases op <;> exact ht.elim
    | use => (try split) <;> exact trivial
    | _ => exact ht.elim
  | alreadyReleased | close | putBack =>
    cases t with
    | user op => cases op <;> exact ht.elim
    | giveBack => first | exact trivial | exact ht.1 | exact ⟨ht.1, Or.inr rfl⟩
    | _ => exact ht.elim
  | dropHandle =>
    cases t with
    | user op => cases op <;> exact ht.elim
    | drop => split <;> exact ht
    | _ => exact ht.elim
  | letGo =>
    cases t with
    | user op => cases op <;> exact ht.elim
    | drop => exact admits_releaseLevel ht.1 fun _ => trivial
    | _ => exact ht.elim
  | factoryGone =>
    cases t with
    | user op =>
      cases op with
      | leave => exact admits_releaseLevel ht fun _ => trivial
      | _ => exact ht.elim
    | endFactory => exact admits_releaseLevel ht fun _ => trivial
    | _ => exact ht.elim
  | poolGone =>
    cases t with
    | user op => cases op <;> exact ht.elim
    | endPool =>
      split
      · exact trivial
      · exact congrArg (· + 1) ht
    | _ => exact ht.elim

theorem admits_afterLast {fault : Option String}
    (ha : t.Admits .aborted) (ho : ∀ r, t.Admits (.over r)) :
    t.Admits (Frame.afterLast c fault r).2.1 := by
  unfold Frame.afterLast
  split
  · dsimp only
    split
    · exact ha
    · exact ho _
  · exact ho _

/-- A result or an answer goes on with the task. -/
theorem Admits.resume (ht : t.Admits f) (h : Frame.Resumed c f r c' f') : t.Admits f' := by
  cases h with
  | pool count hx ha => exact ht.pool fun s => ha.serves
  | within | lent | notLent | retired | foundShared | notShared | sharedReset | advanced
  | readAgain | swept =>
    cases t with
    | user op => cases op <;> first | exact ht.elim | exact trivial | exact ht
    | lend | retire => first | exact trivial | exact ht.elim
    | _ => exact ht.elim
  | resetRaised hf =>
    cases t with
    | user op => cases hf <;> cases op <;> first | exact ht.elim | exact trivial
    | _ => cases hf <;> exact ht.elim
  | remote =>
    cases t with
    | user op => cases op <;> exact ht.elim
    | use => exact trivial
    | _ => exact ht.elim
  | closeRaised | closed =>
    cases t with
    | user op => cases op <;> exact ht.elim
    | giveBack => first | exact trivial | exact ⟨ht, Or.inr rfl⟩
    | _ => exact ht.elim
  | released =>
    cases t with
    | user op => cases op <;> exact ht.elim
    | drop => exact ht
    | _ => exact ht.elim
  | poolEmptied =>
    cases t with
    | user op => cases op <;> exact ht.elim
    | endPool => exact ht
    | _ => exact ht.elim
  | factoryEmptied =>
    cases t with
    | user op => cases op <;> first | exact ht.elim | exact ht
    | endFactory => exact ht
    | _ => exact ht.elim
  | poolWent | factoryWent =>
    cases t with
    | user op =>
      cases op <;> first
        | exact ht.elim
        | exact admits_afterLast trivial fun _ => trivial
    | drop | endPool | endFactory =>
      first
        | exact ht.elim
        | exact admits_afterLast trivial fun _ => trivial
    | _ => exact ht.elim

end Task

/-- What a frame needs starts with a task of its own. -/
theorem Frame.Needs.stands {c : Cache} {f g : Frame} (h : Needs c f g) (below : List Frame) :
    Stands c.depth g (f :: below) := by
  cases h with
  | within ho =>
    cases ho with
    | close => exact ⟨.giveBack 0 _, ⟨rfl, rfl⟩, rfl, rfl, rfl⟩
    | drop => exact ⟨.drop 0 _, ⟨rfl, rfl⟩, rfl, rfl, rfl⟩
    | isOpen => exact ⟨.use, trivial, Or.inl rfl⟩
    | file => exact ⟨.use, trivial, Or.inr ⟨_, rfl⟩⟩
  | make hx => exact ⟨.lend _, rfl, rfl, Pool.Call.asks_of_need hx⟩
  | judge hx => exact ⟨.use, trivial, _, Pool.Call.asks_of_need hx⟩
  | evict hx => exact ⟨.retire _ _, ⟨rfl, rfl⟩, rfl, Pool.Call.asks_of_need hx⟩
  | letGo hx => exact ⟨.drop _ _, ⟨rfl, rfl⟩, rfl, Pool.Call.asks_of_need hx⟩
  | borrowing k e => exact ⟨.acquire k, ⟨rfl, Or.inr rfl⟩, rfl⟩
  | closing k s hi =>
    exact ⟨.giveBack (k + 1) s, ⟨rfl, rfl⟩, rfl, rfl, innermost_eq_false.mp hi⟩
  | retire k h => exact ⟨.giveBack k h, ⟨rfl, rfl⟩, rfl, rfl⟩
  | releasing k h => exact ⟨.giveBack k h, ⟨rfl, rfl⟩, rfl, rfl⟩
  | dropPool k => exact ⟨.teardown k, ⟨rfl, Or.inr rfl⟩, rfl⟩
  | dropFactory k => exact ⟨.sweep k, ⟨rfl, Or.inr rfl⟩, rfl⟩
  | thenPool k => exact ⟨.endPool k, rfl, rfl⟩
  | thenFactory k => exact ⟨.endFactory k, rfl, rfl⟩
  | sweeping k e => exact ⟨.sweep k, ⟨rfl, Or.inr rfl⟩, rfl⟩

/-! ## What stands on what -/

section

variable {d k epoch s : Nat} {f : Frame} {x : Pool.Call Nat} {below rest : List Frame}

/-- A call of a pool that has something above it waits for an answer. -/
theorem Stands.asks (h : Stands d f (.pool k x :: rest)) : ∃ q, x.asks = some q := by
  obtain ⟨t, ht, hon⟩ := h
  cases t with
  | user op =>
    obtain ⟨c, q, -, hq⟩ := hon
    simp only [Frame.need] at hq
    cases hx : x.need (c.level k).pool with
    | ask q' => exact ⟨q', Pool.Call.asks_of_need hx⟩
    | step | sub | wait | «over» => rw [hx] at hq; cases hq
  | lend | retire | drop => exact ⟨_, hon.2⟩
  | use =>
    obtain ⟨s, hs⟩ := hon
    exact ⟨_, hs⟩
  | _ => exact hon.elim

/-- A borrowing needs a call of its level's pool. -/
theorem Stands.borrowing (h : Stands d f (.borrowing k epoch :: rest)) :
    ∃ x, f = .pool k x ∧ x.Serves .acquire := by
  obtain ⟨t, ht, hon⟩ := h
  cases t with
  | acquire j =>
    obtain rfl : k = j := hon
    cases f with
    | pool j x =>
      obtain ⟨rfl, hx⟩ := ht
      exact ⟨x, rfl, hx⟩
    | _ => exact ht.elim
  | user op =>
    obtain ⟨c, q, -, hq⟩ := hon
    exact absurd hq nofun
  | _ => exact hon.elim

/-- A call of a pool that has acquired a session has done so for a borrowing. -/
theorem Stands.pool_got (h : Stands d (.pool k (.over (.got s))) below) :
    ∃ epoch rest, below = .borrowing k epoch :: rest := by
  have other : ∀ {s' : Pool.Service}, (Pool.Call.over (.got s)).Serves s' → s' = .acquire := by
    rintro s' (h | h)
    · exact absurd h nofun
    · exact (Option.some.inj h).symm
  obtain ⟨t, ht, hon⟩ := h
  cases t with
  | acquire j =>
    obtain rfl : k = j := ht.1
    cases below with
    | nil => exact hon.elim
    | cons g rest =>
      cases g with
      | borrowing j epoch =>
        obtain rfl : j = k := hon
        exact ⟨epoch, rest, rfl⟩
      | _ => exact hon.elim
  | user op => cases op <;> first | exact absurd (other ht.2) nofun | exact ht.elim
  | sweep | teardown | giveBack => exact absurd (other ht.2) nofun
  | _ => exact ht.elim

end

/-- The number of levels never changes. -/
theorem depth_of_apply {w w' : World Cache Frame} {m : Move Op Reply} {notices : List Notice}
    (ha : program.apply w m = some (w', notices)) : w'.shared.depth = w.shared.depth := by
  cases Program.effect_of_apply ha with
  | spawn | enter | descend | collect => rfl
  | step hs hn he => exact (Frame.steps hn he).depth
  | ascend hs hn hg he => exact (Frame.resumed (Or.inr ⟨_, hg⟩) he).depth
  | answer hs hn he => exact (Frame.resumed (Or.inl ⟨_, hn⟩) he).depth
  | expire _ ht => exact Frame.depth_expire ht

/-- **Every frame stands on what its task stands on.** -/
theorem stands_of_reach {c : Cache} {w : World Cache Frame}
    (hw : program.Reach (World.init c) w) :
    w.shared.depth = c.depth ∧ ∀ i, Stacked (Stands c.depth) (w.stack i) := by
  induction hw with
  | refl => exact ⟨rfl, fun i => by simp [World.stack, World.init]⟩
  | @move w w' m notices hw ha ih =>
    obtain ⟨depth, ih⟩ := ih
    have started := Frame.started_of_reach hw
    refine ⟨?_, ?_⟩
    · exact (depth_of_apply ha).trans depth
    · refine Program.stacked_of_effect (R := fun _ => Stands c.depth)
        (S := fun _ => Stands c.depth) (Program.effect_of_apply ha) ih (fun _ _ _ _ h => h)
        ?_ ?_ ?_ ?_ ?_
      · rintro i op (hs | ⟨f, below, q, hs, hq⟩)
        · rw [hs]
          exact ⟨.user op, rfl, trivial⟩
        · rw [hs]
          exact ⟨.user op, rfl, w.shared, q, depth, hq⟩
      · rintro i m f below s f' notices - - - hn he - ⟨t, ht, hon⟩
        exact ⟨t, ht.step (Frame.steps hn he), hon⟩
      · rintro i f below g hs hn -
        rw [← depth]
        exact (Frame.needs (started f (World.mem_frames_of_stack hs)) hn).stands below
      · rintro i m f g h rest r s g' notices - - - - hg he - - ⟨t, ht, hon⟩
        exact ⟨t, ht.resume (Frame.resumed (Or.inr ⟨h, hg⟩) he), hon⟩
      · rintro i f below q r s f' notices - - - hn he - ⟨t, ht, hon⟩
        exact ⟨t, ht.resume (Frame.resumed (Or.inl ⟨q, hn⟩) he), hon⟩

theorem depth_of_reach {limits : List Limits} {shared : Bool} {w : World Cache Frame}
    (hw : program.Reach (World.init (.ofLimits limits shared)) w) :
    w.shared.depth = limits.length :=
  (stands_of_reach hw).1.trans (depth_ofLimits limits shared)

end Cache

end Lending
