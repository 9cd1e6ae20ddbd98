import Lending.Cache.Frame
import Lending.Proofs.Pool.Call

/-!
# The transitions of a stack of caches

Everything an operation of a stack can do, one constructor for each way on:

* `Op.OnFactory`, `Op.OnHandle`: what a user's operation works on, and where it starts.
* `Frame.Steps`: one step of an operation that needs nothing (`steps`).
* `Frame.Resumed`: how an operation goes on with the result or the answer it needed (`resumed`).
* `Frame.Needs`: which operation an operation needs, where it needs one (`needs`).

A stack changes by changes of single levels. `level_modify` says what such a change does to a level,
and `level_modify_of` what it leaves alone.

Each constructor carries the condition under which its way is taken, so that a proof by cases has at
hand what each case rests on. Proofs about runs go by `steps`, `resumed` and `needs` rather than
open `Frame.step` and `Frame.resume`.
-/

namespace Lending.Cache

/-! ## Changes of a level -/

theorem modify_eq_self {β : Type} {l : List β} {n : Nat} {f : β → β}
    (hf : ∀ x, l[n]? = some x → f x = x) : l.modify n f = l := by
  refine List.ext_getElem? fun j => ?_
  rw [List.getElem?_modify]
  cases hx : l[j]? with
  | none => rfl
  | some x =>
    by_cases hj : n = j
    · simp [hj, hf x (hj ▸ hx)]
    · simp [hj]

section Levels

variable (c : Cache)

@[simp] theorem depth_modify (j : Nat) (f : Level → Level) : (c.modify j f).depth = c.depth := by
  simp [depth, modify]

theorem level_modify (j k : Nat) (f : Level → Level) :
    (c.modify j f).level k = if j = k ∧ k < c.depth then f (c.level k) else c.level k := by
  unfold level modify depth
  simp only [List.getElem?_modify]
  by_cases hk : k < c.levels.length
  · by_cases hj : j = k
    · simp [hj, hk]
    · simp [hj, hk]
  · simp [hk]

/-- What a change of a level leaves alone, it leaves alone at every level. -/
theorem level_modify_of {β : Type} {g : Level → β} {f : Level → Level} (hf : ∀ l, g (f l) = g l)
    (j k : Nat) : g ((c.modify j f).level k) = g (c.level k) := by
  rw [level_modify]
  split
  · exact hf _
  · rfl

theorem modify_modify (j : Nat) (f g : Level → Level) :
    (c.modify j f).modify j g = c.modify j (g ∘ f) := by
  unfold modify
  rw [List.modify_modify_eq]

theorem modify_of_eq {j : Nat} {f : Level → Level} (hf : ∀ l, c.levels[j]? = some l → f l = l) :
    c.modify j f = c := by
  unfold modify
  rw [modify_eq_self hf]

@[simp] theorem epoch_modifyHandle (j h k : Nat) (f : Handle → Handle) :
    ((c.modifyHandle j h f).level k).epoch = (c.level k).epoch := by
  refine level_modify_of (g := Level.epoch) c ?_ j k
  exact fun _ => rfl

theorem pool_setPool (j k : Nat) (p : Pool Nat) : ((c.setPool j p).level k).pool =
    if j = k ∧ k < c.depth then p else (c.level k).pool := by
  unfold setPool
  rw [level_modify]
  split <;> rfl

theorem setPool_setPool (j : Nat) (p p' : Pool Nat) :
    (c.setPool j p).setPool j p' = c.setPool j p' := modify_modify ..

theorem setPool_pool (j : Nat) : c.setPool j (c.level j).pool = c := by
  refine modify_of_eq c fun l hl => ?_
  rw [level, hl]
  rfl

variable {c : Cache} {k : Nat} {limits : List Limits}

theorem innermost_iff : c.innermost k = true ↔ c.depth ≤ k + 1 := decide_eq_true_iff

theorem inner_iff : ¬ c.innermost k = true ↔ k + 1 < c.depth := by
  rw [innermost_iff, Nat.not_le]

theorem innermost_eq_false : c.innermost k = false ↔ k + 1 < c.depth := by
  rw [← Bool.not_eq_true, inner_iff]

theorem depth_ofLimits (limits : List Limits) (shared : Bool) :
    (ofLimits limits shared).depth = limits.length := by
  simp [depth, ofLimits]

theorem level_ofLimits (hk : k < limits.length) (shared : Bool) :
    (ofLimits limits shared).level k = { pool := .ofLimits limits[k] } := by
  simp [level, ofLimits, hk]

end Levels

/-- The message of a raise. -/
def Reply.fault : Reply → Option String
  | .raised message => some message
  | _ => none

/-! ## How operations begin -/

/-- The operations on a factory: the level, and where they start. -/
inductive Op.OnFactory : Op → Nat → Frame → Prop
  | getSession : OnFactory .getSession 0 (.borrow 0)
  | reset (k : Nat) : OnFactory (.reset k) k (.reset k)
  | destroy (k : Nat) : OnFactory (.destroy k) k (.pool k (.start .removeIdle))
  | setSize (k n : Nat) : OnFactory (.setSize k n) k (.pool k (.start (.resize n)))
  | setWaitLimit (k : Nat) (d : Duration) :
      OnFactory (.setWaitLimit k d) k (.pool k (.start (.setWaitLimit d)))
  | hold : OnFactory .hold 0 (.over .done)

/-- The operations on a handle of the outermost level: the handle, and where they start. -/
inductive Op.OnHandle : Op → Nat → Frame → Prop
  | close (h : Nat) : OnHandle (.close h) h (.giveBack 0 h)
  | drop (h : Nat) : OnHandle (.drop h) h (.dropHandle 0 h)
  | isOpen (h : Nat) : OnHandle (.isOpen h) h (.probe 0 h)
  | file (h : Nat) (op : FileOp) : OnHandle (.file h op) h (.forward 0 h op)

namespace Frame

/-! ## Stepping -/

/-- One step of an operation that needs nothing. -/
inductive Steps (m : Moment) (c : Cache) : Frame → Cache → Frame → Prop
  /-- What the operation needs is not there. -/
  | unavailable (op : Op) : Steps m c (.call op) c (.over .unavailable)
  | onFactory {op : Op} {k : Nat} {body : Frame} (ho : Op.OnFactory op k body)
      (hk : 0 < c.keepers) (hd : k < c.depth) :
      Steps m c (.call op) { c with keepers := c.keepers + 1 } body
  | onHandle {op : Op} {h : Nat} {body : Frame} (ho : Op.OnHandle op h body)
      (hg : (c.handle 0 h).gone = false) (hu : (c.handle 0 h).inUse = false) :
      Steps m c (.call op) (c.modifyHandle 0 h fun x => { x with inUse := true }) (.within h body)
  | leave (hk : 1 < c.keepers) :
      Steps m c (.call .leave) { c with keepers := c.keepers - 1 } (.over .done)
  /-- The last reference to the outermost factory goes. -/
  | last (hk : c.keepers = 1) :
      Steps m c (.call .leave) { c with keepers := c.keepers - 1 } (.dropFactory 0)
  | markDirty (h k : Nat) :
      Steps m c (.call (.markDirty h k)) (c.modifyHandle k h fun x => { x with dirty := true })
        (.over .done)
  | pool {k : Nat} {x x' : Pool.Call Nat} {p' : Pool Nat}
      (hs : Pool.Call.Steps m (c.level k).pool x p' x') :
      Steps m c (.pool k x) (c.setPool k p') (.pool k x')
  /-- A remote session is let go at once. -/
  | letGoRemote {k s : Nat} {x x' : Pool.Call Nat} (count : Pool.Counters → Pool.Counters)
      (hi : c.innermost k = true) (hx : x.need (c.level k).pool = .ask (.drop s))
      (ha : Pool.Call.Answered x .done x') :
      Steps m c (.pool k x) (c.setPool k ((c.level k).pool.count count)) (.pool k x')
  /-- The epoch is loaded. -/
  | borrow (k : Nat) : Steps m c (.borrow k) c (.borrowing k (c.level k).epoch)
  | probeReleased {k h : Nat} (ht : (c.handle k h).target = none) :
      Steps m c (.probe k h) c (.over (.flag false))
  | probe {k h s : Nat} (ht : (c.handle k h).target = some s) :
      Steps m c (.probe k h) c
        (if c.innermost k then .remote (.isOpen s) else .probe (k + 1) s)
  | forwardReleased {k h : Nat} (op : FileOp) (ht : (c.handle k h).target = none) :
      Steps m c (.forward k h op) c (.over (.file .released))
  | forward {k h s : Nat} (op : FileOp) (ht : (c.handle k h).target = some s) :
      Steps m c (.forward k h op) c
        (if c.innermost k then .remote (.file s op) else .forward (k + 1) s op)
  | alreadyReleased {k h : Nat} (ht : (c.handle k h).target = none) :
      Steps m c (.giveBack k h) c (.over .done)
  /-- The handle's session is outdated or dirty. -/
  | close {k h s : Nat} (ht : (c.handle k h).target = some s)
      (hc : (c.handle k h).epoch ≠ (c.level k).epoch ∨ (c.handle k h).dirty = true) :
      Steps m c (.giveBack k h) (c.modifyHandle k h fun x => { x with target := none })
        (.closing k s)
  /-- The handle's session goes back to the pool. -/
  | putBack {k h s : Nat} (ht : (c.handle k h).target = some s)
      (he : (c.handle k h).epoch = (c.level k).epoch) (hd : (c.handle k h).dirty = false) :
      Steps m c (.giveBack k h) (c.modifyHandle k h fun x => { x with target := none })
        (.pool k (.start (.release s)))
  | dropHandle (k h : Nat) :
      Steps m c (.dropHandle k h) c
        (if (c.handle k h).target.isSome then .releasing k h else .letGo k h none)
  | letGo (k h : Nat) (fault : Option String) :
      Steps m c (.letGo k h fault) (releaseLevel (c.forget k h) k fault).1
        (releaseLevel (c.forget k h) k fault).2
  | factoryGone (k : Nat) (fault : Option String) :
      Steps m c (.factoryGone k fault)
        (releaseLevel (c.modify k fun l => { l with factoryAlive := false }) k fault).1
        (releaseLevel (c.modify k fun l => { l with factoryAlive := false }) k fault).2
  | poolGone (k : Nat) (fault : Option String) :
      Steps m c (.poolGone k fault) c
        (if c.innermost k then .over (.ofFault fault) else .thenFactory (k + 1) fault)
  /-- A reset gets its turn. -/
  | reset {k : Nat} (hr : (c.level k).resetting = false) :
      Steps m c (.reset k) (c.modify k fun l => { l with resetting := true })
        (if c.shared && c.innermost k then .askingShared k else .readingClock k (c.level k).epoch)

theorem steps_call (m : Moment) (c : Cache) (op : Op) :
    Steps m c (.call op) (begin c op).1 (begin c op).2 := by
  have factory : ∀ {k : Nat} {body : Frame}, Op.OnFactory op k body →
      Steps m c (.call op) (onFactory c k body).1 (onFactory c k body).2 := by
    intro k body ho
    unfold onFactory
    split
    · rename_i h
      simp only [Bool.and_eq_true, decide_eq_true_eq] at h
      exact .onFactory ho h.1 h.2
    · exact .unavailable op
  have handle : ∀ {h : Nat} {body : Frame}, Op.OnHandle op h body →
      Steps m c (.call op) (onHandle c h body).1 (onHandle c h body).2 := by
    intro h body ho
    unfold onHandle
    split
    · exact .unavailable op
    · rename_i hb
      simp only [Bool.or_eq_true, not_or, Bool.not_eq_true] at hb
      exact .onHandle ho hb.1 hb.2
  cases op with
  | getSession => exact factory .getSession
  | reset k => exact factory (.reset k)
  | destroy k => exact factory (.destroy k)
  | setSize k n => exact factory (.setSize k n)
  | setWaitLimit k d => exact factory (.setWaitLimit k d)
  | hold => exact factory .hold
  | close h => exact handle (.close h)
  | drop h => exact handle (.drop h)
  | isOpen h => exact handle (.isOpen h)
  | file h op => exact handle (.file h op)
  | markDirty h k => exact .markDirty h k
  | leave =>
    unfold begin leave
    by_cases h0 : c.keepers = 0
    · simp only [h0, if_true]
      exact .unavailable _
    · by_cases h1 : c.keepers = 1
      · simp only [if_neg h0, if_pos h1]
        exact .last h1
      · simp only [if_neg h0, if_neg h1]
        exact .leave (by omega)

/-- **What an operation that needs nothing does.** -/
theorem steps {m : Moment} {c c' : Cache} {f f' : Frame} {notices : List Notice}
    (hn : f.need c = .step) (h : f.step m c = (c', f', notices)) : Steps m c f c' f' := by
  obtain ⟨rfl, rfl⟩ : (f.step m c).1 = c' ∧ (f.step m c).2.1 = f' := by simp [h]
  clear h
  cases f with
  | call op => exact steps_call m c op
  | pool k x =>
    simp only [need] at hn
    cases hx : x.need (c.level k).pool with
    | step =>
      simp only [step, hx]
      exact .pool (Pool.Call.steps hx rfl)
    | sub g => exact absurd hx (Pool.Call.need_ne_sub _ _ _)
    | ask q =>
      cases q with
      | drop s =>
        simp only [hx, ofQuery] at hn
        by_cases hi : c.innermost k = true
        · rcases hr : x.resume (c.level k).pool .done with ⟨p', x', notices⟩
          obtain ⟨count, rfl⟩ := Pool.Call.exists_resume_eq_count hr
          simp only [step, hx, hr]
          exact .letGoRemote count hi hx (Pool.Call.answered hr)
        · rw [if_neg hi] at hn
          exact absurd hn nofun
      | create | isStale | evict =>
        simp only [hx, ofQuery] at hn
        split at hn <;> exact absurd hn nofun
    | wait | «over» => rw [hx] at hn; exact absurd hn nofun
  | borrow k => exact .borrow k
  | probe k h =>
    simp only [step]
    cases ht : (c.handle k h).target with
    | none => exact .probeReleased ht
    | some s => exact .probe ht
  | forward k h op =>
    simp only [step]
    cases ht : (c.handle k h).target with
    | none => exact .forwardReleased op ht
    | some s => exact .forward op ht
  | giveBack k h =>
    simp only [step, giveBackStep]
    cases ht : (c.handle k h).target with
    | none => exact .alreadyReleased ht
    | some s =>
      have same : ((c.modifyHandle k h fun x => { x with target := none }).level k).epoch =
          (c.level k).epoch := epoch_modifyHandle ..
      simp only [same]
      split
      · rename_i he
        exact .close ht (Or.inl he)
      · rename_i he
        split
        · rename_i hd
          exact .close ht (Or.inr hd)
        · rename_i hd
          exact .putBack ht (Decidable.not_not.mp he) (by simpa using hd)
  | dropHandle k h => exact .dropHandle k h
  | letGo k h fault => exact .letGo k h fault
  | factoryGone k fault => exact .factoryGone k fault
  | poolGone k fault => exact .poolGone k fault
  | reset k =>
    simp only [need] at hn
    split at hn
    · exact absurd hn nofun
    · rename_i hr
      exact .reset (by simpa using hr)
  | closing k s =>
    simp only [need] at hn
    split at hn <;> exact absurd hn nofun
  | within | borrowing | remote | retire | releasing | dropPool | dropFactory | thenPool
  | thenFactory | askingShared | resettingShared | readingClock | sweeping | «over» | aborted =>
    exact absurd hn nofun

/-! ## Results and answers -/

/-- A reset is under way at level `k`, at a point where a raise ends it. -/
inductive Resetting (k : Nat) : Frame → Prop
  | asking : Resetting k (.askingShared k)
  | shared : Resetting k (.resettingShared k)
  | clock (previous : Nat) : Resetting k (.readingClock k previous)
  | sweeping (epoch : Nat) : Resetting k (.sweeping k epoch)

/-- How an operation goes on with the result or the answer it needed. -/
inductive Resumed (c : Cache) : Frame → Reply → Cache → Frame → Prop
  | within (h : Nat) (body : Frame) (r : Reply) :
      Resumed c (.within h body) r (c.modifyHandle 0 h fun x => { x with inUse := false }) (.over r)
  /-- A call of a pool gets the answer to its question. -/
  | pool {k : Nat} {x x' : Pool.Call Nat} {q : Pool.Query Nat} {r : Reply}
      (count : Pool.Counters → Pool.Counters) (hx : x.need (c.level k).pool = .ask q)
      (ha : Pool.Call.Answered x (r.toPool q) x') :
      Resumed c (.pool k x) r (c.setPool k ((c.level k).pool.count count)) (.pool k x')
  /-- A session is lent as a new handle. -/
  | lent (k epoch s : Nat) :
      Resumed c (.borrowing k epoch) (.got s) (c.lend k s epoch).1
        (.over (.got (c.lend k s epoch).2))
  | notLent (k epoch : Nat) {r : Reply} (hr : ∀ s, r ≠ .got s) :
      Resumed c (.borrowing k epoch) r c (.over r)
  | remote (q : Query) (r : Reply) : Resumed c (.remote q) r c (.over r)
  | closeRaised (k s : Nat) (message : String) :
      Resumed c (.closing k s) (.raised message)
        (if c.innermost k then c else c.forget (k + 1) s) (.over (.raised message))
  | closed (k s : Nat) {r : Reply} (hr : r.fault = none) :
      Resumed c (.closing k s) r c (.pool k (.start (.discard s)))
  | retired (k h : Nat) (r : Reply) : Resumed c (.retire k h) r (c.forget k h) (.over r)
  | released (k h : Nat) (r : Reply) : Resumed c (.releasing k h) r c (.letGo k h r.fault)
  | poolEmptied (k : Nat) (r : Reply) : Resumed c (.dropPool k) r c (.poolGone k r.fault)
  | factoryEmptied (k : Nat) (r : Reply) : Resumed c (.dropFactory k) r c (.factoryGone k r.fault)
  | poolWent (k : Nat) (fault : Option String) (r : Reply) :
      Resumed c (.thenPool k fault) r (afterLast c fault r).1 (afterLast c fault r).2.1
  | factoryWent (k : Nat) (fault : Option String) (r : Reply) :
      Resumed c (.thenFactory k fault) r (afterLast c fault r).1 (afterLast c fault r).2.1
  /-- A reset ends with a raise. -/
  | resetRaised {k : Nat} {f : Frame} (hf : Resetting k f) (message : String) :
      Resumed c f (.raised message) (c.modify k fun l => { l with resetting := false })
        (.over (.raised message))
  | foundShared (k : Nat) : Resumed c (.askingShared k) (.flag true) c (.resettingShared k)
  | notShared (k : Nat) {r : Reply} (hr : r.fault = none) (hf : r ≠ .flag true) :
      Resumed c (.askingShared k) r c (.readingClock k (c.level k).epoch)
  | sharedReset (k : Nat) {r : Reply} (hr : r.fault = none) :
      Resumed c (.resettingShared k) r c (.readingClock k (c.level k).epoch)
  /-- The epoch moves on. -/
  | advanced {k previous n : Nat} (hn : previous < n) :
      Resumed c (.readingClock k previous) (.reading n) (c.modify k fun l => { l with epoch := n })
        (.sweeping k n)
  | readAgain (k previous : Nat) {r : Reply} (hr : r.fault = none)
      (hn : ∀ n, r = .reading n → n ≤ previous) :
      Resumed c (.readingClock k previous) r c (.readingClock k previous)
  | swept (k epoch : Nat) {r : Reply} (hr : r.fault = none) :
      Resumed c (.sweeping k epoch) r (c.modify k fun l => { l with resetting := false })
        (.over (.reading epoch))

/-- **How an operation goes on with what it needed.** -/
theorem resumed {c c' : Cache} {f f' : Frame} {r : Reply} {notices : List Notice}
    (hn : (∃ q, f.need c = .ask q) ∨ ∃ g, f.need c = .sub g)
    (h : f.resume c r = (c', f', notices)) : Resumed c f r c' f' := by
  obtain ⟨rfl, rfl⟩ : (f.resume c r).1 = c' ∧ (f.resume c r).2.1 = f' := by simp [h]
  clear h
  have needs : f.need c ≠ .step ∧ (∀ r, f.need c ≠ .over r) ∧ f.need c ≠ .wait := by
    rcases hn with ⟨q, hq⟩ | ⟨g, hg⟩
    · rw [hq]
      exact ⟨nofun, nofun, nofun⟩
    · rw [hg]
      exact ⟨nofun, nofun, nofun⟩
  obtain ⟨noStep, noOver, noWait⟩ := needs
  cases f with
  | within h body => exact .within h body r
  | pool k x =>
    cases hx : x.need (c.level k).pool with
    | ask q =>
      rcases ha : x.resume (c.level k).pool (r.toPool q) with ⟨p', x', notices⟩
      obtain ⟨count, rfl⟩ := Pool.Call.exists_resume_eq_count ha
      simp only [resume, hx, ha]
      exact .pool count hx (Pool.Call.answered ha)
    | step => exact absurd (by simp [need, hx]) noStep
    | sub g => exact absurd hx (Pool.Call.need_ne_sub _ _ _)
    | wait => exact absurd (by simp [need, hx]) noWait
    | «over» r => exact absurd (by simp only [need, hx]) (noOver (.ofPool r))
  | borrowing k epoch =>
    cases r with
    | got s => exact .lent k epoch s
    | done | failed | refused | flag | reading | file | raised | unavailable =>
      exact .notLent k epoch nofun
  | remote q => exact .remote q r
  | closing k s =>
    cases r with
    | raised message => exact .closeRaised k s message
    | done | got | failed | refused | flag | reading | file | unavailable =>
      exact .closed k s rfl
  | retire k h => exact .retired k h r
  | releasing k h => cases r <;> exact .released k h _
  | dropPool k => cases r <;> exact .poolEmptied k _
  | dropFactory k => cases r <;> exact .factoryEmptied k _
  | thenPool k fault => exact .poolWent k fault r
  | thenFactory k fault => exact .factoryWent k fault r
  | askingShared k =>
    cases r with
    | raised message => exact .resetRaised .asking message
    | flag b =>
      cases b with
      | true => exact .foundShared k
      | false => exact .notShared k rfl nofun
    | done | got | failed | refused | reading | file | unavailable => exact .notShared k rfl nofun
  | resettingShared k =>
    cases r with
    | raised message => exact .resetRaised .shared message
    | done | got | failed | refused | flag | reading | file | unavailable =>
      exact .sharedReset k rfl
  | readingClock k previous =>
    cases r with
    | raised message => exact .resetRaised (.clock previous) message
    | reading n =>
      simp only [resume]
      split
      · rename_i hlt
        exact .advanced hlt
      · rename_i hge
        refine .readAgain k previous rfl fun n' hn' => ?_
        cases hn'
        exact Nat.le_of_not_lt hge
    | done | got | failed | refused | flag | file | unavailable =>
      exact .readAgain k previous rfl nofun
  | sweeping k epoch =>
    cases r with
    | raised message => exact .resetRaised (.sweeping epoch) message
    | done | got | failed | refused | flag | reading | file | unavailable =>
      exact .swept k epoch rfl
  | reset k =>
    by_cases hr : (c.level k).resetting = true
    · exact absurd (by simp [need, hr]) noWait
    · exact absurd (by simp [need, hr]) noStep
  | «over» r => exact absurd rfl (noOver r)
  | aborted => exact absurd rfl noWait
  | call | borrow | probe | forward | giveBack | dropHandle | letGo | poolGone | factoryGone =>
    exact absurd rfl noStep

/-! ## Operations on handles -/

/-- What is under way on a handle started as one of the operations on handles. -/
def Started : Frame → Prop
  | .within h body => ∃ op, Op.OnHandle op h body
  | _ => True

theorem started_releaseLevel (c : Cache) (k : Nat) (fault : Option String) :
    Started (releaseLevel c k fault).2 := by
  unfold releaseLevel
  dsimp only
  split <;> exact trivial

theorem Steps.started {m : Moment} {c c' : Cache} {f f' : Frame} (h : Steps m c f c' f') :
    Started f' := by
  cases h with
  | onHandle ho => exact ⟨_, ho⟩
  | onFactory ho => cases ho <;> exact trivial
  | probe | forward | dropHandle | poolGone | reset => split <;> exact trivial
  | letGo | factoryGone => exact started_releaseLevel ..
  | unavailable | leave | last | markDirty | pool | letGoRemote | borrow | probeReleased
  | forwardReleased | alreadyReleased | close | putBack => exact trivial

theorem Resumed.started {c c' : Cache} {f f' : Frame} {r : Reply} (h : Resumed c f r c' f') :
    Started f' := by
  cases h with
  | poolWent | factoryWent =>
    unfold afterLast
    split
    · dsimp only
      split <;> exact trivial
    · exact trivial
  | within | pool | lent | notLent | remote | closeRaised | closed | retired | released
  | poolEmptied | factoryEmptied | resetRaised | foundShared | notShared | sharedReset | advanced
  | readAgain | swept => exact trivial

/-- What an operation needs, where it needs another one. -/
inductive Needs (c : Cache) : Frame → Frame → Prop
  | within {h : Nat} {body : Frame} {op : Op} (ho : Op.OnHandle op h body) :
      Needs c (.within h body) body
  | make {k : Nat} {x : Pool.Call Nat} (hx : x.need (c.level k).pool = .ask .create) :
      Needs c (.pool k x) (.borrow (k + 1))
  | judge {k s : Nat} {x : Pool.Call Nat} (hx : x.need (c.level k).pool = .ask (.isStale s)) :
      Needs c (.pool k x) (.probe (k + 1) s)
  | evict {k s : Nat} {x : Pool.Call Nat} (hx : x.need (c.level k).pool = .ask (.evict s)) :
      Needs c (.pool k x) (.retire (k + 1) s)
  | letGo {k s : Nat} {x : Pool.Call Nat} (hx : x.need (c.level k).pool = .ask (.drop s)) :
      Needs c (.pool k x) (.dropHandle (k + 1) s)
  | borrowing (k epoch : Nat) : Needs c (.borrowing k epoch) (.pool k (.start .acquire))
  | closing (k s : Nat) (hi : c.innermost k = false) :
      Needs c (.closing k s) (.giveBack (k + 1) s)
  | retire (k h : Nat) : Needs c (.retire k h) (.giveBack k h)
  | releasing (k h : Nat) : Needs c (.releasing k h) (.giveBack k h)
  | dropPool (k : Nat) : Needs c (.dropPool k) (.pool k .teardown)
  | dropFactory (k : Nat) : Needs c (.dropFactory k) (.pool k (.start .removeIdle))
  | thenPool (k : Nat) (fault : Option String) : Needs c (.thenPool k fault) (.dropPool k)
  | thenFactory (k : Nat) (fault : Option String) : Needs c (.thenFactory k fault) (.dropFactory k)
  | sweeping (k epoch : Nat) : Needs c (.sweeping k epoch) (.pool k (.start .removeIdle))

/-- **What an operation needs.** -/
theorem needs {c : Cache} {f g : Frame} (hf : Started f) (hn : f.need c = .sub g) :
    Needs c f g := by
  cases f with
  | within h body =>
    obtain ⟨op, ho⟩ := hf
    cases hn
    exact .within ho
  | pool k x =>
    simp only [need] at hn
    cases hx : x.need (c.level k).pool with
    | ask q =>
      simp only [hx] at hn
      cases q <;> simp only [ofQuery] at hn <;> split at hn <;> cases hn
      · exact .make hx
      · exact .judge hx
      · exact .evict hx
      · exact .letGo hx
    | step | sub | wait | «over» => rw [hx] at hn; exact absurd hn nofun
  | closing k s =>
    simp only [need] at hn
    split at hn <;> cases hn
    rename_i hi
    exact .closing k s (by simpa using hi)
  | borrowing k epoch => cases hn; exact .borrowing k epoch
  | retire k h => cases hn; exact .retire k h
  | releasing k h => cases hn; exact .releasing k h
  | dropPool k => cases hn; exact .dropPool k
  | dropFactory k => cases hn; exact .dropFactory k
  | thenPool k fault => cases hn; exact .thenPool k fault
  | thenFactory k fault => cases hn; exact .thenFactory k fault
  | sweeping k epoch => cases hn; exact .sweeping k epoch
  | reset k =>
    simp only [need] at hn
    split at hn <;> exact absurd hn nofun
  | call | borrow | probe | forward | remote | giveBack | dropHandle | letGo | poolGone
  | factoryGone | askingShared | resettingShared | readingClock | «over» | aborted =>
    exact absurd hn nofun

theorem Needs.started {c : Cache} {f g : Frame} (h : Needs c f g) : Started g := by
  cases h with
  | within ho => cases ho <;> exact trivial
  | make | judge | evict | letGo | borrowing | closing | retire | releasing | dropPool
  | dropFactory | thenPool | thenFactory | sweeping => exact trivial

/-- **Every operation on a handle started as one.** -/
theorem started_of_reach {c : Cache} {w : World Cache Frame}
    (hw : program.Reach (World.init c) w) : ∀ f ∈ w.frames, Started f := by
  refine Program.forall_frames_of_reach ?_ ?_ ?_ ?_ hw
  · exact fun op => trivial
  · exact fun _ hn he => (steps hn he).started
  · exact fun hf hn => (needs hf hn).started
  · exact fun _ hn he => (resumed hn he).started

/-! ## Moves -/

section

variable {w w' : World Cache Frame} {m : Move Op Reply} {notices : List Notice} {f : Frame}

/-- A frame that takes its next step does one of the things that it can do. -/
theorem steps_of_stepped (ha : program.apply w m = some (w', notices))
    (hs : program.stepped w m = some f) :
    ∃ i moment below f', w.stack i = f :: below ∧ w'.stack i = f' :: below ∧
      Steps moment w.shared f w'.shared f' := by
  obtain ⟨i, moment, below, rfl, hst⟩ := Program.exists_of_stepped hs
  cases Program.effect_of_apply ha with
  | @step _ _ _ f' _ c' _ hst' hne he =>
    obtain ⟨rfl, rfl⟩ := List.cons.inj (hst.symm.trans hst')
    exact ⟨i, moment, below, f', hst, World.stack_update_self (World.lt_length_of_stack hst) ..,
      steps hne he⟩
  | descend hst' hne =>
    rw [Program.stepped_descend hst' hne] at hs
    exact absurd hs nofun
  | ascend hst' hne =>
    rw [Program.stepped_ascend hst' hne] at hs
    exact absurd hs nofun

/-- A frame that hears a reply goes on in one of the ways that it can. -/
theorem resumed_of_heard {r : Reply} (ha : program.apply w m = some (w', notices))
    (hh : program.heard w m = some (f, r)) :
    ∃ i below f', w'.stack i = f' :: below ∧ Resumed w.shared f r w'.shared f' := by
  cases Program.hears_of_apply ha hh with
  | @result i _ _ g f' rest _ _ hst _ hg he =>
    exact ⟨i, rest, f', World.stack_update_self (World.lt_length_of_stack hst) ..,
      resumed (Or.inr ⟨g, hg⟩) he⟩
  | @answer i f' below q _ _ hst hne he =>
    exact ⟨i, below, f', World.stack_update_self (World.lt_length_of_stack hst) ..,
      resumed (Or.inl ⟨q, hne⟩) he⟩

end

end Frame

end Lending.Cache
