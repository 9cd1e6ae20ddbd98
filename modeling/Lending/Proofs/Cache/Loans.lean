import Lending.Proofs.Cache.Nesting
import Lending.Proofs.Pool.Custody

/-!
# Where the sessions of a level go

A session of a level is idle in its pool, in the hands of a call of the pool, on loan to a handle,
or on its way from a handle that gives it back.

* `Level.onLoan`: the sessions that handles have not given back.
* `LoanStep`, `LoanResume`: what a transition does with them (`Steps.loan`, `Resumed.loan`). Few do
  anything; the others only come from and to frames that are `Frame.Bare`.
* `Stands.over`: a session leaves a call of the pool for the borrowing that called it, and no other
  way.

A session is lent by `get_session`, as a borrowing that hears of it makes a handle. It comes back
with the step that takes it out of the handle, which also decides whether it is released or closed;
from then on it is in the hands of that operation, until the pool has it again or it is gone.
-/

namespace Lending

namespace Pool.Call

variable {α : Type}

/-- Whether a call has no resource in its hands, and no slot: it has not begun, or is over. -/
def bare : Call α → Bool
  | .start (.release _) | .start (.discard _) | .over (.got _) => false
  | .start _ | .teardown | .over _ => true
  | _ => false

variable {c : Call α}

theorem bare_or_handed {p : Pool α} {r : Reply α} (h : c.need p = .over r) :
    c.bare = true ∨ ∃ x, r = .got x ∧ c = .over (.got x) := by
  cases c with
  | «over» result =>
    cases h
    cases r with
    | got x => exact Or.inr ⟨x, rfl, rfl⟩
    | failed | verdict | done | raised => exact Or.inl rfl
  | start op => cases op <;> cases h
  | parked ticket deadline =>
    simp only [need] at h
    split at h <;> cases h
  | _ => cases h

end Pool.Call

/-- The sessions that a level's handles have not given back. -/
def Level.onLoan (l : Level) : List Nat := l.handles.filterMap Handle.target

namespace Cache

/-- Level `k` has the same pool, and the same sessions on loan. -/
structure SameLoans (k : Nat) (c c' : Cache) : Prop where
  pool   : (c'.level k).pool = (c.level k).pool
  onLoan : (c'.level k).onLoan = (c.level k).onLoan

namespace SameLoans

variable {k : Nat} {a b c : Cache}

theorem refl (c : Cache) : SameLoans k c c := ⟨rfl, rfl⟩

theorem trans (h : SameLoans k a b) (h' : SameLoans k b c) : SameLoans k a c :=
  ⟨h'.pool.trans h.pool, h'.onLoan.trans h.onLoan⟩

theorem modify {f : Level → Level} (hp : ∀ l, (f l).pool = l.pool)
    (hl : ∀ l, (f l).onLoan = l.onLoan) (c : Cache) (j : Nat) : SameLoans k c (c.modify j f) :=
  ⟨level_modify_of c hp j k, level_modify_of c hl j k⟩

theorem of_ne {j : Nat} (hj : j ≠ k) (c : Cache) (f : Level → Level) :
    SameLoans k c (c.modify j f) := by
  have same : (c.modify j f).level k = c.level k := by
    rw [level_modify, if_neg fun h => hj h.1]
  exact ⟨by rw [same], by rw [same]⟩

theorem modifyHandle {f : Handle → Handle} (hf : ∀ x, (f x).target = x.target) (c : Cache)
    (j h : Nat) : SameLoans k c (c.modifyHandle j h f) := by
  have same : ∀ (hs : List Handle) (h : Nat),
      (hs.modify h f).filterMap Handle.target = hs.filterMap Handle.target := by
    intro hs
    induction hs with
    | nil => intro h; simp
    | cons x hs ih =>
      intro h
      cases h with
      | zero => simp [List.filterMap_cons, hf]
      | succ h => simp [List.filterMap_cons, ih]
  refine modify ?_ ?_ c j
  · exact fun _ => rfl
  · exact fun l => same l.handles h

theorem forget (c : Cache) (j h : Nat) : SameLoans k c (c.forget j h) := by
  refine modifyHandle ?_ c j h
  exact fun _ => rfl

theorem releaseLevel (c : Cache) (j : Nat) (fault : Option String) :
    SameLoans k c (Frame.releaseLevel c j fault).1 := by
  refine modify ?_ ?_ c j
  · exact fun _ => rfl
  · exact fun _ => rfl

end SameLoans

/-- A session that a handle gives back is not on loan any more. -/
theorem onLoan_release {c : Cache} {k h s : Nat} (hk : k < c.depth)
    (ht : (c.handle k h).target = some s) :
    (s :: ((c.modifyHandle k h fun x => { x with target := none }).level k).onLoan).Perm
      (c.level k).onLoan := by
  have released : ∀ (hs : List Handle) (h : Nat), (hs[h]?.getD .none).target = some s →
      (s :: (hs.modify h fun x => { x with target := none }).filterMap Handle.target).Perm
        (hs.filterMap Handle.target) := by
    intro hs
    induction hs with
    | nil => exact fun h ht => absurd ht (by simp [Handle.none])
    | cons x hs ih =>
      intro h ht
      cases h with
      | zero =>
        have : x.target = some s := by simpa using ht
        simp [this]
      | succ h =>
        have rest := ih h (by simpa using ht)
        cases hx : x.target with
        | none => simpa [List.filterMap_cons, hx] using rest
        | some t =>
          simp only [List.modify_succ_cons, List.filterMap_cons, hx]
          exact (List.Perm.swap t s _).trans (rest.cons t)
  unfold modifyHandle
  rw [level_modify, if_pos ⟨rfl, hk⟩]
  exact released _ h ht

namespace Frame

/-- A frame with nothing of level `k`: neither a session of it nor a slot. -/
def Bare (k : Nat) : Frame → Prop
  | .pool j x => j = k → x.bare = true
  | .closing j _ => j ≠ k
  | _ => True

theorem bare_releaseLevel (k : Nat) (c : Cache) (j : Nat) (fault : Option String) :
    (releaseLevel c j fault).2.Bare k := by
  unfold releaseLevel
  dsimp only
  split <;> exact trivial

theorem bare_afterLast (k : Nat) (c : Cache) (fault : Option String) (r : Reply) :
    (afterLast c fault r).2.1.Bare k := by
  unfold afterLast
  split
  · dsimp only
    split <;> exact trivial
  · exact trivial

/-- What a step does with the sessions of level `k`. -/
inductive LoanStep (k : Nat) (m : Moment) (c c' : Cache) (f f' : Frame) : Prop
  | none (same : SameLoans k c c') (hf : f.Bare k) (hf' : f'.Bare k)
  | pool {x x' : Pool.Call Nat} (hf : f = .pool k x) (hf' : f' = .pool k x')
      (hs : Pool.Call.Steps m (c.level k).pool x (c'.level k).pool x')
      (hl : (c'.level k).onLoan = (c.level k).onLoan)
  | answered {x x' : Pool.Call Nat} {s : Nat} (count : Pool.Counters → Pool.Counters)
      (hf : f = .pool k x) (hf' : f' = .pool k x')
      (hx : x.need (c.level k).pool = .ask (.drop s)) (ha : Pool.Call.Answered x .done x')
      (hp : (c'.level k).pool = (c.level k).pool.count count)
      (hl : (c'.level k).onLoan = (c.level k).onLoan)
  /-- A handle's session is taken out, to be closed or to go back to the pool. -/
  | taken {h s : Nat} (hf : f = .giveBack k h) (ht : (c.handle k h).target = some s)
      (hf' : f' = .closing k s ∧
          ((c.handle k h).epoch ≠ (c.level k).epoch ∨ (c.handle k h).dirty = true) ∨
        f' = .pool k (.start (.release s)) ∧
          (c.handle k h).epoch = (c.level k).epoch ∧ (c.handle k h).dirty = false)
      (hp : (c'.level k).pool = (c.level k).pool)
      (hl : (s :: (c'.level k).onLoan).Perm (c.level k).onLoan)

/-- What a result or an answer does with the sessions of level `k`. -/
inductive LoanResume (k : Nat) (c c' : Cache) (f : Frame) (r : Reply) (f' : Frame) : Prop
  | none (same : SameLoans k c c') (hf : f.Bare k) (hf' : f'.Bare k)
      (hr : ∀ epoch s, f = .borrowing k epoch → r ≠ .got s)
  | answered {x x' : Pool.Call Nat} {q : Pool.Query Nat} (count : Pool.Counters → Pool.Counters)
      (hf : f = .pool k x) (hf' : f' = .pool k x') (hx : x.need (c.level k).pool = .ask q)
      (ha : Pool.Call.Answered x (r.toPool q) x')
      (hp : (c'.level k).pool = (c.level k).pool.count count)
      (hl : (c'.level k).onLoan = (c.level k).onLoan)
  | lent {epoch s n : Nat} (hf : f = .borrowing k epoch) (hr : r = .got s)
      (hf' : f' = .over (.got n)) (hp : (c'.level k).pool = (c.level k).pool)
      (hl : (c'.level k).onLoan = (c.level k).onLoan ++ [s])
  | closed {s : Nat} (hf : f = .closing k s) (hr : r.fault = Option.none)
      (hf' : f' = .pool k (.start (.discard s))) (same : SameLoans k c c')
  | closeRaised {s : Nat} {message : String} (hf : f = .closing k s) (hr : r = .raised message)
      (hf' : f' = .over (.raised message)) (same : SameLoans k c c')

/-- **What a step does with a level's sessions.** -/
theorem Steps.loan {k : Nat} {m : Moment} {c c' : Cache} {f f' : Frame} (h : Steps m c f c' f')
    (hk : k < c.depth) : LoanStep k m c c' f f' := by
  cases h with
  | @pool j x x' p' hs =>
    by_cases hj : j = k
    · subst hj
      refine .pool rfl rfl ?_ ?_
      · rw [pool_setPool, if_pos ⟨rfl, hk⟩]
        exact hs
      · refine level_modify_of (g := Level.onLoan) c ?_ j j
        exact fun _ => rfl
    · exact .none (.of_ne hj c _) (fun h => absurd h hj) fun h => absurd h hj
  | @letGoRemote j s x x' count hi hx ha =>
    by_cases hj : j = k
    · subst hj
      refine .answered count rfl rfl hx ha ?_ ?_
      · rw [pool_setPool, if_pos ⟨rfl, hk⟩]
      · refine level_modify_of (g := Level.onLoan) c ?_ j j
        exact fun _ => rfl
    · exact .none (.of_ne hj c _) (fun h => absurd h hj) fun h => absurd h hj
  | @close j h s ht hc =>
    by_cases hj : j = k
    · subst hj
      refine .taken rfl ht (Or.inl ⟨rfl, hc⟩) ?_ (onLoan_release hk ht)
      refine level_modify_of (g := Level.pool) c ?_ j j
      exact fun _ => rfl
    · exact .none (.of_ne hj c _) trivial hj
  | @putBack j h s ht he hd =>
    by_cases hj : j = k
    · subst hj
      refine .taken rfl ht (Or.inr ⟨rfl, he, hd⟩) ?_ (onLoan_release hk ht)
      refine level_modify_of (g := Level.pool) c ?_ j j
      exact fun _ => rfl
    · exact .none (.of_ne hj c _) trivial fun h => absurd h hj
  | onFactory ho =>
    refine .none ⟨rfl, rfl⟩ trivial ?_
    cases ho with
    | destroy | setSize | setWaitLimit => exact fun _ => rfl
    | getSession | reset | hold => exact trivial
  | onHandle | markDirty =>
    refine .none (.modifyHandle ?_ c _ _) trivial trivial
    exact fun _ => rfl
  | letGo j h fault =>
    exact .none (.trans (.forget c j h) (.releaseLevel _ j fault)) trivial
      (bare_releaseLevel ..)
  | factoryGone j fault =>
    refine .none (.trans (.modify ?_ ?_ c j) (.releaseLevel _ j fault)) trivial
      (bare_releaseLevel ..)
    · exact fun _ => rfl
    · exact fun _ => rfl
  | @reset j hr =>
    refine .none (.modify ?_ ?_ c j) trivial ?_
    · exact fun _ => rfl
    · exact fun _ => rfl
    · split <;> exact trivial
  | probe | forward | dropHandle | poolGone =>
    refine .none (.refl c) trivial ?_
    split <;> exact trivial
  | unavailable | borrow | probeReleased | forwardReleased | alreadyReleased =>
    exact .none (.refl c) trivial trivial
  | leave | last => exact .none ⟨rfl, rfl⟩ trivial trivial

/-- **What a result or an answer does with a level's sessions.** -/
theorem Resumed.loan {k : Nat} {c c' : Cache} {f f' : Frame} {r : Reply}
    (h : Resumed c f r c' f') (hk : k < c.depth) : LoanResume k c c' f r f' := by
  cases h with
  | @pool j x x' q r count hx ha =>
    by_cases hj : j = k
    · subst hj
      refine .answered count rfl rfl hx ha ?_ ?_
      · rw [pool_setPool, if_pos ⟨rfl, hk⟩]
      · refine level_modify_of (g := Level.onLoan) c ?_ j j
        exact fun _ => rfl
    · exact .none (.of_ne hj c _) (fun h => absurd h hj) (fun h => absurd h hj) nofun
  | lent j epoch s =>
    by_cases hj : j = k
    · subst hj
      refine .lent rfl rfl rfl ?_ ?_
      · refine level_modify_of (g := Level.pool) c ?_ j j
        exact fun _ => rfl
      · unfold lend
        rw [level_modify, if_pos ⟨rfl, hk⟩]
        simp [Level.onLoan]
    · refine .none (.of_ne hj c _) trivial trivial fun e s hf => ?_
      cases hf
      exact absurd rfl hj
  | closeRaised j s message =>
    have same : SameLoans k c (if c.innermost j then c else c.forget (j + 1) s) := by
      split
      · exact .refl c
      · exact .forget c _ _
    by_cases hj : j = k
    · subst hj
      exact .closeRaised rfl rfl rfl same
    · exact .none same hj trivial nofun
  | closed j s hr =>
    by_cases hj : j = k
    · subst hj
      exact .closed rfl hr rfl (.refl c)
    · exact .none (.refl c) hj (fun h => absurd h hj) nofun
  | notLent j epoch hr => exact .none (.refl c) trivial trivial fun _ s _ => hr s
  | within =>
    refine .none (.modifyHandle ?_ c _ _) trivial trivial nofun
    exact fun _ => rfl
  | retired j h r => exact .none (.forget c j h) trivial trivial nofun
  | @resetRaised j f hf message =>
    refine .none (.modify ?_ ?_ c j) ?_ trivial nofun
    · exact fun _ => rfl
    · exact fun _ => rfl
    · cases hf <;> exact trivial
  | advanced | swept =>
    refine .none (.modify ?_ ?_ c _) trivial trivial nofun
    · exact fun _ => rfl
    · exact fun _ => rfl
  | poolWent | factoryWent =>
    rw [afterLast_fst]
    exact .none (.refl c) trivial (bare_afterLast ..) nofun
  | remote | released | poolEmptied | factoryEmptied | foundShared | notShared | sharedReset
  | readAgain => exact .none (.refl c) trivial trivial nofun

/-- What becomes idle was on its way to the pool. -/
theorem Steps.idle {k : Nat} {m : Moment} {c c' : Cache} {f f' : Frame} (h : Steps m c f c' f')
    (hk : k < c.depth) {s : Nat} (hs : s ∈ (c'.level k).pool.idle) :
    s ∈ (c.level k).pool.idle ∨
      f = .pool k (.start (.release s)) ∧ (c.level k).pool.overCapacity = false := by
  cases h.loan hk with
  | none same => exact Or.inl (same.pool ▸ hs)
  | pool hf _ hp =>
    generalize (c'.level k).pool = p' at hp hs
    rcases hp.idle s hs with old | rfl
    · exact Or.inl old
    · cases hp with
      | surplus => exact Or.inl hs
      | putBack _ ho => exact Or.inr ⟨hf, ho⟩
  | answered count _ _ _ _ hp =>
    rw [hp, Pool.idle_count] at hs
    exact Or.inl hs
  | taken _ _ _ hp => exact Or.inl (hp ▸ hs)

/-- A reply makes nothing idle, and takes nothing idle away. -/
theorem Resumed.idle {k : Nat} {c c' : Cache} {f f' : Frame} {r : Reply}
    (h : Resumed c f r c' f') (hk : k < c.depth) :
    (c'.level k).pool.idle = (c.level k).pool.idle := by
  cases h.loan hk with
  | none same | closed _ _ _ same | closeRaised _ _ _ same => rw [same.pool]
  | answered count _ _ _ _ hp => rw [hp, Pool.idle_count]
  | lent _ _ _ hp => rw [hp]

/-- Only a give-back that finds its handle clean and of the present epoch comes to a release. -/
theorem Steps.release {k s : Nat} {m : Moment} {c c' : Cache} {f : Frame}
    (h : Steps m c f c' (.pool k (.start (.release s)))) (hk : k < c.depth) :
    ∃ h, f = .giveBack k h ∧ (c.handle k h).target = some s ∧
      (c.handle k h).epoch = (c.level k).epoch ∧ (c.handle k h).dirty = false := by
  cases h.loan hk with
  | none _ _ hf' => exact absurd (hf' rfl) nofun
  | pool _ hf' hs =>
    have := hs.begun
    cases hf'
    exact absurd this nofun
  | answered count _ hf' hx ha =>
    cases hf'
    rcases ha.begun with hb | rfl
    · exact absurd hb nofun
    · exact absurd hx nofun
  | @taken h s' hf ht hf' =>
    rcases hf' with ⟨hf', -⟩ | ⟨hf', he, hd⟩
    · cases hf'
    · cases hf'
      exact ⟨h, hf, ht, he, hd⟩

theorem Resumed.ne_release {k s : Nat} {c c' : Cache} {f f' : Frame} {r : Reply}
    (h : Resumed c f r c' f') (hk : k < c.depth) : f' ≠ .pool k (.start (.release s)) := by
  rintro rfl
  cases h.loan hk with
  | none _ _ hf' => exact absurd (hf' rfl) nofun
  | answered count _ hf' hx ha =>
    cases hf'
    rcases ha.begun with hb | rfl
    · exact absurd hb nofun
    · exact absurd hx nofun
  | lent _ _ hf' | closed _ _ hf' | closeRaised _ _ hf' => cases hf'

/-- An operation that another one needs has nothing yet. -/
theorem Needs.bare {c : Cache} {f g : Frame} (h : Needs c f g) (k : Nat) : g.Bare k := by
  cases h with
  | within ho => cases ho <;> exact trivial
  | borrowing | dropPool | dropFactory | sweeping => exact fun _ => rfl
  | make | judge | evict | letGo | closing | retire | releasing | thenPool | thenFactory =>
    exact trivial

/-- A call of a pool has ended when it has for the pool. -/
theorem exists_over_of_need {k : Nat} {c : Cache} {x : Pool.Call Nat} {r : Reply}
    (h : (pool k x).need c = .over r) :
    ∃ r', x.need (c.level k).pool = .over r' ∧ r = .ofPool r' := by
  simp only [need] at h
  cases hx : x.need (c.level k).pool with
  | «over» r' =>
    rw [hx] at h
    cases h
    exact ⟨r', rfl, rfl⟩
  | ask q =>
    rw [hx] at h
    cases q <;> simp only [ofQuery] at h <;> split at h <;> cases h
  | step | sub | wait => rw [hx] at h; cases h

end Frame

/-- How a frame of a stack has ended, as far as the sessions of level `k` go. -/
inductive Ended (k : Nat) (f : Frame) (r : Reply) (below : List Frame) : Prop
  | bare (hf : f.Bare k)
      (hr : ∀ epoch rest s, below = .borrowing k epoch :: rest → r ≠ .got s)
  /-- The session acquired goes to the borrowing. -/
  | acquired {s epoch : Nat} {rest : List Frame} (hf : f = .pool k (.over (.got s)))
      (hr : r = .got s) (hb : below = .borrowing k epoch :: rest)

/-- **A session leaves a call of the pool for the borrowing that called it**, and no other way. -/
theorem Stands.over {d k : Nat} {c : Cache} {f : Frame} {below : List Frame} {r : Reply}
    (h : Stands d f below) (hn : f.need c = .over r) : Ended k f r below := by
  by_cases hp : ∃ x, f = .pool k x
  · obtain ⟨x, rfl⟩ := hp
    obtain ⟨r', hx, rfl⟩ := Frame.exists_over_of_need hn
    rcases Pool.Call.bare_or_handed hx with hb | ⟨s, rfl, rfl⟩
    · refine .bare (fun _ => hb) fun epoch rest s _ hr => ?_
      cases r' with
      | got =>
        have := Pool.Call.mem_handed_of_over hx
        cases x <;> first | exact absurd this List.not_mem_nil | skip
        rename_i result
        cases result <;> first | exact absurd this List.not_mem_nil | exact absurd hb nofun
      | failed | verdict | done | raised => exact absurd hr nofun
    · obtain ⟨epoch, rest, rfl⟩ := h.pool_got
      exact .acquired rfl rfl rfl
  · refine .bare ?_ fun epoch rest s hb _ => ?_
    · cases f with
      | pool j x =>
        rintro rfl
        exact absurd ⟨x, rfl⟩ hp
      | closing j s =>
        simp only [Frame.need] at hn
        split at hn <;> cases hn
      | _ => exact trivial
    · rw [hb] at h
      obtain ⟨x, rfl, -⟩ := h.borrowing
      exact hp ⟨x, rfl⟩

/-- Nobody outside takes a session from a call of a pool. -/
theorem Ended.bare_of_collect {k i : Nat} {w w' : World Cache Frame} {f : Frame} {r : Reply}
    {below : List Frame} {notices : List Notice} (h : Ended k f r below)
    (ha : program.apply w (.collect i) = some (w', notices)) (hst : w.stack i = f :: below) :
    f.Bare k := by
  cases h with
  | bare hf => exact hf
  | acquired hf hr hb =>
    subst hb
    exact absurd rfl (Program.not_sub_of_collect ha hst _)

end Cache

end Lending
