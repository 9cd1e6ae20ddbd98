import Lending.Proofs.Cache.Handles
import Lending.Proofs.Cache.References
import Lending.Proofs.Cache.Slots
import Lending.Proofs.Pool.Balance

/-!
# What a level has made, and what became of it

What a level's pool has made it has torn down or discarded, or it has a slot for it. The counters
say so whenever no call of the pool is under way; while one is, they are behind or ahead by what is
in its hands (`Pool.Call.share`). So a transition that makes no session, and meets no raise, changes
the slots of a level exactly by what the level tears down and discards meanwhile.

* `Level.balance`, `Frame.share`: the two figures.
* `Spares`: a transition leaves their sum alone, and makes neither a session nor a handle
  (`spares_of_step`, `spares_of_resume`); `Spared` is the same of a whole stack, from one state to a
  later one.
* `slots_le_allocated`: no frame has more slots of a living pool than are taken.
-/

namespace Lending

namespace Pool

variable {α : Type}

/-- What was made, less what was torn down or discarded, and less the slots taken. -/
def balance (p : Pool α) : Int :=
  p.counters.created - (p.counters.evicted + p.counters.discarded) - p.allocated

namespace Call

/-- Slots in a call's hands without a resource, less resources without a slot. -/
def share (c : Call α) : Int := c.vacates - c.unseats

variable {m : Moment} {p p' : Pool α} {c c' : Call α} {r : Reply α} {x : α}

theorem CountersEven.balance {surplus drained relayed : Nat}
    (h : CountersEven p p' c c' surplus drained relayed) :
    p'.balance + c'.share = p.balance + c.share := by
  have made := h.made
  unfold Pool.balance share
  omega

/-- No step makes a resource. -/
theorem Steps.created (h : Steps m p c p' c') : p'.counters.created = p.counters.created := by
  cases h with
  | acquire h | retry h | woken _ h => cases h <;> rfl
  | _ => rfl

/-- Only where a resource is being made, an answer makes one. -/
theorem created_counts (hm : ∀ x, r = .got x → c ≠ .creating) (n : Counters) :
    (c.counts r n).created = n.created := by
  unfold counts
  split
  · rfl
  · rfl
  · exact absurd rfl (hm _ rfl)
  all_goals rfl

/-- What lets go of a resource does not end the pool. -/
theorem closes_of_drop (hn : c.need p = .ask (.drop x)) : c.closes = 0 := by
  cases c with
  | evicting => cases hn
  | _ => rfl

end Call

end Pool

namespace Cache

namespace Frame

/-- A pool call's share, where it is one of level `k`. -/
def share (k : Nat) : Frame → Int
  | .pool j x => if j = k then x.share else 0
  | _ => 0

@[simp] theorem share_pool (k : Nat) (x : Pool.Call Nat) : (pool k x).share k = x.share :=
  if_pos rfl

/-- A call that has not begun has no share. -/
theorem share_start (k j : Nat) (op : Pool.Op Nat) : (pool j (.start op)).share k = 0 := ite_self 0

/-- Whether an operation waits for a session to be made. -/
def awaits : Frame → Bool
  | .borrowing _ _ | .pool _ .creating => true
  | _ => false

end Frame

/-- A transition that makes neither a session nor a handle at level `k`, and leaves alone what the
counters say of the slots. -/
structure Spares (k : Nat) (c : Cache) (f : Frame) (c' : Cache) (f' : Frame) : Prop where
  created : (c'.level k).pool.counters.created = (c.level k).pool.counters.created
  handles : (c'.level k).handles.length = (c.level k).handles.length
  balance : (c'.level k).pool.balance + f'.share k = (c.level k).pool.balance + f.share k

section

variable {k : Nat} {m : Moment} {c c' : Cache} {f f' g : Frame} {r : Reply} {notices : List Notice}

/-- A transition that leaves the level's pool alone. -/
theorem Spares.of_pool (hp : (c'.level k).pool = (c.level k).pool)
    (hh : (c'.level k).handles.length = (c.level k).handles.length)
    (hs : f'.share k = f.share k) : Spares k c f c' f' where
  created := by rw [hp]
  handles := hh
  balance := by rw [hp, hs]

/-- A call of a level's pool goes on. -/
theorem Spares.of_call {j : Nat} {x x' : Pool.Call Nat} {p' : Pool Nat} (hk : k < c.depth)
    (created : j = k → p'.counters.created = (c.level j).pool.counters.created)
    (balance : j = k → p'.balance + x'.share = (c.level j).pool.balance + x.share) :
    Spares k c (.pool j x) (c.setPool j p') (.pool j x') := by
  have handles : ((c.setPool j p').level k).handles = (c.level k).handles :=
    Frame.handles_modify (g := fun l => { l with pool := p' }) (fun _ => rfl) j
  by_cases hj : j = k
  · subst hj
    have pool : ((c.setPool j p').level j).pool = p' := by
      rw [pool_setPool, if_pos ⟨rfl, hk⟩]
    refine ⟨?_, congrArg List.length handles, ?_⟩
    · rw [pool]
      exact created rfl
    · rw [pool, Frame.share_pool, Frame.share_pool]
      exact balance rfl
  · refine .of_pool ?_ (congrArg List.length handles) ?_
    · rw [pool_setPool, if_neg fun h => hj h.1]
    · exact (if_neg hj).trans (if_neg hj).symm

theorem Frame.share_releaseLevel (j : Nat) (fault : Option String) :
    (releaseLevel c j fault).2.share k = 0 := by
  unfold releaseLevel
  dsimp only
  split <;> rfl

theorem Frame.share_afterLast (fault : Option String) (r : Reply) :
    (afterLast c fault r).2.1.share k = 0 := by
  unfold afterLast
  split
  · dsimp only
    split <;> rfl
  · rfl

/-- The answers of a call that meets no raise. -/
theorem Spares.of_answered {j : Nat} {x x' : Pool.Call Nat} {r : Pool.Reply Nat} (hk : k < c.depth)
    (ha : Pool.Call.Answered x r x') (hr : ∀ message, r ≠ .raised message)
    (hm : ∀ y, r = .got y → x ≠ .creating) (closes : x.closes = 0) :
    Spares k c (.pool j x) (c.setPool j ((c.level j).pool.count (x.counts r))) (.pool j x') := by
  have unbroken : x.breaks r = false := by
    unfold Pool.Call.breaks
    split
    · rfl
    · exact absurd rfl (hr _)
    · rfl
  exact .of_call hk (fun _ => Pool.Call.created_counts hm _)
    fun _ => (ha.even _ unbroken closes).balance

/-- **A step makes nothing**, and changes the slots of a level as the counters say; the end of its
pool is left out. -/
theorem spares_of_step (hk : k < c.depth) (hn : f.need c = .step)
    (he : f.step m c = (c', f', notices)) (ends : ¬ f.Ends k)
    (hle : ∀ x, f = .pool k x →
      (c.level k).pool.idle.length + f.slots k ≤ (c.level k).pool.allocated) :
    Spares k c f c' f' := by
  have steps := Frame.steps hn he
  have handles : (c'.level k).handles.length = (c.level k).handles.length :=
    (steps.handles hk).length
  have quiet : Quiet (c.level k) (c'.level k) → f'.share k = f.share k → Spares k c f c' f' :=
    fun hq => .of_pool hq.pool handles
  cases steps with
  | @pool j x x' p' hs =>
    refine .of_call hk (fun _ => hs.created) fun hj => ?_
    subst hj
    have covered := hle x rfl
    rw [Frame.slots_pool] at covered
    refine (hs.even (fun hx => ends ?_) (Nat.le_trans (x.surrenders_le _) covered)).balance
    rw [hx]
    exact rfl
  | @letGoRemote j s x x' count hi hx ha =>
    simp only [Frame.step, hx, Prod.mk.injEq] at he
    rw [← he.1, Pool.Call.resume_eq_count]
    refine .of_answered hk ha (by rintro _ ⟨⟩) (by rintro _ ⟨⟩) ?_
    exact Pool.Call.closes_of_drop hx
  | onFactory ho =>
    refine quiet (.refl _) ?_
    cases ho <;> first | rfl | exact Frame.share_start ..
  | putBack =>
    refine quiet (quiet_modifyHandle ?_ ..) (Frame.share_start ..)
    exact fun _ => ⟨rfl, Or.inr rfl⟩
  | close =>
    refine quiet (quiet_modifyHandle ?_ ..) rfl
    exact fun _ => ⟨rfl, Or.inr rfl⟩
  | onHandle | markDirty =>
    refine quiet (quiet_modifyHandle ?_ ..) rfl
    exact fun _ => ⟨rfl, Or.inl rfl⟩
  | letGo j h fault =>
    exact quiet ((quiet_forget c j h k).trans (quiet_releaseLevel _ j fault k))
      (Frame.share_releaseLevel ..)
  | factoryGone j fault =>
    refine quiet (Quiet.trans (quiet_modify ?_ c j k) (quiet_releaseLevel _ j fault k))
      (Frame.share_releaseLevel ..)
    exact fun _ => ⟨rfl, rfl, rfl, .refl _⟩
  | probe | forward | dropHandle | poolGone =>
    refine quiet (.refl _) ?_
    split <;> rfl
  | reset =>
    refine .of_pool (level_modify_of (g := Level.pool) c ?_ _ k) handles ?_
    · exact fun _ => rfl
    · split <;> rfl
  | unavailable | leave | last | borrow | probeReleased | forwardReleased | alreadyReleased =>
    exact quiet (.refl _) rfl

/-- **A result or an answer makes nothing**, if it is no session that was waited for, and changes
the slots of a level as the counters say, if it is no raise. -/
theorem spares_of_resume (hk : k < c.depth)
    (hn : (∃ q, f.need c = .ask q) ∨ ∃ g, f.need c = .sub g)
    (he : f.resume c r = (c', f', notices)) (hr : r.fault = none)
    (hm : ∀ s, r = .got s → f.awaits = false) (closes : ∀ j x, f = .pool j x → x.closes = 0) :
    Spares k c f c' f' := by
  have resumed := Frame.resumed hn he
  have handles : (c'.level k).handles.length = (c.level k).handles.length := by
    cases resumed.handles hk with
    | same hh => rw [hh]
    | left _ _ hh | forgotten _ hh => rw [hh, List.length_modify]
    | lent hf hgot =>
      subst hf
      cases hm _ hgot
  have quiet : Quiet (c.level k) (c'.level k) → f'.share k = f.share k → Spares k c f c' f' :=
    fun hq => .of_pool hq.pool handles
  cases resumed with
  | @pool j x x' q r count hx ha =>
    simp only [Frame.resume, hx, Prod.mk.injEq] at he
    rw [← he.1, Pool.Call.resume_eq_count]
    refine .of_answered hk ha (fun message raised => ?_) (fun s got hc => ?_) (closes j x rfl)
    · rw [Frame.toPool_eq_raised raised] at hr
      cases hr
    · rw [hc] at hm
      cases hm s (Frame.toPool_eq_got got)
  | closed => exact quiet (.refl _) (Frame.share_start ..)
  | within =>
    refine quiet (quiet_modifyHandle ?_ ..) rfl
    exact fun _ => ⟨rfl, Or.inl rfl⟩
  | retired => exact quiet (quiet_forget ..) rfl
  | lent => cases hm _ rfl
  | poolWent | factoryWent =>
    rw [Frame.afterLast_fst]
    exact .of_pool rfl rfl (Frame.share_afterLast ..)
  | advanced | swept =>
    refine .of_pool (level_modify_of (g := Level.pool) c ?_ _ k) handles rfl
    exact fun _ => rfl
  | closeRaised | resetRaised => cases hr
  | notLent | remote | released | poolEmptied | factoryEmptied | foundShared | notShared
  | sharedReset | readAgain => exact quiet (.refl _) rfl

/-- The end of a wait changes nothing that is counted. -/
theorem spares_expire (hk : k < c.depth) : Spares k c f (f.expire c) f := by
  cases f with
  | pool j x =>
    have same : (x.expire (c.level j).pool).counters = (c.level j).pool.counters ∧
        (x.expire (c.level j).pool).balance = (c.level j).pool.balance := by
      cases x <;> exact ⟨rfl, rfl⟩
    exact .of_call hk (fun _ => by rw [same.1]) fun _ => by rw [same.2]
  | _ => exact .of_pool rfl rfl rfl

/-! ## From one state to a later one -/

namespace Frame

/-- What is needed has no share when it starts. -/
theorem Needs.share (h : Needs c f g) (k : Nat) : g.share k = 0 := by
  cases h with
  | within ho => cases ho <;> rfl
  | borrowing | dropPool | dropFactory | sweeping => exact ite_self 0
  | _ => rfl

/-- What has ended has none. -/
theorem share_of_over (hn : f.need c = .over r) (k : Nat) : f.share k = 0 := by
  cases f with
  | pool j x =>
    obtain ⟨r', hx, -⟩ := exists_over_of_need hn
    obtain rfl := Pool.Call.eq_over_of_need hx
    exact ite_self 0
  | _ => rfl

end Frame

end

/-- What the operations of a stack have of level `k`'s slots. -/
def Frame.shares (k : Nat) : List Frame → Int
  | [] => 0
  | f :: fs => f.share k + shares k fs

/-- From one state with a stack to a later one, neither a session nor a handle was made at level
`k`, and what the counters say of its slots, together with what the stack has of them, is the
same. -/
structure Spared (k : Nat) (c : Cache) (fs : List Frame) (c' : Cache) (fs' : List Frame) :
    Prop where
  created : (c'.level k).pool.counters.created = (c.level k).pool.counters.created
  handles : (c'.level k).handles.length = (c.level k).handles.length
  balance : (c'.level k).pool.balance + Frame.shares k fs' =
    (c.level k).pool.balance + Frame.shares k fs

namespace Spared

variable {k : Nat} {c c' c'' : Cache} {f f' g : Frame} {fs fs' fs'' : List Frame}

theorem refl (k : Nat) (c : Cache) (fs : List Frame) : Spared k c fs c fs := ⟨rfl, rfl, rfl⟩

theorem trans (h : Spared k c fs c' fs') (h' : Spared k c' fs' c'' fs'') :
    Spared k c fs c'' fs'' :=
  ⟨h'.created.trans h.created, h'.handles.trans h.handles, h'.balance.trans h.balance⟩

/-- The top frame is replaced. -/
theorem replace (h : Spares k c f c' f') (rest : List Frame) :
    Spared k c (f :: rest) c' (f' :: rest) where
  created := h.created
  handles := h.handles
  balance := by
    have balance := h.balance
    simp only [Frame.shares]
    omega

/-- A frame without a share comes on top. -/
theorem push (hg : g.share k = 0) : Spared k c fs c (g :: fs) where
  created := rfl
  handles := rfl
  balance := by rw [Frame.shares, hg, Int.zero_add]

/-- A frame without a share goes. -/
theorem pop (hf : f.share k = 0) : Spared k c (f :: fs) c fs where
  created := rfl
  handles := rfl
  balance := by rw [Frame.shares, hf, Int.zero_add]

end Spared

section

variable {k : Nat} {f : Frame}

/-! ## The slots that an operation has -/

/-- In every run some number of slots is lost. -/
theorem exists_lost (k : Nat) {w₀ w : World Cache Frame} (hw : program.Reach w₀ w) :
    ∃ n, program.Kept (countLost k) 0 w₀ n w := by
  induction hw with
  | refl => exact ⟨0, .refl⟩
  | move m _ ha ih =>
    obtain ⟨n, counted⟩ := ih
    exact ⟨_, .move m counted ha rfl⟩

/-- **No frame has more slots than are taken**, together with what is idle. -/
theorem slots_le_allocated {limits : List Limits} {shared : Bool} {w : World Cache Frame}
    (hk : k < limits.length) (hw : program.Reach (World.init (.ofLimits limits shared)) w)
    (alive : (w.shared.level k).poolAlive = true) (hf : f ∈ w.frames) :
    (w.shared.level k).pool.idle.length + f.slots k ≤ (w.shared.level k).pool.allocated := by
  obtain ⟨n, counted⟩ := exists_lost k hw
  have slots := (Accounted.of_kept hk counted).slots alive
  have one := w.le_total (Frame.slots k) hf
  omega

end

end Cache

end Lending
