import Lending.Proofs.Cache.Promises
import Lending.Proofs.Cache.References
import Lending.Proofs.Cache.Tenure

/-!
# How a level ends

A pool is there for everybody who works with it: borrowing has a reference to the outermost factory,
whoever gives a handle back has that handle, and the end of a factory comes before that of its pool.
So a pool that is gone is one that nobody works with, and once it is empty it stays so.

* `calls_of_gone`: nobody has a handle given back that is gone.
* `pool_of_handle`: while a handle is not gone its pool is alive.
* `not_abandoned`: a pool that nobody refers to is not alive; `idle_of_dead`: one that is not alive
  is empty, or about to be.

A pool is shared by its factory and by the handles of its sessions, and goes with the last of these.
A factory that goes removes what is idle first, as `destroy` does; what handles give back after that
becomes idle again, and the end of the pool tears it down (`Pool.Call.teardown`). The next factory
is part of the pool, and goes last.
-/

namespace Lending.Cache

variable {k h i : Nat} {limits : List Limits} {shared : Bool} {c c' : Cache}
  {w w' : World Cache Frame} {m : Move Op Reply} {notices : List Notice} {f f' g : Frame}
  {r : Reply} {below : List Frame} {D₀ D D' : Diary}

/-! ## Who has a handle given back -/

namespace Frame

theorem calls_releaseLevel (j : Nat) (fault : Option String) :
    (releaseLevel c j fault).2.calls k h = 0 := by
  unfold releaseLevel
  dsimp only
  split <;> rfl

/-- A step that has a handle given back finds it with its session, or not gone. -/
theorem Steps.calls {moment : Moment} (hs : Steps moment c f c' f') (hc : f'.calls k h ≠ 0) :
    (k = 0 ∧ (c.handle 0 h).gone = false) ∨
    (∃ j n, k = j + 1 ∧ f = .giveBack j n ∧ (c.handle j n).target = some h) ∨
    (f = .dropHandle k h ∧ (c.handle k h).target ≠ none) := by
  have met : ∀ {p : Prop} [Decidable p], (if p then 1 else 0 : Nat) ≠ 0 → p := by
    intro p _ hp
    by_contra hn
    exact hp (if_neg hn)
  cases hs with
  | @onHandle op h' body ho hg hu =>
    cases ho with
    | close =>
      obtain ⟨rfl, rfl⟩ := met hc
      exact Or.inl ⟨rfl, hg⟩
    | drop | isOpen | file => exact absurd rfl hc
  | @close j n s ht why =>
    obtain ⟨rfl, rfl⟩ := met hc
    exact Or.inr (Or.inl ⟨j, n, rfl, rfl, ht⟩)
  | dropHandle j h' =>
    split at hc
    · rename_i has
      obtain ⟨rfl, rfl⟩ := met hc
      exact Or.inr (Or.inr ⟨rfl, Option.isSome_iff_ne_none.mp has⟩)
    · exact absurd rfl hc
  | letGo | factoryGone => exact absurd (calls_releaseLevel ..) hc
  | onFactory ho => cases ho <;> exact absurd rfl hc
  | probe | forward | poolGone | reset => split at hc <;> exact absurd rfl hc
  | unavailable | leave | last | markDirty | pool | letGoRemote | borrow | probeReleased
  | forwardReleased | alreadyReleased | putBack => exact absurd rfl hc

theorem Resumed.calls (hr : Resumed c f r c' f') : f'.calls k h = 0 := by
  cases hr with
  | poolWent | factoryWent =>
    unfold afterLast
    split
    · dsimp only
      split <;> rfl
    · rfl
  | within | pool | lent | notLent | remote | closeRaised | closed | retired | released
  | poolEmptied | factoryEmptied | resetRaised | foundShared | notShared | sharedReset | advanced
  | readAgain | swept => rfl

/-- What is needed to have a handle given back is needed for a teardown. -/
theorem Needs.calls (hn : Needs c f g) (hc : g.calls k h ≠ 0) :
    ∃ j x, k = j + 1 ∧ f = .pool j x ∧ x.need (c.level j).pool = .ask (.evict h) := by
  cases hn with
  | @evict j s x hx =>
    by_cases he : j + 1 = k ∧ s = h
    · obtain ⟨rfl, rfl⟩ := he
      exact ⟨j, x, rfl, rfl, hx⟩
    · exact absurd (if_neg he) hc
  | within ho => cases ho <;> exact absurd rfl hc
  | make | judge | letGo | borrowing | closing | retire | releasing | dropPool | dropFactory
  | thenPool | thenFactory | sweeping => exact absurd rfl hc

/-- A handle goes in a step as it is let go. -/
theorem HandleStep.forgets (hs : HandleStep k c c' f f') (hg : HandleGone c' k h)
    (hn : ¬ HandleGone c k h) : ∃ fault, f = .letGo k h fault := by
  have lent : h < (c.level k).handles.length := hs.length ▸ hg.lent
  have gone := hg.gone
  have kept : (c'.handle k h).gone = (c.handle k h).gone → ∃ fault, f = .letGo k h fault :=
    fun he => absurd ⟨lent, he ▸ gone⟩ hn
  cases hs with
  | same hh => exact kept (by rw [handle_of_eq hh])
  | entered _ _ _ _ hh | marked _ hh | released _ _ hh =>
    refine kept ?_
    rw [handle_of_modify hh]
    split <;> rfl
  | @forgotten n fault hf hh =>
    by_cases hn : n = h
    · subst hn
      exact ⟨fault, hf⟩
    · refine kept ?_
      rw [handle_of_modify hh, if_neg fun h => hn h.1]

/-- A handle goes by a reply as its teardown ends. -/
theorem HandleResume.forgets (hr : HandleResume k c c' f r f') (hg : HandleGone c' k h)
    (hn : ¬ HandleGone c k h) :
    f = .retire k h ∨ ∃ j message, k = j + 1 ∧ f = .closing j h ∧ r = .raised message := by
  have gone := hg.gone
  have kept : (c'.level k).handles.length = (c.level k).handles.length →
      (c'.handle k h).gone = (c.handle k h).gone →
      f = .retire k h ∨ ∃ j message, k = j + 1 ∧ f = .closing j h ∧ r = .raised message :=
    fun hl he => absurd ⟨hl ▸ hg.lent, he ▸ gone⟩ hn
  cases hr with
  | same hh => exact kept (by rw [hh]) (by rw [handle_of_eq hh])
  | left _ _ hh =>
    refine kept (by rw [hh, List.length_modify]) ?_
    rw [handle_of_modify hh]
    split <;> rfl
  | @forgotten n hf hh =>
    by_cases hn : n = h
    · subst hn
      exact hf
    · refine kept (by rw [hh, List.length_modify]) ?_
      rw [handle_of_modify hh, if_neg fun h => hn h.1]
  | lent _ _ _ hh =>
    by_cases old : h < (c.level k).handles.length
    · exact absurd ⟨old, handle_of_append hh old ▸ gone⟩ hn
    · have new : h = (c.level k).handles.length := by
        have := hg.lent
        rw [hh, List.length_append, List.length_singleton] at this
        omega
      rw [new, handle_lent hh] at gone
      cases gone

end Frame

/-- What is due has not been given back, so its handle is not gone. -/
theorem alive_of_due (hi : k + 1 < limits.length)
    (hw : program.Kept Diary.note D₀ (World.init (.ofLimits limits shared)) D w)
    (hd : 0 < due k h w) : (w.shared.handle (k + 1) h).gone = false := by
  have few := claims_add_due_le (k := k) (h := h) hw.reach
  have lent := (custody_le_one hi hw.reach h).2 (by omega)
  by_contra hg
  have target := target_of_gone hi hw.reach (by simpa using hg)
  have none := due_of_returned hi hw ⟨lent, target⟩
  omega

/-- A handle is let go for who drops it. -/
theorem Stands.letGo {d : Nat} {fault : Option String}
    (hs : Stands d (.letGo k h fault) below) : (Task.drop k h).On d below := by
  obtain ⟨t, ht, hon⟩ := hs
  cases t with
  | user op => cases op <;> exact ht.elim
  | drop j h' =>
    obtain ⟨rfl, rfl⟩ := ht
    exact hon
  | _ => exact ht.elim

/-- Where one is there for the end of a handle, no other frame has it given back. -/
theorem total_calls_eq_zero (one : w.weigh (Frame.claims k h) ≤ 1) (hst : w.stack i = f :: below)
    (hf : f.claims k h below ≠ 0) (s : Cache) :
    (w.update i s below).total (Frame.calls k h) = 0 := by
  have popped := World.weigh_pop (Frame.claims k h) hst s
  have few := total_calls_le k h (w.update i s below)
  omega

/-- Who goes on with a reply has no handle given back that is gone. -/
theorem calls_of_resumed (hk : k < c.depth) (one : w.weigh (Frame.claims k h) ≤ 1)
    (before : HandleGone c k h → w.total (Frame.calls k h) = 0) (hst : w.stack i = f :: below)
    (hr : Frame.Resumed c f r c' f') (hg : HandleGone c' k h) :
    (w.update i c' (f' :: below)).total (Frame.calls k h) = 0 := by
  have replaced := World.total_replace (Frame.calls k h) hst c' f'
  have popped := World.total_pop (Frame.calls k h) hst c'
  rw [hr.calls] at replaced
  by_cases old : HandleGone c k h
  · have := before old
    omega
  · have calls : f.calls k h ≠ 0 := by
      rcases (hr.handles hk).forgets hg old with rfl | ⟨j, message, rfl, rfl, -⟩ <;>
        simp [Frame.calls]
    have claims := Frame.claims_of_calls calls below
    have := total_calls_eq_zero one hst (by omega) c'
    omega

/-- No step begins to give back a handle that is gone. -/
theorem calls_of_steps {moment : Moment} (hk : k < limits.length)
    (hw : program.Kept Diary.note D₀ (World.init (.ofLimits limits shared)) D w)
    (hg : HandleGone w.shared k h) (steps : Frame.Steps moment w.shared f c' f') :
    f'.calls k h = 0 := by
  by_contra hc
  have gone := hg.gone
  rcases steps.calls hc with ⟨rfl, alive⟩ | ⟨j, n, rfl, -, ht⟩ | ⟨-, ht⟩
  · rw [alive] at gone
    cases gone
  · have due : 0 < due j h w := Nat.lt_of_lt_of_le (pending_of_target ht) (Nat.le_add_right ..)
    rw [alive_of_due hk hw due] at gone
    cases gone
  · exact ht (target_of_gone hk hw.reach gone)

/-- Nor does an operation that a frame needs. -/
theorem calls_of_needs (hk : k < limits.length)
    (hw : program.Kept Diary.note D₀ (World.init (.ofLimits limits shared)) D w)
    (hg : HandleGone w.shared k h) (hst : w.stack i = f :: below)
    (needs : Frame.Needs w.shared f g) :
    g.calls k h = 0 := by
  by_contra hc
  obtain ⟨j, x, rfl, rfl, hx⟩ := needs.calls hc
  have evicts : (Frame.pool j x).evicts j h = 1 := by
    have := x.evicts_eq (w.shared.level j).pool
    rw [hx] at this
    simp [Frame.evicts, this]
  have top := evicts_le_ending hst j h
  have due : 0 < due j h w := Nat.lt_of_lt_of_le (by omega) (Nat.le_add_left ..)
  have gone := hg.gone
  rw [alive_of_due hk hw due] at gone
  cases gone

/-- **Nobody has a handle given back that is gone.** -/
theorem calls_of_gone (hk : k < limits.length)
    (hw : program.Kept Diary.note D₀ (World.init (.ofLimits limits shared)) D w)
    (hg : HandleGone w.shared k h) : w.total (Frame.calls k h) = 0 := by
  induction hw with
  | refl => exact World.total_init ..
  | @move D D' w w' m notices hw ha hn ih =>
    have depth := depth_of_reach hw.reach
    have started := Frame.started_of_reach hw.reach
    have one := (claims_le_one hk hw.reach h).1
    cases Program.effect_of_apply ha with
    | spawn => exact (World.total_spawn ..).trans (ih hg)
    | @enter i op hi => exact (World.total_push (Frame.calls k h) hi w.shared _).trans (ih hg)
    | @step i moment f f' below c' _ hst hne he =>
      have steps := Frame.steps hne he
      have replaced := World.total_replace (Frame.calls k h) hst c' f'
      by_cases old : HandleGone w.shared k h
      · have none := ih old
        have new := calls_of_steps hk hw old steps
        omega
      · obtain ⟨fault, rfl⟩ := (steps.handles (depth ▸ hk)).forgets hg old
        have top := (stands_of_reach hw.reach).2 i
        rw [hst] at top
        obtain ⟨g, rest, rfl, drops⟩ := top.1.letGo.drops
        have claims := Frame.claims_of_drops drops (.letGo k h fault) rest
        have none := total_calls_eq_zero one hst (by omega) c'
        have popped := World.total_pop (Frame.calls k h) hst c'
        have new : f'.calls k h = 0 := by
          cases steps with
          | letGo => exact Frame.calls_releaseLevel ..
        omega
    | @descend i moment f g below hst hne =>
      have none := ih hg
      have pushed := World.total_push (Frame.calls k h) (World.lt_length_of_stack hst) w.shared g
      have needs := Frame.needs (started f (World.mem_frames_of_stack hst)) hne
      have new := calls_of_needs hk hw hg hst needs
      rw [hst] at pushed
      omega
    | @ascend i moment f g g' x rest r c' _ hst hne hg' he =>
      have popped := World.weigh_pop (Frame.claims k h) hst w.shared
      have fewer := World.total_pop (Frame.calls k h) hst w.shared
      have hst' := World.stack_update_self (World.lt_length_of_stack hst) w.shared (g :: rest)
      have later := calls_of_resumed (depth ▸ hk) (by omega) (fun old => by have := ih old; omega)
        hst' (Frame.resumed (Or.inr ⟨x, hg'⟩) he) hg
      rwa [World.update_update] at later
    | @answer i r f f' below q c' _ hst hne he =>
      exact calls_of_resumed (depth ▸ hk) one ih hst (Frame.resumed (Or.inl ⟨q, hne⟩) he) hg
    | @expire i f below t hst ht =>
      obtain ⟨parked, level⟩ := Frame.exists_level_expire ht k
      have handles : ((program.expire w.shared f).level k).handles =
          (w.shared.level k).handles := by rw [level]
      exact ih ⟨handles ▸ hg.lent, (congrArg Handle.gone (handle_of_eq handles h)) ▸ hg.gone⟩
    | @collect i f below r hst hne =>
      have popped := World.total_pop (Frame.calls k h) hst w.shared
      have none := ih hg
      omega

/-! ## Who has a pool -/

/-- Who hears something is on a stack. -/
theorem exists_suffix_of_heard (hm : program.heard w m = some (f, r)) :
    ∃ i below, f :: below <:+ w.stack i := by
  obtain ⟨i, mem⟩ := World.mem_frames.mp (Program.mem_frames_of_heard hm)
  obtain ⟨top, below, he⟩ := List.append_of_mem mem
  exact ⟨i, below, top, he.symm⟩

/-- A handle that is not gone keeps its pool. -/
theorem abandoned_of_handle (lent : h < (c.level k).handles.length)
    (alive : (c.handle k h).gone = false) : (c.level k).abandoned = false := by
  have here : ((c.level k).handles[h]).gone = false := by simpa [handle, lent] using alive
  have all : (c.level k).handles.all (·.gone) = false :=
    List.all_eq_false.mpr ⟨_, List.getElem_mem lent, by simp [here]⟩
  simp [Level.abandoned, all]

/-- **While a handle is not gone, its pool is alive.** -/
theorem pool_of_handle (hk : k < limits.length)
    (hw : program.Kept Diary.pledged D₀ (World.init (.ofLimits limits shared)) D w)
    (lent : h < (w.shared.level k).handles.length)
    (alive : (w.shared.handle k h).gone = false) : (w.shared.level k).poolAlive = true := by
  induction hw with
  | refl =>
    show ((ofLimits limits shared).level k).poolAlive = true
    rw [level_ofLimits hk shared]
  | @move D D' w w' m notices hw ha hn ih =>
    have depth := depth_of_reach hw.reach
    rw [(life_of_apply (depth ▸ hk) ha).2 (abandoned_of_handle lent alive)]
    by_cases old : h < (w.shared.level k).handles.length
    · refine ih old ?_
      have aged := (aged_of_apply (depth ▸ hk) ha).ages h old
      by_contra gone
      have := aged.gone (by simpa using gone)
      rw [alive] at this
      cases this
    · -- what is new has been lent
      rcases lentBy_of_apply (k := k) (by omega) ha with ⟨-, same⟩ | ⟨s, e, -, hm, -⟩
      · omega
      · obtain ⟨i, below, hf⟩ := exists_suffix_of_heard hm
        exact pool_of_keepers hw.reach (keepers_of_borrowing hw hf) hk

/-- **Who has a handle given back finds its pool alive.** -/
theorem pool_of_calls (hk : k < limits.length)
    (hw : program.Kept Diary.pledged D₀ (World.init (.ofLimits limits shared)) D w)
    (hg : g :: below <:+ w.stack i) (hc : g.calls k h ≠ 0) :
    (w.shared.level k).poolAlive = true := by
  have claimed := World.le_weigh (Frame.claims k h) hg
  rw [Frame.claims_of_calls hc] at claimed
  have lent := (claims_le_one hk hw.reach h).2 (by omega)
  refine pool_of_handle hk hw lent ?_
  by_contra gone
  have none := calls_of_gone hk (kept_of_pledged hw) ⟨lent, by simpa using gone⟩
  have one := World.le_total (Frame.calls k h)
    (World.mem_frames.mpr ⟨i, hg.subset List.mem_cons_self⟩)
  omega

/-- **Where a handle of the next level is torn down, its factory is alive.** -/
theorem factory_of_evict (hi : k + 1 < limits.length)
    (hw : program.Kept Diary.pledged D₀ (World.init (.ofLimits limits shared)) D w)
    {x : Pool.Call Nat} (hf : .pool k x :: below <:+ w.stack i) (hx : x.asks = some (.evict h)) :
    (w.shared.level (k + 1)).factoryAlive = true := by
  have below_mem : ∀ g rest, below = g :: rest → g ∈ w.frames := fun g rest hb =>
    World.mem_frames.mpr ⟨i, hf.subset (by rw [hb]; simp)⟩
  have begun : ∀ r, x ≠ .over r := by
    rintro r rfl
    cases hx
  have users : 0 < w.shared.keepers → (w.shared.level (k + 1)).factoryAlive = true :=
    fun keepers => factory_of_above hi hw.reach (pool_of_keepers hw.reach keepers (by omega))
  obtain ⟨t, ht, hon⟩ := stacked_iff.mp ((stands_of_reach hw.reach).2 i) _ _ hf
  cases t with
  | user op => exact users (keepers_of_user hw hf begun hon)
  | acquire j =>
    cases below with
    | nil => exact hon.elim
    | cons g rest =>
      cases g with
      | borrowing j' epoch =>
        exact users (keepers_of_borrowing hw ((List.suffix_cons _ _).trans hf))
      | _ => exact hon.elim
  | sweep j =>
    obtain ⟨rfl, -⟩ := ht
    cases below with
    | nil => exact hon.elim
    | cons g rest =>
      cases g with
      | sweeping j' epoch =>
        refine users (keepers_of_employs hw ((List.suffix_cons _ _).trans hf) ?_)
        exact Nat.one_ne_zero
      | dropFactory j' =>
        obtain rfl := hon
        refine factory_of_above hi hw.reach (pool_of_factory (by omega) hw.reach ?_)
        exact factory_of_keeps (by omega) hw.reach (below_mem _ _ rfl) (by simp [Frame.keeps])
      | _ => exact hon.elim
  | teardown j =>
    obtain ⟨rfl, -⟩ := ht
    cases below with
    | nil => exact hon.elim
    | cons g rest =>
      cases g with
      | dropPool j' =>
        obtain rfl := hon
        exact factory_of_keeps hi hw.reach (below_mem _ _ rfl) (by simp [Frame.keeps])
      | _ => exact hon.elim
  | giveBack j n =>
    obtain ⟨rfl, -⟩ := ht
    obtain ⟨g, rest, rfl, calls⟩ := exists_calls_of_caller hon.caller
    exact factory_of_above hi hw.reach
      (pool_of_calls (by omega) hw ((List.suffix_cons _ _).trans hf) calls)
  | _ => exact ht.elim

/-! ## How a pool goes -/

theorem all_gone_modify {β : Handle → Handle} (hβ : ∀ x, (β x).gone = x.gone) :
    ∀ (hs : List Handle) (h : Nat), (hs.modify h β).all (·.gone) = hs.all (·.gone)
  | [], _ => by simp
  | x :: hs, 0 => by simp [hβ]
  | x :: hs, h + 1 => by simp [all_gone_modify hβ hs h]

/-- As long as no handle is let go, as many are not gone. -/
theorem Frame.HandleStep.all_gone (hs : Frame.HandleStep k c c' f f')
    (stays : ∀ h fault, f ≠ .letGo k h fault) :
    (c'.level k).handles.all (·.gone) = (c.level k).handles.all (·.gone) := by
  cases hs with
  | same hh => rw [hh]
  | entered _ _ _ _ hh | marked _ hh | released _ _ hh =>
    rw [hh]
    refine all_gone_modify ?_ _ _
    exact fun _ => rfl
  | forgotten hf => exact absurd hf (stays _ _)

/-- **A pool that nobody refers to is not alive.** -/
theorem not_abandoned (hk : k < limits.length)
    (hw : program.Kept Diary.pledged D₀ (World.init (.ofLimits limits shared)) D w)
    (alive : (w.shared.level k).poolAlive = true) : (w.shared.level k).abandoned = false := by
  induction hw with
  | refl =>
    show ((ofLimits limits shared).level k).abandoned = false
    rw [level_ofLimits hk shared]
    rfl
  | @move D D' w w' m notices hw ha hn ih =>
    have start : (ofLimits limits shared).depth = limits.length := depth_ofLimits limits shared
    have depth : w.shared.depth = limits.length := (stands_of_reach hw.reach).1.trans start
    have kept := ih (alive_of_apply (depth ▸ hk) ha alive)
    have same : (w'.shared.level k).factoryAlive = (w.shared.level k).factoryAlive →
        (w'.shared.level k).handles.all (·.gone) = (w.shared.level k).handles.all (·.gone) →
        (w'.shared.level k).abandoned = false := by
      intro factory handles
      unfold Level.abandoned at kept ⊢
      rw [factory, handles]
      exact kept
    have resumed : ∀ {f f' : Frame} {r : Reply}, program.heard w m = some (f, r) →
        Frame.Resumed w.shared f r w'.shared f' → (w'.shared.level k).abandoned = false := by
      intro f f' r hm hr
      have factory := hr.owners.factory k
      cases hr.handles (depth ▸ hk) with
      | same hh => exact same factory (by rw [hh])
      | left _ _ hh =>
        rw [hh] at same
        refine same factory (all_gone_modify ?_ _ _)
        exact fun _ => rfl
      | lent _ _ _ hh => simp [Level.abandoned, hh]
      | @forgotten h hf hh =>
        rcases hf with rfl | ⟨j, message, rfl, rfl, rfl⟩
        · obtain ⟨i, below, hf⟩ := exists_suffix_of_heard hm
          obtain ⟨t, ht, hon⟩ := stacked_iff.mp ((stands_of_reach hw.reach).2 i) _ _ hf
          cases t with
          | retire j n =>
            obtain ⟨rfl, rfl⟩ := ht
            cases below with
            | nil => exact hon.elim
            | cons g rest =>
              cases g with
              | pool j x =>
                obtain ⟨rfl, hx⟩ := hon
                have here := factory_of_evict hk hw ((List.suffix_cons _ _).trans hf) hx
                simp [Level.abandoned, factory, here]
              | _ => exact hon.elim
          | user op => cases op <;> exact ht.elim
          | _ => exact ht.elim
        · have := settles_of_heard (kept_of_pledged hw) ha (Diary.of_pledged hn).2.2.2 hm
            (Or.inl (decide_eq_true (start.symm ▸ hk)))
          cases this
    cases Program.effect_of_apply ha with
    | spawn | enter | descend | collect => exact kept
    | step hst hne he =>
      cases (Frame.steps hne he).life (depth ▸ hk) with
      | same pool factory stays =>
        exact same factory (((Frame.steps hne he).handles (depth ▸ hk)).all_gone stays)
      | released how pool =>
        rw [World.shared_update] at alive ⊢
        rw [alive] at pool
        exact (Bool.not_eq_true' _).mp (Bool.and_eq_true_iff.mp pool.symm).2
    | ascend hst hne hg he =>
      exact resumed (Program.heard_ascend hst hne) (Frame.resumed (Or.inr ⟨_, hg⟩) he)
    | answer hst hne he =>
      exact resumed (Program.heard_answer hst) (Frame.resumed (Or.inl ⟨_, hne⟩) he)
    | @expire i f below t hst ht =>
      obtain ⟨parked, level⟩ := Frame.exists_level_expire ht k
      exact same (by rw [level]) (by rw [level])

/-- The end of a pool goes on until the pool is emptied. -/
theorem Frame.Ends.need (hf : f.Ends k) (c : Cache) :
    (f = .pool k .teardown ∧ f.need c = .step) ∨ ∃ g, f.need c = .sub g ∧ g.Ends k := by
  cases f with
  | pool j x =>
    cases x with
    | teardown =>
      obtain rfl := hf
      exact Or.inl ⟨rfl, rfl⟩
    | _ => exact hf.elim
  | dropPool j | thenPool j fault =>
    obtain rfl := hf
    exact Or.inr ⟨_, rfl, rfl⟩
  | _ => exact hf.elim

/-- A pool that a session is released to is alive. -/
theorem pool_of_release (hk : k < limits.length)
    (hw : program.Kept Diary.pledged D₀ (World.init (.ofLimits limits shared)) D w) {s : Nat}
    (hf : .pool k (.start (.release s)) :: below <:+ w.stack i) :
    (w.shared.level k).poolAlive = true := by
  obtain ⟨t, ht, hon⟩ := stacked_iff.mp ((stands_of_reach hw.reach).2 i) _ _ hf
  have serves : ∀ {t : Pool.Service}, (Pool.Call.start (.release s)).Serves t → t = .giveBack := by
    rintro t (none | some)
    · cases none
    · cases some
      rfl
  cases t with
  | user op =>
    cases op with
    | destroy | setSize | setWaitLimit => cases serves ht.2
    | _ => exact ht.elim
  | acquire | sweep | teardown => cases serves ht.2
  | giveBack j n =>
    obtain ⟨rfl, -⟩ := ht
    obtain ⟨g, rest, rfl, calls⟩ := exists_calls_of_caller hon.caller
    exact pool_of_calls hk hw ((List.suffix_cons _ _).trans hf) calls
  | _ => exact ht.elim

/-- A thread is about to end level `k`'s pool. -/
def Ending (k : Nat) (w : World Cache Frame) : Prop :=
  ∃ i f below, w.stack i = f :: below ∧ f.Ends k

/-- A pool goes by a move whose frame is there to end it. -/
theorem ending_of_died (hk : k < w.shared.depth) (ha : program.apply w m = some (w', notices))
    (alive : (w.shared.level k).poolAlive = true) (dead : (w'.shared.level k).poolAlive = false) :
    Ending k w' := by
  have still : (w'.shared.level k).poolAlive ≠ (w.shared.level k).poolAlive := by
    rw [alive, dead]
    exact nofun
  cases Program.effect_of_apply ha with
  | spawn | enter | descend | collect => exact absurd rfl still
  | @step i moment f f' below c' _ hst hne he =>
    cases (Frame.steps hne he).life hk with
    | same pool => exact absurd pool still
    | released how pool ends =>
      obtain ⟨fault, rfl⟩ := ends alive dead
      exact ⟨i, _, below, World.stack_update_self (World.lt_length_of_stack hst) .., rfl⟩
  | ascend hst hne hg he =>
    exact absurd ((Frame.resumed (Or.inr ⟨_, hg⟩) he).owners.pool k) still
  | answer hst hne he =>
    exact absurd ((Frame.resumed (Or.inl ⟨_, hne⟩) he).owners.pool k) still
  | @expire i f below t hst ht =>
    obtain ⟨parked, level⟩ := Frame.exists_level_expire ht k
    exact absurd (by rw [level]) still

/-- Who is about to end a pool goes on with it, or empties the pool. -/
theorem ending_of_apply_ending (hk : k < w.shared.depth)
    (ha : program.apply w m = some (w', notices)) (he : Ending k w) :
    (w'.shared.level k).pool.idle = [] ∨ Ending k w' := by
  obtain ⟨i, f, below, hst, ends⟩ := he
  have need := ends.need w.shared
  have other : ∀ {j : Nat} {c' : Cache} {fs : List Frame}, i ≠ j → Ending k (w.update j c' fs) :=
    fun hij => ⟨i, f, below, (World.stack_update_ne hij ..).trans hst, ends⟩
  have top : ∀ {j : Nat} {f₁ : Frame} {below₁ : List Frame}, i = j →
      w.stack j = f₁ :: below₁ → f₁ = f ∧ below₁ = below := by
    rintro j f₁ below₁ rfl hst'
    exact List.cons.inj (hst'.symm.trans hst)
  have busy : ∀ {j : Nat} {c' : Cache} {f₁ : Frame} {fs below₁ : List Frame},
      w.stack j = f₁ :: below₁ → (f₁.need w.shared ≠ .step ∧ ∀ g, f₁.need w.shared ≠ .sub g) →
      Ending k (w.update j c' fs) := by
    intro j c' f₁ fs below₁ hst' hn
    refine other fun hij => ?_
    obtain ⟨rfl, -⟩ := top hij hst'
    rcases need with ⟨-, step⟩ | ⟨g, sub, -⟩
    · exact hn.1 step
    · exact hn.2 g sub
  cases Program.effect_of_apply ha with
  | spawn => exact Or.inr ⟨i, f, below, (World.stack_spawn ..).trans hst, ends⟩
  | @enter j op hj hs =>
    rcases hs with hs | ⟨f₁, below₁, q, hs, hq⟩
    · refine Or.inr (other fun hij => ?_)
      cases (hij ▸ hst).symm.trans hs
    · have asks : f₁.need w.shared = .ask q := hq
      exact Or.inr (busy hs ⟨by rw [asks]; exact nofun, by rw [asks]; exact nofun⟩)
  | @step j moment f₁ f' below₁ c' _ hst' hne he =>
    have steps := Frame.steps hne he
    by_cases hij : i = j
    · obtain ⟨rfl, -⟩ := top hij hst'
      rcases need with ⟨rfl, -⟩ | ⟨g, hn, -⟩
      · left
        cases steps with
        | pool hs =>
          rw [World.shared_update, pool_setPool, if_pos ⟨rfl, hk⟩]
          cases hs with
          | nothingLeft hi => exact hi
          | closeDown hi => rfl
        | letGoRemote count hi hx => cases hx
      · cases hne.symm.trans hn
    · exact Or.inr (other hij)
  | @descend j moment f₁ g below₁ hst' hne =>
    by_cases hij : i = j
    · obtain ⟨rfl, rfl⟩ := top hij hst'
      rcases need with ⟨-, hn⟩ | ⟨g', hn, ends'⟩
      · cases hne.symm.trans hn
      · cases hne.symm.trans hn
        exact Or.inr ⟨j, g, _, World.stack_update_self (World.lt_length_of_stack hst') .., ends'⟩
    · exact Or.inr (other hij)
  | @ascend j moment f₁ g g' x rest r c' _ hst' hne =>
    have ended : f₁.need w.shared = .over r := hne
    exact Or.inr (busy hst' ⟨by rw [ended]; exact nofun, by rw [ended]; exact nofun⟩)
  | @answer j r f₁ f' below₁ q c' _ hst' hne =>
    have asks : f₁.need w.shared = .ask q := hne
    exact Or.inr (busy hst' ⟨by rw [asks]; exact nofun, by rw [asks]; exact nofun⟩)
  | expire => exact Or.inr ⟨i, f, below, hst, ends⟩
  | @collect j f₁ below₁ r hst' hne =>
    have ended : f₁.need w.shared = .over r := hne
    exact Or.inr (busy hst' ⟨by rw [ended]; exact nofun, by rw [ended]; exact nofun⟩)

/-- What becomes idle comes from a release. -/
theorem idle_of_apply (hk : k < w.shared.depth) (ha : program.apply w m = some (w', notices))
    (empty : (w.shared.level k).pool.idle = []) :
    (w'.shared.level k).pool.idle = [] ∨
      ∃ i below s, w.stack i = .pool k (.start (.release s)) :: below := by
  cases Program.effect_of_apply ha with
  | spawn | enter | descend | collect => exact Or.inl empty
  | @step i moment f f' below c' _ hst hne he =>
    cases hi : (c'.level k).pool.idle with
    | nil => exact Or.inl hi
    | cons s rest =>
      rcases (Frame.steps hne he).idle hk (hi ▸ List.mem_cons_self : s ∈ _) with old | ⟨rfl, -⟩
      · rw [empty] at old
        exact absurd old List.not_mem_nil
      · exact Or.inr ⟨i, below, s, hst⟩
  | ascend hst hne hg he =>
    exact Or.inl (((Frame.resumed (Or.inr ⟨_, hg⟩) he).idle hk).trans empty)
  | answer hst hne he =>
    exact Or.inl (((Frame.resumed (Or.inl ⟨_, hne⟩) he).idle hk).trans empty)
  | @expire i f below t hst ht =>
    obtain ⟨parked, level⟩ := Frame.exists_level_expire ht k
    left
    rw [level]
    exact empty

/-- **A pool that is not alive is empty, or about to be.** -/
theorem idle_of_dead (hk : k < limits.length)
    (hw : program.Kept Diary.pledged D₀ (World.init (.ofLimits limits shared)) D w)
    (dead : (w.shared.level k).poolAlive = false) :
    (w.shared.level k).pool.idle = [] ∨ Ending k w := by
  induction hw with
  | refl =>
    have alive : ((ofLimits limits shared).level k).poolAlive = true := by
      rw [level_ofLimits hk shared]
    cases alive.symm.trans dead
  | @move D D' w w' m notices hw ha hn ih =>
    have depth := depth_of_reach hw.reach
    cases before : (w.shared.level k).poolAlive with
    | true => exact Or.inr (ending_of_died (depth ▸ hk) ha before dead)
    | false =>
      rcases ih before with empty | ends
      · rcases idle_of_apply (depth ▸ hk) ha empty with empty | ⟨i, below, s, hst⟩
        · exact Or.inl empty
        · -- nobody releases to a pool that is gone
          have top : .pool k (.start (.release s)) :: below <:+ w.stack i := by rw [hst]
          have alive := pool_of_release hk hw top
          cases before.symm.trans alive
      · exact ending_of_apply_ending (depth ▸ hk) ha ends

end Lending.Cache
