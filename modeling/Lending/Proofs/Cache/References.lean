import Lending.Proofs.Cache.Lifetime

/-!
# Who keeps a factory

A factory goes with the last reference to it: that of the users, for the outermost one, else that of
the pool above it. Between the moment the reference is given up and the moment the factory is gone,
an operation has it: the end of the pool, then that of the factory.

* `Frame.keeps`: the operation that has a reference to level `j`'s factory, whatever it waits for;
  `Frame.offers`: one that has it as long as nothing stands above it.
* `factory_kept`: the reference is with one of them exactly as long as the factory is alive.
* `pool_of_factory`, `pool_of_above`: so a factory has its pool, and a pool that is alive has those
  below it.

The outermost factory is shared by its users (`Op.hold`, `Op.leave`), and each operation that a user
starts on a factory has one more reference as long as it runs. An inner factory is kept by the pool
above it, which connects its sessions with it; whoever uses it besides comes to it by way of the
outermost one.
-/

namespace Lending.Cache

/-- Whether the users, or the pool above, refer to level `j`'s factory. -/
def referred (c : Cache) : Nat → Nat
  | 0 => if 0 < c.keepers then 1 else 0
  | k + 1 => if (c.level k).poolAlive then 1 else 0

/-- Whether level `j`'s factory is alive, as a number. -/
def present (c : Cache) (j : Nat) : Nat := if (c.level j).factoryAlive then 1 else 0

theorem present_le_one (c : Cache) (j : Nat) : c.present j ≤ 1 := by
  unfold present
  split <;> decide

/-- The same users, pools and factories are alive. -/
structure SameOwners (c c' : Cache) : Prop where
  keepers : c'.keepers = c.keepers
  pool    : ∀ k, (c'.level k).poolAlive = (c.level k).poolAlive
  factory : ∀ k, (c'.level k).factoryAlive = (c.level k).factoryAlive

namespace SameOwners

variable {c c' : Cache}

theorem refl (c : Cache) : SameOwners c c := ⟨rfl, fun _ => rfl, fun _ => rfl⟩

theorem modify {β : Level → Level} (hp : ∀ l, (β l).poolAlive = l.poolAlive)
    (hf : ∀ l, (β l).factoryAlive = l.factoryAlive) (c : Cache) (k : Nat) :
    SameOwners c (c.modify k β) where
  keepers := rfl
  pool := level_modify_of (g := Level.poolAlive) c hp k
  factory := level_modify_of (g := Level.factoryAlive) c hf k

theorem modifyHandle (c : Cache) (k h : Nat) (β : Handle → Handle) :
    SameOwners c (c.modifyHandle k h β) := by
  refine modify ?_ ?_ c k
  · exact fun _ => rfl
  · exact fun _ => rfl

theorem setPool (c : Cache) (k : Nat) (p : Pool Nat) : SameOwners c (c.setPool k p) := by
  refine modify ?_ ?_ c k
  · exact fun _ => rfl
  · exact fun _ => rfl

/-- Who stops waiting for a pool leaves every reference where it is. -/
theorem expire {f : Frame} {t : Instant} (ht : f.timer? c = some t) :
    SameOwners c (f.expire c) := by
  cases f with
  | pool k x => exact .setPool ..
  | _ => cases ht

theorem referred (h : SameOwners c c') (j : Nat) : c'.referred j = c.referred j := by
  cases j with
  | zero => simp only [Cache.referred, h.keepers]
  | succ j => simp only [Cache.referred, h.pool]

theorem present (h : SameOwners c c') (j : Nat) : c'.present j = c.present j := by
  simp only [Cache.present, h.factory]

end SameOwners

namespace Frame

/-- Whether an operation has the reference to level `j`'s factory. -/
def keeps (j : Nat) : Frame → Nat
  | .dropPool k | .poolGone k _ => if j = k + 1 then 1 else 0
  | .dropFactory k | .factoryGone k _ => if j = k then 1 else 0
  | _ => 0

/-- Whether an operation has the reference to level `j`'s factory, or is about to hand it on. -/
def offers (j : Nat) : Frame → Nat
  | .thenPool k _ => if j = k + 1 then 1 else 0
  | .thenFactory k _ => if j = k then 1 else 0
  | f => f.keeps j

/-- How many frames of a stack have the reference to level `j`'s factory. -/
def keeping (j : Nat) : List Frame → Nat
  | [] => 0
  | f :: below => f.offers j + (below.map (keeps j)).sum

variable {j : Nat} {m : Moment} {c c' : Cache} {f f' g : Frame} {r : Reply}

theorem keeps_le_offers (j : Nat) (f : Frame) : f.keeps j ≤ f.offers j := by
  cases f <;> first | exact Nat.le_refl _ | exact Nat.zero_le _

theorem offers_of_over (hn : f.need c = .over r) : f.offers j = 0 := by
  cases f with
  | thenPool | thenFactory | dropPool | dropFactory | poolGone | factoryGone => cases hn
  | _ => rfl

/-- Only an operation that goes on by itself hands the reference on. -/
theorem offers_of_ne_sub (hn : ∀ g, f.need c ≠ .sub g) : f.offers j = f.keeps j := by
  cases f with
  | thenPool | thenFactory => exact absurd rfl (hn _)
  | _ => rfl

theorem Needs.offers (h : Needs c f g) : g.offers j + f.keeps j = f.offers j := by
  cases h with
  | thenPool k fault | thenFactory k fault => exact Nat.add_zero _
  | within ho => cases ho <;> rfl
  | dropPool k | dropFactory k => exact Nat.zero_add _
  | make | judge | evict | letGo | borrowing | closing | retire | releasing | sweeping => rfl

/-- A pool that goes hands its reference on to the operation that ends it. -/
theorem offers_releaseLevel (hj : j < c.depth) (k : Nat) (fault : Option String) :
    (releaseLevel c k fault).1.referred j + (releaseLevel c k fault).2.offers j = c.referred j ∧
      (releaseLevel c k fault).1.present j = c.present j := by
  constructor
  · cases j with
    | zero =>
      unfold releaseLevel
      dsimp only
      split <;> rfl
    | succ j =>
      have hj : j < c.depth := by omega
      have level := level_modify c k j Level.release
      unfold releaseLevel
      dsimp only
      by_cases hkj : k = j
      · subst hkj
        rw [if_pos ⟨rfl, hj⟩] at level
        cases ha : (c.level k).poolAlive <;> cases hb : (c.level k).abandoned <;>
          simp [referred, level, Level.release, ha, hb, offers, keeps]
      · rw [if_neg fun h => hkj h.1] at level
        have other : ¬ j = k := fun h => hkj h.symm
        split <;> simp [referred, level, offers, keeps, other]
  · have kept : ((c.modify k Level.release).level j).factoryAlive = (c.level j).factoryAlive := by
      refine level_modify_of (g := Level.factoryAlive) c ?_ k j
      exact fun _ => rfl
    unfold releaseLevel present
    rw [kept]

theorem Steps.offers (h : Steps m c f c' f') (hj : j < c.depth)
    (alive : f.offers j ≠ 0 → c.present j = 1) :
    c'.referred j + f'.offers j + c.present j = c.referred j + f.offers j + c'.present j := by
  have same : f'.offers j = f.offers j → SameOwners c c' →
      c'.referred j + f'.offers j + c.present j = c.referred j + f.offers j + c'.present j := by
    intro hf owners
    rw [hf, owners.referred, owners.present]
  cases h with
  | letGo k h fault =>
    obtain ⟨given, kept⟩ := offers_releaseLevel (c := c.forget k h) (j := j)
      ((depth_modify ..).symm ▸ hj) k fault
    have before : SameOwners c (c.forget k h) := .modifyHandle ..
    have none : (Frame.letGo k h fault).offers j = 0 := rfl
    rw [given, kept, none, before.referred, before.present]
    rfl
  | factoryGone k fault =>
    obtain ⟨given, kept⟩ := offers_releaseLevel
      (c := c.modify k fun l => { l with factoryAlive := false }) (j := j)
      ((depth_modify ..).symm ▸ hj) k fault
    have level := level_modify c k j fun l => { l with factoryAlive := false }
    have pool : (c.modify k fun l => { l with factoryAlive := false }).referred j =
        c.referred j := by
      cases j with
      | zero => rfl
      | succ j =>
        have : ((c.modify k fun l => { l with factoryAlive := false }).level j).poolAlive =
            (c.level j).poolAlive := by
          refine level_modify_of (g := Level.poolAlive) c ?_ k j
          exact fun _ => rfl
        simp only [referred, this]
    have gone : (c.modify k fun l => { l with factoryAlive := false }).present j +
        (Frame.factoryGone k fault).offers j = c.present j := by
      by_cases hk : j = k
      · subst hk
        have one : (Frame.factoryGone j fault).offers j = 1 := if_pos rfl
        rw [one, alive (by rw [one]; exact Nat.one_ne_zero)]
        rw [if_pos ⟨rfl, hj⟩] at level
        simp [present, level]
      · have none : (Frame.factoryGone k fault).offers j = 0 := if_neg hk
        rw [if_neg fun h => hk h.1.symm] at level
        simp only [none, present, level, Nat.add_zero]
    omega
  | onFactory ho hk =>
    have none : f'.offers j = 0 := by cases ho <;> rfl
    have kept : ({ c with keepers := c.keepers + 1 } : Cache).referred j = c.referred j := by
      cases j with
      | zero => simp [referred, hk]
      | succ j => rfl
    rw [none, kept]
    rfl
  | leave hk =>
    have kept : ({ c with keepers := c.keepers - 1 } : Cache).referred j = c.referred j := by
      cases j with
      | zero =>
        simp only [referred]
        rw [if_pos (by omega), if_pos (by omega)]
      | succ j => rfl
    rw [kept]
    rfl
  | last hk =>
    have given : ({ c with keepers := c.keepers - 1 } : Cache).referred j +
        (Frame.dropFactory 0).offers j = c.referred j := by
      cases j with
      | zero => simp [referred, hk, Frame.offers, Frame.keeps]
      | succ j => rfl
    rw [given]
    rfl
  | poolGone k fault =>
    refine same ?_ (.refl c)
    split
    · rename_i hi
      refine (if_neg fun h => ?_ : (Frame.poolGone k fault).offers j = 0).symm
      have := innermost_iff.mp hi
      omega
    · rfl
  | onHandle | markDirty | close | putBack => exact same rfl (.modifyHandle ..)
  | pool | letGoRemote => exact same rfl (.setPool ..)
  | reset =>
    refine same (by split <;> rfl) (.modify ?_ ?_ c _)
    · exact fun _ => rfl
    · exact fun _ => rfl
  | probe | forward | dropHandle => exact same (by split <;> rfl) (.refl c)
  | unavailable | borrow | probeReleased | forwardReleased | alreadyReleased =>
    exact same rfl (.refl c)

/-- What a step does to the life of level `j`. -/
inductive LifeStep (j : Nat) (c c' : Cache) (f f' : Frame) : Prop
  | same (pool : (c'.level j).poolAlive = (c.level j).poolAlive)
      (factory : (c'.level j).factoryAlive = (c.level j).factoryAlive)
      (stays : ∀ h fault, f ≠ .letGo j h fault)
  /-- The pool loses its factory, or a handle, and goes if that was the last. -/
  | released (how : (∃ fault, f = .factoryGone j fault) ∧ (c'.level j).factoryAlive = false ∨
        (∃ h fault, f = .letGo j h fault) ∧
          (c'.level j).factoryAlive = (c.level j).factoryAlive)
      (pool : (c'.level j).poolAlive = ((c.level j).poolAlive && !(c'.level j).abandoned))
      (ends : (c.level j).poolAlive = true → (c'.level j).poolAlive = false →
        ∃ fault, f' = .thenPool j fault)

theorem LifeStep.of_owners (h : SameOwners c c') (stays : ∀ h fault, f ≠ .letGo j h fault) :
    LifeStep j c c' f f' :=
  .same (h.pool j) (h.factory j) stays

/-- A level is told of what it has lost. -/
theorem level_releaseLevel (hj : j < c.depth) (k : Nat) (fault : Option String) :
    (releaseLevel c k fault).1.level j = if k = j then (c.level j).release else c.level j := by
  unfold releaseLevel
  rw [level_modify]
  by_cases hk : k = j
  · rw [if_pos ⟨hk, hj⟩, if_pos hk]
  · rw [if_neg fun h => hk h.1, if_neg hk]

/-- A pool that goes is ended next. -/
theorem ends_releaseLevel {fault : Option String} (alive : (c.level j).poolAlive = true)
    (dead : (c.level j).release.poolAlive = false) :
    (releaseLevel c j fault).2 = .thenPool j fault := by
  simp only [Level.release, alive, Bool.true_and, Bool.not_eq_false'] at dead
  unfold releaseLevel
  simp [alive, dead]

theorem Steps.life (h : Steps m c f c' f') (hj : j < c.depth) : LifeStep j c c' f f' := by
  cases h with
  | letGo k h fault =>
    have level := level_releaseLevel (c := c.forget k h) (j := j) ((depth_modify ..).symm ▸ hj) k
      fault
    have before : SameOwners c (c.forget k h) := .modifyHandle ..
    by_cases hk : k = j
    · subst hk
      rw [if_pos rfl] at level
      refine .released (Or.inr ⟨⟨h, fault, rfl⟩, ?_⟩) ?_ fun alive dead => ⟨fault, ?_⟩
      · rw [level]
        exact before.factory k
      · rw [level, ← before.pool k]
        rfl
      · rw [level] at dead
        exact ends_releaseLevel (before.pool k ▸ alive) dead
    · rw [if_neg hk] at level
      refine .same (by rw [level, before.pool]) (by rw [level, before.factory]) ?_
      rintro h' fault' hf
      cases hf
      exact hk rfl
  | factoryGone k fault =>
    have inner := level_modify c k j fun l => { l with factoryAlive := false }
    have level := level_releaseLevel (c := c.modify k fun l => { l with factoryAlive := false })
      (j := j) ((depth_modify ..).symm ▸ hj) k fault
    by_cases hk : k = j
    · subst hk
      rw [if_pos ⟨rfl, hj⟩] at inner
      rw [if_pos rfl] at level
      refine .released (Or.inl ⟨⟨fault, rfl⟩, ?_⟩) ?_ fun alive dead => ⟨fault, ?_⟩
      · rw [level, inner]
        rfl
      · rw [level, inner]
        rfl
      · rw [level] at dead
        exact ends_releaseLevel (by rw [inner]; exact alive) dead
    · rw [if_neg fun h => hk h.1] at inner
      rw [if_neg hk, inner] at level
      exact .same (congrArg _ level) (congrArg _ level) nofun
  | onHandle | markDirty | close | putBack =>
    exact .of_owners (.modifyHandle ..) nofun
  | pool | letGoRemote => exact .of_owners (.setPool ..) nofun
  | reset =>
    refine .of_owners (.modify ?_ ?_ c _) nofun
    · exact fun _ => rfl
    · exact fun _ => rfl
  | unavailable | onFactory | leave | last | borrow | probeReleased | probe | forwardReleased
  | forward | alreadyReleased | dropHandle | poolGone => exact .same rfl rfl nofun

theorem Resumed.owners (h : Resumed c f r c' f') : SameOwners c c' := by
  cases h with
  | within | retired => exact .modifyHandle ..
  | pool => exact .setPool ..
  | closeRaised k s message =>
    split
    · exact .refl c
    · exact .modifyHandle ..
  | poolWent | factoryWent =>
    rw [afterLast_fst]
    exact .refl c
  | lent | advanced | swept | resetRaised =>
    refine .modify ?_ ?_ c _
    · exact fun _ => rfl
    · exact fun _ => rfl
  | notLent | remote | closed | released | poolEmptied | factoryEmptied | foundShared | notShared
  | sharedReset | readAgain => exact .refl c

theorem Resumed.offers (h : Resumed c f r c' f') (j : Nat) : f'.offers j = f.keeps j := by
  cases h with
  | resetRaised hf => cases hf <;> rfl
  | poolWent | factoryWent =>
    unfold afterLast
    split
    · dsimp only
      split <;> rfl
    · rfl
  | within | pool | lent | notLent | remote | closeRaised | closed | retired | released
  | poolEmptied | factoryEmptied | foundShared | notShared | sharedReset | advanced | readAgain
  | swept => rfl

end Frame

variable {j : Nat} {limits : List Limits} {shared : Bool} {w w' : World Cache Frame}

/-- A move passes the reference to a factory on, or gives it up with the factory. -/
theorem kept_of_apply {m : Move Op Reply} {notices : List Notice} {c : Cache}
    (hj : j < w.shared.depth) (hw : program.Reach (World.init c) w)
    (ha : program.apply w m = some (w', notices))
    (kept : w.shared.referred j + w.tally (Frame.keeping j) = w.shared.present j) :
    w'.shared.referred j + w'.tally (Frame.keeping j) = w'.shared.present j := by
  have started := Frame.started_of_reach hw
  cases Program.effect_of_apply ha with
  | spawn =>
    have same : (⟨w.shared, w.threads ++ [[]]⟩ : World Cache Frame).tally (Frame.keeping j) =
        w.tally (Frame.keeping j) := by simp [World.tally, Frame.keeping]
    rw [same]
    exact kept
  | @enter i op hi hs =>
    have pushed := World.tally_update (Frame.keeping j) hi w.shared
      (program.start op :: w.stack i)
    have same : Frame.keeping j (program.start op :: w.stack i) =
        Frame.keeping j (w.stack i) := by
      rcases hs with hs | ⟨f, below, q, hs, hq⟩
      · rw [hs]
        rfl
      · have asks : f.offers j = f.keeps j :=
          Frame.offers_of_ne_sub fun g hg => by cases hq.symm.trans hg
        rw [hs]
        simp only [Frame.keeping, List.map_cons, List.sum_cons, asks]
        exact Nat.zero_add _
    rw [World.shared_update]
    omega
  | @step i moment f f' below c' _ hst hne he =>
    have replaced := World.tally_update (Frame.keeping j) (World.lt_length_of_stack hst) c'
      (f' :: below)
    have others := World.tally_update (Frame.keeping j) (World.lt_length_of_stack hst) c' []
    rw [hst] at replaced others
    simp only [Frame.keeping] at replaced others
    have given := (Frame.steps hne he).offers (j := j) hj fun offers => by
      have := present_le_one w.shared j
      omega
    rw [World.shared_update]
    omega
  | @descend i moment f g below hst hne =>
    have pushed := World.tally_update (Frame.keeping j) (World.lt_length_of_stack hst) w.shared
      (g :: f :: below)
    rw [hst] at pushed
    simp only [Frame.keeping, List.map_cons, List.sum_cons] at pushed
    have given := (Frame.needs (started f (World.mem_frames_of_stack hst)) hne).offers (j := j)
    rw [World.shared_update]
    omega
  | @ascend i moment f g g' h rest r c' _ hst hne hg he =>
    have replaced := World.tally_update (Frame.keeping j) (World.lt_length_of_stack hst) c'
      (g' :: rest)
    rw [hst] at replaced
    simp only [Frame.keeping, List.map_cons, List.sum_cons] at replaced
    have resumed := Frame.resumed (Or.inr ⟨h, hg⟩) he
    have none := Frame.offers_of_over (j := j) hne
    have given := resumed.offers j
    rw [World.shared_update, resumed.owners.referred, resumed.owners.present]
    omega
  | @answer i r f f' below q c' _ hst hne he =>
    have replaced := World.tally_update (Frame.keeping j) (World.lt_length_of_stack hst) c'
      (f' :: below)
    rw [hst] at replaced
    simp only [Frame.keeping] at replaced
    have resumed := Frame.resumed (Or.inl ⟨q, hne⟩) he
    have given := resumed.offers j
    have asks : f.offers j = f.keeps j :=
      Frame.offers_of_ne_sub fun g hg => by cases hne.symm.trans hg
    rw [World.shared_update, resumed.owners.referred, resumed.owners.present]
    omega
  | @expire i f below t hst ht =>
    have owners : SameOwners w.shared (program.expire w.shared f) := .expire ht
    show (program.expire w.shared f).referred j + _ = (program.expire w.shared f).present j
    rw [owners.referred, owners.present]
    exact kept
  | @collect i f below r hst hne =>
    have popped := World.tally_update (Frame.keeping j) (World.lt_length_of_stack hst) w.shared
      below
    have none := Frame.offers_of_over (j := j) hne
    have same : Frame.keeping j (f :: below) = Frame.keeping j below := by
      cases below with
      | nil => simp [Frame.keeping, none]
      | cons g rest =>
        have waits : g.offers j = g.keeps j :=
          Frame.offers_of_ne_sub fun x hx => Program.not_sub_of_collect ha hst x hx
        simp [Frame.keeping, none, waits]
    rw [hst] at popped
    rw [World.shared_update]
    omega

/-- **The reference to a factory is with somebody as long as the factory is alive**, and with one
at a time. -/
theorem factory_kept (hj : j < limits.length)
    (hw : program.Reach (World.init (.ofLimits limits shared)) w) :
    w.shared.referred j + w.tally (Frame.keeping j) = w.shared.present j := by
  induction hw with
  | refl =>
    have level := level_ofLimits hj shared
    cases j with
    | zero =>
      have one : (ofLimits limits shared).keepers = 1 := rfl
      simp [referred, present, level, one, World.init, World.tally]
    | succ j =>
      have above := level_ofLimits (Nat.lt_of_succ_lt hj) shared
      simp [referred, present, level, above, World.init, World.tally]
  | move m hw ha ih =>
    have depth := depth_of_reach hw
    exact kept_of_apply (depth.symm ▸ hj) hw ha ih

/-- No factory comes into being, and a pool goes by being abandoned. -/
theorem life_of_apply {m : Move Op Reply} {notices : List Notice} (hj : j < w.shared.depth)
    (ha : program.apply w m = some (w', notices)) :
    ((w'.shared.level j).factoryAlive = true → (w.shared.level j).factoryAlive = true) ∧
      ((w'.shared.level j).abandoned = false →
        (w'.shared.level j).poolAlive = (w.shared.level j).poolAlive) := by
  have same : SameOwners w.shared w'.shared →
      ((w'.shared.level j).factoryAlive = true → (w.shared.level j).factoryAlive = true) ∧
      ((w'.shared.level j).abandoned = false →
        (w'.shared.level j).poolAlive = (w.shared.level j).poolAlive) :=
    fun owners => ⟨fun alive => owners.factory j ▸ alive, fun _ => owners.pool j⟩
  cases Program.effect_of_apply ha with
  | spawn | enter | descend | collect => exact ⟨id, fun _ => rfl⟩
  | step hst hne he =>
    cases (Frame.steps hne he).life hj with
    | same pool factory => exact ⟨fun alive => factory ▸ alive, fun _ => pool⟩
    | released how pool =>
      refine ⟨fun alive => ?_, fun kept => pool.trans ?_⟩
      · rw [World.shared_update] at alive
        rcases how with ⟨-, dead⟩ | ⟨-, factory⟩
        · rw [alive] at dead
          cases dead
        · exact factory ▸ alive
      · rw [World.shared_update] at kept
        rw [kept]
        exact Bool.and_true _
  | ascend hst hne hg he => exact same (Frame.resumed (Or.inr ⟨_, hg⟩) he).owners
  | answer hst hne he => exact same (Frame.resumed (Or.inl ⟨_, hne⟩) he).owners
  | expire _ ht => exact same (.expire ht)

/-- **A pool outlives its factory.** -/
theorem pool_of_factory (hj : j < limits.length)
    (hw : program.Reach (World.init (.ofLimits limits shared)) w)
    (alive : (w.shared.level j).factoryAlive = true) : (w.shared.level j).poolAlive = true := by
  induction hw with
  | refl =>
    show ((ofLimits limits shared).level j).poolAlive = true
    rw [level_ofLimits hj shared]
  | @move w w' m notices hw ha ih =>
    have depth := depth_of_reach hw
    obtain ⟨factory, pool⟩ := life_of_apply (depth ▸ hj) ha
    rw [pool (by simp [Level.abandoned, alive])]
    exact ih (factory alive)

/-- Who has the reference to a factory finds it alive. -/
theorem factory_of_keeps (hj : j < limits.length)
    (hw : program.Reach (World.init (.ofLimits limits shared)) w) {f : Frame}
    (hf : f ∈ w.frames) (keeps : f.keeps j ≠ 0) : (w.shared.level j).factoryAlive = true := by
  have kept := factory_kept hj hw
  have some : 0 < w.tally (Frame.keeping j) := by
    obtain ⟨fs, hfs, mem⟩ := List.mem_flatten.mp hf
    have one := List.le_sum_of_mem
      (List.mem_map.mpr ⟨f, mem, rfl⟩ : f.keeps j ∈ fs.map (Frame.keeps j))
    have all := List.le_sum_of_mem
      (List.mem_map.mpr ⟨fs, hfs, rfl⟩ : Frame.keeping j fs ∈ w.threads.map (Frame.keeping j))
    have few : (fs.map (Frame.keeps j)).sum ≤ Frame.keeping j fs := by
      cases fs with
      | nil => exact Nat.le_refl _
      | cons g rest =>
        have := g.keeps_le_offers j
        simp only [Frame.keeping, List.map_cons, List.sum_cons]
        omega
    unfold World.tally
    omega
  by_contra dead
  have none : w.shared.present j = 0 := if_neg dead
  omega

/-- A pool that is alive keeps the next factory alive. -/
theorem factory_of_above (hj : j + 1 < limits.length)
    (hw : program.Reach (World.init (.ofLimits limits shared)) w)
    (alive : (w.shared.level j).poolAlive = true) :
    (w.shared.level (j + 1)).factoryAlive = true := by
  have kept := factory_kept hj hw
  by_contra dead
  simp [referred, present, alive, dead] at kept

/-- A pool that is alive keeps the next one alive. -/
theorem pool_of_above (hj : j + 1 < limits.length)
    (hw : program.Reach (World.init (.ofLimits limits shared)) w)
    (alive : (w.shared.level j).poolAlive = true) :
    (w.shared.level (j + 1)).poolAlive = true :=
  pool_of_factory hj hw (factory_of_above hj hw alive)

/-- While the users have the outermost factory, every factory is alive. -/
theorem factory_of_keepers (hw : program.Reach (World.init (.ofLimits limits shared)) w)
    (keepers : 0 < w.shared.keepers) (hj : j < limits.length) :
    (w.shared.level j).factoryAlive = true := by
  induction j with
  | zero =>
    have kept := factory_kept hj hw
    by_contra dead
    simp [referred, present, keepers, dead] at kept
  | succ j ih => exact factory_of_above hj hw (pool_of_factory (by omega) hw (ih (by omega)))

/-- **While the users have the outermost factory, every pool is alive.** -/
theorem pool_of_keepers (hw : program.Reach (World.init (.ofLimits limits shared)) w)
    (keepers : 0 < w.shared.keepers) (hj : j < limits.length) :
    (w.shared.level j).poolAlive = true :=
  pool_of_factory hj hw (factory_of_keepers hw keepers hj)

end Lending.Cache
