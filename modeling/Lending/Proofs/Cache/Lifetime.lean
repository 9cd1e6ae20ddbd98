import Lending.Proofs.Cache.Nesting

/-!
# How long a pool lives

A pool goes with the last of its factory and its handles. Whoever gives that up marks the pool as
gone in the same step, and only then begins to tear down what is idle.

* `Frame.Ends`: a pool's end is under way.
* `not_ends_of_alive`: while a pool is alive, its end is under way nowhere.

The step that gives up the last reference also says that it was the last (`Frame.releaseLevel`), as
a reference count reaches zero only once. So an end that is under way is that of a pool to which
nobody refers any more.
-/

namespace Lending.Cache

namespace Frame

/-- The end of level `k`'s pool is under way. -/
def Ends (k : Nat) : Frame → Prop
  | .thenPool j _ | .dropPool j | .pool j .teardown => j = k
  | _ => False

variable {k : Nat} {m : Moment} {c c' : Cache} {f f' g : Frame} {r : Reply}

theorem ends_of_begun {j : Nat} {x : Pool.Call Nat} (hb : x.begun = true)
    (h : (pool j x).Ends k) : False := by
  cases x with
  | teardown => exact absurd hb nofun
  | _ => exact h

theorem alive_of_releaseLevel {j : Nat} {fault : Option String} (hk : k < c.depth)
    (ha : ((releaseLevel c j fault).1.level k).poolAlive = true) :
    (c.level k).poolAlive = true ∧ ¬ (releaseLevel c j fault).2.Ends k := by
  unfold releaseLevel at ha ⊢
  dsimp only at ha ⊢
  rw [level_modify] at ha
  by_cases hj : j = k
  · subst hj
    rw [if_pos ⟨rfl, hk⟩] at ha
    simp only [Level.release, Bool.and_eq_true, Bool.not_eq_true'] at ha
    rw [ha.1, ha.2]
    exact ⟨rfl, id⟩
  · rw [if_neg fun h => hj h.1] at ha
    refine ⟨ha, ?_⟩
    split
    · exact hj
    · exact id

theorem alive_of_modify {β : Level → Level} {j : Nat}
    (ha : ((c.modify j β).level k).poolAlive = true) (hβ : ∀ l, (β l).poolAlive = l.poolAlive) :
    (c.level k).poolAlive = true :=
  (level_modify_of (g := Level.poolAlive) c hβ j k).symm.trans ha

/-- **A step begins the end of a pool only by marking it as gone.** -/
theorem Steps.alive (h : Steps m c f c' f') (hk : k < c.depth)
    (ha : (c'.level k).poolAlive = true) :
    (c.level k).poolAlive = true ∧ (f'.Ends k → f.Ends k) := by
  cases h with
  | pool hs => exact ⟨alive_of_modify ha fun _ => rfl, fun h => (ends_of_begun hs.begun h).elim⟩
  | letGoRemote count hi hx hans =>
    refine ⟨alive_of_modify ha fun _ => rfl, fun h => ?_⟩
    rcases hans.begun with hb | rfl
    · exact (ends_of_begun hb h).elim
    · exact h
  | letGo j h fault =>
    obtain ⟨before, ends⟩ := alive_of_releaseLevel ((depth_modify ..).symm ▸ hk) ha
    exact ⟨alive_of_modify before fun _ => rfl, fun h => absurd h ends⟩
  | factoryGone j fault =>
    obtain ⟨before, ends⟩ := alive_of_releaseLevel ((depth_modify ..).symm ▸ hk) ha
    exact ⟨alive_of_modify before fun _ => rfl, fun h => absurd h ends⟩
  | onFactory ho =>
    refine ⟨ha, ?_⟩
    cases ho <;> exact False.elim
  | onHandle | markDirty | close | putBack =>
    exact ⟨alive_of_modify ha fun _ => rfl, False.elim⟩
  | reset =>
    refine ⟨alive_of_modify ha fun _ => rfl, ?_⟩
    split <;> exact False.elim
  | probe | forward | dropHandle | poolGone =>
    refine ⟨ha, ?_⟩
    split <;> exact False.elim
  | unavailable | leave | last | borrow | probeReleased | forwardReleased | alreadyReleased =>
    exact ⟨ha, False.elim⟩

theorem not_ends_afterLast (k : Nat) (c : Cache) (fault : Option String) (r : Reply) :
    ¬ (afterLast c fault r).2.1.Ends k := by
  unfold afterLast
  split
  · dsimp only
    split <;> exact id
  · exact id

theorem Resumed.alive (h : Resumed c f r c' f') (ha : (c'.level k).poolAlive = true) :
    (c.level k).poolAlive = true ∧ (f'.Ends k → f.Ends k) := by
  cases h with
  | pool count hx hans =>
    refine ⟨alive_of_modify ha fun _ => rfl, fun h => ?_⟩
    rcases hans.begun with hb | rfl
    · exact (ends_of_begun hb h).elim
    · exact h
  | closeRaised =>
    refine ⟨?_, False.elim⟩
    split at ha
    · exact ha
    · exact alive_of_modify ha fun _ => rfl
  | poolWent | factoryWent =>
    rw [afterLast_fst] at ha
    exact ⟨ha, fun h => absurd h (not_ends_afterLast k c _ _)⟩
  | within | lent | retired | resetRaised | advanced | swept =>
    exact ⟨alive_of_modify ha fun _ => rfl, False.elim⟩
  | notLent | remote | closed | released | poolEmptied | factoryEmptied | foundShared | notShared
  | sharedReset | readAgain => exact ⟨ha, False.elim⟩

theorem Needs.ends (h : Needs c f g) (hg : g.Ends k) : f.Ends k := by
  cases h with
  | dropPool | thenPool => exact hg
  | within ho => cases ho <;> exact hg.elim
  | make | judge | evict | letGo | borrowing | closing | retire | releasing | dropFactory
  | thenFactory | sweeping => exact hg.elim

end Frame

variable {c : Cache} {k : Nat} {w w' : World Cache Frame}

/-- A move that leaves a pool alive found it alive. -/
theorem alive_of_apply {m : Move Op Reply} {notices : List Notice} (hk : k < w.shared.depth)
    (ha : program.apply w m = some (w', notices)) (h : (w'.shared.level k).poolAlive = true) :
    (w.shared.level k).poolAlive = true := by
  cases Program.effect_of_apply ha with
  | spawn | enter | descend | collect => exact h
  | step hs hn he => exact ((Frame.steps hn he).alive hk h).1
  | ascend hs hn hg he => exact ((Frame.resumed (Or.inr ⟨_, hg⟩) he).alive h).1
  | answer hs hn he => exact ((Frame.resumed (Or.inl ⟨_, hn⟩) he).alive h).1
  | expire _ ht =>
    obtain ⟨parked, level⟩ := Frame.exists_level_expire ht k
    rwa [level] at h

/-- **While a pool is alive, its end is under way nowhere.** -/
theorem not_ends_of_alive (hk : k < c.depth) (hw : program.Reach (World.init c) w)
    (alive : (w.shared.level k).poolAlive = true) : ∀ f ∈ w.frames, ¬ f.Ends k := by
  induction hw with
  | refl => exact fun f hf => absurd hf (by simp [World.frames, World.init])
  | @move w w' m notices hw ha ih =>
    have hk' : k < w.shared.depth := by rw [(stands_of_reach hw).1]; exact hk
    have before := ih (alive_of_apply hk' ha alive)
    have started := Frame.started_of_reach hw
    rw [forall_frames_iff_stacked] at before ⊢
    refine Program.stacked_of_effect (R := fun _ f _ => ¬ f.Ends k) (S := fun _ f _ => ¬ f.Ends k)
      (Program.effect_of_apply ha) before (fun _ _ _ _ h => h) ?_ ?_ ?_ ?_ ?_
    · exact fun i op _ => id
    · rintro i m f below s f' notices - - - hn he rfl hf hf'
      exact hf (((Frame.steps hn he).alive hk' alive).2 hf')
    · intro i f below g hs hn hf hg
      exact hf ((Frame.needs (started f (World.mem_frames_of_stack hs)) hn).ends hg)
    · rintro i m f g h rest r s g' notices - - - - hg he rfl - hf hf'
      exact hf (((Frame.resumed (Or.inr ⟨h, hg⟩) he).alive alive).2 hf')
    · rintro i f below q r s f' notices - - - hn he rfl hf hf'
      exact hf (((Frame.resumed (Or.inl ⟨q, hn⟩) he).alive alive).2 hf')

end Lending.Cache
