import Lending.Proofs.Cache.Acquiring
import Lending.Proofs.Cache.Balance
import Lending.Proofs.Cache.Quiet

/-!
# Raises, and what is done without one

A raise has no way back: each operation that it passes is on the way of it from then on, and ends
with it. What is done aside is the other side of that. While a pool looks for a session, it has
handles of the next level probed and torn down; these operations meet a raise or end well, and none
of them touches the levels above or needs a new session.

* `Frame.raises`: the operations on the way of a raise. They stay so (`Steps.raises`,
  `Resumed.raises`), whatever hears of them becomes one (`Resumed.raised`), and they do not end
  otherwise (`fault_of_raises`).
* `Frame.Aside k`: the operations done aside for level `k`, which go on aside and leave the levels
  down to `k` alone (`Steps.aside`, `Resumed.aside`, `Needs.aside`).
-/

namespace Lending.Cache

namespace Frame

variable {k : Nat} {m : Moment} {c c' : Cache} {f f' g : Frame} {r : Reply}

/-! ## Raises -/

/-- Whether an operation is on the way of a raise. -/
def raises : Frame → Bool
  | .pool _ x => x.raises
  | .letGo _ _ fault | .poolGone _ fault | .factoryGone _ fault | .thenPool _ fault
  | .thenFactory _ fault => fault.isSome
  | .over r => r.fault.isSome
  | .aborted => true
  | _ => false

theorem raises_releaseLevel {fault : Option String} (hf : fault.isSome = true) (c : Cache)
    (k : Nat) : (releaseLevel c k fault).2.raises = true := by
  obtain ⟨message, rfl⟩ := Option.isSome_iff_exists.mp hf
  unfold releaseLevel
  dsimp only
  split <;> rfl

theorem raises_afterLast {fault : Option String} (h : fault.isSome = true ∨ r.fault.isSome = true)
    (c : Cache) : (afterLast c fault r).2.1.raises = true := by
  unfold afterLast
  split
  · dsimp only
    split <;> rfl
  · rename_i unraised
    rcases h with h | h
    · obtain ⟨message, rfl⟩ := Option.isSome_iff_exists.mp h
      rfl
    · cases r with
      | raised message => exact absurd rfl (unraised message)
      | _ => cases h

theorem Steps.raises (h : Steps m c f c' f') (hf : f.raises = true) : f'.raises = true := by
  cases h with
  | pool hs => exact Pool.Call.Steps.raises hs hf
  | letGoRemote count hi hx ha => exact Pool.Call.Answered.raises ha hf
  | letGo | factoryGone => exact raises_releaseLevel hf ..
  | poolGone k fault =>
    obtain ⟨message, rfl⟩ := Option.isSome_iff_exists.mp hf
    split <;> rfl
  | _ => cases hf

theorem Resumed.raises (h : Resumed c f r c' f') (hf : f.raises = true) : f'.raises = true := by
  cases h with
  | pool count hx ha => exact Pool.Call.Answered.raises ha hf
  | poolWent | factoryWent => exact raises_afterLast (Or.inl hf) c
  | resetRaised hs => rfl
  | _ => cases hf

/-- What hears of a raise is on the way of it. -/
theorem Resumed.raised (h : Resumed c f r c' f') (hr : r.fault.isSome = true) :
    f'.raises = true := by
  cases h with
  | pool count hx ha =>
    cases r with
    | raised message => exact Pool.Call.Answered.raised ha (Pool.Call.asks_of_need hx)
    | _ => cases hr
  | within | notLent | remote | retired | released | poolEmptied | factoryEmptied => exact hr
  | poolWent | factoryWent => exact raises_afterLast (Or.inr hr) c
  | closeRaised | resetRaised => rfl
  | closed _ _ quiet | notShared _ quiet | sharedReset _ quiet | readAgain _ _ quiet
  | swept _ _ quiet =>
    rw [quiet] at hr
    cases hr
  | lent | foundShared | advanced => cases hr

/-- What has ended is a result, or a call of a pool with one. -/
theorem over_or_pool_of_need (hn : f.need c = .over r) :
    f = .over r ∨ ∃ j r', f = .pool j (.over r') ∧ r = .ofPool r' := by
  cases f with
  | «over» r' =>
    cases hn
    exact Or.inl rfl
  | pool j x =>
    obtain ⟨r', hx, rfl⟩ := exists_over_of_need hn
    obtain rfl := Pool.Call.eq_over_of_need hx
    exact Or.inr ⟨j, r', rfl, rfl⟩
  | closing | reset =>
    simp only [need] at hn
    split at hn <;> cases hn
  | _ => cases hn

/-- What is on the way of a raise ends with it. -/
theorem fault_of_raises (hf : f.raises = true) (hn : f.need c = .over r) :
    r.fault.isSome = true := by
  rcases over_or_pool_of_need hn with rfl | ⟨j, r', rfl, rfl⟩
  · exact hf
  · cases r' with
    | raised => rfl
    | _ => cases hf

/-! ## What is done aside -/

/-- What a call of level `k`'s pool needs beside a session, not on the way of a raise: on the levels
below a handle is probed, or given back. -/
def Aside (k : Nat) : Frame → Prop
  | .pool j x => k < j ∧ x.quiet = true ∧ x.Serves .giveBack
  | .probe j _ | .giveBack j _ | .closing j _ | .retire j _ | .dropHandle j _ | .releasing j _ =>
    k < j
  | .letGo j _ fault => k < j ∧ fault = none
  | .remote q => ∃ s, q = .isOpen s
  | .over r => r.fault = none
  | _ => False

/-- A change of a level leaves the ones above alone. -/
theorem level_modify_above {j : Nat} (hj : k < j) (g : Level → Level) :
    ∀ l ≤ k, (c.modify j g).level l = c.level l := by
  intro l hl
  rw [level_modify, if_neg fun h => by omega]

/-- **A step aside** goes on aside, and leaves the levels down to `k` alone, as long as every
factory is alive. -/
theorem Steps.aside (h : Steps m c f c' f') (hf : f.Aside k)
    (alive : ∀ j, (c.level j).factoryAlive = true) :
    f'.Aside k ∧ (∀ l ≤ k, c'.level l = c.level l) ∧ c'.keepers = c.keepers := by
  cases h with
  | pool hs =>
    obtain ⟨hj, quiet, serves⟩ := hf
    exact ⟨⟨hj, hs.quiet quiet, hs.serves serves⟩, level_modify_above hj _, rfl⟩
  | letGoRemote count hi hx ha =>
    obtain ⟨hj, quiet, serves⟩ := hf
    exact ⟨⟨hj, ha.quiet (fun _ => nofun) quiet, ha.serves serves⟩, level_modify_above hj _, rfl⟩
  | probeReleased | alreadyReleased => exact ⟨rfl, fun _ _ => rfl, rfl⟩
  | probe =>
    refine ⟨?_, fun _ _ => rfl, rfl⟩
    split
    · exact ⟨_, rfl⟩
    · exact Nat.lt_succ_of_lt hf
  | close => exact ⟨hf, level_modify_above hf _, rfl⟩
  | putBack => exact ⟨⟨hf, rfl, Or.inr rfl⟩, level_modify_above hf _, rfl⟩
  | dropHandle =>
    refine ⟨?_, fun _ _ => rfl, rfl⟩
    split
    · exact hf
    · exact ⟨hf, rfl⟩
  | letGo j h fault =>
    obtain ⟨hj, rfl⟩ := hf
    have factory : ((c.forget j h).level j).factoryAlive = true := by
      refine (level_modify_of (g := Level.factoryAlive) c ?_ j j).trans (alive j)
      exact fun _ => rfl
    have kept : ((c.forget j h).level j).abandoned = false := by
      simp only [Level.abandoned, factory, Bool.not_true, Bool.false_and]
    refine ⟨?_, fun l hl => ?_, rfl⟩
    · simp only [releaseLevel, kept, Bool.and_false, Bool.false_eq_true, if_false]
      rfl
    · exact (level_modify_above hj _ l hl).trans (level_modify_above hj _ l hl)
  | _ => exact hf.elim

/-- What is heard aside is heard so, if it is no raise. -/
theorem Resumed.aside (h : Resumed c f r c' f') (hf : f.Aside k) (hr : r.fault = none) :
    f'.Aside k ∧ (∀ l ≤ k, c'.level l = c.level l) ∧ c'.keepers = c.keepers := by
  cases h with
  | pool count hx ha =>
    obtain ⟨hj, quiet, serves⟩ := hf
    refine ⟨⟨hj, ha.quiet (fun message raised => ?_) quiet, ha.serves serves⟩,
      level_modify_above hj _, rfl⟩
    rw [toPool_eq_raised raised] at hr
    cases hr
  | remote => exact ⟨hr, fun _ _ => rfl, rfl⟩
  | closed => exact ⟨⟨hf, rfl, Or.inr rfl⟩, fun _ _ => rfl, rfl⟩
  | retired => exact ⟨hr, level_modify_above hf _, rfl⟩
  | released => exact ⟨⟨hf, hr⟩, fun _ _ => rfl, rfl⟩
  | closeRaised | resetRaised => cases hr
  | _ => exact hf.elim

/-- What is needed aside is done so. -/
theorem Needs.aside (h : Needs c f g) (hf : f.Aside k) : g.Aside k := by
  cases h with
  | make hx | judge hx =>
    rcases Pool.Call.asks_of_quiet hf.2.1 (Pool.Call.asks_of_need hx) with ⟨y, hy⟩ | ⟨y, hy⟩ <;>
      cases hy
  | evict | letGo => exact Nat.lt_succ_of_lt hf.1
  | closing => exact Nat.lt_succ_of_lt hf
  | retire | releasing => exact hf
  | _ => exact hf.elim

/-- What is done aside ends without a raise. -/
theorem Aside.fault (hf : f.Aside k) (hn : f.need c = .over r) : r.fault = none := by
  rcases over_or_pool_of_need hn with rfl | ⟨j, r', rfl, rfl⟩
  · exact hf
  · cases r' with
    | raised => cases hf.2.1
    | _ => rfl

/-- What is done aside waits for no session, and ends no pool. -/
theorem Aside.plain (hf : f.Aside k) (l : Nat) :
    f.awaits = false ∧ ¬ f.Ends l ∧ ∀ j x, f = .pool j x → x.closes = 0 := by
  cases f with
  | pool j x =>
    obtain ⟨-, quiet, serves⟩ := hf
    cases x with
    | teardown => exact absurd serves (by rintro (h | h) <;> cases h)
    | evicting r rest counted =>
      exact absurd serves (by cases counted <;> rintro (h | h) <;> cases h)
    | creating => cases quiet
    | _ => exact ⟨rfl, id, by rintro _ _ ⟨⟩; rfl⟩
  | probe | giveBack | closing | retire | dropHandle | releasing | letGo | remote | «over» =>
    exact ⟨rfl, id, nofun⟩
  | _ => exact hf.elim

/-- Nothing is connected aside. -/
theorem Aside.ne_connect {q : Query} (hf : f.Aside k) (hn : f.need c = .ask q) : q ≠ .connect := by
  cases f with
  | pool j x =>
    obtain ⟨s, rfl⟩ := exists_close_of_quiet (f := Frame.pool j x) hf.2.1 hn
    exact nofun
  | closing j s =>
    obtain ⟨s, rfl⟩ := exists_close_of_quiet (f := .closing j s) rfl hn
    exact nofun
  | remote q' =>
    obtain ⟨s, rfl⟩ := hf
    cases hn
    exact nofun
  | reset | askingShared | resettingShared | readingClock => exact hf.elim
  | _ => cases hn

/-- Nobody is waited for aside. -/
theorem Aside.timer? (hf : f.Aside k) : f.timer? c = none := by
  cases f with
  | pool j x =>
    cases x with
    | parked => cases hf.2.1
    | _ => rfl
  | _ => rfl

end Frame

end Lending.Cache
