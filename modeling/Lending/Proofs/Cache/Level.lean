import Lending.Proofs.Cache.Frame

/-!
# What a transition does to one level

The transitions of a stack, as seen from level `k`.

* `LevelStep`, `LevelResume`: what a step, or a result, does to the level (`Steps.level`,
  `Resumed.level`). Most leave its pool, its epoch and its turn alone, and make no handle (`Quiet`).
* `Frame.returning`, `Frame.loads`, `Frame.clocks`, `Frame.turn`: what a frame carries that belongs
  to the level, and where it comes from (`Carried`).
* `Frame.acquired`: the session a call of the level's pool has taken, or has for its caller; a
  borrowing goes on with that one (`mem_acquired_of_over`).

Nearly all laws are about one level, whatever happens at the others. A transition works on one
level, that of its frame, or on two, where what is a session of one is a handle of the next; seen
from any other level it is `Quiet`.
-/

namespace Lending.Cache

/-! ## Quiet changes -/

/-- The handles of a level after a change that makes none: each had its epoch before, and its
session too, unless it has none any more. -/
def Kept (before after : List Handle) : Prop :=
  ∀ x ∈ after, ∃ y ∈ before, y.epoch = x.epoch ∧ (x.target = y.target ∨ x.target = none)

theorem Kept.refl (hs : List Handle) : Kept hs hs := fun x hx => ⟨x, hx, rfl, Or.inl rfl⟩

theorem Kept.trans {as bs cs : List Handle} (h : Kept as bs) (h' : Kept bs cs) : Kept as cs := by
  intro x hx
  obtain ⟨y, hy, he, ht⟩ := h' x hx
  obtain ⟨z, hz, he', ht'⟩ := h y hy
  refine ⟨z, hz, he'.trans he, ?_⟩
  rcases ht with ht | ht
  · rw [ht]
    exact ht'
  · exact Or.inr ht

theorem kept_modify {f : Handle → Handle} (hf : ∀ x, (f x).epoch = x.epoch ∧
    ((f x).target = x.target ∨ (f x).target = none)) (hs : List Handle) (h : Nat) :
    Kept hs (hs.modify h f) := by
  intro x hx
  obtain ⟨n, hn⟩ := List.mem_iff_getElem?.mp hx
  rw [List.getElem?_modify] at hn
  obtain ⟨y, hy, rfl⟩ := Option.map_eq_some_iff.mp hn
  refine ⟨y, List.mem_of_getElem? hy, ?_⟩
  split
  · exact ⟨(hf y).1.symm, (hf y).2⟩
  · exact ⟨rfl, Or.inl rfl⟩

/-- A change of a level that leaves its pool, its epoch and its turn alone, and makes no handle. -/
structure Quiet (l l' : Level) : Prop where
  pool      : l'.pool = l.pool
  epoch     : l'.epoch = l.epoch
  resetting : l'.resetting = l.resetting
  handles   : Kept l.handles l'.handles

theorem Quiet.refl (l : Level) : Quiet l l := ⟨rfl, rfl, rfl, .refl _⟩

theorem Quiet.trans {a b d : Level} (h : Quiet a b) (h' : Quiet b d) : Quiet a d where
  pool := h'.pool.trans h.pool
  epoch := h'.epoch.trans h.epoch
  resetting := h'.resetting.trans h.resetting
  handles := h.handles.trans h'.handles

theorem quiet_modify {f : Level → Level} (hf : ∀ l, Quiet l (f l)) (c : Cache) (j k : Nat) :
    Quiet (c.level k) ((c.modify j f).level k) := by
  rw [level_modify]
  split
  · exact hf _
  · exact .refl _

theorem quiet_modifyHandle {f : Handle → Handle} (hf : ∀ x, (f x).epoch = x.epoch ∧
    ((f x).target = x.target ∨ (f x).target = none)) (c : Cache) (j h k : Nat) :
    Quiet (c.level k) ((c.modifyHandle j h f).level k) := by
  refine quiet_modify ?_ c j k
  exact fun l => ⟨rfl, rfl, rfl, kept_modify hf l.handles h⟩

theorem quiet_forget (c : Cache) (j h k : Nat) : Quiet (c.level k) ((c.forget j h).level k) := by
  refine quiet_modifyHandle ?_ c j h k
  exact fun _ => ⟨rfl, Or.inl rfl⟩

theorem quiet_releaseLevel (c : Cache) (j : Nat) (fault : Option String) (k : Nat) :
    Quiet (c.level k) ((Frame.releaseLevel c j fault).1.level k) := by
  refine quiet_modify ?_ c j k
  exact fun l => ⟨rfl, rfl, rfl, .refl _⟩

/-! ## What a frame carries -/

namespace Frame

section

variable (k : Nat)

/-- The session that a release at level `k`, past its look at the epoch, is about to make idle. -/
def returning : Frame → List Nat
  | .pool j (.start (.release s)) => if j = k then [s] else []
  | _ => []

/-- The epoch that a borrowing at level `k` has loaded. -/
def loads : Frame → List Nat
  | .borrowing j epoch => if j = k then [epoch] else []
  | _ => []

/-- The epoch that a reset of level `k` reads the clock to pass. -/
def clocks : Frame → List Nat
  | .readingClock j previous => if j = k then [previous] else []
  | _ => []

/-- Resets of level `k` that have their turn. -/
def turn : Frame → Nat
  | .askingShared j | .resettingShared j | .readingClock j _ | .sweeping j _ =>
    if j = k then 1 else 0
  | _ => 0

@[simp] theorem returning_release (s : Nat) :
    (pool k (.start (.release s))).returning k = [s] := if_pos rfl

@[simp] theorem loads_borrowing (epoch : Nat) : (borrowing k epoch).loads k = [epoch] := if_pos rfl

@[simp] theorem clocks_readingClock (previous : Nat) :
    (readingClock k previous).clocks k = [previous] := if_pos rfl

@[simp] theorem turn_readingClock (previous : Nat) : (readingClock k previous).turn k = 1 :=
  if_pos rfl

@[simp] theorem turn_sweeping (epoch : Nat) : (sweeping k epoch).turn k = 1 := if_pos rfl

/-- Only a reset that has its turn reads the clock. -/
theorem length_clocks_le (f : Frame) : (f.clocks k).length ≤ f.turn k := by
  unfold clocks
  split
  · rename_i j previous
    show _ ≤ if j = k then 1 else 0
    by_cases hj : j = k
    · rw [if_pos hj, if_pos hj]
      exact Nat.le_refl 1
    · rw [if_neg hj]
      exact Nat.zero_le _
  · exact Nat.zero_le _

end

end Frame

/-! ## Transitions, as a level sees them -/

namespace Frame

theorem turn_releaseLevel (c : Cache) (j k : Nat) (fault : Option String) :
    (releaseLevel c j fault).2.turn k = 0 := by
  unfold releaseLevel
  dsimp only
  split <;> rfl

/-- What a step of an operation does to level `k`. -/
inductive LevelStep (k : Nat) (m : Moment) (c : Cache) (f f' : Frame) (l' : Level) : Prop
  | quiet (hq : Quiet (c.level k) l') (ht : f'.turn k = f.turn k)
  | pool {x x' : Pool.Call Nat} {p' : Pool Nat} (hf : f = .pool k x) (hf' : f' = .pool k x')
      (hs : Pool.Call.Steps m (c.level k).pool x p' x') (hl : l' = { c.level k with pool := p' })
  | answered {x x' : Pool.Call Nat} {r : Pool.Reply Nat} (count : Pool.Counters → Pool.Counters)
      (hf : f = .pool k x) (hf' : f' = .pool k x') (ha : Pool.Call.Answered x r x')
      (hl : l' = { c.level k with pool := (c.level k).pool.count count })
  /-- A reset gets its turn. -/
  | turn (hf : f = .reset k) (hr : (c.level k).resetting = false) (hf' : f'.turn k = 1)
      (hl : l' = { c.level k with resetting := true })

/-- **What a step does to a level.** -/
theorem Steps.level {k : Nat} {m : Moment} {c c' : Cache} {f f' : Frame} (h : Steps m c f c' f')
    (hk : k < c.depth) : LevelStep k m c f f' (c'.level k) := by
  cases h with
  | @pool j x x' p' hs =>
    unfold setPool
    rw [level_modify]
    by_cases hj : j = k
    · subst hj
      rw [if_pos ⟨rfl, hk⟩]
      exact .pool rfl rfl hs rfl
    · rw [if_neg (fun h => hj h.1)]
      exact .quiet (.refl _) rfl
  | @letGoRemote j s x x' count hi hx ha =>
    unfold setPool
    rw [level_modify]
    by_cases hj : j = k
    · subst hj
      rw [if_pos ⟨rfl, hk⟩]
      exact .answered count rfl rfl ha rfl
    · rw [if_neg (fun h => hj h.1)]
      exact .quiet (.refl _) rfl
  | @reset j hr =>
    have ht : (if c.shared && c.innermost j then askingShared j
        else readingClock j (c.level j).epoch).turn k = if j = k then 1 else 0 := by
      split <;> rfl
    generalize (if c.shared && c.innermost j then askingShared j
      else readingClock j (c.level j).epoch) = f' at ht ⊢
    rw [level_modify]
    by_cases hj : j = k
    · subst hj
      rw [if_pos ⟨rfl, hk⟩]
      exact .turn rfl hr (ht.trans (if_pos rfl)) rfl
    · rw [if_neg (fun h => hj h.1)]
      exact .quiet (.refl _) (ht.trans (if_neg hj))
  | onFactory ho =>
    refine .quiet (.refl _) ?_
    cases ho <;> rfl
  | onHandle | markDirty =>
    refine .quiet (quiet_modifyHandle ?_ ..) rfl
    exact fun _ => ⟨rfl, Or.inl rfl⟩
  | close | putBack =>
    refine .quiet (quiet_modifyHandle ?_ ..) rfl
    exact fun _ => ⟨rfl, Or.inr rfl⟩
  | letGo j h fault =>
    exact .quiet ((quiet_forget c j h k).trans (quiet_releaseLevel _ j fault k))
      (turn_releaseLevel ..)
  | factoryGone j fault =>
    refine .quiet (Quiet.trans (quiet_modify ?_ c j k) (quiet_releaseLevel _ j fault k))
      (turn_releaseLevel ..)
    exact fun _ => ⟨rfl, rfl, rfl, .refl _⟩
  | probe | forward | dropHandle | poolGone =>
    refine .quiet (.refl _) ?_
    split <;> rfl
  | unavailable | leave | last | borrow | probeReleased | forwardReleased | alreadyReleased =>
    exact .quiet (.refl _) rfl

theorem Steps.depth {m : Moment} {c c' : Cache} {f f' : Frame} (h : Steps m c f c' f') :
    c'.depth = c.depth := by
  cases h with
  | letGo | factoryGone => exact (depth_modify ..).trans (depth_modify ..)
  | onHandle | markDirty | pool | letGoRemote | close | putBack | reset => exact depth_modify ..
  | unavailable | onFactory | leave | last | borrow | probeReleased | probe | forwardReleased
  | forward | alreadyReleased | dropHandle | poolGone => rfl

/-- What the result or the answer that an operation needed does to level `k`. -/
inductive LevelResume (k : Nat) (c : Cache) (f : Frame) (r : Reply) (f' : Frame) (l' : Level) :
    Prop
  | quiet (hq : Quiet (c.level k) l') (ht : f'.turn k = f.turn k)
  | answered {x x' : Pool.Call Nat} {q : Pool.Query Nat} (count : Pool.Counters → Pool.Counters)
      (hf : f = .pool k x) (hf' : f' = .pool k x') (ha : Pool.Call.Answered x (r.toPool q) x')
      (hl : l' = { c.level k with pool := (c.level k).pool.count count })
  | lent {epoch s : Nat} (hf : f = .borrowing k epoch) (hr : r = .got s)
      (hl : l' = { c.level k with
        handles := (c.level k).handles ++ [{ target := some s, epoch }] })
  /-- A reset's turn ends. -/
  | ended (hf : Resetting k f) (hf' : f'.turn k = 0)
      (hl : l' = { c.level k with resetting := false })
  | advanced {previous n : Nat} (hf : f = .readingClock k previous) (hr : r = .reading n)
      (hn : previous < n) (hf' : f' = .sweeping k n) (hl : l' = { c.level k with epoch := n })

theorem resetting_iff_turn {k : Nat} {f : Frame} : Resetting k f ↔ f.turn k = 1 := by
  constructor
  · intro h
    cases h <;> exact if_pos rfl
  · intro h
    cases f with
    | askingShared j | resettingShared j | readingClock j | sweeping j =>
      by_cases hj : j = k
      · subst hj
        constructor
      · exact absurd (h.symm.trans (if_neg hj)) nofun
    | _ => exact absurd h nofun

theorem afterLast_fst (c : Cache) (fault : Option String) (r : Reply) :
    (afterLast c fault r).1 = c := by
  unfold afterLast
  split <;> rfl

theorem turn_afterLast (c : Cache) (k : Nat) (fault : Option String) (r : Reply) :
    (afterLast c fault r).2.1.turn k = 0 := by
  unfold afterLast
  split
  · dsimp only
    split <;> rfl
  · rfl

/-- **What a result or an answer does to a level.** -/
theorem Resumed.level {k : Nat} {c c' : Cache} {f f' : Frame} {r : Reply}
    (h : Resumed c f r c' f') (hk : k < c.depth) : LevelResume k c f r f' (c'.level k) := by
  cases h with
  | @pool j x x' q r count hx ha =>
    unfold setPool
    rw [level_modify]
    by_cases hj : j = k
    · subst hj
      rw [if_pos ⟨rfl, hk⟩]
      exact .answered count rfl rfl ha rfl
    · rw [if_neg (fun h => hj h.1)]
      exact .quiet (.refl _) rfl
  | lent j epoch s =>
    unfold lend
    rw [level_modify]
    by_cases hj : j = k
    · subst hj
      rw [if_pos ⟨rfl, hk⟩]
      exact .lent rfl rfl rfl
    · rw [if_neg (fun h => hj h.1)]
      exact .quiet (.refl _) rfl
  | @resetRaised j f hf message =>
    rw [level_modify]
    by_cases hj : j = k
    · subst hj
      rw [if_pos ⟨rfl, hk⟩]
      exact .ended hf rfl rfl
    · rw [if_neg (fun h => hj h.1)]
      refine .quiet (.refl _) ?_
      cases hf <;> exact (if_neg hj).symm
  | swept j epoch =>
    rw [level_modify]
    by_cases hj : j = k
    · subst hj
      rw [if_pos ⟨rfl, hk⟩]
      exact .ended (.sweeping epoch) rfl rfl
    · rw [if_neg (fun h => hj h.1)]
      exact .quiet (.refl _) (if_neg hj).symm
  | @advanced j previous n hn =>
    rw [level_modify]
    by_cases hj : j = k
    · subst hj
      rw [if_pos ⟨rfl, hk⟩]
      exact .advanced rfl rfl hn rfl rfl
    · rw [if_neg (fun h => hj h.1)]
      exact .quiet (.refl _) rfl
  | within =>
    refine .quiet (quiet_modifyHandle ?_ ..) rfl
    exact fun _ => ⟨rfl, Or.inl rfl⟩
  | closeRaised j s message =>
    split
    · exact .quiet (.refl _) rfl
    · exact .quiet (quiet_forget ..) rfl
  | retired => exact .quiet (quiet_forget ..) rfl
  | poolWent | factoryWent =>
    rw [afterLast_fst]
    exact .quiet (.refl _) (turn_afterLast ..)
  | notLent | remote | closed | released | poolEmptied | factoryEmptied | foundShared | notShared
  | sharedReset | readAgain => exact .quiet (.refl _) rfl

theorem Resumed.depth {c c' : Cache} {f f' : Frame} {r : Reply} (h : Resumed c f r c' f') :
    c'.depth = c.depth := by
  cases h with
  | within | pool | lent | retired | resetRaised | advanced | swept => exact depth_modify ..
  | closeRaised =>
    split
    · rfl
    · exact depth_modify ..
  | poolWent | factoryWent => rw [afterLast_fst]
  | notLent | remote | closed | released | poolEmptied | factoryEmptied | foundShared | notShared
  | sharedReset | readAgain => rfl

/-! ## Where what a frame carries comes from -/

/-- Where a frame that takes the place of `f` has what it carries from. -/
structure Carried (k : Nat) (c : Cache) (f f' : Frame) : Prop where
  /-- A release that is past its look at the epoch has its session from a handle of that epoch. -/
  returning : ∀ s ∈ f'.returning k, ∃ x ∈ (c.level k).handles,
    x.target = some s ∧ x.epoch = (c.level k).epoch
  loads     : ∀ e ∈ f'.loads k, e = (c.level k).epoch
  clocks    : ∀ e ∈ f'.clocks k, e = (c.level k).epoch ∨ e ∈ f.clocks k

/-- A frame that carries nothing. -/
theorem Carried.nothing {k : Nat} {c : Cache} {f f' : Frame} (hr : f'.returning k = [])
    (hl : f'.loads k = []) (hc : f'.clocks k = []) : Carried k c f f' where
  returning := by rw [hr]; exact nofun
  loads := by rw [hl]; exact nofun
  clocks := by rw [hc]; exact nofun

theorem returning_of_begun {k j : Nat} {x : Pool.Call Nat} (hb : x.begun = true) :
    (pool j x).returning k = [] := by
  cases x with
  | start op => exact absurd hb nofun
  | _ => rfl

theorem returning_of_asks {k j : Nat} {p : Pool Nat} {x : Pool.Call Nat} {q : Pool.Query Nat}
    (hx : x.need p = .ask q) : (pool j x).returning k = [] := by
  cases x with
  | start op =>
    cases op with
    | release s => exact absurd hx nofun
    | _ => rfl
  | _ => rfl

theorem returning_of_answered {k j : Nat} {p : Pool Nat} {x x' : Pool.Call Nat}
    {q : Pool.Query Nat} {r : Pool.Reply Nat} (hx : x.need p = .ask q)
    (ha : Pool.Call.Answered x r x') : (pool j x').returning k = [] := by
  rcases ha.begun with hb | rfl
  · exact returning_of_begun hb
  · exact returning_of_asks hx

theorem mem_handles {c : Cache} {k h s : Nat} (ht : (c.handle k h).target = some s) :
    c.handle k h ∈ (c.level k).handles := by
  unfold handle at ht ⊢
  cases hx : (c.level k).handles[h]? with
  | none => rw [hx] at ht; exact absurd ht nofun
  | some x => exact List.mem_of_getElem? hx

theorem Steps.carried {k : Nat} {m : Moment} {c c' : Cache} {f f' : Frame}
    (h : Steps m c f c' f') : Carried k c f f' := by
  cases h with
  | onFactory ho => cases ho <;> exact .nothing rfl rfl rfl
  | pool hs => exact .nothing (returning_of_begun hs.begun) rfl rfl
  | letGoRemote count hi hx ha => exact .nothing (returning_of_answered hx ha) rfl rfl
  | borrow j =>
    refine ⟨nofun, fun e he => ?_, nofun⟩
    by_cases hj : j = k
    · subst hj
      simpa [loads] using he
    · simp [loads, hj] at he
  | @putBack j h s ht he hd =>
    refine ⟨fun s' hs' => ?_, nofun, nofun⟩
    by_cases hj : j = k
    · subst hj
      obtain rfl : s' = s := by simpa [returning] using hs'
      exact ⟨c.handle j h, mem_handles ht, ht, he⟩
    · simp [returning, hj] at hs'
  | @reset j hr =>
    split
    · exact .nothing rfl rfl rfl
    · refine ⟨nofun, nofun, fun e he => Or.inl ?_⟩
      by_cases hj : j = k
      · subst hj
        simpa [clocks] using he
      · simp [clocks, hj] at he
  | probe | forward | dropHandle | poolGone => split <;> exact .nothing rfl rfl rfl
  | letGo | factoryGone =>
    unfold releaseLevel
    dsimp only
    split <;> exact .nothing rfl rfl rfl
  | unavailable | onHandle | leave | last | markDirty | probeReleased | forwardReleased
  | alreadyReleased | close => exact .nothing rfl rfl rfl

theorem Resumed.carried {k : Nat} {c c' : Cache} {f f' : Frame} {r : Reply}
    (h : Resumed c f r c' f') : Carried k c f f' := by
  cases h with
  | pool count hx ha => exact .nothing (returning_of_answered hx ha) rfl rfl
  | notShared j | sharedReset j =>
    refine ⟨nofun, nofun, fun e he => Or.inl ?_⟩
    by_cases hj : j = k
    · subst hj
      simpa [clocks] using he
    · simp [clocks, hj] at he
  | readAgain => exact ⟨nofun, nofun, fun e he => Or.inr he⟩
  | poolWent | factoryWent =>
    unfold afterLast
    split
    · dsimp only
      split <;> exact .nothing rfl rfl rfl
    · exact .nothing rfl rfl rfl
  | within | lent | notLent | remote | closeRaised | closed | retired | released | poolEmptied
  | factoryEmptied | resetRaised | foundShared | advanced | swept => exact .nothing rfl rfl rfl

/-- The session that a call of a pool has taken, or has for its caller. -/
def acquired (x : Pool.Call Nat) : List Nat := x.checks ++ x.handed

/-- A call of a pool stays one, and takes what is idle. -/
theorem Steps.acquired {k : Nat} {m : Moment} {c c' : Cache} {x : Pool.Call Nat} {f' : Frame}
    (h : Steps m c (.pool k x) c' f') : ∃ x', f' = .pool k x' ∧
      ∀ s ∈ acquired x', s ∈ acquired x ∨ s ∈ (c.level k).pool.idle := by
  cases h with
  | pool hs =>
    refine ⟨_, rfl, fun s hs' => ?_⟩
    rcases List.mem_append.mp hs' with hs' | hs'
    · right
      rw [hs.checks s hs']
      exact List.mem_cons_self
    · rw [hs.handed] at hs'
      exact absurd hs' List.not_mem_nil
  | letGoRemote count hi hx ha =>
    refine ⟨_, rfl, fun s hs' => Or.inl ?_⟩
    rcases List.mem_append.mp hs' with hs' | hs'
    · exact List.mem_append_left _ (ha.checks s hs')
    · rcases ha.handed s hs' with hs' | ⟨deadline, -, hr⟩ | ⟨-, hr⟩
      · exact List.mem_append_right _ hs'
      · exact absurd hr nofun
      · exact absurd hr nofun

theorem toPool_eq_got {q : Pool.Query Nat} {r : Reply} {s : Nat} (h : r.toPool q = .got s) :
    r = .got s := by
  cases r with
  | got n =>
    cases h
    rfl
  | refused e =>
    simp only [Reply.toPool] at h
    split at h <;> exact absurd h nofun
  | done | failed | flag | reading | file | raised | unavailable => exact absurd h nofun

/-- A call of a pool stays one, and an answer gives it what was made. -/
theorem Resumed.acquired {k : Nat} {c c' : Cache} {x : Pool.Call Nat} {f' : Frame} {r : Reply}
    (h : Resumed c (.pool k x) r c' f') : ∃ x', f' = .pool k x' ∧
      ∀ s ∈ acquired x', s ∈ acquired x ∨ x = .creating ∧ r = .got s := by
  cases h with
  | pool count hx ha =>
    refine ⟨_, rfl, fun s hs' => ?_⟩
    rcases List.mem_append.mp hs' with hs' | hs'
    · exact Or.inl (List.mem_append_left _ (ha.checks s hs'))
    · rcases ha.handed s hs' with hs' | ⟨deadline, rfl, -⟩ | ⟨rfl, hr⟩
      · exact Or.inl (List.mem_append_right _ hs')
      · exact Or.inl (List.mem_append_left _ (List.mem_singleton_self s))
      · exact Or.inr ⟨rfl, toPool_eq_got hr⟩
  | resetRaised hf => exact absurd hf nofun

theorem depth_expire {c : Cache} {f : Frame} {t : Instant} (h : f.timer? c = some t) :
    (program.expire c f).depth = c.depth := by
  cases f with
  | pool j x => exact depth_modify ..
  | _ => exact absurd h nofun

/-- The end of a wait changes nothing of a level but who waits. -/
theorem exists_level_expire {c : Cache} {f : Frame} {t : Instant} (h : f.timer? c = some t)
    (k : Nat) : ∃ parked,
      (program.expire c f).level k =
        { c.level k with pool := { (c.level k).pool with parked } } := by
  cases f with
  | pool j x =>
    cases x with
    | parked ticket deadline =>
      show ∃ parked, (c.setPool j ((c.level j).pool.unpark ticket)).level k = _
      unfold setPool
      rw [level_modify]
      by_cases hj : j = k ∧ k < c.depth
      · obtain ⟨rfl, hk⟩ := hj
        rw [if_pos ⟨rfl, hk⟩]
        exact ⟨_, rfl⟩
      · rw [if_neg hj]
        exact ⟨_, rfl⟩
    | _ => exact absurd h nofun
  | _ => exact absurd h nofun

/-! ## Where an operation ends, and where one begins -/

theorem need_reset_ne_over {j : Nat} {c : Cache} {r : Reply} : (reset j).need c ≠ .over r := by
  intro h
  simp only [need] at h
  split at h <;> cases h

/-- A frame that has ended has no turn. -/
theorem turn_of_over {k : Nat} {c : Cache} {f : Frame} {r : Reply} (hn : f.need c = .over r) :
    f.turn k = 0 := by
  cases f with
  | askingShared | resettingShared | readingClock | sweeping => exact absurd hn nofun
  | _ => rfl

/-- A call of a pool that has ended with a session has it for its caller. -/
theorem mem_acquired_of_over {j s : Nat} {c : Cache} {x : Pool.Call Nat}
    (hn : (pool j x).need c = .over (.got s)) : s ∈ acquired x := by
  simp only [need] at hn
  cases hx : x.need (c.level j).pool with
  | «over» r =>
    rw [hx] at hn
    cases r with
    | got s' =>
      cases hn
      have := Pool.Call.mem_handed_of_over hx
      exact List.mem_append_right _ this
    | failed | verdict | done | raised => cases hn
  | ask q =>
    rw [hx] at hn
    cases q <;> simp only [ofQuery] at hn <;> split at hn <;> cases hn
  | step | sub | wait => rw [hx] at hn; cases hn

/-- An operation that another one needs carries nothing yet. -/
theorem Needs.carries {k : Nat} {c : Cache} {f g : Frame} (h : Needs c f g) :
    g.turn k = 0 ∧ g.clocks k = [] ∧ g.returning k = [] ∧ g.loads k = [] := by
  cases h with
  | within ho => cases ho <;> exact ⟨rfl, rfl, rfl, rfl⟩
  | make | judge | evict | letGo | borrowing | closing | retire | releasing | dropPool
  | dropFactory | thenPool | thenFactory | sweeping => exact ⟨rfl, rfl, rfl, rfl⟩

end Frame

end Lending.Cache
