import Lending.Cache.Guarded
import Lending.Pool.Guarded
import Lending.Proofs.Cache.Epochs
import Lending.Proofs.Calls
import Lending.Proofs.Guarded

/-!
# Who locks himself out

Callbacks of a pool run while the pool's mutex is free, whatever they do. With resets it is
different: a reset has its turn, which is a mutex too, until it has ended; so it has it while the
shared connection, the clock and what it removes are dealt with. A callback of these that resets the
same level waits for the reset that it is a part of.

* `reach_everyLevel`, `apply_everyLevel`: what is new where every level is within reach is only what
  may start. So resets still take turns (`EpochsPaced.of_everyLevel`).
* `Frame.resets?`: the level that an operation resets. It stays the same until the operation has
  ended (`Steps.resets`, `Resumed.resets`), and nobody needs a reset (`Needs.resets`). `Answers` is
  what follows for the call that a frame was started by (`answers_of_kept`).
* `taken_iff`: a mutex of a stack is taken exactly while a frame has it.
* `locked_out_iff`: **a thread tries to take a mutex that it has exactly where a reset is made from
  inside one of the same level**; then it waits for ever (`stays_lockedOut`).

So the mutex of a pool may be taken from inside every callback: `create`, `is_stale`, `on_evict`,
and those of the remote side. The mutex for resets is another matter. It is had while callbacks run,
and `reset_cache` of the same level from inside one of these does not come back.
-/

namespace Lending.Cache

/-! ## Every level in use -/

section

variable {w₀ w w' : World Cache Frame}

/-- Users of the outermost factory are among those who use every level. -/
theorem reach_everyLevel (h : program.Reach w₀ w) : everyLevel.Reach w₀ w := by
  induction h with
  | refl => exact .refl
  | move m _ ha ih =>
    cases m with
    | spawn => exact .move .spawn ih ha
    | enter i op => exact .move (.enter i (.user op)) ih ha
    | run i m => exact .move (.run i m) ih ha
    | answer i r => exact .move (.answer i r) ih ha
    | expire i => exact .move (.expire i) ih ha
    | collect i => exact .move (.collect i) ih ha

/-- Who uses every level may start more, and nothing else is different. -/
theorem apply_everyLevel {m : Move Use Reply} {notices : List Notice}
    (ha : everyLevel.apply w m = some (w', notices)) :
    (∃ i, ∃ u : Use, i < w.threads.length ∧ w' = w.update i w.shared (u.start :: w.stack i)) ∨
      ∃ m' : Move Op Reply, program.apply w m' = some (w', notices) := by
  cases m with
  | spawn => exact Or.inr ⟨.spawn, ha⟩
  | enter i u =>
    cases Program.effect_of_apply ha with
    | enter _ hi _ => exact Or.inl ⟨i, u, hi, rfl⟩
  | run i m => exact Or.inr ⟨.run i m, ha⟩
  | answer i r => exact Or.inr ⟨.answer i r, ha⟩
  | expire i => exact Or.inr ⟨.expire i, ha⟩
  | collect i => exact Or.inr ⟨.collect i, ha⟩

theorem started_start (u : Use) : Frame.Started u.start := by
  cases u <;> exact trivial

/-- What starts has no turn yet, and carries no epoch. -/
theorem carries_start (u : Use) (k : Nat) :
    u.start.turn k = 0 ∧ u.start.clocks k = [] ∧ u.start.loads k = [] := by
  cases u <;> exact ⟨rfl, rfl, rfl⟩

theorem started_of_everyLevel {c : Cache} (hw : everyLevel.Reach (World.init c) w) :
    ∀ f ∈ w.frames, Frame.Started f := by
  refine Program.forall_frames_of_reach started_start ?_ ?_ ?_ hw
  · exact fun _ hn he => (Frame.steps hn he).started
  · exact fun hf hn => (Frame.needs hf hn).started
  · exact fun _ hn he => (Frame.resumed hn he).started

theorem depth_of_everyLevel {c : Cache} (hw : everyLevel.Reach (World.init c) w) :
    w.shared.depth = c.depth := by
  induction hw with
  | refl => rfl
  | move m _ ha ih =>
    rcases apply_everyLevel ha with ⟨i, u, -, rfl⟩ | ⟨m', ha'⟩
    · exact ih
    · exact (depth_of_apply ha').trans ih

/-- **Resets take turns**, whoever makes them. -/
theorem EpochsPaced.of_everyLevel {limits : List Limits} {shared : Bool} {k : Nat}
    (hk : k < limits.length)
    (hw : everyLevel.Reach (World.init (.ofLimits limits shared)) w) : EpochsPaced k w := by
  induction hw with
  | refl => exact EpochsPaced.of_reach hk .refl
  | move m hw ha ih =>
    rcases apply_everyLevel ha with ⟨i, u, hi, rfl⟩ | ⟨m', ha'⟩
    · obtain ⟨turn, clocks, loads⟩ := carries_start u k
      exact ih.push hi turn clocks loads
    · exact ih.move (started_of_everyLevel hw) ha'

theorem Frame.turn_eq_zero {k : Nat} {f : Frame} (h : ¬ Resetting k f) : f.turn k = 0 := by
  rw [resetting_iff_turn] at h
  cases f with
  | askingShared | resettingShared | readingClock | sweeping =>
    exact if_neg fun hj => h (if_pos hj)
  | _ => rfl

/-- **A reset of a level is under way exactly while one has its turn.** -/
theorem resetting_iff_exists {limits : List Limits} {shared : Bool} {k : Nat}
    (hk : k < limits.length)
    (hw : everyLevel.Reach (World.init (.ofLimits limits shared)) w) :
    (w.shared.level k).resetting = true ↔ ∃ f ∈ w.frames, Frame.Resetting k f := by
  have turns := (EpochsPaced.of_everyLevel hk hw).turn
  constructor
  · intro held
    rw [if_pos held] at turns
    by_contra none
    have still : w.total (Frame.turn k) = 0 :=
      World.total_eq_zero fun f hf => Frame.turn_eq_zero fun hr => none ⟨f, hf, hr⟩
    rw [still] at turns
    cases turns
  · rintro ⟨f, hf, hr⟩
    have le := w.le_total (Frame.turn k) hf
    rw [Frame.resetting_iff_turn.mp hr, turns] at le
    by_contra free
    rw [if_neg free] at le
    omega

end

/-! ## What is done for a reset -/

namespace Frame

variable {k : Nat} {t : Moment} {c c' : Cache} {f f' g : Frame} {r : Reply}

/-- The level that an operation resets, from its call to its end. -/
def resets? : Frame → Option Nat
  | .call (.reset k) | .reset k | .askingShared k | .resettingShared k | .readingClock k _
  | .sweeping k _ => some k
  | _ => none

theorem Resetting.resets (h : Resetting k f) : f.resets? = some k := by
  cases h <;> rfl

/-- Only a reset that has its turn asks or needs anything. -/
theorem resetting_of_opens (hf : f.resets? = some k) (ho : everyLevel.Opens f) :
    Resetting k f := by
  obtain ⟨c, ho⟩ := ho
  cases f with
  | askingShared j => cases hf; exact .asking
  | resettingShared j => cases hf; exact .shared
  | readingClock j previous => cases hf; exact .clock previous
  | sweeping j epoch => cases hf; exact .sweeping epoch
  | reset j =>
    -- It has no turn yet: it waits for it, or takes it.
    rcases ho with ⟨q, hq⟩ | ⟨g, hg⟩
    · simp only [everyLevel, need] at hq
      split at hq <;> cases hq
    · simp only [everyLevel, need] at hg
      split at hg <;> cases hg
  | call op =>
    rcases ho with ⟨q, hq⟩ | ⟨g, hg⟩
    · cases hq
    · cases hg
  | _ => cases hf

theorem Steps.resets (h : Steps t c f c' f') : f'.resets? = f.resets? ∨ ∃ r, f' = .over r := by
  cases h with
  | unavailable | leave | markDirty | probeReleased | forwardReleased | alreadyReleased =>
    exact Or.inr ⟨_, rfl⟩
  | onFactory ho =>
    cases ho with
    | hold => exact Or.inr ⟨_, rfl⟩
    | getSession | reset | destroy | setSize | setWaitLimit => exact Or.inl rfl
  | onHandle ho => cases ho <;> exact Or.inl rfl
  | last | pool | letGoRemote | borrow | close | putBack => exact Or.inl rfl
  | probe | forward | dropHandle | reset => split <;> exact Or.inl rfl
  | letGo | factoryGone =>
    unfold releaseLevel
    dsimp only
    split
    · exact Or.inl rfl
    · exact Or.inr ⟨_, rfl⟩
  | poolGone =>
    split
    · exact Or.inr ⟨_, rfl⟩
    · exact Or.inl rfl

theorem Resumed.resets (h : Resumed c f r c' f') :
    f'.resets? = f.resets? ∨ ∃ r, f' = .over r := by
  cases h with
  | within | lent | notLent | remote | closeRaised | retired | resetRaised | swept =>
    exact Or.inr ⟨_, rfl⟩
  | poolWent | factoryWent =>
    unfold afterLast
    split
    · dsimp only
      split
      · exact Or.inl rfl
      · exact Or.inr ⟨_, rfl⟩
    · exact Or.inr ⟨_, rfl⟩
  | pool | closed | released | poolEmptied | factoryEmptied | foundShared | notShared
  | sharedReset | advanced | readAgain => exact Or.inl rfl

/-- No operation needs a reset. -/
theorem Needs.resets (h : Needs c f g) : g.resets? = none := by
  cases h with
  | within ho => cases ho <;> rfl
  | _ => rfl

end Frame

/-! ## What is under way on a thread -/

/-- What a frame may be that this call has started, or that another frame needs. -/
structure Answers (call : Option (Guarded.Op Use Nat))
    (F : Guarded.Frame Frame Nat (Pool Nat)) : Prop where
  started : ∀ f, F.frame? = some f → Frame.Started f
  /-- It resets the level that the call resets, until it has ended. -/
  resets  : ∀ f, F.frame? = some f → f.resets? = call.bind resets? ∨ ∃ r, f = .over r
  looks   : F.frame? = none → call.bind resets? = none

theorem Answers.of_frame {call : Option (Guarded.Op Use Nat)}
    {F : Guarded.Frame Frame Nat (Pool Nat)} {f : Frame} (hF : F.frame? = some f)
    (hs : Frame.Started f) (hr : f.resets? = call.bind resets? ∨ ∃ r, f = .over r) :
    Answers call F where
  started g hg := by
    cases hF.symm.trans hg
    exact hs
  resets g hg := by
    cases hF.symm.trans hg
    exact hr
  looks h := absurd (hF.symm.trans h) nofun

section

variable {call : Option (Guarded.Op Use Nat)} {F F' : Guarded.Frame Frame Nat (Pool Nat)}
  {f f' : Frame} {t : Moment} {c c' : Cache} {r : Reply}

theorem Answers.steps (h : Answers call F) (hF : F.frame? = some f) (hF' : F'.frame? = some f')
    (hs : Frame.Steps t c f c' f') : Answers call F' := by
  refine .of_frame hF' hs.started ?_
  rcases h.resets f hF with same | ⟨r, rfl⟩
  · rw [← same]
    exact hs.resets
  · nomatch hs

theorem Answers.resumed (h : Answers call F) (hF : F.frame? = some f) (hF' : F'.frame? = some f')
    (hr : Frame.Resumed c f r c' f') : Answers call F' := by
  refine .of_frame hF' hr.started ?_
  rcases h.resets f hF with same | ⟨r, rfl⟩
  · rw [← same]
    exact hr.resets
  · cases hr with
    | resetRaised hf => nomatch hf

end

theorem resets_start (u : Use) : u.start.resets? = resets? (.op u) := by
  cases u with
  | user op => cases op <;> rfl
  | _ => rfl

/-- **The frames of a thread do what the calls under way on it were made for.** -/
theorem answers_of_kept {s₀ : Guarded.State Cache Nat} {i : Nat}
    {C : List (Option (Guarded.Op Use Nat))}
    {w : World (Guarded.State Cache Nat) (Guarded.Frame Frame Nat (Pool Nat))}
    (h : guarded.Kept (Program.calls i) [] (World.init s₀) C w) :
    List.Forall₂ Answers C (w.stack i) := by
  refine Program.forall₂_calls ?_ ?_ ?_ ?_ h
  · intro op
    cases op with
    | op u => exact .of_frame rfl (started_start u) (Or.inl (resets_start u))
    | look k => exact ⟨nofun, nofun, fun _ => rfl⟩
  · intro call s F G answers hn
    cases Guarded.Frame.needs hn nofun nofun with
    | sub hf =>
      have needed := Frame.needs (answers.started _ rfl) hf
      exact .of_frame rfl needed.started (Or.inl needed.resets)
  · intro call t s F s' F' _ answers hn he
    cases Guarded.Frame.steps hn he with
    | plain hf _ he' | take hf _ _ he' => exact answers.steps rfl rfl (Frame.steps hf he')
    | giveBack | look | looked => exact ⟨answers.started, answers.resets, answers.looks⟩
  · intro call s F r s' F' _ answers hn he
    obtain ⟨f, rfl, needs⟩ : ∃ f, F = .free f ∧
        ((∃ q, f.need s.shared = .ask q) ∨ ∃ g, f.need s.shared = .sub g) := by
      rcases hn with ⟨q, hq⟩ | ⟨G, hG⟩
      · cases Guarded.Frame.needs hq nofun nofun with
        | ask hf => exact ⟨_, rfl, Or.inl ⟨q, hf⟩⟩
      · cases Guarded.Frame.needs hG nofun nofun with
        | sub hf => exact ⟨_, rfl, Or.inr ⟨_, hf⟩⟩
    cases Guarded.Frame.resumed (P := everyLevel) he with
    | reply he' => exact answers.resumed rfl rfl (Frame.resumed needs he')
    | view => exact answers

/-! ## The mutexes of a stack -/

section

variable {k : Nat} {m : Mutex} {f : Frame} {F : Guarded.Frame Frame Nat (Pool Nat)}
  {s : Guarded.State Cache Nat}

theorem mem_turns : m ∈ f.turns ↔ ∃ k, m = .reset k ∧ Frame.Resetting k f := by
  constructor
  · intro h
    unfold Frame.turns at h
    split at h
    · exact ⟨_, List.mem_singleton.mp h, .asking⟩
    · exact ⟨_, List.mem_singleton.mp h, .shared⟩
    · exact ⟨_, List.mem_singleton.mp h, .clock _⟩
    · exact ⟨_, List.mem_singleton.mp h, .sweeping _⟩
    · exact absurd h List.not_mem_nil
  · rintro ⟨k, rfl, h⟩
    cases h <;> exact List.mem_singleton_self _

theorem pool_mem_has : .pool k ∈ has F ↔ k ∈ F.has := by
  have turnless : ∀ f : Frame, .pool k ∉ f.turns := by
    intro f h
    obtain ⟨j, hj, -⟩ := mem_turns.mp h
    cases hj
  cases F with
  | free f => exact iff_of_false (turnless f) List.not_mem_nil
  | inside j f => simp [has, Guarded.Frame.has, turnless f]
  | look | looking | seen => simp [has, Guarded.Frame.has]

theorem reset_mem_has : .reset k ∈ has F ↔ ∃ f, F.frame? = some f ∧ Frame.Resetting k f := by
  have turn : ∀ f : Frame, .reset k ∈ f.turns ↔ Frame.Resetting k f := by
    intro f
    rw [mem_turns]
    constructor
    · rintro ⟨j, hj, hr⟩
      cases hj
      exact hr
    · exact fun hr => ⟨k, rfl, hr⟩
  cases F with
  | free f | inside j f => simp [has, Guarded.Frame.frame?, turn]
  | look | looking | seen => simp [has, Guarded.Frame.has, Guarded.Frame.frame?]

/-- What a frame tries to take is the mutex of a pool, or of a reset that is about to begin. -/
theorem takes_cases (h : takes s F = some m) :
    (∃ k, m = .pool k ∧ F.takes everyLevel guard s = some k) ∨
      ∃ k, m = .reset k ∧ F = .free (.reset k) ∧ k < s.shared.depth := by
  unfold takes at h
  split at h
  · rename_i k
    split at h
    · rename_i hk
      cases h
      exact Or.inr ⟨k, rfl, rfl, hk⟩
    · cases h
  · obtain ⟨k, hk, rfl⟩ := Option.map_eq_some_iff.mp h
    exact Or.inl ⟨k, rfl, hk⟩

/-- The mutex of a pool is for calls of the pool. -/
theorem exists_of_mutex (h : guard.mutex? f = some k) : ∃ x, f = .pool k x := by
  cases f with
  | pool j x =>
    simp only [guard] at h
    split at h <;> cases h
    exact ⟨x, rfl⟩
  | _ => cases h

/-- Who tries to take a mutex of a stack has none. -/
theorem has_eq_nil (h : takes s F = some m) : has F = [] := by
  rcases takes_cases h with ⟨k, -, hF⟩ | ⟨k, -, rfl, -⟩
  · cases F with
    | free f =>
      simp only [Guarded.Frame.takes] at hF
      split at hF
      · obtain ⟨x, rfl⟩ := exists_of_mutex hF
        rfl
      · cases hF
    | look => rfl
    | inside | looking | seen => cases hF
  · rfl

variable {limits : List Limits} {shared : Bool}
  {w : World (Guarded.State Cache Nat) (Guarded.Frame Frame Nat (Pool Nat))}

/-- **A mutex is taken exactly while a frame has it.** -/
theorem taken_iff (hm : ∀ k, m = .reset k → k < limits.length)
    (hw : guarded.Reach (World.init ⟨.ofLimits limits shared, []⟩) w) :
    Taken w.shared m ↔ ∃ F ∈ w.frames, m ∈ has F := by
  cases m with
  | pool k =>
    simp only [pool_mem_has]
    rw [← World.mem_gather]
    exact (Guarded.taken_perm hw).mem_iff.symm
  | reset k =>
    simp only [reset_mem_has]
    refine (resetting_iff_exists (hm k rfl) (Guarded.reach_forget hw)).trans ?_
    simp only [Guarded.mem_frames_forget]
    constructor
    · rintro ⟨f, ⟨F, hF, hf⟩, hr⟩
      exact ⟨F, hF, f, hf, hr⟩
    · rintro ⟨F, hF, f, hf, hr⟩
      exact ⟨f, ⟨F, hF, hf⟩, hr⟩

end

/-! ## Who tries to take what he has -/

section

variable {limits : List Limits} {shared : Bool} {i k : Nat} {m : Mutex}
  {C : List (Option (Guarded.Op Use Nat))}
  {w w' : World (Guarded.State Cache Nat) (Guarded.Frame Frame Nat (Pool Nat))}
  {F : Guarded.Frame Frame Nat (Pool Nat)} {below : List (Guarded.Frame Frame Nat (Pool Nat))}

/-- Below another frame, the calls for a reset of a level are the frames that have its turn. -/
theorem exists_turn_iff {s₀ : Guarded.State Cache Nat} {Cs : List (Option (Guarded.Op Use Nat))}
    (hw : guarded.Reach (World.init s₀) w) (hs : w.stack i = F :: below)
    (answers : List.Forall₂ Answers Cs below) :
    (∃ G ∈ below, .reset k ∈ has G) ↔ ∃ c ∈ Program.underWay Cs, resets? c = some k := by
  constructor
  · rintro ⟨G, hG, turn⟩
    obtain ⟨f, hf, hr⟩ := reset_mem_has.mp turn
    obtain ⟨call, hc, answer⟩ := Program.exists_of_forall₂ answers.flip hG
    rcases answer.resets f hf with same | ⟨r, rfl⟩
    · rw [hr.resets] at same
      obtain ⟨c, rfl, hk⟩ := Option.bind_eq_some_iff.mp same.symm
      exact ⟨c, Program.mem_underWay.mpr hc, hk⟩
    · nomatch hr
  · rintro ⟨c, hc, hk⟩
    obtain ⟨G, hG, answer⟩ := Program.exists_of_forall₂ answers (Program.mem_underWay.mp hc)
    obtain ⟨f, rfl, opens⟩ := Guarded.free_of_below hw hs G hG
    refine ⟨_, hG, reset_mem_has.mpr ⟨f, rfl, ?_⟩⟩
    rcases answer.resets f rfl with same | ⟨r, rfl⟩
    · exact Frame.resetting_of_opens (same.trans hk) opens
    · obtain ⟨c, ⟨q, hq⟩ | ⟨g, hg⟩⟩ := opens
      · nomatch hq
      · nomatch hg

/-- **A thread tries to take a mutex that it has exactly where a reset is called from inside one of
the same level.** -/
theorem has_below_iff {s₀ : Guarded.State Cache Nat}
    (h : guarded.Kept (Program.calls i) [] (World.init s₀) C w) (hs : w.stack i = F :: below)
    (ht : takes w.shared F = some m) :
    (∃ G ∈ below, m ∈ has G) ↔ ∃ k call outer, m = .reset k ∧
      Program.underWay C = call :: outer ∧ resets? call = some k ∧
      ∃ c ∈ outer, resets? c = some k := by
  rcases takes_cases ht with ⟨k, rfl, -⟩ | ⟨k, rfl, rfl, -⟩
  · -- A frame that others stand on is in no critical section, so it has no pool's mutex.
    refine iff_of_false ?_ (fun ⟨_, _, _, hm, _⟩ => nomatch hm)
    rintro ⟨G, hG, taken⟩
    rw [pool_mem_has, Guarded.has_below h.reach hs G hG] at taken
    exact absurd taken List.not_mem_nil
  · -- The reset on top answers a call, which is the innermost one, and so does each one below.
    have answers := answers_of_kept h
    rw [hs] at answers
    cases answers with
    | @cons call _ Cs _ top rest =>
      obtain ⟨c, rfl, hc⟩ : ∃ c, call = some c ∧ resets? c = some k := by
        rcases top.resets _ rfl with same | ⟨r, hr⟩
        · exact Option.bind_eq_some_iff.mp same.symm
        · nomatch hr
      rw [exists_turn_iff h.reach hs rest]
      constructor
      · exact fun outer => ⟨k, c, Program.underWay Cs, rfl, rfl, hc, outer⟩
      · rintro ⟨j, call, outer, hj, hC, -, inside⟩
        cases hj
        cases hC
        exact inside

/-- Only a level that there is has a mutex for resets. -/
theorem lt_of_takes (h : guarded.Reach (World.init ⟨.ofLimits limits shared, []⟩) w)
    (ht : takes w.shared F = some (.reset k)) : k < limits.length := by
  rcases takes_cases ht with ⟨j, hj, -⟩ | ⟨j, hj, -, hk⟩
  · nomatch hj
  · cases hj
    have depth : w.shared.shared.depth = _ := depth_of_everyLevel (Guarded.reach_forget h)
    exact lt_of_lt_of_eq hk (depth.trans (depth_ofLimits limits shared))

/-- **Where only one thread has anything to do, a mutex is free unless that thread has it.** -/
theorem taken_iff_below (h : guarded.Reach (World.init ⟨.ofLimits limits shared, []⟩) w)
    (hs : w.stack i = F :: below) (ht : takes w.shared F = some m)
    (alone : ∀ j, j ≠ i → w.stack j = []) :
    Taken w.shared m ↔ ∃ G ∈ below, m ∈ has G := by
  have range : ∀ k, m = .reset k → k < limits.length := by
    rintro k rfl
    exact lt_of_takes h ht
  rw [taken_iff range h]
  constructor
  · rintro ⟨G, hG, hm⟩
    obtain ⟨j, hj⟩ := World.mem_frames.mp hG
    by_cases hji : j = i
    · rw [hji, hs] at hj
      rcases List.mem_cons.mp hj with rfl | hj
      · rw [has_eq_nil ht] at hm
        exact absurd hm List.not_mem_nil
      · exact ⟨G, hj, hm⟩
    · rw [alone j hji] at hj
      exact absurd hj List.not_mem_nil
  · rintro ⟨G, hG, hm⟩
    exact ⟨G, World.mem_frames_of_below hs hG, hm⟩

/-- **Who tries to take a mutex that he has waits for ever**, whatever other threads do. -/
theorem stays_lockedOut (h : guarded.Reach (World.init ⟨.ofLimits limits shared, []⟩) w)
    (hs : w.stack i = F :: below) (ht : takes w.shared F = some m)
    (own : ∃ G ∈ below, m ∈ has G) (h' : guarded.Reach w w') : w'.stack i = F :: below := by
  obtain ⟨G, hG, hm⟩ := own
  rcases takes_cases ht with ⟨k, rfl, -⟩ | ⟨k, rfl, rfl, -⟩
  · rw [pool_mem_has, Guarded.has_below h hs G hG] at hm
    exact absurd hm List.not_mem_nil
  · have range := lt_of_takes h ht
    induction h' with
    | refl => exact hs
    | @move w₁ w₂ move _ h₁ ha ih =>
      have held : Taken w₁.shared (.reset k) :=
        (taken_iff (fun j hj => by cases hj; exact range) (h.trans h₁)).mpr
          ⟨G, World.mem_frames_of_below ih hG, hm⟩
      have waits : guarded.need w₁.shared (.free (.reset k)) = .wait := by
        have inner : everyLevel.need w₁.shared.shared (.reset k) = .wait := if_pos held
        show Guarded.Frame.need everyLevel guard w₁.shared (.free (.reset k)) = .wait
        simp only [Guarded.Frame.need, inner]
      exact (Program.effect_of_apply ha).stack_of_wait ih waits

end

/-- **Who locks himself out, and who does not.** In every run, by any number of threads, in which
everybody and every callback does anything with any level at any time:

* no call of a pool tries to take the pool's mutex while its thread has it, whatever the pool is of
  and whatever its callbacks do;
* in a stack, what a frame tries to take is had by a frame below it exactly where it is the mutex
  for the resets of a level, and the innermost call under way is a reset of that level, made from
  inside another one;
* and where no other thread has anything to do, everything else that it tries to take is free. -/
theorem locked_out_iff :
    (∀ {α : Type} {s : Pool.Held α}
        {w : World (Guarded.State (Pool.Held α) Unit)
          (Guarded.Frame (Pool.Held.Frame α) Unit (Pool α))}
        {i : Nat} {F : Guarded.Frame (Pool.Held.Frame α) Unit (Pool α)} {below} {m : Unit},
      (Pool.Held.guarded α).Reach (World.init ⟨s, []⟩) w → w.stack i = F :: below →
      F.takes (Pool.Held.program α) (Pool.Held.guard α) w.shared = some m →
      (¬ ∃ G ∈ below, m ∈ G.has) ∧ ((∀ j, j ≠ i → w.stack j = []) → m ∉ w.shared.taken)) ∧
    ∀ {limits : List Limits} {shared : Bool} {i : Nat} {C : List (Option (Guarded.Op Use Nat))}
        {w : World (Guarded.State Cache Nat) (Guarded.Frame Frame Nat (Pool Nat))}
        {F : Guarded.Frame Frame Nat (Pool Nat)} {below} {m : Mutex},
      guarded.Kept (Program.calls i) [] (World.init ⟨.ofLimits limits shared, []⟩) C w →
      w.stack i = F :: below → takes w.shared F = some m →
      ((∃ G ∈ below, m ∈ has G) ↔ ∃ k call outer, m = .reset k ∧
        Program.underWay C = call :: outer ∧ resets? call = some k ∧
        ∃ c ∈ outer, resets? c = some k) ∧
      ((∀ j, j ≠ i → w.stack j = []) → (Taken w.shared m ↔ ∃ G ∈ below, m ∈ has G)) := by
  refine ⟨fun {α s w i F below m} h hs ht => ⟨?_, fun alone taken => ?_⟩,
    fun h hs ht => ⟨has_below_iff h hs ht, taken_iff_below h.reach hs ht⟩⟩
  · rintro ⟨G, hG, hm⟩
    rw [Guarded.has_below h hs G hG] at hm
    exact absurd hm List.not_mem_nil
  · have own := Guarded.taken_of_alone h hs alone taken
    rw [Guarded.Frame.has_of_takes ht] at own
    exact absurd own List.not_mem_nil

/-- While a pool makes a resource, what is idle is to be removed. -/
def removeMeanwhile : List (Move (Guarded.Op (Pool.Held.Op Nat) Unit)
    (Guarded.Reply (Pool.Reply Nat) (Pool Nat))) :=
  [.spawn, .enter 0 (.op (.call .acquire)), .run 0 (.at 0), .run 0 (.at 0), .run 0 (.at 0),
    .enter 0 (.op (.call .removeIdle)), .run 0 (.at 0)]

/-- What `removeMeanwhile` comes to. -/
def removing : World (Guarded.State (Pool.Held Nat) Unit)
    (Guarded.Frame (Pool.Held.Frame Nat) Unit (Pool Nat)) where
  shared := { shared := { pool := { allocated := 1 }, keepers := 3 } }
  threads := [[.free (.call (.start .removeIdle)), .free (.call .creating)]]

/-- While a reset of the inner one of two levels reads its clock, the outer one is to be reset. -/
def resetMeanwhile : List (Move (Guarded.Op Use Nat) (Guarded.Reply Reply (Pool Nat))) :=
  [.spawn, .enter 0 (.op (.reset 1)), .run 0 (.at 0), .enter 0 (.op (.user (.reset 0))),
    .run 0 (.at 0)]

/-- What `resetMeanwhile` comes to. -/
def outerWithinInner : World (Guarded.State Cache Nat) (Guarded.Frame Frame Nat (Pool Nat)) where
  shared :=
    { shared := { levels := [{ pool := {} }, { pool := {}, resetting := true }], keepers := 2 } }
  threads := [[.free (.reset 0), .free (.readingClock 1 0)]]

theorem locked_out_iff_outerWithinInner :
    (Pool.Held.guarded Nat).run? (World.init ⟨{ pool := .ofLimits {} }, []⟩) removeMeanwhile =
      some removing ∧
    (¬ ∃ G ∈ (removing.stack 0).tail, () ∈ G.has) ∧ () ∉ removing.shared.taken ∧
    guarded.keep? (Program.calls 0) [] (World.init ⟨.ofLimits [{}, {}] false, []⟩) resetMeanwhile =
      some ([some (.op (.user (.reset 0))), some (.op (.reset 1))], outerWithinInner) ∧
    takes outerWithinInner.shared (.free (.reset 0)) = some (.reset 0) ∧
    (¬ ∃ G ∈ (outerWithinInner.stack 0).tail, .reset 0 ∈ has G) ∧
    Taken outerWithinInner.shared (.reset 1) ∧ ¬ Taken outerWithinInner.shared (.reset 0) := by
  have alone : ∀ {Shared Frame : Type} (s : Shared) (fs : List Frame) (j : Nat), j ≠ 0 →
      (⟨s, [fs]⟩ : World Shared Frame).stack j = [] := by
    intro _ _ s fs j hj
    cases j with
    | zero => exact absurd rfl hj
    | succ j => rfl
  have run : (Pool.Held.guarded Nat).run? (World.init ⟨{ pool := .ofLimits {} }, []⟩)
      removeMeanwhile = some removing := rfl
  have stack : removing.stack 0 =
      [.free (.call (.start .removeIdle)), .free (.call .creating)] := rfl
  have kept : guarded.keep? (Program.calls 0) [] (World.init ⟨.ofLimits [{}, {}] false, []⟩)
      resetMeanwhile =
      some ([some (.op (.user (.reset 0))), some (.op (.reset 1))], outerWithinInner) := rfl
  obtain ⟨pools, levels⟩ := locked_out_iff
  obtain ⟨own, free⟩ := pools (m := ()) (Program.reach_of_run? run) stack rfl
  obtain ⟨iff, free'⟩ := levels (Program.kept_of_keep? kept) rfl rfl
  have unowned : ¬ ∃ G ∈ (outerWithinInner.stack 0).tail, .reset 0 ∈ has G := by
    rintro own
    obtain ⟨k, call, outer, hk, calls, -, c, hc, inside⟩ := iff.mp own
    cases hk
    cases calls
    obtain rfl := List.mem_singleton.mp hc
    cases inside
  exact ⟨run, own, free (alone _ _), kept, rfl, unowned, rfl,
    fun taken => unowned ((free' (alone _ _)).mp taken)⟩

/-- A session is lent and comes back. A reset removes it, and its being closed resets the same level
once more. -/
def resetInItself : List (Move (Guarded.Op Use Nat) (Guarded.Reply Reply (Pool Nat))) :=
  [.spawn, .enter 0 (.op (.user .getSession)), .run 0 (.at 0), .run 0 (.at 0), .run 0 (.at 0),
    .run 0 (.at 0), .run 0 (.at 0), .answer 0 (.reply (.got 5)), .run 0 (.at 0), .collect 0,
    .enter 0 (.op (.user (.drop 0))), .run 0 (.at 0), .run 0 (.at 0), .run 0 (.at 0),
    .run 0 (.at 0), .run 0 (.at 0), .run 0 (.at 0), .run 0 (.at 0), .run 0 (.at 0), .run 0 (.at 0),
    .run 0 (.at 0), .run 0 (.at 0), .collect 0,
    .enter 0 (.op (.user (.reset 0))), .run 0 (.at 0), .run 0 (.at 0),
    .answer 0 (.reply (.reading 1)), .run 0 (.at 0), .run 0 (.at 0), .run 0 (.at 0),
    .run 0 (.at 0), .enter 0 (.op (.user (.reset 0))), .run 0 (.at 0)]

/-- What `resetInItself` comes to. -/
def innerLockedOut : World (Guarded.State Cache Nat) (Guarded.Frame Frame Nat (Pool Nat)) where
  shared :=
    { shared :=
        { levels :=
            [{ pool := { counters := { acquired := 1, released := 1, created := 1 } }
               epoch := 1
               resetting := true
               handles := [{ target := none, epoch := 0, gone := true }] }]
          keepers := 4 } }
  threads := [[.free (.reset 0), .free (.pool 0 (.evicting 5 [] true)), .free (.sweeping 0 1)]]

/-- A reset tries to take the mutex that its own thread has. -/
theorem locked_out_resetInItself :
    guarded.keep? (Program.calls 0) [] (World.init ⟨.ofLimits [{}] false, []⟩) resetInItself =
      some ([some (.op (.user (.reset 0))), none, some (.op (.user (.reset 0)))],
        innerLockedOut) ∧
    innerLockedOut.threads.length = 1 ∧ (innerLockedOut.stack 0).head? = some (.free (.reset 0)) ∧
    takes innerLockedOut.shared (.free (.reset 0)) = some (.reset 0) ∧
    ∃ G ∈ (innerLockedOut.stack 0).tail, .reset 0 ∈ has G :=
  ⟨rfl, rfl, rfl, rfl, .free (.sweeping 0 1), List.mem_of_getElem? (i := 1) rfl,
    List.mem_singleton_self _⟩

end Lending.Cache
