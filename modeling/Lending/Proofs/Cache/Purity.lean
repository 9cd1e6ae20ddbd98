import Lending.Proofs.Cache.Epochs
import Lending.Proofs.Cache.Loans

/-!
# One thread keeps the generations apart

With one thread, a give-back that has looked at the epoch makes its session idle before anything
else happens, and a reset that has stored an epoch removes what is idle before any callback runs. So
at every point where a user can act, also inside callbacks, what is idle was last put there by a
handle of the present epoch.

* `Returns`: which handle a session was given back by, and which one it was made idle by.
* `IdleCurrent`: what holds of the idle sessions and the record along a run of one thread.
* `idle_of_one_generation`: the idle sessions are of the present epoch whenever the thread is not in
  the middle of its steps, and the session of a handle that a reset has overtaken is closed.

With more threads this fails, and `Lending.Proofs.Cache.Isolation` says how. With one it holds in
callbacks of any depth: while `connect`, `is_open`, a close, the clock or the shared connection are
asked, further operations of the cache may run, resets among them, and each of these has ended
before the callback answers.
-/

namespace Lending.Cache

/-- What is recorded of the sessions that come back to a level. -/
structure Returns where
  /-- The sessions given back, each with the handle, the last one first. -/
  given : List (Nat × Nat) := []
  /-- The sessions made idle, each with the handle that gave it back, the last one first. -/
  put   : List (Nat × Nat) := []

namespace Returns

/-- A session is given back by handle `h`, if the handle has one. -/
def give (R : Returns) (h : Nat) : Option Nat → Returns
  | some s => { R with given := (s, h) :: R.given }
  | none => R

/-- Session `s` is made idle. -/
def makeIdle (R : Returns) (s : Nat) : Returns :=
  match R.given.lookup s with
  | some h => { R with put := (s, h) :: R.put }
  | none => R

/-- A step of this frame is written down, as far as it matters to level `k`. -/
def see (R : Returns) (k : Nat) (c : Cache) : Frame → Returns
  | .giveBack j h => if j = k then R.give h (c.handle k h).target else R
  | .pool j (.start (.release s)) =>
    if j = k ∧ (c.level k).pool.overCapacity = false then R.makeIdle s else R
  | _ => R

/-- A move is written down, as far as it matters to level `k`. -/
def note (k : Nat) (R : Returns) (w : World Cache Frame) (m : Move Op Reply)
    (_ : World Cache Frame) : Option Returns :=
  some (((program.stepped w m).map (R.see k w.shared)).getD R)

end Returns

/-- Handle `h` of level `k` was lent under the present epoch. -/
structure Current (k h : Nat) (c : Cache) : Prop where
  lent  : h < (c.level k).handles.length
  epoch : (c.handle k h).epoch = (c.level k).epoch

/-- What is idle at level `k` is about to be removed, by this frame or for it. -/
def Frame.Clears (k : Nat) (f : Frame) : Prop :=
  (∃ epoch, f = .sweeping k epoch) ∨ f = .pool k (.start .removeIdle)

/-- What holds of level `k` and the record of what comes back to it, with one thread. -/
structure IdleCurrent (k : Nat) (R : Returns) (w : World Cache Frame) : Prop where
  idle  : (∀ f ∈ (w.stack 0).head?, ¬ f.Clears k) → ∀ s ∈ (w.shared.level k).pool.idle,
    ∃ h, R.put.lookup s = some h ∧ Current k h w.shared
  given : ∀ s below, w.stack 0 = .pool k (.start (.release s)) :: below →
    ∃ h, R.given.lookup s = some h ∧ Current k h w.shared

theorem Current.aged {k h : Nat} {c c' : Cache} (hc : Current k h c) (ha : Aged k c c')
    (he : (c'.level k).epoch = (c.level k).epoch) : Current k h c' where
  lent := Nat.lt_of_lt_of_le hc.lent ha.length
  epoch := by
    rw [(ha.ages h hc.lent).epoch, he]
    exact hc.epoch

/-- What is about to be removed is, before the thread comes to rest. -/
theorem Frame.Clears.ready {k : Nat} {f : Frame} (h : f.Clears k) (c : Cache) :
    f.need c = .step ∨ ∃ g, f.need c = .sub g := by
  rcases h with ⟨epoch, rfl⟩ | rfl
  · exact Or.inr ⟨_, rfl⟩
  · exact Or.inl rfl

/-- What is idle is removed before anything else happens. -/
theorem Frame.Steps.cleared {k : Nat} {m : Moment} {c c' : Cache} {f f' : Frame}
    (h : Steps m c f c' f') (hk : k < c.depth) (hf : f.Clears k) :
    (c'.level k).pool.idle = [] := by
  rcases hf with ⟨epoch, rfl⟩ | rfl
  · cases h
  · cases h with
    | pool hs =>
      rw [pool_setPool, if_pos ⟨rfl, hk⟩]
      cases hs with
      | nothingIdle hi => exact hi
      | drain => rfl
    | letGoRemote count hi hx => exact absurd hx nofun

namespace IdleCurrent

variable {k : Nat} {R R' : Returns} {w w' : World Cache Frame} {c c' : Cache} {f f' g : Frame}
  {below : List Frame} {m : Moment}

/-- What a step makes idle is written down with its handle, which is of the present epoch. -/
theorem put_see (hu : IdleCurrent k R w) (hst : w.stack 0 = f :: below) :
    (R.see k w.shared f).put = R.put ∧ (∀ s, f = .pool k (.start (.release s)) →
      (w.shared.level k).pool.overCapacity = true) ∨
    ∃ s h, f = .pool k (.start (.release s)) ∧ (R.see k w.shared f).put = (s, h) :: R.put ∧
      Current k h w.shared := by
  unfold Returns.see
  split
  · refine Or.inl ⟨?_, nofun⟩
    split
    · cases (w.shared.handle k _).target <;> rfl
    · rfl
  · rename_i j s
    by_cases hj : j = k ∧ (w.shared.level k).pool.overCapacity = false
    · obtain ⟨rfl, ho⟩ := hj
      obtain ⟨h, hl, hc⟩ := hu.given s below hst
      refine Or.inr ⟨s, h, rfl, ?_, hc⟩
      rw [if_pos ⟨rfl, ho⟩]
      simp [Returns.makeIdle, hl]
    · refine Or.inl ⟨by rw [if_neg hj], ?_⟩
      rintro t hs
      cases hs
      by_contra ho
      exact hj ⟨rfl, by simpa using ho⟩
  · rename_i noRelease
    exact Or.inl ⟨rfl, fun s hs => absurd hs (noRelease k s)⟩

/-- A frame takes the place of the top one by a step. -/
theorem step (hu : IdleCurrent k R w) (hk : k < w.shared.depth) (hst : w.stack 0 = f :: below)
    (h : Frame.Steps m w.shared f c' f') :
    IdleCurrent k (R.see k w.shared f) (w.update 0 c' (f' :: below)) := by
  have hst' := World.stack_update_self (World.lt_length_of_stack hst) c' (f' :: below)
  have aged := (h.handles hk).aged
  have epoch := h.epoch hk
  constructor
  case idle =>
    intro _ s hs
    by_cases clears : f.Clears k
    · rw [World.shared_update, h.cleared hk clears] at hs
      exact absurd hs List.not_mem_nil
    · have before := hu.idle fun g hg => by
        rw [hst] at hg
        cases hg
        exact clears
      have kept := fun n (hc : Current k n w.shared) => hc.aged aged epoch
      rcases hu.put_see hst with ⟨same, surplus⟩ | ⟨t, n, hf, put, hc⟩
      · rw [same]
        rcases h.idle hk hs with old | ⟨hf, ho⟩
        · obtain ⟨n, hl, hc⟩ := before s old
          exact ⟨n, hl, kept n hc⟩
        · rw [surplus s hf] at ho
          exact absurd ho nofun
      · rw [put]
        by_cases hst : s = t
        · subst hst
          exact ⟨n, by simp, kept n hc⟩
        · have other : (s == t) = false := by simpa using hst
          rcases h.idle hk hs with old | ⟨hf', -⟩
          · obtain ⟨n', hl, hc'⟩ := before s old
            exact ⟨n', by simp [List.lookup_cons, other, hl], kept n' hc'⟩
          · rw [hf] at hf'
            cases hf'
            exact absurd rfl hst
  case given =>
    intro s below' hs
    rw [hst'] at hs
    obtain ⟨rfl, rfl⟩ := List.cons.inj hs
    obtain ⟨n, rfl, ht, he, -⟩ := h.release hk
    refine ⟨n, ?_, Current.aged ⟨lt_length_of_target ht, he⟩ aged epoch⟩
    simp [Returns.see, ht, Returns.give]

/-- The idle sessions stay, and what comes on top of the thread is no release. -/
theorem of_idle (hu : IdleCurrent k R w) (clear : ∀ f ∈ (w.stack 0).head?, ¬ f.Clears k)
    (idle : (w'.shared.level k).pool.idle = (w.shared.level k).pool.idle)
    (kept : (∀ f ∈ (w'.stack 0).head?, ¬ f.Clears k) → ∀ h, Current k h w.shared →
      Current k h w'.shared)
    (top : ∀ s, .pool k (.start (.release s)) ∉ (w'.stack 0).head?) : IdleCurrent k R w' where
  idle := fun clear' s hs => by
    rw [idle] at hs
    obtain ⟨h, hl, hc⟩ := hu.idle clear s hs
    exact ⟨h, hl, kept clear' h hc⟩
  given := fun s below hs => absurd (by rw [hs]; exact rfl) (top s)

/-- The top frame goes on with a reply. -/
theorem resume {r : Reply} (hu : IdleCurrent k R w) (hk : k < w.shared.depth)
    (clear : ∀ f ∈ (w.stack 0).head?, ¬ f.Clears k) (hi : 0 < w.threads.length)
    (h : Frame.Resumed w.shared f r c' f') : IdleCurrent k R (w.update 0 c' (f' :: below)) := by
  have hst' := World.stack_update_self hi c' (f' :: below)
  refine hu.of_idle clear (h.idle hk) (fun clear' n hc => ?_) fun s hs => ?_
  · refine hc.aged (h.handles hk).aged ?_
    rw [World.shared_update, h.epoch hk]
    cases hs : f.stores k r with
    | none => rfl
    | some n =>
      -- an epoch that is stored is followed by the removal of what is idle
      obtain ⟨previous, rfl, rfl, hlt⟩ := Frame.exists_of_stores hs
      rw [hst'] at clear'
      cases h with
      | advanced => exact absurd (Or.inl ⟨n, rfl⟩) (clear' _ rfl)
      | readAgain _ _ _ hle => exact absurd (hle _ rfl) (Nat.not_le_of_lt hlt)
  · rw [hst'] at hs
    exact h.ne_release hk (Option.some.inj hs)

/-- What a thread's top frame does not clear, where it can take no step. -/
theorem not_clears (hst : w.stack 0 = f :: below) (hs : f.need w.shared ≠ .step)
    (hsub : ∀ g, f.need w.shared ≠ .sub g) : ∀ g ∈ (w.stack 0).head?, ¬ g.Clears k := by
  intro g hg clears
  rw [hst] at hg
  cases hg
  rcases clears.ready w.shared with h | ⟨g, h⟩
  · exact hs h
  · exact hsub g h

/-- **A move of the one thread keeps the generations apart.** -/
theorem move {c₀ : Cache} {mv : Move Op Reply} {notices : List Notice} (hk : k < w.shared.depth)
    (hw : program.Reach (World.init c₀) w) (single : w'.threads.length ≤ 1) (hu : IdleCurrent k R w)
    (ha : program.apply w mv = some (w', notices)) (hn : R.note k w mv w' = some R') :
    IdleCurrent k R' w' := by
  have one : w.threads.length ≤ 1 := Nat.le_trans (Program.length_threads_le ha) single
  have first : ∀ {i : Nat} {f : Frame} {below : List Frame}, w.stack i = f :: below → i = 0 :=
    fun hst => by
      have := World.lt_length_of_stack hst
      omega
  obtain rfl := Option.some.inj hn
  cases Program.effect_of_apply ha with
  | spawn =>
    have none : w.stack 0 = [] := by
      have : w.threads.length + 1 ≤ 1 := by simpa using single
      unfold World.stack
      rw [List.getElem?_eq_none (by omega)]
      rfl
    refine hu.of_idle ?_ rfl (fun _ _ h => h) ?_
    · rw [none]
      exact nofun
    · rw [World.stack_spawn, none]
      exact nofun
  | @enter i op hi hs =>
    obtain rfl : i = 0 := by omega
    refine hu.of_idle ?_ rfl (fun _ _ h => h) fun s hs' => ?_
    · rcases hs with hs | ⟨f, below, q, hs, hq⟩
      · rw [hs]
        exact nofun
      · have hq : f.need w.shared = .ask q := hq
        exact not_clears hs (by rw [hq]; exact nofun) (by rw [hq]; exact nofun)
    · rw [World.stack_update_self hi] at hs'
      exact absurd (Option.some.inj hs') nofun
  | @step i m f f' below c' _ hst hne he =>
    obtain rfl := first hst
    rw [Program.stepped_step hst hne]
    exact hu.step hk hst (Frame.steps hne he)
  | @descend i m f g below hst hne =>
    obtain rfl := first hst
    have hi := World.lt_length_of_stack hst
    have needs := Frame.needs (Frame.started_of_reach hw f (World.mem_frames_of_stack hst)) hne
    rw [Program.stepped_descend hst hne]
    have top : ∀ s, .pool k (.start (.release s)) ∉
        ((w.update 0 w.shared (g :: f :: below)).stack 0).head? := by
      intro s hs
      rw [World.stack_update_self hi] at hs
      have bare := needs.bare k
      rw [Option.some.inj hs] at bare
      exact absurd (bare rfl) nofun
    by_cases clears : f.Clears k
    · refine ⟨fun clear' => ?_, fun s below' hs => absurd (by rw [hs]; exact rfl) (top s)⟩
      rw [World.stack_update_self hi] at clear'
      refine absurd ?_ (clear' g rfl)
      rcases clears with ⟨epoch, rfl⟩ | rfl
      · cases hne
        exact Or.inr rfl
      · exact absurd hne nofun
    · refine hu.of_idle ?_ rfl (fun _ _ h => h) top
      intro g' hg'
      rw [hst] at hg'
      cases hg'
      exact clears
  | @ascend i m f g g' h rest r c' _ hst hne hg he =>
    obtain rfl := first hst
    have hne' : f.need w.shared = .over r := hne
    rw [Program.stepped_ascend hst hne]
    exact hu.resume hk (not_clears hst (by rw [hne']; exact nofun) (by rw [hne']; exact nofun))
      (World.lt_length_of_stack hst) (Frame.resumed (Or.inr ⟨h, hg⟩) he)
  | @answer i r f f' below q c' _ hst hne he =>
    obtain rfl := first hst
    have hne' : f.need w.shared = .ask q := hne
    exact hu.resume hk (not_clears hst (by rw [hne']; exact nofun) (by rw [hne']; exact nofun))
      (World.lt_length_of_stack hst) (Frame.resumed (Or.inl ⟨q, hne⟩) he)
  | @expire i f below t hst ht =>
    obtain rfl := first hst
    have still : ∀ g ∈ (w.stack 0).head?, g = f := by
      rw [hst]
      exact fun g hg => (Option.some.inj hg).symm
    obtain ⟨parked, level⟩ := Frame.exists_level_expire ht k
    refine hu.of_idle (fun g hg clears => ?_) ?_ (fun _ n hc => ?_) fun s hs => ?_
    · rw [still g hg] at clears
      rcases clears with ⟨epoch, rfl⟩ | rfl <;> exact absurd ht nofun
    · rw [level]
    · refine hc.aged (aged_of_apply hk ha) ?_
      rw [level]
    · rw [← still _ hs] at ht
      exact absurd ht nofun
  | @collect i f below r hst hne =>
    obtain rfl := first hst
    have hne' : f.need w.shared = .over r := hne
    refine hu.of_idle (not_clears hst (by rw [hne']; exact nofun) (by rw [hne']; exact nofun))
      rfl (fun _ _ h => h) fun s hs => ?_
    rw [World.stack_update_self (World.lt_length_of_stack hst)] at hs
    have stands := (stands_of_reach hw).2 0
    rw [hst] at stands
    cases below with
    | nil => exact absurd hs nofun
    | cons g rest =>
      obtain rfl := Option.some.inj hs
      obtain ⟨q, hq⟩ := stands.1.asks
      exact absurd hq nofun

theorem of_kept {limits : List Limits} {shared : Bool} (hk : k < limits.length)
    (h : program.Kept (Returns.note k) {} (World.init (.ofLimits limits shared)) R w)
    (single : w.threads.length ≤ 1) : IdleCurrent k R w := by
  induction h with
  | refl =>
    refine ⟨fun _ => ?_, fun s below hs => absurd hs nofun⟩
    show ∀ s ∈ ((Cache.ofLimits limits shared).level k).pool.idle, _
    rw [level_ofLimits hk shared]
    exact nofun
  | move m h ha hn ih =>
    have one := Nat.le_trans (Program.length_threads_le ha) single
    exact (ih one).move (EpochsPaced.of_reach hk h.reach).range h.reach single ha hn

end IdleCurrent

/-- A thread that is to clear the level goes on by itself. -/
theorem not_clears_of_rest {k : Nat} {w : World Cache Frame} (rest : program.status w 0 ≠ .ready) :
    ∀ f ∈ (w.stack 0).head?, ¬ f.Clears k := by
  intro f hf clears
  refine rest ?_
  cases hs : w.stack 0 with
  | nil => rw [hs] at hf; exact absurd hf nofun
  | cons g below =>
    rw [hs] at hf
    obtain rfl := Option.some.inj hf
    unfold Program.status
    rw [hs]
    rcases clears.ready w.shared with h | ⟨f, h⟩
    · have h : program.need w.shared g = .step := h
      simp only [h]
    · have h : program.need w.shared g = .sub f := h
      simp only [h]

/-- What a handle that a reset has overtaken has put back is what it had put back before. -/
theorem put_of_outdated {limits : List Limits} {shared : Bool} {k h : Nat} {R R' : Returns}
    {w w' : World Cache Frame} (hk : k < limits.length)
    (hw : program.Kept (Returns.note k) {} (World.init (.ofLimits limits shared)) R w)
    (ho : Outdated k h w) (hw' : program.Kept (Returns.note k) R w R' w')
    (single : w'.threads.length ≤ 1) : ∀ x ∈ R'.put, x.2 = h → x ∈ R.put := by
  induction hw' with
  | refl => exact fun x hx _ => hx
  | @move R₁ R₂ w₁ w₂ m notices h₁ ha hn ih =>
    have one := Nat.le_trans (Program.length_threads_le ha) single
    have hu := IdleCurrent.of_kept hk (hw.trans h₁) one
    have outdated := ho.of_reach hk hw.reach h₁.reach
    intro x hx hxh
    refine ih one x ?_ hxh
    obtain rfl := Option.some.inj hn
    cases hs : program.stepped w₁ m with
    | none =>
      rw [hs] at hx
      exact hx
    | some f =>
      rw [hs] at hx
      obtain ⟨i, moment, below, rfl, hst⟩ := Program.exists_of_stepped hs
      obtain rfl : i = 0 := by
        have := World.lt_length_of_stack hst
        omega
      rcases hu.put_see hst with ⟨same, -⟩ | ⟨s, n, -, put, hc⟩
      · exact same ▸ hx
      · have hx : x ∈ (R₁.see k w₁.shared f).put := hx
        rw [put] at hx
        rcases List.mem_cons.mp hx with rfl | hx
        · subst hxh
          exact absurd hc.epoch (Nat.ne_of_lt outdated.earlier)
        · exact hx

/-- **What is idle is of one generation**, in every run of one thread, whatever the callbacks
answer, fail at, raise or do meanwhile. Take any level of any stack.

* Whenever a callback runs, and between any two operations, each idle session was last put there by
  a handle of the present epoch.
* A session acquired by a borrowing that a reset has overtaken, while it was being connected or
  judged, is lent by a handle that is outdated from the first.
* An outdated handle stays so for ever; its session is closed when it is given back, by the remote
  side or by giving back the handle that the session is, and never becomes idle. -/
theorem idle_of_one_generation {limits : List Limits} {shared : Bool} {k : Nat} {R : Returns}
    {w : World Cache Frame} (hk : k < limits.length)
    (h : program.Kept (Returns.note k) {} (World.init (.ofLimits limits shared)) R w)
    (single : w.threads.length ≤ 1) :
    (program.status w 0 ≠ .ready → ∀ s ∈ (w.shared.level k).pool.idle,
      ∃ h, R.put.lookup s = some h ∧ Current k h w.shared) ∧
    (∀ m w' notices epoch s, program.apply w m = some (w', notices) →
      program.heard w m = some (.borrowing k epoch, .got s) →
      epoch ≠ (w.shared.level k).epoch →
      Outdated k (w.shared.level k).handles.length w' ∧
        (w'.shared.handle k (w.shared.level k).handles.length).target = some s) ∧
    ∀ h, Outdated k h w → ∀ R' w', program.Kept (Returns.note k) R w R' w' →
      w'.threads.length ≤ 1 →
      Outdated k h w' ∧ (∀ x ∈ R'.put, x.2 = h → x ∈ R.put) ∧
      ∀ m w'' notices s below, w'.stack 0 = .giveBack k h :: below →
        (w'.shared.handle k h).target = some s →
        program.apply w' (.run 0 m) = some (w'', notices) →
        w''.stack 0 = .closing k s :: below ∧
          program.need w''.shared (.closing k s) =
            if w''.shared.innermost k then .ask (.close s) else .sub (.giveBack (k + 1) s) := by
  have hp := EpochsPaced.of_reach hk h.reach
  refine ⟨fun rest => (IdleCurrent.of_kept hk h single).idle (not_clears_of_rest rest), ?_, ?_⟩
  · intro m w' notices epoch s ha heard he
    exact hp.outdated_of_lent ha heard he
  · intro n ho R' w' h' single'
    have later := ho.of_reach hk h.reach h'.reach
    exact ⟨later, put_of_outdated hk h ho h' single',
      fun m w'' notices s below hst ht ha => ⟨later.closes hst ht ha, rfl⟩⟩

/-- A session is lent and given back, and a reset runs while it is judged for another borrowing,
which lends it all the same; another session is connected then, and given back. -/
def resetInCheck : List (Move Op Reply) :=
  let get : List (Move Op Reply) := .enter 0 .getSession :: List.replicate 4 (.run 0 (.at 0))
  let close (h : Nat) : List (Move Op Reply) :=
    .enter 0 (.close h) :: List.replicate 6 (.run 0 (.at 0)) ++ [.collect 0]
  List.flatten [
    [.spawn], get, [.answer 0 (.got 0), .run 0 (.at 0), .collect 0], close 0, get,
    [.enter 0 (.reset 0)], List.replicate 2 (.run 0 (.at 0)), [.answer 0 (.reading 5)],
    List.replicate 3 (.run 0 (.at 0)), [.collect 0],
    [.answer 0 (.flag true), .run 0 (.at 0), .collect 0],
    get, [.answer 0 (.got 1), .run 0 (.at 0), .collect 0], close 2]

/-- What `resetInCheck` comes to: handle `1` is outdated, and session `1` is idle. -/
def overtaken : World Cache Frame where
  shared :=
    { levels :=
        [{ pool :=
            { idle := [1], allocated := 2
              counters := { created := 2, released := 2, acquired := 3 } }
           epoch := 5
           handles :=
            [{ target := none, epoch := 0 }, { target := some 0, epoch := 0 },
             { target := none, epoch := 5 }] }]
      keepers := 5 }
  threads := [[]]

/-- What is recorded of `resetInCheck`. -/
def bothPut : Returns where
  given := [(1, 2), (0, 0)]
  put := [(1, 2), (0, 0)]

theorem idle_of_one_generation_resetInCheck :
    0 < 1 ∧
    program.keep? (Returns.note 0) {} (World.init (.ofLimits [{}] false)) resetInCheck =
      some (bothPut, overtaken) ∧
    overtaken.threads.length ≤ 1 ∧
    (program.status overtaken 0 ≠ .ready → ∀ s ∈ (overtaken.shared.level 0).pool.idle,
      ∃ h, bothPut.put.lookup s = some h ∧ Current 0 h overtaken.shared) ∧
    (∀ m w' notices epoch s, program.apply overtaken m = some (w', notices) →
      program.heard overtaken m = some (.borrowing 0 epoch, .got s) →
      epoch ≠ (overtaken.shared.level 0).epoch →
      Outdated 0 (overtaken.shared.level 0).handles.length w' ∧
        (w'.shared.handle 0 (overtaken.shared.level 0).handles.length).target = some s) ∧
    (∀ h, Outdated 0 h overtaken → ∀ R' w', program.Kept (Returns.note 0) bothPut overtaken R' w' →
      w'.threads.length ≤ 1 →
      Outdated 0 h w' ∧ (∀ x ∈ R'.put, x.2 = h → x ∈ bothPut.put) ∧
      ∀ m w'' notices s below, w'.stack 0 = .giveBack 0 h :: below →
        (w'.shared.handle 0 h).target = some s →
        program.apply w' (.run 0 m) = some (w'', notices) →
        w''.stack 0 = .closing 0 s :: below ∧
          program.need w''.shared (.closing 0 s) =
            if w''.shared.innermost 0 then .ask (.close s) else .sub (.giveBack (0 + 1) s)) ∧
    Outdated 0 1 overtaken ∧ (overtaken.shared.handle 0 1).target = some 0 := by
  have run : program.keep? (Returns.note 0) {} (World.init (.ofLimits [{}] false)) resetInCheck =
      some (bothPut, overtaken) := rfl
  obtain ⟨idle, lent, outdated⟩ :=
    idle_of_one_generation (by decide) (Program.kept_of_keep? run) (by decide)
  exact ⟨by decide, run, by decide, idle, lent, outdated, ⟨by decide, by decide⟩, rfl⟩

end Lending.Cache
