import Lending.Proofs.Cache.GiveBack

/-!
# What a give-back does

A give-back that finds a session releases it to the pool, or closes it and then discards it. Each of
these is one frame that takes the place of another, above the frame that called for the give-back;
so it is known which handle it is for.

* `Deed`, `doneBy`: what a move does for a give-back, and for which handle.
* `Frame.closes`: the closes under way for a handle.
* `GiveBackMove`: what a move does to the sessions of handles and to the closes under way
  (`done_of_apply`).
* `DeedMove`: what a deed is as a move (`deedMove_of_apply`). A discard comes of a close that has
  not raised, and only a close that has raised is a failure.
* `no_close_of_heard`: no close is under way any more when whoever called hears of the end.
-/

namespace Lending.Cache

/-- What a give-back does with the session that it has taken. -/
inductive Deed where
  | release (s : Nat)
  | close (s : Nat)
  | discard (s : Nat)
  /-- The close has raised, and the give-back ends there. -/
  | fail (s : Nat)
  deriving DecidableEq

namespace Frame

section

variable (k : Nat)

/-- What is done to level `k` as the second frame takes the place of the first. -/
def deed : Frame → Frame → Option Deed
  | .giveBack _ _, .pool j (.start (.release s)) => if j = k then some (.release s) else none
  | .giveBack _ _, .closing j s => if j = k then some (.close s) else none
  | .closing _ _, .pool j (.start (.discard s)) => if j = k then some (.discard s) else none
  | .closing j s, .over (.raised _) => if j = k then some (.fail s) else none
  | _, _ => none

/-- The handle of level `k` that is to be given back for this frame. -/
def gives? : Frame → Option Nat
  | .within h (.giveBack _ _) => if k = 0 then some h else none
  | .closing j s => if k = j + 1 then some s else none
  | .retire j h | .releasing j h => if j = k then some h else none
  | _ => none

/-- The handle of level `k` that the operation above these frames gives back. -/
def caller? (below : List Frame) : Option Nat := below.head?.bind (gives? k)

/-- Whether session `s` of level `k` is being closed here for handle `h`. -/
def closes (h s : Nat) : Frame → List Frame → Nat
  | .closing j t, below => if j = k ∧ t = s ∧ caller? k below = some h then 1 else 0
  | _, _ => 0

end

variable {k h s : Nat} {m : Moment} {c c' : Cache} {f f' g : Frame} {r : Reply} {d : Nat}
  {below : List Frame}

theorem calls_ne_zero_iff : f.calls k h ≠ 0 ↔ f.gives? k = some h := by
  cases f with
  | within h' body => cases body <;> simp [calls, gives?]
  | _ => simp [calls, gives?]

theorem closes_of_bare (hf : f.Bare k) : f.closes k h s below = 0 := by
  cases f with
  | closing j t => exact if_neg fun h => hf h.1
  | _ => rfl

theorem closes_of_over (hn : f.need c = .over r) : f.closes k h s below = 0 := by
  cases f with
  | closing j t =>
    simp only [need] at hn
    split at hn <;> cases hn
  | _ => rfl

theorem deed_of_bare (hf : f.Bare k) (hf' : f'.Bare k) : f.deed k f' = none := by
  unfold deed
  split
  · rename_i j s
    by_cases hj : j = k
    · exact absurd (hf' hj) nofun
    · exact if_neg hj
  · exact if_neg hf'
  · rename_i j s
    by_cases hj : j = k
    · exact absurd (hf' hj) nofun
    · exact if_neg hj
  · exact if_neg hf
  · rfl

end Frame

/-- A give-back, and a close on its behalf, stands on the frame that called for it. -/
theorem Task.On.caller {k h d : Nat} {below : List Frame} (hon : (Task.giveBack k h).On d below) :
    Frame.caller? k below = some h := by
  cases below with
  | nil => exact hon.elim
  | cons g rest =>
    cases g with
    | within h' body =>
      obtain ⟨rfl, rfl, rfl⟩ := hon
      rfl
    | retire j h' | releasing j h' =>
      obtain ⟨rfl, rfl⟩ := hon
      simp [Frame.caller?, Frame.gives?]
    | closing j s =>
      obtain ⟨rfl, rfl, -⟩ := hon
      simp [Frame.caller?, Frame.gives?]
    | _ => exact hon.elim

theorem Stands.giveBack {k h d : Nat} {below : List Frame}
    (hs : Stands d (.giveBack k h) below) : Frame.caller? k below = some h := by
  obtain ⟨t, ht, hon⟩ := hs
  cases t with
  | user op => cases op <;> exact ht.elim
  | giveBack j h' =>
    obtain ⟨rfl, rfl⟩ := ht
    exact hon.caller
  | _ => exact ht.elim

theorem Stands.closing {k s d : Nat} {below : List Frame}
    (hs : Stands d (.closing k s) below) : ∃ h, Frame.caller? k below = some h := by
  obtain ⟨t, ht, hon⟩ := hs
  cases t with
  | user op => cases op <;> exact ht.elim
  | giveBack j h =>
    obtain rfl : k = j := ht
    exact ⟨h, hon.caller⟩
  | _ => exact ht.elim

/-! ## What a move does -/

/-- The frame that goes on at a move. -/
def moved (w : World Cache Frame) (m : Move Op Reply) : Option Frame :=
  (program.stepped w m).or ((program.heard w m).map Prod.fst)

section

variable {w : World Cache Frame} {i : Nat} {moment : Moment} {f g : Frame} {below : List Frame}

theorem moved_step (hst : w.stack i = f :: below) (hn : f.need w.shared = .step) :
    moved w (.run i moment) = some f := by
  unfold moved
  rw [Program.stepped_step hst hn]
  rfl

theorem moved_descend (hst : w.stack i = f :: below) (hn : f.need w.shared = .sub g) :
    moved w (.run i moment) = none := by
  unfold moved
  rw [Program.stepped_descend hst hn, Program.heard_descend hst hn]
  rfl

theorem moved_ascend {r : Reply} (hst : w.stack i = f :: g :: below)
    (hn : f.need w.shared = .over r) : moved w (.run i moment) = some g := by
  unfold moved
  rw [Program.stepped_ascend hst hn, Program.heard_ascend hst hn]
  rfl

theorem moved_answer {r : Reply} (hst : w.stack i = f :: below) :
    moved w (.answer i r) = some f := by
  unfold moved
  rw [Program.heard_answer hst]
  rfl

end

/-- What a move does for a give-back at level `k`, with its handle. -/
def doneBy (k : Nat) (w : World Cache Frame) (m : Move Op Reply) (w' : World Cache Frame) :
    Option (Nat × Deed) :=
  match moved w m, Program.touched w' m with
  | some f, some (i, _) =>
    match w'.stack i with
    | f' :: below => (Frame.caller? k below).bind fun h => (f.deed k f').map fun d => (h, d)
    | [] => none
  | _, _ => none

section

variable (k : Nat) (w : World Cache Frame) (m : Move Op Reply) (w' : World Cache Frame)

/-- What a deed for a give-back at level `k` is as a move. -/
inductive DeedMove : Deed → Prop
  /-- The session is about to be released to the pool. -/
  | release {i s : Nat} {below : List Frame}
      (hst : w'.stack i = .pool k (.start (.release s)) :: below) : DeedMove (.release s)
  /-- The session is about to be closed: the remote side is asked to, at the innermost level; at the
  others the handle that the session is gets given back. -/
  | close {i s : Nat} {below : List Frame} (hst : w'.stack i = .closing k s :: below)
      (asks : (Frame.closing k s).need w'.shared =
        if w'.shared.innermost k then .ask (.close s) else .sub (.giveBack (k + 1) s)) :
      DeedMove (.close s)
  /-- The close has ended without a raise, and the session is about to be discarded. -/
  | discard {i s : Nat} {r : Reply} {below : List Frame}
      (heard : program.heard w m = some (.closing k s, r))
      (unraised : ∀ message, r ≠ .raised message)
      (hst : w'.stack i = .pool k (.start (.discard s)) :: below) : DeedMove (.discard s)
  /-- The close has raised. -/
  | fail {s : Nat} {message : String}
      (heard : program.heard w m = some (.closing k s, .raised message)) : DeedMove (.fail s)

/-- Handle `h` of level `k`, and every other one, has the session that it had. -/
def SameTargets (c c' : Cache) : Prop :=
  ∀ n < (c.level k).handles.length, (c'.handle k n).target = (c.handle k n).target

/-- What a move does to the sessions of level `k`'s handles and to the closes under way. -/
inductive GiveBackMove : Prop
  | none (hd : doneBy k w m w' = Option.none) (targets : SameTargets k w.shared w'.shared)
      (closes : ∀ h s, w'.weigh (Frame.closes k h s) = w.weigh (Frame.closes k h s))
  /-- A session is taken out of its handle. -/
  | taken {h s : Nat} {d : Deed} (hd : doneBy k w m w' = some (h, d))
      (ht : (w.shared.handle k h).target = some s)
      (ht' : (w'.shared.handle k h).target = Option.none)
      (targets : ∀ n < (w.shared.level k).handles.length, n ≠ h →
        (w'.shared.handle k n).target = (w.shared.handle k n).target)
      (how : d = .close s ∧ ((w.shared.handle k h).epoch ≠ (w.shared.level k).epoch ∨
          (w.shared.handle k h).dirty = true) ∨
        d = .release s ∧ (w.shared.handle k h).epoch = (w.shared.level k).epoch ∧
          (w.shared.handle k h).dirty = false)
      (closes : ∀ n t, w'.weigh (Frame.closes k n t) =
        w.weigh (Frame.closes k n t) + if n = h ∧ d = .close t then 1 else 0)
  /-- A close has ended. -/
  | ended {h s : Nat} {d : Deed} (hd : doneBy k w m w' = some (h, d))
      (how : d = .discard s ∨ d = .fail s) (targets : SameTargets k w.shared w'.shared)
      (closes : ∀ n t, w'.weigh (Frame.closes k n t) + (if n = h ∧ t = s then 1 else 0) =
        w.weigh (Frame.closes k n t))

end

section

variable {k i : Nat} {c c' : Cache} {w w' : World Cache Frame} {m : Move Op Reply}
  {notices : List Notice} {f f' : Frame} {below : List Frame}

/-- A give-back that finds a session closes it or releases it. -/
theorem Frame.Steps.of_giveBack {moment : Moment} {h s : Nat}
    (hs : Frame.Steps moment c (.giveBack k h) c' f') (ht : (c.handle k h).target = some s) :
    (f' = .closing k s ∧
      ((c.handle k h).epoch ≠ (c.level k).epoch ∨ (c.handle k h).dirty = true)) ∨
    f' = .pool k (.start (.release s)) ∧
      (c.handle k h).epoch = (c.level k).epoch ∧ (c.handle k h).dirty = false := by
  cases hs with
  | alreadyReleased hn => rw [ht] at hn; exact absurd hn nofun
  | close ht' why =>
    rw [ht] at ht'
    cases ht'
    exact Or.inl ⟨rfl, why⟩
  | putBack ht' he hd =>
    rw [ht] at ht'
    cases ht'
    exact Or.inr ⟨rfl, he, hd⟩

/-- What `doneBy` is, where a frame has taken the place of another. -/
def DoneByFrames (k : Nat) (w : World Cache Frame) (m : Move Op Reply) (w' : World Cache Frame)
    (f f' : Frame) (below : List Frame) : Prop :=
  doneBy k w m w' = (Frame.caller? k below).bind fun h => (f.deed k f').map fun d => (h, d)

theorem doneByFrames_of {n : Nat} (hm : moved w m = some f)
    (hp : Program.touched w' m = some (i, n)) (hst : w'.stack i = f' :: below) :
    DoneByFrames k w m w' f f' below := by
  unfold DoneByFrames doneBy
  rw [hm, hp]
  simp only [hst]

theorem DoneByFrames.deed {h : Nat} {d : Deed} (ht : DoneByFrames k w m w' f f' below)
    (hd : doneBy k w m w' = some (h, d)) : f.deed k f' = some d := by
  rw [ht, Option.bind_eq_some_iff] at hd
  obtain ⟨h', -, hd⟩ := hd
  obtain ⟨d', he, hd⟩ := Option.map_eq_some_iff.mp hd
  cases hd
  exact he

/-- A deed that comes of a step is a release or a close. -/
theorem Frame.Steps.deedMove {moment : Moment} {d : Deed} (hs : Frame.Steps moment c f c' f')
    (hd : f.deed k f' = some d) (hst : w'.stack i = f' :: below) : DeedMove k w m w' d := by
  unfold Frame.deed at hd
  split at hd
  · split at hd
    · rename_i hj
      subst hj
      cases hd
      exact .release hst
    · cases hd
  · split at hd
    · rename_i hj
      subst hj
      cases hd
      exact .close hst rfl
    · cases hd
  · cases hs
  · cases hs
  · cases hd

/-- A deed that comes of a reply is a discard, or a close that has raised. -/
theorem Frame.Resumed.deedMove {r : Reply} {d : Deed} (hr : Frame.Resumed c f r c' f')
    (heard : program.heard w m = some (f, r)) (hd : f.deed k f' = some d)
    (hst : w'.stack i = f' :: below) : DeedMove k w m w' d := by
  unfold Frame.deed at hd
  split at hd
  · cases hr
  · cases hr
  · split at hd
    · rename_i hj
      subst hj
      cases hd
      cases hr with
      | closed _ _ quiet =>
        refine .discard heard (fun message raised => ?_) hst
        rw [raised] at quiet
        cases quiet
    · cases hd
  · split at hd
    · rename_i hj
      subst hj
      cases hd
      cases hr with
      | closeRaised => exact .fail heard
      | resetRaised hreset => cases hreset
    · cases hd
  · cases hd

theorem DoneByFrames.none (ht : DoneByFrames k w m w' f f' below) (hd : f.deed k f' = .none)
    (targets : SameTargets k w.shared w'.shared)
    (closes : ∀ n t, w'.weigh (Frame.closes k n t) + f.closes k n t below =
      w.weigh (Frame.closes k n t) + f'.closes k n t below)
    (hf : ∀ n t, f.closes k n t below = 0) (hf' : ∀ n t, f'.closes k n t below = 0) :
    GiveBackMove k w m w' := by
  refine .none ?_ targets fun n t => ?_
  · rw [ht, hd]
    cases Frame.caller? k below <;> rfl
  · have := closes n t
    rw [hf, hf'] at this
    exact this

theorem DoneByFrames.taken {moment : Moment} {h s d : Nat} (hk : k < w.shared.depth)
    (ht : DoneByFrames k w m w' (.giveBack k h) f' below)
    (stands : Stands d (.giveBack k h) below)
    (hs : Frame.Steps moment w.shared (.giveBack k h) w'.shared f')
    (has : (w.shared.handle k h).target = some s)
    (closes : ∀ n t, w'.weigh (Frame.closes k n t) + (Frame.giveBack k h).closes k n t below =
      w.weigh (Frame.closes k n t) + f'.closes k n t below) : GiveBackMove k w m w' := by
  have caller := stands.giveBack
  unfold DoneByFrames at ht
  rw [caller] at ht
  have target := (hs.handles hk).target h
  have others : ∀ n < (w.shared.level k).handles.length, n ≠ h →
      (w'.shared.handle k n).target = (w.shared.handle k n).target := by
    intro n _ hn
    refine ((hs.handles hk).target n).2 ?_
    intro he
    cases he
    exact hn rfl
  rcases hs.of_giveBack has with ⟨rfl, why⟩ | ⟨rfl, he, hd⟩
  · refine .taken (d := .close s) ?_ has (target.1 rfl) others (Or.inl ⟨rfl, why⟩) fun n t => ?_
    · rw [ht]
      simp [Frame.deed]
    · have := closes n t
      simp only [Frame.closes, caller, Option.some.injEq] at this
      rw [show w'.weigh (Frame.closes k n t) = _ from this]
      refine congrArg _ (if_congr ⟨?_, ?_⟩ rfl rfl)
      · rintro ⟨-, rfl, rfl⟩
        exact ⟨rfl, rfl⟩
      · rintro ⟨rfl, he⟩
        cases he
        exact ⟨trivial, rfl, rfl⟩
  · refine .taken (d := .release s) ?_ has (target.1 rfl) others (Or.inr ⟨rfl, he, hd⟩)
      fun n t => ?_
    · rw [ht]
      simp [Frame.deed]
    · have := closes n t
      simpa [Frame.closes] using this

/-- A reply goes on with a give-back, or has nothing to do with one. -/
theorem DoneByFrames.resumed {d : Nat} {r : Reply} (hk : k < w.shared.depth)
    (ht : DoneByFrames k w m w' f f' below) (stands : Stands d f below)
    (hr : Frame.Resumed w.shared f r w'.shared f')
    (closes : ∀ n t, w'.weigh (Frame.closes k n t) + f.closes k n t below =
      w.weigh (Frame.closes k n t) + f'.closes k n t below) : GiveBackMove k w m w' := by
  have targets : SameTargets k w.shared w'.shared := fun n hn => (hr.handles hk).target hn
  have ended : ∀ {s : Nat} {e : Deed}, f = .closing k s → f.deed k f' = some e →
      (e = .discard s ∨ e = .fail s) → (∀ n t, f'.closes k n t below = 0) →
      GiveBackMove k w m w' := by
    rintro s e rfl he how none
    obtain ⟨h, caller⟩ := stands.closing
    unfold DoneByFrames at ht
    rw [caller, he] at ht
    refine .ended ht how targets fun n t => ?_
    have := closes n t
    rw [none] at this
    refine (congrArg _ (if_congr ⟨?_, ?_⟩ rfl rfl)).trans this
    · rintro ⟨rfl, rfl⟩
      exact ⟨rfl, rfl, caller⟩
    · rintro ⟨-, rfl, hc⟩
      rw [caller] at hc
      cases hc
      exact ⟨rfl, rfl⟩
  cases hr.loan hk with
  | none same hf hf' =>
    exact ht.none (Frame.deed_of_bare hf hf') targets closes (fun _ _ => Frame.closes_of_bare hf)
      fun _ _ => Frame.closes_of_bare hf'
  | answered count hf hf' =>
    subst hf hf'
    exact ht.none rfl targets closes (fun _ _ => rfl) fun _ _ => rfl
  | lent hf _ hf' =>
    subst hf hf'
    exact ht.none rfl targets closes (fun _ _ => rfl) fun _ _ => rfl
  | @closed s hf _ hf' =>
    subst hf'
    exact ended (s := s) hf (by rw [hf]; simp [Frame.deed]) (Or.inl rfl) fun _ _ => rfl
  | @closeRaised s message hf _ hf' =>
    subst hf'
    exact ended (s := s) hf (by rw [hf]; simp [Frame.deed]) (Or.inr rfl) fun _ _ => rfl

/-- A step goes on with a give-back, or has nothing to do with one. -/
theorem DoneByFrames.steps {d : Nat} {moment : Moment} (hk : k < w.shared.depth)
    (ht : DoneByFrames k w m w' f f' below) (stands : Stands d f below)
    (hs : Frame.Steps moment w.shared f w'.shared f')
    (closes : ∀ n t, w'.weigh (Frame.closes k n t) + f.closes k n t below =
      w.weigh (Frame.closes k n t) + f'.closes k n t below) : GiveBackMove k w m w' := by
  by_cases has : ∃ h s, f = .giveBack k h ∧ (w.shared.handle k h).target = some s
  · obtain ⟨h, s, rfl, has⟩ := has
    exact ht.taken hk stands hs has closes
  have targets : SameTargets k w.shared w'.shared := by
    intro n hn
    have target := (hs.handles hk).target n
    by_cases hf : f = .giveBack k n
    · rw [target.1 hf]
      cases hn : (w.shared.handle k n).target with
      | none => rfl
      | some s => exact absurd ⟨n, s, hf, hn⟩ has
    · exact target.2 hf
  cases hs.loan hk with
  | none same hf hf' =>
    exact ht.none (Frame.deed_of_bare hf hf') targets closes (fun _ _ => Frame.closes_of_bare hf)
      fun _ _ => Frame.closes_of_bare hf'
  | pool hf hf' | answered _ hf hf' =>
    subst hf hf'
    exact ht.none rfl targets closes (fun _ _ => rfl) fun _ _ => rfl
  | @taken h s hf hs => exact absurd ⟨h, s, hf, hs⟩ has

/-- **What a move does for the give-backs of a level.** -/
theorem done_of_apply (hk : k < w.shared.depth) (hw : program.Reach (World.init c) w)
    (ha : program.apply w m = some (w', notices)) : GiveBackMove k w m w' := by
  have stands := (stands_of_reach hw).2
  have still : ∀ {m : Move Op Reply} {w'' : World Cache Frame}, moved w m = none →
      w''.shared = w.shared →
      (∀ n t, w''.weigh (Frame.closes k n t) = w.weigh (Frame.closes k n t)) →
      GiveBackMove k w m w'' := by
    intro m w'' hm same closes
    refine .none ?_ (fun n _ => by rw [same]) closes
    unfold doneBy
    rw [hm]
  cases Program.effect_of_apply ha with
  | spawn => exact still rfl rfl fun n t => World.weigh_spawn ..
  | @enter i op hi =>
    refine still rfl rfl fun n t => ?_
    exact World.weigh_push (Frame.closes k n t) hi w.shared (program.start op)
  | @step i moment f f' below c' _ hst hne he =>
    have top := stands i
    rw [hst] at top
    have hst' := World.stack_update_self (World.lt_length_of_stack hst) c' (f' :: below)
    exact (doneByFrames_of (moved_step hst hne) rfl hst').steps hk top.1
      (Frame.steps hne he) fun n t => World.weigh_replace (Frame.closes k n t) hst c' f'
  | @descend i moment f g below hst hne =>
    have started := Frame.started_of_reach hw f (World.mem_frames_of_stack hst)
    refine still (moved_descend hst hne) rfl fun n t => ?_
    have pushed := World.weigh_push (Frame.closes k n t) (World.lt_length_of_stack hst) w.shared g
    rw [hst, Frame.closes_of_bare ((Frame.needs started hne).bare k)] at pushed
    exact pushed
  | @ascend i moment f g g' h rest r c' _ hst hne hg he =>
    have top := stands i
    rw [hst] at top
    have hst' := World.stack_update_self (World.lt_length_of_stack hst) c' (g' :: rest)
    refine (doneByFrames_of (moved_ascend hst hne) rfl hst').resumed hk top.2.1
      (Frame.resumed (Or.inr ⟨h, hg⟩) he) fun n t => ?_
    have went := World.weigh_ascend (Frame.closes k n t) hst c' g'
    rw [Frame.closes_of_over hne] at went
    omega
  | @answer i r f f' below q c' _ hst hne he =>
    have top := stands i
    rw [hst] at top
    have hst' := World.stack_update_self (World.lt_length_of_stack hst) c' (f' :: below)
    exact (doneByFrames_of (moved_answer hst) rfl hst').resumed hk top.1
      (Frame.resumed (Or.inl ⟨q, hne⟩) he) fun n t =>
        World.weigh_replace (Frame.closes k n t) hst c' f'
  | @expire i f below t hst ht =>
    refine .none rfl (fun n _ => ?_) fun n t => rfl
    obtain ⟨parked, level⟩ := Frame.exists_level_expire ht k
    exact congrArg Handle.target (handle_of_eq (by rw [level]) n)
  | @collect i f below r hst hne =>
    refine still rfl rfl fun n t => ?_
    have popped := World.weigh_pop (Frame.closes k n t) hst w.shared
    rw [Frame.closes_of_over hne] at popped
    exact popped

/-- **What is written down as done for a give-back, the move does**: a discard comes of a close that
has not raised, and only a close that has raised is a failure. -/
theorem deedMove_of_apply {h : Nat} {d : Deed} (ha : program.apply w m = some (w', notices))
    (hd : doneBy k w m w' = some (h, d)) : DeedMove k w m w' d := by
  have still : moved w m ≠ none := by
    intro none
    unfold doneBy at hd
    rw [none] at hd
    cases hd
  cases Program.effect_of_apply ha with
  | spawn | enter | expire | collect => exact absurd rfl still
  | @step i moment f f' below c' _ hst hne he =>
    have hst' := World.stack_update_self (World.lt_length_of_stack hst) c' (f' :: below)
    exact (Frame.steps hne he).deedMove
      ((doneByFrames_of (moved_step hst hne) rfl hst').deed hd) hst'
  | descend hst hne => exact absurd (moved_descend hst hne) still
  | @ascend i moment f g g' h rest r c' _ hst hne hg he =>
    have hst' := World.stack_update_self (World.lt_length_of_stack hst) c' (g' :: rest)
    exact (Frame.resumed (Or.inr ⟨h, hg⟩) he).deedMove (Program.heard_ascend hst hne)
      ((doneByFrames_of (moved_ascend hst hne) rfl hst').deed hd) hst'
  | @answer i r f f' below q c' _ hst hne he =>
    have hst' := World.stack_update_self (World.lt_length_of_stack hst) c' (f' :: below)
    exact (Frame.resumed (Or.inl ⟨q, hne⟩) he).deedMove (Program.heard_answer hst)
      ((doneByFrames_of (moved_answer hst) rfl hst').deed hd) hst'

/-- Whether a frame stands right on one for which handle `h` of level `k` is to be given back. -/
def Frame.serves (k h : Nat) (_ : Frame) (below : List Frame) : Nat :=
  (below.head?.map (Frame.calls k h)).getD 0

theorem Frame.closes_le_serves {h s : Nat} (f : Frame) (below : List Frame) :
    f.closes k h s below ≤ f.serves k h below := by
  cases f with
  | closing j t =>
    show (if j = k ∧ t = s ∧ Frame.caller? k below = some h then 1 else 0) ≤ _
    split
    · rename_i hc
      cases below with
      | nil => exact absurd hc.2.2 nofun
      | cons g rest => exact Nat.pos_of_ne_zero (Frame.calls_ne_zero_iff.mpr hc.2.2)
    · exact Nat.zero_le _
  | _ => exact Nat.zero_le _

theorem weigh_serves_le (k h : Nat) (w : World Cache Frame) :
    w.weigh (Frame.serves k h) ≤ w.total (Frame.calls k h) := by
  refine World.weigh_le_of_charged _ (p := fun _ => False) fun i => ?_
  refine Stacked.imp (R := fun _ _ => True) ?_ fun f below _ _ => ?_
  · exact stacked_iff.mpr fun _ _ _ => trivial
  · simp [Frame.serves]

theorem total_calls_le (k h : Nat) (w : World Cache Frame) :
    w.total (Frame.calls k h) ≤ w.weigh (Frame.claims k h) := by
  rw [World.total_eq_weigh]
  refine World.weigh_mono fun f below => ?_
  by_cases hc : f.calls k h = 0
  · omega
  · rw [Frame.claims_of_calls hc]
    have := f.calls_le_one (k := k) (h := h)
    exact this

theorem Frame.drops_of_need {c : Cache} {h : Nat} (hf : Frame.Started f)
    (hn : f.need c = .sub (.dropHandle k h)) : f.drops k h ≠ 0 := by
  obtain ⟨g, rest, he, hg⟩ := (Task.On.of_dropHandle hf hn 0 []).drops
  cases he
  exact hg

/-- **When whoever called for the end of a handle hears of it, no close of its session is under way
any more.** -/
theorem no_close_of_heard {limits : List Limits} {shared : Bool} {h s : Nat} {r : Reply}
    (hk : k < limits.length) (hw : program.Reach (World.init (.ofLimits limits shared)) w)
    (ha : program.apply w m = some (w', notices)) (hm : program.heard w m = some (f, r))
    (hn : f.need w.shared = .sub (.giveBack k h) ∨ f.need w.shared = .sub (.dropHandle k h)) :
    w.weigh (Frame.closes k h s) = 0 := by
  have started := Frame.started_of_reach hw f (Program.mem_frames_of_heard hm)
  have alone := (claims_le_one hk hw h).1
  cases Program.hears_of_apply ha hm with
  | answer hst hne => rcases hn with hn | hn <;> exact absurd (hne.symm.trans hn) nofun
  | @result i _ top _ _ rest _ _ hst hne =>
    -- the world without the frame that has ended
    have closes := World.weigh_pop (Frame.closes k h s) hst w.shared
    rw [Frame.closes_of_over hne] at closes
    have few := World.weigh_mono (w := w.update i w.shared (f :: rest)) fun g below =>
      Frame.closes_le_serves (k := k) (h := h) (s := s) g below
    have serves := weigh_serves_le k h (w.update i w.shared (f :: rest))
    have calls := total_calls_le k h (w.update i w.shared (f :: rest))
    rcases hn with hn | hn
    · have one : top.serves k h (f :: rest) ≠ 0 := Frame.calls_of_need started hn
      have popped := World.weigh_pop (Frame.serves k h) hst w.shared
      have all := weigh_serves_le k h w
      have bound := total_calls_le k h w
      omega
    · have one := Frame.claims_of_drops (Frame.drops_of_need started hn) top rest
      have popped := World.weigh_pop (Frame.claims k h) hst w.shared
      omega

end

end Lending.Cache
