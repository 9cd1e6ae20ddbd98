import Lending.Proofs.Cache.Custody

/-!
# One give-back at a time

A handle of the outermost level is used by one operation of its user at a time; a handle of another
level is a session of the level above, and so is with one at a time. So whoever is there for the end
of a handle, to give it back or to drop it, is alone.

* `Frame.uses`, `total_uses`: the operation under way on a handle of a user.
* `Frame.claims`, `claims_le_one`: who is there for the end of a handle.
* `GiveBackBegun`: what has begun on behalf of a give-back finds the handle without a session from
  its first step on; so does whoever waits for it (`returned_of_heard`), and a handle that is gone
  (`target_of_gone`).

A user gives a handle back with `close`, or drops it; both need exclusive access to it, and that is
what `Handle.inUse` stands for. An inner handle is a session of the level above: it is given back by
whoever closes that session or tears it down, and dropped by whoever lets it go. A handle that was
closed stays, and a drop of it finds no session; a dropped one goes, also if giving its session back
has raised.
-/

namespace Lending.Cache

namespace Frame

section

variable (k h : Nat)

/-- Whether an operation of its user on handle `h` is under way here. -/
def uses : Frame → Nat
  | .within h' _ => if h' = h then 1 else 0
  | _ => 0

/-- Whether handle `h` of level `k` is to be given back for this frame. -/
def calls : Frame → Nat
  | .within h' (.giveBack _ _) => if k = 0 ∧ h' = h then 1 else 0
  | .closing j s => if k = j + 1 ∧ s = h then 1 else 0
  | .retire j h' | .releasing j h' => if j = k ∧ h' = h then 1 else 0
  | _ => 0

/-- Whether handle `h` of level `k` is to be dropped for this frame. -/
def drops : Frame → Nat
  | .within h' (.dropHandle _ _) => if k = 0 ∧ h' = h then 1 else 0
  | .pool j x => if k = j + 1 ∧ x.asks = some (.drop h) then 1 else 0
  | _ => 0

/-- Whether a frame is there for the end of handle `h` of level `k`: for a drop of it, or to have it
given back. -/
def claims (f : Frame) (below : List Frame) : Nat :=
  if f.calls k h ≠ 0 ∨ (below.head?.map (drops k h)).getD 0 ≠ 0 then 1 else 0

end

variable {k h : Nat} {m : Moment} {c c' : Cache} {f f' g : Frame} {r : Reply} {d : Nat}
  {below : List Frame}

theorem calls_le_one (f : Frame) : f.calls k h ≤ 1 := by
  unfold calls
  split <;> first | split <;> omega | omega

theorem claims_of_calls (hf : f.calls k h ≠ 0) (below : List Frame) : f.claims k h below = 1 :=
  if_pos (Or.inl hf)

theorem claims_of_drops (hg : g.drops k h ≠ 0) (f : Frame) (rest : List Frame) :
    f.claims k h (g :: rest) = 1 := if_pos (Or.inr hg)

theorem uses_of_ne (hf : ∀ n body, f ≠ .within n body) (n : Nat) : f.uses n = 0 := by
  cases f with
  | within n' body => exact absurd rfl (hf n' body)
  | _ => rfl

/-- An operation of its user begins on a handle that no other one uses. -/
theorem Steps.within {n : Nat} {body : Frame} (hs : Steps m c f c' (.within n body)) :
    (c.handle 0 n).gone = false ∧ (c.handle 0 n).inUse = false ∧
      c' = c.modifyHandle 0 n fun x => { x with inUse := true } := by
  generalize hg : (Frame.within n body : Frame) = g at hs
  cases hs with
  | onHandle ho gone free =>
    cases hg
    exact ⟨gone, free, rfl⟩
  | letGo | factoryGone =>
    unfold releaseLevel at hg
    dsimp only at hg
    split at hg <;> cases hg
  | onFactory ho => cases ho <;> cases hg
  | probe | forward | dropHandle | poolGone | reset => split at hg <;> cases hg
  | unavailable | leave | last | markDirty | pool | letGoRemote | borrow | probeReleased
  | forwardReleased | alreadyReleased | close | putBack => cases hg

theorem HandleStep.inUse (hs : HandleStep k c c' f f') (hf' : ∀ n body, f' ≠ .within n body)
    (n : Nat) : (c'.handle k n).inUse = (c.handle k n).inUse := by
  cases hs with
  | same hh => rw [handle_of_eq hh]
  | entered _ _ hw => exact absurd hw (hf' _ _)
  | marked _ hh | released _ _ hh | forgotten _ hh =>
    rw [handle_of_modify hh]
    split <;> rfl

/-- An operation on a handle begins, or none does. -/
theorem Steps.uses (hs : Steps m c f c' f') (h0 : 0 < c.depth) (n : Nat) :
    f'.uses n + (if (c.handle 0 n).inUse then 1 else 0) =
      if (c'.handle 0 n).inUse then 1 else 0 := by
  by_cases hw : ∃ n' body, f' = .within n' body
  · obtain ⟨n', body, rfl⟩ := hw
    obtain ⟨gone, free, rfl⟩ := hs.within
    have lent : n' < (c.level 0).handles.length := by
      by_contra hn
      unfold handle at gone
      rw [List.getElem?_eq_none (by omega)] at gone
      exact absurd gone nofun
    have after := handle_of_modify (handles_modifyHandle h0 n' fun x => { x with inUse := true }) n
    by_cases hn : n' = n
    · subst hn
      rw [if_pos ⟨rfl, lent⟩] at after
      rw [after, free]
      simp [Frame.uses]
    · rw [if_neg fun h => hn h.1] at after
      rw [after]
      simp [Frame.uses, hn]
  · have apart : ∀ n' body, f' ≠ .within n' body := fun n' body h => hw ⟨n', body, h⟩
    rw [uses_of_ne apart, (hs.handles h0).inUse apart, Nat.zero_add]

theorem HandleResume.inUse (hr : HandleResume k c c' f r f')
    (hf : ∀ n body, f ≠ .within n body) (n : Nat) :
    (c'.handle k n).inUse = (c.handle k n).inUse := by
  cases hr with
  | same hh => rw [handle_of_eq hh]
  | left _ hw => exact absurd hw (hf _ _)
  | forgotten _ hh =>
    rw [handle_of_modify hh]
    split <;> rfl
  | lent _ _ _ hh =>
    unfold handle
    rw [hh]
    rcases Nat.lt_trichotomy n (c.level k).handles.length with hn | rfl | hn
    · rw [List.getElem?_append_left hn]
    · simp [Handle.none]
    · rw [List.getElem?_eq_none (by simp; omega), List.getElem?_eq_none (by omega)]

theorem Resumed.ne_within (hr : Resumed c f r c' f') (n : Nat) (body : Frame) :
    f' ≠ .within n body := by
  rintro rfl
  generalize hg : (Frame.within n body : Frame) = g at hr
  cases hr with
  | poolWent | factoryWent =>
    unfold afterLast at hg
    split at hg
    · dsimp only at hg
      split at hg <;> cases hg
    · cases hg
  | within | pool | lent | notLent | remote | closeRaised | closed | retired | released
  | poolEmptied | factoryEmptied | resetRaised | foundShared | notShared | sharedReset | advanced
  | readAgain | swept => cases hg

/-- An operation on a handle ends, or none does. -/
theorem Resumed.uses (hr : Resumed c f r c' f') (h0 : 0 < c.depth) {n : Nat}
    (held : f.uses n ≤ if (c.handle 0 n).inUse then 1 else 0) :
    f'.uses n + (if (c.handle 0 n).inUse then 1 else 0) =
      f.uses n + if (c'.handle 0 n).inUse then 1 else 0 := by
  by_cases hw : ∃ n' body, f = .within n' body
  · obtain ⟨n', body, rfl⟩ := hw
    cases hr with
    | within =>
      have after := handle_of_modify
        (handles_modifyHandle h0 n' fun x => { x with inUse := false }) n
      by_cases hn : n' = n
      · subst hn
        have busy : (c.handle 0 n').inUse = true := by
          by_contra hb
          simp [Frame.uses, hb] at held
        have lent : n' < (c.level 0).handles.length := by
          by_contra hn
          unfold handle at busy
          rw [List.getElem?_eq_none (by omega)] at busy
          exact absurd busy nofun
        rw [if_pos ⟨rfl, lent⟩] at after
        rw [after, busy]
        simp [Frame.uses]
      · rw [if_neg fun h => hn h.1] at after
        rw [after]
        simp [Frame.uses, hn]
    | resetRaised hf => exact absurd hf nofun
  · have apart : ∀ n' body, f ≠ .within n' body := fun n' body h => hw ⟨n', body, h⟩
    rw [uses_of_ne apart, uses_of_ne hr.ne_within, (hr.handles h0).inUse apart]

end Frame

section

variable {k h i : Nat} {limits : List Limits} {shared : Bool} {w w' : World Cache Frame}
  {f : Frame} {below : List Frame}

/-- **One operation of its user at a time is under way on a handle**, and the handle knows. -/
theorem total_uses (h0 : 0 < limits.length)
    (hw : program.Reach (World.init (.ofLimits limits shared)) w) (h : Nat) :
    w.total (Frame.uses h) = if (w.shared.handle 0 h).inUse then 1 else 0 := by
  induction hw with
  | refl =>
    have none : ((Cache.ofLimits limits shared).handle 0 h).inUse = false := by
      unfold handle
      rw [level_ofLimits h0 shared]
      rfl
    show 0 = if ((Cache.ofLimits limits shared).handle 0 h).inUse then 1 else 0
    rw [none]
    rfl
  | @move w w' m notices hw ha ih =>
    have h0 : 0 < w.shared.depth := by
      rw [(stands_of_reach hw).1, depth_ofLimits]
      exact h0
    cases Program.effect_of_apply ha with
    | spawn => exact (World.total_spawn ..).trans ih
    | @enter i op hi =>
      exact (World.total_push (Frame.uses h) hi w.shared (.call op)).trans ih
    | @step i m f f' below c' _ hst hne he =>
      have steps := Frame.steps hne he
      have moved := steps.uses h0 h
      have total := World.total_replace (Frame.uses h) hst c' f'
      have none : f.uses h = 0 := by
        refine Frame.uses_of_ne ?_ h
        rintro n body rfl
        exact absurd hne nofun
      rw [World.shared_update]
      omega
    | @descend i m f g below hst hne =>
      have started := Frame.started_of_reach hw f (World.mem_frames_of_stack hst)
      have none : g.uses h = 0 := by
        refine Frame.uses_of_ne ?_ h
        rintro n body rfl
        cases Frame.needs started hne with
        | within ho => cases ho
      have pushed := World.total_push (Frame.uses h) (World.lt_length_of_stack hst) w.shared g
      rw [hst, none] at pushed
      exact pushed.trans ih
    | @ascend i m f g g' _ rest r c' _ hst hne hg he =>
      have total := World.total_ascend (Frame.uses h) hst c' g'
      have one := World.le_total (Frame.uses h)
        (World.mem_frames_of_below hst List.mem_cons_self)
      have none : f.uses h = 0 := by
        refine Frame.uses_of_ne ?_ h
        rintro n body rfl
        exact absurd hne nofun
      have moved := (Frame.resumed (Or.inr ⟨_, hg⟩) he).uses h0 (n := h) (by omega)
      rw [World.shared_update]
      omega
    | @answer i r f f' below q c' _ hst hne he =>
      have total := World.total_replace (Frame.uses h) hst c' f'
      have one := World.le_total (Frame.uses h) (World.mem_frames_of_stack hst)
      have moved := (Frame.resumed (Or.inl ⟨q, hne⟩) he).uses h0 (n := h) (by omega)
      rw [World.shared_update]
      omega
    | @expire i f below t hst ht =>
      obtain ⟨parked, level⟩ := Frame.exists_level_expire ht 0
      have same : (program.expire w.shared f).handle 0 h = w.shared.handle 0 h :=
        handle_of_eq (by rw [level]) h
      show w.total _ = if ((program.expire w.shared f).handle 0 h).inUse then 1 else 0
      rw [same]
      exact ih
    | @collect i f below r hst hne =>
      have popped := World.total_pop (Frame.uses h) hst w.shared
      have none : f.uses h = 0 := by
        refine Frame.uses_of_ne ?_ h
        rintro n body rfl
        exact absurd hne nofun
      rw [none] at popped
      exact popped.trans ih

/-- For whom a frame is there for the end of handle `h` of level `k`. -/
inductive Claimed (h : Nat) : Nat → Frame → List Frame → Prop
  | user (j h' : Nat) (below : List Frame) : Claimed h 0 (.within h (.giveBack j h')) below
  | closing (j : Nat) (below : List Frame) : Claimed h (j + 1) (.closing j h) below
  | userDrops (j h' : Nat) (f : Frame) (rest : List Frame) :
      Claimed h 0 f (.within h (.dropHandle j h') :: rest)
  | pool {j : Nat} {x : Pool.Call Nat} (f : Frame) (rest : List Frame)
      (hx : x.asks = some (.evict h) ∨ x.asks = some (.drop h)) :
      Claimed h (j + 1) f (.pool j x :: rest)

theorem Task.On.drop {d : Nat} (hon : (Task.drop k h).On d below) : Claimed h k f below := by
  cases below with
  | nil => exact hon.elim
  | cons g rest =>
    cases g with
    | within h' body =>
      obtain ⟨rfl, rfl, rfl⟩ := hon
      exact .userDrops 0 _ f rest
    | pool j x =>
      obtain ⟨rfl, hx⟩ := hon
      exact .pool f rest (Or.inr hx)
    | _ => exact hon.elim

theorem Task.On.drops {d : Nat} (hon : (Task.drop k h).On d below) :
    ∃ g rest, below = g :: rest ∧ g.drops k h ≠ 0 := by
  cases below with
  | nil => exact hon.elim
  | cons g rest =>
    refine ⟨g, rest, rfl, ?_⟩
    cases g with
    | within h' body =>
      obtain ⟨rfl, rfl, rfl⟩ := hon
      simp [Frame.drops]
    | pool j x =>
      obtain ⟨rfl, hx⟩ := hon
      simp [Frame.drops, hx]
    | _ => exact hon.elim

theorem Stands.dropHandle {d : Nat} (hs : Stands d (.dropHandle k h) below) :
    (Task.drop k h).On d below := by
  obtain ⟨t, ht, hon⟩ := hs
  cases t with
  | user op => cases op <;> exact ht.elim
  | drop j h' =>
    obtain ⟨rfl, rfl⟩ := ht
    exact hon
  | _ => exact ht.elim

theorem Task.On.retire {d : Nat} (hon : (Task.retire k h).On d below) : Claimed h k f below := by
  cases below with
  | nil => exact hon.elim
  | cons g rest =>
    cases g with
    | pool j x =>
      obtain ⟨rfl, hx⟩ := hon
      exact .pool f rest (Or.inl hx)
    | _ => exact hon.elim

/-- Whoever is there for the end of a handle is so for its user, or for the pool above. -/
theorem Stands.claimed {d : Nat} (hs : Stands d f below) (hc : f.claims k h below ≠ 0) :
    Claimed h k f below := by
  have met : ∀ {p : Prop} [Decidable p], (if p then 1 else 0 : Nat) ≠ 0 → p := by
    intro p _ hp
    by_contra hn
    exact hp (if_neg hn)
  rcases met hc with hc | hc
  · obtain ⟨t, ht, hon⟩ := hs
    cases f with
    | within h' body =>
      cases body with
      | giveBack j h'' =>
        obtain ⟨rfl, rfl⟩ := met hc
        exact .user j h'' below
      | _ => exact absurd rfl hc
    | closing j s =>
      obtain ⟨rfl, rfl⟩ := met hc
      exact .closing j below
    | releasing j h' =>
      obtain ⟨rfl, rfl⟩ := met hc
      cases t with
      | user op => cases op <;> exact ht.elim
      | drop k h =>
        obtain ⟨rfl, rfl⟩ := ht
        exact Task.On.drop hon
      | _ => exact ht.elim
    | retire j h' =>
      obtain ⟨rfl, rfl⟩ := met hc
      cases t with
      | user op => cases op <;> exact ht.elim
      | retire k h =>
        obtain ⟨rfl, rfl⟩ := ht
        exact Task.On.retire hon
      | _ => exact ht.elim
    | _ => exact absurd rfl hc
  · cases below with
    | nil => exact absurd rfl hc
    | cons g rest =>
      cases g with
      | within h' body =>
        cases body with
        | dropHandle j h'' =>
          obtain ⟨rfl, rfl⟩ := met hc
          exact .userDrops j h'' f rest
        | _ => exact absurd rfl hc
      | pool j x =>
        obtain ⟨rfl, hx⟩ := met hc
        exact .pool f rest (Or.inr hx)
      | _ => exact absurd rfl hc

theorem Frame.claims_le_one (f : Frame) (below : List Frame) : f.claims k h below ≤ 1 := by
  unfold claims
  split <;> omega

/-- Who is there for the end of a handle is charged to its user's operation, or to who has it at
the level above. -/
theorem charged_of_claimed {υ : Frame → Nat} {f : Frame} {below : List Frame}
    (hc : f.claims k h below ≠ 0 → Claimed h k f below)
    (user : k = 0 → ∀ j h', 1 ≤ υ (.within h (.giveBack j h')) ∧
      1 ≤ υ (.within h (.dropHandle j h')))
    (closing : ∀ j, k = j + 1 → 1 ≤ υ (.closing j h))
    (pool : ∀ j x, k = j + 1 → x.asks = some (.evict h) ∨ x.asks = some (.drop h) →
      1 ≤ υ (.pool j x)) :
    f.claims k h below ≤ (if f.calls k h ≠ 0 then υ f else 0) +
      (below.head?.map fun g => if g.calls k h ≠ 0 then 0 else υ g).getD 0 := by
  by_cases hf : f.claims k h below = 0
  · omega
  have one := f.claims_le_one (k := k) (h := h) below
  cases hc hf with
  | user j h' =>
    have := (user rfl j h').1
    rw [if_pos (by simp [Frame.calls])]
    omega
  | closing j =>
    have := closing j rfl
    rw [if_pos (by simp [Frame.calls])]
    omega
  | userDrops j h' f rest =>
    have := (user rfl j h').2
    have none : (Frame.within h (.dropHandle j h')).calls 0 h = 0 := rfl
    simp only [List.head?_cons, Option.map_some, Option.getD_some, none, ne_eq, not_true, if_false]
    omega
  | @pool j x f rest hx =>
    have := pool j x rfl hx
    have none : (Frame.pool j x).calls (j + 1) h = 0 := rfl
    simp only [List.head?_cons, Option.map_some, Option.getD_some, none, ne_eq, not_true, if_false]
    omega

/-- **At most one is there for the end of a handle**, and the handle has been lent. -/
theorem claims_le_one (hk : k < limits.length)
    (hw : program.Reach (World.init (.ofLimits limits shared)) w) (h : Nat) :
    w.weigh (Frame.claims k h) ≤ 1 ∧
      (0 < w.weigh (Frame.claims k h) → h < (w.shared.level k).handles.length) := by
  have stands := (stands_of_reach hw).2
  cases k with
  | zero =>
    have charged : w.weigh (Frame.claims 0 h) ≤ w.total (Frame.uses h) := by
      refine World.weigh_le_of_charged _ (p := fun f : Frame => f.calls 0 h ≠ 0) fun i => ?_
      refine (stands i).imp fun f below _ hs => charged_of_claimed hs.claimed ?_ nofun nofun
      intro _ j h'
      simp [Frame.uses]
    have one := total_uses hk hw h
    refine ⟨?_, fun pos => ?_⟩
    · split at one <;> omega
    · have busy : (w.shared.handle 0 h).inUse = true := by
        by_contra hb
        rw [if_neg hb] at one
        omega
      exact lt_length_of_inUse busy
  | succ j =>
    have charged : w.weigh (Frame.claims (j + 1) h) ≤ w.total (Frame.has j h) := by
      refine World.weigh_le_of_charged _ (p := fun f : Frame => f.calls (j + 1) h ≠ 0) fun i => ?_
      refine (stands i).imp fun f below _ hs => charged_of_claimed hs.claimed nofun ?_ ?_
      · rintro j' hj
        obtain rfl : j = j' := Nat.succ.inj hj
        simp [Frame.has]
      · rintro j' x hj hx
        obtain rfl : j = j' := Nat.succ.inj hj
        rw [Frame.has_pool]
        exact List.count_pos_iff.mpr (Pool.Call.mem_owns_of_asks hx)
    have one := custody_le_one (by omega) hw h
    have held : w.total (Frame.has j h) ≤ custody j h w := by
      unfold custody keeping
      omega
    exact ⟨by omega, fun pos => one.2 (by omega)⟩

/-- Who is there for the end of a handle finds it lent. -/
theorem lt_length_of_claims (hk : k < w.shared.depth)
    (hw : program.Reach (World.init (.ofLimits limits shared)) w) (hs : f :: below <:+ w.stack i)
    (hc : f.claims k h below ≠ 0) : h < (w.shared.level k).handles.length := by
  have depth := depth_of_reach hw
  have one := World.le_weigh (Frame.claims k h) hs
  exact (claims_le_one (depth ▸ hk) hw h).2 (by omega)

/-! ## What a give-back leaves behind -/

/-- Handle `h` of level `k` has been lent, and given back. -/
structure HandleReturned (c : Cache) (k h : Nat) : Prop where
  lent   : h < (c.level k).handles.length
  target : (c.handle k h).target = none

theorem HandleReturned.of_aged {c c' : Cache} (hr : HandleReturned c k h) (ha : Aged k c c') :
    HandleReturned c' k h where
  lent := Nat.lt_of_lt_of_le hr.lent ha.length
  target := by
    rcases (ha.ages h hr.lent).target with same | none
    · exact same.trans hr.target
    · exact none

/-- What is on behalf of a give-back has begun with it, and a handle is let go only then. -/
structure GiveBackBegun (c : Cache) (f : Frame) (below : List Frame) : Prop where
  called : ∀ {k h g rest}, k < c.depth → below = g :: rest → g.calls k h ≠ 0 →
    f = .giveBack k h ∨ HandleReturned c k h
  letGo  : ∀ {k h fault}, k < c.depth → f = .letGo k h fault → HandleReturned c k h
  dropped : ∀ {k h}, k < c.depth → (Task.drop k h).On c.depth below →
    (f = .dropHandle k h ∨ f = .releasing k h ∨ ∃ fault, f = .letGo k h fault) ∨
      HandleReturned c k h

/-- A frame for which a handle is to be given back needs just that. -/
theorem Frame.eq_giveBack_of_calls {c : Cache} {f g : Frame} (hk : k < c.depth)
    (hf : Frame.Started f) (hc : f.calls k h ≠ 0) (hn : f.need c = .sub g) : g = .giveBack k h := by
  have met : ∀ {p : Prop} [Decidable p], (if p then 1 else 0 : Nat) ≠ 0 → p := by
    intro p _ hp
    by_contra hn
    exact hp (if_neg hn)
  cases Frame.needs hf hn with
  | within ho =>
    cases ho with
    | close h' =>
      obtain ⟨rfl, rfl⟩ := met hc
      rfl
    | _ => exact absurd rfl hc
  | closing j s =>
    obtain ⟨rfl, rfl⟩ := met hc
    rfl
  | retire | releasing =>
    obtain ⟨rfl, rfl⟩ := met hc
    rfl
  | _ => exact absurd rfl hc

theorem Frame.ne_ask_of_calls {c : Cache} {f : Frame} (hk : k < c.depth) (hc : f.calls k h ≠ 0)
    (q : Query) : f.need c ≠ .ask q := by
  cases f with
  | closing j s =>
    have : k = j + 1 := by
      by_contra hne
      exact hc (if_neg fun h => hne h.1)
    have inner : c.innermost j = false := innermost_eq_false.mpr (by omega)
    simp [Frame.need, inner]
  | within | retire | releasing => simp [Frame.need]
  | _ => exact absurd rfl hc

/-- A frame for which a handle is to be dropped needs just that. -/
theorem Task.On.eq_dropHandle {c : Cache} {f g : Frame} {below : List Frame}
    (hon : (Task.drop k h).On c.depth (f :: below)) (hf : Frame.Started f)
    (hn : f.need c = .sub g) : g = .dropHandle k h := by
  cases Frame.needs hf hn with
  | within ho =>
    obtain ⟨rfl, rfl, rfl⟩ := hon
    rfl
  | make hx | judge hx | evict hx | letGo hx =>
    obtain ⟨rfl, ha⟩ := hon
    have := ha.symm.trans (Pool.Call.asks_of_need hx)
    cases this
    try rfl
  | _ => exact hon.elim

theorem Task.On.ne_ask {c : Cache} {f : Frame} {below : List Frame} (hk : k < c.depth)
    (hon : (Task.drop k h).On c.depth (f :: below)) (q : Query) : f.need c ≠ .ask q := by
  cases f with
  | within => exact nofun
  | pool j x =>
    obtain ⟨rfl, ha⟩ := hon
    have inner : c.innermost j = false := innermost_eq_false.mpr (by omega)
    intro hq
    simp only [Frame.need] at hq
    cases hx : x.need (c.level j).pool with
    | ask q' =>
      cases ha.symm.trans (Pool.Call.asks_of_need hx)
      simp [hx, Frame.ofQuery, inner] at hq
    | step | sub | wait | «over» => rw [hx] at hq; cases hq
  | _ => exact hon.elim

theorem Frame.Steps.of_dropHandle {m : Moment} {c c' : Cache} {f' : Frame}
    (hs : Frame.Steps m c (.dropHandle k h) c' f') :
    f' = .releasing k h ∨ f' = .letGo k h none := by
  cases hs
  split
  · exact Or.inl rfl
  · exact Or.inr rfl

theorem Frame.Resumed.of_releasing {c c' : Cache} {r : Reply} {f' : Frame}
    (hr : Frame.Resumed c (.releasing k h) r c' f') : f' = .letGo k h r.fault := by
  cases hr with
  | released => rfl
  | resetRaised hf => exact absurd hf nofun

theorem Frame.Steps.dropHandle_of_letGo {m : Moment} {c c' : Cache} {f : Frame}
    {fault : Option String} (hs : Frame.Steps m c f c' (.letGo k h fault)) :
    f = .dropHandle k h ∧ (c.handle k h).target = none ∧ c' = c := by
  generalize hg : (Frame.letGo k h fault : Frame) = g at hs
  cases hs with
  | dropHandle j h' =>
    by_cases ht : (c.handle j h').target.isSome = true
    · rw [if_pos ht] at hg
      cases hg
    · rw [if_neg ht] at hg
      cases hg
      exact ⟨rfl, by simpa using ht, rfl⟩
  | letGo | factoryGone =>
    unfold Frame.releaseLevel at hg
    dsimp only at hg
    split at hg <;> cases hg
  | onFactory ho => cases ho <;> cases hg
  | probe | forward | poolGone | reset => split at hg <;> cases hg
  | unavailable | onHandle | leave | last | markDirty | pool | letGoRemote | borrow
  | probeReleased | forwardReleased | alreadyReleased | close | putBack => cases hg

theorem Frame.Resumed.releasing_of_letGo {c c' : Cache} {f : Frame} {r : Reply}
    {fault : Option String} (hr : Frame.Resumed c f r c' (.letGo k h fault)) :
    f = .releasing k h ∧ c' = c := by
  generalize hg : (Frame.letGo k h fault : Frame) = g at hr
  cases hr with
  | released =>
    cases hg
    exact ⟨rfl, rfl⟩
  | poolWent | factoryWent =>
    unfold Frame.afterLast at hg
    split at hg
    · dsimp only at hg
      split at hg <;> cases hg
    · cases hg
  | within | pool | lent | notLent | remote | closeRaised | closed | retired
  | poolEmptied | factoryEmptied | resetRaised | foundShared | notShared | sharedReset | advanced
  | readAgain | swept => cases hg

section

variable {m : Move Op Reply} {notices : List Notice} {f' : Frame}

/-- No move undoes a give-back. -/
theorem GiveBackBegun.of_apply (ha : program.apply w m = some (w', notices))
    (hf : GiveBackBegun w.shared f below) : GiveBackBegun w'.shared f below := by
  have depth := depth_of_apply ha
  refine ⟨fun hk hb hc => ?_, fun hk hl => ?_, fun hk hon => ?_⟩
  · exact (hf.called (depth ▸ hk) hb hc).imp_right fun hr =>
      hr.of_aged (aged_of_apply (depth ▸ hk) ha)
  · exact (hf.letGo (depth ▸ hk) hl).of_aged (aged_of_apply (depth ▸ hk) ha)
  · exact (hf.dropped (depth ▸ hk) (depth ▸ hon)).imp_right fun hr =>
      hr.of_aged (aged_of_apply (depth ▸ hk) ha)

/-- A step of the frame that is waited for gives the handle back, or finds it given back. -/
theorem GiveBackBegun.step {moment : Moment}
    (hw : program.Reach (World.init (.ofLimits limits shared)) w)
    (ha : program.apply w m = some (w', notices)) (hst : w.stack i = f :: below)
    (hn : f.need w.shared = .step) (steps : Frame.Steps moment w.shared f w'.shared f')
    (hf : GiveBackBegun w.shared f below) : GiveBackBegun w'.shared f' below := by
  have depth := depth_of_apply ha
  refine ⟨fun {k h g rest} hk hb hc => Or.inr ?_, fun {k h fault} hk hl => ?_,
    fun {k h} hk hon => ?_⟩
  · have hk := depth ▸ hk
    have aged := aged_of_apply hk ha
    rcases hf.called hk hb hc with rfl | hr
    · have place : g :: rest <:+ w.stack i := by
        rw [hst, hb]
        exact List.suffix_cons _ _
      have lent := lt_length_of_claims hk hw place
        (by rw [Frame.claims_of_calls hc]; exact Nat.one_ne_zero)
      exact ⟨Nat.lt_of_lt_of_le lent aged.length, ((steps.handles hk).target h).1 rfl⟩
    · exact hr.of_aged aged
  · subst hl
    obtain ⟨rfl, ht, same⟩ := steps.dropHandle_of_letGo
    rw [same] at hk ⊢
    have top := (stands_of_reach hw).2 i
    rw [hst] at top
    obtain ⟨g, rest, rfl, hg⟩ := top.1.dropHandle.drops
    have place : .dropHandle k h :: g :: rest <:+ w.stack i := by
      rw [hst]
    refine ⟨lt_length_of_claims hk hw place ?_, ht⟩
    rw [Frame.claims_of_drops hg]
    exact Nat.one_ne_zero
  · have hk := depth ▸ hk
    rcases hf.dropped hk (depth ▸ hon) with (rfl | rfl | ⟨fault, rfl⟩) | hr
    · exact Or.inl (Or.inr (steps.of_dropHandle.imp_right fun h => ⟨_, h⟩))
    · cases hn
    · exact Or.inr ((hf.letGo hk rfl).of_aged (aged_of_apply hk ha))
    · exact Or.inr (hr.of_aged (aged_of_apply hk ha))

end

/-- **Who waits for a give-back waits until the handle has been given back.** -/
theorem givenBack_of_reach
    (hw : program.Reach (World.init (.ofLimits limits shared)) w) :
    ∀ i, Stacked (GiveBackBegun w.shared) (w.stack i) := by
  induction hw with
  | refl => exact fun i => by simp [World.stack, World.init]
  | @move w w' m notices hw ha ih =>
    have depth' := depth_of_apply ha
    have started := Frame.started_of_reach hw
    refine Program.stacked_of_effect (Program.effect_of_apply ha) ih ?_ ?_ ?_ ?_ ?_ ?_
    · exact fun i f below _ hf => hf.of_apply ha
    · rintro i op hs
      refine ⟨fun {k h g rest} hk hb hc => ?_, fun hk hl => (by cases hl), fun hk hon => ?_⟩
      · rcases hs with hs | ⟨f, below, q, hs, hq⟩
        · rw [hs] at hb
          cases hb
        · rw [hs] at hb
          obtain ⟨rfl, rfl⟩ := List.cons.inj hb
          exact absurd hq (Frame.ne_ask_of_calls (depth' ▸ hk) hc q)
      · rcases hs with hs | ⟨f, below, q, hs, hq⟩
        · rw [hs] at hon
          exact hon.elim
        · rw [hs, depth'] at hon
          exact absurd hq (hon.ne_ask (depth' ▸ hk) q)
    · rintro i moment f below s f' notices - - hst hn he rfl hf
      exact hf.step hw ha hst hn (Frame.steps hn he)
    · rintro i f below g hst hn -
      have started := started f (World.mem_frames_of_stack hst)
      refine ⟨fun hk hb hc => ?_, fun hk hl => ?_, fun hk hon => ?_⟩
      · obtain ⟨rfl, rfl⟩ := List.cons.inj hb
        exact Or.inl (Frame.eq_giveBack_of_calls (depth' ▸ hk) started hc hn)
      · subst hl
        cases Frame.needs started hn with
        | within ho => cases ho
      · rw [depth'] at hon
        exact Or.inl (Or.inl (hon.eq_dropHandle started hn))
    · rintro i moment f g h rest r s g' notices - - hst hn hg he rfl hf hg'
      have resumed := Frame.resumed (Or.inr ⟨h, hg⟩) he
      refine ⟨fun hk hb hc => Or.inr ?_, fun {k n fault} hk hl => ?_, fun hk hon => ?_⟩
      · have hk := depth' ▸ hk
        rcases hg'.called hk hb hc with rfl | hr
        · cases hg
        · exact hr.of_aged (aged_of_apply hk ha)
      · subst hl
        obtain ⟨rfl, same⟩ := resumed.releasing_of_letGo
        rw [same] at hk ⊢
        rcases hf.called (h := n) hk rfl (by simp [Frame.calls]) with rfl | hr
        · cases hn
        · exact hr
      · have hk := depth' ▸ hk
        rcases hg'.dropped hk (depth' ▸ hon) with (rfl | rfl | ⟨fault, rfl⟩) | hr
        · cases hg
        · exact Or.inl (Or.inr (Or.inr ⟨_, resumed.of_releasing⟩))
        · cases hg
        · exact Or.inr (hr.of_aged (aged_of_apply hk ha))
    · rintro i f below q r s f' notices - - hst hn he rfl hf
      have resumed := Frame.resumed (Or.inl ⟨q, hn⟩) he
      refine ⟨fun hk hb hc => Or.inr ?_, fun hk hl => ?_, fun hk hon => Or.inr ?_⟩
      · have hk := depth' ▸ hk
        rcases hf.called hk hb hc with rfl | hr
        · cases hn
        · exact hr.of_aged (aged_of_apply hk ha)
      · subst hl
        obtain ⟨rfl, -⟩ := resumed.releasing_of_letGo
        cases hn
      · have hk := depth' ▸ hk
        rcases hf.dropped hk (depth' ▸ hon) with (rfl | rfl | ⟨fault, rfl⟩) | hr
        · cases hn
        · cases hn
        · cases hn
        · exact hr.of_aged (aged_of_apply hk ha)

theorem Frame.calls_of_need {c : Cache} {f : Frame} (hf : Frame.Started f)
    (hn : f.need c = .sub (.giveBack k h)) : f.calls k h ≠ 0 := by
  generalize hg : (Frame.giveBack k h : Frame) = g at hn
  cases Frame.needs hf hn with
  | within ho =>
    cases ho with
    | close h' =>
      cases hg
      simp [calls]
    | _ => cases hg
  | closing | retire | releasing =>
    cases hg
    simp [calls]
  | _ => cases hg

theorem Task.On.of_dropHandle {c : Cache} {f : Frame} (hf : Frame.Started f)
    (hn : f.need c = .sub (.dropHandle k h)) (d : Nat) (below : List Frame) :
    (Task.drop k h).On d (f :: below) := by
  generalize hg : (Frame.dropHandle k h : Frame) = g at hn
  cases Frame.needs hf hn with
  | within ho =>
    cases ho with
    | drop h' =>
      cases hg
      exact ⟨rfl, rfl, rfl⟩
    | _ => cases hg
  | letGo hx =>
    cases hg
    exact ⟨rfl, Pool.Call.asks_of_need hx⟩
  | _ => cases hg

/-- **Who called for the end of a handle and hears of it finds the handle given back.** -/
theorem returned_of_heard {m : Move Op Reply} {notices : List Notice} {r : Reply}
    (hk : k < limits.length) (hw : program.Reach (World.init (.ofLimits limits shared)) w)
    (ha : program.apply w m = some (w', notices)) (hm : program.heard w m = some (f, r))
    (hn : f.need w.shared = .sub (.giveBack k h) ∨ f.need w.shared = .sub (.dropHandle k h)) :
    HandleReturned w.shared k h := by
  have depth := depth_of_reach hw
  have started := Frame.started_of_reach hw f (Program.mem_frames_of_heard hm)
  cases Program.hears_of_apply ha hm with
  | @result i _ _ _ _ rest _ _ hst hne =>
    have given := givenBack_of_reach hw i
    rw [hst] at given
    rcases hn with hn | hn
    · rcases given.1.called (depth ▸ hk) rfl (Frame.calls_of_need started hn) with rfl | hr
      · exact absurd hne nofun
      · exact hr
    · rcases given.1.dropped (depth ▸ hk) (.of_dropHandle started hn _ rest) with
        (rfl | rfl | ⟨fault, rfl⟩) | hr
      · exact absurd hne nofun
      · exact absurd hne nofun
      · exact absurd hne nofun
      · exact hr
  | answer hst hne => rcases hn with hn | hn <;> exact absurd (hne.symm.trans hn) nofun

theorem Frame.HandleStep.gone {c c' : Cache} {f f' : Frame} {n : Nat}
    (hs : Frame.HandleStep k c c' f f') (hn : n < (c'.level k).handles.length)
    (hg : (c'.handle k n).gone = true) :
    n < (c.level k).handles.length ∧
      ((c.handle k n).gone = true ∨ ∃ fault, f = .letGo k n fault) := by
  cases hs with
  | same hh =>
    rw [hh] at hn
    exact ⟨hn, Or.inl (handle_of_eq hh n ▸ hg)⟩
  | entered _ _ _ _ hh | marked _ hh | released _ _ hh =>
    rw [hh, List.length_modify] at hn
    rw [handle_of_modify hh] at hg
    split at hg <;> exact ⟨hn, Or.inl hg⟩
  | @forgotten n' fault hf hh =>
    rw [hh, List.length_modify] at hn
    rw [handle_of_modify hh] at hg
    refine ⟨hn, ?_⟩
    by_cases he : n' = n
    · subst he
      exact Or.inr ⟨fault, hf⟩
    · rw [if_neg fun h => he h.1] at hg
      exact Or.inl hg

theorem Frame.HandleResume.gone {c c' : Cache} {f f' : Frame} {r : Reply} {n : Nat}
    (hr : Frame.HandleResume k c c' f r f') (hn : n < (c'.level k).handles.length)
    (hg : (c'.handle k n).gone = true) :
    n < (c.level k).handles.length ∧ ((c.handle k n).gone = true ∨ f.calls k n ≠ 0) := by
  cases hr with
  | same hh =>
    rw [hh] at hn
    exact ⟨hn, Or.inl (handle_of_eq hh n ▸ hg)⟩
  | left _ _ hh =>
    rw [hh, List.length_modify] at hn
    rw [handle_of_modify hh] at hg
    split at hg <;> exact ⟨hn, Or.inl hg⟩
  | @forgotten n' hf hh =>
    rw [hh, List.length_modify] at hn
    rw [handle_of_modify hh] at hg
    refine ⟨hn, ?_⟩
    by_cases he : n' = n
    · subst he
      refine Or.inr ?_
      rcases hf with rfl | ⟨j, message, rfl, rfl, -⟩ <;> simp [calls]
    · rw [if_neg fun h => he h.1] at hg
      exact Or.inl hg
  | lent _ _ _ hh =>
    by_cases hlt : n < (c.level k).handles.length
    · rw [handle_of_append hh hlt] at hg
      exact ⟨hlt, Or.inl hg⟩
    · rw [hh, List.length_append, List.length_singleton] at hn
      obtain rfl : n = (c.level k).handles.length := by omega
      rw [handle_lent hh] at hg
      exact absurd hg nofun

/-- **A handle that is gone has been given back.** -/
theorem target_of_gone (hk : k < limits.length)
    (hw : program.Reach (World.init (.ofLimits limits shared)) w)
    (hg : (w.shared.handle k h).gone = true) : (w.shared.handle k h).target = none := by
  by_cases hh : h < (w.shared.level k).handles.length
  case neg =>
    unfold handle
    rw [List.getElem?_eq_none (by omega)]
    rfl
  induction hw with
  | refl =>
    have none : ((Cache.ofLimits limits shared).level k).handles = [] := by
      rw [level_ofLimits hk shared]
    refine absurd hh ?_
    show ¬ h < ((Cache.ofLimits limits shared).level k).handles.length
    rw [none]
    exact Nat.not_lt_zero h
  | @move w w' m notices hw ha ih =>
    have depth := depth_of_reach hw
    have stays : HandleReturned w.shared k h → (w'.shared.handle k h).target = none := fun hr =>
      (hr.of_aged (aged_of_apply (depth ▸ hk) ha)).target
    cases Program.effect_of_apply ha with
    | spawn | enter | descend | collect => exact ih hg hh
    | @step i _ f f' below _ _ hst hn he =>
      rcases ((Frame.steps hn he).handles (depth ▸ hk)).gone hh hg with ⟨lt, old | ⟨fault, rfl⟩⟩
      · exact stays ⟨lt, ih old lt⟩
      · have given := givenBack_of_reach hw i
        rw [hst] at given
        exact stays (given.1.letGo (depth ▸ hk) rfl)
    | @ascend i _ f g g' _ rest r _ _ hst hn hs he =>
      have resumed := Frame.resumed (Or.inr ⟨_, hs⟩) he
      rcases (resumed.handles (depth ▸ hk)).gone hh hg with ⟨lt, old | calls⟩
      · exact stays ⟨lt, ih old lt⟩
      · have given := givenBack_of_reach hw i
        rw [hst] at given
        rcases given.1.called (depth ▸ hk) rfl calls with rfl | hr
        · exact absurd hn nofun
        · exact stays hr
    | @answer i r f f' below q _ _ hst hn he =>
      have resumed := Frame.resumed (Or.inl ⟨q, hn⟩) he
      rcases (resumed.handles (depth ▸ hk)).gone hh hg with ⟨lt, old | calls⟩
      · exact stays ⟨lt, ih old lt⟩
      · exact absurd hn (Frame.ne_ask_of_calls (depth ▸ hk) calls q)
    | @expire i f below t hst ht =>
      obtain ⟨parked, level⟩ := Frame.exists_level_expire ht k
      rw [level] at hh
      have same : (program.expire w.shared f).handle k h = w.shared.handle k h :=
        handle_of_eq (by rw [level]) h
      exact same ▸ ih (same ▸ hg) hh

end

end Lending.Cache
