import Lending.Proofs.Cache.Level

/-!
# What becomes of a handle

A handle is lent once, and from then on only ages: its epoch never changes, its session is given
back once, and what is dirty or gone stays so.

* `HandleStep`, `HandleResume`: what a transition does to the handles of a level (`Steps.handles`,
  `Resumed.handles`).
* `Handle.Ages`, `Aged`: what this makes of each handle, along every run (`aged_of_apply`).
* `lentBy`: the session that a level lends by a move, as a new handle (`lentBy_of_apply`).

A level's handles are numbered in the order in which they are lent, and none is ever taken off the
list. So a number means the same handle from then on, and at the levels below the outermost one it
is the number of a session of the level above.
-/

namespace Lending

/-- What time does to a handle. -/
structure Handle.Ages (x y : Handle) : Prop where
  epoch  : y.epoch = x.epoch
  target : y.target = x.target ∨ y.target = Option.none
  dirty  : x.dirty = true → y.dirty = true
  gone   : x.gone = true → y.gone = true

theorem Handle.Ages.refl (x : Handle) : x.Ages x := ⟨rfl, Or.inl rfl, id, id⟩

namespace Cache

/-! ## Changes of the handles -/

section

variable {c c' : Cache} {k h : Nat}

theorem handle_of_eq (hh : (c'.level k).handles = (c.level k).handles) (n : Nat) :
    c'.handle k n = c.handle k n := by
  unfold handle
  rw [hh]

theorem handle_of_modify {f : Handle → Handle}
    (hh : (c'.level k).handles = (c.level k).handles.modify h f) (n : Nat) :
    c'.handle k n =
      if h = n ∧ n < (c.level k).handles.length then f (c.handle k n) else c.handle k n := by
  unfold handle
  rw [hh, List.getElem?_modify]
  by_cases hn : n < (c.level k).handles.length
  · by_cases he : h = n
    · simp [hn, he]
    · simp [hn, he]
  · simp [hn]

theorem handle_of_append {x : Handle}
    (hh : (c'.level k).handles = (c.level k).handles ++ [x]) {n : Nat}
    (hn : n < (c.level k).handles.length) : c'.handle k n = c.handle k n := by
  unfold handle
  rw [hh, List.getElem?_append_left hn]

theorem handle_lent {x : Handle} (hh : (c'.level k).handles = (c.level k).handles ++ [x]) :
    c'.handle k (c.level k).handles.length = x := by
  unfold handle
  rw [hh]
  simp

theorem lt_length_of_target {s : Nat} (ht : (c.handle k h).target = some s) :
    h < (c.level k).handles.length := by
  unfold handle at ht
  by_contra hh
  rw [List.getElem?_eq_none (by omega)] at ht
  exact absurd ht nofun

theorem lt_length_of_inUse (hu : (c.handle k h).inUse = true) :
    h < (c.level k).handles.length := by
  unfold handle at hu
  by_contra hh
  rw [List.getElem?_eq_none (by omega)] at hu
  exact absurd hu nofun

/-- The handles of a level only age, and more may be lent. -/
structure Aged (k : Nat) (c c' : Cache) : Prop where
  length : (c.level k).handles.length ≤ (c'.level k).handles.length
  ages   : ∀ n < (c.level k).handles.length, (c.handle k n).Ages (c'.handle k n)

theorem aged_of_eq (hh : (c'.level k).handles = (c.level k).handles) : Aged k c c' where
  length := Nat.le_of_eq (congrArg List.length hh).symm
  ages := fun n _ => by
    rw [handle_of_eq hh]
    exact .refl _

theorem aged_of_modify {f : Handle → Handle}
    (hh : (c'.level k).handles = (c.level k).handles.modify h f) (hf : ∀ x, Handle.Ages x (f x)) :
    Aged k c c' where
  length := by rw [hh, List.length_modify]
  ages := fun n _ => by
    rw [handle_of_modify hh]
    split
    · exact hf _
    · exact .refl _

end

namespace Frame

/-! ## What a transition does to the handles -/

section

variable (k : Nat) (c c' : Cache)

/-- What a step does to the handles of level `k`. -/
inductive HandleStep (f f' : Frame) : Prop
  | same (hh : (c'.level k).handles = (c.level k).handles)
      (released : ∀ h, f = .giveBack k h → (c.handle k h).target = none)
      (stays : ∀ h fault, f ≠ .letGo k h fault)
  /-- An operation of its user begins. -/
  | entered {h : Nat} {op : Op} {body : Frame} (hf : f = .call op) (hk : k = 0)
      (hf' : f' = .within h body)
      (hg : (c.handle k h).gone = false)
      (hh : (c'.level k).handles = (c.level k).handles.modify h fun x => { x with inUse := true })
  | marked {h : Nat} (hf : f = .call (.markDirty h k))
      (hh : (c'.level k).handles = (c.level k).handles.modify h fun x => { x with dirty := true })
  | released {h s : Nat} (hf : f = .giveBack k h) (ht : (c.handle k h).target = some s)
      (hh : (c'.level k).handles = (c.level k).handles.modify h fun x => { x with target := none })
  | forgotten {h : Nat} {fault : Option String} (hf : f = .letGo k h fault)
      (hh : (c'.level k).handles = (c.level k).handles.modify h fun x => { x with gone := true })

/-- What a result or an answer does to the handles of level `k`. -/
inductive HandleResume (f : Frame) (r : Reply) (f' : Frame) : Prop
  | same (hh : (c'.level k).handles = (c.level k).handles)
      (notLent : ∀ epoch s, f = .borrowing k epoch → r ≠ .got s)
  /-- An operation of its user ends. -/
  | left {h : Nat} {body : Frame} (hk : k = 0) (hf : f = .within h body)
      (hh : (c'.level k).handles = (c.level k).handles.modify h fun x => { x with inUse := false })
  | forgotten {h : Nat}
      (hf : f = .retire k h ∨ ∃ j message, k = j + 1 ∧ f = .closing j h ∧ r = .raised message)
      (hh : (c'.level k).handles = (c.level k).handles.modify h fun x => { x with gone := true })
  | lent {epoch s : Nat} (hf : f = .borrowing k epoch) (hr : r = .got s)
      (hf' : f' = .over (.got (c.level k).handles.length))
      (hh : (c'.level k).handles = (c.level k).handles ++ [{ target := some s, epoch }])

end

section

variable {k : Nat} {m : Moment} {c c' : Cache} {f f' : Frame} {r : Reply}

theorem handles_modifyHandle (hk : k < c.depth) (h : Nat) (g : Handle → Handle) :
    ((c.modifyHandle k h g).level k).handles = (c.level k).handles.modify h g := by
  unfold modifyHandle
  rw [level_modify, if_pos ⟨rfl, hk⟩]

theorem handles_modifyHandle_ne {j : Nat} (hj : j ≠ k) (h : Nat) (g : Handle → Handle) :
    ((c.modifyHandle j h g).level k).handles = (c.level k).handles := by
  unfold modifyHandle
  rw [level_modify, if_neg fun h => hj h.1]

theorem handles_modify {g : Level → Level} (hg : ∀ l, (g l).handles = l.handles) (j : Nat) :
    ((c.modify j g).level k).handles = (c.level k).handles :=
  level_modify_of (g := Level.handles) c hg j k

theorem handles_releaseLevel (j : Nat) (fault : Option String) :
    ((releaseLevel c j fault).1.level k).handles = (c.level k).handles := by
  refine handles_modify ?_ j
  exact fun _ => rfl

/-- **What a step does to the handles of a level.** -/
theorem Steps.handles (h : Steps m c f c' f') (hk : k < c.depth) : HandleStep k c c' f f' := by
  cases h with
  | @onHandle op h body ho hg hu =>
    by_cases h0 : k = 0
    · subst h0
      exact .entered rfl rfl rfl hg (handles_modifyHandle hk ..)
    · exact .same (handles_modifyHandle_ne (Ne.symm h0) ..) nofun nofun
  | markDirty h j =>
    by_cases hj : j = k
    · subst hj
      exact .marked rfl (handles_modifyHandle hk ..)
    · exact .same (handles_modifyHandle_ne hj ..) nofun nofun
  | @close j h s ht | @putBack j h s ht =>
    by_cases hj : j = k
    · subst hj
      exact .released rfl ht (handles_modifyHandle hk ..)
    · refine .same (handles_modifyHandle_ne hj ..) (fun h hf => ?_) nofun
      cases hf
      exact absurd rfl hj
  | letGo j h fault =>
    by_cases hj : j = k
    · subst hj
      exact .forgotten rfl ((handles_releaseLevel ..).trans (handles_modifyHandle hk ..))
    · refine .same ((handles_releaseLevel ..).trans (handles_modifyHandle_ne hj ..)) nofun ?_
      intro h fault hf
      cases hf
      exact hj rfl
  | alreadyReleased ht =>
    refine .same rfl (fun h hf => ?_) nofun
    cases hf
    exact ht
  | factoryGone j fault =>
    refine .same ((handles_releaseLevel ..).trans (handles_modify ?_ j)) nofun nofun
    exact fun _ => rfl
  | pool | letGoRemote | reset =>
    refine .same (handles_modify ?_ _) nofun nofun
    exact fun _ => rfl
  | unavailable | onFactory | leave | last | borrow | probeReleased | probe | forwardReleased
  | forward | dropHandle | poolGone => exact .same rfl nofun nofun

/-- **What a result or an answer does to the handles of a level.** -/
theorem Resumed.handles (h : Resumed c f r c' f') (hk : k < c.depth) :
    HandleResume k c c' f r f' := by
  cases h with
  | within h body r =>
    by_cases h0 : k = 0
    · subst h0
      exact .left rfl rfl (handles_modifyHandle hk ..)
    · exact .same (handles_modifyHandle_ne (Ne.symm h0) ..) nofun
  | retired j h r =>
    by_cases hj : j = k
    · subst hj
      exact .forgotten (Or.inl rfl) (handles_modifyHandle hk ..)
    · exact .same (handles_modifyHandle_ne hj ..) nofun
  | closeRaised j s message =>
    split
    · exact .same rfl nofun
    · by_cases hj : j + 1 = k
      · subst hj
        exact .forgotten (Or.inr ⟨j, message, rfl, rfl, rfl⟩) (handles_modifyHandle hk ..)
      · exact .same (handles_modifyHandle_ne hj ..) nofun
  | lent j epoch s =>
    unfold lend
    by_cases hj : j = k
    · subst hj
      refine .lent rfl rfl rfl ?_
      rw [level_modify, if_pos ⟨rfl, hk⟩]
    · refine .same ?_ ?_
      · rw [level_modify, if_neg fun h => hj h.1]
      · rintro epoch s hf
        cases hf
        exact absurd rfl hj
  | notLent j epoch hr => exact .same rfl fun _ s _ => hr s
  | poolWent | factoryWent =>
    rw [afterLast_fst]
    exact .same rfl nofun
  | pool | advanced | swept =>
    refine .same (handles_modify ?_ _) nofun
    exact fun _ => rfl
  | resetRaised hf =>
    refine .same (handles_modify ?_ _) ?_
    · exact fun _ => rfl
    · cases hf <;> exact nofun
  | remote | closed | released | poolEmptied | factoryEmptied | foundShared | notShared
  | sharedReset | readAgain => exact .same rfl nofun

theorem HandleStep.aged (h : HandleStep k c c' f f') : Aged k c c' := by
  cases h with
  | same hh => exact aged_of_eq hh
  | entered _ _ _ _ hh => exact aged_of_modify hh fun _ => ⟨rfl, Or.inl rfl, id, id⟩
  | marked _ hh => exact aged_of_modify hh fun _ => ⟨rfl, Or.inl rfl, fun _ => rfl, id⟩
  | released _ _ hh => exact aged_of_modify hh fun _ => ⟨rfl, Or.inr rfl, id, id⟩
  | forgotten _ hh => exact aged_of_modify hh fun _ => ⟨rfl, Or.inl rfl, id, fun _ => rfl⟩

theorem HandleResume.aged (h : HandleResume k c c' f r f') : Aged k c c' := by
  cases h with
  | same hh => exact aged_of_eq hh
  | left _ _ hh => exact aged_of_modify hh fun _ => ⟨rfl, Or.inl rfl, id, id⟩
  | forgotten _ hh => exact aged_of_modify hh fun _ => ⟨rfl, Or.inl rfl, id, fun _ => rfl⟩
  | lent _ _ _ hh =>
    refine ⟨?_, fun n hn => ?_⟩
    · rw [hh, List.length_append]
      exact Nat.le_add_right ..
    · rw [handle_of_append hh hn]
      exact .refl _

/-- **A handle loses its session by a give-back of its own**, and in the first step of it. -/
theorem HandleStep.target (h : HandleStep k c c' f f') (n : Nat) :
    (f = .giveBack k n → (c'.handle k n).target = none) ∧
    (f ≠ .giveBack k n → (c'.handle k n).target = (c.handle k n).target) := by
  cases h with
  | same hh released =>
    rw [handle_of_eq hh]
    exact ⟨released n, fun _ => rfl⟩
  | entered hf _ _ _ hh | marked hf hh | forgotten hf hh =>
    rw [handle_of_modify hh]
    refine ⟨fun hf' => ?_, fun _ => ?_⟩
    · rw [hf] at hf'
      cases hf'
    · split <;> rfl
  | @released h s hf ht hh =>
    rw [handle_of_modify hh]
    by_cases hn : h = n
    · subst hn
      rw [if_pos ⟨rfl, lt_length_of_target ht⟩]
      exact ⟨fun _ => rfl, fun hne => absurd hf hne⟩
    · rw [if_neg fun h => hn h.1]
      refine ⟨fun hf' => ?_, fun _ => rfl⟩
      rw [hf] at hf'
      cases hf'
      exact absurd rfl hn

theorem HandleResume.target (h : HandleResume k c c' f r f') {n : Nat}
    (hn : n < (c.level k).handles.length) : (c'.handle k n).target = (c.handle k n).target := by
  cases h with
  | same hh => rw [handle_of_eq hh]
  | left _ _ hh | forgotten _ hh =>
    rw [handle_of_modify hh]
    split <;> rfl
  | lent _ _ _ hh => rw [handle_of_append hh hn]

end

end Frame

/-! ## Along a run -/

variable {k : Nat} {c : Cache} {w w' : World Cache Frame}

/-- A move only ages the handles of a level. -/
theorem aged_of_apply {m : Move Op Reply} {notices : List Notice} (hk : k < w.shared.depth)
    (ha : program.apply w m = some (w', notices)) : Aged k w.shared w'.shared := by
  cases Program.effect_of_apply ha with
  | spawn | enter | descend | collect => exact aged_of_eq rfl
  | step hs hn he => exact ((Frame.steps hn he).handles hk).aged
  | ascend hs hn hg he => exact ((Frame.resumed (Or.inr ⟨_, hg⟩) he).handles hk).aged
  | answer hs hn he => exact ((Frame.resumed (Or.inl ⟨_, hn⟩) he).handles hk).aged
  | @expire i f below t hs ht =>
    obtain ⟨parked, level⟩ := Frame.exists_level_expire ht k
    exact aged_of_eq (by rw [level])

/-! ## What a level lends -/

/-- The session that level `k` lends by a move. -/
def lentBy (k : Nat) (w : World Cache Frame) (m : Move Op Reply) : Option Nat :=
  match program.heard w m with
  | some (.borrowing j _, .got s) => if j = k then some s else none
  | _ => none

section

variable {k : Nat} {w w' : World Cache Frame} {m : Move Op Reply} {notices : List Notice}

theorem lentBy_eq_none (h : ∀ e s, program.heard w m ≠ some (.borrowing k e, .got s)) :
    lentBy k w m = none := by
  unfold lentBy
  split
  · rename_i j e s hm
    refine if_neg fun hj => h e s ?_
    rw [← hj]
    exact hm
  · rfl

theorem lentBy_of_heard {e s : Nat} (h : program.heard w m = some (.borrowing k e, .got s)) :
    lentBy k w m = some s := by
  unfold lentBy
  rw [h]
  exact if_pos rfl

theorem Frame.HandleStep.length {c c' : Cache} {f f' : Frame} (h : Frame.HandleStep k c c' f f') :
    (c'.level k).handles.length = (c.level k).handles.length := by
  cases h with
  | same hh => rw [hh]
  | entered _ _ _ _ hh | marked _ hh | released _ _ hh | forgotten _ hh =>
    rw [hh, List.length_modify]

/-- A level lends a session as a new handle, or none. -/
theorem lentBy_of_apply (hk : k < w.shared.depth) (ha : program.apply w m = some (w', notices)) :
    lentBy k w m = none ∧
      (w'.shared.level k).handles.length = (w.shared.level k).handles.length ∨
    ∃ s e, lentBy k w m = some s ∧ program.heard w m = some (.borrowing k e, .got s) ∧
      (w'.shared.level k).handles =
        (w.shared.level k).handles ++ [{ target := some s, epoch := e }] := by
  have resumed : ∀ {f f' : Frame} {r : Reply}, program.heard w m = some (f, r) →
      Frame.HandleResume k w.shared w'.shared f r f' →
      lentBy k w m = none ∧
        (w'.shared.level k).handles.length = (w.shared.level k).handles.length ∨
      ∃ s e, lentBy k w m = some s ∧ program.heard w m = some (.borrowing k e, .got s) ∧
        (w'.shared.level k).handles =
          (w.shared.level k).handles ++ [{ target := some s, epoch := e }] := by
    intro f f' r hm hr
    have none : (∀ e s, f = .borrowing k e → r ≠ .got s) → lentBy k w m = none := by
      refine fun hne => lentBy_eq_none fun e s h => ?_
      rw [hm] at h
      cases h
      exact hne e s rfl rfl
    cases hr with
    | same hh notLent => exact Or.inl ⟨none notLent, by rw [hh]⟩
    | left _ hf hh => exact Or.inl ⟨none (by rw [hf]; exact nofun), by rw [hh, List.length_modify]⟩
    | forgotten hf hh =>
      refine Or.inl ⟨none ?_, by rw [hh, List.length_modify]⟩
      rcases hf with rfl | ⟨j, message, -, rfl, -⟩ <;> exact nofun
    | @lent e s hf hr _ hh =>
      subst hf hr
      exact Or.inr ⟨s, e, lentBy_of_heard hm, hm, hh⟩
  cases Program.effect_of_apply ha with
  | spawn | enter | collect => exact Or.inl ⟨rfl, rfl⟩
  | step hst hne he =>
    refine Or.inl ⟨lentBy_eq_none ?_, ((Frame.steps hne he).handles hk).length⟩
    rw [Program.heard_step hst hne]
    exact nofun
  | descend hst hne =>
    refine Or.inl ⟨lentBy_eq_none ?_, rfl⟩
    rw [Program.heard_descend hst hne]
    exact nofun
  | ascend hst hne hg he =>
    exact resumed (Program.heard_ascend hst hne) ((Frame.resumed (Or.inr ⟨_, hg⟩) he).handles hk)
  | answer hst hne he =>
    exact resumed (Program.heard_answer hst) ((Frame.resumed (Or.inl ⟨_, hne⟩) he).handles hk)
  | @expire i f below t hst ht =>
    obtain ⟨parked, level⟩ := Frame.exists_level_expire ht k
    exact Or.inl ⟨rfl, by rw [level]⟩

end

end Cache

end Lending
