import Lending.Guarded
import Lending.Proofs.Nesting

/-!
# Who has a mutex

What the mutexes of a program come to. A frame has one only while it is in a critical section, and
there nothing runs above it. So of the frames of a thread only the innermost can have a mutex, and
who tries to take one stands on frames that have none.

* `Guarded.Frame.Steps`, `Guarded.Frame.Resumed`: what a frame of a guarded program does.
* `Guarded.taken_perm`: the mutexes that are taken are those that the frames have, and
  `Guarded.taken_nodup`: each has one owner.
* `Guarded.free_of_below`: **a frame that others stand on has no mutex**. `Guarded.taken_of_alone`:
  so where only one thread has anything to do, no mutex is taken but by its innermost frame.
* `Guarded.reach_iff`: the mutexes cost no run and make none. A guarded program and the program
  itself come to the same worlds, but for the mutexes and the looks (`Guarded.forget`).

Guarded like this are a pool, whose shared part has one mutex, and a stack of caches, with one mutex
for each pool; `Lending.Cache.Guarded` adds those by which resets take turns. What is proved here
says that these programs may be reasoned about one critical section at a time.
-/

namespace Lending.Guarded

variable {Shared Inner Op Query Reply Mutex View : Type}
  {P : Program Shared Inner Op Query Reply} {G : Guard Shared Inner Mutex View}

namespace Frame

variable {t : Moment} {s s' : State Shared Mutex} {F F' : Frame Inner Mutex View}
  {n : Need (Frame Inner Mutex View) Query (Guarded.Reply Reply View)}
  {r : Guarded.Reply Reply View} {notices : List Notice}

/-- The operation of the program, if it is none of the looks. -/
def frame? : Frame Inner Mutex View → Option Inner
  | .free f | .inside _ f => some f
  | .look _ | .looking _ _ | .seen _ => none

/-! ## What a frame needs, and hears -/

/-- What a frame needs that neither can take its next step nor waits. -/
inductive Needs (P : Program Shared Inner Op Query Reply) (s : State Shared Mutex) :
    Frame Inner Mutex View →
      Need (Frame Inner Mutex View) Query (Guarded.Reply Reply View) → Prop
  | sub {f g : Inner} (hn : P.need s.shared f = .sub g) : Needs P s (.free f) (.sub (.free g))
  | ask {f : Inner} {q : Query} (hn : P.need s.shared f = .ask q) : Needs P s (.free f) (.ask q)
  | over {f : Inner} {r : Reply} (hn : P.need s.shared f = .over r) :
      Needs P s (.free f) (.over (.reply r))
  /-- A look has ended. -/
  | seen (v : View) : Needs P s (.seen v) (.over (.view v))

/-- How a frame goes on with the result or the answer it needed. -/
inductive Resumed (P : Program Shared Inner Op Query Reply) (s : State Shared Mutex) :
    Frame Inner Mutex View → Guarded.Reply Reply View → State Shared Mutex →
    Frame Inner Mutex View → Prop
  | reply {f f' : Inner} {r : Reply} {shared : Shared} {notices : List Notice}
      (he : P.resume s.shared f r = (shared, f', notices)) :
      Resumed P s (.free f) (.reply r) ⟨shared, s.taken⟩ (.free f')
  /-- Nobody needs what was seen in a look. -/
  | view (f : Inner) (v : View) : Resumed P s (.free f) (.view v) s (.free f)

theorem resumed {f : Inner} (he : resume P s (.free f) r = (s', F', notices)) :
    Resumed P s (.free f) r s' F' := by
  cases r with
  | reply r =>
    rcases hr : P.resume s.shared f r with ⟨shared, f', ns⟩
    simp only [resume, hr, Prod.mk.injEq] at he
    obtain ⟨rfl, rfl, -⟩ := he
    exact .reply hr
  | view v =>
    cases he
    exact .view f v

theorem Resumed.exists_resume (h : Resumed P s F r s' F') :
    ∃ notices, resume P s F r = (s', F', notices) := by
  cases h with
  | reply he => exact ⟨_, by simp only [resume, he]; rfl⟩
  | view f v => exact ⟨[], rfl⟩

/-- Who asks, needs something or has ended has no mutex. -/
theorem Needs.has_eq (h : Needs P s F n) : F.has = [] := by
  cases h <;> rfl

theorem Resumed.has_eq (h : Resumed P s F r s' F') : F'.has = F.has := by
  cases h <;> rfl

theorem Resumed.taken (h : Resumed P s F r s' F') : s'.taken = s.taken := by
  cases h <;> rfl

theorem taken_expire : (expire P s F).taken = s.taken := by
  cases F <;> rfl

/-- Who tries to take a mutex has none. -/
theorem has_of_takes {m : Mutex} (h : F.takes P G s = some m) : F.has = [] := by
  cases F with
  | free | look => rfl
  | inside | looking | seen => cases h

/-! ## What a frame does -/

variable [DecidableEq Mutex]

theorem needs (h : need P G s F = n) (hs : n ≠ .step) (hw : n ≠ .wait) : Needs P s F n := by
  subst h
  cases F with
  | free f =>
    simp only [need] at hs hw ⊢
    cases hn : P.need s.shared f with
    | step =>
      rw [hn] at hs hw
      dsimp only at hs hw
      split at hs
      · rename_i taken
        exact absurd (if_pos taken) hw
      · exact absurd rfl hs
    | sub g => exact .sub hn
    | ask q => exact .ask hn
    | wait =>
      rw [hn] at hw
      exact absurd rfl hw
    | «over» r => exact .over hn
  | look m =>
    simp only [need] at hs hw
    split at hs
    · rename_i taken
      exact absurd (if_pos taken) hw
    · exact absurd rfl hs
  | seen v => exact .seen v
  | inside | looking => exact absurd rfl hs

theorem Needs.need_eq (h : Needs P s F n) : need P G s F = n := by
  cases h with
  | sub hn | ask hn | «over» hn => simp only [need, hn]
  | seen v => rfl

/-- One step of a frame that needs nothing. -/
inductive Steps (P : Program Shared Inner Op Query Reply) (G : Guard Shared Inner Mutex View)
    (t : Moment) (s : State Shared Mutex) :
    Frame Inner Mutex View → State Shared Mutex → Frame Inner Mutex View → Prop
  /-- A step that is no critical section. -/
  | plain {f f' : Inner} {shared : Shared} {notices : List Notice}
      (hn : P.need s.shared f = .step) (hm : G.mutex? f = none)
      (he : P.step t s.shared f = (shared, f', notices)) :
      Steps P G t s (.free f) ⟨shared, s.taken⟩ (.free f')
  | take {f f' : Inner} {m : Mutex} {shared : Shared} {notices : List Notice}
      (hn : P.need s.shared f = .step) (hm : G.mutex? f = some m) (free : m ∉ s.taken)
      (he : P.step t s.shared f = (shared, f', notices)) :
      Steps P G t s (.free f) ⟨shared, m :: s.taken⟩ (.inside m f')
  | giveBack (m : Mutex) (f : Inner) :
      Steps P G t s (.inside m f) ⟨s.shared, s.taken.erase m⟩ (.free f)
  | look {m : Mutex} (free : m ∉ s.taken) :
      Steps P G t s (.look m) ⟨s.shared, m :: s.taken⟩ (.looking m (G.view s.shared m))
  | looked (m : Mutex) (v : View) :
      Steps P G t s (.looking m v) ⟨s.shared, s.taken.erase m⟩ (.seen v)

/-- **What a frame that needs nothing does.** -/
theorem steps (hn : need P G s F = .step) (he : step P G t s F = (s', F', notices)) :
    Steps P G t s F s' F' := by
  cases F with
  | free f =>
    simp only [need] at hn
    cases hf : P.need s.shared f with
    | step =>
      rw [hf] at hn
      dsimp only at hn
      rcases hp : P.step t s.shared f with ⟨shared, f', ns⟩
      cases hm : G.mutex? f with
      | none =>
        simp only [step, hp, hm, Prod.mk.injEq] at he
        obtain ⟨rfl, rfl, -⟩ := he
        exact .plain hf hm hp
      | some m =>
        simp only [step, hp, hm, Prod.mk.injEq] at he
        obtain ⟨rfl, rfl, -⟩ := he
        refine .take hf hm (fun taken => ?_) hp
        rw [if_pos (by simpa [hm] using taken)] at hn
        cases hn
    | sub | ask | wait | «over» => rw [hf] at hn; cases hn
  | inside m f =>
    cases he
    exact .giveBack m f
  | look m =>
    simp only [need] at hn
    split at hn
    · cases hn
    · rename_i free
      cases he
      exact .look free
  | looking m v =>
    cases he
    exact .looked m v
  | seen v => cases hn

theorem Steps.need_eq (h : Steps P G t s F s' F') : need P G s F = .step := by
  cases h with
  | plain hn hm => simp [need, hn, hm]
  | take hn hm free => simp [need, hn, hm, free]
  | look free => exact if_neg free
  | giveBack | looked => rfl

theorem Steps.exists_step (h : Steps P G t s F s' F') :
    ∃ notices, step P G t s F = (s', F', notices) := by
  cases h with
  | plain _ hm he | take _ hm _ he => exact ⟨_, by simp only [step, he, hm]; rfl⟩
  | giveBack | look | looked => exact ⟨[], rfl⟩

/-- **A step takes what its frame has then, and gives back what it had.** -/
theorem Steps.taken (h : Steps P G t s F s' F') (own : F.has ⊆ s.taken) :
    (F.has ++ s'.taken).Perm (F'.has ++ s.taken) := by
  cases h with
  | plain | take | look => exact .refl _
  | giveBack m f | looked m v =>
    exact (List.perm_cons_erase (own (List.mem_singleton_self m))).symm

/-- What is taken was free. -/
theorem Steps.nodup (h : Steps P G t s F s' F') (hd : s.taken.Nodup) : s'.taken.Nodup := by
  cases h with
  | plain => exact hd
  | take _ _ free | look free => exact List.nodup_cons.mpr ⟨free, hd⟩
  | giveBack m f | looked m v => exact hd.erase m

end Frame

/-! ## The mutexes of a run -/

section

variable [DecidableEq Mutex] {s₀ : Shared}
  {w w' : World (State Shared Mutex) (Frame Inner Mutex View)} {i : Nat}
  {F : Frame Inner Mutex View} {below : List (Frame Inner Mutex View)}

/-- **The mutexes that are taken are those that the frames have.** -/
theorem taken_perm (h : (P.guarded G).Reach (World.init ⟨s₀, []⟩) w) :
    (w.gather Frame.has).Perm w.shared.taken := by
  induction h with
  | refl => exact .refl _
  | @move w w' m _ _ ha ih =>
    cases Program.effect_of_apply ha with
    | spawn =>
      rw [World.gather_spawn]
      exact ih
    | @enter i op hi _ =>
      refine (World.gather_push hi _ _).trans ?_
      cases op <;> exact ih
    | @step i t F F' below s _ hs hn he =>
      have own : F.has ⊆ w.shared.taken := fun b hb =>
        ih.subset (World.mem_gather_of_stack hs hb)
      have moved := World.gather_replace (g := Frame.has) hs s F'
      refine (List.perm_append_left_iff F.has).mp ?_
      exact moved.trans ((ih.append_left _).trans ((Frame.steps hn he).taken own).symm)
    | @descend i _ F F' below hs hn =>
      rw [← hs]
      refine (World.gather_push (World.lt_length_of_stack hs) _ _).trans ?_
      cases Frame.needs hn nofun nofun
      exact ih
    | @ascend i _ F F₁ F₁' F₂ rest r s _ hs hn hg he =>
      have second : (w.update i w.shared (F₁ :: rest)).stack i = F₁ :: rest :=
        World.stack_update_self (World.lt_length_of_stack hs) ..
      have popped := World.gather_pop (g := Frame.has) hs w.shared
      have moved := World.gather_replace (g := Frame.has) second s F₁'
      cases Frame.needs hg nofun nofun
      have on := Frame.resumed he
      rw [(Frame.needs hn nofun nofun).has_eq] at popped
      rw [World.update_update, on.has_eq] at moved
      rw [World.shared_update, on.taken]
      exact ((List.perm_append_left_iff _).mp moved).trans (popped.trans ih)
    | @answer i r F F' below q s _ hs hn he =>
      cases Frame.needs hn nofun nofun
      have on := Frame.resumed he
      have moved := World.gather_replace (g := Frame.has) hs s F'
      rw [on.has_eq] at moved
      rw [World.shared_update, on.taken]
      exact ((List.perm_append_left_iff _).mp moved).trans ih
    | expire hs ht =>
      rw [World.gather_shared]
      refine ih.trans ?_
      exact .of_eq Frame.taken_expire.symm
    | collect hs hn =>
      have popped := World.gather_pop (g := Frame.has) hs w.shared
      rw [(Frame.needs hn nofun nofun).has_eq] at popped
      exact popped.trans ih

/-- **A mutex has one owner.** -/
theorem taken_nodup (h : (P.guarded G).Reach (World.init ⟨s₀, []⟩) w) : w.shared.taken.Nodup := by
  induction h with
  | refl => exact List.nodup_nil
  | @move w w' m _ _ ha ih =>
    cases Program.effect_of_apply ha with
    | spawn | enter | descend | collect => exact ih
    | step hs hn he => exact (Frame.steps hn he).nodup ih
    | ascend hs hn hg he =>
      cases Frame.needs hg nofun nofun
      rw [World.shared_update, (Frame.resumed he).taken]
      exact ih
    | answer hs hn he =>
      cases Frame.needs hn nofun nofun
      rw [World.shared_update, (Frame.resumed he).taken]
      exact ih
    | expire hs ht =>
      show (Frame.expire P w.shared _).taken.Nodup
      rw [Frame.taken_expire]
      exact ih

/-- **A frame that others stand on is in no critical section.** -/
theorem free_of_below {s₀ : State Shared Mutex} (h : (P.guarded G).Reach (World.init s₀) w)
    (hs : w.stack i = F :: below) : ∀ g ∈ below, ∃ f, g = .free f ∧ P.Opens f := by
  intro g hg
  obtain ⟨s, ⟨q, hq⟩ | ⟨x, hx⟩⟩ := Program.below_opens h hs g hg
  · cases Frame.needs hq nofun nofun with
    | ask hf => exact ⟨_, rfl, s.shared, Or.inl ⟨q, hf⟩⟩
  · cases Frame.needs hx nofun nofun with
    | sub hf => exact ⟨_, rfl, s.shared, Or.inr ⟨_, hf⟩⟩

theorem has_below {s₀ : State Shared Mutex} (h : (P.guarded G).Reach (World.init s₀) w)
    (hs : w.stack i = F :: below) : ∀ g ∈ below, g.has = [] := by
  intro g hg
  obtain ⟨f, rfl, -⟩ := free_of_below h hs g hg
  rfl

/-- **Where only one thread has anything to do, no mutex is taken but by its innermost frame.** -/
theorem taken_of_alone (h : (P.guarded G).Reach (World.init ⟨s₀, []⟩) w)
    (hs : w.stack i = F :: below) (alone : ∀ j, j ≠ i → w.stack j = []) :
    w.shared.taken ⊆ F.has := by
  intro m hm
  obtain ⟨g, hg, hgm⟩ := World.mem_gather.mp ((taken_perm h).mem_iff.mpr hm)
  obtain ⟨j, hj⟩ := World.mem_frames.mp hg
  by_cases hji : j = i
  · rw [hji, hs] at hj
    rcases List.mem_cons.mp hj with rfl | hj
    · exact hgm
    · rw [has_below h hs g hj] at hgm
      exact absurd hgm List.not_mem_nil
  · rw [alone j hji] at hj
    exact absurd hj List.not_mem_nil

end

/-! ## The program itself -/

section

variable [DecidableEq Mutex] {s₀ : State Shared Mutex}
  {w w' : World (State Shared Mutex) (Frame Inner Mutex View)} {i : Nat}

/-- The world without mutexes and looks. -/
def forget (w : World (State Shared Mutex) (Frame Inner Mutex View)) : World Shared Inner :=
  ⟨w.shared.shared, w.threads.map fun fs => fs.filterMap Frame.frame?⟩

omit [DecidableEq Mutex] in
theorem stack_forget : (forget w).stack i = (w.stack i).filterMap Frame.frame? := by
  unfold World.stack forget
  rw [List.getElem?_map]
  cases w.threads[i]? <;> rfl

omit [DecidableEq Mutex] in
theorem stack_forget_of {f : Inner} {below : List (Frame Inner Mutex View)}
    (hs : w.stack i = .free f :: below) :
    (forget w).stack i = f :: below.filterMap Frame.frame? := by
  rw [stack_forget, hs]
  rfl

omit [DecidableEq Mutex] in
theorem mem_frames_forget {f : Inner} :
    f ∈ (forget w).frames ↔ ∃ F ∈ w.frames, F.frame? = some f := by
  simp only [World.mem_frames, stack_forget, List.mem_filterMap]
  constructor
  · rintro ⟨i, F, hF, hf⟩
    exact ⟨F, ⟨i, hF⟩, hf⟩
  · rintro ⟨F, ⟨i, hF⟩, hf⟩
    exact ⟨i, F, hF, hf⟩

omit [DecidableEq Mutex] in
theorem forget_update (s : State Shared Mutex) (fs : List (Frame Inner Mutex View)) :
    forget (w.update i s fs) = (forget w).update i s.shared (fs.filterMap Frame.frame?) := by
  unfold forget World.update
  rw [List.map_set]

omit [DecidableEq Mutex] in
/-- What is not part of the program changes nothing of it. -/
theorem forget_update_self {fs : List (Frame Inner Mutex View)} (taken : List Mutex)
    (h : fs.filterMap Frame.frame? = (w.stack i).filterMap Frame.frame?) :
    forget (w.update i ⟨w.shared.shared, taken⟩ fs) = forget w := by
  rw [forget_update, h, ← stack_forget]
  exact World.update_stack ..

/-- **A move of a guarded program is one of the program, or nothing to it.** -/
theorem forget_of_apply {m : Move (Guarded.Op Op Mutex) (Guarded.Reply Reply View)}
    {notices : List Notice} (h : (P.guarded G).Reach (World.init s₀) w)
    (ha : (P.guarded G).apply w m = some (w', notices)) :
    forget w' = forget w ∨ ∃ (m' : Move Op Reply) (notices' : List Notice),
      P.apply (forget w) m' = some (forget w', notices') := by
  have move : ∀ {m' : Move Op Reply} {w₁}, Program.Effect P (forget w) m' w₁ →
      (∀ i, m' ≠ .collect i) → forget w' = w₁ →
      forget w' = forget w ∨ ∃ (m' : Move Op Reply) (notices' : List Notice),
        P.apply (forget w) m' = some (forget w', notices') := by
    rintro m' w₁ he hm rfl
    exact Or.inr ⟨m', he.exists_apply fun i _ _ _ _ hc => absurd hc (hm i)⟩
  cases Program.effect_of_apply ha with
  | spawn => exact move .spawn nofun (by simp [forget])
  | @enter i op hi hs =>
    cases op with
    | op o =>
      refine move (.enter o (by simpa [forget] using hi) ?_) nofun ?_
      · rcases hs with hs | ⟨F, below, q, hs, hq⟩
        · exact Or.inl (by rw [stack_forget, hs]; rfl)
        · cases Frame.needs hq nofun nofun with
          | ask hf => exact Or.inr ⟨_, _, q, stack_forget_of hs, hf⟩
      · rw [forget_update, stack_forget]
        rfl
    | look m => exact Or.inl (forget_update_self _ rfl)
  | step hs hn he =>
    cases Frame.steps hn he with
    | plain hf _ he' | take hf _ _ he' =>
      exact move (.step (stack_forget_of hs) hf he') nofun (forget_update ..)
    | giveBack | look | looked => exact Or.inl (forget_update_self _ (by rw [hs]; rfl))
  | @descend i t F F' below hs hn =>
    cases Frame.needs hn nofun nofun with
    | sub hf => exact move (.descend (m := t) (stack_forget_of hs) hf) nofun (forget_update ..)
  | @ascend i t F F₁ F₁' F₂ rest r s _ hs hn hg he =>
    cases Frame.needs hg nofun nofun with
    | sub hg' =>
      have on := Frame.resumed he
      cases Frame.needs hn nofun nofun with
      | «over» hf =>
        cases on with
        | reply he' =>
          exact move (.ascend (m := t) (stack_forget_of hs) hf hg' he') nofun (forget_update ..)
      | seen v =>
        cases on
        exact Or.inl (forget_update_self _ (by rw [hs]; rfl))
  | answer hs hn he =>
    cases Frame.needs hn nofun nofun with
    | ask hf =>
      cases Frame.resumed he with
      | reply he' => exact move (.answer (stack_forget_of hs) hf he') nofun (forget_update ..)
      | view => exact Or.inl (forget_update_self _ (by rw [hs]))
  | @expire i F below t hs ht =>
    cases F with
    | free f => exact move (.expire (stack_forget_of hs) ht) nofun rfl
    | inside | look | looking | seen => exact absurd ht nofun
  | @collect i F below r hs hn =>
    cases Frame.needs hn nofun nofun with
    | seen v => exact Or.inl (forget_update_self _ (by rw [hs]; rfl))
    | «over» hf =>
      have popped : Program.Effect P (forget w) (.collect i) _ :=
        .collect (stack_forget_of hs) hf
      rw [forget_update]
      refine Or.inr ⟨.collect i, popped.exists_apply ?_⟩
      rintro j f g rest x ⟨⟩ hst hg
      rw [stack_forget_of hs] at hst
      obtain ⟨-, hst⟩ := List.cons.inj hst
      cases below with
      | nil => cases hst
      | cons B under =>
        obtain ⟨b, rfl, -⟩ := free_of_below h hs B List.mem_cons_self
        obtain ⟨rfl, -⟩ := List.cons.inj hst
        exact Program.not_sub_of_collect ha hs (.free x) (Frame.Needs.sub hg).need_eq

/-- **A guarded run is one of the program.** -/
theorem reach_forget (h : (P.guarded G).Reach (World.init s₀) w) :
    P.Reach (World.init s₀.shared) (forget w) := by
  induction h with
  | refl => exact .refl
  | move m h ha ih =>
    rcases forget_of_apply h ha with same | ⟨m', notices', ha'⟩
    · rw [same]
      exact ih
    · exact .move m' ih ha'

/-- The world with mutexes, none of which is taken. -/
def atRest (w : World Shared Inner) : World (State Shared Mutex) (Frame Inner Mutex View) :=
  ⟨⟨w.shared, []⟩, w.threads.map fun fs => fs.map .free⟩

omit [DecidableEq Mutex] in
theorem forget_atRest (w : World Shared Inner) :
    forget (atRest w : World (State Shared Mutex) (Frame Inner Mutex View)) = w := by
  have each : ∀ fs : List Inner,
      (fs.map (.free : Inner → Frame Inner Mutex View)).filterMap Frame.frame? = fs := by
    intro fs
    rw [List.filterMap_map]
    exact List.filterMap_some
  unfold forget atRest
  rw [List.map_map]
  simp only [Function.comp_def, each, List.map_id']

omit [DecidableEq Mutex] in
theorem stack_atRest {w : World Shared Inner} :
    (atRest w : World (State Shared Mutex) (Frame Inner Mutex View)).stack i =
      (w.stack i).map .free := by
  unfold World.stack atRest
  rw [List.getElem?_map]
  cases w.threads[i]? <;> rfl

omit [DecidableEq Mutex] in
theorem atRest_update {w : World Shared Inner} (s : Shared) (fs : List Inner) :
    (atRest (w.update i s fs) : World (State Shared Mutex) (Frame Inner Mutex View)) =
      (atRest w).update i ⟨s, []⟩ (fs.map .free) := by
  unfold atRest World.update
  rw [List.map_set]

/-- **A run of the program is a guarded one.** -/
theorem reach_atRest {s : Shared} {w : World Shared Inner} (h : P.Reach (World.init s) w) :
    (P.guarded G).Reach (World.init ⟨s, []⟩) (atRest w) := by
  induction h with
  | refl => exact .refl
  | @move w w' m notices h ha ih =>
    have move : ∀ {m' w₁ w₂}, (P.guarded G).Reach (World.init ⟨s, []⟩) w₁ →
        Program.Effect (P.guarded G) w₁ m' w₂ → (∀ i, m' ≠ .collect i) →
        (P.guarded G).Reach (World.init ⟨s, []⟩) w₂ := by
      intro m' w₁ w₂ h he hm
      obtain ⟨notices', ha'⟩ := he.exists_apply fun i _ _ _ _ hc => absurd hc (hm i)
      exact .move m' h ha'
    have run : ∀ {t i F F' below s'} {w₁ : World (State Shared Mutex) (Frame Inner Mutex View)},
        (P.guarded G).Reach (World.init ⟨s, []⟩) w₁ → w₁.stack i = F :: below →
        Frame.Steps P G t w₁.shared F s' F' →
        (P.guarded G).Reach (World.init ⟨s, []⟩) (w₁.update i s' (F' :: below)) := by
      intro t i F F' below s' w₁ h hs st
      obtain ⟨notices, he⟩ := st.exists_step
      exact move h (.step (m := t) hs st.need_eq he) nofun
    have stack : ∀ {i f below}, w.stack i = f :: below →
        (atRest w : World (State Shared Mutex) (Frame Inner Mutex View)).stack i =
          .free f :: below.map .free := by
      intro i f below hs
      rw [stack_atRest, hs]
      rfl
    cases Program.effect_of_apply ha with
    | spawn =>
      have grown := move ih .spawn nofun
      unfold atRest at grown ⊢
      rw [List.map_append]
      exact grown
    | @enter i op hi hs =>
      rw [atRest_update, List.map_cons, ← stack_atRest]
      refine move ih (.enter (Guarded.Op.op op) (by simpa [atRest] using hi) ?_) nofun
      rcases hs with hs | ⟨f, below, q, hs, hq⟩
      · exact Or.inl (by rw [stack_atRest, hs]; rfl)
      · exact Or.inr ⟨_, _, q, stack hs, (Frame.Needs.ask hq).need_eq⟩
    | @step i t f f' below shared _ hs hn he =>
      rw [atRest_update]
      cases hm : G.mutex? f with
      | none => exact run ih (stack hs) (.plain hn hm he)
      | some m =>
        have taken := run ih (stack hs) (.take (m := m) hn hm List.not_mem_nil he)
        have given := run taken (World.stack_update_self (World.lt_length_of_stack (stack hs)) ..)
          (.giveBack (t := t) m f')
        rw [World.update_update, World.shared_update, List.erase_cons_head] at given
        exact given
    | @descend i t f g below hs hn =>
      rw [atRest_update]
      exact move ih (.descend (m := t) (stack hs) (Frame.Needs.sub hn).need_eq) nofun
    | @ascend i t f g g' x rest r shared _ hs hn hg he =>
      rw [atRest_update]
      obtain ⟨_, he'⟩ := (Frame.Resumed.reply (s := (atRest w).shared) he).exists_resume
      exact move ih (.ascend (m := t) (stack hs) (Frame.Needs.over hn).need_eq
        (Frame.Needs.sub hg).need_eq he') nofun
    | @answer i r f f' below q shared _ hs hn he =>
      rw [atRest_update]
      obtain ⟨_, he'⟩ := (Frame.Resumed.reply (s := (atRest w).shared) he).exists_resume
      exact move ih (.answer (r := Guarded.Reply.reply r) (stack hs)
        (Frame.Needs.ask hn).need_eq he') nofun
    | @expire i f below t hs ht => exact move ih (.expire (stack hs) ht) nofun
    | @collect i f below r hs hn =>
      have popped : Program.Effect (P.guarded G) (atRest w) (.collect i) _ :=
        .collect (stack hs) (Frame.Needs.over hn).need_eq
      obtain ⟨_, ha'⟩ := popped.exists_apply <| by
        rintro j F B under x ⟨⟩ hst hB
        rw [stack hs] at hst
        obtain ⟨-, hst⟩ := List.cons.inj hst
        cases below with
        | nil => cases hst
        | cons g rest =>
          obtain ⟨rfl, -⟩ := List.cons.inj hst
          have needed : Frame.need P G (atRest w).shared (.free g) = .sub x := hB
          cases Frame.needs needed nofun nofun with
          | sub hg => exact Program.not_sub_of_collect ha hs _ hg
      rw [atRest_update]
      exact .move _ ih ha'

/-- **The mutexes cost no run and make none.** -/
theorem reach_iff {s : Shared} {w : World Shared Inner} :
    P.Reach (World.init s) w ↔
      ∃ w', (P.guarded G).Reach (World.init ⟨s, []⟩) w' ∧ forget w' = w := by
  constructor
  · exact fun h => ⟨atRest w, reach_atRest h, forget_atRest w⟩
  · rintro ⟨w', h, rfl⟩
    exact reach_forget h

end

end Lending.Guarded
