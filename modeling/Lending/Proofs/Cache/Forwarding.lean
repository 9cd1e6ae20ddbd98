import Lending.Proofs.Alone
import Lending.Proofs.Cache.Tenure

/-!
# What a handle passes on

Of what a handle is asked to do, all but closing it is the business of its session (`Errand`): the
handle passes it on, its session, a handle of the next level, does the same, and the innermost one
asks the remote session. A handle that has been given back has nobody to pass it on to, and says so.

So a handle of the outermost level must never meet an inner one that has been given back, though
inner ones are given back all the time, as they are found stale, swept or discarded. It never does:
what a handle stands for is still with its level, and is given back by nobody else.

* `leads_errand`: left alone, an errand asks one remote session, once, and comes back with its
  answer.
* `remote?_of_apply`: a handle that has not been given back stands for the same remote session,
  whatever else is done.

The errands are `is_open` and the ten operations with files. What comes back is the whole reply of
the remote session, result, sink and count of the source alike. On a handle that has been given back
`is_open` is false, and the others fail as not connected; these replies are spelled out in
`Errand.released`, so that the law says what they are and not only that there are some.

* `Path.target_ne_none`: an errand on a handle that has not been given back meets none that has.
* `Undisturbed`: what other threads do does not change where an errand goes.
-/

namespace Lending.Cache

/-- What a handle is asked to do, and has its session do. -/
inductive Errand where
  | isOpen
  | file (op : FileOp)

namespace Errand

/-- A user asks handle `h`. -/
def op (h : Nat) : Errand → Op
  | isOpen => .isOpen h
  | file op => .file h op

/-- Handle `h` of level `k` is about to pass it on. -/
def frame (k h : Nat) : Errand → Frame
  | isOpen => .probe k h
  | file op => .forward k h op

/-- Remote session `s` is asked. -/
def query (s : Nat) : Errand → Query
  | isOpen => .isOpen s
  | file op => .file s op

/-- How it goes on a handle that has been given back: the handle is not open, and a file operation
fails as not connected, with nothing written into its sink and nothing consumed of its source. -/
def released : Errand → Reply
  | isOpen => .flag false
  | file _ => .file
    { result := .error (.reported .notConnected "session already released to the cache")
      sink := []
      consumed := 0 }

variable (e : Errand) (k h s : Nat) (m : Moment) (c : Cache)

theorem need_frame : (e.frame k h).need c = .step := by
  cases e <;> rfl

theorem frame_ne_over {r : Reply} : e.frame k h ≠ .over r := by
  cases e <;> exact nofun

variable {k h s m c}

theorem step_frame (ht : (c.handle k h).target = some s) : (e.frame k h).step m c =
    (c, if c.innermost k then .remote (e.query s) else e.frame (k + 1) s, []) := by
  cases e <;> simp only [frame, query, Frame.step, ht]

theorem step_frame_released (ht : (c.handle k h).target = none) :
    (e.frame k h).step m c = (c, .over e.released, []) := by
  cases e <;> simp only [frame, released, Frame.step, ht, FileReply.released, SessionError.released]

theorem begin_op (hg : (c.handle 0 h).gone = false) (hu : (c.handle 0 h).inUse = false) :
    Frame.begin c (e.op h) =
      (c.modifyHandle 0 h fun x => { x with inUse := true }, .within h (e.frame 0 h)) := by
  cases e <;> simp only [op, frame, Frame.begin, Frame.onHandle, hg, hu, Bool.or_self,
    Bool.false_eq_true, if_false]

end Errand

/-- Whether an errand of its user is under way on handle `h` here. -/
def Frame.errands (h : Nat) : Frame → Nat
  | .within h' (.probe _ _) | .within h' (.forward _ _ _) => if h' = h then 1 else 0
  | _ => 0

theorem Frame.errands_le_uses (f : Frame) (h : Nat) : f.errands h ≤ f.uses h := by
  cases f with
  | within h' body => cases body <;> first | exact Nat.le_refl _ | exact Nat.zero_le _
  | _ => exact Nat.zero_le _

theorem Errand.errands_within (e : Errand) (h : Nat) :
    (Frame.within h (e.frame 0 h)).errands h = 1 := by
  cases e <;> exact if_pos rfl

/-! ## While a handle is in use -/

section

variable {c c' : Cache} {h : Nat}

/-- An operation on a handle leaves no trace of its being in use. -/
theorem modifyHandle_inUse (hu : (c.handle 0 h).inUse = false) :
    ((c.modifyHandle 0 h fun x => { x with inUse := true }).modifyHandle 0 h
      fun x => { x with inUse := false }) = c := by
  have handles : ∀ l, c.levels[0]? = some l →
      (l.handles.modify h fun x => { x with inUse := true }).modify h
        (fun x => { x with inUse := false }) = l.handles := by
    intro l hl
    rw [List.modify_modify_eq]
    refine modify_eq_self fun x hx => ?_
    have free : x.inUse = false := by simpa [handle, Cache.level, hl, hx] using hu
    show { x with inUse := false } = x
    rw [← free]
  unfold modifyHandle
  rw [modify_modify]
  refine modify_of_eq c fun l hl => ?_
  show { l with handles := (l.handles.modify h _).modify h _ } = l
  rw [handles l hl]

/-- What handles stand for does not depend on anything else. -/
theorem remoteBehind_congr (hd : c'.depth = c.depth)
    (ht : ∀ k h, (c'.handle k h).target = (c.handle k h).target) (fuel k s : Nat) :
    c'.remoteBehind fuel k s = c.remoteBehind fuel k s := by
  induction fuel generalizing k s with
  | zero => rfl
  | succ fuel ih =>
    unfold remoteBehind
    rw [innermost_eq hd, ht, funext (ih (k + 1))]

theorem target_modifyHandle {f : Handle → Handle} (hf : ∀ x, (f x).target = x.target)
    (j n k h : Nat) : ((c.modifyHandle j n f).handle k h).target = (c.handle k h).target := by
  unfold handle modifyHandle
  rw [level_modify]
  split
  · simp only [List.getElem?_modify]
    cases (c.level k).handles[h]? with
    | none => rfl
    | some x =>
      by_cases hn : n = h
      · simp [hn, hf]
      · simp [hn]
  · rfl

theorem remote?_modifyHandle {f : Handle → Handle} (hf : ∀ x, (f x).target = x.target)
    (j n h : Nat) : (c.modifyHandle j n f).remote? h = c.remote? h := by
  have depth : (c.modifyHandle j n f).depth = c.depth := depth_modify ..
  have targets := target_modifyHandle (c := c) hf j n
  unfold remote?
  rw [targets, depth, funext (remoteBehind_congr depth targets c.depth 0)]

end

/-! ## An errand that is left alone -/

section

variable {Memory : Type} {O : Outside Memory Query Reply} {c : Cache} {mem : Memory} {h : Nat}
  (e : Errand)

/-- An errand has come back with this answer, and nothing has changed on the way. -/
def ErrandReturned (c : Cache) (x : Reply × Memory) (mem : Memory) (c' : Cache) (f : Frame) :
    Prop :=
  c' = c ∧ f = .over x.1 ∧ mem = x.2

/-- **An errand asks the remote session behind the handle**, once, and comes back with its
answer. -/
theorem leads_errand : ∀ {fuel k h t : Nat},
    (c.handle k h).target.bind (c.remoteBehind fuel k) = some t →
    program.Leads O (e.frame k h) c mem (ErrandReturned c (O mem (e.query t))) := by
  intro fuel
  induction fuel with
  | zero =>
    intro k h t ht
    obtain ⟨s, -, none⟩ := Option.bind_eq_some_iff.mp ht
    cases none
  | succ fuel ih =>
    intro k h t ht
    obtain ⟨s, target, behind⟩ := Option.bind_eq_some_iff.mp ht
    refine .step (e.need_frame k h c) fun m => ?_
    have step : program.step m c (e.frame k h) = _ := e.step_frame target
    rw [step]
    unfold remoteBehind at behind
    by_cases hi : c.innermost k = true
    · rw [if_pos hi] at behind ⊢
      cases behind
      exact .ask rfl (.here ⟨rfl, rfl, rfl⟩)
    · rw [if_neg hi] at behind ⊢
      exact ih behind

theorem leads_errand_released {k : Nat} (ht : (c.handle k h).target = none) :
    program.Leads O (e.frame k h) c mem (ErrandReturned c (e.released, mem)) := by
  refine .step (e.need_frame k h c) fun m => ?_
  have step : program.step m c (e.frame k h) = _ := e.step_frame_released ht
  rw [step]
  exact .here ⟨rfl, rfl, rfl⟩

/-- A user's errand, on a handle that no other operation uses. -/
theorem leads_op {x : Reply × Memory} (hg : (c.handle 0 h).gone = false)
    (hu : (c.handle 0 h).inUse = false)
    (body : program.Leads O (e.frame 0 h) (c.modifyHandle 0 h fun x => { x with inUse := true }) mem
      (ErrandReturned (c.modifyHandle 0 h fun x => { x with inUse := true }) x)) :
    program.Leads O (.call (e.op h)) c mem (ErrandReturned c x) := by
  refine .step rfl fun t => ?_
  show program.Leads O (Frame.begin c (e.op h)).2 (Frame.begin c (e.op h)).1 mem _
  rw [e.begin_op hg hu]
  refine .sub rfl (body.imp ?_)
  rintro mem' c' f ⟨rfl, rfl, rfl⟩
  refine ⟨x.1, _, rfl, rfl, ?_⟩
  show program.Leads O (.over x.1)
    (((c.modifyHandle 0 h fun x => { x with inUse := true }).modifyHandle 0 h
      fun x => { x with inUse := false })) x.2 _
  rw [modifyHandle_inUse hu]
  exact .here ⟨rfl, rfl, rfl⟩

end

/-! ## What a handle stands for -/

section

variable {k h s i : Nat} {limits : List Limits} {shared : Bool} {w w' : World Cache Frame}
  {m : Move Op Reply} {notices : List Notice}

/-- **What a handle that has not been given back stands for**, is a remote session. -/
theorem exists_remote? (h0 : 0 < limits.length)
    (hw : program.Reach (World.init (.ofLimits limits shared)) w)
    (ht : (w.shared.handle 0 h).target = some s) : ∃ t, w.shared.remote? h = some t := by
  have depth := depth_of_reach hw
  obtain ⟨t, behind, -⟩ := exists_remoteBehind_of (c := w.shared)
    (G := fun k s => 0 < spare k s w) (fun k s spare inner => by
      obtain ⟨t, target⟩ := exists_target_of_spare (depth ▸ inner) hw spare
      exact ⟨t, target, keeping_of_target _ target⟩)
    (depth.symm ▸ h0) (Nat.le_add_left _ 0) (keeping_of_target (Frame.spares 0 s) ht)
  exact ⟨t, by rw [remote?, ht, Option.bind_some, behind]⟩

/-- What may yet be lent is given back by nobody. -/
theorem target_of_apply_spare (hi : k + 1 < limits.length)
    (hw : program.Reach (World.init (.ofLimits limits shared)) w)
    (ha : program.apply w m = some (w', notices)) (hs : 0 < spare k h w) :
    (w'.shared.handle (k + 1) h).target = (w.shared.handle (k + 1) h).target := by
  have depth := depth_of_reach hw
  obtain ⟨s, ht⟩ := exists_target_of_spare hi hw hs
  have aged := aged_of_apply (k := k + 1) (by omega) ha
  have lent := lt_length_of_target ht
  rcases (aged.ages h lent).target with same | none
  · exact same
  · have few := claims_add_spare_le (k := k) (h := h) hw
    obtain ⟨-, before | claimed⟩ := returned_or_claimed hi hw ha
      ⟨Nat.lt_of_lt_of_le lent aged.length, none⟩
    · cases ht.symm.trans before.target
    · omega

/-- What is on loan stands for the same remote session, whatever is done. -/
theorem remoteBehind_of_apply (hw : program.Reach (World.init (.ofLimits limits shared)) w)
    (ha : program.apply w m = some (w', notices)) (fuel : Nat) : ∀ k s, 0 < spare k s w →
      w'.shared.remoteBehind fuel k s = w.shared.remoteBehind fuel k s := by
  have depth := depth_of_reach hw
  induction fuel with
  | zero => exact fun k s _ => rfl
  | succ fuel ih =>
    intro k s hs
    unfold remoteBehind
    rw [innermost_eq (depth_of_apply ha)]
    by_cases hi : w.shared.innermost k = true
    · rw [if_pos hi, if_pos hi]
    · have inner : k + 1 < limits.length := depth ▸ inner_iff.mp hi
      obtain ⟨t, ht⟩ := exists_target_of_spare inner hw hs
      rw [if_neg hi, if_neg hi, target_of_apply_spare inner hw ha hs, ht, Option.bind_some,
        Option.bind_some]
      exact ih (k + 1) t (keeping_of_target _ ht)

/-- **A handle stands for the same remote session**, whatever is done, until it is given back. -/
theorem remote?_of_apply (hw : program.Reach (World.init (.ofLimits limits shared)) w)
    (ha : program.apply w m = some (w', notices))
    (ht : (w'.shared.handle 0 h).target = (w.shared.handle 0 h).target) :
    w'.shared.remote? h = w.shared.remote? h := by
  unfold remote?
  rw [ht, show w'.shared.depth = w.shared.depth from depth_of_apply ha]
  cases hs : (w.shared.handle 0 h).target with
  | none => rfl
  | some s => exact remoteBehind_of_apply hw ha _ 0 s (keeping_of_target _ hs)

/-! ## An errand among others -/

/-- **Whoever asks a handle to do something keeps it from being given back** meanwhile. -/
theorem claims_add_errands_le (h0 : 0 < limits.length)
    (hw : program.Reach (World.init (.ofLimits limits shared)) w) (h : Nat) :
    w.weigh (Frame.claims 0 h) + w.total (Frame.errands h) ≤ 1 := by
  have charged : w.weigh (Frame.claims 0 h) ≤
      w.total fun f => f.uses h - f.errands h := by
    refine World.weigh_le_of_charged _ (p := fun f : Frame => f.calls 0 h ≠ 0) fun i => ?_
    refine ((stands_of_reach hw).2 i).imp fun f below _ hs =>
      charged_of_claimed (k := 0) (υ := fun f => f.uses h - f.errands h) hs.claimed ?_ nofun nofun
    intro _ j h'
    simp [Frame.uses, Frame.errands]
  have both : (w.total fun f => f.uses h - f.errands h) + w.total (Frame.errands h) =
      w.total (Frame.uses h) := by
    rw [← World.total_add]
    exact congrArg (fun ω => w.total ω) (funext fun f => Nat.sub_add_cancel (f.errands_le_uses h))
  have one := total_uses h0 hw h
  split at one <;> omega

theorem target_of_apply_errand (h0 : 0 < limits.length)
    (hw : program.Reach (World.init (.ofLimits limits shared)) w)
    (ha : program.apply w m = some (w', notices)) {e : Errand}
    (hf : .within h (e.frame 0 h) ∈ w.frames) :
    (w'.shared.handle 0 h).target = (w.shared.handle 0 h).target := by
  have depth := depth_of_reach hw
  have errand := World.le_total (Frame.errands h) hf
  have use := World.le_total (Frame.uses h) hf
  rw [e.errands_within] at errand
  rw [Frame.uses, if_pos rfl, total_uses h0 hw] at use
  have lent : h < (w.shared.level 0).handles.length := by
    refine lt_length_of_inUse ?_
    by_contra busy
    rw [if_neg busy] at use
    omega
  rcases ((aged_of_apply (depth.symm ▸ h0) ha).ages h lent).target with same | none
  · exact same
  · by_contra has
    obtain ⟨j, below, hst⟩ := exists_giveBack_of_target (depth.symm ▸ h0) ha lent
      (fun h => has (none.trans h.symm)) none
    have top := (stands_of_reach hw).2 j
    rw [hst] at top
    obtain ⟨g, rest, rfl, calls⟩ := exists_calls_of_caller top.1.giveBack
    have claimed := World.le_weigh (Frame.claims 0 h) (w := w) (i := j)
      (hst ▸ List.suffix_cons _ _ : g :: rest <:+ w.stack j)
    rw [Frame.claims_of_calls calls] at claimed
    have := claims_add_errands_le h0 hw h
    omega

/-- Handle `h` has led to handle `s` of level `k`. -/
inductive Path (c : Cache) (h : Nat) : Nat → Nat → Prop
  | self : Path c h 0 h
  | next {k s s' : Nat} (hp : Path c h k s) (ht : (c.handle k s).target = some s')
      (inner : k + 1 < c.depth) : Path c h (k + 1) s'

namespace Path

variable {c : Cache}

theorem lt_depth (hp : Path c h k s) (h0 : 0 < c.depth) : k < c.depth := by
  cases hp with
  | self => exact h0
  | next _ _ inner => exact inner

/-- What handle `h` stands for, the handle that it has led to stands for. -/
theorem remote? (hp : Path c h k s) : ∀ {fuel : Nat}, c.depth = k + fuel →
    c.remote? h = (c.handle k s).target.bind (c.remoteBehind fuel k) := by
  induction hp with
  | self =>
    intro fuel hd
    rw [Cache.remote?, hd, Nat.zero_add]
  | @next k s s' hp ht inner ih =>
    intro fuel hd
    rw [ih (show c.depth = k + (fuel + 1) by omega), ht, Option.bind_some, remoteBehind,
      if_neg (inner_iff.mpr inner)]

/-- A handle that has been given back leads nowhere. -/
theorem eq_self (hp : Path c h k s) (ht : (c.handle 0 h).target = none) : k = 0 ∧ s = h := by
  induction hp with
  | self => exact ⟨rfl, rfl⟩
  | next _ hs _ ih =>
    obtain ⟨rfl, rfl⟩ := ih
    exact absurd (ht.symm.trans hs) nofun

/-- **A handle that has not been given back leads to none that has.** -/
theorem target_ne_none (hw : program.Reach (World.init (.ofLimits limits shared)) w)
    (hp : Path w.shared h k s) (ht : (w.shared.handle 0 h).target ≠ none) :
    (w.shared.handle k s).target ≠ none := by
  cases hp with
  | self => exact ht
  | next _ hs inner =>
    obtain ⟨t, has⟩ :=
      exists_target_of_spare (depth_of_reach hw ▸ inner) hw (keeping_of_target _ hs)
    exact fun none => absurd (none.symm.trans has) nofun

/-- Where the handle is not given back, what it has led to is not, either. -/
theorem of_apply (hw : program.Reach (World.init (.ofLimits limits shared)) w)
    (ha : program.apply w m = some (w', notices))
    (ht : (w'.shared.handle 0 h).target = (w.shared.handle 0 h).target)
    (hp : Path w.shared h k s) : Path w'.shared h k s ∧
      (w'.shared.handle k s).target = (w.shared.handle k s).target := by
  have depth := depth_of_reach hw
  induction hp with
  | self => exact ⟨.self, ht⟩
  | next hp hs inner ih =>
    exact ⟨.next ih.1 (ih.2.trans hs) ((depth_of_apply ha).symm ▸ inner),
      target_of_apply_spare (depth ▸ inner) hw ha (keeping_of_target _ hs)⟩

end Path

/-- The frames that an errand on handle `h` comes to. -/
inductive Errand.Runs (e : Errand) (h : Nat) (c : Cache) : Frame → Prop
  /-- It is passed on, by a handle that handle `h` has led to. -/
  | passing {k s : Nat} (hp : Path c h k s) : Runs e h c (e.frame k s)
  /-- The remote session is asked that the handle stands for. -/
  | asking {t : Nat} (ht : c.remote? h = some t) : Runs e h c (.remote (e.query t))
  | «over» (r : Reply) : Runs e h c (.over r)

namespace Errand.Runs

variable {e : Errand} {f f' : Frame} {r : Reply} {c c' : Cache}

/-- A step of an errand leaves everything as it is. A handle that has been given back refuses the
errand, and any other one passes it on. -/
theorem step {t : Moment} (h0 : 0 < c.depth) (hf : e.Runs h c f) (hn : f.need c = .step)
    (he : f.step t c = (c', f', notices)) : c' = c ∧ ∃ k s, Path c h k s ∧
      ((c.handle k s).target = none ∧ f' = .over e.released ∨
        (c.handle k s).target ≠ none ∧ e.Runs h c f' ∧ ∀ r, f' ≠ .over r) := by
  cases hf with
  | @passing k s hp =>
    cases ht : (c.handle k s).target with
    | none =>
      rw [e.step_frame_released ht] at he
      cases he
      exact ⟨rfl, k, s, hp, Or.inl ⟨ht, rfl⟩⟩
    | some s' =>
      rw [e.step_frame ht] at he
      cases he
      refine ⟨rfl, k, s, hp, Or.inr ⟨fun none => absurd (none.symm.trans ht) nofun, ?_⟩⟩
      split
      · rename_i hi
        have last : c.depth = k + 1 := by
          have := innermost_iff.mp hi
          have := hp.lt_depth h0
          omega
        refine ⟨.asking ?_, fun r => nofun⟩
        rw [hp.remote? last, ht, Option.bind_some, remoteBehind, if_pos hi]
      · rename_i hi
        exact ⟨.passing (.next hp ht (inner_iff.mp hi)), fun r => e.frame_ne_over _ _⟩
  | asking | «over» => cases hn

/-- An answer is what the errand comes back with. -/
theorem answer {q : Query} (hf : e.Runs h c f) (hn : f.need c = .ask q)
    (he : f.resume c r = (c', f', notices)) :
    (∃ t, c.remote? h = some t ∧ f = .remote (e.query t)) ∧ c' = c ∧ f' = .over r := by
  cases hf with
  | passing =>
    rw [e.need_frame] at hn
    cases hn
  | asking ht =>
    cases hn
    cases he
    exact ⟨⟨_, ht, rfl⟩, rfl, rfl⟩
  | «over» => cases hn

theorem need_ne_sub {g : Frame} (hf : e.Runs h c f) : f.need c ≠ .sub g := by
  cases hf with
  | passing =>
    rw [e.need_frame]
    exact nofun
  | asking | «over» => exact nofun

theorem of_apply (hw : program.Reach (World.init (.ofLimits limits shared)) w)
    (ha : program.apply w m = some (w', notices))
    (ht : (w'.shared.handle 0 h).target = (w.shared.handle 0 h).target)
    (hf : e.Runs h w.shared f) : e.Runs h w'.shared f := by
  cases hf with
  | passing hp => exact .passing (hp.of_apply hw ha ht).1
  | asking hr => exact .asking ((remote?_of_apply hw ha ht).trans hr)
  | «over» r => exact .over r

end Errand.Runs

/-- A frame on top of a user's errand is one that the errand comes to. -/
def Underway (c : Cache) (f : Frame) (below : List Frame) : Prop :=
  ∀ e h rest, below = .within h (Errand.frame 0 h e) :: rest → e.Runs h c f

/-- **An errand goes on as if it were alone**, whatever others do meanwhile. -/
theorem underway_of_reach (h0 : 0 < limits.length)
    (hw : program.Reach (World.init (.ofLimits limits shared)) w) :
    ∀ i, Stacked (Underway w.shared) (w.stack i) := by
  induction hw with
  | refl => exact fun i => by simp [World.stack, World.init]
  | @move w w' m notices hw ha ih =>
    have depth := depth_of_reach hw
    have placed : ∀ i, Stacked (fun f below => f :: below <:+ w.stack i ∧
        Underway w.shared f below) (w.stack i) := fun i =>
      stacked_iff.mpr fun f below hs => ⟨hs, stacked_iff.mp (ih i) f below hs⟩
    refine Program.stacked_of_effect (Program.effect_of_apply ha) placed ?_ ?_ ?_ ?_ ?_ ?_
    · rintro i f below - ⟨hs, hf⟩ e h rest rfl
      have mem : Frame.within h (e.frame 0 h) ∈ w.frames :=
        World.mem_frames.mpr ⟨i, hs.subset (List.mem_cons_of_mem _ List.mem_cons_self)⟩
      exact (hf e h rest rfl).of_apply hw ha (target_of_apply_errand h0 hw ha mem)
    · rintro i op (hs | ⟨f, below, q, hs, hq⟩) e h rest hb
      · rw [hs] at hb
        cases hb
      · rw [hs] at hb
        cases hb
        cases hq
    · rintro i moment f below s f' notices - - - hn he rfl ⟨-, hf⟩ e h rest hb
      obtain ⟨same, -, -, -, ⟨-, refused⟩ | ⟨-, runs, -⟩⟩ :=
        (hf e h rest hb).step (depth.symm ▸ h0) hn he
      · rw [refused]
        exact .over _
      · rw [same]
        exact runs
    · rintro i f below g - hn - e h rest hb
      obtain ⟨rfl, rfl⟩ := List.cons.inj hb
      cases hn
      exact .passing .self
    · rintro i moment f g x rest r s g' notices - - - - hg - - - ⟨-, hf⟩ e h rest' hb
      exact absurd hg (hf e h rest' hb).need_ne_sub
    · rintro i f below q r s f' notices - - - hn he rfl ⟨-, hf⟩ e h rest hb
      obtain ⟨-, -, rfl⟩ := (hf e h rest hb).answer hn he
      exact .over r

/-- An errand on handle `h`, of which frame `f` is on top of thread `i`, is not disturbed by what
other threads do, and does not disturb anything. -/
structure Undisturbed (e : Errand) (h i : Nat) (w : World Cache Frame) (f : Frame)
    (rest : List Frame) : Prop where
  runs   : e.Runs h w.shared f
  /-- Whoever makes a move, the handle stands for the same remote session. -/
  steady : ∀ m w' notices, program.apply w m = some (w', notices) →
    w'.shared.remote? h = w.shared.remote? h
  /-- Its steps change nothing. One refuses it where the handle has been given back; where it has
  not, none ends it. -/
  step   : ∀ t w' notices, (∀ r, f ≠ .over r) → program.apply w (.run i t) = some (w', notices) →
    ∃ g, w' = w.update i w.shared (g :: .within h (e.frame 0 h) :: rest) ∧
      ((w.shared.handle 0 h).target = none → g = .over e.released) ∧
      ((w.shared.handle 0 h).target ≠ none → ∀ r, g ≠ .over r)
  /-- It is that remote session that answers, and the answer is what it comes back with. -/
  answer : ∀ r w' notices, program.apply w (.answer i r) = some (w', notices) →
    (∃ t, w.shared.remote? h = some t ∧ f = .remote (e.query t)) ∧
      w' = w.update i w.shared (.over r :: .within h (e.frame 0 h) :: rest)

theorem undisturbed (h0 : 0 < limits.length)
    (hw : program.Reach (World.init (.ofLimits limits shared)) w) {e : Errand} {f : Frame}
    {rest : List Frame} (hst : w.stack i = f :: .within h (e.frame 0 h) :: rest) :
    Undisturbed e h i w f rest := by
  have depth := depth_of_reach hw
  have runs : e.Runs h w.shared f := by
    have top := underway_of_reach h0 hw i
    rw [hst] at top
    exact top.1 e h rest rfl
  have mem : Frame.within h (e.frame 0 h) ∈ w.frames :=
    World.mem_frames_of_below hst List.mem_cons_self
  refine ⟨runs, fun m w' notices ha => ?_, fun t w' notices hf ha => ?_, fun r w' notices ha => ?_⟩
  · exact remote?_of_apply hw ha (target_of_apply_errand h0 hw ha mem)
  · cases Program.effect_of_apply ha with
    | @step _ _ _ g _ _ _ hs hn he =>
      obtain ⟨rfl, rfl⟩ := List.cons.inj (hs.symm.trans hst)
      obtain ⟨rfl, k, s, hp, next⟩ := runs.step (depth.symm ▸ h0) hn he
      refine ⟨g, rfl, fun none => ?_, fun some => ?_⟩
      · obtain ⟨rfl, rfl⟩ := hp.eq_self none
        rcases next with ⟨-, refused⟩ | ⟨some, -⟩
        · exact refused
        · exact absurd none some
      · rcases next with ⟨none, -⟩ | ⟨-, -, passed⟩
        · exact absurd none (hp.target_ne_none hw some)
        · exact passed
    | descend hs hn =>
      obtain ⟨rfl, -⟩ := List.cons.inj (hs.symm.trans hst)
      exact absurd hn runs.need_ne_sub
    | ascend hs hn =>
      obtain ⟨rfl, -⟩ := List.cons.inj (hs.symm.trans hst)
      cases runs with
      | passing =>
        have hn := (e.need_frame ..).symm.trans hn
        cases hn
      | asking => cases hn
      | «over» r => exact absurd rfl (hf r)
  · cases Program.effect_of_apply ha with
    | answer hs hn he =>
      obtain ⟨rfl, rfl⟩ := List.cons.inj (hs.symm.trans hst)
      obtain ⟨asked, rfl, rfl⟩ := runs.answer hn he
      exact ⟨asked, rfl⟩

end

/-- **Handles pass on what they are asked, through any number of levels.** In every world that a run
comes to, whatever its threads do and have done:

* a session that is idle, or that a handle stands for, is itself a handle that has not been given
  back, but at the innermost level;
* so an errand of a user, on a handle that is not in use, has the one remote session asked that the
  handle stands for, once, and comes back with its answer. On a handle that has been given back it
  asks nobody: the handle is not open, and a file operation fails as not connected, with nothing
  written into its sink and nothing consumed of its source. Left alone, it leaves everything as it
  was;
* and it is not disturbed by others, nor disturbs them, if it is not left alone. Then, too, a handle
  that has been given back refuses it at once, and on any other one only the answer of the remote
  session ends it. -/
theorem passed_on (limits : List Limits) (shared : Bool) (h0 : 0 < limits.length)
    {w : World Cache Frame} (hw : program.Reach (World.init (.ofLimits limits shared)) w) :
    (∀ k s, k + 1 < limits.length →
      (s ∈ (w.shared.level k).pool.idle ∨ ∃ h, (w.shared.handle k h).target = some s) →
      ∃ t, (w.shared.handle (k + 1) s).target = some t) ∧
    (∀ (e : Errand) i h below, w.stack i = .call (e.op h) :: below →
      (w.shared.handle 0 h).gone = false → (w.shared.handle 0 h).inUse = false →
      ∀ {Memory : Type} (O : Outside Memory Query Reply) mem,
        ((w.shared.handle 0 h).target = none → ∃ r,
          (e = .isOpen → r = .flag false) ∧
          (∀ op, e = .file op → r = .file
            { result := .error (.reported .notConnected "session already released to the cache")
              sink := []
              consumed := 0 }) ∧
          program.Comes O i (fun mem' w' =>
            w' = w.update i w.shared (.over r :: below) ∧ mem' = mem) mem w) ∧
        ((w.shared.handle 0 h).target ≠ none → ∃ t, w.shared.remote? h = some t ∧
          program.Comes O i (fun mem' w' =>
            w' = w.update i w.shared (.over (O mem (e.query t)).1 :: below) ∧
            mem' = (O mem (e.query t)).2) mem w)) ∧
    ∀ (e : Errand) i h f rest, w.stack i = f :: .within h (e.frame 0 h) :: rest →
      Undisturbed e h i w f rest := by
  refine ⟨fun k s inner has => ?_, fun e i h below hst alive free Memory O mem => ?_,
    fun e i h f rest hst => undisturbed h0 hw hst⟩
  · refine exists_target_of_spare inner hw ?_
    rcases has with idle | ⟨h, target⟩
    · exact keeping_of_idle _ idle
    · exact keeping_of_target _ target
  · have back : ∀ {x : Reply × Memory}, program.Leads O (e.frame 0 h)
        (w.shared.modifyHandle 0 h fun x => { x with inUse := true }) mem
        (ErrandReturned (w.shared.modifyHandle 0 h fun x => { x with inUse := true }) x) →
        program.Comes O i (fun mem' w' => w' = w.update i w.shared (.over x.1 :: below) ∧
          mem' = x.2) mem w := by
      intro x body
      refine (leads_op e alive free body w i below hst rfl).imp ?_
      rintro mem' w' ⟨g, hw', same, rfl, rfl⟩
      rw [same] at hw'
      exact ⟨hw', rfl⟩
    have targets := target_modifyHandle (c := w.shared)
      (f := fun x => { x with inUse := true }) (fun _ => rfl) 0 h 0 h
    constructor
    · intro none
      refine ⟨e.released, ?_, ?_, back (leads_errand_released e (targets.trans none))⟩
      · rintro rfl
        rfl
      · rintro op rfl
        rfl
    · intro some
      obtain ⟨s, ht⟩ := Option.ne_none_iff_exists'.mp some
      obtain ⟨t, behind⟩ := exists_remote? h0 hw ht
      have remote := remote?_modifyHandle (c := w.shared)
        (f := fun x => { x with inUse := true }) (fun _ => rfl) 0 h h
      rw [remote?, show Cache.depth (modifyHandle ..) = _ from depth_modify ..] at remote
      exact ⟨t, behind, back (leads_errand e (remote.trans behind))⟩

/-- A session is connected and lent by the inner one of two caches, and then by the outer one. -/
def lentThroughTwo : List (Move Op Reply) :=
  .spawn :: .enter 0 .getSession :: List.replicate 8 (.run 0 (.at 0)) ++
    .answer 0 (.got 5) :: List.replicate 3 (.run 0 (.at 0)) ++ [.collect 0]

/-- The handle of `lentThroughTwo` is asked whether a file exists. -/
def askedThroughTwo : List (Move Op Reply) := lentThroughTwo ++ [.enter 0 (.file 0 (.exists "a"))]

/-- The handle of `lentThroughTwo` is given back to the outer cache, and a file is read through it
then. -/
def readAfterClose : List (Move Op Reply) :=
  lentThroughTwo ++ .enter 0 (.close 0) :: List.replicate 6 (.run 0 (.at 0)) ++
    [.collect 0, .enter 0 (.file 0 (.read "a"))]

/-- A remote side where everything exists, and which remembers what it was asked. -/
def willing : Outside (List Query) Query Reply := fun asked q =>
  (.file { result := .ok (.flag true) }, q :: asked)

theorem passed_on_lentThroughTwo :
    (∃ w, program.run? (World.init (.ofLimits [{}, {}] false)) askedThroughTwo = some w ∧
      w.stack 0 = [.call (.file 0 (.exists "a"))] ∧ (w.shared.handle 0 0).target = some 0 ∧
      (∃ s, (w.shared.handle 1 0).target = some s) ∧
      program.Comes willing 0 (fun asked w' =>
        w' = w.update 0 w.shared [.over (.file { result := .ok (.flag true) })] ∧
        asked = [.file 5 (.exists "a")]) [] w) ∧
    ∃ w, program.run? (World.init (.ofLimits [{}, {}] false)) readAfterClose = some w ∧
      w.stack 0 = [.call (.file 0 (.read "a"))] ∧ (w.shared.handle 0 0).target = none ∧
      (∃ s, (w.shared.handle 1 0).target = some s) ∧
      program.Comes willing 0 (fun asked w' =>
        w' = w.update 0 w.shared [.over (.file
          { result := .error (.reported .notConnected "session already released to the cache")
            sink := []
            consumed := 0 })] ∧
        asked = []) [] w := by
  constructor
  · have run : program.run? (World.init (.ofLimits [{}, {}] false)) askedThroughTwo = some _ := rfl
    obtain ⟨inner, errands, -⟩ :=
      passed_on [{}, {}] false (by decide) (Program.reach_of_run? run)
    obtain ⟨t, behind, comes⟩ :=
      (errands (.file (.exists "a")) 0 0 [] rfl rfl rfl willing []).2 nofun
    cases behind
    exact ⟨_, run, rfl, rfl, inner 0 0 (by decide) (Or.inr ⟨0, rfl⟩), comes⟩
  · have run : program.run? (World.init (.ofLimits [{}, {}] false)) readAfterClose = some _ := rfl
    obtain ⟨inner, errands, -⟩ :=
      passed_on [{}, {}] false (by decide) (Program.reach_of_run? run)
    obtain ⟨r, -, refused, comes⟩ :=
      (errands (.file (.read "a")) 0 0 [] rfl rfl rfl willing []).1 rfl
    obtain rfl := refused _ rfl
    exact ⟨_, run, rfl, rfl, inner 0 0 (by decide) (Or.inl (List.Mem.head _)), comes⟩

end Lending.Cache
