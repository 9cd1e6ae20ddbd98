import Lending.Proofs.Cache.Loans

/-!
# What a move does with the sessions of a level

A move changes one frame, and what it does to a level is what that frame does. Said once for whole
moves, so that a law about the sessions of a level need not go through the ways in which frames
come and go.

* `OfLevel`: a figure of frames that counts only those with a part in the level.
* `Dealt`: what a move does to the idle sessions, to those on loan and to any such figure
  (`dealt_of_apply`).
-/

namespace Lending.Cache

/-- Level `k` has the same sessions idle, and the same on loan. -/
structure SameStock (k : Nat) (c c' : Cache) : Prop where
  idle   : (c'.level k).pool.idle = (c.level k).pool.idle
  onLoan : (c'.level k).onLoan = (c.level k).onLoan

theorem SameLoans.stock {k : Nat} {c c' : Cache} (h : SameLoans k c c') : SameStock k c c' :=
  ⟨congrArg Pool.idle h.pool, h.onLoan⟩

/-- A figure that takes no notice of frames without a part in level `k`. -/
def OfLevel (k : Nat) (ω : Frame → Nat) : Prop := ∀ f : Frame, f.Bare k → ω f = 0

/-- A call of level `k`'s pool gets an answer: from the remote side, from an operation of the next
level, or at once, where a remote session is let go. -/
inductive Hears (k : Nat) (w : World Cache Frame) (m : Move Op Reply) (x : Pool.Call Nat) :
    Pool.Reply Nat → Prop
  | heard {q : Pool.Query Nat} {r : Reply} (hm : program.heard w m = some (.pool k x, r))
      (hx : x.need (w.shared.level k).pool = .ask q) : Hears k w m x (r.toPool q)
  | letGo {s : Nat} (hm : program.stepped w m = some (.pool k x))
      (hx : x.need (w.shared.level k).pool = .ask (.drop s)) : Hears k w m x .done

section

variable (k : Nat) (w : World Cache Frame) (m : Move Op Reply) (w' : World Cache Frame)

/-- What a move does with the sessions of level `k`. -/
inductive Dealt : Prop
  | none (same : SameStock k w.shared w'.shared)
      (frames : ∀ ω, OfLevel k ω → w'.total ω = w.total ω)
      (hears : ∀ x r, program.heard w m = some (.pool k x, r) → x.bare = true)
      (top : ∀ f, Program.put w' m = some f → f.Bare k)
  | pool {moment : Moment} {x x' : Pool.Call Nat} (hm : program.stepped w m = some (.pool k x))
      (hs : Pool.Call.Steps moment (w.shared.level k).pool x (w'.shared.level k).pool x')
      (hl : (w'.shared.level k).onLoan = (w.shared.level k).onLoan)
      (frames : ∀ ω, w'.total ω + ω (.pool k x) = w.total ω + ω (.pool k x'))
      (top : Program.put w' m = some (.pool k x'))
  | answered {x x' : Pool.Call Nat} {reply : Pool.Reply Nat} (hm : Hears k w m x reply)
      (ha : Pool.Call.Answered x reply x')
      (same : SameStock k w.shared w'.shared)
      (frames : ∀ ω, OfLevel k ω → w'.total ω + ω (.pool k x) = w.total ω + ω (.pool k x'))
      (top : Program.put w' m = some (.pool k x'))
  | taken {h s : Nat} {f' : Frame} (hm : program.stepped w m = some (.giveBack k h))
      (hf' : f' = .closing k s ∨ f' = .pool k (.start (.release s)))
      (idle : (w'.shared.level k).pool.idle = (w.shared.level k).pool.idle)
      (hl : (s :: (w'.shared.level k).onLoan).Perm (w.shared.level k).onLoan)
      (frames : ∀ ω, OfLevel k ω → w'.total ω = w.total ω + ω f')
      (top : Program.put w' m = some f')
  | lent {epoch s : Nat} (hm : program.heard w m = some (.borrowing k epoch, .got s))
      (idle : (w'.shared.level k).pool.idle = (w.shared.level k).pool.idle)
      (hl : (w'.shared.level k).onLoan = (w.shared.level k).onLoan ++ [s])
      (frames : ∀ ω, OfLevel k ω →
        w'.total ω + ω (.pool k (.over (.got s))) = w.total ω)
      (top : ∀ f, Program.put w' m = some f → f.Bare k)
  | closed {s : Nat} {r : Reply} (hm : program.heard w m = some (.closing k s, r))
      (same : SameStock k w.shared w'.shared)
      (frames : ∀ ω, OfLevel k ω →
        w'.total ω + ω (.closing k s) = w.total ω + ω (.pool k (.start (.discard s))))
      (top : Program.put w' m = some (.pool k (.start (.discard s))))
  | closeRaised {s : Nat} {message : String}
      (hm : program.heard w m = some (.closing k s, .raised message))
      (same : SameStock k w.shared w'.shared)
      (frames : ∀ ω, OfLevel k ω → w'.total ω + ω (.closing k s) = w.total ω)
      (top : ∀ f, Program.put w' m = some f → f.Bare k)

end

section

variable {k i : Nat} {c : Cache} {w w' : World Cache Frame} {m : Move Op Reply}
  {notices : List Notice}

/-- What a reply does with the sessions of a level, where the frame that gets it is the top one,
but for one of figure `n` that has gone with the reply. -/
theorem Frame.LoanResume.dealt {f f' : Frame} {r : Reply}
    (h : Frame.LoanResume k w.shared w'.shared f r f') (hm : program.heard w m = some (f, r))
    (top : Program.put w' m = some f') (φ : (Frame → Nat) → Nat)
    (frames : ∀ ω, OfLevel k ω → w'.total ω + φ ω + ω f = w.total ω + ω f')
    (none : ∀ ω, OfLevel k ω → (∀ epoch s, f = .borrowing k epoch → r ≠ .got s) → φ ω = 0)
    (given : ∀ ω epoch s, f = .borrowing k epoch → r = .got s →
      φ ω = ω (.pool k (.over (.got s)))) : Dealt k w m w' := by
  have topBare : f'.Bare k → ∀ g, Program.put w' m = some g → g.Bare k := by
    intro hf' g hg
    rw [top] at hg
    cases hg
    exact hf'
  cases h with
  | none same hf hf' hr =>
    refine .none same.stock (fun ω hω => ?_) (fun x r' heard => ?_) (topBare hf')
    · have := frames ω hω
      rw [hω f hf, hω f' hf', none ω hω hr] at this
      exact this
    · rw [hm] at heard
      cases heard
      exact hf rfl
  | answered count hf hf' hx ha hp hl =>
    subst hf hf'
    refine .answered (.heard hm hx) ha ⟨by rw [hp, Pool.idle_count], hl⟩ (fun ω hω => ?_) top
    have := frames ω hω
    rw [none ω hω nofun] at this
    exact this
  | lent hf hr hf' hp hl =>
    subst hf hr hf'
    refine .lent hm (congrArg Pool.idle hp) hl (fun ω hω => ?_) (topBare trivial)
    have := frames ω hω
    rw [given ω _ _ rfl rfl, hω (.borrowing _ _) trivial, hω (.over _) trivial] at this
    exact this
  | closed hf hr hf' same =>
    subst hf hf'
    refine .closed hm same.stock (fun ω hω => ?_) top
    have := frames ω hω
    rw [none ω hω nofun] at this
    exact this
  | closeRaised hf hr hf' same =>
    subst hf hr hf'
    refine .closeRaised hm same.stock (fun ω hω => ?_) (topBare trivial)
    have := frames ω hω
    rw [none ω hω nofun, hω (.over _) trivial] at this
    exact this

/-- **What a move does with the sessions of a level.** -/
theorem dealt_of_apply (hk : k < w.shared.depth) (hw : program.Reach (World.init c) w)
    (ha : program.apply w m = some (w', notices)) : Dealt k w m w' := by
  have stands := (stands_of_reach hw).2
  have bare : ∀ {i : Nat} {s : Cache} {f : Frame} {below : List Frame} {m : Move Op Reply},
      i < w.threads.length → f.Bare k →
      Program.touched (w.update i s (f :: below)) m =
        some (i, ((w.update i s (f :: below)).stack i).tail.length) →
      ∀ g, Program.put (w.update i s (f :: below)) m = some g → g.Bare k := by
    intro i s f below m hi hf hm g hg
    rw [Program.put_update hi hm] at hg
    cases hg
    exact hf
  cases Program.effect_of_apply ha with
  | spawn =>
    exact .none ⟨rfl, rfl⟩ (fun ω _ => World.total_spawn ω _) (fun _ _ heard => nomatch heard)
      (fun _ put => nomatch put)
  | @enter i op hi =>
    refine .none ⟨rfl, rfl⟩ (fun ω hω => ?_) (fun _ _ heard => nomatch heard)
      (bare hi trivial rfl)
    have pushed := World.total_push ω hi w.shared (program.start op)
    rw [hω (program.start op) trivial] at pushed
    exact pushed
  | @step i moment f f' below c' _ hst hne he =>
    have unheard : ∀ {g r}, program.heard w (.run i moment) ≠ some (g, r) := by
      intro g r
      rw [Program.heard_step hst hne]
      exact nofun
    have frames := fun ω => World.total_replace ω hst c' f'
    have stepped := Program.stepped_step (m := moment) hst hne
    have hi := World.lt_length_of_stack hst
    cases (Frame.steps hne he).loan hk with
    | none same hf hf' =>
      refine .none same.stock (fun ω hω => ?_) (fun x r heard => absurd heard unheard)
        (bare hi hf' rfl)
      have := frames ω
      rw [hω f hf, hω f' hf'] at this
      exact this
    | pool hf hf' hs hl =>
      subst hf hf'
      exact .pool stepped hs hl frames (Program.put_update hi rfl)
    | answered count hf hf' hx ha' hp hl =>
      subst hf hf'
      refine .answered (.letGo stepped hx) ha' ⟨?_, hl⟩ (fun ω _ => frames ω)
        (Program.put_update hi rfl)
      rw [World.shared_update, hp, Pool.idle_count]
    | @taken h s hf ht hf' hp hl =>
      subst hf
      refine .taken stepped (hf'.imp And.left And.left) (congrArg Pool.idle hp) hl
        (fun ω hω => ?_) (Program.put_update hi rfl)
      have := frames ω
      rw [hω (.giveBack k h) trivial] at this
      exact this
  | @descend i moment f g below hst hne =>
    have started := Frame.started_of_reach hw f (World.mem_frames_of_stack hst)
    refine .none ⟨rfl, rfl⟩ (fun ω hω => ?_) (fun x r heard => ?_)
      (bare (World.lt_length_of_stack hst) ((Frame.needs started hne).bare k) rfl)
    · have := World.total_push ω (World.lt_length_of_stack hst) w.shared g
      rw [hst, hω g ((Frame.needs started hne).bare k)] at this
      exact this
    · rw [Program.heard_descend hst hne] at heard
      exact absurd heard nofun
  | @ascend i moment f g g' h rest r c' _ hst hne hg he =>
    have top := stands i
    rw [hst] at top
    have ended := top.1.over (k := k) hne
    refine ((Frame.resumed (Or.inr ⟨h, hg⟩) he).loan hk).dealt
      (Program.heard_ascend hst hne) (Program.put_update (World.lt_length_of_stack hst) rfl)
      (fun ω => ω f) (fun ω _ => ?_) (fun ω hω hr => ?_) ?_
    · have total := World.total_ascend ω hst c' g'
      omega
    · cases ended with
      | bare hf => exact hω f hf
      | acquired hf hr' hb =>
        obtain ⟨rfl, rfl⟩ := List.cons.inj hb
        exact absurd hr' (hr _ _ rfl)
    · rintro ω epoch s rfl rfl
      cases ended with
      | bare hf hr => exact absurd rfl (hr epoch rest s rfl)
      | acquired hf hr =>
        cases hr
        exact congrArg ω hf
  | @answer i r f f' below q c' _ hst hne he =>
    refine ((Frame.resumed (Or.inl ⟨q, hne⟩) he).loan hk).dealt
      (Program.heard_answer hst) (Program.put_update (World.lt_length_of_stack hst) rfl)
      (fun _ => 0) (fun ω _ => World.total_replace ω hst c' f') (fun _ _ _ => rfl) ?_
    rintro ω epoch s rfl -
    exact absurd hne nofun
  | @expire i f below t hst ht =>
    obtain ⟨parked, level⟩ := Frame.exists_level_expire ht k
    exact .none ⟨by rw [level], by rw [level]; rfl⟩ (fun ω _ => rfl)
      (fun _ _ heard => nomatch heard) (fun _ put => nomatch put)
  | @collect i f below r hst hne =>
    have top := stands i
    rw [hst] at top
    refine .none ⟨rfl, rfl⟩ (fun ω hω => ?_) (fun _ _ heard => nomatch heard)
      (fun _ put => nomatch put)
    have popped := World.total_pop ω hst w.shared
    rw [hω f ((top.1.over (k := k) hne).bare_of_collect ha hst)] at popped
    exact popped

end

end Lending.Cache
