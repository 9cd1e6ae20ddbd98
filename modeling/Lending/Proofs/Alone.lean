import Lending.Proofs.Program

/-!
# A thread left alone

A thread that no other thread disturbs, and whose callbacks do not use the program, does one thing
after the other. What is left open is what the time source says and what the callbacks answer. The
callbacks are an `Outside`, which answers each question by what it remembers; the time source may
say anything.

* `Program.alone`: the next move of such a thread.
* `Program.Comes`: it comes to a world of some kind, whatever the time source says. This says that
  it gets there, not only that nothing else can happen on the way; `not_comes` is for a thread that
  never does.
* `Program.Leads`: the same of the operation on top of a thread, whatever it stands on. There is one
  law for each thing that an operation can need, so what becomes of an operation is found by going
  through it.
* `of_answers`: both depend on what the callbacks answer, not on what they remember.
-/

namespace Lending

/-- What answers the callbacks of a thread without using the program: to each question an answer,
and what is remembered from then on. -/
abbrev Outside (Memory Query Reply : Type) := Memory → Query → Reply × Memory

namespace Program

variable {Shared Frame Op Query Reply Memory : Type}

section

variable (P : Program Shared Frame Op Query Reply) (O : Outside Memory Query Reply)

/-- What thread `i` does next, left alone; `none` where it cannot go on by itself. -/
def alone (i : Nat) (t : Moment) (x : Memory × World Shared Frame) :
    Option (Memory × World Shared Frame) :=
  match P.status x.2 i with
  | .ready => (P.apply x.2 (.run i t)).map fun y => (x.1, y.1)
  | .asking q => (P.apply x.2 (.answer i (O x.1 q).1)).map fun y => ((O x.1 q).2, y.1)
  | _ => none

/-- Thread `i`, left alone, comes to a world of which `G` holds, whatever the time source says. -/
inductive Comes (i : Nat) (G : Memory → World Shared Frame → Prop) :
    Memory → World Shared Frame → Prop
  | here {mem : Memory} {w : World Shared Frame} (h : G mem w) : Comes i G mem w
  | move {mem : Memory} {w : World Shared Frame} (next : Moment → Memory × World Shared Frame)
      (ha : ∀ t, P.alone O i t (mem, w) = some (next t))
      (h : ∀ t, Comes i G (next t).1 (next t).2) : Comes i G mem w

/-- The operation `f` on top of a thread that is left alone goes on to one of which `G` holds, on
the same frames, whatever these are. -/
def Leads (f : Frame) (s : Shared) (mem : Memory) (G : Memory → Shared → Frame → Prop) : Prop :=
  ∀ (w : World Shared Frame) (i : Nat) (below : List Frame), w.stack i = f :: below →
    w.shared = s → P.Comes O i (fun mem' w' => ∃ g, w' = w.update i w'.shared (g :: below) ∧
      G mem' w'.shared g) mem w

end

variable {P : Program Shared Frame Op Query Reply} {O : Outside Memory Query Reply} {i : Nat}
  {G H : Memory → World Shared Frame → Prop} {mem : Memory} {w : World Shared Frame}

/-! ## Where a thread comes -/

theorem Comes.trans (h : P.Comes O i G mem w)
    (hG : ∀ mem w, G mem w → P.Comes O i H mem w) : P.Comes O i H mem w := by
  induction h with
  | here h => exact hG _ _ h
  | move next ha _ ih => exact .move next ha ih

theorem Comes.imp (h : P.Comes O i G mem w) (hG : ∀ mem w, G mem w → H mem w) :
    P.Comes O i H mem w :=
  h.trans fun mem w hw => .here (hG mem w hw)

/-- A move of a thread that is left alone is a move of the program. -/
theorem apply_of_alone {t : Moment} {x y : Memory × World Shared Frame}
    (h : P.alone O i t x = some y) : ∃ m notices, P.apply x.2 m = some (y.2, notices) := by
  unfold alone at h
  split at h
  · obtain ⟨z, ha, rfl⟩ := Option.map_eq_some_iff.mp h
    exact ⟨_, z.2, ha⟩
  · obtain ⟨z, ha, rfl⟩ := Option.map_eq_some_iff.mp h
    exact ⟨_, z.2, ha⟩
  · cases h

/-- A thread comes by a run to where it comes. -/
theorem Comes.and_reach (h : P.Comes O i G mem w) :
    P.Comes O i (fun mem' w' => P.Reach w w' ∧ G mem' w') mem w := by
  induction h with
  | here h => exact .here ⟨.refl, h⟩
  | move next ha _ ih =>
    refine .move next ha fun t => (ih t).imp ?_
    rintro mem' w' ⟨reach, hG⟩
    obtain ⟨m, notices, happ⟩ := apply_of_alone (ha t)
    exact ⟨(Reach.move m .refl happ).trans reach, hG⟩

theorem Comes.exists_world (h : P.Comes O i G mem w) : ∃ mem' w', G mem' w' := by
  induction h with
  | here h => exact ⟨_, _, h⟩
  | move _ _ _ ih => exact ih default

/-- What a thread comes to, a run comes to. -/
theorem Comes.reach (h : P.Comes O i G mem w) : ∃ mem' w', P.Reach w w' ∧ G mem' w' :=
  h.and_reach.exists_world

/-- A thread does not come to what its moves keep it from. -/
theorem not_comes {I : Memory → World Shared Frame → Prop}
    (keep : ∀ {mem w t y}, I mem w → P.alone O i t (mem, w) = some y → I y.1 y.2)
    (out : ∀ {mem w}, I mem w → ¬G mem w) (hI : I mem w) : ¬P.Comes O i G mem w := by
  intro h
  induction h with
  | here h => exact out hI h
  | move next ha _ ih => exact ih default (keep hI (ha default))

/-- **What callbacks remember is their own affair**: where others answer the same, a thread comes to
the same worlds. -/
theorem Comes.of_answers {Memory' : Type} {O' : Outside Memory' Query Reply}
    {G : Memory' → World Shared Frame → Prop} {R : Memory → Memory' → Prop} {mem' : Memory'}
    (same : ∀ mem mem' q, R mem mem' → (O mem q).1 = (O' mem' q).1 ∧ R (O mem q).2 (O' mem' q).2)
    (h : P.Comes O' i G mem' w) (hR : R mem mem') :
    P.Comes O i (fun mem w => ∃ mem', R mem mem' ∧ G mem' w) mem w := by
  induction h generalizing mem with
  | here h => exact .here ⟨_, hR, h⟩
  | @move mem' w next ha _ ih =>
    have follows : ∀ t, ∃ mem₁, R mem₁ (next t).1 ∧
        P.alone O i t (mem, w) = some (mem₁, (next t).2) := by
      intro t
      have hnext := ha t
      unfold alone at hnext ⊢
      dsimp only at hnext ⊢
      split at hnext
      · obtain ⟨y, happ, hy⟩ := Option.map_eq_some_iff.mp hnext
        rw [happ, ← hy]
        exact ⟨mem, hR, rfl⟩
      · rename_i q hq
        obtain ⟨answers, hR'⟩ := same mem mem' q hR
        obtain ⟨y, happ, hy⟩ := Option.map_eq_some_iff.mp hnext
        rw [answers, happ, ← hy]
        exact ⟨_, hR', rfl⟩
      · cases hnext
    choose mem₁ hR₁ ha₁ using follows
    exact .move (fun t => (mem₁ t, (next t).2)) ha₁ fun t => ih t (hR₁ t)

/-! ## What an operation leads to -/

section

variable {f g : Frame} {below : List Frame} {q : Query} {r : Reply} {t : Moment}

theorem alone_step (hs : w.stack i = f :: below) (hn : P.need w.shared f = .step) :
    P.alone O i t (mem, w) = some (mem, w.update i (P.step t w.shared f).1
      ((P.step t w.shared f).2.1 :: below)) := by
  simp only [alone, status, apply, runStack, hs, hn, Option.map_some]

theorem alone_ask (hs : w.stack i = f :: below) (hn : P.need w.shared f = .ask q) :
    P.alone O i t (mem, w) = some ((O mem q).2, w.update i (P.resume w.shared f (O mem q).1).1
      ((P.resume w.shared f (O mem q).1).2.1 :: below)) := by
  simp only [alone, status, apply, hs, hn, Option.map_some]

theorem alone_sub (hs : w.stack i = f :: below) (hn : P.need w.shared f = .sub g) :
    P.alone O i t (mem, w) = some (mem, w.update i w.shared (g :: f :: below)) := by
  simp only [alone, status, apply, runStack, hs, hn, Option.map_some]

theorem alone_over {h : Frame} (hs : w.stack i = g :: f :: below)
    (hn : P.need w.shared g = .over r) (hf : P.need w.shared f = .sub h) :
    P.alone O i t (mem, w) = some (mem, w.update i (P.resume w.shared f r).1
      ((P.resume w.shared f r).2.1 :: below)) := by
  simp only [alone, status, apply, runStack, hs, hn, hf, Option.map_some]

end

namespace Leads

variable {f g : Frame} {s : Shared} {q : Query} {J K : Memory → Shared → Frame → Prop}

theorem here (h : J mem s f) : P.Leads O f s mem J := by
  intro w i below hs hw
  refine .here ⟨f, ?_, hw ▸ h⟩
  rw [← hs, World.update_stack]

/-- An operation goes on from where it has come to. -/
theorem trans (h : P.Leads O f s mem J)
    (hJ : ∀ mem s f, J mem s f → P.Leads O f s mem K) : P.Leads O f s mem K := by
  intro w i below hs hw
  refine (h w i below hs hw).trans ?_
  rintro mem' w' ⟨g, hw', hg⟩
  have top : w'.stack i = g :: below := by
    rw [hw']
    exact World.stack_update_self (World.lt_length_of_stack hs) ..
  refine (hJ mem' w'.shared g hg w' i below top rfl).imp ?_
  rintro mem'' w'' ⟨g', hw'', hg'⟩
  refine ⟨g', ?_, hg'⟩
  rw [hw'', hw']
  exact World.update_update ..

theorem imp (h : P.Leads O f s mem J) (hJ : ∀ mem s f, J mem s f → K mem s f) :
    P.Leads O f s mem K :=
  h.trans fun mem s f hf => here (hJ mem s f hf)

theorem of_answers {Memory' : Type} {O' : Outside Memory' Query Reply}
    {J : Memory' → Shared → Frame → Prop} {R : Memory → Memory' → Prop} {mem' : Memory'}
    (same : ∀ mem mem' q, R mem mem' → (O mem q).1 = (O' mem' q).1 ∧ R (O mem q).2 (O' mem' q).2)
    (h : P.Leads O' f s mem' J) (hR : R mem mem') :
    P.Leads O f s mem fun mem s f => ∃ mem', R mem mem' ∧ J mem' s f := by
  intro w i below hs hw
  refine ((h w i below hs hw).of_answers same hR).imp ?_
  rintro mem₁ w₁ ⟨mem₁', hR₁, g, hw₁, hg⟩
  exact ⟨g, hw₁, mem₁', hR₁, hg⟩

/-- What the operation leads to after a move on the same frames. -/
theorem of_alone {mem' : Memory} {s' : Moment → Shared} {f' : Moment → Frame}
    (ha : ∀ (w : World Shared Frame) (i : Nat) (below : List Frame) (t : Moment),
      w.stack i = f :: below → w.shared = s →
      P.alone O i t (mem, w) = some (mem', w.update i (s' t) (f' t :: below)))
    (h : ∀ t, P.Leads O (f' t) (s' t) mem' J) : P.Leads O f s mem J := by
  intro w i below hs hw
  refine .move (fun t => (mem', w.update i (s' t) (f' t :: below)))
    (fun t => ha w i below t hs hw) fun t => ?_
  refine (h t _ i below (World.stack_update_self (World.lt_length_of_stack hs) ..) rfl).imp ?_
  rintro mem'' w'' ⟨g, hw'', hg⟩
  refine ⟨g, ?_, hg⟩
  rw [hw'']
  exact World.update_update ..

/-- An operation that needs nothing takes a step. -/
theorem step (hn : P.need s f = .step)
    (h : ∀ t, P.Leads O (P.step t s f).2.1 (P.step t s f).1 mem J) : P.Leads O f s mem J := by
  refine of_alone (fun w i below t hs hw => ?_) h
  subst hw
  exact alone_step hs hn

/-- A callback answers. -/
theorem ask (hn : P.need s f = .ask q)
    (h : P.Leads O (P.resume s f (O mem q).1).2.1 (P.resume s f (O mem q).1).1 (O mem q).2 J) :
    P.Leads O f s mem J := by
  refine of_alone (fun w i below t hs hw => ?_) fun _ => h
  subst hw
  exact alone_ask hs hn

/-- An operation that needs another one goes on with its result. -/
theorem sub (hn : P.need s f = .sub g)
    (h : P.Leads O g s mem fun mem' s' g' => ∃ r h, P.need s' g' = .over r ∧
      P.need s' f = .sub h ∧ P.Leads O (P.resume s' f r).2.1 (P.resume s' f r).1 mem' J) :
    P.Leads O f s mem J := by
  intro w i below hs hw
  have hi := World.lt_length_of_stack hs
  subst hw
  refine .move (fun _ => (mem, w.update i w.shared (g :: f :: below)))
    (fun t => alone_sub hs hn) fun _ => ?_
  refine (h _ i (f :: below) (World.stack_update_self hi ..) rfl).trans ?_
  rintro mem' w' ⟨g', hw', r, f', ended, needs, rest⟩
  rw [World.update_update] at hw'
  have top : w'.stack i = g' :: f :: below := by
    rw [hw']
    exact World.stack_update_self hi ..
  have hi' := World.lt_length_of_stack top
  refine .move (fun _ => (mem', w'.update i (P.resume w'.shared f r).1
    ((P.resume w'.shared f r).2.1 :: below))) (fun t => alone_over top ended needs) fun _ => ?_
  refine (rest _ i below (World.stack_update_self hi' ..) rfl).imp ?_
  rintro mem'' w'' ⟨g'', hw'', hg⟩
  refine ⟨g'', ?_, hg⟩
  rw [hw'', hw', World.update_update, World.update_update]
  rfl

end Leads

end Program

end Lending
