import Lending.Proofs.Program
import Mathlib.Data.List.Infix

/-!
# What a frame stands on

No frame comes onto a stack by itself. An operation starts upon nothing or upon a callback that
runs, and what a frame needs starts upon that frame; so the frames below a frame tell what it is
for.

* `Stacked R fs`: `R` holds of every frame of a stack, with the frames below it.
* `stacked_of_effect`: a move keeps it, if it is kept for what the move puts on top, and no other
  frame minds the change of the shared state.
* `World.weigh`: a figure summed over all frames, each with the frames below it.
* `below_opens`: below another frame there are only frames that ask or need something.
* `not_sub_of_collect`: a caller takes no result that the frame below needs.
-/

namespace Lending

section

variable {Frame : Type} {R S : Frame → List Frame → Prop} {f : Frame} {below fs : List Frame}

/-- `R` holds of every frame of a stack, with the frames below it. -/
def Stacked (R : Frame → List Frame → Prop) : List Frame → Prop
  | [] => True
  | f :: below => R f below ∧ Stacked R below

@[simp] theorem stacked_nil : Stacked R [] := trivial

@[simp] theorem stacked_cons : Stacked R (f :: below) ↔ R f below ∧ Stacked R below := Iff.rfl

theorem stacked_iff : Stacked R fs ↔ ∀ f below, f :: below <:+ fs → R f below := by
  induction fs with
  | nil =>
    simp only [stacked_nil, true_iff]
    intro f below h
    exact absurd (List.suffix_nil.mp h) (List.cons_ne_nil _ _)
  | cons g rest ih =>
    rw [stacked_cons, ih]
    constructor
    · rintro ⟨top, others⟩ f below h
      rcases List.suffix_cons_iff.mp h with h | h
      · obtain ⟨rfl, rfl⟩ := List.cons.inj h
        exact top
      · exact others f below h
    · intro h
      exact ⟨h g rest (List.suffix_refl _),
        fun f below hs => h f below (hs.trans (List.suffix_cons g rest))⟩

theorem Stacked.imp (h : Stacked R fs)
    (hr : ∀ f below, below.length < fs.length → R f below → S f below) : Stacked S fs := by
  induction fs with
  | nil => exact stacked_nil
  | cons f below ih =>
    refine ⟨hr f below (Nat.lt_succ_self _) h.1, ih h.2 fun g rest hlt => hr g rest ?_⟩
    exact Nat.lt_succ_of_lt hlt

/-- The sum of a figure over a stack, each frame taken with the frames below it. -/
def weight (ω : Frame → List Frame → Nat) : List Frame → Nat
  | [] => 0
  | f :: below => ω f below + weight ω below

end

/-! ## Figures that depend on the frames below -/

namespace World

variable {Shared Frame : Type} {w : World Shared Frame} {i : Nat} {f : Frame} {below : List Frame}

/-- The sum of a figure over the stacks of all threads. -/
def tally (φ : List Frame → Nat) (w : World Shared Frame) : Nat := (w.threads.map φ).sum

theorem tally_update (φ : List Frame → Nat) (hi : i < w.threads.length) (s : Shared)
    (fs : List Frame) :
    (w.update i s fs).tally φ + φ (w.stack i) = w.tally φ + φ fs := by
  have set : ∀ (ts : List (List Frame)) (i : Nat), i < ts.length →
      ((ts.set i fs).map φ).sum + φ (ts[i]?.getD []) = (ts.map φ).sum + φ fs := by
    intro ts
    induction ts with
    | nil => exact fun i hi => absurd hi (by simp)
    | cons t ts ih =>
      intro i hi
      cases i with
      | zero => simp; omega
      | succ i =>
        have := ih i (by simpa using hi)
        simp only [List.set_cons_succ, List.map_cons, List.sum_cons, List.getElem?_cons_succ]
        omega
  exact set w.threads i hi

/-- One thread's figure is at most the sum. -/
theorem le_tally (φ : List Frame → Nat) (hi : i < w.threads.length) :
    φ (w.stack i) ≤ w.tally φ := by
  refine List.le_sum_of_mem (List.mem_map.mpr ⟨w.stack i, ?_, rfl⟩)
  unfold stack
  rw [List.getElem?_eq_getElem hi]
  exact List.getElem_mem hi

/-- Where no thread has anything to do, there is nothing to sum. -/
theorem tally_eq_zero {φ : List Frame → Nat} (h : ∀ i, w.stack i = []) (hφ : φ [] = 0) :
    w.tally φ = 0 := by
  refine List.sum_eq_zero fun n hn => ?_
  obtain ⟨fs, hfs, rfl⟩ := List.mem_map.mp hn
  obtain ⟨i, hi, rfl⟩ := List.mem_iff_getElem.mp hfs
  have empty : w.threads[i] = [] := by simpa [stack, hi] using h i
  rw [empty, hφ]

/-- The sum of a figure over the frames of all threads, each taken with the frames below it. -/
def weigh (ω : Frame → List Frame → Nat) (w : World Shared Frame) : Nat := w.tally (weight ω)

variable (ω : Frame → List Frame → Nat)

theorem weigh_update (hi : i < w.threads.length) (s : Shared) (fs : List Frame) :
    (w.update i s fs).weigh ω + weight ω (w.stack i) = w.weigh ω + weight ω fs :=
  tally_update (weight ω) hi s fs

/-- The top frame of a thread is replaced. -/
theorem weigh_replace (h : w.stack i = f :: below) (s : Shared) (f' : Frame) :
    (w.update i s (f' :: below)).weigh ω + ω f below = w.weigh ω + ω f' below := by
  have := weigh_update ω (lt_length_of_stack h) s (f' :: below)
  rw [h] at this
  simp only [weight] at this
  omega

/-- A frame comes on top of a thread. -/
theorem weigh_push (hi : i < w.threads.length) (s : Shared) (f : Frame) :
    (w.update i s (f :: w.stack i)).weigh ω = w.weigh ω + ω f (w.stack i) := by
  have := weigh_update ω hi s (f :: w.stack i)
  simp only [weight] at this
  omega

/-- The top frame of a thread goes. -/
theorem weigh_pop (h : w.stack i = f :: below) (s : Shared) :
    (w.update i s below).weigh ω + ω f below = w.weigh ω := by
  have := weigh_update ω (lt_length_of_stack h) s below
  rw [h] at this
  simp only [weight] at this
  omega

/-- The top frame of a thread goes, and the one below it goes on. -/
theorem weigh_ascend {g : Frame} {rest : List Frame} (h : w.stack i = f :: g :: rest) (s : Shared)
    (g' : Frame) :
    (w.update i s (g' :: rest)).weigh ω + ω f (g :: rest) + ω g rest =
      w.weigh ω + ω g' rest := by
  have := weigh_update ω (lt_length_of_stack h) s (g' :: rest)
  rw [h] at this
  simp only [weight] at this
  omega

@[simp] theorem weigh_spawn (s : Shared) :
    (⟨s, w.threads ++ [[]]⟩ : World Shared Frame).weigh ω = w.weigh ω := by
  simp [weigh, tally, weight]

/-- A figure that does not look at the frames below. -/
theorem total_eq_weigh (ω : Frame → Nat) : w.total ω = w.weigh fun f _ => ω f := by
  have each : ∀ fs : List Frame, (fs.map ω).sum = weight (fun f _ => ω f) fs := by
    intro fs
    induction fs with
    | nil => rfl
    | cons f fs ih => simp [weight, ih]
  unfold total frames weigh tally
  induction w.threads with
  | nil => rfl
  | cons fs ts ih =>
    rw [List.flatten_cons, List.map_append, List.sum_append, List.map_cons, List.sum_cons, each, ih]

/-- One frame's figure is at most the sum. -/
theorem le_weigh (h : f :: below <:+ w.stack i) : ω f below ≤ w.weigh ω := by
  have each : ∀ {fs : List Frame}, f :: below <:+ fs → ω f below ≤ weight ω fs := by
    intro fs
    induction fs with
    | nil => exact fun h => absurd (List.suffix_nil.mp h) (List.cons_ne_nil _ _)
    | cons g rest ih =>
      intro h
      rcases List.suffix_cons_iff.mp h with h | h
      · obtain ⟨rfl, rfl⟩ := List.cons.inj h
        exact Nat.le_add_right ..
      · exact Nat.le_trans (ih h) (Nat.le_add_left ..)
  have hi : i < w.threads.length := by
    by_contra hi
    unfold stack at h
    rw [List.getElem?_eq_none (by omega)] at h
    exact absurd (List.suffix_nil.mp h) (List.cons_ne_nil _ _)
  exact Nat.le_trans (each h) (le_tally (weight ω) hi)

theorem weigh_mono {ω ω' : Frame → List Frame → Nat} (h : ∀ f below, ω f below ≤ ω' f below) :
    w.weigh ω ≤ w.weigh ω' := by
  have each : ∀ fs, weight ω fs ≤ weight ω' fs := by
    intro fs
    induction fs with
    | nil => exact Nat.le_refl _
    | cons f below ih => exact Nat.add_le_add (h f below) ih
  exact List.sum_le_sum fun fs _ => each fs

theorem weigh_add (ω' : Frame → List Frame → Nat) :
    (w.weigh fun f below => ω f below + ω' f below) = w.weigh ω + w.weigh ω' := by
  have each : ∀ fs, weight (fun f below => ω f below + ω' f below) fs =
      weight ω fs + weight ω' fs := by
    intro fs
    induction fs with
    | nil => rfl
    | cons f below ih => simp only [weight, ih]; omega
  unfold weigh tally
  rw [← List.sum_map_add]
  exact congrArg List.sum (List.map_congr_left fun fs _ => each fs)

/-- A figure is charged to the frame itself where it has `p`, or to a frame right below that has
not; so what a top frame has is left over, if it has not `p`. -/
theorem weigh_add_le_of_charged {υ : Frame → Nat} {p : Frame → Prop} [DecidablePred p]
    (h : ∀ i, Stacked (fun f below => ω f below ≤ (if p f then υ f else 0) +
      (below.head?.map fun g => if p g then 0 else υ g).getD 0) (w.stack i)) :
    (w.weigh ω + w.tally fun fs => (fs.head?.map fun g => if p g then 0 else υ g).getD 0) ≤
      w.total υ := by
  have each : ∀ fs, Stacked (fun f below => ω f below ≤ (if p f then υ f else 0) +
      (below.head?.map fun g => if p g then 0 else υ g).getD 0) fs →
      weight ω fs + (fs.head?.map fun g => if p g then 0 else υ g).getD 0 ≤ (fs.map υ).sum := by
    intro fs
    induction fs with
    | nil => exact fun _ => Nat.le_refl _
    | cons f below ih =>
      rintro ⟨top, rest⟩
      have := ih rest
      simp only [weight, List.head?_cons, Option.map_some, Option.getD_some, List.map_cons,
        List.sum_cons]
      by_cases hp : p f
      · rw [if_pos hp] at top ⊢
        omega
      · rw [if_neg hp] at top ⊢
        omega
  have all : ∀ fs ∈ w.threads,
      weight ω fs + (fs.head?.map fun g => if p g then 0 else υ g).getD 0 ≤ (fs.map υ).sum := by
    intro fs hfs
    obtain ⟨i, hi, rfl⟩ := List.mem_iff_getElem.mp hfs
    exact each _ (by simpa [stack, hi] using h i)
  unfold total frames weigh tally
  generalize w.threads = ts at all
  induction ts with
  | nil => exact Nat.le_refl _
  | cons fs ts ih =>
    have top := all fs List.mem_cons_self
    have rest := ih fun fs hfs => all fs (List.mem_cons_of_mem _ hfs)
    simp only [List.map_cons, List.sum_cons, List.flatten_cons, List.map_append, List.sum_append]
    omega

theorem weigh_le_of_charged {υ : Frame → Nat} {p : Frame → Prop} [DecidablePred p]
    (h : ∀ i, Stacked (fun f below => ω f below ≤ (if p f then υ f else 0) +
      (below.head?.map fun g => if p g then 0 else υ g).getD 0) (w.stack i)) :
    w.weigh ω ≤ w.total υ :=
  Nat.le_trans (Nat.le_add_right ..) (weigh_add_le_of_charged ω h)

/-- The shared state has no part in it. -/
@[simp] theorem weigh_shared (s : Shared) :
    (⟨s, w.threads⟩ : World Shared Frame).weigh ω = w.weigh ω := rfl

@[simp] theorem weigh_init (s : Shared) : (init s : World Shared Frame).weigh ω = 0 := rfl

end World

/-- What holds of all frames alone. -/
theorem forall_frames_iff_stacked {Shared Frame : Type} {w : World Shared Frame}
    {G : Frame → Prop} :
    (∀ f ∈ w.frames, G f) ↔ ∀ i, Stacked (fun f _ => G f) (w.stack i) := by
  have each : ∀ fs : List Frame, Stacked (fun f _ => G f) fs ↔ ∀ f ∈ fs, G f := by
    intro fs
    induction fs with
    | nil => simp
    | cons f fs ih => simp [ih]
  constructor
  · exact fun h i => (each _).mpr fun f hf => h f (World.mem_frames.mpr ⟨i, hf⟩)
  · intro h f hf
    obtain ⟨i, hi⟩ := World.mem_frames.mp hf
    exact (each _).mp (h i) f hi

namespace Program

variable {Shared Frame Op Query Reply : Type} {P : Program Shared Frame Op Query Reply}
  {R S : Nat → Frame → List Frame → Prop} {w w' : World Shared Frame}

/-- The place of the frame that a move has put on a stack: its thread, and how many frames are
below it. -/
def touched (w' : World Shared Frame) : Move Op Reply → Option (Nat × Nat)
  | .enter i _ | .run i _ | .answer i _ => some (i, (w'.stack i).tail.length)
  | _ => none

theorem touched_update {i : Nat} {s : Shared} {f : Frame} {below : List Frame}
    (hi : i < w.threads.length) {m : Move Op Reply}
    (hm : touched (w.update i s (f :: below)) m =
      some (i, ((w.update i s (f :: below)).stack i).tail.length)) :
    touched (w.update i s (f :: below)) m = some (i, below.length) := by
  rw [hm, World.stack_update_self hi]
  rfl

/-- The frame that a move has put on a stack. -/
def put (w' : World Shared Frame) (m : Move Op Reply) : Option Frame :=
  (touched w' m).bind fun p => (w'.stack p.1).head?

theorem put_update {i : Nat} {s : Shared} {f : Frame} {below : List Frame}
    (hi : i < w.threads.length) {m : Move Op Reply}
    (hm : touched (w.update i s (f :: below)) m =
      some (i, ((w.update i s (f :: below)).stack i).tail.length)) :
    put (w.update i s (f :: below)) m = some f := by
  unfold put
  rw [hm, Option.bind_some, World.stack_update_self hi]
  rfl

/-- **A move keeps what holds on all stacks**, if it does for the frame that the move puts on top
of a thread, and what holds of another frame holds of it still. -/
theorem stacked_of_effect {m : Move Op Reply} (he : Effect P w m w')
    (h : ∀ i, Stacked (R i) (w.stack i))
    (keep : ∀ i f below, touched w' m ≠ some (i, below.length) → R i f below → S i f below)
    (start : ∀ i op, w.stack i = [] ∨ (∃ f below q, w.stack i = f :: below ∧
      P.need w.shared f = .ask q) → S i (P.start op) (w.stack i))
    (step : ∀ {i moment f below s f' notices}, m = .run i moment →
      touched w' m = some (i, below.length) → w.stack i = f :: below →
      P.need w.shared f = .step → P.step moment w.shared f = (s, f', notices) → w'.shared = s →
      R i f below → S i f' below)
    (sub : ∀ {i f below g}, w.stack i = f :: below → P.need w.shared f = .sub g →
      R i f below → S i g (f :: below))
    (ascend : ∀ {i moment f g h rest r s g' notices}, m = .run i moment →
      touched w' m = some (i, rest.length) → w.stack i = f :: g :: rest →
      P.need w.shared f = .over r → P.need w.shared g = .sub h →
      P.resume w.shared g r = (s, g', notices) → w'.shared = s → R i f (g :: rest) →
      R i g rest → S i g' rest)
    (answer : ∀ {i f below q r s f' notices}, m = .answer i r →
      touched w' m = some (i, below.length) → w.stack i = f :: below →
      P.need w.shared f = .ask q → P.resume w.shared f r = (s, f', notices) → w'.shared = s →
      R i f below → S i f' below) :
    ∀ i, Stacked (S i) (w'.stack i) := by
  have lift : ∀ {i : Nat} {s : Shared} {g : Frame} {below : List Frame}, i < w.threads.length →
      w' = w.update i s (g :: below) → touched w' m = some (i, below.length) →
      Stacked (R i) below → S i g below → ∀ j, Stacked (S j) (w'.stack j) := by
    rintro i s g below hi rfl place hb top j
    by_cases hj : j = i
    · subst hj
      rw [World.stack_update_self hi]
      refine ⟨top, hb.imp fun f rest hlt => keep j f rest ?_⟩
      intro same
      simp only [place, Option.some.injEq, Prod.mk.injEq] at same
      omega
    · rw [World.stack_update_ne hj]
      refine (h j).imp fun f rest _ => keep j f rest ?_
      intro same
      simp only [place, Option.some.injEq, Prod.mk.injEq] at same
      exact hj same.1.symm
  cases he with
  | spawn =>
    intro i
    rw [World.stack_spawn]
    exact (h i).imp fun f below _ => keep i f below nofun
  | @enter i op hi hs =>
    exact lift hi rfl (touched_update hi rfl) (h i) (start i op hs)
  | @step i moment f f' below s notices hs hn he =>
    have hi := World.lt_length_of_stack hs
    have all := h i
    rw [hs] at all
    exact lift hi rfl (touched_update hi rfl) all.2
      (step rfl (touched_update hi rfl) hs hn he rfl all.1)
  | @descend i moment f g below hs hn =>
    have hi := World.lt_length_of_stack hs
    have all := h i
    rw [hs] at all
    exact lift hi rfl (touched_update hi rfl) all (sub hs hn all.1)
  | @ascend i moment f g g' h' rest r s notices hs hn hg he =>
    have hi := World.lt_length_of_stack hs
    have all := h i
    rw [hs] at all
    exact lift hi rfl (touched_update hi rfl) all.2.2
      (ascend rfl (touched_update hi rfl) hs hn hg he rfl all.1 all.2.1)
  | @answer i r f f' below q s notices hs hn he =>
    have hi := World.lt_length_of_stack hs
    have all := h i
    rw [hs] at all
    exact lift hi rfl (touched_update hi rfl) all.2
      (answer rfl (touched_update hi rfl) hs hn he rfl all.1)
  | expire hs ht => exact fun i => (h i).imp fun f below _ => keep i f below nofun
  | @collect i f below r hs hn =>
    have same : ∀ j, Stacked (S j) (w.stack j) :=
      fun j => (h j).imp fun f below _ => keep j f below nofun
    intro j
    by_cases hj : j = i
    · subst hj
      have rest := same j
      rw [hs] at rest
      rw [World.stack_update_self (World.lt_length_of_stack hs)]
      exact rest.2
    · rw [World.stack_update_ne hj]
      exact same j

/-- Whether a frame may have other frames above it: it asks from outside, or needs another
operation, in some shared state. -/
def Opens (P : Program Shared Frame Op Query Reply) (f : Frame) : Prop :=
  ∃ s, (∃ q, P.need s f = .ask q) ∨ ∃ g, P.need s f = .sub g

/-- **Nothing stands on a frame that goes on by itself.** -/
theorem below_opens {s₀ : Shared} (h : P.Reach (World.init s₀) w) {i : Nat} {f : Frame}
    {below : List Frame} (hs : w.stack i = f :: below) : ∀ g ∈ below, P.Opens g := by
  have all : ∀ j, Stacked (fun _ below => ∀ g ∈ below, P.Opens g) (w.stack j) := by
    clear hs
    induction h with
    | refl => exact fun _ => stacked_nil
    | @move w w' m _ _ ha ih =>
      refine stacked_of_effect (R := fun _ _ below => ∀ g ∈ below, P.Opens g)
        (S := fun _ _ below => ∀ g ∈ below, P.Opens g) (effect_of_apply ha) ih
        (fun _ _ _ _ h => h) ?_ (fun _ _ _ _ _ _ h => h) ?_ (fun _ _ _ _ _ _ _ _ h => h)
        (fun _ _ _ _ _ _ h => h)
      · rintro j op (hs | ⟨g, rest, q, hs, hq⟩)
        · rw [hs]
          exact nofun
        · have under := ih j
          rw [hs] at under ⊢
          exact List.forall_mem_cons.mpr ⟨⟨w.shared, Or.inl ⟨q, hq⟩⟩, under.1⟩
      · exact fun _ hn h => List.forall_mem_cons.mpr ⟨⟨w.shared, Or.inr ⟨_, hn⟩⟩, h⟩
  have top := all i
  rw [hs] at top
  exact top.1

/-- A result is taken by the caller of the operation; the frame below does not need it. -/
theorem not_sub_of_collect {i : Nat} {f g : Frame} {rest : List Frame} {notices : List Notice}
    (h : P.apply w (.collect i) = some (w', notices)) (hs : w.stack i = f :: g :: rest)
    (x : Frame) :
    P.need w.shared g ≠ .sub x := by
  intro hg
  simp only [apply, status, hs] at h
  cases hf : P.need w.shared f <;> simp [hf, hg] at h

end Program

end Lending
