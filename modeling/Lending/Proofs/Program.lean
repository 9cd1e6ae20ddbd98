import Lending.Program
import Mathlib.Algebra.Order.BigOperators.Group.List
import Mathlib.Algebra.Order.Ring.Nat

/-!
# Runs of a program

What a move does to a world, said once, so that no later proof opens `Program.apply`.

* `Program.Effect`: the eight things a move can do. Every one of them changes the top of one
  thread, or nothing but the shared state; `effect_of_apply` says there is no ninth.
* `World.total`: a figure summed over the frames of all threads, and `World.gather`: what they have
  together, with one law for each way a thread's top can change. An accounting argument compares
  them before and after a move.
* `Program.below_asks`: below the top of a thread there are only frames whose callback runs.
* `Program.Hears`: the two ways in which a frame comes to hear a reply. Much of what a record says
  of a run is written at these moves.
* `Program.Kept`: runs with a record. Some laws are about what has happened rather than about what
  is, and some hold only if users keep a promise; a `note` writes each move into the record and
  objects to those that break the promise.
-/

namespace Lending

namespace World

variable {Shared Frame : Type} {w : World Shared Frame} {i : Nat} {f : Frame} {below : List Frame}

/-- A thread with a frame is one of the world. -/
theorem lt_length_of_stack (h : w.stack i = f :: below) : i < w.threads.length := by
  unfold stack at h
  by_contra hi
  rw [List.getElem?_eq_none (by omega)] at h
  exact absurd h (by simp)

@[simp] theorem shared_update (s : Shared) (fs : List Frame) : (w.update i s fs).shared = s := rfl

theorem stack_update_self (hi : i < w.threads.length) (s : Shared) (fs : List Frame) :
    (w.update i s fs).stack i = fs := by
  simp [stack, update, hi]

theorem stack_update_ne {j : Nat} (hj : j ≠ i) (s : Shared) (fs : List Frame) :
    (w.update i s fs).stack j = w.stack j := by
  simp [stack, update, List.getElem?_set_ne (Ne.symm hj)]

theorem update_stack (w : World Shared Frame) (i : Nat) :
    w.update i w.shared (w.stack i) = w := by
  unfold update stack
  by_cases hi : i < w.threads.length
  · rw [List.getElem?_eq_getElem hi, Option.getD_some, List.set_getElem_self]
  · rw [List.set_eq_of_length_le (by omega)]

@[simp] theorem update_update (s s' : Shared) (fs fs' : List Frame) :
    (w.update i s fs).update i s' fs' = w.update i s' fs' := by
  simp [update]

/-- What holds of every thread's stack still does when it holds of the new one. -/
theorem forall_stack_update {G : List Frame → Prop} (h : ∀ j, G (w.stack j))
    (hi : i < w.threads.length) {s : Shared} {fs : List Frame} (hfs : G fs) :
    ∀ j, G ((w.update i s fs).stack j) := by
  intro j
  by_cases hj : j = i
  · rw [hj, stack_update_self hi]
    exact hfs
  · rw [stack_update_ne hj]
    exact h j

theorem stack_spawn (s : Shared) (j : Nat) :
    (⟨s, w.threads ++ [[]]⟩ : World Shared Frame).stack j = w.stack j := by
  unfold stack
  rcases Nat.lt_trichotomy j w.threads.length with hj | rfl | hj
  · rw [List.getElem?_append_left hj]
  · simp
  · rw [List.getElem?_eq_none (by simp; omega), List.getElem?_eq_none (by omega)]

theorem mem_frames : f ∈ w.frames ↔ ∃ i, f ∈ w.stack i := by
  unfold frames stack
  rw [List.mem_flatten]
  constructor
  · rintro ⟨fs, hfs, hf⟩
    obtain ⟨i, hi, rfl⟩ := List.mem_iff_getElem.mp hfs
    exact ⟨i, by simpa [hi] using hf⟩
  · rintro ⟨i, hf⟩
    cases h : w.threads[i]? with
    | none => rw [h] at hf; exact absurd hf (by simp)
    | some fs => exact ⟨fs, List.mem_of_getElem? h, by simpa [h] using hf⟩

theorem mem_frames_of_stack (h : w.stack i = f :: below) : f ∈ w.frames :=
  mem_frames.mpr ⟨i, by rw [h]; exact List.mem_cons_self⟩

theorem mem_frames_of_below (h : w.stack i = f :: below) {g : Frame} (hg : g ∈ below) :
    g ∈ w.frames :=
  mem_frames.mpr ⟨i, by rw [h]; exact List.mem_cons_of_mem _ hg⟩

/-- Where no thread has anything to do, there is no frame. -/
theorem frames_eq_nil (h : ∀ i, w.stack i = []) : w.frames = [] := by
  refine List.eq_nil_iff_forall_not_mem.mpr fun f hf => ?_
  obtain ⟨i, hi⟩ := mem_frames.mp hf
  rw [h i] at hi
  exact absurd hi List.not_mem_nil

/-- A frame of a changed world is new on the changed thread, or was there before. -/
theorem mem_frames_update {s : Shared} {fs : List Frame} (h : f ∈ (w.update i s fs).frames) :
    f ∈ fs ∨ f ∈ w.frames := by
  obtain ⟨j, hj⟩ := mem_frames.mp h
  by_cases hji : j = i
  · subst hji
    by_cases hi : j < w.threads.length
    · rw [stack_update_self hi] at hj
      exact Or.inl hj
    · have hnone : (w.update j s fs).stack j = [] := by
        unfold stack update
        rw [List.getElem?_eq_none (by simp; omega)]
        rfl
      rw [hnone] at hj
      exact absurd hj (by simp)
  · rw [stack_update_ne hji] at hj
    exact Or.inr (mem_frames.mpr ⟨j, hj⟩)

/-- What holds of all frames still does when one that it holds of takes the place of the top ones
of a thread. -/
theorem forall_frames_update {G : Frame → Prop} (h : ∀ f ∈ w.frames, G f) (top : List Frame)
    {f' : Frame} (hf' : G f') (hs : w.stack i = top ++ below) {s : Shared} :
    ∀ f ∈ (w.update i s (f' :: below)).frames, G f := by
  intro f hf
  rcases mem_frames_update hf with hf | hf
  · rcases List.mem_cons.mp hf with rfl | hf
    · exact hf'
    · exact h f (mem_frames.mpr ⟨i, by rw [hs]; exact List.mem_append_right _ hf⟩)
  · exact h f hf

theorem forall_frames_pop {G : Frame → Prop} (h : ∀ f ∈ w.frames, G f)
    (hs : w.stack i = f :: below) {s : Shared} : ∀ f ∈ (w.update i s below).frames, G f := by
  intro g hg
  rcases mem_frames_update hg with hg | hg
  · exact h g (mem_frames_of_below hs hg)
  · exact h g hg

@[simp] theorem frames_spawn (s : Shared) :
    (⟨s, w.threads ++ [[]]⟩ : World Shared Frame).frames = w.frames := by
  simp [frames]

/-! ## A frame by its place -/

/-- The frame in place `n` of thread `i`, counted from the outermost one: the place that an
operation keeps until its result is taken. -/
def frameAt (w : World Shared Frame) (i n : Nat) : Option Frame := (w.stack i).reverse[n]?

theorem getElem?_reverse_cons (f : Frame) (fs : List Frame) (n : Nat) :
    (f :: fs).reverse[n]? = if fs.length = n then some f else fs.reverse[n]? := by
  rw [List.reverse_cons]
  split
  · rename_i hn
    rw [← hn, ← List.length_reverse, List.getElem?_concat_length]
  · rename_i hn
    rcases Nat.lt_or_gt_of_ne hn with hn | hn
    · rw [List.getElem?_eq_none (by simp; omega), List.getElem?_eq_none (by simp; omega)]
    · exact List.getElem?_append_left (by simpa using hn)

section Place

variable {j n : Nat} {s : Shared}

theorem frameAt_update (hj : j < w.threads.length) (fs : List Frame) :
    (w.update j s fs).frameAt i n = if j = i then fs.reverse[n]? else w.frameAt i n := by
  unfold frameAt
  split
  · rename_i hji
    rw [← hji, stack_update_self hj]
  · rename_i hji
    rw [stack_update_ne (Ne.symm hji)]

theorem frameAt_top (hs : w.stack i = f :: below) : w.frameAt i below.length = some f := by
  rw [frameAt, hs, getElem?_reverse_cons, if_pos rfl]

theorem frameAt_replace (hs : w.stack j = f :: below) (f' : Frame) :
    (w.update j s (f' :: below)).frameAt i n =
      if j = i ∧ below.length = n then some f' else w.frameAt i n := by
  rw [frameAt_update (lt_length_of_stack hs), getElem?_reverse_cons, ite_and]
  split
  · rename_i hji
    rw [frameAt, ← hji, hs, getElem?_reverse_cons]
    split <;> rfl
  · rfl

theorem frameAt_push (hj : j < w.threads.length) (f : Frame) :
    (w.update j s (f :: w.stack j)).frameAt i n =
      if j = i ∧ (w.stack j).length = n then some f else w.frameAt i n := by
  rw [frameAt_update hj, getElem?_reverse_cons, ite_and]
  split
  · rename_i hji
    rw [frameAt, ← hji]
  · rfl

theorem frameAt_pop (hs : w.stack j = f :: below) {g : Frame}
    (h : (w.update j s below).frameAt i n = some g) : w.frameAt i n = some g := by
  rw [frameAt_update (lt_length_of_stack hs)] at h
  split at h
  · rename_i hji
    obtain ⟨hn, -⟩ := List.getElem?_eq_some_iff.mp h
    rw [frameAt, ← hji, hs, getElem?_reverse_cons, if_neg (by simp at hn; omega)]
    exact h
  · exact h

section

variable {Record : Type} {I : Record → Frame → Prop} {R R' : Record} {f' : Frame}

/-- What holds of a new frame with its record, and held of what there was with the record kept of
it, holds in every place. -/
theorem forall_frameAt_replace (hs : w.stack j = f :: below)
    (new : j = i → below.length = n → I R' f') (old : ∀ g, w.frameAt i n = some g → I R g) :
    ∀ g, (w.update j s (f' :: below)).frameAt i n = some g →
      I (if j = i ∧ below.length = n then R' else R) g := by
  intro g hg
  rw [frameAt_replace hs] at hg
  split at hg
  · rename_i place
    cases hg
    rw [if_pos place]
    exact new place.1 place.2
  · rename_i place
    rw [if_neg place]
    exact old g hg

theorem forall_frameAt_push (hj : j < w.threads.length)
    (new : j = i → (w.stack j).length = n → I R' f')
    (old : ∀ g, w.frameAt i n = some g → I R g) :
    ∀ g, (w.update j s (f' :: w.stack j)).frameAt i n = some g →
      I (if j = i ∧ (w.stack j).length = n then R' else R) g := by
  intro g hg
  rw [frameAt_push hj] at hg
  split at hg
  · rename_i place
    cases hg
    rw [if_pos place]
    exact new place.1 place.2
  · rename_i place
    rw [if_neg place]
    exact old g hg

end

end Place

/-! ## Figures summed over all frames -/

/-- The sum of a figure over the frames of all threads. -/
def total (ω : Frame → Nat) (w : World Shared Frame) : Nat := (w.frames.map ω).sum

theorem sum_flatten_set (ω : Frame → Nat) (fs : List Frame) :
    ∀ (ts : List (List Frame)) (i : Nat), i < ts.length →
      ((ts.set i fs).flatten.map ω).sum + ((ts[i]?.getD []).map ω).sum =
        (ts.flatten.map ω).sum + (fs.map ω).sum
  | [], _, h => absurd h (by simp)
  | t :: ts, 0, _ => by simp; omega
  | t :: ts, i + 1, h => by
    have ih := sum_flatten_set ω fs ts i (by simpa using h)
    simp only [List.set_cons_succ, List.flatten_cons, List.map_append, List.sum_append,
      List.getElem?_cons_succ]
    omega

theorem total_update (ω : Frame → Nat) (hi : i < w.threads.length) (s : Shared)
    (fs : List Frame) :
    (w.update i s fs).total ω + ((w.stack i).map ω).sum = w.total ω + (fs.map ω).sum :=
  sum_flatten_set ω fs w.threads i hi

/-- The top frame of a thread is replaced. -/
theorem total_replace (ω : Frame → Nat) (h : w.stack i = f :: below) (s : Shared) (f' : Frame) :
    (w.update i s (f' :: below)).total ω + ω f = w.total ω + ω f' := by
  have := total_update ω (lt_length_of_stack h) s (f' :: below)
  rw [h] at this
  simp only [List.map_cons, List.sum_cons] at this
  omega

/-- A frame comes on top of a thread. -/
theorem total_push (ω : Frame → Nat) (hi : i < w.threads.length) (s : Shared) (f : Frame) :
    (w.update i s (f :: w.stack i)).total ω = w.total ω + ω f := by
  have := total_update ω hi s (f :: w.stack i)
  simp only [List.map_cons, List.sum_cons] at this
  omega

/-- The top frame of a thread goes. -/
theorem total_pop (ω : Frame → Nat) (h : w.stack i = f :: below) (s : Shared) :
    (w.update i s below).total ω + ω f = w.total ω := by
  have := total_update ω (lt_length_of_stack h) s below
  rw [h] at this
  simp only [List.map_cons, List.sum_cons] at this
  omega

/-- The top frame of a thread goes, and the one below it goes on. -/
theorem total_ascend (ω : Frame → Nat) {g : Frame} {rest : List Frame}
    (h : w.stack i = f :: g :: rest) (s : Shared) (g' : Frame) :
    (w.update i s (g' :: rest)).total ω + ω f + ω g = w.total ω + ω g' := by
  have := total_update ω (lt_length_of_stack h) s (g' :: rest)
  rw [h] at this
  simp only [List.map_cons, List.sum_cons] at this
  omega

@[simp] theorem total_spawn (ω : Frame → Nat) (s : Shared) :
    (⟨s, w.threads ++ [[]]⟩ : World Shared Frame).total ω = w.total ω := by
  simp [total, frames]

/-- The shared state has no part in a total. -/
@[simp] theorem total_shared (ω : Frame → Nat) (s : Shared) :
    (⟨s, w.threads⟩ : World Shared Frame).total ω = w.total ω := rfl

@[simp] theorem total_init (ω : Frame → Nat) (s : Shared) :
    (init s : World Shared Frame).total ω = 0 := rfl

/-- One frame's figure is at most the total. -/
theorem le_total (ω : Frame → Nat) (h : f ∈ w.frames) : ω f ≤ w.total ω :=
  List.le_sum_of_mem (List.mem_map.mpr ⟨f, h, rfl⟩)

theorem total_eq_zero {ω : Frame → Nat} (h : ∀ f ∈ w.frames, ω f = 0) : w.total ω = 0 :=
  List.sum_eq_zero fun n hn => by
    obtain ⟨f, hf, rfl⟩ := List.mem_map.mp hn
    exact h f hf

theorem total_add (ω ω' : Frame → Nat) :
    w.total (fun f => ω f + ω' f) = w.total ω + w.total ω' := by
  unfold total
  induction w.frames with
  | nil => rfl
  | cons f fs ih => simp only [List.map_cons, List.sum_cons, ih]; omega

theorem total_le_of_mem {ω ω' : Frame → Nat} (h : ∀ f ∈ w.frames, ω f ≤ ω' f) :
    w.total ω ≤ w.total ω' := List.sum_le_sum h

theorem total_le {ω ω' : Frame → Nat} (h : ∀ f, ω f ≤ ω' f) : w.total ω ≤ w.total ω' :=
  total_le_of_mem fun f _ => h f

/-! ## What the frames have together -/

section Gather

variable {β : Type} (g : Frame → List β)

/-- What the frames of all threads have, each according to `g`. -/
def gather (w : World Shared Frame) : List β := w.frames.flatMap g

theorem length_gather : (w.gather g).length = w.total fun f => (g f).length := by
  simp [gather, total, List.length_flatMap]

theorem count_gather [DecidableEq β] (b : β) :
    (w.gather g).count b = w.total fun f => (g f).count b :=
  List.count_flatMap

variable {g}

theorem mem_gather {b : β} : b ∈ w.gather g ↔ ∃ f ∈ w.frames, b ∈ g f := List.mem_flatMap

theorem mem_gather_of_stack (h : w.stack i = f :: below) {b : β} (hb : b ∈ g f) : b ∈ w.gather g :=
  mem_gather.mpr ⟨f, mem_frames_of_stack h, hb⟩

theorem gather_replace [DecidableEq β] (h : w.stack i = f :: below) (s : Shared) (f' : Frame) :
    (g f ++ (w.update i s (f' :: below)).gather g).Perm (g f' ++ w.gather g) := by
  rw [List.perm_iff_count]
  intro b
  rw [List.count_append, List.count_append, count_gather, count_gather]
  have := total_replace (fun f => (g f).count b) h s f'
  omega

/-- What a changed world has is new, or was there before. -/
theorem mem_gather_replace [DecidableEq β] (h : w.stack i = f :: below) {s : Shared} {f' : Frame}
    {b : β} (hb : b ∈ (w.update i s (f' :: below)).gather g) : b ∈ g f' ∨ b ∈ w.gather g :=
  List.mem_append.mp ((gather_replace h s f').mem_iff.mp (List.mem_append_right _ hb))

theorem gather_push [DecidableEq β] (hi : i < w.threads.length) (s : Shared) (f : Frame) :
    ((w.update i s (f :: w.stack i)).gather g).Perm (g f ++ w.gather g) := by
  rw [List.perm_iff_count]
  intro b
  rw [List.count_append, count_gather, count_gather]
  have := total_push (fun f => (g f).count b) hi s f
  omega

theorem mem_gather_push [DecidableEq β] (hi : i < w.threads.length) {s : Shared} {b : β}
    (hb : b ∈ (w.update i s (f :: w.stack i)).gather g) : b ∈ g f ∨ b ∈ w.gather g :=
  List.mem_append.mp ((gather_push hi s f).mem_iff.mp hb)

theorem gather_pop [DecidableEq β] (h : w.stack i = f :: below) (s : Shared) :
    (g f ++ (w.update i s below).gather g).Perm (w.gather g) := by
  rw [List.perm_iff_count]
  intro b
  rw [List.count_append, count_gather, count_gather]
  have := total_pop (fun f => (g f).count b) h s
  omega

theorem mem_gather_pop [DecidableEq β] (h : w.stack i = f :: below) {s : Shared} {b : β}
    (hb : b ∈ (w.update i s below).gather g) : b ∈ w.gather g :=
  (gather_pop h s).mem_iff.mp (List.mem_append_right _ hb)

/-- Where a change leaves nothing, there was nothing but what it took away. -/
theorem gather_eq_nil_of_replace [DecidableEq β] (h : w.stack i = f :: below) {s : Shared}
    {f' : Frame} (hf : g f = []) (hw : (w.update i s (f' :: below)).gather g = []) :
    w.gather g = [] := by
  have moved := gather_replace (g := g) h s f'
  rw [hf, hw] at moved
  exact (List.append_eq_nil_iff.mp moved.nil_eq.symm).2

theorem gather_eq_nil_of_push [DecidableEq β] (hi : i < w.threads.length) {s : Shared}
    (hw : (w.update i s (f :: w.stack i)).gather g = []) : w.gather g = [] := by
  have pushed := gather_push (g := g) hi s f
  rw [hw] at pushed
  exact (List.append_eq_nil_iff.mp pushed.nil_eq.symm).2

theorem gather_eq_nil_of_pop [DecidableEq β] (h : w.stack i = f :: below) {s : Shared}
    (hf : g f = []) (hw : (w.update i s below).gather g = []) : w.gather g = [] := by
  have popped := gather_pop (g := g) h s
  rw [hf, hw] at popped
  exact popped.nil_eq.symm

theorem gather_append {g' : Frame → List β} :
    (w.gather g ++ w.gather g').Perm (w.gather fun f => g f ++ g' f) :=
  List.flatMap_append_perm ..

@[simp] theorem gather_spawn (s : Shared) :
    (⟨s, w.threads ++ [[]]⟩ : World Shared Frame).gather g = w.gather g := by
  simp [gather]

@[simp] theorem gather_shared (s : Shared) :
    (⟨s, w.threads⟩ : World Shared Frame).gather g = w.gather g := rfl

@[simp] theorem gather_init (s : Shared) : (init s : World Shared Frame).gather g = [] := rfl

end Gather

end World

namespace Program

variable {Shared Frame Op Query Reply : Type} {P : Program Shared Frame Op Query Reply}

/-! ## What a move does -/

/-- What a move does to a world. -/
inductive Effect (P : Program Shared Frame Op Query Reply) (w : World Shared Frame) :
    Move Op Reply → World Shared Frame → Prop
  /-- A thread comes into being. -/
  | spawn : Effect P w .spawn ⟨w.shared, w.threads ++ [[]]⟩
  /-- An operation starts on a thread without work, or above a frame whose callback runs. -/
  | enter {i : Nat} (op : Op) (hi : i < w.threads.length)
      (hs : w.stack i = [] ∨ ∃ f below q, w.stack i = f :: below ∧ P.need w.shared f = .ask q) :
      Effect P w (.enter i op) (w.update i w.shared (P.start op :: w.stack i))
  /-- The top frame takes its next step. -/
  | step {i : Nat} {m : Moment} {f f' : Frame} {below : List Frame} {s : Shared}
      {notices : List Notice} (hs : w.stack i = f :: below) (hn : P.need w.shared f = .step)
      (he : P.step m w.shared f = (s, f', notices)) :
      Effect P w (.run i m) (w.update i s (f' :: below))
  /-- The operation that the top frame needs starts above it. -/
  | descend {i : Nat} {m : Moment} {f g : Frame} {below : List Frame}
      (hs : w.stack i = f :: below) (hn : P.need w.shared f = .sub g) :
      Effect P w (.run i m) (w.update i w.shared (g :: f :: below))
  /-- The top frame has ended, and the one below that needed it takes the result. -/
  | ascend {i : Nat} {m : Moment} {f g g' h : Frame} {rest : List Frame} {r : Reply} {s : Shared}
      {notices : List Notice} (hs : w.stack i = f :: g :: rest)
      (hn : P.need w.shared f = .over r) (hg : P.need w.shared g = .sub h)
      (he : P.resume w.shared g r = (s, g', notices)) :
      Effect P w (.run i m) (w.update i s (g' :: rest))
  /-- The callback of the top frame answers. -/
  | answer {i : Nat} {r : Reply} {f f' : Frame} {below : List Frame} {q : Query} {s : Shared}
      {notices : List Notice} (hs : w.stack i = f :: below) (hn : P.need w.shared f = .ask q)
      (he : P.resume w.shared f r = (s, f', notices)) :
      Effect P w (.answer i r) (w.update i s (f' :: below))
  /-- The top frame stops waiting by itself. -/
  | expire {i : Nat} {f : Frame} {below : List Frame} {t : Instant}
      (hs : w.stack i = f :: below) (ht : P.timer? w.shared f = some t) :
      Effect P w (.expire i) ⟨P.expire w.shared f, w.threads⟩
  /-- The top frame has ended, and its caller takes the result. -/
  | collect {i : Nat} {f : Frame} {below : List Frame} {r : Reply}
      (hs : w.stack i = f :: below) (hn : P.need w.shared f = .over r) :
      Effect P w (.collect i) (w.update i w.shared below)

theorem effect_of_runStack {w w' : World Shared Frame} {i : Nat} {m : Moment}
    {notices : List Notice} (h : P.runStack m w i (w.stack i) = some (w', notices)) :
    Effect P w (.run i m) w' := by
  cases hs : w.stack i with
  | nil => rw [hs] at h; exact absurd h (by simp [runStack])
  | cons f below =>
    rw [hs] at h
    simp only [runStack] at h
    cases hn : P.need w.shared f with
    | step =>
      simp only [hn, Option.some.injEq, Prod.mk.injEq] at h
      obtain ⟨rfl, -⟩ := h
      exact .step hs hn rfl
    | sub g =>
      simp only [hn, Option.some.injEq, Prod.mk.injEq] at h
      obtain ⟨rfl, -⟩ := h
      exact .descend hs hn
    | ask q => simp [hn] at h
    | wait => simp [hn] at h
    | «over» r =>
      simp only [hn] at h
      cases below with
      | nil => exact absurd h (by simp)
      | cons g rest =>
        simp only at h
        cases hg : P.need w.shared g with
        | sub h' =>
          simp only [hg, Option.some.injEq, Prod.mk.injEq] at h
          obtain ⟨rfl, -⟩ := h
          exact .ascend hs hn hg rfl
        | step => simp [hg] at h
        | ask q => simp [hg] at h
        | wait => simp [hg] at h
        | «over» r' => simp [hg] at h

/-- **Nothing else happens**: a move that applies has one of the eight effects. -/
theorem effect_of_apply {w w' : World Shared Frame} {m : Move Op Reply} {notices : List Notice}
    (h : P.apply w m = some (w', notices)) : Effect P w m w' := by
  cases m with
  | spawn =>
    simp only [apply, Option.some.injEq, Prod.mk.injEq] at h
    obtain ⟨rfl, -⟩ := h
    exact .spawn
  | enter i op =>
    simp only [apply] at h
    split at h
    · rename_i hi
      unfold status at h
      cases hs : w.stack i with
      | nil =>
        simp only [hs, Option.some.injEq, Prod.mk.injEq] at h
        obtain ⟨rfl, -⟩ := h
        exact .enter op hi (Or.inl hs)
      | cons f below =>
        simp only [hs] at h
        cases hn : P.need w.shared f with
        | ask q =>
          simp only [hn, Option.some.injEq, Prod.mk.injEq] at h
          obtain ⟨rfl, -⟩ := h
          exact .enter op hi (Or.inr ⟨f, below, q, hs, hn⟩)
        | step => simp [hn] at h
        | sub g => simp [hn] at h
        | wait => simp [hn] at h
        | «over» r =>
          simp only [hn] at h
          cases below with
          | nil => simp at h
          | cons g rest =>
            cases hg : P.need w.shared g <;> simp [hg] at h
    · exact absurd h (by simp)
  | run i m => exact effect_of_runStack h
  | answer i r =>
    simp only [apply] at h
    cases hs : w.stack i with
    | nil => simp [hs] at h
    | cons f below =>
      simp only [hs] at h
      cases hn : P.need w.shared f with
      | ask q =>
        simp only [hn, Option.some.injEq, Prod.mk.injEq] at h
        obtain ⟨rfl, -⟩ := h
        exact .answer hs hn rfl
      | step => simp [hn] at h
      | sub g => simp [hn] at h
      | wait => simp [hn] at h
      | «over» r => simp [hn] at h
  | expire i =>
    simp only [apply] at h
    cases hs : w.stack i with
    | nil => simp [hs] at h
    | cons f below =>
      simp only [hs] at h
      cases ht : P.timer? w.shared f with
      | none => simp [ht] at h
      | some t =>
        simp only [ht, Option.map_some, Option.some.injEq, Prod.mk.injEq] at h
        obtain ⟨rfl, -⟩ := h
        exact .expire hs ht
  | collect i =>
    simp only [apply] at h
    unfold status at h
    cases hs : w.stack i with
    | nil => simp [hs] at h
    | cons f below =>
      simp only [hs] at h
      cases hn : P.need w.shared f with
      | «over» r =>
        have hc : Effect P w (.collect i) (w.update i w.shared below) := .collect hs hn
        simp only [hn] at h
        cases below with
        | nil =>
          simp only [Option.some.injEq, Prod.mk.injEq] at h
          obtain ⟨rfl, -⟩ := h
          exact hc
        | cons g rest =>
          cases hg : P.need w.shared g with
          | sub h' => simp [hg] at h
          | step | ask | wait | «over» =>
            simp only [hg, Option.some.injEq, Prod.mk.injEq] at h
            obtain ⟨rfl, -⟩ := h
            exact hc
      | step => simp [hn] at h
      | sub g => simp [hn] at h
      | ask q => simp [hn] at h
      | wait => simp [hn] at h

/-- What has one of the effects is a move that applies, if a caller takes no result that the frame
below needs. -/
theorem Effect.exists_apply {w w' : World Shared Frame} {m : Move Op Reply} (h : Effect P w m w')
    (free : ∀ i f g rest x, m = .collect i → w.stack i = f :: g :: rest →
      P.need w.shared g ≠ .sub x) : ∃ notices, P.apply w m = some (w', notices) := by
  cases h with
  | spawn => exact ⟨[], rfl⟩
  | enter op hi hs =>
    refine ⟨[], ?_⟩
    rcases hs with hs | ⟨f, below, q, hs, hn⟩
    · simp only [apply, if_pos hi, status, hs, World.push]
    · simp only [apply, if_pos hi, status, hs, hn, World.push]
  | step hs hn he => exact ⟨_, by simp only [apply, runStack, hs, hn, he]; rfl⟩
  | descend hs hn => exact ⟨_, by simp only [apply, runStack, hs, hn]; rfl⟩
  | ascend hs hn hg he => exact ⟨_, by simp only [apply, runStack, hs, hn, hg, he]; rfl⟩
  | answer hs hn he => exact ⟨_, by simp only [apply, hs, hn, he]; rfl⟩
  | expire hs ht => exact ⟨[], by simp only [apply, hs, ht, Option.map_some]⟩
  | @collect i f below r hs hn =>
    refine ⟨[], ?_⟩
    cases below with
    | nil => simp only [apply, status, hs, hn, List.tail_cons]
    | cons g rest =>
      have unneeded := free i f g rest
      simp only [apply, status, hs, hn, List.tail_cons]
      cases hg : P.need w.shared g with
      | sub x => exact absurd hg (unneeded x rfl hs)
      | step | ask | wait | «over» => rfl

/-- A thread whose top frame waits stays where it is. -/
theorem Effect.stack_of_wait {w w' : World Shared Frame} {m : Move Op Reply}
    (h : Effect P w m w') {i : Nat} {f : Frame} {below : List Frame}
    (hs : w.stack i = f :: below) (hn : P.need w.shared f = .wait) :
    w'.stack i = f :: below := by
  -- The move is one of another thread, since the top frame of this one needs something else.
  have other : ∀ {j g rest s fs}, w.stack j = g :: rest → P.need w.shared g ≠ .wait →
      (w.update j s fs).stack i = f :: below := by
    intro j g rest s fs hj hg
    by_cases hji : i = j
    · rw [← hji, hs] at hj
      obtain ⟨rfl, -⟩ := List.cons.inj hj
      exact absurd hn hg
    · rw [World.stack_update_ne hji]
      exact hs
  cases h with
  | spawn =>
    rw [World.stack_spawn]
    exact hs
  | @enter j op hj free =>
    rcases free with empty | ⟨g, rest, q, hj, hq⟩
    · by_cases hji : i = j
      · rw [← hji, hs] at empty
        exact absurd empty (List.cons_ne_nil _ _)
      · rw [World.stack_update_ne hji]
        exact hs
    · exact other hj (by rw [hq]; exact nofun)
  | step hj hg => exact other hj (by rw [hg]; exact nofun)
  | descend hj hg => exact other hj (by rw [hg]; exact nofun)
  | ascend hj hg => exact other hj (by rw [hg]; exact nofun)
  | answer hj hg => exact other hj (by rw [hg]; exact nofun)
  | expire => exact hs
  | collect hj hg => exact other hj (by rw [hg]; exact nofun)

/-- A thread whose top frame asks is asking. -/
theorem status_of_ask {w : World Shared Frame} {i : Nat} {f : Frame} {below : List Frame}
    {q : Query} (hs : w.stack i = f :: below) (hn : P.need w.shared f = .ask q) :
    P.status w i = .asking q := by
  simp only [status, hs, hn]

/-- A thread that is asking has a top frame that asks. -/
theorem need_of_asking {w : World Shared Frame} {i : Nat} {f : Frame} {below : List Frame}
    {q : Query} (hs : w.stack i = f :: below) (ha : P.status w i = .asking q) :
    P.need w.shared f = .ask q := by
  simp only [status, hs] at ha
  cases hn : P.need w.shared f with
  | ask q' =>
    simp only [hn, Status.asking.injEq] at ha
    rw [ha]
  | step | sub | wait => simp [hn] at ha
  | «over» r =>
    simp only [hn] at ha
    cases below with
    | nil => cases ha
    | cons g rest => cases hg : P.need w.shared g <;> simp [hg] at ha

/-- Threads come into being, and do not go. -/
theorem length_threads_le {w w' : World Shared Frame} {m : Move Op Reply} {notices : List Notice}
    (h : P.apply w m = some (w', notices)) : w.threads.length ≤ w'.threads.length := by
  cases effect_of_apply h with
  | spawn => simp
  | enter | step | descend | ascend | answer | collect => simp [World.update]
  | expire => exact Nat.le_refl _

/-- No frame of the program needs another operation of it. -/
def Flat (P : Program Shared Frame Op Query Reply) : Prop := ∀ s f g, P.need s f ≠ .sub g

theorem Reach.trans {w₀ w₁ w₂ : World Shared Frame} (h : P.Reach w₀ w₁) (h' : P.Reach w₁ w₂) :
    P.Reach w₀ w₂ := by
  induction h' with
  | refl => exact h
  | move m _ ha ih => exact .move m ih ha

/-- What `run?` computes is a run. -/
theorem reach_of_run? : ∀ {ms : List (Move Op Reply)} {w w' : World Shared Frame},
    P.run? w ms = some w' → P.Reach w w'
  | [], w, w', h => by
    obtain rfl := Option.some.inj h
    exact .refl
  | m :: ms, w, w', h => by
    simp only [run?, Option.bind_eq_some_iff] at h
    obtain ⟨⟨w₁, notices⟩, ha, hrest⟩ := h
    exact (Reach.move m .refl ha).trans (reach_of_run? hrest)

/-- What every start, step, descent and result keeps of a frame holds of all frames of a run. -/
theorem forall_frames_of_reach {G : Frame → Prop} {s₀ : Shared} {w : World Shared Frame}
    (hstart : ∀ op, G (P.start op))
    (hstep : ∀ {m s f s' f' notices}, G f → P.need s f = .step →
      P.step m s f = (s', f', notices) → G f')
    (hsub : ∀ {s f g}, G f → P.need s f = .sub g → G g)
    (hresume : ∀ {s f r s' f' notices}, G f →
      ((∃ q, P.need s f = .ask q) ∨ ∃ g, P.need s f = .sub g) →
      P.resume s f r = (s', f', notices) → G f')
    (h : P.Reach (World.init s₀) w) : ∀ f ∈ w.frames, G f := by
  induction h with
  | refl => exact fun f hf => absurd hf (by simp [World.frames, World.init])
  | move m _ ha ih =>
    cases effect_of_apply ha with
    | spawn => simpa using ih
    | enter op hi hs => exact World.forall_frames_update ih [] (hstart op) rfl
    | step hs hn he =>
      exact World.forall_frames_update ih [_] (hstep (ih _ (World.mem_frames_of_stack hs)) hn he) hs
    | descend hs hn =>
      rw [← hs]
      exact World.forall_frames_update ih [] (hsub (ih _ (World.mem_frames_of_stack hs)) hn) rfl
    | @ascend _ _ f g _ _ _ _ _ _ hs hn hg he =>
      have second : G g := ih g (World.mem_frames_of_below hs List.mem_cons_self)
      exact World.forall_frames_update ih [f, g] (hresume second (Or.inr ⟨_, hg⟩) he) hs
    | answer hs hn he =>
      have top := ih _ (World.mem_frames_of_stack hs)
      exact World.forall_frames_update ih [_] (hresume top (Or.inl ⟨_, hn⟩) he) hs
    | expire hs ht => exact ih
    | collect hs hn => exact World.forall_frames_pop ih hs

/-! ## Frames below the top -/

/-- What a frame asks from outside does not depend on the shared state. -/
def Steady (P : Program Shared Frame Op Query Reply) : Prop :=
  ∀ s s' f q, P.need s f = .ask q → P.need s' f = .ask q

/-- **Only callbacks are started upon**: where no frame needs another operation of the program, a
frame below another one waits for its callback. -/
theorem below_asks {s₀ : Shared} {w : World Shared Frame} (flat : P.Flat) (steady : P.Steady)
    (h : P.Reach (World.init s₀) w) :
    ∀ {i : Nat} {f : Frame} {below : List Frame}, w.stack i = f :: below →
      ∀ g ∈ below, ∃ q, P.need w.shared g = .ask q := by
  induction h with
  | refl => exact fun hs => absurd hs (by simp [World.stack, World.init])
  | @move w w' m _ _ ha ih =>
    have others : ∀ {s : Shared} {i j : Nat} {fs below : List Frame} {f : Frame}, j ≠ i →
        (w.update i s fs).stack j = f :: below → ∀ g ∈ below, ∃ q, P.need s g = .ask q := by
      intro s i j fs below f hji hs g hg
      rw [World.stack_update_ne hji] at hs
      obtain ⟨q, hq⟩ := ih hs g hg
      exact ⟨q, steady _ _ _ _ hq⟩
    intro j f below hj
    cases Program.effect_of_apply ha with
    | spawn => exact ih (by rwa [World.stack_spawn] at hj)
    | @enter i op hi hs =>
      by_cases hji : j = i
      · subst hji
        rw [World.stack_update_self hi] at hj
        obtain ⟨-, rfl⟩ := List.cons.inj hj
        rcases hs with hs | ⟨f', below', q, hs, hq⟩
        · rw [hs]
          exact nofun
        · rw [hs]
          rintro g (_ | ⟨_, hg⟩)
          · exact ⟨q, hq⟩
          · exact ih hs g hg
      · exact others hji hj
    | @step i _ f₁ _ below₁ _ _ hs hn he | @answer i _ f₁ _ below₁ _ _ _ hs hn he =>
      by_cases hji : j = i
      · subst hji
        rw [World.stack_update_self (World.lt_length_of_stack hs)] at hj
        obtain ⟨-, rfl⟩ := List.cons.inj hj
        intro g hg
        obtain ⟨q, hq⟩ := ih hs g hg
        exact ⟨q, steady _ _ _ _ hq⟩
      · exact others hji hj
    | descend hs hn => exact absurd hn (flat _ _ _)
    | ascend hs _ hg => exact absurd hg (flat _ _ _)
    | expire hs ht =>
      intro g hg
      obtain ⟨q, hq⟩ := ih hj g hg
      exact ⟨q, steady _ _ _ _ hq⟩
    | @collect i f₁ below₁ _ hs hn =>
      by_cases hji : j = i
      · subst hji
        rw [World.stack_update_self (World.lt_length_of_stack hs)] at hj
        exact fun g hg => ih hs g (by rw [hj]; exact List.mem_cons_of_mem _ hg)
      · exact others hji hj

/-- Where no thread can take a step, no frame can. -/
theorem need_ne_step_of_quiet {s₀ : Shared} {w : World Shared Frame} (flat : P.Flat)
    (steady : P.Steady) (h : P.Reach (World.init s₀) w) (quiet : ∀ i, P.status w i ≠ .ready)
    {f : Frame} (hf : f ∈ w.frames) : P.need w.shared f ≠ .step := by
  intro hn
  obtain ⟨i, hi⟩ := World.mem_frames.mp hf
  cases hs : w.stack i with
  | nil => rw [hs] at hi; exact absurd hi (by simp)
  | cons g below =>
    rw [hs] at hi
    rcases List.mem_cons.mp hi with rfl | hi
    · exact quiet i (by simp [status, hs, hn])
    · obtain ⟨q, hq⟩ := below_asks flat steady h hs f hi
      rw [hn] at hq
      exact absurd hq nofun

/-! ## What a move is about -/

section

variable (P)

/-- The frame that takes its next step at a move. -/
def stepped (w : World Shared Frame) : Move Op Reply → Option Frame
  | .run i _ =>
    match w.stack i with
    | f :: _ =>
      match P.need w.shared f with
      | .step => some f
      | _ => none
    | [] => none
  | _ => none

/-- The frame that goes on at a move with the result or the answer it needed, and that. -/
def heard (w : World Shared Frame) : Move Op Reply → Option (Frame × Reply)
  | .run i _ =>
    match w.stack i with
    | f :: g :: _ =>
      match P.need w.shared f with
      | .over r => some (g, r)
      | _ => none
    | _ => none
  | .answer i r =>
    match w.stack i with
    | f :: _ => some (f, r)
    | [] => none
  | _ => none

end

section

variable {w : World Shared Frame} {i : Nat} {m : Moment} {f g : Frame} {below rest : List Frame}
  {r : Reply}

theorem stepped_step (hs : w.stack i = f :: below) (hn : P.need w.shared f = .step) :
    P.stepped w (.run i m) = some f := by
  simp [stepped, hs, hn]

theorem stepped_descend (hs : w.stack i = f :: below) (hn : P.need w.shared f = .sub g) :
    P.stepped w (.run i m) = none := by
  simp [stepped, hs, hn]

theorem stepped_ascend (hs : w.stack i = f :: below) (hn : P.need w.shared f = .over r) :
    P.stepped w (.run i m) = none := by
  simp [stepped, hs, hn]

theorem exists_of_stepped {mv : Move Op Reply} (h : P.stepped w mv = some f) :
    ∃ i m below, mv = .run i m ∧ w.stack i = f :: below := by
  cases mv with
  | run i m =>
    simp only [stepped] at h
    split at h
    · rename_i f' below hs
      split at h <;> cases h
      exact ⟨i, m, below, rfl, hs⟩
    · exact absurd h nofun
  | spawn | enter | answer | expire | collect => exact absurd h nofun

theorem heard_ascend (hs : w.stack i = f :: g :: rest) (hn : P.need w.shared f = .over r) :
    P.heard w (.run i m) = some (g, r) := by
  simp [heard, hs, hn]

theorem heard_step (hs : w.stack i = f :: below) (hn : P.need w.shared f = .step) :
    P.heard w (.run i m) = none := by
  cases below <;> simp [heard, hs, hn]

theorem heard_descend (hs : w.stack i = f :: below) (hn : P.need w.shared f = .sub g) :
    P.heard w (.run i m) = none := by
  cases below <;> simp [heard, hs, hn]

theorem heard_answer (hs : w.stack i = f :: below) : P.heard w (.answer i r) = some (f, r) := by
  simp [heard, hs]

/-- A frame that takes a step hears nothing. -/
theorem heard_of_stepped {m : Move Op Reply} (h : P.stepped w m = some f) :
    P.heard w m = none := by
  cases m with
  | run i moment =>
    simp only [stepped] at h
    split at h
    · rename_i g below hs
      split at h
      · rename_i hn
        exact heard_step hs hn
      · exact absurd h nofun
    · exact absurd h nofun
  | spawn | enter | answer | expire | collect => exact absurd h nofun

/-- The frame that goes on is on a stack. -/
theorem mem_frames_of_heard {m : Move Op Reply} (h : P.heard w m = some (f, r)) :
    f ∈ w.frames := by
  cases m with
  | run i moment =>
    simp only [heard] at h
    split at h
    · rename_i g f' rest hs
      split at h <;> cases h
      exact World.mem_frames_of_below hs List.mem_cons_self
    · exact absurd h nofun
  | answer i r' =>
    simp only [heard] at h
    split at h <;> cases h
    rename_i below hs
    exact World.mem_frames_of_stack hs
  | spawn | enter | expire | collect => exact absurd h nofun

/-- How a frame comes to hear a reply. -/
inductive Hears (P : Program Shared Frame Op Query Reply) (w : World Shared Frame) (f : Frame)
    (r : Reply) : Move Op Reply → World Shared Frame → Prop
  /-- It needed the frame above it, which has ended. -/
  | result {i : Nat} {m : Moment} {top g f' : Frame} {rest : List Frame} {s : Shared}
      {notices : List Notice} (hs : w.stack i = top :: f :: rest)
      (hn : P.need w.shared top = .over r) (hg : P.need w.shared f = .sub g)
      (he : P.resume w.shared f r = (s, f', notices)) :
      Hears P w f r (.run i m) (w.update i s (f' :: rest))
  /-- Its callback answers. -/
  | answer {i : Nat} {f' : Frame} {below : List Frame} {q : Query} {s : Shared}
      {notices : List Notice} (hs : w.stack i = f :: below) (hn : P.need w.shared f = .ask q)
      (he : P.resume w.shared f r = (s, f', notices)) :
      Hears P w f r (.answer i r) (w.update i s (f' :: below))

/-- **What is heard is a result or an answer.** -/
theorem hears_of_apply {w' : World Shared Frame} {m : Move Op Reply} {notices : List Notice}
    (ha : P.apply w m = some (w', notices)) (hh : P.heard w m = some (f, r)) :
    Hears P w f r m w' := by
  cases effect_of_apply ha with
  | spawn | enter | expire | collect => exact absurd hh nofun
  | step hs hn => exact absurd ((heard_step hs hn).symm.trans hh) nofun
  | descend hs hn => exact absurd ((heard_descend hs hn).symm.trans hh) nofun
  | ascend hs hn hg he =>
    rw [heard_ascend hs hn] at hh
    cases hh
    exact .result hs hn hg he
  | answer hs hn he =>
    rw [heard_answer hs] at hh
    cases hh
    exact .answer hs hn he

end

/-! ## Runs with a record -/

variable {Record : Type}

/-- Runs from `w₀` with a record. `note` writes each move into the record, with the worlds before
and after it, and objects (`none`) to a move that breaks a promise of the users. -/
inductive Kept (P : Program Shared Frame Op Query Reply)
    (note : Record → World Shared Frame → Move Op Reply → World Shared Frame → Option Record)
    (r₀ : Record) (w₀ : World Shared Frame) : Record → World Shared Frame → Prop
  | refl : Kept P note r₀ w₀ r₀ w₀
  | move {r r' : Record} {w w' : World Shared Frame} (m : Move Op Reply) {notices : List Notice} :
      Kept P note r₀ w₀ r w → P.apply w m = some (w', notices) → note r w m w' = some r' →
      Kept P note r₀ w₀ r' w'

variable {note : Record → World Shared Frame → Move Op Reply → World Shared Frame → Option Record}

/-- A run with a record is a run. -/
theorem Kept.reach {r₀ r : Record} {w₀ w : World Shared Frame} (h : P.Kept note r₀ w₀ r w) :
    P.Reach w₀ w := by
  induction h with
  | refl => exact .refl
  | move m _ ha _ ih => exact .move m ih ha

theorem Kept.trans {r₀ r₁ r₂ : Record} {w₀ w₁ w₂ : World Shared Frame}
    (h : P.Kept note r₀ w₀ r₁ w₁) (h' : P.Kept note r₁ w₁ r₂ w₂) : P.Kept note r₀ w₀ r₂ w₂ := by
  induction h' with
  | refl => exact h
  | move m _ ha hn ih => exact .move m ih ha hn

/-- A record that says enough for another one comes with runs that keep the other. -/
theorem Kept.map {Record' : Type}
    {note' : Record' → World Shared Frame → Move Op Reply → World Shared Frame → Option Record'}
    (g : Record → Record') {r₀ r : Record} {w₀ w : World Shared Frame}
    (hg : ∀ {r w m w' r'}, note r w m w' = some r' → note' (g r) w m w' = some (g r'))
    (h : P.Kept note r₀ w₀ r w) : P.Kept note' (g r₀) w₀ (g r) w := by
  induction h with
  | refl => exact .refl
  | move m _ ha hn ih => exact .move m ih ha (hg hn)

/-- The record and the world after a list of moves. -/
def keep? (P : Program Shared Frame Op Query Reply)
    (note : Record → World Shared Frame → Move Op Reply → World Shared Frame → Option Record)
    (r : Record) (w : World Shared Frame) : List (Move Op Reply) →
    Option (Record × World Shared Frame)
  | [] => some (r, w)
  | m :: ms => (P.apply w m).bind fun x => (note r w m x.1).bind fun r' => keep? P note r' x.1 ms

/-- What `keep?` computes is a run with a record. -/
theorem kept_of_keep? : ∀ {ms : List (Move Op Reply)} {r r' : Record} {w w' : World Shared Frame},
    P.keep? note r w ms = some (r', w') → P.Kept note r w r' w'
  | [], r, r', w, w', h => by
    simp only [keep?, Option.some.injEq, Prod.mk.injEq] at h
    obtain ⟨rfl, rfl⟩ := h
    exact .refl
  | m :: ms, r, r', w, w', h => by
    simp only [keep?, Option.bind_eq_some_iff] at h
    obtain ⟨⟨w₁, notices⟩, ha, r₁, hn, hrest⟩ := h
    exact (Kept.move m .refl ha hn).trans (kept_of_keep? hrest)

end Program

end Lending
