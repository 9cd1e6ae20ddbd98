import Lending.Proofs.Pool.Slots

/-!
# The limit after a change

A limit that shrinks takes nothing back: resources that are idle or lent stay, so the pool may have
more slots taken than the new limit allows. It comes down as resources come back. Until then an
`acquire` still takes what is idle, without a look at the limit, which is asked for only where a
resource is to be made.

A `Bounds` record keeps the limit that took effect last, the slots that were taken then, and which
calls are older than that.

* `Bounded`: slots are never taken above the limit, and while there are too many, no call that
  started later is making a resource.
* `lent_within`: so a later call hands out a resource only if fewer than the limit are lent, or if
  it took one that was idle, and the pool has not come down to the limit yet.
* `lent_above_shrunkInUse`: which does happen.

`resize` only stores the limit and never evicts (specification, section 4.1), and `acquire` pops an
idle resource before it asks `has_room`. So what is lent can rise above a limit that has shrunk,
from what is idle, and the share of the capacity in use be above one; but no resource is made above
the limit.
-/

namespace Lending.Pool

variable {α : Type}

namespace Call

variable {m : Moment} {p p' : Pool α} {c c' : Call α} {r : Reply α}

/-- A resource is made in a slot for which there was room. -/
theorem Steps.creating (h : Steps m p c p' c') (hc : c' = .creating) :
    p.hasRoom = true ∧ p'.allocated = p.allocated + 1 := by
  cases h with
  | acquire h | retry h | woken _ h =>
    cases h with
    | reserved hi hr => exact ⟨hr, rfl⟩
    | took | expired | parked => exact absurd hc nofun
  | notify next => cases next <;> exact absurd hc nofun
  | free | surplus | putBack | nothingIdle | drain | wakeDrained | grow | shrink | wakeGrown
  | setWaitLimit | nothingLeft | closeDown => exact absurd hc nofun

theorem Answered.creating (h : Answered c r c') (hc : c' = .creating) : c = .creating := by
  cases h with
  | unasked => exact hc
  | evicted _ rest => cases rest <;> exact absurd hc nofun
  | evictRaised _ rest | abandoned _ rest => cases rest <;> exact absurd hc nofun
  | stale | fresh | checkRaised | staleEvicted | staleRaised | created | notCreated | createRaised
  | dropped | dropRaised | discarded | discardRaised | surplusEvicted | surplusRaised
  | abandonRaised => exact absurd hc nofun

/-- More resources come into use by a reservation with room, or out of the idle ones. -/
theorem Steps.active (h : Steps m p c p' c') (hc : c ≠ .teardown) (grown : p.active < p'.active) :
    p.hasRoom = true ∧ p'.allocated = p.allocated + 1 ∨
      p'.allocated = p.allocated ∧ ∃ x, p.idle = x :: p'.idle := by
  unfold Pool.active at grown
  cases h with
  | acquire h | retry h | woken _ h =>
    cases h with
    | took hi => exact Or.inr ⟨rfl, _, hi⟩
    | reserved hi hr => exact Or.inl ⟨hr, rfl⟩
    | expired | parked => exact absurd grown (Nat.lt_irrefl _)
  | drain hi => simp at grown
  | free | surplus | putBack =>
    simp at grown
    omega
  | nothingLeft | closeDown => exact absurd rfl hc
  | notify | nothingIdle | wakeDrained | grow | shrink | wakeGrown | setWaitLimit =>
    exact absurd grown (Nat.lt_irrefl _)

end Call

/-! ## The record -/

/-- What is recorded of the limit of a pool, beside its lendings. -/
structure Bounds (α : Type) extends Lendings α where
  /-- The limit that took effect last. -/
  limit : Nat
  /-- The slots that were taken when it did. -/
  taken : Nat := 0
  /-- How many calls of each thread, the outermost first, had started before. -/
  older : List Nat := []

namespace Bounds

variable {B B' : Bounds α} {w w' : World (Pool α) (Call α)}

/-- A change of the limit is written down, and that older calls end. -/
def add (B : Bounds α) (w : World (Pool α) (Call α)) (m : Move (Op α) (Reply α))
    (w' : World (Pool α) (Call α)) : Bounds α :=
  match m with
  | .run i _ =>
    match w.stack i with
    | .start (.resize n) :: _ =>
      { B with
        limit := n
        taken := w.shared.allocated
        older := w.threads.map List.length }
    | _ => B
  | .collect i => { B with older := B.older.modify i (min (w'.stack i).length) }
  | _ => B

/-- How many calls of thread `i` had started before the limit took effect. -/
def floor (B : Bounds α) (i : Nat) : Nat := B.older[i]?.getD 0

/-- A move is written down. One by which a caller gives back what it does not hold is objected
to. -/
def note [DecidableEq α] (B : Bounds α) (w : World (Pool α) (Call α)) (m : Move (Op α) (Reply α))
    (w' : World (Pool α) (Call α)) : Option (Bounds α) :=
  (B.toLendings.note w m w').map fun L => { B.add w m w' with toLendings := L }

/-- The resources that are lent: callers hold them, or calls have them for or from callers. -/
def borrowed (B : Bounds α) (w : World (Pool α) (Call α)) : Nat :=
  B.held.length + w.total Call.lent

/-- Whether a call in flight has started since the limit took effect. -/
def Newer (B : Bounds α) (w : World (Pool α) (Call α)) (c : Call α) : Prop :=
  ∃ i above below, w.stack i = above ++ c :: below ∧ B.floor i ≤ below.length

theorem of_note [DecidableEq α] {m : Move (Op α) (Reply α)} (h : B.note w m w' = some B') :
    B.toLendings.note w m w' = some B'.toLendings ∧
      B' = { B.add w m w' with toLendings := B'.toLendings } := by
  obtain ⟨L, hL, rfl⟩ := Option.map_eq_some_iff.mp h
  exact ⟨hL, rfl⟩

section

variable {i : Nat} {moment : Moment} {s : Pool α} {c c' d : Call α} {below : List (Call α)}

theorem add_resize {n : Nat} (hs : w.stack i = .start (.resize n) :: below) :
    B.add w (.run i moment) w' =
      { B with limit := n, taken := w.shared.allocated, older := w.threads.map List.length } := by
  simp only [add, hs]

/-- Only a change of the limit is written down of the steps. -/
theorem add_run (hs : w.stack i = c :: below) (hc : ∀ n, c ≠ .start (.resize n)) :
    B.add w (.run i moment) w' = B := by
  simp only [add, hs]
  split
  · rename_i n _ he
    exact absurd (List.cons.inj he).1 (hc n)
  · rfl

/-- Where every call there is counts as older, none is newer. -/
theorem not_newer (hs : w.stack i = c :: below) (ho : B.older = w.threads.map List.length) :
    ¬B.Newer (w.update i s (c' :: below)) d := by
  rintro ⟨j, above, rest, hj, newer⟩
  have same : ((w.update i s (c' :: below)).stack j).length = (w.stack j).length := by
    by_cases hji : j = i
    · rw [hji, World.stack_update_self (World.lt_length_of_stack hs), hs]
      rfl
    · rw [World.stack_update_ne hji]
  have floor : B.floor j = (w.stack j).length := by
    rw [Bounds.floor, ho, List.getElem?_map, World.stack]
    cases w.threads[j]? <;> rfl
  rw [hj, List.length_append, List.length_cons] at same
  omega

/-- A call that is newer after a change at the top of a thread is the changed one, or was newer
before. -/
theorem Newer.of_update (top : List (Call α)) (hs : w.stack i = top ++ below)
    (h : B.Newer (w.update i s (c' :: below)) d) (hi : i < w.threads.length) :
    d = c' ∧ B.floor i ≤ below.length ∨ B.Newer w d := by
  obtain ⟨j, above, rest, hj, older⟩ := h
  by_cases hji : j = i
  · subst hji
    rw [World.stack_update_self hi] at hj
    cases above with
    | nil =>
      obtain ⟨rfl, rfl⟩ := List.cons.inj hj
      exact Or.inl ⟨rfl, older⟩
    | cons a above =>
      refine Or.inr ⟨j, top ++ above, rest, ?_, older⟩
      rw [hs, (List.cons.inj hj).2, List.append_assoc]
      rfl
  · rw [World.stack_update_ne hji] at hj
    exact Or.inr ⟨j, above, rest, hj, older⟩

/-- A call that is newer after another one has ended was newer before. -/
theorem Newer.of_collect (hs : w.stack i = c :: below)
    (h : (B.add w (.collect i) (w.update i w.shared below)).Newer
      (w.update i w.shared below) d) : B.Newer w d := by
  obtain ⟨j, above, rest, hj, later⟩ := h
  have later : ((B.older.modify i (min ((w.update i w.shared below).stack i).length))[j]?).getD 0
    ≤ rest.length := later
  rw [List.getElem?_modify] at later
  by_cases hji : j = i
  · subst hji
    rw [hj, List.length_append, List.length_cons] at later
    rw [World.stack_update_self (World.lt_length_of_stack hs)] at hj
    refine ⟨j, c :: above, rest, by rw [hs, hj]; rfl, ?_⟩
    unfold Bounds.floor
    cases hold : B.older[j]? with
    | none => exact Nat.zero_le _
    | some n =>
      simp only [hold, if_true, Option.map_eq_map, Option.map_some, Option.getD_some] at later ⊢
      omega
  · rw [World.stack_update_ne hji] at hj
    exact ⟨j, above, rest, hj, by simpa [Bounds.floor, Ne.symm hji] using later⟩

end

end Bounds

/-- The slots of a world keep to the limit that took effect last. -/
structure Bounded (B : Bounds α) (w : World (Pool α) (Call α)) : Prop where
  capacity : w.shared.capacity = B.limit
  /-- There are no more of them than the limit allows, or than there were when it took effect. -/
  taken    : 0 < B.limit → w.shared.allocated ≤ max B.limit B.taken
  /-- While there are too many, no newer call is making a resource. -/
  unmade   : 0 < B.limit → B.limit < w.shared.allocated → ¬B.Newer w .creating

namespace Bounded

variable {B B' : Bounds α} {w w' : World (Pool α) (Call α)}

/-- The lendings of a record have no part in it. -/
theorem of_eq {L : Lendings α} (h : Bounded B w) : Bounded { B with toLendings := L } w :=
  ⟨h.capacity, h.taken, h.unmade⟩

section

variable {i : Nat} {moment : Moment} {c c' : Call α} {below : List (Call α)} {p' : Pool α}

/-- A limit that takes effect is kept to: nothing is newer than it. -/
theorem resize {n : Nat} (hs : w.stack i = .start (.resize n) :: below)
    (h : Call.Steps moment w.shared (.start (.resize n)) p' c') (limit : B.limit = n)
    (taken : B.taken = w.shared.allocated) (older : B.older = w.threads.map List.length) :
    Bounded B (w.update i p' (c' :: below)) := by
  have size : p'.capacity = n ∧ p'.allocated = w.shared.allocated := by
    cases h <;> exact ⟨rfl, rfl⟩
  refine ⟨size.1.trans limit.symm, fun _ => ?_, fun _ _ => Bounds.not_newer hs older⟩
  exact (size.2.trans taken.symm).trans_le (Nat.le_max_right ..)

/-- Any other step takes a slot only within the limit. -/
theorem step (hb : Bounded B w) (hs : w.stack i = c :: below)
    (unasked : ∀ n, c ≠ .start (.resize n)) (h : Call.Steps moment w.shared c p' c') :
    Bounded B (w.update i p' (c' :: below)) := by
  obtain ⟨capacity, taken, unmade⟩ := hb
  have slots : p'.allocated ≤ w.shared.allocated ∨
      p'.allocated = w.shared.allocated + 1 ∧ w.shared.hasRoom = true :=
    h.allocated.imp_left fun less => less.trans_le (Nat.sub_le ..)
  rw [hasRoom_iff] at slots
  refine ⟨(h.capacity unasked).trans capacity, fun pos => ?_, fun pos excess newer => ?_⟩
  · have := taken pos
    show p'.allocated ≤ _
    omega
  · have excess : B.limit < p'.allocated := excess
    rcases Bounds.Newer.of_update [c] hs newer (World.lt_length_of_stack hs) with ⟨new, -⟩ | old
    · obtain ⟨room, one⟩ := h.creating new.symm
      rw [hasRoom_iff] at room
      omega
    · exact unmade pos (by omega) old

end

/-- **A move keeps to the limit**, the present one or a new one. -/
theorem move [DecidableEq α] {m : Move (Op α) (Reply α)} {notices : List Notice}
    (h : Bounded B w) (ha : (program α).apply w m = some (w', notices))
    (hn : B.note w m w' = some B') : Bounded B' w' := by
  obtain ⟨-, added⟩ := Bounds.of_note hn
  rw [added]
  refine of_eq ?_
  obtain ⟨capacity, taken, unmade⟩ := h
  cases moved ha with
  | spawn =>
    refine ⟨capacity, taken, fun pos excess => ?_⟩
    rintro ⟨i, above', below, hs, older⟩
    rw [World.stack_spawn] at hs
    exact unmade pos excess ⟨i, above', below, hs, older⟩
  | enter op hi =>
    refine ⟨capacity, taken, fun pos excess newer => ?_⟩
    rcases Bounds.Newer.of_update [] rfl newer hi with ⟨new, -⟩ | old
    · exact absurd new nofun
    · exact unmade pos excess old
  | @step i moment c c' below p' hst steps =>
    by_cases asked : ∃ n, c = .start (.resize n)
    · obtain ⟨n, rfl⟩ := asked
      rw [Bounds.add_resize hst]
      exact resize hst steps rfl rfl rfl
    · have unasked : ∀ n, c ≠ .start (.resize n) := fun n hn => asked ⟨n, hn⟩
      rw [Bounds.add_run hst unasked]
      exact step ⟨capacity, taken, unmade⟩ hst unasked steps
  | @answer i r c c' below _ f hst _ _ answered =>
    have hi := World.lt_length_of_stack hst
    refine ⟨capacity, taken, fun pos excess newer => ?_⟩
    rcases Bounds.Newer.of_update [c] hst newer hi with ⟨new, older⟩ | old
    · have made := answered.creating new.symm
      exact unmade pos excess ⟨i, [], below, made ▸ hst, older⟩
    · exact unmade pos excess old
  | expire hst => exact ⟨capacity, taken, unmade⟩
  | @collect i r below hst =>
    exact ⟨capacity, taken, fun pos excess newer => unmade pos excess (newer.of_collect hst)⟩

theorem of_kept [DecidableEq α] {l : Limits} (h : (program α).Kept Bounds.note
    { limit := l.size } (World.init (.ofLimits l)) B w) : Bounded B w := by
  induction h with
  | refl =>
    refine ⟨rfl, fun _ => Nat.zero_le _, fun _ excess => ?_⟩
    exact absurd excess (Nat.not_lt_zero _)
  | move m h ha hn ih => exact ih.move ha hn

end Bounded

/-- **What is lent keeps to the limit, but for what was idle when it shrank.** In every world that
a run from a fresh pool comes to, whatever the callbacks answer and do, if callers give back only
what they hold, and the limit that took effect last is one:

* there are no more slots taken than it allows, or than there were when it took effect;
* a call that started later hands out a resource only if fewer than the limit are lent, or if it
  took the resource from the idle ones and there are still too many slots taken;
* a step that brings a resource into use keeps those in use within the limit, or takes an idle
  one while there are too many slots taken. -/
theorem lent_within [DecidableEq α] (l : Limits) {B : Bounds α} {w : World (Pool α) (Call α)}
    (h : (program α).Kept Bounds.note { limit := l.size } (World.init (.ofLimits l)) B w)
    (hl : 0 < B.limit) :
    (w.shared.capacity = B.limit ∧ w.shared.allocated ≤ max B.limit B.taken) ∧
    (∀ i c below reply w' notices r, w.stack i = c :: below → B.floor i ≤ below.length →
      (program α).apply w (.answer i reply) = some (w', notices) →
      w'.stack i = .over (.got r) :: below →
        B.borrowed w < B.limit ∨
        B.limit < w.shared.allocated ∧ ∃ deadline, c = .checking deadline r) ∧
    ∀ i moment w' notices, (program α).apply w (.run i moment) = some (w', notices) →
      w.shared.active < w'.shared.active →
        w'.shared.active ≤ B.limit ∨
        B.limit < w.shared.allocated ∧ ∃ r, w.shared.idle = r :: w'.shared.idle := by
  have bounded := Bounded.of_kept h
  have balanced := Balanced.of_kept (h.map Bounds.toLendings fun hn => (Bounds.of_note hn).1)
  refine ⟨⟨bounded.capacity, bounded.taken hl⟩, ?_, ?_⟩
  · intro i c below reply w' notices r hs newer ha handed
    have taken : (∃ deadline, c = .checking deadline r) ∨ c = .creating := by
      cases Program.effect_of_apply ha with
      | @answer _ _ c₁ c' below₁ q p' _ hst hne he =>
        obtain ⟨rfl, rfl⟩ := List.cons.inj (hst.symm.trans hs)
        rw [World.stack_update_self (World.lt_length_of_stack hst)] at handed
        obtain ⟨rfl, -⟩ := List.cons.inj handed
        rcases (Call.answered he).handed r (List.mem_singleton_self r) with
          old | ⟨d, rfl, -⟩ | ⟨rfl, -⟩
        · cases c₁ with
          | «over» result => exact absurd hne nofun
          | _ => exact absurd old List.not_mem_nil
        · exact Or.inl ⟨d, rfl⟩
        · exact Or.inr rfl
    by_cases excess : B.limit < w.shared.allocated
    · rcases taken with judged | rfl
      · exact Or.inr ⟨excess, judged⟩
      · exact absurd ⟨i, [], below, hs, newer⟩ (bounded.unmade hl excess)
    · -- the call's own slot is one of those within the limit, and it is not lent
      have own : c.holds = 1 := by rcases taken with ⟨d, rfl⟩ | rfl <;> rfl
      have one := w.le_total Call.holds (World.mem_frames_of_stack hs)
      have slots := balanced.slots
      unfold Bounds.borrowed
      omega
  · intro i moment w' notices ha grown
    cases Program.effect_of_apply ha with
    | @step _ _ c c' below p' _ hst hne he =>
      have unended := ne_teardown_of_reach h.reach c (World.mem_frames_of_stack hst)
      rcases (Call.steps hne he).active unended grown with ⟨room, one⟩ | ⟨same, taken⟩
      · rw [hasRoom_iff, bounded.capacity] at room
        left
        show p'.active ≤ B.limit
        unfold Pool.active
        omega
      · by_cases excess : B.limit < w.shared.allocated
        · exact Or.inr ⟨excess, taken⟩
        · left
          show p'.active ≤ B.limit
          unfold Pool.active
          omega
    | descend hst hne => exact absurd hne (program_flat _ _ _)
    | ascend hst _ hg => exact absurd hg (program_flat _ _ _)

/-- One of two resources is idle when the limit shrinks to one, and a call takes it from there. -/
def shrunkInUse : List (Move (Op Nat) (Reply Nat)) :=
  [.spawn, .enter 0 .acquire, .run 0 (.at 0), .answer 0 (.got 7), .collect 0,
    .enter 0 .acquire, .run 0 (.at 0), .answer 0 (.got 8), .collect 0,
    .enter 0 (.release 8), .run 0 (.at 0), .run 0 (.at 0), .collect 0,
    .enter 0 (.resize 1), .run 0 (.at 0), .collect 0, .enter 0 .acquire, .run 0 (.at 0)]

/-- What `shrunkInUse` comes to. -/
def judging : World (Pool Nat) (Call Nat) where
  shared :=
    { allocated := 2, capacity := 1, counters := { acquired := 2, released := 1, created := 2 } }
  threads := [[.checking none 8]]

/-- What is recorded of `shrunkInUse`. -/
def shrunk : Bounds Nat :=
  { held := [7], resized := true, limit := 1, taken := 2, older := [0] }

theorem lent_within_shrunkInUse :
    (program Nat).keep? Bounds.note { limit := 2 } (World.init (.ofLimits { size := 2 }))
      shrunkInUse = some (shrunk, judging) ∧
    0 < shrunk.limit ∧ judging.shared.allocated ≤ max shrunk.limit shrunk.taken ∧
    ∀ w' notices, shrunk.floor 0 ≤ 0 →
      (program Nat).apply judging (.answer 0 (.verdict false)) = some (w', notices) →
      w'.stack 0 = [.over (.got 8)] →
        shrunk.borrowed judging < shrunk.limit ∨ shrunk.limit < judging.shared.allocated ∧
          ∃ deadline, Call.checking none 8 = .checking deadline 8 := by
  have run : (program Nat).keep? Bounds.note { limit := 2 }
      (World.init (.ofLimits { size := 2 })) shrunkInUse = some (shrunk, judging) := rfl
  obtain ⟨⟨-, taken⟩, handed, -⟩ := lent_within { size := 2 } (Program.kept_of_keep? run)
    (show 0 < shrunk.limit from Nat.one_pos)
  exact ⟨run, Nat.one_pos, taken, fun w' notices => handed 0 _ [] _ w' notices 8 rfl⟩

/-- One resource is lent when the limit of one is in effect, and a call that started later hands out
another one. -/
theorem lent_above_shrunkInUse : ∃ w' notices,
    (program Nat).keep? Bounds.note { limit := 2 } (World.init (.ofLimits { size := 2 }))
      shrunkInUse = some (shrunk, judging) ∧
    shrunk.limit = 1 ∧ judging.stack 0 = [.checking none 8] ∧ shrunk.floor 0 ≤ 0 ∧
    (program Nat).apply judging (.answer 0 (.verdict false)) = some (w', notices) ∧
    w'.stack 0 = [.over (.got 8)] ∧ ¬shrunk.borrowed judging < shrunk.limit :=
  ⟨_, _, rfl, rfl, rfl, Nat.le_refl 0, rfl, rfl, Nat.lt_irrefl 1⟩

end Lending.Pool
