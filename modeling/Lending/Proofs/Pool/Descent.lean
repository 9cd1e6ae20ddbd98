import Lending.Proofs.Pool.Slots

/-!
# How a shrunk pool comes down

A limit that shrinks below the slots that are taken takes nothing back. The excess goes as resources
come back: a `release` above the limit evicts what it is given, and a `discard` gives its slot up
anyway. Both comparisons with the limit are strict, and that is what makes the descent stop where it
should: a pool *at* the limit takes no slot (`hasRoom`) and gives none up on a `release`
(`overCapacity`). Whatever else runs in between, a stale resource evicted, a failed attempt to make
one, all idle ones removed, can only help.

A `Descent` record counts the releases and discards that took effect since the limit did. A discard
takes effect where it gives its slot up, once it has let its resource go; one that raises on the way
never does (`Lendings.cutShort`).

* `Call.returns_le_surrenders`: above the limit, a release or a discard gives its slot up.
* `Descending`: the slots come down by one with each of them, and never come back above the limit.
* `shrunk_comes_down`: so as many of them as there were slots too many bring the pool within the
  limit, and it stays there.

Nothing is claimed of how soon resources come back: the law counts them. It holds of every order in
which releases, discards, borrowings, evictions and removals follow each other, since only `acquire`
takes slots, and only where `has_room` holds.
-/

namespace Lending.Pool

variable {α : Type}

namespace Call

/-- Releases and discards that take effect with the next step of a call. -/
def returns : Call α → Nat
  | .start (.release _) | .freeing .finish => 1
  | _ => 0

/-- Above the limit, a release or a discard gives its slot up. -/
theorem returns_le_surrenders {p : Pool α} (c : Call α) (ho : p.overCapacity = true) :
    c.returns ≤ c.surrenders p := by
  unfold returns
  split
  · simp [surrenders, ho]
  · exact Nat.le_refl 1
  · exact Nat.zero_le _

end Call

/-- What is recorded of a pool from a change of its limit on, beside its lendings. -/
structure Descent (α : Type) extends Lendings α where
  /-- Releases and discards that took effect. -/
  back : Nat := 0

namespace Descent

variable {D D' : Descent α} {w w' : World (Pool α) (Call α)} {m : Move (Op α) (Reply α)}

/-- The releases and discards that take effect with a move; another change of the limit is objected
to. -/
def back? (w : World (Pool α) (Call α)) : Move (Op α) (Reply α) → Option Nat
  | .run i _ =>
    match w.stack i with
    | .start (.resize _) :: _ => none
    | c :: _ => some c.returns
    | [] => some 0
  | _ => some 0

/-- A move is written down. One by which the limit changes is objected to, and one by which a caller
gives back what it does not hold. -/
def note [DecidableEq α] (D : Descent α) (w : World (Pool α) (Call α)) (m : Move (Op α) (Reply α))
    (w' : World (Pool α) (Call α)) : Option (Descent α) :=
  (D.toLendings.note w m w').bind fun L =>
    (back? w m).map fun n => { toLendings := L, back := D.back + n }

theorem of_note [DecidableEq α] (h : D.note w m w' = some D') :
    D.toLendings.note w m w' = some D'.toLendings ∧ ∃ n, back? w m = some n ∧
      D'.back = D.back + n := by
  obtain ⟨L, hL, h⟩ := Option.bind_eq_some_iff.mp h
  obtain ⟨n, hn, rfl⟩ := Option.map_eq_some_iff.mp h
  exact ⟨hL, n, hn, rfl⟩

/-- A step that is not objected to does not change the limit, and counts as its call says. -/
theorem of_back?_run {i n : Nat} {t : Moment} {c : Call α} {below : List (Call α)}
    (h : back? w (.run i t) = some n) (hs : w.stack i = c :: below) :
    (∀ k, c ≠ .start (.resize k)) ∧ n = c.returns := by
  simp only [back?, hs] at h
  split at h
  · cases h
  · rename_i _ changes heq
    obtain ⟨rfl, rfl⟩ := List.cons.inj heq
    obtain rfl := Option.some.inj h
    exact ⟨changes, rfl⟩
  · rename_i heq
    cases heq

end Descent

/-- A pool that had `taken` slots when the limit `n` took effect has come down with what came back
since. -/
structure Descending (n taken back : Nat) (p : Pool α) : Prop where
  capacity : p.capacity = n
  taken    : p.allocated ≤ max n (taken - back)

namespace Descending

variable {n taken : Nat} {D D' : Descent α} {w w' : World (Pool α) (Call α)}

/-- **A move keeps the descent**, unless it changes the limit. -/
theorem move [DecidableEq α] {m : Move (Op α) (Reply α)} {notices : List Notice} (hn : 0 < n)
    (hb : Balanced D.toLendings w) (h : Descending n taken D.back w.shared)
    (ha : (program α).apply w m = some (w', notices)) (note : D.note w m w' = some D') :
    Descending n taken D'.back w'.shared := by
  obtain ⟨-, k, hk, back⟩ := Descent.of_note note
  rw [back]
  cases moved ha with
  | @step i t c c' below p' hst steps =>
    obtain ⟨unchanged, rfl⟩ := Descent.of_back?_run hk hst
    refine ⟨(steps.capacity unchanged).trans h.capacity, ?_⟩
    have taken := h.taken
    show p'.allocated ≤ _
    rcases steps.allocated with lower | ⟨reserved, room⟩
    · by_cases excess : n < w.shared.allocated
      · have crowded : w.shared.overCapacity = true := by
          rw [overCapacity_iff, h.capacity]
          exact ⟨hn, excess⟩
        have returned := c.returns_le_surrenders crowded
        have surrendered := hb.surrenders_le (World.mem_frames_of_stack hst)
        omega
      · omega
    · rw [hasRoom_iff, h.capacity] at room
      omega
  | spawn | enter | answer | expire | collect =>
    obtain rfl := Option.some.inj hk
    exact ⟨h.capacity, h.taken⟩

/-- A run keeps the descent, and more and more comes back. -/
theorem of_kept [DecidableEq α] {l : Limits} {D₀ : Descent α} {w₀ : World (Pool α) (Call α)}
    (hn : 0 < n)
    (h₀ : (program α).Kept Lendings.note {} (World.init (.ofLimits l)) D₀.toLendings w₀)
    (hw₀ : w₀.shared.capacity = n) (h : (program α).Kept Descent.note D₀ w₀ D w) :
    D₀.back ≤ D.back ∧ Descending n (w₀.shared.allocated + D₀.back) D.back w.shared := by
  induction h with
  | refl => exact ⟨Nat.le_refl _, hw₀, by omega⟩
  | @move D D' w w' m _ h ha hm ih =>
    have lendings := h₀.trans (h.map Descent.toLendings fun hn => (Descent.of_note hn).1)
    obtain ⟨-, k, -, back⟩ := Descent.of_note hm
    exact ⟨ih.1.trans (by omega), move hn (Balanced.of_kept lendings) ih.2 ha hm⟩

end Descending

section

variable {i : Nat} {w : World (Pool α) (Call α)} {below : List (Call α)}

/-- Above the limit, a release evicts the very resource that comes back. -/
theorem apply_release (crowded : w.shared.overCapacity = true) {r : α}
    (hs : w.stack i = .start (.release r) :: below) (t : Moment) : ∃ p' notices,
    (program α).apply w (.run i t) = some (w.update i p' (.evictingSurplus r :: below), notices) ∧
    (program α).status (w.update i p' (.evictingSurplus r :: below)) i = .asking (.evict r) ∧
    p'.allocated + 1 = w.shared.allocated ∧ p'.idle = w.shared.idle := by
  have taken : 0 < w.shared.allocated := by
    rw [overCapacity_iff] at crowded
    omega
  have step : (program α).step t w.shared (.start (.release r)) = _ := if_pos crowded
  refine ⟨{ w.shared with allocated := w.shared.allocated - 1 }, [.surplus], ?_, ?_,
    Nat.sub_add_cancel taken, rfl⟩
  · simp only [Program.apply, Program.runStack, hs, step]
    rfl
  · unfold Program.status
    rw [World.stack_update_self (World.lt_length_of_stack hs)]
    rfl

/-- A discard that has let its resource go gives the slot up. -/
theorem apply_discarded (taken : 0 < w.shared.allocated)
    (hs : w.stack i = .freeing .finish :: below) (t : Moment) : ∃ p' notices,
    (program α).apply w (.run i t) = some (w.update i p' (.notifying .finish :: below), notices) ∧
    p'.allocated + 1 = w.shared.allocated ∧ p'.idle = w.shared.idle := by
  refine ⟨{ w.shared with allocated := w.shared.allocated - 1 }, [], ?_,
    Nat.sub_add_cancel taken, rfl⟩
  simp only [Program.apply, Program.runStack, hs]
  rfl

end

/-- **A shrunk pool comes down to its limit.** In every world that a run from a fresh pool comes to,
let a limit `n` take effect, however many slots are taken. From there, whatever is done except for
another change of the limit, and whatever the callbacks answer and do, if callers give back only
what they hold:

* the slots taken are within the limit, or have come down with each release and discard that took
  effect since; so as many of these as there were slots too many bring them within the limit;
* they never rise while there are as many as the limit or more, and once within it they stay there;
* a release above the limit takes one off and asks at once for the very resource that came back to
  be evicted, and what is idle stays as it was;
* a discard that has let its resource go takes one off as well. -/
theorem shrunk_comes_down [DecidableEq α] (l : Limits) {L : Lendings α} {D : Descent α}
    {w w₁ w₂ : World (Pool α) (Call α)} {i n : Nat} {below : List (Call α)} {moment : Moment}
    {notices : List Notice}
    (h : (program α).Kept Lendings.note {} (World.init (.ofLimits l)) L w)
    (hs : w.stack i = .start (.resize n) :: below) (hn : 0 < n)
    (resized : (program α).apply w (.run i moment) = some (w₁, notices))
    (run : (program α).Kept Descent.note { toLendings := L } w₁ D w₂) :
    w₂.shared.capacity = n ∧ w₂.shared.allocated ≤ max n (w.shared.allocated - D.back) ∧
    (∀ D' w₃, (program α).Kept Descent.note D w₂ D' w₃ →
      w₃.shared.allocated ≤ max n w₂.shared.allocated) ∧
    (∀ j t r below, w₂.stack j = .start (.release r) :: below → n < w₂.shared.allocated →
      ∃ p' notices, (program α).apply w₂ (.run j t) =
          some (w₂.update j p' (.evictingSurplus r :: below), notices) ∧
        (program α).status (w₂.update j p' (.evictingSurplus r :: below)) j = .asking (.evict r) ∧
        p'.allocated + 1 = w₂.shared.allocated ∧ p'.idle = w₂.shared.idle) ∧
    ∀ j t below, w₂.stack j = .freeing .finish :: below → n < w₂.shared.allocated →
      ∃ p' notices, (program α).apply w₂ (.run j t) =
          some (w₂.update j p' (.notifying .finish :: below), notices) ∧
        p'.allocated + 1 = w₂.shared.allocated ∧ p'.idle = w₂.shared.idle := by
  have start : w₁.shared.capacity = n ∧ w₁.shared.allocated = w.shared.allocated := by
    cases Program.effect_of_apply resized with
    | @step _ _ c c' below p' _ hst hne he =>
      obtain ⟨rfl, -⟩ := List.cons.inj (hst.symm.trans hs)
      have steps : Call.Steps moment w.shared (.start (.resize n)) p' c' := Call.steps hne he
      show p'.capacity = n ∧ p'.allocated = w.shared.allocated
      cases steps <;> exact ⟨rfl, rfl⟩
    | descend hst hne => exact absurd hne (program_flat _ _ _)
    | ascend hst _ hg => exact absurd hg (program_flat _ _ _)
  have h₁ : (program α).Kept Lendings.note {} (World.init (.ofLimits l)) L w₁ :=
    .move _ h resized rfl
  have h₂ := h₁.trans (run.map Descent.toLendings fun hn => (Descent.of_note hn).1)
  obtain ⟨-, capacity, taken⟩ := Descending.of_kept hn h₁ start.1 run
  rw [start.2] at taken
  refine ⟨capacity, taken, fun D' w₃ later => ?_, fun j t r below hj excess => ?_,
    fun j t below hj excess => ?_⟩
  · obtain ⟨more, -, taken⟩ := Descending.of_kept hn h₂ capacity later
    omega
  · exact apply_release (overCapacity_iff.mpr (capacity ▸ ⟨hn, excess⟩)) hj t
  · exact apply_discarded (Nat.zero_lt_of_lt excess) hj t

/-- Three resources are lent when a limit of one is asked for. -/
def threeLent : List (Move (Op Nat) (Reply Nat)) :=
  [.spawn, .enter 0 .acquire, .run 0 (.at 0), .answer 0 (.got 7), .collect 0,
    .enter 0 .acquire, .run 0 (.at 0), .answer 0 (.got 8), .collect 0,
    .enter 0 .acquire, .run 0 (.at 0), .answer 0 (.got 9), .collect 0, .enter 0 (.resize 1)]

/-- The world around a change of the limit, with `c` on the only thread. -/
def lentOut (capacity : Nat) (c : Call Nat) : World (Pool Nat) (Call Nat) where
  shared := { allocated := 3, capacity, counters := { acquired := 3, created := 3 } }
  threads := [[c]]

/-- One resource is given back and evicted, and another one is discarded. -/
def broughtBack : List (Move (Op Nat) (Reply Nat)) :=
  [.collect 0, .enter 0 (.release 8), .run 0 (.at 0), .answer 0 .done, .collect 0,
    .enter 0 (.discard 7), .answer 0 .done, .run 0 (.at 0), .run 0 (.at 0), .collect 0]

theorem shrunk_comes_down_broughtBack : ∃ D w₂,
    (program Nat).keep? Lendings.note {} (World.init (.ofLimits { size := 3 })) threeLent =
      some ({ held := [9, 8, 7], resized := true }, lentOut 3 (.start (.resize 1))) ∧
    1 < (lentOut 3 (.start (.resize 1))).shared.allocated ∧
    (program Nat).apply (lentOut 3 (.start (.resize 1))) (.run 0 (.at 0)) =
      some (lentOut 1 (.over .done), []) ∧
    (program Nat).keep? Descent.note { held := [9, 8, 7], resized := true }
      (lentOut 1 (.over .done)) broughtBack = some (D, w₂) ∧
    D.back = 2 ∧ w₂.shared.allocated ≤ max 1 (3 - D.back) := by
  have run : (program Nat).keep? Lendings.note {} (World.init (.ofLimits { size := 3 }))
      threeLent =
        some ({ held := [9, 8, 7], resized := true }, lentOut 3 (.start (.resize 1))) := rfl
  have more : (program Nat).keep? Descent.note { held := [9, 8, 7], resized := true }
      (lentOut 1 (.over .done)) broughtBack = some (_, _) := rfl
  have excess : 1 < (lentOut 3 (.start (.resize 1))).shared.allocated := by decide
  have resized : (program Nat).apply (lentOut 3 (.start (.resize 1))) (.run 0 (.at 0)) =
      some (lentOut 1 (.over .done), []) := rfl
  obtain ⟨-, taken, -⟩ := shrunk_comes_down { size := 3 } (Program.kept_of_keep? run) rfl
    Nat.one_pos resized (Program.kept_of_keep? more)
  exact ⟨_, _, run, excess, resized, more, rfl, taken⟩

end Lending.Pool
