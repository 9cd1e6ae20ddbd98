import Lending.Proofs.Cache.References
import Lending.Proofs.Cache.Remote
import Lending.Proofs.Cache.Tenure
import Mathlib.Data.List.Count

/-!
# Nested levels stay coupled

A level has a slot for each session of its own, and its sessions are handles of the next level, each
a slot in use there. So the slots taken above are those in use below, whenever nothing is under way,
and in the end there is one for each remote session that is left. A close that raises breaks this:
it takes the slot above with it.

* `lostBy_eq_zero`: where no close raises, no slot is lost.
* `count_stock`: a level has each handle of the next that has not been given back, once.
* `coupled`: so the levels agree on how many sessions there are.

The figures are those of each level's pool: `allocated_count` above and `active_count` below. A
session that the level above has idle is a slot in use below, as its handle has not been given back.
-/

namespace Lending.Cache

namespace Diary

/-- The sessions that were asked to close. -/
def closed (D : Diary) : List Nat :=
  D.log.filterMap fun
    | .asked (.close s) => some s
    | _ => none

/-- The sessions connected, without those closed or lost. -/
def left (D : Diary) : List Nat := D.connected.diff (D.closed ++ D.lost)

theorem count_closed (D : Diary) (s : Nat) :
    D.closed.count s = D.log.count (.asked (.close s)) := by
  unfold closed
  induction D.log with
  | nil => rfl
  | cons e log ih =>
    cases e with
    | asked q => cases q <;> simp [List.count_cons, ih]
    | lent t => simp [ih]

end Diary

variable {k h : Nat} {limits : List Limits} {shared : Bool} {c : Cache} {w w' : World Cache Frame}
  {m : Move Op Reply} {notices : List Notice} {D₀ D D' : Diary}

/-- **Where no close raises, no slot is lost.** -/
theorem lostBy_eq_zero (h : program.Kept Diary.note D₀ (World.init c) D w)
    (ha : program.apply w m = some (w', notices)) (hn : D.note w m w' = some D') (k : Nat) :
    lostBy k w m = 0 := by
  have depth := (stands_of_reach h.reach).1
  unfold lostBy
  cases hm : program.heard w m with
  | none => rfl
  | some x =>
    obtain ⟨f, r⟩ := x
    show f.loses k r = 0
    unfold Frame.loses
    split
    · rename_i j s message
      have ends : (Frame.closing j s).hushes c.depth = true ∨
          ∃ t, (Frame.closing j s).need w.shared = .ask (.close t) := by
        by_cases hi : w.shared.innermost j = true
        · exact Or.inr ⟨s, by simp [Frame.need, hi]⟩
        · exact Or.inl (decide_eq_true (depth ▸ inner_iff.mp hi))
      have := settles_of_heard h ha hn hm ends
      cases this
    · rename_i j s message
      have inner : j + 1 < w.shared.depth := by
        rcases need_of_heard ha hm with ⟨q, hq⟩ | ⟨g, hg⟩
        · obtain ⟨q', asks, answered⟩ := Frame.exists_ask_of_need hq
          cases asks
          simp only [Frame.ofQuery] at answered
          split at answered <;> cases answered
        · obtain ⟨q', -, answered⟩ := Frame.exists_sub_of_need hg
          exact Frame.inner_of_sub answered
      have := settles_of_heard h ha hn hm (Or.inl (decide_eq_true (depth ▸ inner)))
      cases this
    · rfl

/-- So the slots of a level are those of its sessions. -/
theorem slots_of_kept (hk : k < limits.length)
    (hw : program.Kept Diary.note D₀ (World.init (.ofLimits limits shared)) D w)
    (alive : (w.shared.level k).poolAlive = true) (quiet : ∀ i, w.stack i = []) :
    (w.shared.level k).pool.allocated =
      (w.shared.level k).pool.idle.length + (w.shared.level k).onLoan.length := by
  have counted : program.Kept (countLost k) 0 (World.init (.ofLimits limits shared)) 0 w := by
    clear alive quiet
    induction hw with
    | refl => exact .refl
    | move m h ha hn ih =>
      refine .move m ih ha ?_
      unfold countLost
      rw [lostBy_eq_zero h ha hn]
  exact ((slots_accounted_unless_lost hk counted alive).2 quiet).1

/-! ## What a level has of the next one -/

/-- Where nothing is under way, a session is idle or on loan. -/
theorem keeping_of_quiet (quiet : ∀ i, w.stack i = []) (k s : Nat) (ω : Frame → Nat) :
    keeping k s w ω = ((w.shared.level k).pool.idle ++ (w.shared.level k).onLoan).count s := by
  have frames := World.frames_eq_nil quiet
  have weights : w.weigh (Frame.arrives k s) = 0 := World.tally_eq_zero quiet rfl
  unfold keeping arriving
  simp [World.total, frames, weights]

/-- **A level has each handle of the next that has not been given back, once.** -/
theorem count_stock (hi : k + 1 < limits.length)
    (hw : program.Kept Diary.note D₀ (World.init (.ofLimits limits shared)) D w)
    (quiet : ∀ i, w.stack i = []) (h : Nat) :
    ((w.shared.level k).pool.idle ++ (w.shared.level k).onLoan).count h =
      if (w.shared.handle (k + 1) h).target.isSome then 1 else 0 := by
  have custody : custody k h w = _ := keeping_of_quiet quiet k h (Frame.has k h)
  have pending : pending k h w = _ := keeping_of_quiet quiet k h (Frame.pends k h)
  obtain ⟨one, lent⟩ := custody_le_one hi hw.reach h
  cases ht : (w.shared.handle (k + 1) h).target with
  | none =>
    by_cases hl : h < (w.shared.level (k + 1)).handles.length
    · have none := due_of_returned hi hw ⟨hl, ht⟩
      unfold due at none
      show _ = 0
      omega
    · show _ = 0
      omega
  | some s =>
    have alive : (w.shared.handle (k + 1) h).gone = false := by
      by_contra hg
      have := target_of_gone hi hw.reach (by simpa using hg)
      rw [ht] at this
      cases this
    have has := custody_of_lent hi hw (lt_length_of_target ht) alive
    show _ = 1
    omega

/-- Which of the handles of a level have a session, in order. -/
theorem length_onLoan (l : Level) :
    l.onLoan.length = ((List.range l.handles.length).filter fun h =>
      (l.handles[h]?.getD .none).target.isSome).length := by
  have all : l.handles = (List.range l.handles.length).map fun h => l.handles[h]?.getD .none := by
    refine List.ext_getElem (by simp) fun n hn _ => ?_
    simp [hn]
  unfold Level.onLoan
  rw [List.length_filterMap_eq_countP, ← List.countP_eq_length_filter]
  conv_lhs => rw [all]
  rw [List.countP_map]
  rfl

/-- **The sessions of a level are the sessions that the next one has on loan.** -/
theorem length_stock (hi : k + 1 < limits.length)
    (hw : program.Kept Diary.note D₀ (World.init (.ofLimits limits shared)) D w)
    (quiet : ∀ i, w.stack i = []) :
    ((w.shared.level k).pool.idle ++ (w.shared.level k).onLoan).length =
      (w.shared.level (k + 1)).onLoan.length := by
  rw [length_onLoan]
  refine List.Perm.length_eq (List.perm_iff_count.mpr fun h => ?_)
  rw [count_stock hi hw quiet]
  cases ht : (w.shared.handle (k + 1) h).target with
  | none =>
    refine (List.count_eq_zero.mpr fun mem => ?_).symm
    have has : (w.shared.handle (k + 1) h).target.isSome = true := (List.mem_filter.mp mem).2
    rw [ht] at has
    cases has
  | some s =>
    have has : (w.shared.handle (k + 1) h).target.isSome = true := by
      rw [ht]
      rfl
    refine Eq.symm (Eq.trans (List.count_filter has) ?_)
    exact List.count_eq_one_of_mem List.nodup_range (List.mem_range.mpr (lt_length_of_target ht))

/-- **Nested caches stay coupled.** Take any stack and any run, whatever connecting and probing
answer, fail at or raise, as long as no close raises. Then, whenever nothing is under way:

* while the users have the outermost factory, every pool is alive;
* as many slots are taken at a level as are in use at the next one;
* every session connected was closed, or was lost as finding out whether it is open raised at the
  innermost level, or is left, and as many slots are taken at the innermost level as sessions are
  left.

A session that is lost above the innermost level is lost there only: its handle is dropped, which
gives it back to the level below. -/
theorem coupled (h0 : 0 < limits.length)
    (h : program.Kept Diary.note {} (World.init (.ofLimits limits shared)) D w)
    (quiet : ∀ i, w.stack i = []) :
    (0 < w.shared.keepers → ∀ k < limits.length, (w.shared.level k).poolAlive = true) ∧
    (∀ k, k + 1 < limits.length → (w.shared.level k).poolAlive = true →
      (w.shared.level k).pool.allocated = (w.shared.level (k + 1)).pool.active) ∧
    D.connected.Perm (D.left ++ (D.closed ++ D.lost)) ∧
    ((w.shared.level w.shared.bottom).poolAlive = true →
      (w.shared.level w.shared.bottom).pool.allocated = D.left.length) := by
  have start : (Cache.ofLimits limits shared).depth = limits.length := depth_ofLimits limits shared
  have bottom : w.shared.bottom = limits.length - 1 := by
    unfold bottom
    rw [(stands_of_reach h.reach).1, start]
  have stock : ∀ s, ((w.shared.level w.shared.bottom).pool.idle ++
      (w.shared.level w.shared.bottom).onLoan).count s + (D.closed ++ D.lost).count s =
      D.connected.count s := by
    intro s
    have kept := pending_of_kept (k := w.shared.bottom) (s := s) (by omega) h
      (keeping_init (by omega) s _)
    have idle : pending w.shared.bottom s w = _ := keeping_of_quiet quiet _ s _
    have gone : (D.closed ++ D.lost).count s = _ := List.count_append
    rw [idle, ← D.count_closed] at kept
    omega
  have left : ∀ s, D.left.count s = D.connected.count s - (D.closed ++ D.lost).count s :=
    fun s => List.count_diff s _ _
  refine ⟨fun keepers k hk => pool_of_keepers h.reach keepers hk, fun k hi alive => ?_, ?_,
    fun alive => ?_⟩
  · have above := slots_of_kept (by omega) h alive quiet
    have below := slots_of_kept hi h (pool_of_above hi h.reach alive) quiet
    have stock := length_stock hi h quiet
    rw [List.length_append] at stock
    unfold Pool.active
    omega
  · refine List.perm_iff_count.mpr fun s => ?_
    have := stock s
    rw [List.count_append, left]
    omega
  · rw [slots_of_kept (by omega) h alive quiet, ← List.length_append]
    refine List.Perm.length_eq (List.perm_iff_count.mpr fun s => ?_)
    have := stock s
    rw [left]
    omega

/-- Two levels, and a session that is idle above, so in use below. Finding out there whether it is
open raises, and it is idle below; then it does so below as well, and the session is lost. Another
one is connected and lent. -/
def probesRaise : List (Move Op Reply) :=
  List.flatten [
    [.spawn, .enter 0 .getSession], List.replicate 8 (.run 0 (.at 0)),
    [.answer 0 (.got 7)], List.replicate 3 (.run 0 (.at 0)), [.collect 0],
    [.enter 0 (.close 0)], List.replicate 6 (.run 0 (.at 0)), [.collect 0],
    [.enter 0 .getSession], List.replicate 6 (.run 0 (.at 0)),
    [.answer 0 (.raised "probe blew up")], List.replicate 13 (.run 0 (.at 0)), [.collect 0],
    [.enter 0 .getSession], List.replicate 8 (.run 0 (.at 0)),
    [.answer 0 (.raised "probe blew up")], List.replicate 8 (.run 0 (.at 0)), [.collect 0],
    [.enter 0 .getSession], List.replicate 8 (.run 0 (.at 0)),
    [.answer 0 (.got 8)], List.replicate 3 (.run 0 (.at 0)), [.collect 0]]

/-- What `probesRaise` comes to. -/
def oneLost : World Cache Frame where
  shared :=
    { levels :=
        [{ pool :=
             { allocated := 1, capacity := 1
               counters := { acquired := 2, released := 1, created := 2 } }
           handles := [{ target := none, epoch := 0 }, { target := some 1, epoch := 0 }] },
         { pool :=
             { allocated := 1, capacity := 2
               counters := { acquired := 2, released := 1, created := 2 } }
           handles :=
            [{ target := none, epoch := 0, gone := true }, { target := some 8, epoch := 0 }] }]
      keepers := 5 }
  threads := [[]]

/-- What was written down on the way. -/
def oneLostDiary : Diary where
  connected := [7, 8]
  lost := [7]
  log :=
    [.lent 8, .lent 8, .asked .connect, .asked (.isOpen 7), .asked (.isOpen 7), .lent 7, .lent 7,
      .asked .connect]

set_option maxRecDepth 2048 in
/-- Each of the two levels has a slot taken, and one session is left. -/
theorem coupled_probesRaise :
    program.keep? Diary.note {} (World.init (.ofLimits [{ size := 1 }, { size := 2 }] false))
      probesRaise = some (oneLostDiary, oneLost) ∧
    (0 < 2 ∧ (∀ i, oneLost.stack i = []) ∧ 0 < oneLost.shared.keepers) ∧
    ((0 < oneLost.shared.keepers → ∀ k < 2, (oneLost.shared.level k).poolAlive = true) ∧
      (∀ k, k + 1 < 2 → (oneLost.shared.level k).poolAlive = true →
        (oneLost.shared.level k).pool.allocated = (oneLost.shared.level (k + 1)).pool.active) ∧
      oneLostDiary.connected.Perm
        (oneLostDiary.left ++ (oneLostDiary.closed ++ oneLostDiary.lost)) ∧
      ((oneLost.shared.level oneLost.shared.bottom).poolAlive = true →
        (oneLost.shared.level oneLost.shared.bottom).pool.allocated = oneLostDiary.left.length)) ∧
    (oneLost.shared.level 0).pool.allocated = 1 ∧ oneLostDiary.left = [8] := by
  have run : program.keep? Diary.note {}
      (World.init (.ofLimits [{ size := 1 }, { size := 2 }] false)) probesRaise =
      some (oneLostDiary, oneLost) := rfl
  have quiet : ∀ i, oneLost.stack i = [] := by
    intro i
    cases i <;> rfl
  exact ⟨run, ⟨by decide, quiet, by decide⟩,
    coupled (by decide) (Program.kept_of_keep? run) quiet, rfl, rfl⟩

end Lending.Cache
