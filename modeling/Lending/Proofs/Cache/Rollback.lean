import Lending.Proofs.Cache.Borrowing
import Lending.Proofs.Cache.Settling

/-!
# A borrowing that fails

The error of a borrowing comes up through every level, and with it each level's attempt is undone:
the slot that was taken for a session is given up, and no handle was made. What is gone from a level
is what was found stale there on the way down, and that is counted. Other operations under way stand
still meanwhile, since what they take or give back would show in the same figures.

* `BorrowingTries`: what holds at each point of a borrowing (`BorrowingTries.of_apply` for a move,
  `BorrowingTries.of_kept` for a run).
* `rolled_back`: what is left of one that has failed, and the text and the kind of its error.

The operation is `get_session` of the outermost factory. Each pool wraps what its `create` failed
with (`CreateFailed`), and each factory turns the pool's error into one of a session, of a kind for
waits that were too long if its own pool was exhausted, and of the kind for everything else if it
passes on what failed below; the text is kept whole.
-/

namespace Lending.Cache

/-- Where a borrowing upon `below`, begun at `c₀` with the stack `fs₀`, has come to. As long as it
may yet end with an error, it has made nothing at any level. -/
def BorrowingTries (d : Nat) (below : List Frame) (c₀ : Cache) (fs₀ : List Frame) (A : Attempt)
    (c : Cache) (fs : List Frame) : Prop :=
  NotFailing below fs ∨ Phase d below c A fs ∧ ∀ l < d, Spared l c₀ fs₀ c fs

section

variable {limits : List Limits} {shared : Bool} {i : Nat} {below rest fs₀ : List Frame}
  {A A' : Attempt} {c₀ c' : Cache} {w₀ w w' : World Cache Frame} {f f' g g' y : Frame} {r : Reply}
  {q : Query} {m : Moment} {t : Instant} {notices : List Notice} {e : PoolError}

/-- While the users have the outermost factory, no factory is gone. -/
theorem factories_of_keepers (hw : program.Reach (World.init (.ofLimits limits shared)) w)
    (keepers : 0 < w.shared.keepers) (j : Nat) : (w.shared.level j).factoryAlive = true := by
  by_cases hj : j < limits.length
  · exact factory_of_keepers hw keepers hj
  · have depth := depth_of_reach hw
    unfold level
    rw [List.getElem?_eq_none ((Nat.le_of_eq depth).trans (Nat.le_of_not_lt hj))]
    rfl

/-- What an operation of a user stands on needs nothing of the stack. -/
theorem Stands.need_ne_sub {d : Nat} {c : Cache} {op : Op} (h : Stands d (.call op) (g :: rest))
    (hd : c.depth = d) : g.need c ≠ .sub y := by
  obtain ⟨t, ht, hon⟩ := h
  cases t with
  | user op' =>
    obtain ⟨c', q, hd', asks⟩ := hon
    intro hn
    obtain ⟨g', hg'⟩ := Frame.exists_sub_of_depth hn (hd'.trans hd.symm)
    cases asks.symm.trans hg'
  | _ => exact ht.elim

namespace BorrowingTries

theorem step (hw : program.Reach (World.init (.ofLimits limits shared)) w)
    (hs : w.stack i = f :: rest)
    (h : BorrowingTries limits.length below c₀ fs₀ A w.shared (f :: rest))
    (hn : f.need w.shared = .step) (he : f.step m w.shared = (c', f', notices)) :
    BorrowingTries limits.length below c₀ fs₀ (A.see (f' :: rest)) c' (f' :: rest) := by
  have depth := depth_of_reach hw
  rcases h with otherwise | ⟨phase, spared⟩
  · refine Or.inl (otherwise.replace (c := w.shared) (Frame.steps hn he).raises fun r => ?_)
    rw [hn]
    exact nofun
  · rcases phase.step depth (factories_of_keepers hw) hn (Frame.steps hn he) with otherwise | next
    · exact Or.inl otherwise
    · refine Or.inr ⟨next, fun l hl => (spared l hl).trans (.replace ?_ _)⟩
      obtain ⟨ends, pools⟩ := phase.top l
      refine spares_of_step (depth.symm ▸ hl) hn he ends fun x hx => ?_
      exact slots_le_allocated hl hw (pool_of_keepers hw (pools l x hx).2 hl)
        (World.mem_frames_of_stack hs)

theorem push (hw : program.Reach (World.init (.ofLimits limits shared)) w)
    (hs : w.stack i = f :: rest)
    (h : BorrowingTries limits.length below c₀ fs₀ A w.shared (f :: rest))
    (hn : f.need w.shared = .sub g) :
    BorrowingTries limits.length below c₀ fs₀ (A.see (g :: f :: rest)) w.shared
      (g :: f :: rest) := by
  have depth := depth_of_reach hw
  have needs := Frame.needs (Frame.started_of_reach hw f (World.mem_frames_of_stack hs)) hn
  rcases h with otherwise | ⟨phase, spared⟩
  · exact Or.inl (otherwise.push hn)
  · exact Or.inr ⟨phase.sub depth hn needs,
      fun l hl => (spared l hl).trans (.push (needs.share l))⟩

theorem ascend (hw : program.Reach (World.init (.ofLimits limits shared)) w)
    (user : ∀ g rest y, below = g :: rest → g.need w.shared ≠ .sub y)
    (h : BorrowingTries limits.length below c₀ fs₀ A w.shared (f :: g :: rest))
    (hn : f.need w.shared = .over r) (hg : g.need w.shared = .sub y)
    (he : g.resume w.shared r = (c', g', notices)) :
    BorrowingTries limits.length below c₀ fs₀ (A.see (g' :: rest)) c' (g' :: rest) := by
  have depth := depth_of_reach hw
  have resumed := Frame.resumed (Or.inr ⟨y, hg⟩) he
  rcases h with otherwise | ⟨phase, spared⟩
  · exact Or.inl (otherwise.ascend user hn hg resumed)
  · rcases phase.ascend user hn hg resumed with otherwise | ⟨next, fruitless⟩
    · exact Or.inl otherwise
    · refine Or.inr ⟨next, fun l hl => ?_⟩
      have spares := spares_of_resume (depth.symm ▸ hl) (Or.inr ⟨y, hg⟩) he fruitless.unraised
        fruitless.unmade fruitless.closes
      exact ((spared l hl).trans (.pop (Frame.share_of_over hn l))).trans (.replace spares rest)

theorem answer (hw : program.Reach (World.init (.ofLimits limits shared)) w)
    (h : BorrowingTries limits.length below c₀ fs₀ A w.shared (f :: rest))
    (hn : f.need w.shared = .ask q) (he : f.resume w.shared r = (c', f', notices)) :
    BorrowingTries limits.length below c₀ fs₀ (A.hear (.asking q) r) c' (f' :: rest) := by
  have depth := depth_of_reach hw
  have resumed := Frame.resumed (Or.inl ⟨q, hn⟩) he
  rcases h with otherwise | ⟨phase, spared⟩
  · refine Or.inl (otherwise.replace (c := w.shared) (fun hf => resumed.raises hf) fun r => ?_)
    rw [hn]
    exact nofun
  · rcases phase.answer depth hn resumed with otherwise | ⟨next, fruitless⟩
    · exact Or.inl otherwise
    · refine Or.inr ⟨next, fun l hl => (spared l hl).trans (.replace ?_ rest)⟩
      exact spares_of_resume (depth.symm ▸ hl) (Or.inl ⟨q, hn⟩) he fruitless.unraised
        fruitless.unmade fruitless.closes

theorem expire (hw : program.Reach (World.init (.ofLimits limits shared)) w)
    (h : BorrowingTries limits.length below c₀ fs₀ A w.shared (f :: rest))
    (ht : f.timer? w.shared = some t) :
    BorrowingTries limits.length below c₀ fs₀ A (f.expire w.shared) (f :: rest) := by
  have depth := depth_of_reach hw
  rcases h with otherwise | ⟨phase, spared⟩
  · exact Or.inl otherwise
  · exact Or.inr ⟨phase.expire ht, fun l hl =>
      (spared l hl).trans (.replace (spares_expire (depth.symm ▸ hl)) rest)⟩

/-- **A move of a borrowing**, with what is written down of it. -/
theorem of_apply {m : Move Op Reply} (hw : program.Reach (World.init (.ofLimits limits shared)) w)
    (user : ∀ g rest y, below = g :: rest → g.need w.shared ≠ .sub y)
    (h : BorrowingTries limits.length below c₀ fs₀ A w.shared (w.stack i))
    (ha : program.apply w m = some (w', notices)) (hA : A.note i w m w' = some A') :
    BorrowingTries limits.length below c₀ fs₀ A' w'.shared (w'.stack i) := by
  have own : ∀ {j : Nat} {B : Attempt}, (if j = i then some B else none) = some A' →
      j = i ∧ B = A' := by
    intro j B hB
    split at hB
    · exact ⟨‹_›, Option.some.inj hB⟩
    · cases hB
  cases Program.effect_of_apply ha with
  | spawn | enter | collect => cases hA
  | step hs hn he =>
    obtain ⟨rfl, rfl⟩ := own hA
    rw [World.stack_update_self (World.lt_length_of_stack hs)]
    exact (hs ▸ h).step hw hs hn he
  | descend hs hn =>
    obtain ⟨rfl, rfl⟩ := own hA
    rw [World.stack_update_self (World.lt_length_of_stack hs)]
    have pushed := (hs ▸ h : BorrowingTries _ _ _ _ A w.shared _).push hw hs hn
    exact pushed
  | ascend hs hn hg he =>
    obtain ⟨rfl, rfl⟩ := own hA
    rw [World.stack_update_self (World.lt_length_of_stack hs)]
    exact (hs ▸ h).ascend hw user hn hg he
  | answer hs hn he =>
    obtain ⟨rfl, rfl⟩ := own hA
    rw [World.stack_update_self (World.lt_length_of_stack hs), Program.status_of_ask hs hn]
    exact (hs ▸ h).answer hw hn he
  | @expire j f rest t hs ht =>
    obtain ⟨rfl, rfl⟩ := own hA
    rw [hs] at h
    have expired := h.expire hw ht
    rw [← hs] at expired
    exact expired

/-- **A run of a borrowing.** -/
theorem of_kept (hw : program.Reach (World.init (.ofLimits limits shared)) w₀)
    (hs : w₀.stack i = .call .getSession :: below) (h : program.Kept (Attempt.note i) {} w₀ A w) :
    BorrowingTries limits.length below w₀.shared (w₀.stack i) A w.shared (w.stack i) := by
  have stands := (stands_of_reach hw).2 i
  rw [hs] at stands
  induction h with
  | refl =>
    refine Or.inr ⟨?_, fun l _ => .refl ..⟩
    rw [hs]
    exact .call rfl
  | @move _ _ w _ m _ kept ha hn ih =>
    have reach := hw.trans kept.reach
    refine ih.of_apply reach (fun g rest y hb => ?_) ha hn
    rw [hb] at stands
    exact stands.1.need_ne_sub (stands_of_reach reach).1

end BorrowingTries

/-- What does not come to end with an error has not. -/
theorem NotFailing.ne_failed {fs : List Frame} (h : NotFailing below fs) :
    fs ≠ .over (.failed e) :: below := by
  rintro rfl
  generalize hfs : Frame.over (.failed e) :: below = fs at h
  cases h with
  | @raising f pre mem hf =>
    obtain rfl : pre = [.over (.failed e)] :=
      List.append_cancel_right (hfs.symm.trans (List.singleton_append.symm))
    obtain rfl := List.mem_singleton.mp mem
    cases hf
  | got | lent | unavailable => cases (List.cons.inj hfs).1

/-- What has ended with an error has failed for a cause. -/
theorem Phase.of_failed {d : Nat} {c : Cache} (h : Phase d below c A (.over (.failed e) :: below)) :
    ∃ cause, e = cause.errorAt d 0 ∧ Backward d below c A cause 0 below := by
  generalize hfs : Frame.over (.failed e) :: below = fs at h
  cases h with
  | call | borrow | borrowing | acquiring | failing => cases (List.cons.inj hfs).1
  | aside h =>
    have long := congrArg List.length (List.cons.inj hfs).2
    rw [List.length_append, List.length_cons, List.length_cons, h.making.length] at long
    omega
  | @failed cause k rest h =>
    obtain ⟨he, rfl⟩ := List.cons.inj hfs
    cases he
    obtain rfl : k = 0 := by
      have := h.making.length
      omega
    exact ⟨cause, rfl, h⟩

/-- **A failure below rolls back every level and keeps its message.** A borrowing ends with an error
for one cause: connecting was refused, or one level was exhausted. The text of the error is that of
the cause, with a lead from each pool that could not make a session because of it. No handle was
made at any level, nothing is idle at the levels that were asked, and each level has given up the
slots of the sessions that were torn down or discarded meanwhile, and no others. -/
theorem rolled_back (hw : program.Reach (World.init (.ofLimits limits shared)) w₀)
    (hs : w₀.stack i = .call .getSession :: below) (h : program.Kept (Attempt.note i) {} w₀ A w)
    (hf : w.stack i = .over (.failed e) :: below) :
    ∃ cause, A.causes = [cause] ∧
      e.message = (List.replicate (cause.leads limits.length)
        "Failed to create pooled resource: ").foldr (· ++ ·) cause.message ∧
      (SessionError.pool e).kind = cause.kind ∧
      (∀ k, k ∈ A.reached ↔ k ≤ cause.level limits.length) ∧
      (∀ k ∈ A.reached, (w.shared.level k).pool.idle = []) ∧
      ∀ k < limits.length,
        (w.shared.level k).handles.length = (w₀.shared.level k).handles.length ∧
        (w.shared.level k).pool.allocated + ((w.shared.level k).pool.counters.evicted +
            (w.shared.level k).pool.counters.discarded) =
          (w₀.shared.level k).pool.allocated + ((w₀.shared.level k).pool.counters.evicted +
            (w₀.shared.level k).pool.counters.discarded) := by
  have tries := BorrowingTries.of_kept hw hs h
  rw [hf, hs] at tries
  rcases tries with otherwise | ⟨phase, spared⟩
  · exact absurd rfl otherwise.ne_failed
  obtain ⟨cause, rfl, backward⟩ := phase.of_failed
  have levels : 0 < limits.length := Nat.zero_lt_of_lt backward.lt
  refine ⟨cause, backward.causes, cause.message_errorAt levels, cause.kind_errorAt _,
    backward.reached, fun k hk => backward.idle k ((backward.reached k).mp hk), fun k hk => ?_⟩
  obtain ⟨created, handles, balance⟩ := spared k hk
  refine ⟨handles, ?_⟩
  simp only [Pool.balance, Frame.shares, Frame.share] at balance
  omega

end

/-- A session is lent through two caches and given back, and another one is asked for. -/
def askedAgain : List (Move Op Reply) :=
  List.flatten [[.spawn, .enter 0 .getSession], List.replicate 8 (.run 0 (.at 0)),
    [.answer 0 (.got 5)], List.replicate 3 (.run 0 (.at 0)), [.collect 0, .enter 0 (.close 0)],
    List.replicate 6 (.run 0 (.at 0)), [.collect 0, .enter 0 .getSession]]

/-- The session is found not to be open at either level, and no other one can be connected. -/
def staleThenRefused : List (Move Op Reply) :=
  List.flatten [List.replicate 6 (.run 0 (.at 0)), [.answer 0 (.flag false)],
    List.replicate 15 (.run 0 (.at 0)), [.answer 0 (.flag false), .answer 0 .done],
    List.replicate 3 (.run 0 (.at 0)),
    [.answer 0 (.refused (.reported .connectionRefused "no route"))],
    List.replicate 7 (.run 0 (.at 0))]

/-- What `askedAgain` comes to. -/
def oneIdle : World Cache Frame where
  shared :=
    { levels :=
        [{ pool :=
             { idle := [0], allocated := 1
               counters := { acquired := 1, released := 1, created := 1 } }
           handles := [{ target := none, epoch := 0 }] },
         { pool := { allocated := 1, counters := { acquired := 1, created := 1 } }
           handles := [{ target := some 5, epoch := 0 }] }]
      keepers := 2 }
  threads := [[.call .getSession]]

/-- What `staleThenRefused` comes to from there. -/
def noneLeft : World Cache Frame where
  shared :=
    { levels :=
        [{ pool :=
             { counters :=
                 { acquired := 1, released := 1, created := 1, evicted := 1, stale := 1 } }
           handles := [{ target := none, epoch := 0 }] },
         { pool :=
             { counters :=
                 { acquired := 1, released := 1, created := 1, evicted := 1, stale := 1 } }
           handles := [{ target := none, epoch := 0, gone := true }] }]
      keepers := 3 }
  threads :=
    [[.over (.failed (.createFailed (.pool (.createFailed
      (.reported .connectionRefused "no route")))))]]

set_option maxRecDepth 2048 in
/-- Each of the two levels tears one session down, and has no slot taken in the end. -/
theorem rolled_back_staleThenRefused :
    program.run? (World.init (.ofLimits [{}, {}] false)) askedAgain = some oneIdle ∧
    oneIdle.stack 0 = [.call .getSession] ∧
    program.keep? (Attempt.note 0) {} oneIdle staleThenRefused = some (
      { reached := [1, 0], causes := [.refused (.reported .connectionRefused "no route")] },
      noneLeft) ∧
    ∃ e, noneLeft.stack 0 = [.over (.failed e)] ∧
      e.message = "Failed to create pooled resource: Failed to create pooled resource: no route" ∧
      (SessionError.pool e).kind = .other ∧
      ∀ k < 2, (noneLeft.shared.level k).pool.idle = [] ∧
        (noneLeft.shared.level k).handles.length = (oneIdle.shared.level k).handles.length ∧
        (noneLeft.shared.level k).pool.allocated + 1 = (oneIdle.shared.level k).pool.allocated := by
  have reach : program.run? (World.init (.ofLimits [{}, {}] false)) askedAgain = some oneIdle := rfl
  have kept : program.keep? (Attempt.note 0) {} oneIdle staleThenRefused = some (
      { reached := [1, 0], causes := [.refused (.reported .connectionRefused "no route")] },
      noneLeft) := rfl
  obtain ⟨cause, causes, message, kind, reached, idle, levels⟩ :=
    rolled_back (Program.reach_of_run? reach) rfl (Program.kept_of_keep? kept) rfl
  cases causes
  refine ⟨reach, rfl, kept, _, rfl, message, kind, fun k hk => ?_⟩
  have slots := (levels k hk).2
  refine ⟨idle k ((reached k).mpr (Nat.le_of_lt_succ hk)), (levels k hk).1, ?_⟩
  match k, hk with
  | 0, _ => exact slots
  | 1, _ => exact slots

end Lending.Cache
