import Lending.Proofs.Cache.Aside

/-!
# Where a borrowing is

The pool of a level lends what it has idle, unless that is stale, and makes a session only when
nothing idle is left; to make one is to borrow from the next level. So a borrowing that has come
down to a level has used up what was idle above. It fails for one cause: a pool on the way down is
exhausted, or the innermost one cannot connect. From then on it goes up, and each pool on the way
gives up the slot it had taken and passes the error on as one of its own.

* `Cause`: why a borrowing fails, and the error as it leaves each level (`Cause.errorAt`).
* `Attempt`: what is written down of a borrowing.
* `Making below k`: the frames upon which level `k` is borrowed from.
* `Phase`: where a borrowing is that fails in the end, or may yet. A move goes on with it (`step`,
  `sub`, `ascend`, `answer`, `expire`), or the borrowing ends otherwise.
* `NotFailing`: where a borrowing is that meets a raise or has a session. It stays so (`replace`,
  `push`, `ascend`).
-/

namespace Lending

/-! ## The text of an error -/

theorem PoolError.message_createFailed (e : SessionError) :
    (createFailed e).message = "Failed to create pooled resource: " ++ e.message := rfl

theorem SessionError.message_pool (e : PoolError) : (pool e).message = e.message := rfl

/-- Each pool that an error passes through puts a lead in front of its text. -/
theorem PoolError.message_wrapped (e : PoolError) (n : Nat) : (e.wrapped n).message =
    (List.replicate n "Failed to create pooled resource: ").foldr (· ++ ·) e.message := by
  induction n with
  | zero => exact congrArg message (rfl : e.wrapped 0 = e)
  | succ n ih =>
    rw [List.replicate_succ, List.foldr_cons, ← ih, wrapped, message_createFailed,
      SessionError.message_pool]

namespace Cache

/-! ## What is recorded -/

/-- Why a borrowing fails. -/
inductive Cause where
  /-- A remote session could not be connected. -/
  | refused (e : SessionError)
  /-- The pool of a level was exhausted. -/
  | exhausted (level : Nat) (limit : Duration)

namespace Cause

/-- The level whose pool meets with it first, in a stack of `d` levels. -/
def level (d : Nat) : Cause → Nat
  | .refused _ => d - 1
  | .exhausted k _ => k

/-- The error of that pool. -/
def error : Cause → PoolError
  | .refused e => .createFailed e
  | .exhausted _ limit => .exhausted limit

/-- The text of the cause itself. -/
def message : Cause → String
  | .refused e => e.message
  | .exhausted _ limit => (PoolError.exhausted limit).message

/-- How many pools could not make a session because of it. -/
def leads (d : Nat) : Cause → Nat
  | .refused _ => d
  | .exhausted k _ => k

/-- The kind under which it is passed on in the end. -/
def kind : Cause → ErrorKind
  | .exhausted 0 _ => .timedOut
  | _ => .other

/-- The error as it leaves level `k`. -/
def errorAt (d k : Nat) (cause : Cause) : PoolError := cause.error.wrapped (cause.level d - k)

theorem message_errorAt {d : Nat} (hd : 0 < d) (cause : Cause) : (cause.errorAt d 0).message =
    (List.replicate (cause.leads d) "Failed to create pooled resource: ").foldr (· ++ ·)
      cause.message := by
  cases cause with
  | exhausted k limit => exact PoolError.message_wrapped ..
  | refused e =>
    obtain ⟨n, rfl⟩ := Nat.exists_eq_succ_of_ne_zero (Nat.ne_of_gt hd)
    have wrapped : errorAt (n + 1) 0 (.refused e) = (PoolError.createFailed e).wrapped n := rfl
    rw [wrapped, PoolError.message_wrapped, PoolError.message_createFailed, leads,
      List.replicate_succ', List.foldr_append, List.foldr_cons, List.foldr_nil, message]

theorem kind_errorAt (d : Nat) (cause : Cause) : (cause.errorAt d 0).kind = cause.kind := by
  cases cause with
  | refused e =>
    unfold errorAt
    cases level d (.refused e) - 0 <;> rfl
  | exhausted k limit => cases k <;> rfl

/-- As it leaves the level that meets with it. -/
theorem errorAt_level {d k : Nat} {cause : Cause} (hk : cause.level d = k) :
    cause.errorAt d k = cause.error := by
  unfold errorAt
  rw [hk, Nat.sub_self]
  rfl

/-- One level up, the making of a session has failed. -/
theorem errorAt_pred {d k : Nat} {cause : Cause} (hk : k + 1 ≤ cause.level d) :
    cause.errorAt d k = .createFailed (.pool (cause.errorAt d (k + 1))) := by
  unfold errorAt
  rw [show cause.level d - k = cause.level d - (k + 1) + 1 by omega]
  rfl

end Cause

/-- What is recorded of a borrowing. -/
structure Attempt where
  /-- The levels whose pools were asked for a session. -/
  reached : List Nat := []
  /-- Why one could not be had. -/
  causes : List Cause := []

namespace Attempt

/-- What a step has brought about is written down: that a pool is asked, or that it is exhausted. -/
def see (A : Attempt) : List Frame → Attempt
  | .pool k (.start .acquire) :: _ => { A with reached := k :: A.reached }
  | .pool k (.over (.failed (.exhausted limit))) :: _ =>
    { A with causes := .exhausted k limit :: A.causes }
  | _ => A

/-- An answer is written down: that connecting failed. -/
def hear (A : Attempt) : Status Query Reply → Reply → Attempt
  | .asking .connect, .refused e => { A with causes := .refused e :: A.causes }
  | .asking .connect, .failed e => { A with causes := .refused (.pool e) :: A.causes }
  | _, _ => A

/-- A move of thread `i` is written down. Moves of others are objected to, and so are operations
that start inside a callback. -/
def note (i : Nat) (A : Attempt) (w : World Cache Frame) (m : Move Op Reply)
    (w' : World Cache Frame) : Option Attempt :=
  match m with
  | .run j _ => if j = i then some (A.see (w'.stack i)) else none
  | .answer j r => if j = i then some (A.hear (program.status w i) r) else none
  | .expire j => if j = i then some A else none
  | .spawn | .enter _ _ | .collect _ => none

end Attempt

/-! ## Where a borrowing is -/

/-- The frames upon which level `k` is borrowed from: on each level above, a call of the pool makes
a session. -/
inductive Making (below : List Frame) : Nat → List Frame → Prop
  | user : Making below 0 below
  | next {k epoch : Nat} {rest : List Frame} (h : Making below k rest) :
      Making below (k + 1) (.pool k .creating :: .borrowing k epoch :: rest)

namespace Making

variable {below rest : List Frame} {k : Nat}

theorem length (h : Making below k rest) : rest.length = below.length + 2 * k := by
  induction h with
  | user => rfl
  | next _ ih => simp only [List.length_cons, ih]; omega

theorem exists_append (h : Making below k rest) : ∃ pre, rest = pre ++ below := by
  induction h with
  | user => exact ⟨[], rfl⟩
  | @next k epoch _ _ ih =>
    obtain ⟨pre, rfl⟩ := ih
    exact ⟨.pool k .creating :: .borrowing k epoch :: pre, rfl⟩

end Making

section

variable (d : Nat) (below : List Frame) (c : Cache) (A : Attempt)

/-- A session is borrowed from level `k`, and so far nothing has failed: what the first `n` levels
had idle is gone. -/
structure Onward (k n : Nat) (rest : List Frame) : Prop where
  making  : Making below k rest
  lt      : k < d
  keepers : 0 < c.keepers
  causes  : A.causes = []
  reached : ∀ l, l ∈ A.reached ↔ l < n
  idle    : ∀ l < k, (c.level l).pool.idle = []

/-- The borrowing has failed for this cause, which has come up to level `k`. -/
structure Backward (cause : Cause) (k : Nat) (rest : List Frame) : Prop where
  making  : Making below k rest
  le      : k ≤ cause.level d
  lt      : cause.level d < d
  keepers : 0 < c.keepers
  causes  : A.causes = [cause]
  reached : ∀ l, l ∈ A.reached ↔ l ≤ cause.level d
  idle    : ∀ l ≤ cause.level d, (c.level l).pool.idle = []

/-- Where a borrowing is that has not ended otherwise than with an error. -/
inductive Phase : List Frame → Prop
  | call (fresh : A = {}) : Phase (.call .getSession :: below)
  | borrow {k : Nat} {rest : List Frame} (h : Onward d below c A k k rest) :
      Phase (.borrow k :: rest)
  | borrowing {k epoch : Nat} {rest : List Frame} (h : Onward d below c A k k rest) :
      Phase (.borrowing k epoch :: rest)
  | acquiring {k epoch : Nat} {x : Pool.Call Nat} {rest : List Frame}
      (h : Onward d below c A k (k + 1) rest) (seeks : x.seeks = true)
      (creating : x = .creating → (c.level k).pool.idle = []) :
      Phase (.pool k x :: .borrowing k epoch :: rest)
  /-- A session is judged, or torn down. -/
  | aside {k epoch : Nat} {x : Pool.Call Nat} {f : Frame} {side rest : List Frame}
      (h : Onward d below c A k (k + 1) rest) (seeks : x.seeks = true) (waits : x ≠ .creating)
      (top : f.Aside k) (under : ∀ g ∈ side, g.Aside k) :
      Phase (f :: (side ++ .pool k x :: .borrowing k epoch :: rest))
  /-- A pool is exhausted, or passes an error on. The two are kept apart, since what is about to
  fail would otherwise be taken for another exhaustion when it has ended. -/
  | failing {cause : Cause} {k epoch : Nat} {x : Pool.Call Nat} {rest : List Frame}
      (h : Backward d below c A cause k rest) (error : x.error? = some (cause.errorAt d k))
      (passed : x = .over (.failed (cause.errorAt d k)) ∨
        ∃ e, cause.errorAt d k = .createFailed e) :
      Phase (.pool k x :: .borrowing k epoch :: rest)
  | failed {cause : Cause} {k : Nat} {rest : List Frame} (h : Backward d below c A cause k rest) :
      Phase (.over (.failed (cause.errorAt d k)) :: rest)

/-- Where a borrowing is that does not come to end with an error. -/
inductive NotFailing : List Frame → Prop
  | raising {f : Frame} {pre : List Frame} (mem : f ∈ pre) (hf : f.raises = true) :
      NotFailing (pre ++ below)
  | got {k s epoch : Nat} {rest : List Frame} (h : Making below k rest) :
      NotFailing (.pool k (.over (.got s)) :: .borrowing k epoch :: rest)
  | lent {k h : Nat} {rest : List Frame} (hm : Making below k rest) :
      NotFailing (.over (.got h) :: rest)
  | unavailable : NotFailing (.over .unavailable :: below)

end

/-! ## Moves of a borrowing -/

section

variable {d k : Nat} {below rest : List Frame} {c c' : Cache} {A : Attempt} {m : Moment}
  {f f' g g' y : Frame} {x : Pool.Call Nat} {r : Reply} {q : Query} {cause : Cause}

/-! ### Otherwise than with an error -/

namespace NotFailing

/-- The top frame is on the way of a raise. -/
theorem of_raises (hf : f.raises = true) (h : ∃ pre, rest = pre ++ below) :
    NotFailing below (f :: rest) := by
  obtain ⟨pre, rfl⟩ := h
  show NotFailing below ((f :: pre) ++ below)
  exact .raising List.mem_cons_self hf

/-- The top frame has not ended, and another one takes its place. -/
theorem replace (h : NotFailing below (f :: rest)) (hf : f.raises = true → f'.raises = true)
    (hn : ∀ r, f.need c ≠ .over r) : NotFailing below (f' :: rest) := by
  generalize hfs : f :: rest = fs at h
  cases h with
  | raising mem hraises =>
    rcases List.cons_eq_append_iff.mp hfs with ⟨rfl, -⟩ | ⟨pre, rfl, rfl⟩
    · exact absurd mem List.not_mem_nil
    · show NotFailing below ((f' :: pre) ++ below)
      rcases List.mem_cons.mp mem with rfl | mem
      · exact .raising List.mem_cons_self (hf hraises)
      · exact .raising (List.mem_cons_of_mem _ mem) hraises
  | got | lent | unavailable =>
    obtain ⟨rfl, -⟩ := List.cons.inj hfs
    exact absurd rfl (hn _)

/-- What the top frame needs starts upon it. -/
theorem push (h : NotFailing below (f :: rest)) (hn : f.need c = .sub g) :
    NotFailing below (g :: f :: rest) := by
  generalize hfs : f :: rest = fs at h
  cases h with
  | @raising _ pre mem hraises =>
    show NotFailing below ((g :: pre) ++ below)
    exact .raising (List.mem_cons_of_mem _ mem) hraises
  | got | lent | unavailable =>
    obtain ⟨rfl, -⟩ := List.cons.inj hfs
    cases hn

/-- The top frame has ended, and what needed it goes on. -/
theorem ascend (user : ∀ g rest y, below = g :: rest → g.need c ≠ .sub y)
    (h : NotFailing below (f :: g :: rest)) (hn : f.need c = .over r) (hg : g.need c = .sub y)
    (hs : Frame.Resumed c g r c' g') : NotFailing below (g' :: rest) := by
  generalize hfs : f :: g :: rest = fs at h
  cases h with
  | raising mem hraises =>
    rcases List.cons_eq_append_iff.mp hfs with ⟨rfl, -⟩ | ⟨pre, rfl, hpre⟩
    · exact absurd mem List.not_mem_nil
    rcases List.cons_eq_append_iff.mp hpre with ⟨rfl, hb⟩ | ⟨pre, rfl, rfl⟩
    · exact absurd hg (user g rest y hb)
    show NotFailing below ((g' :: pre) ++ below)
    rcases List.mem_cons.mp mem with rfl | mem
    · exact .raising List.mem_cons_self (hs.raised (Frame.fault_of_raises hraises hn))
    · rcases List.mem_cons.mp mem with rfl | mem
      · exact .raising List.mem_cons_self (hs.raises hraises)
      · exact .raising (List.mem_cons_of_mem _ mem) hraises
  | got making =>
    obtain ⟨rfl, hrest⟩ := List.cons.inj hfs
    obtain ⟨rfl, rfl⟩ := List.cons.inj hrest
    cases hn
    cases hs with
    | lent => exact .lent making
    | notLent _ _ hr => exact absurd rfl (hr _)
  | lent making =>
    obtain ⟨rfl, rfl⟩ := List.cons.inj hfs
    cases hn
    cases making with
    | user => exact absurd hg (user g rest y rfl)
    | next making =>
      cases hs with
      | pool count hx ha =>
        cases ha with
        | created => exact .got making
        | unasked ht => cases ht
  | unavailable =>
    obtain ⟨-, hb⟩ := List.cons.inj hfs
    exact absurd hg (user g rest y hb.symm)

end NotFailing

/-! ### With an error -/

theorem Attempt.see_pool (hb : x.begun = true)
    (he : ∀ limit, x ≠ .over (.failed (.exhausted limit))) : A.see (.pool k x :: rest) = A := by
  unfold see
  split
  · rename_i heq
    cases heq
    cases hb
  · rename_i limit _ heq
    cases heq
    exact absurd rfl (he limit)
  · rfl

theorem Attempt.see_aside (hf : f.Aside k) : A.see (f :: rest) = A := by
  unfold see
  split
  · rename_i heq
    cases heq
    cases hf.2.1
  · rename_i heq
    cases heq
    cases hf.2.1
  · rfl

theorem Attempt.hear_of_ne (hq : q ≠ .connect) : A.hear (.asking q) r = A := by
  unfold hear
  split
  · rename_i heq
    cases heq
    exact absurd rfl hq
  · rename_i heq
    cases heq
    exact absurd rfl hq
  · rfl

/-- What a frame hears is no raise, and no session that it waits for. -/
structure Fruitless (f : Frame) (r : Reply) : Prop where
  unraised : r.fault = none
  unmade   : ∀ s, r = .got s → f.awaits = false
  closes   : ∀ j x, f = .pool j x → x.closes = 0

/-- Making a session has come to nothing. -/
theorem Fruitless.creating (hr : r.fault = none) (hm : ∀ s, r ≠ .got s) :
    Fruitless (.pool k .creating) r where
  unraised := hr
  unmade s got := absurd got (hm s)
  closes := by
    rintro _ _ ⟨⟩
    rfl

theorem Fruitless.aside (hf : f.Aside k) (hr : r.fault = none) : Fruitless f r where
  unraised := hr
  unmade _ _ := (hf.plain k).1
  closes := (hf.plain k).2.2

theorem awaits_pool (hx : x ≠ .creating) : (Frame.pool k x).awaits = false := by
  cases x with
  | creating => exact absurd rfl hx
  | _ => rfl

/-- What a change of a pool leaves idle. -/
theorem idle_setPool {j l : Nat} {p : Pool Nat} (hp : j = l → p.idle = (c.level l).pool.idle) :
    ((c.setPool j p).level l).pool.idle = (c.level l).pool.idle := by
  rw [pool_setPool]
  split
  · rename_i h
    exact hp h.1
  · rfl

/-- Counting leaves everything idle that is. -/
theorem idle_count (count : Pool.Counters → Pool.Counters) (l : Nat) :
    ((c.setPool k ((c.level k).pool.count count)).level l).pool.idle = (c.level l).pool.idle :=
  idle_setPool fun hl => by rw [hl]; rfl

namespace Onward

variable {n : Nat}

/-- What changes nothing of the levels above and of the users lets a borrowing go on. -/
theorem of_levels (h : Onward d below c A k n rest) (keepers : c'.keepers = c.keepers)
    (idle : ∀ l < k, (c'.level l).pool.idle = (c.level l).pool.idle) :
    Onward d below c' A k n rest :=
  { h with
    keepers := keepers.symm ▸ h.keepers
    idle := fun l hl => (idle l hl).trans (h.idle l hl) }

/-- What is done aside lets it go on. -/
theorem of_aside (h : Onward d below c A k n rest)
    (same : (∀ l ≤ k, c'.level l = c.level l) ∧ c'.keepers = c.keepers) :
    Onward d below c' A k n rest :=
  h.of_levels same.2 fun l hl => by rw [same.1 l (Nat.le_of_lt hl)]

/-- A session has been judged, or torn down. -/
theorem judged (epoch : Nat) (h : Onward d below c A k (k + 1) rest) (looking : x.seeks = true)
    (waits : x ≠ .creating) (hr : r.fault = none) (hs : Frame.Resumed c (.pool k x) r c' f') :
    NotFailing below (f' :: .borrowing k epoch :: rest) ∨
      Phase d below c' A (f' :: .borrowing k epoch :: rest) ∧
        A.see (f' :: .borrowing k epoch :: rest) = A ∧ Fruitless (.pool k x) r := by
  cases hs with
  | @pool _ _ x' q _ count hx ha =>
    have unraised : ∀ message, r.toPool q ≠ .raised message := by
      intro message raised
      rw [Frame.toPool_eq_raised raised] at hr
      cases hr
    rcases ha.seeks looking unraised with ⟨seeks, made⟩ | ⟨s, rfl⟩ | ⟨e, making, -⟩
    · have begun : x'.begun = true := by
        rcases ha.begun with begun | rfl
        · exact begun
        · exact Pool.Call.begun_of_seeks seeks (Pool.Call.asks_of_need hx)
      refine Or.inr ⟨.acquiring (h.of_levels rfl fun l _ => idle_count count l) seeks
        fun creating => absurd (made creating) waits, Attempt.see_pool begun ?_,
        ⟨hr, fun _ _ => awaits_pool waits, ?_⟩⟩
      · rintro limit rfl
        cases seeks
      · rintro _ _ ⟨⟩
        exact (Pool.Call.plain_of_seeks looking).2
    · exact Or.inl (.got h.making)
    · exact absurd making waits
  | resetRaised hf => cases hf

/-- The error of a level's own pool is found there, and nowhere above yet. -/
theorem backward (h : Onward d below c A k (k + 1) rest) (empty : (c.level k).pool.idle = [])
    (own : cause.level d = k) :
    Backward d below c { A with causes := cause :: A.causes } cause k rest where
  making := h.making
  le := Nat.le_of_eq own.symm
  lt := own.symm ▸ h.lt
  keepers := h.keepers
  causes := congrArg (cause :: ·) h.causes
  reached l := by
    rw [own]
    exact (h.reached l).trans Nat.lt_succ_iff
  idle l hl := by
    rw [own] at hl
    rcases Nat.lt_or_eq_of_le hl with hl | rfl
    · exact h.idle l hl
    · exact empty

/-- The pool of the level is exhausted. -/
theorem exhausted {epoch : Nat} (h : Onward d below c A k (k + 1) rest)
    (empty : (c.level k).pool.idle = []) (limit : Duration) :
    Phase d below c
      (A.see (.pool k (.over (.failed (.exhausted limit))) :: .borrowing k epoch :: rest))
      (.pool k (.over (.failed (.exhausted limit))) :: .borrowing k epoch :: rest) := by
  have error : (Cause.exhausted k limit).errorAt d k = .exhausted limit :=
    Cause.errorAt_level rfl
  exact .failing (h.backward empty rfl) (congrArg some error.symm)
    (Or.inl (congrArg (Pool.Call.over <| .failed ·) error.symm))

/-- Connecting has failed at the innermost level. -/
theorem refused {epoch : Nat} (h : Onward d below c A k (k + 1) rest)
    (empty : (c.level k).pool.idle = []) (hi : d ≤ k + 1) (e : SessionError) :
    Phase d below c { A with causes := .refused e :: A.causes }
      (.pool k (.freeing (.fail (.createFailed e))) :: .borrowing k epoch :: rest) := by
  have innermost : (Cause.refused e).level d = k := by
    have lt := h.lt
    show d - 1 = k
    omega
  have error : (Cause.refused e).errorAt d k = .createFailed e := Cause.errorAt_level innermost
  exact .failing (h.backward empty innermost) (congrArg some error.symm) (Or.inr ⟨e, error⟩)

/-- Connecting is answered. -/
theorem connected {epoch : Nat} (h : Onward d below c A k (k + 1) rest)
    (empty : (c.level k).pool.idle = []) (hi : d ≤ k + 1)
    (hs : Frame.Resumed c (.pool k .creating) r c' f') :
    NotFailing below (f' :: .borrowing k epoch :: rest) ∨
      Phase d below c' (A.hear (.asking .connect) r) (f' :: .borrowing k epoch :: rest) ∧
        Fruitless (.pool k .creating) r := by
  cases hs with
  | @pool _ _ x' q _ count hx ha =>
    cases hx
    have onward : Onward d below (c.setPool k ((c.level k).pool.count count)) A k (k + 1) rest :=
      h.of_levels rfl fun l _ => idle_count count l
    have none := (idle_count (k := k) count k).trans empty
    cases r with
    | got s =>
      cases ha with
      | created => exact Or.inl (.got h.making)
      | unasked ht => cases ht
    | failed e =>
      cases ha with
      | notCreated => exact Or.inr ⟨onward.refused none hi (.pool e), .creating rfl nofun⟩
      | unasked ht => cases ht
    | refused e =>
      cases ha with
      | notCreated => exact Or.inr ⟨onward.refused none hi e, .creating rfl nofun⟩
      | unasked ht => cases ht
    | raised message =>
      cases ha with
      | createRaised =>
        obtain ⟨pre, rfl⟩ := h.making.exists_append
        exact Or.inl (.of_raises rfl ⟨.borrowing k epoch :: pre, rfl⟩)
      | unasked ht => cases ht
    | done | flag | reading | file | unavailable =>
      cases ha with
      | unasked => exact Or.inr ⟨.acquiring onward rfl fun _ => none, .creating rfl nofun⟩
  | resetRaised hf => cases hf

end Onward

/-- What changes nothing of the levels reached and of the users lets it fail. -/
theorem Backward.of_levels (h : Backward d below c A cause k rest)
    (keepers : c'.keepers = c.keepers)
    (idle : ∀ l ≤ cause.level d, (c'.level l).pool.idle = (c.level l).pool.idle) :
    Backward d below c' A cause k rest :=
  { h with
    keepers := keepers.symm ▸ h.keepers
    idle := fun l hl => (idle l hl).trans (h.idle l hl) }

/-- The level above could not make a session. -/
theorem Backward.ascend {epoch : Nat}
    (h : Backward d below c A cause (k + 1) (.pool k .creating :: .borrowing k epoch :: rest))
    (hs : Frame.Resumed c (.pool k .creating) (.failed (cause.errorAt d (k + 1))) c' f') :
    Phase d below c' (A.see (f' :: .borrowing k epoch :: rest)) (f' :: .borrowing k epoch :: rest) ∧
      Fruitless (.pool k .creating) (.failed (cause.errorAt d (k + 1))) := by
  have making := h.making
  cases making with
  | next making =>
    cases hs with
    | @pool _ _ x' q _ count hx ha =>
      cases hx
      cases ha with
      | notCreated =>
        have passed := Cause.errorAt_pred h.le
        have here : Backward d below (c.setPool k ((c.level k).pool.count count)) A cause (k + 1)
            (.pool k .creating :: .borrowing k epoch :: rest) :=
          h.of_levels rfl fun l _ => idle_count count l
        have above : Backward d below (c.setPool k ((c.level k).pool.count count)) A cause k rest :=
          { here with making := making, le := Nat.le_of_succ_le h.le }
        exact ⟨.failing above (congrArg some passed.symm) (Or.inr ⟨_, passed⟩), .creating rfl nofun⟩
      | unasked ht => cases ht

namespace Phase

variable {t : Instant}

/-- The frame on top ends no pool, and what it does to a pool it does with a reference. -/
theorem top (h : Phase d below c A (f :: rest)) (l : Nat) : ¬ f.Ends l ∧
    ∀ j x, f = .pool j x → x.closes = 0 ∧ 0 < c.keepers := by
  have pool : ∀ {j : Nat} {x : Pool.Call Nat}, x ≠ .teardown ∧ x.closes = 0 → 0 < c.keepers →
      ¬ (Frame.pool j x).Ends l ∧
        ∀ j' x', Frame.pool j x = .pool j' x' → x'.closes = 0 ∧ 0 < c.keepers := by
    rintro j x ⟨ends, closes⟩ keepers
    refine ⟨fun h => ?_, ?_⟩
    · cases x with
      | teardown => exact ends rfl
      | _ => exact h
    · rintro _ _ ⟨⟩
      exact ⟨closes, keepers⟩
  generalize hfs : f :: rest = fs at h
  cases h with
  | call | borrow | borrowing | failed =>
    obtain ⟨rfl, -⟩ := List.cons.inj hfs
    exact ⟨id, nofun⟩
  | @acquiring _ _ x _ h seeks =>
    obtain ⟨rfl, -⟩ := List.cons.inj hfs
    exact pool (Pool.Call.plain_of_seeks seeks) h.keepers
  | aside h seeks waits aside =>
    obtain ⟨rfl, -⟩ := List.cons.inj hfs
    obtain ⟨-, ends, closes⟩ := aside.plain l
    exact ⟨ends, fun j x hf => ⟨closes j x hf, h.keepers⟩⟩
  | failing h error =>
    obtain ⟨rfl, -⟩ := List.cons.inj hfs
    exact pool (Pool.Call.plain_of_error? error) h.keepers

/-- **A step of a borrowing.** -/
theorem step (h : Phase d below c A (f :: rest)) (hd : c.depth = d)
    (alive : 0 < c.keepers → ∀ j, (c.level j).factoryAlive = true) (hn : f.need c = .step)
    (hs : Frame.Steps m c f c' f') :
    NotFailing below (f' :: rest) ∨ Phase d below c' (A.see (f' :: rest)) (f' :: rest) := by
  generalize hfs : f :: rest = fs at h
  cases h with
  | call fresh =>
    obtain ⟨rfl, rfl⟩ := List.cons.inj hfs
    subst fresh
    cases hs with
    | unavailable => exact Or.inl .unavailable
    | onFactory ho hk h0 =>
      cases ho
      refine Or.inr (.borrow ⟨.user, hd ▸ h0, Nat.succ_pos _, rfl, fun l => ?_, nofun⟩)
      exact ⟨nofun, nofun⟩
    | onHandle ho => cases ho
  | borrow h =>
    obtain ⟨rfl, rfl⟩ := List.cons.inj hfs
    cases hs
    exact Or.inr (.borrowing h)
  | borrowing | failed =>
    obtain ⟨rfl, rfl⟩ := List.cons.inj hfs
    cases hn
  | @acquiring k epoch x rest h seeks creating =>
    obtain ⟨rfl, rfl⟩ := List.cons.inj hfs
    cases hs with
    | @pool _ _ x' p' hs =>
      have onward : Onward d below (c.setPool k p') A k (k + 1) rest :=
        h.of_levels rfl fun l hl => idle_setPool fun hk => absurd hk (by omega)
      have own : ((c.setPool k p').level k).pool = p' := by
        rw [pool_setPool, if_pos ⟨rfl, hd ▸ h.lt⟩]
      rcases hs.seeks seeks with ⟨seeks, made⟩ | ⟨limit, rfl, empty⟩
      · rw [Attempt.see_pool hs.begun (by rintro limit rfl; cases seeks)]
        exact Or.inr (.acquiring onward seeks fun hx => (congrArg _ own).trans (made hx))
      · exact Or.inr (onward.exhausted ((congrArg _ own).trans empty) limit)
    | letGoRemote count hi hx ha =>
      rcases Pool.Call.asks_of_seeks seeks (Pool.Call.asks_of_need hx) with
        ⟨hq, -⟩ | ⟨-, ⟨y, hq⟩ | ⟨y, hq⟩⟩ <;> cases hq
  | aside h seeks waits top under =>
    obtain ⟨rfl, rfl⟩ := List.cons.inj hfs
    obtain ⟨aside, same⟩ := hs.aside top (alive h.keepers)
    rw [Attempt.see_aside aside]
    exact Or.inr (.aside (h.of_aside same) seeks waits aside under)
  | @failing cause k epoch x rest h error passed =>
    obtain ⟨rfl, rfl⟩ := List.cons.inj hfs
    cases hs with
    | @pool _ _ x' p' hs =>
      obtain ⟨error, idle⟩ := hs.fails error
      have created : ∃ e, cause.errorAt d k = .createFailed e := by
        rcases passed with rfl | created
        · cases hn
        · exact created
      have see : A.see (.pool k x' :: .borrowing k epoch :: rest) = A := by
        refine Attempt.see_pool hs.begun fun limit hx => ?_
        obtain ⟨e, created⟩ := created
        rw [hx, created] at error
        cases error
      rw [see]
      refine Or.inr (.failing (h.of_levels rfl fun l _ => idle_setPool fun hl => ?_) error
        (Or.inr created))
      rw [idle, hl]
    | letGoRemote count hi hx ha => cases error.symm.trans (Pool.Call.error?_of_ask hx)

/-- **What a borrowing needs.** -/
theorem sub (h : Phase d below c A (f :: rest)) (hd : c.depth = d) (hn : f.need c = .sub g)
    (hs : Frame.Needs c f g) : Phase d below c (A.see (g :: f :: rest)) (g :: f :: rest) := by
  generalize hfs : f :: rest = fs at h
  cases h with
  | call | borrow | failed =>
    obtain ⟨rfl, -⟩ := List.cons.inj hfs
    cases hn
  | borrowing h =>
    obtain ⟨rfl, rfl⟩ := List.cons.inj hfs
    cases hs
    refine .acquiring { h with reached := fun l => ?_ } rfl nofun
    exact List.mem_cons.trans ((or_congr_right (h.reached l)).trans (by omega))
  | @acquiring k epoch x rest h seeks creating =>
    obtain ⟨rfl, rfl⟩ := List.cons.inj hfs
    obtain ⟨q, asks, answered⟩ := Frame.exists_sub_of_need hn
    have inner : k + 1 < d := hd ▸ Frame.inner_of_sub answered
    rcases Pool.Call.asks_of_seeks seeks asks with ⟨rfl, rfl⟩ | ⟨waits, judged⟩
    · cases hs with
      | make hx =>
        refine .borrow { h with making := .next h.making, lt := inner, idle := fun l hl => ?_ }
        rcases Nat.lt_or_eq_of_le (Nat.le_of_lt_succ hl) with hl | rfl
        · exact h.idle l hl
        · exact creating rfl
      | judge hx | evict hx | letGo hx => cases hx
    · have start : g.Aside k := by
        cases hs with
        | make hx | letGo hx =>
          rcases judged with ⟨y, rfl⟩ | ⟨y, rfl⟩ <;>
            cases asks.symm.trans (Pool.Call.asks_of_need hx)
        | judge | evict => exact Nat.lt_succ_self k
      rw [Attempt.see_aside start]
      exact @Phase.aside d below c A k epoch x g [] rest h seeks waits start nofun
  | @aside k epoch x f side rest h seeks waits top under =>
    obtain ⟨rfl, rfl⟩ := List.cons.inj hfs
    have aside := hs.aside top
    rw [Attempt.see_aside aside]
    refine @Phase.aside d below c A k epoch x g (_ :: side) rest h seeks waits aside ?_
    exact List.forall_mem_cons.mpr ⟨top, under⟩
  | failing h error =>
    obtain ⟨rfl, -⟩ := List.cons.inj hfs
    obtain ⟨q, asks, -⟩ := Frame.exists_sub_of_need hn
    cases (Pool.Call.asks_of_error? error).symm.trans asks

/-- **What a borrowing needed has ended.** -/
theorem ascend (user : ∀ g rest y, below = g :: rest → g.need c ≠ .sub y)
    (h : Phase d below c A (f :: g :: rest)) (hn : f.need c = .over r) (hg : g.need c = .sub y)
    (hs : Frame.Resumed c g r c' g') : NotFailing below (g' :: rest) ∨
      Phase d below c' (A.see (g' :: rest)) (g' :: rest) ∧ Fruitless g r := by
  generalize hfs : f :: g :: rest = fs at h
  cases h with
  | call | borrow | borrowing =>
    obtain ⟨rfl, -⟩ := List.cons.inj hfs
    cases hn
  | acquiring h seeks =>
    obtain ⟨rfl, -⟩ := List.cons.inj hfs
    obtain ⟨r', hx, rfl⟩ := Frame.exists_over_of_need hn
    obtain rfl := Pool.Call.eq_over_of_need hx
    cases seeks
  | @aside k epoch x f side rest h seeks waits top under =>
    obtain ⟨rfl, hrest⟩ := List.cons.inj hfs
    have unraised := top.fault hn
    cases side with
    | nil =>
      obtain ⟨rfl, rfl⟩ := List.cons.inj hrest
      rcases h.judged epoch seeks waits unraised hs with otherwise | ⟨phase, see, fruitless⟩
      · exact Or.inl otherwise
      · exact Or.inr ⟨see.symm ▸ phase, fruitless⟩
    | cons g₁ side =>
      obtain ⟨rfl, rfl⟩ := List.cons.inj hrest
      obtain ⟨top, under⟩ := List.forall_mem_cons.mp under
      obtain ⟨aside, same⟩ := hs.aside top unraised
      rw [Attempt.see_aside aside]
      exact Or.inr ⟨.aside (h.of_aside same) seeks waits aside under, .aside top unraised⟩
  | @failing cause k epoch x _ h error passed =>
    obtain ⟨rfl, hrest⟩ := List.cons.inj hfs
    obtain ⟨rfl, rfl⟩ := List.cons.inj hrest
    obtain ⟨r', hx, rfl⟩ := Frame.exists_over_of_need hn
    obtain rfl := Pool.Call.eq_over_of_need hx
    cases r' with
    | failed e =>
      obtain rfl := Option.some.inj error
      cases hs with
      | notLent => exact Or.inr ⟨.failed h, ⟨rfl, nofun, nofun⟩⟩
    | _ => cases error
  | @failed cause k _ h =>
    obtain ⟨rfl, rfl⟩ := List.cons.inj hfs
    cases hn
    have making := h.making
    cases making with
    | user => exact absurd hg (user g rest y rfl)
    | next => exact Or.inr (h.ascend hs)

/-- **A borrowing is answered from outside**, where a session is connected, judged or closed. -/
theorem answer (h : Phase d below c A (f :: rest)) (hd : c.depth = d) (hn : f.need c = .ask q)
    (hs : Frame.Resumed c f r c' f') : NotFailing below (f' :: rest) ∨
      Phase d below c' (A.hear (.asking q) r) (f' :: rest) ∧ Fruitless f r := by
  generalize hfs : f :: rest = fs at h
  cases h with
  | call | borrow | borrowing | failed =>
    obtain ⟨rfl, -⟩ := List.cons.inj hfs
    cases hn
  | failing h error =>
    obtain ⟨rfl, -⟩ := List.cons.inj hfs
    obtain ⟨q', asks, -⟩ := Frame.exists_ask_of_need hn
    cases (Pool.Call.asks_of_error? error).symm.trans asks
  | @aside k epoch x f side rest h seeks waits top under =>
    obtain ⟨rfl, rfl⟩ := List.cons.inj hfs
    obtain ⟨pre, rfl⟩ := h.making.exists_append
    cases hr : r.fault with
    | some message =>
      refine Or.inl (.of_raises (hs.raised (hr ▸ rfl)) ?_)
      exact ⟨side ++ .pool k x :: .borrowing k epoch :: pre, by simp⟩
    | none =>
      obtain ⟨aside, same⟩ := hs.aside top hr
      rw [Attempt.hear_of_ne (top.ne_connect hn)]
      exact Or.inr ⟨.aside (h.of_aside same) seeks waits aside under, .aside top hr⟩
  | @acquiring k epoch x rest h seeks creating =>
    obtain ⟨rfl, rfl⟩ := List.cons.inj hfs
    obtain ⟨q', asks, answered⟩ := Frame.exists_ask_of_need hn
    have innermost := Frame.innermost_of_ask answered
    rcases Pool.Call.asks_of_seeks seeks asks with ⟨rfl, rfl⟩ | ⟨waits, judged⟩
    · simp only [Frame.ofQuery, innermost, if_true, Need.ask.injEq] at answered
      subst answered
      exact h.connected (creating rfl) (hd ▸ innermost_iff.mp innermost) hs
    · have other : q ≠ .connect := by
        rintro rfl
        rcases judged with ⟨y, rfl⟩ | ⟨y, rfl⟩ <;>
          simp only [Frame.ofQuery, innermost, if_true] at answered <;> cases answered
      rw [Attempt.hear_of_ne other]
      cases hr : r.fault with
      | some message =>
        obtain ⟨pre, rfl⟩ := h.making.exists_append
        exact Or.inl (.of_raises (hs.raised (hr ▸ rfl)) ⟨.borrowing k epoch :: pre, rfl⟩)
      | none =>
        rcases h.judged epoch seeks waits hr hs with otherwise | ⟨phase, -, fruitless⟩
        · exact Or.inl otherwise
        · exact Or.inr ⟨phase, fruitless⟩

/-- **A wait of a borrowing comes to its end.** -/
theorem expire (h : Phase d below c A (f :: rest)) (ht : f.timer? c = some t) :
    Phase d below (f.expire c) A (f :: rest) := by
  generalize hfs : f :: rest = fs at h
  cases h with
  | call | borrow | borrowing | failed =>
    obtain ⟨rfl, -⟩ := List.cons.inj hfs
    cases ht
  | aside h seeks waits top =>
    obtain ⟨rfl, -⟩ := List.cons.inj hfs
    cases top.timer?.symm.trans ht
  | @acquiring k epoch x rest h seeks creating =>
    obtain ⟨rfl, rfl⟩ := List.cons.inj hfs
    have idle : ∀ l, (((Frame.pool k x).expire c).level l).pool.idle = (c.level l).pool.idle :=
      fun l => idle_setPool fun hl => by
        rw [← hl]
        exact x.idle_expire _
    refine .acquiring (h.of_levels rfl fun l _ => idle l) seeks fun hx => ?_
    exact (idle k).trans (creating hx)
  | failing h error =>
    obtain ⟨rfl, -⟩ := List.cons.inj hfs
    cases (Pool.Call.timer?_of_error? error _).symm.trans ht

end Phase

end

end Cache

end Lending
