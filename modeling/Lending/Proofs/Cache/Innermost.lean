import Lending.Proofs.Alone
import Lending.Proofs.Cache.Frame

/-!
# Calls of the innermost level's pool

The remote side answers what the pool of the innermost level asks, and lets a session go at once. So
a call of this pool, left alone, does what a call does on a pool by itself, with callbacks that
answer as the remote side does (`pooled`). What is known of a pool's calls need not be found out
again for those of a stack.

* `leads_pool`: this, for every call and all callbacks.
* `goesBack`: so a clean handle of the present epoch goes back to the pool.
-/

namespace Lending

/-- Below the capacity, a resource that comes back is idle then, whatever callbacks there are. -/
theorem Pool.release_alone {α Memory : Type} {O : Outside Memory (Query α) (Reply α)} {mem : Memory}
    {p : Pool α} (r : α) (room : p.overCapacity = false) :
    (program α).Leads O (.start (.release r)) p mem fun mem' p' x => mem' = mem ∧
      x = .over .done ∧ p'.idle = p.idle ++ [r] ∧ p'.allocated = p.allocated := by
  refine .step rfl fun t => ?_
  show (program α).Leads O (Call.step t p (.start (.release r))).2.1
    (Call.step t p (.start (.release r))).1 mem _
  rw [Call.step, room]
  exact .step rfl fun t => .here ⟨rfl, rfl, rfl, rfl⟩

namespace Cache

/-- What the remote side is asked where the innermost level's pool asks this, if it is asked. -/
def remotely : Pool.Query Nat → Option Query
  | .create => some .connect
  | .isStale s => some (.isOpen s)
  | .evict s => some (.close s)
  | .drop _ => none

variable {Memory : Type} {c : Cache} {k h s : Nat} {q : Pool.Query Nat} {x : Pool.Call Nat}

theorem need_of_step (hx : x.need (c.level k).pool = .step) : (Frame.pool k x).need c = .step := by
  simp only [Frame.need, hx]

theorem need_of_remotely {q' : Query} (hi : c.innermost k = true)
    (hx : x.need (c.level k).pool = .ask q) (hq : remotely q = some q') :
    (Frame.pool k x).need c = .ask q' := by
  simp only [Frame.need, hx]
  cases q with
  | create | isStale | evict =>
    cases hq
    exact if_pos hi
  | drop => cases hq

/-- A remote session is let go at once. -/
theorem need_of_not_remotely (hi : c.innermost k = true) (hx : x.need (c.level k).pool = .ask q)
    (hq : remotely q = none) : (Frame.pool k x).need c = .step := by
  simp only [Frame.need, hx]
  cases q with
  | create | isStale | evict => cases hq
  | drop => exact if_pos hi

/-- The callbacks of a pool whose owner is the remote side. -/
def pooled (O : Outside Memory Query Reply) :
    Outside Memory (Pool.Query Nat) (Pool.Reply Nat) := fun mem q =>
  match remotely q with
  | some q' => ((O mem q').1.toPool q, (O mem q').2)
  | none => (.done, mem)

variable {O : Outside Memory Query Reply} {mem : Memory}

theorem pooled_of_some {q' : Query} (hq : remotely q = some q') (mem : Memory) :
    pooled O mem q = ((O mem q').1.toPool q, (O mem q').2) := by
  rw [pooled, hq]

theorem pooled_of_none (hq : remotely q = none) (mem : Memory) :
    pooled O mem q = (.done, mem) := by
  rw [pooled, hq]

/-- Where the call comes to on the pool by itself, it comes to in the stack. -/
theorem leads_pool_of_comes {pw : World (Pool Nat) (Pool.Call Nat)}
    {H : Memory → World (Pool Nat) (Pool.Call Nat) → Prop}
    (h : (Pool.program Nat).Comes (pooled O) 0 H mem pw) (hk : k + 1 = c.depth)
    (hst : pw.stack 0 = [x]) (hp : (c.level k).pool = pw.shared) :
    program.Leads O (.pool k x) c mem fun mem' c' f => ∃ pw' x', H mem' pw' ∧
      pw'.stack 0 = [x'] ∧ f = .pool k x' ∧ c' = c.setPool k pw'.shared := by
  induction h generalizing c x with
  | here h => exact .here ⟨_, x, h, hst, rfl, by rw [← hp, setPool_pool]⟩
  | @move mem pw next ha _ ih =>
    have inner : c.innermost k = true := innermost_iff.mpr hk.ge
    have pool : ∀ p, ((c.setPool k p).level k).pool = p := by
      intro p
      rw [pool_setPool, if_pos ⟨rfl, by omega⟩]
    -- a move of the call changes the pool, so the stack by its pool
    have goOn : ∀ t p' x' mem', next t = (mem', pw.update 0 p' [x']) →
        program.Leads O (.pool k x') (c.setPool k p') mem' fun mem' c' f => ∃ pw' x', H mem' pw' ∧
          pw'.stack 0 = [x'] ∧ f = .pool k x' ∧ c' = c.setPool k pw'.shared := by
      intro t p' x' mem' hnext
      have later := @ih t (c.setPool k p') x' ((depth_modify ..).symm ▸ hk)
      rw [hnext] at later
      refine (later (World.stack_update_self (World.lt_length_of_stack hst) ..) (pool p')).imp ?_
      rintro mem'' c' f ⟨pw', x'', hH, top, rfl, rfl⟩
      exact ⟨pw', x'', hH, top, rfl, setPool_setPool ..⟩
    cases hx : x.need pw.shared with
    | step =>
      refine .step (need_of_step (hp ▸ hx)) fun t => ?_
      have hnext := Option.some.inj ((ha t).symm.trans (Program.alone_step hst hx))
      show program.Leads O (Frame.step t c (.pool k x)).2.1 (Frame.step t c (.pool k x)).1 mem _
      simp only [Frame.step, hp, hx]
      exact goOn t _ _ _ hnext
    | ask q =>
      have hnext := fun t => Option.some.inj ((ha t).symm.trans (Program.alone_ask hst hx))
      cases hq : remotely q with
      | some q' =>
        refine .ask (need_of_remotely inner (hp ▸ hx) hq) ?_
        rw [pooled_of_some hq] at hnext
        show program.Leads O (Frame.resume c (.pool k x) (O mem q').1).2.1
          (Frame.resume c (.pool k x) (O mem q').1).1 (O mem q').2 _
        simp only [Frame.resume, hp, hx]
        exact goOn default _ _ _ (hnext default)
      | none =>
        refine .step (need_of_not_remotely inner (hp ▸ hx) hq) fun t => ?_
        rw [pooled_of_none hq] at hnext
        show program.Leads O (Frame.step t c (.pool k x)).2.1 (Frame.step t c (.pool k x)).1 mem _
        simp only [Frame.step, hp, hx]
        exact goOn t _ _ _ (hnext t)
    | sub g => exact absurd hx (Pool.Call.need_ne_sub _ _ _)
    | wait | «over» =>
      have stuck := ha default
      simp only [Program.alone, Program.status, hst] at stuck
      rw [show (Pool.program Nat).need pw.shared x = _ from hx] at stuck
      cases stuck

/-- **A call of the innermost level's pool does what it does on the pool by itself.** -/
theorem leads_pool {G : Memory → Pool Nat → Pool.Call Nat → Prop} (hk : k + 1 = c.depth)
    (h : (Pool.program Nat).Leads (pooled O) x (c.level k).pool mem G) :
    program.Leads O (.pool k x) c mem fun mem' c' f => ∃ p' x', G mem' p' x' ∧ f = .pool k x' ∧
      c' = c.setPool k p' := by
  refine (leads_pool_of_comes (h ⟨(c.level k).pool, [[x]]⟩ 0 [] rfl rfl) hk rfl rfl).imp ?_
  rintro mem' c' f ⟨pw', x', ⟨x'', hpw, hG⟩, top, rfl, rfl⟩
  have same : x' = x'' := by
    rw [hpw, World.stack_update_self (Nat.zero_lt_one)] at top
    exact (List.cons.inj top).1.symm
  subst same
  exact ⟨_, _, hG, rfl, rfl⟩

/-! ## A handle that is given back -/

/-- Handle `h`, which has session `s`, goes back to the pool when it is given back, whoever gives it
back and whatever callbacks there are. Below the capacity, `s` is idle then. -/
structure GoesBack (k h s : Nat) (c : Cache) : Prop where
  released : ∀ {Memory : Type} (O : Outside Memory Query Reply) mem,
    program.Leads O (.giveBack k h) c mem fun mem' c' f => mem' = mem ∧
      f = .pool k (.start (.release s)) ∧ (c'.level k).pool = (c.level k).pool
  idle : (c.level k).pool.overCapacity = false →
    ∀ {Memory : Type} (O : Outside Memory Query Reply) mem,
    program.Leads O (.giveBack k h) c mem fun mem' c' f => mem' = mem ∧
      f = .pool k (.over .done) ∧ (c'.level k).pool.idle = (c.level k).pool.idle ++ [s] ∧
      (c'.level k).pool.allocated = (c.level k).pool.allocated

/-- A clean handle that has the epoch of its level goes back. -/
theorem goesBack (hk : k + 1 = c.depth) (target : (c.handle k h).target = some s)
    (present : (c.handle k h).epoch = (c.level k).epoch) (clean : (c.handle k h).dirty = false) :
    GoesBack k h s c := by
  have pool : ((c.modifyHandle k h fun x => { x with target := none }).level k).pool =
      (c.level k).pool := by
    refine level_modify_of (g := Level.pool) c ?_ k k
    exact fun _ => rfl
  have released : ∀ {Memory : Type} (O : Outside Memory Query Reply) mem,
      program.Leads O (.giveBack k h) c mem fun mem' c' f => mem' = mem ∧
        f = .pool k (.start (.release s)) ∧ (c'.level k).pool = (c.level k).pool ∧
        c'.depth = c.depth := by
    intro Memory O mem
    refine .step rfl fun t => ?_
    show program.Leads O (Frame.giveBackStep c k h).2.1 (Frame.giveBackStep c k h).1 mem _
    simp only [Frame.giveBackStep, target, epoch_modifyHandle, present, clean, ne_eq, not_true,
      if_false, Bool.false_eq_true]
    exact .here ⟨rfl, rfl, pool, depth_modify ..⟩
  refine ⟨fun O mem => (released O mem).imp ?_, fun room _ O mem => (released O mem).trans ?_⟩
  · rintro mem' c' f ⟨rfl, rfl, same, -⟩
    exact ⟨rfl, rfl, same⟩
  · rintro _ c' _ ⟨rfl, rfl, same, depth⟩
    rw [← same] at room ⊢
    refine (leads_pool (hk.trans depth.symm) (Pool.release_alone s room)).imp ?_
    rintro mem' c'' f ⟨p', x', ⟨rfl, rfl, idle, allocated⟩, rfl, rfl⟩
    rw [pool_setPool, if_pos ⟨rfl, by omega⟩]
    exact ⟨rfl, rfl, idle, allocated⟩

end Cache

end Lending
