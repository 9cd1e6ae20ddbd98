import Lending.Proofs.Cache.Lifetime
import Lending.Proofs.Cache.Loans
import Lending.Proofs.Pool.Slots

/-!
# What a panic costs a cache

Every slot of a level's pool is with an idle session, with one on loan, or in the hands of an
operation. An operation that ends early gives its slot up first, but for one: the session of a
handle that is outdated or dirty is closed before it is discarded, and nothing guards the slot in
between. A close that raises takes the slot with it.

* `Frame.loses`: the slots lost by an answer; `lost` counts them along a run.
* `slots_accounted_unless_lost`: while the pool is alive, slots add up with those that were lost.

The session is closed by `close_and_discard`, which calls `close` and then the pool's `discard`. Of
the callbacks of a pool each is called under a reservation, or with the slot given up already; this
`close` is called by the cache itself, under none.
-/

namespace Lending

namespace Pool.Call

variable {α : Type} {c : Call α}

theorem slots_of_bare (h : c.bare = true) : c.lent + c.holds = 0 := by
  cases c with
  | start op => cases op <;> first | rfl | exact absurd h nofun
  | «over» r => cases r <;> first | rfl | exact absurd h nofun
  | teardown => rfl
  | _ => exact absurd h nofun

end Pool.Call

namespace Cache

namespace Frame

section

variable (k : Nat)

/-- Slots of level `k` in the hands of an operation. -/
def slots : Frame → Nat
  | .pool j x => if j = k then x.lent + x.holds else 0
  | .closing j _ => if j = k then 1 else 0
  | _ => 0

/-- Slots of level `k` lost by a reply: a close or a discard that raises ends the give-back before
its slot is given up. -/
def loses : Frame → Reply → Nat
  | .closing j _, .raised _ | .pool j (.start (.discard _)), .raised _ => if j = k then 1 else 0
  | _, _ => 0

/-- Slots of level `k` that come with a reply, with the session that a borrowing gets. -/
def gains : Frame → Reply → Nat
  | .borrowing j _, .got _ => if j = k then 1 else 0
  | _, _ => 0

@[simp] theorem slots_pool (x : Pool.Call Nat) : (pool k x).slots k = x.lent + x.holds :=
  if_pos rfl

@[simp] theorem slots_closing (s : Nat) : (closing k s).slots k = 1 := if_pos rfl

end

variable {k : Nat} {m : Moment} {c c' : Cache} {f f' : Frame} {r : Reply}

theorem Bare.slots (h : f.Bare k) : f.slots k = 0 := by
  cases f with
  | pool j x =>
    show (if j = k then _ else 0) = 0
    by_cases hj : j = k
    · rw [if_pos hj]
      exact Pool.Call.slots_of_bare (h hj)
    · exact if_neg hj
  | closing j s => exact if_neg h
  | _ => rfl

theorem Bare.loses (h : f.Bare k) (r : Reply) : f.loses k r = 0 := by
  unfold Frame.loses
  split
  · exact if_neg h
  · rename_i j s message
    by_cases hj : j = k
    · exact absurd (h hj) nofun
    · exact if_neg hj
  · rfl

theorem toPool_eq_raised {q : Pool.Query Nat} {message : String}
    (h : r.toPool q = .raised message) : r = .raised message := by
  cases r with
  | raised message =>
    cases h
    rfl
  | refused e =>
    simp only [Reply.toPool] at h
    split at h <;> cases h
  | done | got | failed | flag | reading | file | unavailable => cases h

theorem loses_pool (x : Pool.Call Nat) (q : Pool.Query Nat) (r : Reply) :
    (pool k x).loses k r = x.loses (r.toPool q) := by
  by_cases hr : ∃ message, r = .raised message
  · obtain ⟨message, rfl⟩ := hr
    cases x with
    | start op => cases op <;> first | exact if_pos rfl | rfl
    | _ => rfl
  · have noFrame : (pool k x).loses k r = 0 := by
      unfold Frame.loses
      split
      · contradiction
      · exact absurd ⟨_, rfl⟩ hr
      · rfl
    have noCall : x.loses (r.toPool q) = 0 := by
      unfold Pool.Call.loses
      split
      · rename_i heq
        exact absurd ⟨_, toPool_eq_raised heq⟩ hr
      · rfl
    rw [noFrame, noCall]

/-- **A step moves slots within a level**, while the end of its pool is not under way. -/
theorem Steps.slots (h : Steps m c f c' f') (hk : k < c.depth) (he : ¬ f.Ends k)
    (hle : (c.level k).pool.idle.length + f.slots k ≤ (c.level k).pool.allocated) :
    (c'.level k).pool.allocated +
        ((c.level k).pool.idle.length + (c.level k).onLoan.length + f.slots k) =
      (c.level k).pool.allocated +
        ((c'.level k).pool.idle.length + (c'.level k).onLoan.length + f'.slots k) := by
  cases h.loan hk with
  | none same hf hf' => rw [same.pool, same.onLoan, hf.slots, hf'.slots]
  | @pool x x' hf hf' hs hl =>
    subst hf hf'
    rw [slots_pool] at hle
    have moved := hs.slots (fun hx => he (by rw [hx]; exact rfl))
      (Nat.le_trans (x.surrenders_le _) hle)
    rw [hl, slots_pool, slots_pool]
    omega
  | answered count hf hf' hx ha hp hl =>
    subst hf hf'
    have kept := ha.slots
    rw [hp, hl, slots_pool, slots_pool, Pool.allocated_count, Pool.idle_count]
    have none : ∀ {x : Pool.Call Nat}, x.loses .done = 0 := by
      intro x
      unfold Pool.Call.loses
      split <;> first | rfl | contradiction
    rw [none] at kept
    omega
  | taken hf ht hf' hp hl =>
    subst hf
    have fewer := hl.length_eq
    have one : f'.slots k = 1 := by
      rcases hf' with ⟨rfl, -⟩ | ⟨rfl, -⟩ <;> simp [Pool.Call.lent, Pool.Call.holds]
    rw [hp, one]
    simp only [List.length_cons, Frame.slots] at fewer ⊢
    omega

theorem gains_of_ne (hr : ∀ epoch s, f = .borrowing k epoch → r ≠ .got s) : f.gains k r = 0 := by
  unfold gains
  split
  · rename_i j epoch s
    exact if_neg fun hj => hr epoch s (by rw [hj]) rfl
  · rfl

/-- **A reply moves slots within a level**, but for those that come with it, or are lost by it. -/
theorem Resumed.slots (h : Resumed c f r c' f') (hk : k < c.depth) :
    (c'.level k).pool.allocated = (c.level k).pool.allocated ∧
    (c'.level k).pool.idle.length = (c.level k).pool.idle.length ∧
    (c'.level k).onLoan.length + f'.slots k + f.loses k r =
      (c.level k).onLoan.length + f.slots k + f.gains k r := by
  cases h.loan hk with
  | none same hf hf' hr =>
    rw [same.pool, same.onLoan, hf.slots, hf'.slots, hf.loses, gains_of_ne hr]
    exact ⟨rfl, rfl, rfl⟩
  | @answered x x' q count hf hf' hx ha hp hl =>
    subst hf hf'
    have kept := ha.slots
    rw [hp, hl, slots_pool, slots_pool, loses_pool x q r]
    refine ⟨rfl, rfl, ?_⟩
    simp only [gains]
    omega
  | lent hf hr hf' hp hl =>
    subst hf hr hf'
    rw [hp, hl]
    simp [Frame.slots, Frame.loses, gains]
  | @closed s hf hr hf' same =>
    subst hf hf'
    have none : (closing k s).loses k r = 0 := by
      cases r with
      | raised message => exact absurd hr nofun
      | _ => rfl
    rw [same.pool, same.onLoan, none]
    simp [gains, Pool.Call.lent, Pool.Call.holds]
  | closeRaised hf hr hf' same =>
    subst hf hr hf'
    rw [same.pool, same.onLoan]
    simp [Frame.slots, Frame.loses, gains]

end Frame

/-- The slots of a frame that has ended go with its result. -/
theorem Ended.slots {k : Nat} {f g : Frame} {r : Reply} {rest : List Frame}
    (h : Ended k f r (g :: rest)) : f.slots k = g.gains k r := by
  cases h with
  | bare hf hr =>
    rw [hf.slots, Frame.gains_of_ne]
    rintro epoch s rfl
    exact hr epoch rest s rfl
  | acquired hf hr hb =>
    obtain ⟨rfl, -⟩ := List.cons.inj hb
    rw [hf, hr]
    simp [Frame.gains, Pool.Call.lent, Pool.Call.holds]

/-! ## What a run does to the slots of a level -/

/-- The slots of level `k` that a move loses. -/
def lostBy (k : Nat) (w : World Cache Frame) (m : Move Op Reply) : Nat :=
  ((program.heard w m).map fun x => x.1.loses k x.2).getD 0

/-- The slots of level `k` that are lost are counted. -/
def countLost (k n : Nat) (w : World Cache Frame) (m : Move Op Reply) (_ : World Cache Frame) :
    Option Nat :=
  some (n + lostBy k w m)

/-- While level `k`'s pool is alive, its slots add up, with `n` that were lost. -/
structure Accounted (k n : Nat) (w : World Cache Frame) : Prop where
  range : k < w.shared.depth
  slots : (w.shared.level k).poolAlive = true →
    (w.shared.level k).pool.allocated = (w.shared.level k).pool.idle.length +
      (w.shared.level k).onLoan.length + w.total (Frame.slots k) + n

namespace Accounted

variable {k n n' : Nat} {c : Cache} {w w' : World Cache Frame}

/-- **A move keeps the slots of a level accounted for.** -/
theorem move {m : Move Op Reply} {notices : List Notice} (hc : k < c.depth)
    (hw : program.Reach (World.init c) w) (hs : Accounted k n w)
    (ha : program.apply w m = some (w', notices)) (hn : countLost k n w m w' = some n') :
    Accounted k n' w' := by
  refine ⟨(depth_of_apply ha).symm ▸ hs.range, fun alive => ?_⟩
  have before := alive_of_apply hs.range ha alive
  have slots := hs.slots before
  have ends := not_ends_of_alive hc hw before
  have stands := (stands_of_reach hw).2
  obtain rfl := Option.some.inj hn
  unfold lostBy
  cases Program.effect_of_apply ha with
  | spawn =>
    refine slots.trans ?_
    rw [World.total_spawn]
    rfl
  | @enter i op hi =>
    have pushed := World.total_push (Frame.slots k) hi w.shared (.call op)
    refine slots.trans ?_
    rw [show program.start op = .call op from rfl, pushed]
    rfl
  | @step i m f f' below c' _ hst hne he =>
    have moved := (Frame.steps hne he).slots hs.range (ends f (World.mem_frames_of_stack hst))
    have total := World.total_replace (Frame.slots k) hst c' f'
    have one := w.le_total (Frame.slots k) (World.mem_frames_of_stack hst)
    have covered := moved (by omega)
    rw [Program.heard_step hst hne, World.shared_update]
    dsimp only [Option.map_none, Option.getD_none]
    omega
  | @descend i m f g below hst hne =>
    have started := Frame.started_of_reach hw f (World.mem_frames_of_stack hst)
    have none := ((Frame.needs started hne).bare k).slots
    have pushed := World.total_push (Frame.slots k) (World.lt_length_of_stack hst) w.shared g
    rw [hst, none] at pushed
    rw [Program.heard_descend hst hne, pushed]
    exact slots
  | @ascend i m f g g' h rest r c' _ hst hne hg he =>
    obtain ⟨allocated, idle, loans⟩ := (Frame.resumed (Or.inr ⟨h, hg⟩) he).slots hs.range
    have top := stands i
    rw [hst] at top
    have given := (top.1.over hne).slots (k := k)
    have total := World.total_ascend (Frame.slots k) hst c' g'
    rw [Program.heard_ascend hst hne, World.shared_update]
    dsimp only [Option.map_some, Option.getD_some]
    omega
  | @answer i r f f' below q c' _ hst hne he =>
    obtain ⟨allocated, idle, loans⟩ := (Frame.resumed (Or.inl ⟨q, hne⟩) he).slots hs.range
    have total := World.total_replace (Frame.slots k) hst c' f'
    have none : f.gains k r = 0 := Frame.gains_of_ne fun epoch s hf => by
      rw [hf] at hne
      exact absurd hne nofun
    rw [Program.heard_answer hst, World.shared_update]
    dsimp only [Option.map_some, Option.getD_some]
    omega
  | @expire i f below t hst ht =>
    obtain ⟨parked, level⟩ := Frame.exists_level_expire ht k
    rw [level]
    exact slots
  | @collect i f below r hst hne =>
    have popped := World.total_pop (Frame.slots k) hst w.shared
    have top := stands i
    rw [hst] at top
    have none := ((top.1.over (k := k) hne).bare_of_collect ha hst).slots
    rw [none] at popped
    refine slots.trans ?_
    rw [← popped]
    rfl

theorem of_kept {limits : List Limits} {shared : Bool} (hk : k < limits.length)
    (h : program.Kept (countLost k) 0 (World.init (.ofLimits limits shared)) n w) :
    Accounted k n w := by
  have hc : k < (Cache.ofLimits limits shared).depth := by
    rw [depth_ofLimits]
    exact hk
  induction h with
  | refl =>
    refine ⟨hc, fun _ => ?_⟩
    show ((Cache.ofLimits limits shared).level k).pool.allocated =
      ((Cache.ofLimits limits shared).level k).pool.idle.length +
        ((Cache.ofLimits limits shared).level k).onLoan.length + 0 + 0
    rw [level_ofLimits hk shared]
    rfl
  | move m h ha hn ih => exact ih.move hc h.reach ha hn

end Accounted

/-- **Slots are accounted for, but for those that a raise took.** Take any level of any stack and
any run, whatever connecting, probing and closing answer, fail at or raise. While the level's pool
is alive, the slots taken are those of the idle sessions, of the sessions that handles have not
given back, and of operations in progress, and those that were lost: one for each give-back of an
outdated or dirty handle's session that raised.

So whenever no operation is in progress and no session is idle, there is no room exactly if the
limit is used up by sessions on loan and by lost slots, which nobody can give back any more. -/
theorem slots_accounted_unless_lost {limits : List Limits} {shared : Bool} {k n : Nat}
    {w : World Cache Frame} (hk : k < limits.length)
    (h : program.Kept (countLost k) 0 (World.init (.ofLimits limits shared)) n w)
    (alive : (w.shared.level k).poolAlive = true) :
    (w.shared.level k).pool.allocated = (w.shared.level k).pool.idle.length +
      (w.shared.level k).onLoan.length + w.total (Frame.slots k) + n ∧
    ((∀ i, w.stack i = []) →
      (w.shared.level k).pool.allocated = (w.shared.level k).pool.idle.length +
        (w.shared.level k).onLoan.length + n ∧
      ((w.shared.level k).pool.idle = [] → ((w.shared.level k).pool.hasRoom = false ↔
        0 < (w.shared.level k).pool.capacity ∧
        (w.shared.level k).pool.capacity ≤ (w.shared.level k).onLoan.length + n))) := by
  have slots := (Accounted.of_kept hk h).slots alive
  refine ⟨slots, fun quiet => ?_⟩
  have none : w.total (Frame.slots k) = 0 := by simp [World.total, World.frames_eq_nil quiet]
  rw [none, Nat.add_zero] at slots
  refine ⟨slots, fun empty => ?_⟩
  rw [empty, List.length_nil] at slots
  rw [← Bool.not_eq_true, Pool.hasRoom_iff]
  omega

/-- A session is lent and marked dirty, and its close raises. -/
def closeRaises : List (Move Op Reply) :=
  List.flatten [
    [.spawn, .enter 0 .getSession], List.replicate 4 (.run 0 (.at 0)),
    [.answer 0 (.got 0), .run 0 (.at 0), .collect 0],
    [.enter 0 (.markDirty 0), .run 0 (.at 0), .collect 0],
    [.enter 0 (.close 0)], List.replicate 3 (.run 0 (.at 0)),
    [.answer 0 (.raised "close blew up"), .run 0 (.at 0), .collect 0]]

/-- What `closeRaises` comes to. -/
def slotLost : World Cache Frame where
  shared :=
    { levels :=
        [{ pool := { allocated := 1, capacity := 1, counters := { created := 1, acquired := 1 } }
           handles := [{ target := none, epoch := 0, dirty := true }] }]
      keepers := 2 }
  threads := [[]]

/-- The one slot of the pool is taken for ever, with no session idle and none on loan. -/
theorem slots_accounted_unless_lost_closeRaises :
    0 < 1 ∧
    program.keep? (countLost 0) 0 (World.init (.ofLimits [{ size := 1 }] false)) closeRaises =
      some (1, slotLost) ∧
    (slotLost.shared.level 0).poolAlive = true ∧
    ((slotLost.shared.level 0).pool.allocated = (slotLost.shared.level 0).pool.idle.length +
      (slotLost.shared.level 0).onLoan.length + slotLost.total (Frame.slots 0) + 1 ∧
    ((∀ i, slotLost.stack i = []) →
      (slotLost.shared.level 0).pool.allocated = (slotLost.shared.level 0).pool.idle.length +
        (slotLost.shared.level 0).onLoan.length + 1 ∧
      ((slotLost.shared.level 0).pool.idle = [] → ((slotLost.shared.level 0).pool.hasRoom = false ↔
        0 < (slotLost.shared.level 0).pool.capacity ∧
        (slotLost.shared.level 0).pool.capacity ≤ (slotLost.shared.level 0).onLoan.length + 1)))) ∧
    (slotLost.shared.level 0).pool.idle = [] ∧ (slotLost.shared.level 0).onLoan = [] ∧
    (slotLost.shared.level 0).pool.hasRoom = false := by
  have run : program.keep? (countLost 0) 0 (World.init (.ofLimits [{ size := 1 }] false))
      closeRaises = some (1, slotLost) := rfl
  exact ⟨by decide, run, rfl,
    slots_accounted_unless_lost (by decide) (Program.kept_of_keep? run) rfl, rfl, rfl, rfl⟩

end Cache

end Lending
