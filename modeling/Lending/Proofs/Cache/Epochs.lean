import Lending.Proofs.Cache.Handles
import Lending.Proofs.Cache.Nesting

/-!
# Epochs only grow

Resets of a level take turns, and each reads the clock until it passes the epoch that it found. No
other reset stores one meanwhile, so every store moves the level to a later epoch than any before,
and no epoch comes back.

* `storedBy`: the epoch that a move stores (`epoch_of_apply`).
* `EpochsPaced`: what loads and handles have is never ahead of the level, and a store is ahead of it
  (`EpochsPaced.lt_of_storedBy`).
* `Outdated`: a handle of an earlier epoch stays one, and its session is closed when it is given
  back (`Outdated.of_reach`, `Outdated.closes`).

That resets take turns is what `reset_lock` is there for. That a reset stores nothing but a later
reading is `advance`, which asks the clock again until the reading has passed the epoch. With both,
equal epochs mean that no reset stored one in between, and a handle whose epoch is not the present
one has been overtaken.
-/

namespace Lending.Cache

/-- The epoch of level `k` that a reset stores when it gets this reply. -/
def Frame.stores (k : Nat) : Frame → Reply → Option Nat
  | .readingClock j previous, .reading n => if j = k ∧ previous < n then some n else none
  | _, _ => none

/-- The epoch of level `k` that a move stores. -/
def storedBy (k : Nat) (w : World Cache Frame) (m : Move Op Reply) : Option Nat :=
  (program.heard w m).bind fun x => x.1.stores k x.2

theorem Frame.exists_of_stores {k n : Nat} {f : Frame} {r : Reply} (h : f.stores k r = some n) :
    ∃ previous, f = .readingClock k previous ∧ r = .reading n ∧ previous < n := by
  unfold stores at h
  split at h
  · rename_i j previous n'
    split at h
    · rename_i hj
      obtain ⟨rfl, hlt⟩ := hj
      cases h
      exact ⟨previous, rfl, rfl, hlt⟩
    · exact absurd h nofun
  · exact absurd h nofun

theorem Frame.Resumed.epoch {k : Nat} {c c' : Cache} {f f' : Frame} {r : Reply}
    (h : Resumed c f r c' f') (hk : k < c.depth) :
    (c'.level k).epoch = (f.stores k r).getD (c.level k).epoch := by
  cases hs : f.stores k r with
  | some n =>
    obtain ⟨previous, rfl, rfl, hlt⟩ := exists_of_stores hs
    cases h with
    | advanced =>
      rw [level_modify, if_pos ⟨rfl, hk⟩]
      rfl
    | readAgain _ _ _ hle => exact absurd (hle n rfl) (Nat.not_le_of_lt hlt)
  | none =>
    cases h.level hk with
    | quiet hq => exact hq.epoch
    | answered _ _ _ _ hl | lent _ _ hl | ended _ _ hl =>
      rw [hl]
      rfl
    | advanced hf hr hn =>
      rw [hf, hr] at hs
      exact absurd hs (by simp [stores, hn])

theorem Frame.Steps.epoch {k : Nat} {m : Moment} {c c' : Cache} {f f' : Frame}
    (h : Steps m c f c' f') (hk : k < c.depth) : (c'.level k).epoch = (c.level k).epoch := by
  cases h.level hk with
  | quiet hq => exact hq.epoch
  | pool _ _ _ hl | answered _ _ _ _ hl | turn _ _ _ hl => rw [hl]

/-- What level `k` and the operations on it have of epochs is in order. -/
structure EpochsPaced (k : Nat) (w : World Cache Frame) : Prop where
  range   : k < w.shared.depth
  /-- Resets take turns. -/
  turn    : w.total (Frame.turn k) = if (w.shared.level k).resetting then 1 else 0
  clocks  : ∀ e ∈ w.gather (Frame.clocks k), e = (w.shared.level k).epoch
  loads   : ∀ e ∈ w.gather (Frame.loads k), e ≤ (w.shared.level k).epoch
  handles : ∀ x ∈ (w.shared.level k).handles, x.epoch ≤ (w.shared.level k).epoch

namespace EpochsPaced

variable {k i : Nat} {w w' : World Cache Frame} {c c' : Cache} {f f' g : Frame}
  {below : List Frame}

/-- The top frame of a thread goes, and had no turn. -/
theorem pop (hp : EpochsPaced k w) (hst : w.stack i = f :: below) (hf : f.turn k = 0) :
    EpochsPaced k (w.update i w.shared below) where
  range := hp.range
  turn := by
    have := World.total_pop (Frame.turn k) hst w.shared
    rw [hf] at this
    exact this.trans hp.turn
  clocks := fun e h => hp.clocks e (World.mem_gather_pop hst h)
  loads := fun e h => hp.loads e (World.mem_gather_pop hst h)
  handles := hp.handles

/-- A frame that carries nothing comes on top of a thread. -/
theorem push (hp : EpochsPaced k w) (hi : i < w.threads.length) (turn : g.turn k = 0)
    (clocks : g.clocks k = []) (loads : g.loads k = []) :
    EpochsPaced k (w.update i w.shared (g :: w.stack i)) where
  range := hp.range
  turn := by
    have := World.total_push (Frame.turn k) hi w.shared g
    rw [turn] at this
    exact this.trans hp.turn
  clocks := fun e h => by
    have := World.mem_gather_push hi h
    rw [clocks] at this
    exact hp.clocks e (this.resolve_left List.not_mem_nil)
  loads := fun e h => by
    have := World.mem_gather_push hi h
    rw [loads] at this
    exact hp.loads e (this.resolve_left List.not_mem_nil)
  handles := hp.handles

/-- A frame takes the place of the top one of a thread, and the epoch stays. -/
theorem replace (hp : EpochsPaced k w) (hst : w.stack i = f :: below)
    (depth : c'.depth = w.shared.depth) (epoch : (c'.level k).epoch = (w.shared.level k).epoch)
    (balance : f'.turn k + (if (w.shared.level k).resetting then 1 else 0) =
      f.turn k + if (c'.level k).resetting then 1 else 0)
    (carried : Frame.Carried k w.shared f f')
    (handles : ∀ x ∈ (c'.level k).handles, x.epoch ≤ (w.shared.level k).epoch) :
    EpochsPaced k (w.update i c' (f' :: below)) where
  range := depth ▸ hp.range
  turn := by
    have total := World.total_replace (Frame.turn k) hst c' f'
    rw [hp.turn] at total
    rw [World.shared_update]
    omega
  clocks := fun e h => by
    rw [World.shared_update, epoch]
    rcases World.mem_gather_replace hst h with new | old
    · rcases carried.clocks e new with he | he
      · exact he
      · exact hp.clocks e (World.mem_gather_of_stack hst he)
    · exact hp.clocks e old
  loads := fun e h => by
    rw [World.shared_update, epoch]
    rcases World.mem_gather_replace hst h with new | old
    · exact Nat.le_of_eq (carried.loads e new)
    · exact hp.loads e old
  handles := by
    rw [World.shared_update, epoch]
    exact handles

theorem handles_of_kept {hs : List Handle} (hp : EpochsPaced k w)
    (hk : Kept (w.shared.level k).handles hs) : ∀ x ∈ hs, x.epoch ≤ (w.shared.level k).epoch := by
  intro x hx
  obtain ⟨y, hy, he, -⟩ := hk x hx
  rw [← he]
  exact hp.handles y hy

/-- The top frame of a thread takes a step. -/
theorem step {m : Moment} (hp : EpochsPaced k w) (hst : w.stack i = f :: below)
    (h : Frame.Steps m w.shared f c' f') : EpochsPaced k (w.update i c' (f' :: below)) := by
  cases h.level hp.range with
  | quiet hq ht =>
    exact hp.replace hst h.depth hq.epoch (by rw [ht, hq.resetting]) h.carried
      (hp.handles_of_kept hq.handles)
  | pool hf hf' hs hl | answered count hf hf' ha hl =>
    subst hf hf'
    exact hp.replace hst h.depth (by rw [hl]) (by rw [hl]; rfl) h.carried
      (by rw [hl]; exact hp.handles)
  | turn hf hr hf' hl =>
    subst hf
    refine hp.replace hst h.depth (by rw [hl]) ?_ h.carried (by rw [hl]; exact hp.handles)
    rw [hl, hf', hr]
    rfl

/-- A reset stores a later epoch, and no other one reads the clock. -/
theorem store {previous n : Nat} (hp : EpochsPaced k w)
    (hst : w.stack i = .readingClock k previous :: below) (hn : previous < n) :
    EpochsPaced k (w.update i (w.shared.modify k fun l => { l with epoch := n })
      (.sweeping k n :: below)) := by
  have level : (w.shared.modify k fun l => { l with epoch := n }).level k =
      { w.shared.level k with epoch := n } := by
    rw [level_modify, if_pos ⟨rfl, hp.range⟩]
  have old : previous = (w.shared.level k).epoch :=
    hp.clocks previous (World.mem_gather_of_stack hst (by simp))
  have later : ∀ e, e ≤ (w.shared.level k).epoch → e ≤ n := fun e he => by omega
  have still : (w.update i (w.shared.modify k fun l => { l with epoch := n })
      (.sweeping k n :: below)).gather (Frame.clocks k) = [] := by
    have moved := (World.gather_replace (g := Frame.clocks k) hst
      (w.shared.modify k fun l => { l with epoch := n }) (.sweeping k n)).length_eq
    have few : (w.gather (Frame.clocks k)).length ≤ w.total (Frame.turn k) := by
      rw [World.length_gather]
      exact World.total_le (Frame.length_clocks_le k)
    have one : w.total (Frame.turn k) ≤ 1 := by
      rw [hp.turn]
      split <;> omega
    have none : (Frame.sweeping k n).clocks k = [] := rfl
    rw [List.length_append, List.length_append, Frame.clocks_readingClock, none,
      List.length_singleton, List.length_nil] at moved
    exact List.eq_nil_of_length_eq_zero (by omega)
  constructor
  case range =>
    rw [World.shared_update, depth_modify]
    exact hp.range
  case turn =>
    have total := World.total_replace (Frame.turn k) hst
      (w.shared.modify k fun l => { l with epoch := n }) (.sweeping k n)
    rw [hp.turn, Frame.turn_readingClock, Frame.turn_sweeping] at total
    rw [World.shared_update, level]
    exact Nat.add_right_cancel total
  case clocks =>
    rw [still]
    exact nofun
  case loads =>
    rw [World.shared_update, level]
    intro e he
    rcases World.mem_gather_replace hst he with new | old
    · exact absurd new List.not_mem_nil
    · exact later e (hp.loads e old)
  case handles =>
    rw [World.shared_update, level]
    exact fun x hx => later _ (hp.handles x hx)

/-- The top frame of a thread goes on with a reply. -/
theorem resume {r : Reply} (hp : EpochsPaced k w) (hst : w.stack i = f :: below)
    (h : Frame.Resumed w.shared f r c' f') : EpochsPaced k (w.update i c' (f' :: below)) := by
  cases h.level hp.range with
  | quiet hq ht =>
    exact hp.replace hst h.depth hq.epoch (by rw [ht, hq.resetting]) h.carried
      (hp.handles_of_kept hq.handles)
  | answered count hf hf' ha hl =>
    subst hf hf'
    exact hp.replace hst h.depth (by rw [hl]) (by rw [hl]; rfl) h.carried
      (by rw [hl]; exact hp.handles)
  | @lent epoch s hf hr hl =>
    subst hf
    have loaded := hp.loads epoch (World.mem_gather_of_stack hst (by simp))
    have none : f'.turn k = 0 := by
      cases h with
      | lent | notLent => rfl
      | resetRaised hf => exact absurd hf nofun
    refine hp.replace hst h.depth (by rw [hl]) (by rw [hl, none]; rfl) h.carried ?_
    rw [hl]
    intro x hx
    rcases List.mem_append.mp hx with hx | hx
    · exact hp.handles x hx
    · cases List.mem_singleton.mp hx
      exact loaded
  | ended hf hf' hl =>
    have one := Frame.resetting_iff_turn.mp hf
    have held : (w.shared.level k).resetting = true := by
      have le := w.le_total (Frame.turn k) (World.mem_frames_of_stack hst)
      rw [one, hp.turn] at le
      by_contra hr
      rw [if_neg hr] at le
      omega
    refine hp.replace hst h.depth (by rw [hl]) ?_ h.carried (by rw [hl]; exact hp.handles)
    rw [hl, hf', one, held]
    rfl
  | advanced hf hr hn hf' hl =>
    subst hf hr
    cases h with
    | advanced => exact hp.store hst hn
    | readAgain _ _ _ hle => exact absurd (hle _ rfl) (Nat.not_le_of_lt hn)

/-- **A move keeps the epochs in order.** -/
theorem move {m : Move Op Reply} {notices : List Notice} (hp : EpochsPaced k w)
    (hs : ∀ f ∈ w.frames, Frame.Started f)
    (ha : program.apply w m = some (w', notices)) : EpochsPaced k w' := by
  cases Program.effect_of_apply ha with
  | spawn =>
    refine ⟨hp.range, ?_, ?_, ?_, hp.handles⟩
    · exact (World.total_spawn ..).trans hp.turn
    · rw [World.gather_spawn]
      exact hp.clocks
    · rw [World.gather_spawn]
      exact hp.loads
  | enter op hi => exact hp.push hi rfl rfl rfl
  | step hst hne he => exact hp.step hst (Frame.steps hne he)
  | @descend i m f g below hst hne =>
    have needs := Frame.needs (hs f (World.mem_frames_of_stack hst)) hne
    obtain ⟨turn, clocks, -, loads⟩ := needs.carries (k := k)
    rw [← hst]
    exact hp.push (World.lt_length_of_stack hst) turn clocks loads
  | @ascend i m f g g' h rest r c' _ hst hne hg he =>
    have hst' := World.stack_update_self (World.lt_length_of_stack hst) w.shared (g :: rest)
    rw [← World.update_update w.shared c' (g :: rest) (g' :: rest)]
    exact (hp.pop hst (Frame.turn_of_over hne)).resume hst' (Frame.resumed (Or.inr ⟨h, hg⟩) he)
  | answer hst hne he => exact hp.resume hst (Frame.resumed (Or.inl ⟨_, hne⟩) he)
  | @expire i f below t hst ht =>
    obtain ⟨parked, level⟩ := Frame.exists_level_expire ht k
    refine ⟨(depth_of_apply ha).symm ▸ hp.range, ?_, ?_, ?_, ?_⟩
    · rw [level]
      exact hp.turn
    · rw [level]
      exact hp.clocks
    · rw [level]
      exact hp.loads
    · rw [level]
      exact hp.handles
  | collect hst hne => exact hp.pop hst (Frame.turn_of_over hne)

/-- **Every run keeps the epochs in order.** -/
theorem of_reach {limits : List Limits} {shared : Bool} (hk : k < limits.length)
    (hw : program.Reach (World.init (.ofLimits limits shared)) w) : EpochsPaced k w := by
  induction hw with
  | refl =>
    have level := level_ofLimits hk shared
    constructor
    case range => exact lt_of_lt_of_eq hk (depth_ofLimits limits shared).symm
    case turn =>
      show World.total _ _ = if ((Cache.ofLimits limits shared).level k).resetting then 1 else 0
      rw [level]
      rfl
    case handles =>
      show ∀ x ∈ ((Cache.ofLimits limits shared).level k).handles, _
      rw [level]
      exact nofun
    all_goals exact nofun
  | move m hw ha ih => exact ih.move (Frame.started_of_reach hw) ha

/-- A store moves the level to a later epoch. -/
theorem lt_of_storedBy {m : Move Op Reply} {n : Nat} (hp : EpochsPaced k w)
    (hn : storedBy k w m = some n) : (w.shared.level k).epoch < n := by
  obtain ⟨⟨f, r⟩, heard, stores⟩ := Option.bind_eq_some_iff.mp hn
  obtain ⟨previous, rfl, rfl, hlt⟩ := Frame.exists_of_stores stores
  have := hp.clocks previous
    (World.mem_gather.mpr ⟨_, Program.mem_frames_of_heard heard, by simp⟩)
  omega

end EpochsPaced

section

variable {k h : Nat} {w w' : World Cache Frame} {m : Move Op Reply} {notices : List Notice}

/-- **The epoch of a level changes only by a store.** -/
theorem epoch_of_apply (hk : k < w.shared.depth) (ha : program.apply w m = some (w', notices)) :
    (w'.shared.level k).epoch = (storedBy k w m).getD (w.shared.level k).epoch := by
  unfold storedBy
  cases Program.effect_of_apply ha with
  | spawn | enter | collect => rfl
  | step hst hne he =>
    rw [Program.heard_step hst hne]
    exact (Frame.steps hne he).epoch hk
  | descend hst hne =>
    rw [Program.heard_descend hst hne]
    rfl
  | ascend hst hne hg he =>
    rw [Program.heard_ascend hst hne]
    exact (Frame.resumed (Or.inr ⟨_, hg⟩) he).epoch hk
  | answer hst hne he =>
    rw [Program.heard_answer hst]
    exact (Frame.resumed (Or.inl ⟨_, hne⟩) he).epoch hk
  | @expire i f below t hst ht =>
    obtain ⟨parked, level⟩ := Frame.exists_level_expire ht k
    show ((program.expire w.shared f).level k).epoch = _
    rw [level]
    rfl

theorem epoch_le_of_apply (hp : EpochsPaced k w) (ha : program.apply w m = some (w', notices)) :
    (w.shared.level k).epoch ≤ (w'.shared.level k).epoch := by
  rw [epoch_of_apply hp.range ha]
  cases hn : storedBy k w m with
  | none => exact Nat.le_refl _
  | some n => exact Nat.le_of_lt (hp.lt_of_storedBy hn)

/-- **Epochs never go back**, in any run. -/
theorem epoch_le_of_reach {limits : List Limits} {shared : Bool} (hk : k < limits.length)
    (hw : program.Reach (World.init (.ofLimits limits shared)) w) (h : program.Reach w w') :
    (w.shared.level k).epoch ≤ (w'.shared.level k).epoch := by
  induction h with
  | refl => exact Nat.le_refl _
  | move m h ha ih => exact ih.trans (epoch_le_of_apply (EpochsPaced.of_reach hk (hw.trans h)) ha)

/-- Handle `h` of level `k` was lent under an earlier epoch. -/
structure Outdated (k h : Nat) (w : World Cache Frame) : Prop where
  lent    : h < (w.shared.level k).handles.length
  earlier : (w.shared.handle k h).epoch < (w.shared.level k).epoch

/-- A borrowing that a reset has overtaken lends a handle that is outdated from the first. -/
theorem EpochsPaced.outdated_of_lent {epoch s : Nat} (hp : EpochsPaced k w)
    (ha : program.apply w m = some (w', notices))
    (heard : program.heard w m = some (.borrowing k epoch, .got s))
    (he : epoch ≠ (w.shared.level k).epoch) :
    Outdated k (w.shared.level k).handles.length w' ∧
      (w'.shared.handle k (w.shared.level k).handles.length).target = some s := by
  have loaded := hp.loads epoch (World.mem_gather.mpr
    ⟨_, Program.mem_frames_of_heard heard, by simp⟩)
  have stays : (w'.shared.level k).epoch = (w.shared.level k).epoch := by
    rw [epoch_of_apply hp.range ha, storedBy, heard]
    rfl
  have lent : (w'.shared.level k).handles =
      (w.shared.level k).handles ++ [{ target := some s, epoch }] := by
    obtain ⟨i, below, f', -, resumed⟩ := Frame.resumed_of_heard ha heard
    cases resumed.handles hp.range with
    | lent hf hr _ hh =>
      cases hf
      cases hr
      exact hh
    | same _ notLent => exact absurd rfl (notLent epoch s rfl)
    | left _ hf => exact absurd hf nofun
    | forgotten hf => rcases hf with hf | ⟨j, message, -, hf, -⟩ <;> exact absurd hf nofun
  have last := handle_lent lent
  refine ⟨⟨?_, ?_⟩, by rw [last]⟩
  · rw [lent]
    simp
  · rw [last, stays]
    exact Nat.lt_of_le_of_ne loaded he

/-- **An outdated handle stays outdated.** -/
theorem Outdated.of_reach {limits : List Limits} {shared : Bool} (hk : k < limits.length)
    (hw : program.Reach (World.init (.ofLimits limits shared)) w) (ho : Outdated k h w)
    (h' : program.Reach w w') : Outdated k h w' := by
  induction h' with
  | refl => exact ho
  | @move w₁ w₂ m notices h₁ ha ih =>
    have hp := EpochsPaced.of_reach hk (hw.trans h₁)
    have aged := aged_of_apply hp.range ha
    refine ⟨Nat.lt_of_lt_of_le ih.lent aged.length, ?_⟩
    rw [(aged.ages h ih.lent).epoch]
    exact Nat.lt_of_lt_of_le ih.earlier (epoch_le_of_apply hp ha)

/-- **The session of an outdated handle is closed** when the handle is given back. -/
theorem Outdated.closes {i s : Nat} {moment : Moment} {below : List Frame} (ho : Outdated k h w)
    (hst : w.stack i = .giveBack k h :: below) (ht : (w.shared.handle k h).target = some s)
    (ha : program.apply w (.run i moment) = some (w', notices)) :
    w'.stack i = .closing k s :: below := by
  cases Program.effect_of_apply ha with
  | step hst' hne he =>
    obtain ⟨rfl, rfl⟩ := List.cons.inj (hst.symm.trans hst')
    rw [World.stack_update_self (World.lt_length_of_stack hst)]
    cases (Frame.steps hne he : Frame.Steps moment _ (.giveBack k h) _ _) with
    | alreadyReleased hn => rw [ht] at hn; exact absurd hn nofun
    | close hs => rw [ht] at hs; cases hs; rfl
    | putBack _ same => exact absurd same (Nat.ne_of_lt ho.earlier)
  | descend hst' hn =>
    obtain ⟨rfl, rfl⟩ := List.cons.inj (hst.symm.trans hst')
    exact absurd hn nofun
  | ascend hst' hn =>
    obtain ⟨rfl, -⟩ := List.cons.inj (hst.symm.trans hst')
    exact absurd hn nofun

end

end Lending.Cache
