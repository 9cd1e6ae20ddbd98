import Lending.Proofs.Cache.Epochs
import Lending.Proofs.Cache.Settling
import Mathlib.Data.Nat.Find

/-!
# Epochs are drawn from the clock

A clock is a stream of readings, of which nothing is known: they may repeat, and they may go back. A
reset reads on until a reading passes the epoch, and stores that one. So the epochs of a level are
readings of its clock, each the first one after the last stored that is later than it.

* `FirstPast`, `Drawn`: which readings are stored.
* `Readings`: how many readings resets have got, and which of them were stored; `Readings.note`
  binds the answers of the clock to the stream, and nothing else.
* `Follows.move`: a move keeps epochs and readings in step, whatever else is under way.
* `Draws`: a reset that is left alone comes back exactly if some reading to come passes the epoch,
  with the first such stored. A stream without one keeps it waiting for ever (`not_returns`).
* `epochs_drawn`: both, for every run.

This is `advance`: it loads the epoch, reads the clock until a reading is greater, and stores it. It
is called by `reset_cache` only, under the mutex for resets, so that no other store comes between
the load and the store.
-/

namespace Lending.Cache

/-! ## Readings -/

section

variable {σ : Nat → Nat} {e start j : Nat} {js : List Nat}

/-- Of the readings from `start` on, the one in place `j` is the first that passes `e`. -/
structure FirstPast (σ : Nat → Nat) (e start j : Nat) : Prop where
  le     : start ≤ j
  passes : e < σ j
  first  : ∀ n, start ≤ n → n < j → σ n ≤ e

/-- Where some reading passes `e`, there is a first. -/
theorem exists_firstPast (h : ∃ j, start ≤ j ∧ e < σ j) : ∃ j, FirstPast σ e start j := by
  obtain ⟨hs, hp⟩ := Nat.find_spec h
  refine ⟨Nat.find h, hs, hp, fun n hn hlt => ?_⟩
  by_contra hgt
  exact Nat.find_min h hlt ⟨hn, Nat.lt_of_not_le hgt⟩

/-- The place of the first reading after those stored, the last of these first. -/
def unread : List Nat → Nat
  | [] => 0
  | j :: _ => j + 1

/-- The epoch when these readings have been stored. -/
def epochAfter (σ : Nat → Nat) : List Nat → Nat
  | [] => 0
  | j :: _ => σ j

/-- The places of the readings stored, the last first: each is the first after the one before that
passes it. -/
inductive Drawn (σ : Nat → Nat) : List Nat → Prop
  | nil : Drawn σ []
  | cons {js : List Nat} {j : Nat} (h : Drawn σ js)
      (first : FirstPast σ (epochAfter σ js) (unread js) j) : Drawn σ (j :: js)

namespace Drawn

theorem lt_unread (h : Drawn σ js) : ∀ i ∈ js, i < unread js := by
  induction h with
  | nil => exact nofun
  | @cons js j h first ih =>
    intro i hi
    rcases List.mem_cons.mp hi with rfl | hi
    · exact Nat.lt_succ_self _
    · exact Nat.lt_succ_of_lt (Nat.lt_of_lt_of_le (ih i hi) first.le)

theorem le_epochAfter (h : Drawn σ js) : ∀ i ∈ js, σ i ≤ epochAfter σ js := by
  induction h with
  | nil => exact nofun
  | @cons js j h first ih =>
    intro i hi
    rcases List.mem_cons.mp hi with rfl | hi
    · exact Nat.le_refl _
    · exact Nat.le_trans (ih i hi) (Nat.le_of_lt first.passes)

/-- **No reading is stored twice, and the epochs increase.** -/
theorem increasing (h : Drawn σ js) :
    js.Pairwise (· > ·) ∧ (js.map σ).Pairwise (· > ·) := by
  induction h with
  | nil => exact ⟨.nil, .nil⟩
  | @cons js j h first ih =>
    refine ⟨ih.1.cons fun i hi => ?_, ih.2.cons fun e he => ?_⟩
    · exact Nat.lt_of_lt_of_le (h.lt_unread i hi) first.le
    · obtain ⟨i, hi, rfl⟩ := List.mem_map.mp he
      exact Nat.lt_of_le_of_lt (h.le_epochAfter i hi) first.passes

end Drawn

end

/-! ## The record -/

/-- What resets have got from a clock. -/
structure Readings where
  /-- How many readings. -/
  read   : Nat := 0
  /-- The places of those stored, the last first. -/
  stored : List Nat := []

namespace Readings

/-- The clock answers, and `stores` says whether that is stored; another answer than the next
reading is objected to. -/
def hear (σ : Nat → Nat) (R : Readings) (stores : Bool) : Reply → Option Readings
  | .reading n =>
    if n = σ R.read then
      some { read := R.read + 1, stored := if stores then R.read :: R.stored else R.stored }
    else none
  | _ => none

/-- An answer of level `k`'s clock is written down. -/
def note (σ : Nat → Nat) (k : Nat) (R : Readings) (w : World Cache Frame) (m : Move Op Reply)
    (_ : World Cache Frame) : Option Readings :=
  match m with
  | .answer i r =>
    match w.stack i with
    | .readingClock j _ :: _ => if j = k then R.hear σ (storedBy k w m).isSome r else some R
    | _ => some R
  | _ => some R

end Readings

section

variable {σ : Nat → Nat} {k i : Nat} {w w' : World Cache Frame} {m : Move Op Reply}
  {notices : List Notice} {c : Cache} {f : Frame} {below : List Frame} {R R' : Readings}

/-- The move is an answer to a reset that reads level `k`'s clock. -/
def Ticks (k : Nat) (w : World Cache Frame) (m : Move Op Reply) : Prop :=
  ∃ i r previous below, m = .answer i r ∧ w.stack i = .readingClock k previous :: below

theorem Frame.clocks_eq_nil (h : ∀ previous, f ≠ .readingClock k previous) :
    f.clocks k = [] := by
  cases f with
  | readingClock j previous =>
    refine if_neg fun hj => ?_
    subst hj
    exact h previous rfl
  | _ => rfl

theorem Frame.clocks_of_need (h : ∀ q, f.need c ≠ .ask q) (k : Nat) : f.clocks k = [] := by
  refine clocks_eq_nil fun previous hf => ?_
  subst hf
  exact h _ rfl

theorem note_of_not_ticks (h : ¬Ticks k w m) : R.note σ k w m w' = some R := by
  cases m with
  | answer i r =>
    simp only [Readings.note]
    split
    · rename_i j previous below hst
      refine if_neg fun hj => ?_
      subst hj
      exact h ⟨i, r, previous, below, rfl, hst⟩
    · rfl
  | spawn | enter | run | expire | collect => rfl

/-- Nothing else is stored. -/
theorem storedBy_of_not_ticks (ha : program.apply w m = some (w', notices)) (h : ¬Ticks k w m) :
    storedBy k w m = none := by
  refine Option.eq_none_iff_forall_not_mem.mpr fun n hn => ?_
  obtain ⟨⟨f, r⟩, heard, stores⟩ := Option.bind_eq_some_iff.mp hn
  obtain ⟨previous, rfl, rfl, -⟩ := Frame.exists_of_stores stores
  cases Program.hears_of_apply ha heard with
  | result _ _ hg => cases hg
  | answer hst => exact h ⟨_, _, previous, _, rfl, hst⟩

/-- A reset goes on reading until the clock answers. -/
theorem clocks_of_not_ticks (ha : program.apply w m = some (w', notices)) (h : ¬Ticks k w m)
    (hw : w'.gather (Frame.clocks k) = []) : w.gather (Frame.clocks k) = [] := by
  cases Program.effect_of_apply ha with
  | spawn => simpa using hw
  | enter op hi => exact World.gather_eq_nil_of_push hi hw
  | step hst hne =>
    have none := Frame.clocks_of_need (fun q hq => by cases hne.symm.trans hq) k
    exact World.gather_eq_nil_of_replace hst none hw
  | descend hst hne =>
    rw [← hst] at hw
    exact World.gather_eq_nil_of_push (World.lt_length_of_stack hst) hw
  | @ascend i _ f g g' _ rest _ c' _ hst hne hg =>
    have hst' := World.stack_update_self (World.lt_length_of_stack hst) w.shared (g :: rest)
    rw [← World.update_update w.shared c' (g :: rest) (g' :: rest)] at hw
    have none := Frame.clocks_of_need (fun q hq => by cases hg.symm.trans hq) k
    have none' := Frame.clocks_of_need (fun q hq => by cases hne.symm.trans hq) k
    exact World.gather_eq_nil_of_pop hst none' (World.gather_eq_nil_of_replace hst' none hw)
  | answer hst hne =>
    refine World.gather_eq_nil_of_replace hst (Frame.clocks_eq_nil fun previous hf => ?_) hw
    subst hf
    exact h ⟨_, _, previous, _, rfl, hst⟩
  | expire => exact hw
  | collect hst hne =>
    have none := Frame.clocks_of_need (fun q hq => by cases hne.symm.trans hq) k
    exact World.gather_eq_nil_of_pop hst none hw

/-- A reading that does not pass the epoch leaves the reset reading. -/
theorem clocks_ne_nil_of_le {previous n : Nat}
    (ha : program.apply w (.answer i (.reading n)) = some (w', notices))
    (hst : w.stack i = .readingClock k previous :: below) (hn : n ≤ previous) :
    w'.gather (Frame.clocks k) ≠ [] := by
  intro none
  cases Program.effect_of_apply ha with
  | @answer _ _ _ f' _ _ c' _ hst' hne he =>
    obtain ⟨rfl, rfl⟩ := List.cons.inj (hst.symm.trans hst')
    have resumed : Frame.Resumed w.shared (.readingClock k previous) (.reading n) c' f' :=
      Frame.resumed (Or.inl ⟨_, hne⟩) he
    have top := World.stack_update_self (World.lt_length_of_stack hst) c' (f' :: below)
    cases resumed with
    | advanced passes => exact absurd passes (Nat.not_lt.mpr hn)
    | readAgain =>
      have mine : previous ∈ (Frame.readingClock k previous).clocks k := by simp
      have mem := World.mem_gather_of_stack top mine
      rw [none] at mem
      cases mem

/-- Epoch and readings of level `k` are in step. -/
structure Follows (σ : Nat → Nat) (k : Nat) (R : Readings) (w : World Cache Frame) : Prop where
  drawn   : Drawn σ R.stored
  epoch   : (w.shared.level k).epoch = epochAfter σ R.stored
  unread  : unread R.stored ≤ R.read
  /-- What has been read since the last store does not pass the epoch. -/
  passed  : ∀ n, Cache.unread R.stored ≤ n → n < R.read → σ n ≤ (w.shared.level k).epoch
  /-- That is read again by nobody: without a reset that reads the clock, there is none. -/
  settled : w.gather (Frame.clocks k) = [] → R.read = Cache.unread R.stored

namespace Follows

/-- A reset gets the next reading, and stores it if it passes the epoch. -/
theorem tick (h : Follows σ k R w) (hp : EpochsPaced k w)
    (ha : program.apply w m = some (w', notices)) (ht : Ticks k w m)
    (hn : R.note σ k w m w' = some R') : Follows σ k R' w' := by
  obtain ⟨i, r, previous, below, rfl, hst⟩ := ht
  have old : previous = (w.shared.level k).epoch :=
    hp.clocks previous (World.mem_gather_of_stack hst (by simp))
  have stores : storedBy k w (.answer i r) = Frame.stores k (.readingClock k previous) r := by
    rw [storedBy, Program.heard_answer hst]
    rfl
  have epoch := epoch_of_apply hp.range ha
  rw [stores] at epoch
  simp only [Readings.note, hst, if_true, stores] at hn
  cases r with
  | reading n =>
    simp only [Readings.hear, Option.ite_none_right_eq_some, Option.some.injEq] at hn
    obtain ⟨rfl, rfl⟩ := hn
    by_cases later : previous < σ R.read
    · have stored : Frame.stores k (.readingClock k previous) (.reading (σ R.read)) =
          some (σ R.read) := if_pos ⟨rfl, later⟩
      rw [stored] at epoch ⊢
      have first : FirstPast σ (epochAfter σ R.stored) (Cache.unread R.stored) R.read := by
        rw [← h.epoch]
        exact ⟨h.unread, old ▸ later, h.passed⟩
      refine ⟨h.drawn.cons first, epoch, Nat.le_refl _, ?_, fun _ => rfl⟩
      intro n hn hlt
      exact absurd hn (Nat.not_le_of_lt hlt)
    · have kept : Frame.stores k (.readingClock k previous) (.reading (σ R.read)) = none :=
        if_neg fun both => later both.2
      rw [kept] at epoch ⊢
      have same : (w'.shared.level k).epoch = (w.shared.level k).epoch := epoch
      refine ⟨h.drawn, same.trans h.epoch, Nat.le_succ_of_le h.unread, ?_, ?_⟩
      · intro n hn hlt
        rw [same]
        rcases Nat.lt_succ_iff_lt_or_eq.mp hlt with hlt | rfl
        · exact h.passed n hn hlt
        · exact old ▸ Nat.le_of_not_lt later
      · exact fun none => absurd none (clocks_ne_nil_of_le ha hst (Nat.le_of_not_lt later))
  | done | got | failed | refused | flag | file | raised | unavailable => cases hn

/-- **A move keeps epoch and readings in step.** -/
theorem move (h : Follows σ k R w) (hp : EpochsPaced k w)
    (ha : program.apply w m = some (w', notices)) (hn : R.note σ k w m w' = some R') :
    Follows σ k R' w' := by
  by_cases ht : Ticks k w m
  · exact h.tick hp ha ht hn
  · rw [note_of_not_ticks ht] at hn
    cases hn
    have same : (w'.shared.level k).epoch = (w.shared.level k).epoch := by
      rw [epoch_of_apply hp.range ha, storedBy_of_not_ticks ha ht]
      rfl
    refine ⟨h.drawn, same.trans h.epoch, h.unread, ?_, ?_⟩
    · rw [same]
      exact h.passed
    · exact fun none => h.settled (clocks_of_not_ticks ha ht none)

theorem of_kept {limits : List Limits} {shared : Bool} (hk : k < limits.length)
    (h : program.Kept (Readings.note σ k) {} (World.init (.ofLimits limits shared)) R w) :
    Follows σ k R w := by
  induction h with
  | refl =>
    have epoch : ((Cache.ofLimits limits shared).level k).epoch = 0 := by
      rw [level_ofLimits hk]
    exact ⟨.nil, epoch, Nat.le_refl 0, fun n _ hlt => absurd hlt (Nat.not_lt_zero n), fun _ => rfl⟩
  | move m h ha hn ih => exact ih.move (EpochsPaced.of_reach hk h.reach) ha hn

end Follows

end

/-! ## A reset that is left alone -/

section

variable {Memory : Type}

/-- Callbacks whose answers fit, those of level `k`'s clock being the readings of `σ`; `reads`
counts how many it has given. -/
structure Clocked (σ : Nat → Nat) (k : Nat) (O : Outside Memory Query Reply)
    (reads : Memory → Nat) : Prop where
  fits    : ∀ mem (q : Query), q.fits (O mem q).1 = true
  reading : ∀ mem, (O mem (.clock k)).1 = .reading (σ (reads mem))
  read    : ∀ mem, reads (O mem (.clock k)).2 = reads mem + 1
  other   : ∀ mem q, q ≠ .clock k → reads (O mem q).2 = reads mem

/-- A reset of level `k` has come back, with the reading in place `j` stored. -/
structure Stored (σ : Nat → Nat) (k j : Nat) (reads : Memory → Nat) (mem : Memory) (c : Cache)
    (f : Frame) : Prop where
  returned : f = .over (.reading (σ j))
  epoch    : (c.level k).epoch = σ j
  free     : (c.level k).resetting = false
  read     : reads mem = j + 1

variable {σ : Nat → Nat} {k j e previous n : Nat} {O : Outside Memory Query Reply}
  {reads : Memory → Nat} {mem : Memory} {c : Cache}

theorem Clocked.closes (hO : Clocked σ k O reads) : Closes O reads where
  settles := fun mem s => Query.settles_of_fits (hO.fits mem (.close s))
  reads := fun mem s => hO.other mem (.close s) nofun

theorem Clocked.isShared (hO : Clocked σ k O reads) (mem : Memory) :
    (∃ b, (O mem .isShared).1 = .flag b) ∧ reads (O mem .isShared).2 = reads mem := by
  refine ⟨?_, hO.other mem .isShared nofun⟩
  have fits := hO.fits mem .isShared
  cases hr : (O mem .isShared).1 with
  | flag b => exact ⟨b, rfl⟩
  | _ => rw [hr] at fits; cases fits

theorem Clocked.resetShared (hO : Clocked σ k O reads) (mem : Memory) :
    (O mem .resetShared).1 = .done ∧ reads (O mem .resetShared).2 = reads mem := by
  refine ⟨?_, hO.other mem .resetShared nofun⟩
  have fits := hO.fits mem .resetShared
  cases hr : (O mem .resetShared).1 with
  | done => rfl
  | _ => rw [hr] at fits; cases fits

theorem resume_clock_of_lt (h : previous < n) :
    program.resume c (.readingClock k previous) (.reading n) =
      (c.modify k fun l => { l with epoch := n }, .sweeping k n, [.advanced n]) := if_pos h

theorem resume_clock_of_le (h : n ≤ previous) :
    program.resume c (.readingClock k previous) (.reading n) = (c, .readingClock k previous, []) :=
  if_neg (Nat.not_lt.mpr h)

theorem begin_reset (keepers : 0 < c.keepers) (hk : k < c.depth) :
    Frame.begin c (.reset k) = ({ c with keepers := c.keepers + 1 }, .reset k) := by
  simp only [Frame.begin, Frame.onFactory, keepers, hk, decide_true, Bool.and_self, if_true]

theorem epoch_turn (b : Bool) :
    ((c.modify k fun l => { l with resetting := b }).level k).epoch = (c.level k).epoch := by
  refine level_modify_of (g := Level.epoch) c ?_ k k
  exact fun _ => rfl

/-- With the epoch stored, what is idle is removed, and the reset comes back. -/
theorem leads_sweeping (hO : Closes O reads) (hk : k < c.depth) (epoch : (c.level k).epoch = σ j)
    (read : reads mem = j + 1) :
    program.Leads O (.sweeping k (σ j)) c mem (Stored σ k j reads) := by
  have sweep : Ends O reads (.pool k (.start .removeIdle)) c mem := ends_of_quiet hO rfl
  refine .sub rfl (sweep.imp ?_)
  rintro mem' c' g ⟨⟨r, ended, settles⟩, kept, same⟩
  have level : ((c'.modify k fun l => { l with resetting := false }).level k) =
      { c'.level k with resetting := false } := by
    rw [level_modify, if_pos ⟨rfl, kept.depth ▸ hk⟩]
  have stored : Stored σ k j reads mem' (c'.modify k fun l => { l with resetting := false })
      (.over (.reading (σ j))) :=
    ⟨rfl, by rw [level]; exact (kept.epoch k hk).trans epoch, by rw [level], same.trans read⟩
  refine ⟨r, _, ended, rfl, ?_⟩
  cases r with
  | done | refused => exact .here stored
  | _ => cases settles

/-- **The clock is read until a reading passes the epoch.** The readings left until then become
fewer. -/
theorem leads_readingClock (hO : Clocked σ k O reads) (hk : k < c.depth)
    (first : FirstPast σ previous (reads mem) j) :
    program.Leads O (.readingClock k previous) c mem (Stored σ k j reads) := by
  obtain ⟨left, hj⟩ := Nat.exists_eq_add_of_le first.le
  induction left generalizing mem with
  | zero =>
    have resumed := resume_clock_of_lt (c := c) (k := k) first.passes
    refine .ask rfl ?_
    rw [hO.reading, ← (show j = reads mem from hj), resumed]
    refine leads_sweeping hO.closes ?_ ?_ ?_
    · rw [depth_modify]
      exact hk
    · rw [level_modify, if_pos ⟨rfl, hk⟩]
    · rw [hO.read, hj]
  | succ left ih =>
    have resumed := resume_clock_of_le (c := c) (k := k)
      (first.first (reads mem) (Nat.le_refl _) (by omega))
    refine .ask rfl ?_
    rw [hO.reading, resumed]
    refine ih ⟨?_, first.passes, ?_⟩ ?_
    · rw [hO.read]
      omega
    · rw [hO.read]
      exact fun n hn hlt => first.first n (by omega) hlt
    · rw [hO.read]
      omega

/-- A shared connection is reset first, if there is one. -/
theorem leads_askingShared (hO : Clocked σ k O reads) (hk : k < c.depth)
    (first : FirstPast σ (c.level k).epoch (reads mem) j) :
    program.Leads O (.askingShared k) c mem (Stored σ k j reads) := by
  have reading : ∀ mem', reads mem' = reads mem →
      program.Leads O (.readingClock k (c.level k).epoch) c mem' (Stored σ k j reads) :=
    fun mem' same => leads_readingClock hO hk (same ▸ first)
  obtain ⟨⟨b, hb⟩, same⟩ := hO.isShared mem
  refine .ask rfl ?_
  rw [hb]
  cases b with
  | false => exact reading _ same
  | true =>
    obtain ⟨done, same'⟩ := hO.resetShared (O mem .isShared).2
    refine .ask rfl ?_
    rw [done]
    exact reading _ (same'.trans same)

/-- Where a reset goes that gets its turn. -/
theorem leads_turn {G : Memory → Cache → Frame → Prop} (free : (c.level k).resetting = false)
    (h : program.Leads O
      (if c.shared && c.innermost k then .askingShared k else .readingClock k (c.level k).epoch)
      (c.modify k fun l => { l with resetting := true }) mem G) :
    program.Leads O (.reset k) c mem G := by
  have need : program.need c (.reset k) = .step := by
    show (if (c.level k).resetting = true then Need.wait else Need.step) = Need.step
    rw [free]
    rfl
  exact .step need fun _ => h

/-- Where a reset goes that a user asks for, while there are references to the factory. -/
theorem leads_asked {G : Memory → Cache → Frame → Prop} (keepers : 0 < c.keepers) (hk : k < c.depth)
    (h : program.Leads O (.reset k) { c with keepers := c.keepers + 1 } mem G) :
    program.Leads O (.call (.reset k)) c mem G := by
  refine .step rfl fun t => ?_
  show program.Leads O (Frame.begin c (.reset k)).2 (Frame.begin c (.reset k)).1 mem G
  rw [begin_reset keepers hk]
  exact h

/-- A reset that gets its turn. -/
theorem leads_reset (hO : Clocked σ k O reads) (hk : k < c.depth)
    (free : (c.level k).resetting = false)
    (first : FirstPast σ (c.level k).epoch (reads mem) j) :
    program.Leads O (.reset k) c mem (Stored σ k j reads) := by
  have depth : k < (c.modify k fun l => { l with resetting := true }).depth := by
    rw [depth_modify]
    exact hk
  refine leads_turn free ?_
  split
  · rw [← epoch_turn true] at first
    exact leads_askingShared hO depth first
  · exact leads_readingClock hO depth first

/-- **A reset stores the first reading that passes the epoch**, and has read up to that one. -/
theorem leads_call_reset (hO : Clocked σ k O reads) (keepers : 0 < c.keepers) (hk : k < c.depth)
    (free : (c.level k).resetting = false)
    (first : FirstPast σ (c.level k).epoch (reads mem) j) :
    program.Leads O (.call (.reset k)) c mem (Stored σ k j reads) :=
  leads_asked keepers hk (leads_reset hO hk free first)

/-! ## A reset that nothing lets pass -/

/-- The frames of a reset of level `k` that has not passed the epoch yet. -/
inductive Awaits (k : Nat) (c : Cache) : Frame → Prop
  | call (keepers : 0 < c.keepers) (hk : k < c.depth) : Awaits k c (.call (.reset k))
  | reset : Awaits k c (.reset k)
  | asking : Awaits k c (.askingShared k)
  | shared : Awaits k c (.resettingShared k)
  | clock : Awaits k c (.readingClock k (c.level k).epoch)

/-- A reset on thread `i` has not passed the epoch yet, and no reading to come does. -/
structure ResetStuck (σ : Nat → Nat) (k : Nat) (reads : Memory → Nat) (i : Nat) (below : List Frame)
    (mem : Memory) (w : World Cache Frame) : Prop where
  top  : ∃ f, w.stack i = f :: below ∧ Awaits k w.shared f
  none : ∀ j, reads mem ≤ j → σ j ≤ (w.shared.level k).epoch

variable {i : Nat} {w : World Cache Frame} {f f' : Frame} {below : List Frame} {c' : Cache}
  {mem' : Memory}

/-- It stays so as long as the epoch stays, however much is read. -/
theorem ResetStuck.goOn (h : ResetStuck σ k reads i below mem w) (hst : w.stack i = f :: below)
    (hf' : Awaits k c' f') (epoch : (c'.level k).epoch = (w.shared.level k).epoch)
    (hr : reads mem ≤ reads mem') :
    ResetStuck σ k reads i below mem' (w.update i c' (f' :: below)) where
  top := ⟨f', World.stack_update_self (World.lt_length_of_stack hst) .., hf'⟩
  none := fun j hj => epoch ▸ h.none j (hr.trans hj)

/-- **A reset that no reading lets pass goes on reading.** -/
theorem ResetStuck.alone (hO : Clocked σ k O reads) (h : ResetStuck σ k reads i below mem w)
    {t : Moment} {y : Memory × World Cache Frame} (ha : program.alone O i t (mem, w) = some y) :
    ResetStuck σ k reads i below y.1 y.2 := by
  obtain ⟨f, hst, hf⟩ := h.top
  cases hf with
  | call keepers hk =>
    have step : program.step t w.shared (.call (.reset k)) =
        ({ w.shared with keepers := w.shared.keepers + 1 }, .reset k, []) := by
      show ((Frame.begin w.shared (.reset k)).1, (Frame.begin w.shared (.reset k)).2, _) = _
      rw [begin_reset keepers hk]
    rw [Program.alone_step hst rfl, step] at ha
    cases ha
    exact h.goOn hst .reset rfl (Nat.le_refl _)
  | reset =>
    cases hr : (w.shared.level k).resetting with
    | true =>
      have need : program.need w.shared (.reset k) = .wait := if_pos hr
      simp only [Program.alone, Program.status, hst, need] at ha
      cases ha
    | false =>
      have need : program.need w.shared (.reset k) = .step := if_neg (by simp [hr])
      rw [Program.alone_step hst need] at ha
      cases ha
      refine h.goOn hst ?_ (epoch_turn true) (Nat.le_refl _)
      show Awaits k _ (if w.shared.shared && w.shared.innermost k then .askingShared k
        else .readingClock k (w.shared.level k).epoch)
      split
      · exact .asking
      · rw [← epoch_turn true]
        exact .clock
  | asking =>
    obtain ⟨⟨b, hb⟩, same⟩ := hO.isShared mem
    rw [Program.alone_ask hst rfl, hb] at ha
    cases ha
    refine h.goOn hst ?_ ?_ (Nat.le_of_eq same.symm)
    · cases b with
      | false => exact .clock
      | true => exact .shared
    · cases b <;> rfl
  | shared =>
    obtain ⟨done, same⟩ := hO.resetShared mem
    rw [Program.alone_ask hst rfl, done] at ha
    cases ha
    exact h.goOn hst .clock rfl (Nat.le_of_eq same.symm)
  | clock =>
    have behind := h.none (reads mem) (Nat.le_refl _)
    rw [Program.alone_ask hst rfl, hO.reading, resume_clock_of_le behind] at ha
    cases ha
    refine h.goOn hst .clock rfl ?_
    rw [hO.read]
    exact Nat.le_succ _

/-- **It never comes back.** -/
theorem ResetStuck.not_returns (hO : Clocked σ k O reads) (h : ResetStuck σ k reads i below mem w) :
    ¬program.Comes O i (fun _ w' => ∃ e, w'.stack i = .over (.reading e) :: below) mem w := by
  refine Program.not_comes (fun h ha => h.alone hO ha) ?_ h
  rintro mem w h ⟨e, he⟩
  obtain ⟨f, hst, hf⟩ := h.top
  rw [hst] at he
  cases he
  cases hf

/-! ## Every reset of every run -/

/-- What becomes of a reset of level `k` on thread `i` that is left alone. -/
structure Draws (σ : Nat → Nat) (k : Nat) (O : Outside Memory Query Reply) (reads : Memory → Nat)
    (i : Nat) (below : List Frame) (mem : Memory) (w : World Cache Frame) : Prop where
  /-- It comes back exactly if some reading to come passes the epoch. -/
  returns : program.Comes O i (fun _ w' => ∃ e, w'.stack i = .over (.reading e) :: below) mem w ↔
    ∃ j, reads mem ≤ j ∧ (w.shared.level k).epoch < σ j
  /-- It comes back with the first one stored, and the readings up to that one used up. -/
  stores  : ∀ j, FirstPast σ (w.shared.level k).epoch (reads mem) j →
    program.Comes O i (fun mem' w' => w'.stack i = .over (.reading (σ j)) :: below ∧
      (w'.shared.level k).epoch = σ j ∧ (w'.shared.level k).resetting = false ∧
      reads mem' = j + 1) mem w

theorem draws (hO : Clocked σ k O reads) (hst : w.stack i = .call (.reset k) :: below)
    (keepers : 0 < w.shared.keepers) (hk : k < w.shared.depth)
    (free : (w.shared.level k).resetting = false) : Draws σ k O reads i below mem w := by
  have stores : ∀ j, FirstPast σ (w.shared.level k).epoch (reads mem) j →
      program.Comes O i (fun mem' w' => w'.stack i = .over (.reading (σ j)) :: below ∧
        (w'.shared.level k).epoch = σ j ∧ (w'.shared.level k).resetting = false ∧
        reads mem' = j + 1) mem w := by
    intro j first
    refine (leads_call_reset hO keepers hk free first w i below hst rfl).imp ?_
    rintro mem' w' ⟨f', hw', stored⟩
    refine ⟨?_, stored.epoch, stored.free, stored.read⟩
    rw [hw', World.stack_update_self (World.lt_length_of_stack hst), stored.returned]
  refine ⟨⟨fun returns => ?_, fun some => ?_⟩, stores⟩
  · by_contra none
    have behind : ∀ j, reads mem ≤ j → σ j ≤ (w.shared.level k).epoch := by
      intro j hj
      by_contra passes
      exact none ⟨j, hj, Nat.lt_of_not_le passes⟩
    exact ResetStuck.not_returns hO ⟨⟨_, hst, .call keepers hk⟩, behind⟩ returns
  · obtain ⟨j, first⟩ := exists_firstPast some
    refine (stores j first).imp ?_
    rintro mem' w' ⟨top, -⟩
    exact ⟨_, top⟩

end

/-- **Epochs are drawn from the clock.** Let level `k`'s clock give any readings whatever. In every
world that a run comes to from a fresh stack, whatever else its threads do:

* the readings that resets have stored are each the first, after the one stored before, that passes
  it; so none is stored twice and the epochs increase, and the level's epoch is the last of them;
* while no reset reads the clock, exactly the readings up to the last one stored are used up;
* and the next reset, left alone, comes back exactly if some reading not used up passes the epoch,
  and stores the first such reading. -/
theorem epochs_drawn (limits : List Limits) (shared : Bool) (σ : Nat → Nat) {k : Nat}
    (hk : k < limits.length) {R : Readings} {w : World Cache Frame}
    (h : program.Kept (Readings.note σ k) {} (World.init (.ofLimits limits shared)) R w) :
    Drawn σ R.stored ∧ R.stored.Pairwise (· > ·) ∧ (R.stored.map σ).Pairwise (· > ·) ∧
    (w.shared.level k).epoch = epochAfter σ R.stored ∧
    ((∀ f ∈ w.frames, ∀ previous, f ≠ .readingClock k previous) → R.read = unread R.stored) ∧
    ∀ {Memory : Type} (O : Outside Memory Query Reply) (reads : Memory → Nat), Clocked σ k O reads →
      ∀ mem i below, reads mem = R.read → w.stack i = .call (.reset k) :: below →
        0 < w.shared.keepers → (w.shared.level k).resetting = false →
        Draws σ k O reads i below mem w := by
  have follows := Follows.of_kept hk h
  obtain ⟨once, increasing⟩ := follows.drawn.increasing
  refine ⟨follows.drawn, once, increasing, follows.epoch, fun still => ?_, ?_⟩
  · refine follows.settled (List.flatMap_eq_nil_iff.mpr fun f hf => ?_)
    exact Frame.clocks_eq_nil (still f hf)
  · intro Memory O reads hO mem i below hread hst keepers free
    exact draws hO hst keepers (EpochsPaced.of_reach hk h.reach).range free

/-- A clock of which two readings are the same each time, and nothing else of note. -/
def coarse : Outside Nat Query Reply := fun n q =>
  match q with
  | .clock 0 => (.reading (n / 2), n + 1)
  | .clock _ => (.reading 0, n)
  | .connect => (.got 0, n)
  | .isOpen _ => (.flag true, n)
  | .isShared => (.flag false, n)
  | .close _ | .resetShared => (.done, n)
  | .file _ _ => (.file .released, n)

theorem clocked_coarse : Clocked (· / 2) 0 coarse id where
  fits := by
    intro n q
    cases q with
    | clock k => cases k <;> rfl
    | connect | isOpen | close | file | isShared | resetShared => rfl
  reading := fun _ => rfl
  read := fun _ => rfl
  other := by
    intro n q hq
    cases q with
    | clock k =>
      cases k with
      | zero => exact absurd rfl hq
      | succ k => rfl
    | connect | isOpen | close | file | isShared | resetShared => rfl

/-- One reset has got three readings, and the next one is about to start. -/
def secondReset : List (Move Op Reply) :=
  [.spawn, .enter 0 (.reset 0), .run 0 (.at 0), .run 0 (.at 0), .answer 0 (.reading 0),
    .answer 0 (.reading 0), .answer 0 (.reading 1), .run 0 (.at 0), .run 0 (.at 0), .run 0 (.at 0),
    .collect 0, .enter 0 (.reset 0)]

theorem epochs_drawn_secondReset : ∃ w,
    program.keep? (Readings.note (· / 2) 0) {} (World.init (.ofLimits [{}] false)) secondReset =
      some ({ read := 3, stored := [2] }, w) ∧
    (w.shared.level 0).epoch = 1 ∧
    program.Comes coarse 0 (fun n w' => w'.stack 0 = [.over (.reading 2)] ∧
      (w'.shared.level 0).epoch = 2 ∧ (w'.shared.level 0).resetting = false ∧ n = 5) 3 w := by
  have run : program.keep? (Readings.note (· / 2) 0) {} (World.init (.ofLimits [{}] false))
      secondReset = some ({ read := 3, stored := [2] }, _) := rfl
  obtain ⟨-, -, -, epoch, -, next⟩ :=
    epochs_drawn [{}] false (· / 2) (k := 0) (by decide) (Program.kept_of_keep? run)
  have draws := next coarse id clocked_coarse 3 0 [] rfl rfl (by decide) rfl
  have first : FirstPast (· / 2) 1 3 4 := ⟨by decide, by decide, fun n hn hlt => by omega⟩
  exact ⟨_, run, epoch, draws.stores 4 first⟩

end Lending.Cache
