import Lending.Proofs.Cache.Coupling
import Lending.Proofs.Cache.Ending

/-!
# Every session is closed once, and not used afterwards

What becomes of a remote session, through any number of levels over it: while it is pending at the
innermost level it has not been asked to close, and everything that is asked about it, and every
handle that leads to it, is of a session that is pending. Once the outermost factory and all handles
of users are gone, the levels go one after the other: with its factory and its handles a pool goes,
and what it had is given back to the next one.

* `pending_of_asked`, `exists_ledTo`: what is asked about, or lent, is pending.
* `not_closed_of_pending`: so it has not been asked to close.
* `drained`: what users have dropped, levels have emptied.
* `closed_once`: so every session is closed once, and not used afterwards.

A session is asked to close by a pool that evicts it, by a handle that was outdated or marked dirty,
or, through the levels above, by whatever gives such a handle back. Promised of these runs is that
nothing raises, as a raise may leave a session with nobody; that the remote side numbers its
sessions apart; and that no reference is given up while an operation works with it. Callbacks may
use every part of the stack meanwhile.
-/

namespace Lending.Cache

variable {k s t i : Nat} {limits : List Limits} {shared : Bool} {c c' : Cache}
  {w w' : World Cache Frame} {m : Move Op Reply} {notices : List Notice} {f f' : Frame}
  {D D₀ D' : Diary}

/-! ## What is asked about, and what is lent -/

/-- What is pending at a level leads to a remote session that is pending. -/
theorem exists_remoteBehind
    (hw : program.Kept Diary.note D₀ (World.init (.ofLimits limits shared)) D w) :
    ∀ {fuel k s : Nat}, k < limits.length → limits.length ≤ k + fuel → 0 < pending k s w →
      ∃ t, w.shared.remoteBehind fuel k s = some t ∧ 0 < pending w.shared.bottom t w := by
  have depth := depth_of_reach hw.reach
  intro fuel k s hk hd hp
  refine exists_remoteBehind_of (G := fun k s => 0 < pending k s w) ?_ (by omega) (by omega) hp
  intro k s pending inner
  have inner : k + 1 < limits.length := by omega
  have due : 0 < due k s w := Nat.lt_of_lt_of_le pending (Nat.le_add_right ..)
  have few := claims_add_due_le (k := k) (h := s) hw.reach
  have lent := (custody_le_one inner hw.reach s).2 (by omega)
  cases ht : (w.shared.handle (k + 1) s).target with
  | none =>
    have := due_of_returned inner hw ⟨lent, ht⟩
    omega
  | some t => exact ⟨t, rfl, pending_of_target ht⟩

/-- What a borrowing gets is pending. -/
theorem pending_of_lent {epoch : Nat} (hw : program.Reach (World.init c) w)
    (ha : program.apply w m = some (w', notices))
    (hm : program.heard w m = some (.borrowing k epoch, .got s)) : 0 < pending k s w := by
  refine keeping_of_lent hw ha hm ?_
  rw [Frame.pends_pool]
  exact List.count_pos_iff.mpr (List.mem_singleton.mpr rfl)

/-- **What is lent, at whatever level, leads to a remote session that is pending.** -/
theorem exists_ledTo {epoch : Nat}
    (hw : program.Kept Diary.note D₀ (World.init (.ofLimits limits shared)) D w)
    (ha : program.apply w m = some (w', notices))
    (hm : program.heard w m = some (.borrowing k epoch, .got s)) (hk : k < limits.length) :
    ∃ t, ledTo w m = some t ∧ 0 < pending w.shared.bottom t w := by
  have depth := depth_of_reach hw.reach
  unfold ledTo
  rw [hm]
  exact exists_remoteBehind hw hk (by omega) (pending_of_lent hw.reach ha hm)

/-- A question is passed on to the session behind a handle. -/
theorem Frame.Steps.of_remote {moment : Moment} {q : Query}
    (hs : Frame.Steps moment c f c' (.remote q)) :
    ∃ j h s, c.innermost j = true ∧ (f = .probe j h ∨ ∃ op, f = .forward j h op) ∧
      (c.handle j h).target = some s ∧ c' = c ∧ (q = .isOpen s ∨ ∃ op, q = .file s op) := by
  generalize hg : (Frame.remote q : Frame) = g at hs
  cases hs with
  | @probe j h s ht =>
    split at hg
    · rename_i hi
      cases hg
      exact ⟨j, h, s, hi, Or.inl rfl, ht, rfl, Or.inl rfl⟩
    · cases hg
  | @forward j h s op ht =>
    split at hg
    · rename_i hi
      cases hg
      exact ⟨j, h, s, hi, Or.inr ⟨op, rfl⟩, ht, rfl, Or.inr ⟨op, rfl⟩⟩
    · cases hg
  | letGo | factoryGone =>
    unfold Frame.releaseLevel at hg
    dsimp only at hg
    split at hg <;> cases hg
  | onFactory ho => cases ho <;> cases hg
  | dropHandle | poolGone | reset => split at hg <;> cases hg
  | unavailable | onHandle | leave | last | markDirty | pool | letGoRemote | borrow
  | probeReleased | forwardReleased | alreadyReleased | close | putBack => cases hg

theorem Frame.Resumed.not_remote {r : Reply} {q : Query} :
    ¬ Frame.Resumed c f r c' (.remote q) := by
  intro hr
  generalize hg : (Frame.remote q : Frame) = g at hr
  cases hr with
  | poolWent | factoryWent =>
    unfold Frame.afterLast at hg
    split at hg
    · dsimp only at hg
      split at hg <;> cases hg
    · cases hg
  | within | pool | lent | notLent | remote | closeRaised | closed | retired | released
  | poolEmptied | factoryEmptied | resetRaised | foundShared | notShared | sharedReset | advanced
  | readAgain | swept => cases hg

/-- A move that puts such a frame on a stack has just passed the question on. -/
theorem exists_of_put_remote {q : Query} (hw : program.Reach (World.init c) w)
    (ha : program.apply w m = some (w', notices)) (hp : Program.put w' m = some (.remote q)) :
    ∃ f, f ∈ w.frames ∧ ∃ moment, Frame.Steps moment w.shared f w'.shared (.remote q) := by
  have put : ∀ {i : Nat} {c' : Cache} {f' : Frame} {below : List Frame} {m : Move Op Reply},
      i < w.threads.length →
      Program.touched (w.update i c' (f' :: below)) m =
        some (i, ((w.update i c' (f' :: below)).stack i).tail.length) →
      Program.put (w.update i c' (f' :: below)) m = some (.remote q) → f' = .remote q := by
    intro i c' f' below m hi hm hp
    exact Option.some.inj ((Program.put_update hi hm).symm.trans hp)
  cases Program.effect_of_apply ha with
  | spawn | expire | collect => cases hp
  | enter op hi => cases put hi rfl hp
  | @step i moment f f' below c' _ hst hne he =>
    obtain rfl := put (World.lt_length_of_stack hst) rfl hp
    exact ⟨f, World.mem_frames_of_stack hst, moment, Frame.steps hne he⟩
  | @descend i moment f g below hst hne =>
    obtain rfl := put (World.lt_length_of_stack hst) rfl hp
    have started := Frame.started_of_reach hw f (World.mem_frames_of_stack hst)
    cases Frame.needs started hne with
    | within ho => cases ho
  | @ascend i moment f g g' x rest r c' _ hst hne hg he =>
    obtain rfl := put (World.lt_length_of_stack hst) rfl hp
    exact absurd (Frame.resumed (Or.inr ⟨x, hg⟩) he) Frame.Resumed.not_remote
  | @answer i r f f' below q' c' _ hst hne he =>
    obtain rfl := put (World.lt_length_of_stack hst) rfl hp
    exact absurd (Frame.resumed (Or.inl ⟨q', hne⟩) he) Frame.Resumed.not_remote

/-- **What is asked about is pending**, but for what is asked to close. -/
theorem pending_of_asked {q : Query} (h0 : 0 < limits.length)
    (hw : program.Reach (World.init (.ofLimits limits shared)) w)
    (ha : program.apply w m = some (w', notices)) (hq : askedBy w' m = some q)
    (about : q = .isOpen s ∨ ∃ op, q = .file s op) : 0 < pending w'.shared.bottom s w' := by
  have start : (Cache.ofLimits limits shared).depth = limits.length := depth_ofLimits limits shared
  have depth : w.shared.depth = limits.length := (stands_of_reach hw).1.trans start
  have depth' : w'.shared.depth = limits.length := (depth_of_apply ha).trans depth
  have bottom : ∀ {j : Nat}, j < limits.length → w'.shared.innermost j = true →
      w'.shared.bottom = j := by
    intro j hj hi
    have := innermost_iff.mp hi
    unfold bottom
    omega
  have range := Frame.inRange_of_reach (start.symm ▸ h0) hw
  have range' := Frame.inRange_of_reach (start.symm ▸ h0) (hw.move m ha)
  rw [start] at range range'
  obtain ⟨f, hp, hf⟩ := Option.bind_eq_some_iff.mp hq
  have need : f.need w'.shared = .ask q := by
    split at hf
    · cases hf
      assumption
    · cases hf
  have mem : f ∈ w'.frames := by
    obtain ⟨p, -, top⟩ := Option.bind_eq_some_iff.mp hp
    exact World.mem_frames.mpr ⟨p.1, List.mem_of_mem_head? top⟩
  cases f with
  | pool j x =>
    obtain ⟨q', asks, answered⟩ := Frame.exists_ask_of_need need
    have innermost := Frame.innermost_of_ask answered
    have stale : q' = .isStale s := by
      rcases about with rfl | ⟨op, rfl⟩ <;> cases q' <;>
        simp only [Frame.ofQuery, innermost, if_true] at answered <;> cases answered
      rfl
    subst stale
    obtain ⟨deadline, rfl⟩ := Pool.Call.eq_checking_of_asks asks
    have one := World.le_total (Frame.pends j s) mem
    rw [Frame.pends_pool] at one
    simp only [Pool.Call.pends, List.count_singleton_self] at one
    rw [bottom (range' _ mem) innermost]
    unfold pending keeping
    omega
  | remote q' =>
    cases need
    obtain ⟨f, from', moment, steps⟩ := exists_of_put_remote hw ha hp
    obtain ⟨j, h, t, innermost, passed, target, same, asked⟩ := steps.of_remote
    have here : j < limits.length := by
      rcases passed with rfl | ⟨op, rfl⟩
      · exact range _ from'
      · exact range _ from'
    obtain rfl : t = s := by
      rcases about with rfl | ⟨op, rfl⟩ <;> rcases asked with asked | ⟨op, asked⟩ <;> cases asked
      · rfl
      · rfl
    rw [bottom here (same ▸ innermost)]
    exact pending_of_target (same ▸ target)
  | closing j t =>
    simp only [Frame.need] at need
    split at need <;> cases need
    rcases about with about | ⟨op, about⟩ <;> cases about
  | askingShared | resettingShared | readingClock =>
    cases need
    rcases about with about | ⟨op, about⟩ <;> cases about
  | reset j =>
    simp only [Frame.need] at need
    split at need <;> cases need
  | call | within | borrow | borrowing | probe | forward | giveBack | retire | dropHandle
  | releasing | letGo | dropPool | poolGone | dropFactory | factoryGone | thenPool | thenFactory
  | sweeping | «over» | aborted => cases need

/-! ## What is written down -/

/-- No session is connected twice. -/
theorem nodup_connected (hw : program.Kept Diary.pledged {} (World.init c) D w) :
    D.connected.Nodup := by
  induction hw with
  | refl => exact List.nodup_nil
  | @move D D' w w' m notices hw ha hn ih =>
    obtain ⟨-, -, fresh, noted⟩ := Diary.of_pledged hn
    obtain ⟨-, rfl⟩ := Diary.of_note noted
    refine List.nodup_append.mpr ⟨ih, ?_, ?_⟩
    · exact List.nodup_iff_count_le_one.mpr fun s => count_bornBy_le _ s w m
    · rintro s old t new rfl
      exact fresh s new old

/-- No session is lost. -/
theorem lost_eq_nil (h0 : 0 < c.depth) (hw : program.Kept Diary.pledged {} (World.init c) D w) :
    D.lost = [] := by
  induction hw with
  | refl => rfl
  | @move D D' w w' m notices hw ha hn ih =>
    obtain ⟨well, -, -, noted⟩ := Diary.of_pledged hn
    obtain ⟨-, rfl⟩ := Diary.of_note noted
    have depth := (stands_of_reach hw.reach).1
    have none : strayBy w m w.shared.bottom = [] := by
      unfold strayBy
      split
      · rename_i j deadline s message hm
        refine if_neg fun hj => ?_
        subst hj
        cases Program.hears_of_apply ha hm with
        | result _ _ hg =>
          have need : (Frame.pool w.shared.bottom (.checking deadline s)).need w.shared = _ := hg
          obtain ⟨q, -, answered⟩ := Frame.exists_sub_of_need need
          have inner := Frame.inner_of_sub answered
          unfold bottom at inner
          omega
        | answer hst hne =>
          have need : (Frame.pool w.shared.bottom (.checking deadline s)).need w.shared = _ := hne
          obtain ⟨q', asks, answered⟩ := Frame.exists_ask_of_need need
          cases asks
          have innermost := Frame.innermost_of_ask answered
          simp only [Frame.ofQuery, innermost, if_true] at answered
          cases answered
          simp [answersWell, Program.status_of_ask (P := program) hst hne, Query.fits] at well
      · rfl
    show D.lost ++ strayBy w m w.shared.bottom = []
    rw [ih, none]
    rfl

section

variable (h0 : 0 < limits.length)
  (hw : program.Kept Diary.pledged {} (World.init (.ofLimits limits shared)) D w)

include h0 hw

/-- A session connected is pending or has been asked to close. -/
theorem pending_add_closed (s : Nat) :
    pending w.shared.bottom s w + D.log.count (.asked (.close s)) = D.connected.count s := by
  have start : (Cache.ofLimits limits shared).depth = limits.length := depth_ofLimits limits shared
  have bottom : w.shared.bottom = limits.length - 1 := by
    unfold bottom
    rw [(stands_of_reach hw.reach).1, start]
  have kept := pending_of_kept (k := w.shared.bottom) (s := s) (by omega) (kept_of_pledged hw)
    (keeping_init (by omega) s _)
  rw [lost_eq_nil (start.symm ▸ h0) hw] at kept
  simpa using kept

/-- **What is pending has not been asked to close**, and nothing is asked to close twice. -/
theorem not_closed_of_pending (s : Nat) :
    D.log.count (.asked (.close s)) ≤ 1 ∧
      (0 < pending w.shared.bottom s w → .asked (.close s) ∉ D.log) := by
  have law := pending_add_closed h0 hw s
  have once := List.nodup_iff_count_le_one.mp (nodup_connected hw) s
  refine ⟨by omega, fun hp mem => ?_⟩
  have := List.count_pos_iff.mpr mem
  omega

end

/-- **What is lent, at whatever level, leads to a session that has not been asked to close.** -/
theorem not_closed_of_lent {epoch : Nat} (h0 : 0 < limits.length)
    (hw : program.Kept Diary.pledged {} (World.init (.ofLimits limits shared)) D w)
    (ha : program.apply w m = some (w', notices))
    (hm : program.heard w m = some (.borrowing k epoch, .got s)) :
    ∃ t ∈ D.connected, ledTo w m = some t ∧ .asked (.close t) ∉ D.log := by
  have start : (Cache.ofLimits limits shared).depth = limits.length := depth_ofLimits limits shared
  have range := Frame.inRange_of_reach (start.symm ▸ h0) hw.reach
  rw [start] at range
  have hk : k < limits.length := range _ (Program.mem_frames_of_heard hm)
  obtain ⟨t, led, some⟩ := exists_ledTo (kept_of_pledged hw) ha hm hk
  have law := pending_add_closed h0 hw t
  exact ⟨t, List.count_pos_iff.mp (by omega), led, (not_closed_of_pending h0 hw t).2 some⟩

/-- What is asked about has not been asked to close before. -/
theorem not_closed_of_askedBy {q : Query} (h0 : 0 < limits.length)
    (hw : program.Kept Diary.pledged {} (World.init (.ofLimits limits shared)) D w)
    (ha : program.apply w m = some (w', notices)) (hn : D.pledged w m w' = some D')
    (hq : askedBy w' m = some q) (about : (Event.asked q).about = some s) :
    .asked (.close s) ∉ D.log := by
  have law := not_closed_of_pending h0 (hw.move m ha hn) s
  obtain ⟨-, rfl⟩ := Diary.of_note (Diary.of_pledged hn).2.2.2
  have log : (D.write w m w').log = .asked q :: ((ledTo w m).toList.map .lent ++ D.log) := by
    simp [Diary.write, hq]
  rw [log] at law
  have pending : (q = .isOpen s ∨ ∃ op, q = .file s op) → .asked (.close s) ∉ D.log :=
    fun hq' mem => law.2 (pending_of_asked h0 hw.reach ha hq hq') (by simp [mem])
  cases q with
  | isOpen t =>
    cases about
    exact pending (Or.inl rfl)
  | file t op =>
    cases about
    exact pending (Or.inr ⟨op, rfl⟩)
  | close t =>
    cases about
    intro mem
    have := List.count_pos_iff.mpr mem
    have once := law.1
    rw [List.count_cons_self, List.count_append] at once
    omega
  | connect | isShared | resetShared | clock => cases about

/-- **Nothing is asked about a session, and it is not lent, once it is asked to close.** -/
theorem pairwise_log (h0 : 0 < limits.length)
    (hw : program.Kept Diary.pledged {} (World.init (.ofLimits limits shared)) D w) :
    D.log.Pairwise fun later earlier =>
      ∀ s, earlier = .asked (.close s) → later.about ≠ some s := by
  induction hw with
  | refl => exact List.Pairwise.nil
  | @move D D' w w' m notices hw ha hn ih =>
    have asked := fun q s => not_closed_of_askedBy (q := q) (s := s) h0 hw ha hn
    obtain ⟨-, rfl⟩ := Diary.of_note (Diary.of_pledged hn).2.2.2
    have lent : ((ledTo w m).toList.map Event.lent ++ D.log).Pairwise fun later earlier =>
        ∀ s, earlier = .asked (.close s) → later.about ≠ some s := by
      cases hl : ledTo w m with
      | none => exact ih
      | some t =>
        refine List.pairwise_cons.mpr ⟨?_, ih⟩
        rintro e mem s rfl about
        cases about
        have heard := hl
        unfold ledTo at heard
        split at heard
        · rename_i hm
          obtain ⟨t, -, led, open'⟩ := not_closed_of_lent h0 hw ha hm
          cases hl.symm.trans led
          exact open' mem
        · cases heard
    show ((askedBy w' m).toList.map Event.asked ++ _).Pairwise _
    cases hq : askedBy w' m with
    | none => exact lent
    | some q =>
      refine List.pairwise_cons.mpr ⟨?_, lent⟩
      rintro e mem s rfl about
      have old : .asked (.close s) ∈ D.log := by simpa using mem
      exact asked q s hq about old

/-! ## What the levels empty -/

section

variable (hw : program.Kept Diary.pledged D₀ (World.init (.ofLimits limits shared)) D w)
  (quiet : ∀ i, w.stack i = [])

include hw quiet

/-- A level that nobody refers to, and whose handles are gone, is empty. -/
theorem drained_of_unreferred (hk : k < limits.length) (unreferred : w.shared.referred k = 0)
    (gone : (w.shared.level k).handles.all (·.gone) = true) :
    (w.shared.level k).poolAlive = false ∧
      (w.shared.level k).pool.idle ++ (w.shared.level k).onLoan = [] := by
  have kept := factory_kept hk hw.reach
  rw [unreferred, World.tally_eq_zero quiet rfl] at kept
  have factory : (w.shared.level k).factoryAlive = false := by
    by_contra alive
    simp [present, alive] at kept
  have dead : (w.shared.level k).poolAlive = false := by
    by_contra alive
    have referred := not_abandoned hk hw (by simpa using alive)
    simp [Level.abandoned, factory, gone] at referred
  refine ⟨dead, List.append_eq_nil_iff.mpr ⟨?_, ?_⟩⟩
  · rcases idle_of_dead hk hw dead with empty | ⟨i, f, below, hst, -⟩
    · exact empty
    · cases (quiet i).symm.trans hst
  · refine List.filterMap_eq_nil_iff.mpr fun x hx => ?_
    obtain ⟨h, hh, rfl⟩ := List.mem_iff_getElem.mp hx
    have here : w.shared.handle k h = (w.shared.level k).handles[h] := by simp [handle, hh]
    exact here ▸ target_of_gone hk hw.reach (here ▸ List.all_eq_true.mp gone _ hx)

/-- **What the users have dropped, the levels have emptied**: once the outermost factory and all
handles of the users are gone, no pool is alive, and none has a session. -/
theorem drained (dropped : w.shared.keepers = 0)
    (gone : (w.shared.level 0).handles.all (·.gone) = true) (hk : k < limits.length) :
    (w.shared.level k).poolAlive = false ∧
      (w.shared.level k).pool.idle ++ (w.shared.level k).onLoan = [] := by
  induction k with
  | zero =>
    refine drained_of_unreferred hw quiet hk ?_ gone
    simp [referred, dropped]
  | succ k ih =>
    obtain ⟨dead, empty⟩ := ih (by omega)
    refine drained_of_unreferred hw quiet hk ?_ (List.all_eq_true.mpr fun x hx => ?_)
    · simp [referred, dead]
    · -- a handle that is not gone is one that the level above has
      obtain ⟨h, hh, rfl⟩ := List.mem_iff_getElem.mp hx
      have here : w.shared.handle (k + 1) h = (w.shared.level (k + 1)).handles[h] := by
        simp [handle, hh]
      by_contra alive
      have has := custody_of_lent hk (kept_of_pledged hw) hh (by rw [here]; simpa using alive)
      have none : custody k h w = _ := keeping_of_quiet quiet k h (Frame.has k h)
      rw [empty, List.count_nil] at none
      omega

end

/-- **Every session is closed once, and not used afterwards.** Take any stack and any run, whatever
the remote side fails at, as long as nothing raises, no session is connected twice, and no reference
is given up that an operation works with. Then:

* once a session is asked to close it is not asked about again, and no level lends what leads to it;
  so it is asked to close at most once;
* whatever a level lends leads to a session that is connected and has not been asked to close;
* when the users have given up the outermost factory and all its handles, and nothing is under way,
  every session that was ever connected has been asked to close, once. -/
theorem closed_once (h0 : 0 < limits.length)
    (h : program.Kept Diary.pledged {} (World.init (.ofLimits limits shared)) D w) :
    (D.log.Pairwise fun later earlier =>
      ∀ s, earlier = .asked (.close s) → later.about ≠ some s) ∧
    (∀ s, D.log.count (.asked (.close s)) ≤ 1) ∧
    (∀ m w' notices k epoch n, program.apply w m = some (w', notices) →
      program.heard w m = some (.borrowing k epoch, .got n) →
      ∃ s ∈ D.connected, ledTo w m = some s ∧ .asked (.close s) ∉ D.log) ∧
    (w.shared.keepers = 0 → (w.shared.level 0).handles.all (·.gone) = true →
      (∀ i, w.stack i = []) →
      ∀ s ∈ D.connected, D.log.count (.asked (.close s)) = 1) := by
  refine ⟨pairwise_log h0 h, fun s => (not_closed_of_pending h0 h s).1,
    fun _ _ _ _ _ _ ha hm => not_closed_of_lent h0 h ha hm,
    fun dropped gone quiet s connected => ?_⟩
  have start : (Cache.ofLimits limits shared).depth = limits.length := depth_ofLimits limits shared
  have depth : w.shared.depth = limits.length := (stands_of_reach h.reach).1.trans start
  have inner : w.shared.bottom < limits.length := by
    unfold bottom
    omega
  have empty := (drained h quiet dropped gone inner).2
  have law := pending_add_closed h0 h s
  have none : pending w.shared.bottom s w = _ :=
    keeping_of_quiet quiet _ s (Frame.pends w.shared.bottom s)
  rw [empty, List.count_nil] at none
  have one := List.count_eq_one_of_mem (nodup_connected h) connected
  omega

/-- Two levels and two sessions. One handle is given back and dropped, then the factory is left; the
other handle, still in use, is dropped last. With it both levels go, and closing one of the sessions
fails. -/
def factoryFirst : List (Move Op Reply) :=
  List.flatten [
    [.spawn, .enter 0 .getSession], List.replicate 8 (.run 0 (.at 0)),
    [.answer 0 (.got 7)], List.replicate 3 (.run 0 (.at 0)),
    [.collect 0, .enter 0 .leave, .run 0 (.at 0), .collect 0],
    [.enter 0 .getSession], List.replicate 8 (.run 0 (.at 0)),
    [.answer 0 (.got 8)], List.replicate 3 (.run 0 (.at 0)),
    [.collect 0, .enter 0 .leave, .run 0 (.at 0), .collect 0],
    [.enter 0 (.close 0)], List.replicate 6 (.run 0 (.at 0)), [.collect 0],
    [.enter 0 (.drop 0)], List.replicate 5 (.run 0 (.at 0)), [.collect 0],
    [.enter 0 .leave], List.replicate 13 (.run 0 (.at 0)), [.collect 0],
    [.enter 0 (.isOpen 1)], List.replicate 4 (.run 0 (.at 0)),
    [.answer 0 (.flag true), .run 0 (.at 0), .collect 0],
    [.enter 0 (.drop 1)], List.replicate 25 (.run 0 (.at 0)),
    [.answer 0 .done, .answer 0 (.refused .released)], List.replicate 11 (.run 0 (.at 0)),
    [.collect 0]]

/-- What `factoryFirst` comes to. -/
def allClosed : World Cache Frame where
  shared :=
    { levels :=
        [{ pool :=
             { allocated := 1, capacity := 2
               counters := { acquired := 2, released := 2, created := 2, evicted := 1 } }
           factoryAlive := false, poolAlive := false
           handles :=
             [{ target := none, epoch := 0, gone := true },
              { target := none, epoch := 0, gone := true }] },
         { pool :=
             { capacity := 2
               counters := { acquired := 2, released := 2, created := 2, evicted := 2 } }
           factoryAlive := false, poolAlive := false
           handles :=
             [{ target := none, epoch := 0, gone := true },
              { target := none, epoch := 0, gone := true }] }]
      keepers := 0 }
  threads := [[]]

/-- What was written down on the way. -/
def allClosedDiary : Diary where
  connected := [7, 8]
  log :=
    [.asked (.close 8), .asked (.close 7), .asked (.isOpen 8), .lent 8, .lent 8, .asked .connect,
      .lent 7, .lent 7, .asked .connect]

set_option maxRecDepth 2048 in
/-- Both sessions are closed, and neither was used after that. -/
theorem closed_once_factoryFirst :
    program.keep? Diary.pledged {} (World.init (.ofLimits [{ size := 2 }, { size := 2 }] false))
      factoryFirst = some (allClosedDiary, allClosed) ∧
    (0 < 2 ∧ allClosed.shared.keepers = 0 ∧
      (allClosed.shared.level 0).handles.all (·.gone) = true ∧ ∀ i, allClosed.stack i = []) ∧
    (allClosedDiary.log.Pairwise fun later earlier =>
      ∀ s, earlier = .asked (.close s) → later.about ≠ some s) ∧
    ∀ s ∈ [7, 8], allClosedDiary.log.count (.asked (.close s)) = 1 := by
  have run : program.keep? Diary.pledged {}
      (World.init (.ofLimits [{ size := 2 }, { size := 2 }] false)) factoryFirst =
      some (allClosedDiary, allClosed) := rfl
  have quiet : ∀ i, allClosed.stack i = [] := by
    intro i
    cases i <;> rfl
  obtain ⟨order, -, -, once⟩ := closed_once (by decide) (Program.kept_of_keep? run)
  exact ⟨run, ⟨by decide, rfl, rfl, quiet⟩, order, once rfl rfl quiet⟩

end Lending.Cache
