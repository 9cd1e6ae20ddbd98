import Lending.Proofs.Cache.Diary
import Lending.Proofs.Cache.Slots

/-!
# What gives back ends well

Making a session and judging one may raise, and that is where a raise comes from as long as no close
does: an operation that only gives back, tears down or ends something asks the remote side nothing
but to close. So it ends well, and so does whatever it stands on in turn.

* `Frame.quiet`: the frames of such operations, not on the way of a raise; `Frame.hushes`: the ones
  that need such an operation.
* `hushed_of_kept`: above a frame that hushes there are only quiet ones.
* `settles_of_heard`: so no teardown, and no close at any level, is heard of with a raise.
-/

namespace Lending

namespace Pool.Call

variable {α : Type} {m : Moment} {p p' : Pool α} {c c' : Call α} {r : Reply α}

/-- Whether a call gives back, removes or adjusts, and is not on the way of a raise. -/
def quiet : Call α → Bool
  | .start .acquire => false
  | .start _ | .teardown | .freeing .finish | .notifying .finish | .evictingSurplus _
  | .drained _ _ | .evicting _ _ _ | .grown | .over .done => true
  | _ => false

theorem quiet_evictAll (counted : Bool) (rs : List α) : (evictAll counted rs).quiet = true := by
  cases rs <;> rfl

theorem Steps.quiet (h : Steps m p c p' c') (hc : c.quiet = true) : c'.quiet = true := by
  cases h with
  | acquire | retry | woken => cases hc
  | free next | notify next =>
    cases next with
    | finish => rfl
    | _ => cases hc
  | surplus | putBack | nothingIdle | drain | wakeDrained | grow | shrink | wakeGrown
  | setWaitLimit | nothingLeft | closeDown => rfl

theorem Answered.quiet (h : Answered c r c') (hr : ∀ message, r ≠ .raised message)
    (hc : c.quiet = true) : c'.quiet = true := by
  cases h with
  | evicted => exact quiet_evictAll ..
  | discarded | surplusEvicted => rfl
  | unasked => exact hc
  | discardRaised | surplusRaised | evictRaised => exact absurd rfl (hr _)
  | stale | fresh | checkRaised | staleEvicted | staleRaised | created | notCreated | createRaised
  | dropped | dropRaised | abandoned | abandonRaised => cases hc

/-- A quiet call asks for nothing but teardowns. -/
theorem asks_of_quiet {q : Query α} (hc : c.quiet = true) (h : c.asks = some q) :
    (∃ x, q = .evict x) ∨ ∃ x, q = .drop x := by
  cases c with
  | start op =>
    cases op with
    | discard x =>
      cases h
      exact Or.inr ⟨x, rfl⟩
    | _ => cases h
  | evictingSurplus x =>
    cases h
    exact Or.inl ⟨x, rfl⟩
  | evicting x rest counted =>
    cases h
    exact Or.inl ⟨x, rfl⟩
  | checking | evictingStale | creating | dropping | abandoning => cases hc
  | teardown | retry | parked | freeing | notifying | drained | grown | «over» | aborted => cases h

end Pool.Call

namespace Cache

namespace Frame

/-- Whether an operation gives back, tears down or ends something, and is not on the way of a
raise. -/
def quiet : Frame → Bool
  | .pool _ x => x.quiet
  | .letGo _ _ fault | .poolGone _ fault | .factoryGone _ fault | .thenPool _ fault
  | .thenFactory _ fault => fault.isNone
  | .giveBack _ _ | .closing _ _ | .retire _ _ | .dropHandle _ _ | .releasing _ _ | .dropPool _
  | .dropFactory _ => true
  | .over r => r.settles
  | _ => false

/-- Whether an operation needs another one that gives back, tears down or ends something, in a stack
of `d` levels. -/
def hushes (d : Nat) : Frame → Bool
  | .within _ (.giveBack _ _) | .within _ (.dropHandle _ _) | .retire _ _ | .releasing _ _
  | .dropPool _ | .dropFactory _ | .thenPool _ _ | .thenFactory _ _ | .sweeping _ _ => true
  | .pool k x =>
    match x.asks with
    | some (.evict _) | some (.drop _) => decide (k + 1 < d)
    | _ => false
  | .closing k _ => decide (k + 1 < d)
  | _ => false

variable {k : Nat} {m : Moment} {c c' : Cache} {x : Pool.Call Nat} {f f' g : Frame} {r : Reply}
  {q : Query}

/-- A call of a pool asks the remote side what it asks of its owner. -/
theorem exists_ask_of_need (h : (pool k x).need c = .ask q) :
    ∃ q', x.asks = some q' ∧ ofQuery c k q' = .ask q := by
  simp only [need] at h
  cases hx : x.need (c.level k).pool with
  | ask q' =>
    rw [hx] at h
    exact ⟨q', Pool.Call.asks_of_need hx, h⟩
  | step | sub | wait | «over» => rw [hx] at h; cases h

/-- A call of a pool needs what answers the question it asks. -/
theorem exists_sub_of_need (h : (pool k x).need c = .sub g) :
    ∃ q', x.asks = some q' ∧ ofQuery c k q' = .sub g := by
  simp only [need] at h
  cases hx : x.need (c.level k).pool with
  | ask q' =>
    rw [hx] at h
    exact ⟨q', Pool.Call.asks_of_need hx, h⟩
  | step | sub | wait | «over» => rw [hx] at h; cases h

/-- At the innermost level the remote side is asked, and nothing else is needed. -/
theorem innermost_of_ask {q' : Pool.Query Nat} (h : ofQuery c k q' = .ask q) :
    c.innermost k = true := by
  by_contra hi
  cases q' <;> simp [ofQuery, hi] at h

theorem inner_of_sub {q' : Pool.Query Nat} (h : ofQuery c k q' = .sub g) : k + 1 < c.depth := by
  refine inner_iff.mp fun hi => ?_
  cases q' <;> simp [ofQuery, hi] at h

theorem quiet_releaseLevel {fault : Option String} (hf : fault.isNone = true) (c : Cache)
    (k : Nat) : (releaseLevel c k fault).2.quiet = true := by
  obtain rfl := Option.isNone_iff_eq_none.mp hf
  unfold releaseLevel
  dsimp only
  split <;> rfl

theorem quiet_afterLast {fault : Option String} (hf : fault.isNone = true)
    (hr : r.settles = true) (c : Cache) : (afterLast c fault r).2.1.quiet = true := by
  obtain rfl := Option.isNone_iff_eq_none.mp hf
  unfold afterLast
  split
  · cases hr
  · rfl

/-- **A quiet step stays quiet.** -/
theorem Steps.quiet (h : Steps m c f c' f') (hf : f.quiet = true) : f'.quiet = true := by
  cases h with
  | pool hs => exact Pool.Call.Steps.quiet hs hf
  | letGoRemote count hi hx ha => exact Pool.Call.Answered.quiet ha (fun _ => nofun) hf
  | letGo | factoryGone => exact quiet_releaseLevel hf ..
  | poolGone k fault =>
    obtain rfl := Option.isNone_iff_eq_none.mp hf
    split <;> rfl
  | dropHandle => split <;> rfl
  | alreadyReleased | close | putBack => rfl
  | unavailable | onFactory | onHandle | leave | last | markDirty | borrow | probeReleased | probe
  | forwardReleased | forward | reset => cases hf

/-- **What is quiet stays so**, if what it hears is no raise. -/
theorem Resumed.quiet (h : Resumed c f r c' f') (hr : r.settles = true) (hf : f.quiet = true) :
    f'.quiet = true := by
  cases h with
  | pool count hx ha =>
    refine Pool.Call.Answered.quiet ha (fun message hm => ?_) hf
    rw [toPool_eq_raised hm] at hr
    cases hr
  | retired => exact hr
  | released | poolEmptied | factoryEmptied =>
    exact Option.isNone_iff_eq_none.mpr (Reply.fault_of_settles hr)
  | closed => rfl
  | closeRaised => cases hr
  | poolWent | factoryWent => exact quiet_afterLast hf hr c
  | resetRaised hs => cases hr
  | within | lent | notLent | remote | foundShared | notShared | sharedReset | advanced | readAgain
  | swept => cases hf

/-- What a frame that hushes needs is quiet. -/
theorem Needs.quiet (h : Needs c f g) (hf : f.hushes c.depth = true) : g.quiet = true := by
  cases h with
  | within ho =>
    cases ho with
    | close | drop => rfl
    | isOpen | file => cases hf
  | make hx | judge hx =>
    simp only [hushes, Pool.Call.asks_of_need hx] at hf
    cases hf
  | borrowing => cases hf
  | evict | letGo | closing | retire | releasing | dropPool | dropFactory | thenPool | thenFactory
  | sweeping => rfl

/-- A quiet frame hushes what it needs. -/
theorem hushes_of_quiet (hf : f.quiet = true) (hn : f.need c = .sub g) :
    f.hushes c.depth = true := by
  cases f with
  | pool k x =>
    obtain ⟨q, asks, answered⟩ := exists_sub_of_need hn
    have inner := inner_of_sub answered
    rcases Pool.Call.asks_of_quiet hf asks with ⟨y, rfl⟩ | ⟨y, rfl⟩ <;> simp [hushes, asks, inner]
  | closing k s =>
    simp only [need] at hn
    split at hn
    · cases hn
    · rename_i hi
      exact decide_eq_true (inner_iff.mp hi)
  | retire | releasing | dropPool | dropFactory | thenPool | thenFactory => rfl
  | giveBack | dropHandle | letGo | poolGone | factoryGone | «over» => cases hn
  | call | within | borrow | borrowing | probe | forward | remote | reset | askingShared
  | resettingShared | readingClock | sweeping | aborted => cases hf

/-- A quiet frame asks the remote side for nothing but closes. -/
theorem exists_close_of_quiet (hf : f.quiet = true) (hn : f.need c = .ask q) :
    ∃ s, q = .close s := by
  cases f with
  | pool k x =>
    obtain ⟨q', asks, answered⟩ := exists_ask_of_need hn
    have innermost := innermost_of_ask answered
    rcases Pool.Call.asks_of_quiet hf asks with ⟨y, rfl⟩ | ⟨y, rfl⟩ <;>
      simp only [ofQuery, innermost, if_true] at answered <;> cases answered
    exact ⟨y, rfl⟩
  | closing k s =>
    simp only [need] at hn
    split at hn <;> cases hn
    exact ⟨s, rfl⟩
  | giveBack | retire | dropHandle | releasing | letGo | dropPool | poolGone | dropFactory
  | factoryGone | thenPool | thenFactory | «over» => cases hn
  | call | within | borrow | borrowing | probe | forward | remote | reset | askingShared
  | resettingShared | readingClock | sweeping | aborted => cases hf

/-- What is quiet does not end with a raise. -/
theorem settles_of_quiet (hf : f.quiet = true) (hn : f.need c = .over r) : r.settles = true := by
  cases f with
  | «over» r' =>
    cases hn
    exact hf
  | pool k x =>
    obtain ⟨r', hx, rfl⟩ := exists_over_of_need hn
    obtain rfl := Pool.Call.eq_over_of_need hx
    cases r' with
    | done => rfl
    | _ => cases hf
  | closing k s =>
    simp only [need] at hn
    split at hn <;> cases hn
  | giveBack | retire | dropHandle | releasing | letGo | dropPool | poolGone | dropFactory
  | factoryGone | thenPool | thenFactory => cases hn
  | call | within | borrow | borrowing | probe | forward | remote | reset | askingShared
  | resettingShared | readingClock | sweeping | aborted => cases hf

/-- A frame that hushes does not ask the remote side. -/
theorem not_hushes_of_ask (hn : f.need c = .ask q) : f.hushes c.depth = false := by
  cases f with
  | pool k x =>
    obtain ⟨q', asks, answered⟩ := exists_ask_of_need hn
    have innermost := innermost_iff.mp (innermost_of_ask answered)
    cases q' <;> simp [hushes, asks, innermost]
  | closing k s =>
    simp only [need] at hn
    split at hn
    · rename_i hi
      exact decide_eq_false (Nat.not_lt.mpr (innermost_iff.mp hi))
    · cases hn
  | reset k =>
    simp only [need] at hn
    split at hn <;> cases hn
  | remote | askingShared | resettingShared | readingClock => rfl
  | call | within | borrow | borrowing | probe | forward | giveBack | retire | dropHandle
  | releasing | letGo | dropPool | poolGone | dropFactory | factoryGone | thenPool | thenFactory
  | sweeping | «over» | aborted => cases hn

end Frame

/-- A frame is quiet if the one that it stands on hushes it. -/
def Hushed (d : Nat) (f : Frame) (below : List Frame) : Prop :=
  ∀ g rest, below = g :: rest → g.hushes d = true → f.quiet = true

variable {D₀ D D' : Diary} {c : Cache} {w w' : World Cache Frame} {m : Move Op Reply}
  {notices : List Notice} {f : Frame} {r : Reply}

/-- **Where closes do not raise, what gives back is never on the way of a raise.** -/
theorem hushed_of_kept (h : program.Kept Diary.note D₀ (World.init c) D w) :
    ∀ i, Stacked (Hushed c.depth) (w.stack i) := by
  induction h with
  | refl => exact fun i => by simp [World.stack, World.init]
  | @move D D' w w' m notices h ha hn ih =>
    have depth := (stands_of_reach h.reach).1
    have started := Frame.started_of_reach h.reach
    have shut := (Diary.of_note hn).1
    refine Program.stacked_of_effect (R := fun _ => Hushed c.depth) (S := fun _ => Hushed c.depth)
      (Program.effect_of_apply ha) ih (fun _ _ _ _ h => h) ?_ ?_ ?_ ?_ ?_
    · rintro i op hs g rest hb hg
      rcases hs with hs | ⟨f, below, q, hs, hq⟩
      · rw [hs] at hb
        cases hb
      · rw [hs] at hb
        obtain ⟨rfl, rfl⟩ := List.cons.inj hb
        rw [← depth, Frame.not_hushes_of_ask hq] at hg
        cases hg
    · rintro i moment f below s f' notices - - - hne he - hf g rest hb hg
      exact (Frame.steps hne he).quiet (hf g rest hb hg)
    · rintro i f below g hst hne - f' rest hb hg
      obtain ⟨rfl, rfl⟩ := List.cons.inj hb
      exact (Frame.needs (started f (World.mem_frames_of_stack hst)) hne).quiet (depth ▸ hg)
    · rintro i moment f g x rest r s g' notices - - - hne hg he - hf hg' h rest' hb hh
      have quiet := hg' h rest' hb hh
      have hushes := Frame.hushes_of_quiet quiet hg
      have ended := Frame.settles_of_quiet (hf g rest rfl (depth ▸ hushes)) hne
      exact (Frame.resumed (Or.inr ⟨x, hg⟩) he).quiet ended quiet
    · rintro i f below q r s f' notices rfl - hst hne he - hf g rest hb hg
      have quiet := hf g rest hb hg
      obtain ⟨t, rfl⟩ := Frame.exists_close_of_quiet quiet hne
      have ended := Query.settles_of_fits (fits_of_shuts shut hst hne)
      exact (Frame.resumed (Or.inl ⟨_, hne⟩) he).quiet ended quiet

/-- A frame that hears something needs another one, or asks the remote side. -/
theorem need_of_heard (ha : program.apply w m = some (w', notices))
    (hm : program.heard w m = some (f, r)) :
    (∃ q, f.need w.shared = .ask q) ∨ ∃ g, f.need w.shared = .sub g := by
  cases Program.hears_of_apply ha hm with
  | result _ _ hg => exact Or.inr ⟨_, hg⟩
  | answer _ hne => exact Or.inl ⟨_, hne⟩

/-- **No teardown is heard of with a raise.** -/
theorem settles_of_heard (h : program.Kept Diary.note D₀ (World.init c) D w)
    (ha : program.apply w m = some (w', notices)) (hn : D.note w m w' = some D')
    (hm : program.heard w m = some (f, r))
    (hf : f.hushes c.depth = true ∨ ∃ s, f.need w.shared = .ask (.close s)) :
    r.settles = true := by
  have depth := (stands_of_reach h.reach).1
  cases Program.hears_of_apply ha hm with
  | @result i _ _ _ _ _ _ _ hst hne hg =>
    rcases hf with hf | ⟨s, hs⟩
    · have hushed := hushed_of_kept h i
      rw [hst] at hushed
      exact Frame.settles_of_quiet (hushed.1 _ _ rfl hf) hne
    · cases hs.symm.trans hg
  | answer hst hne =>
    rcases hf with hf | ⟨s, hs⟩
    · rw [← depth, Frame.not_hushes_of_ask hne] at hf
      cases hf
    · exact Query.settles_of_fits (fits_of_shuts (Diary.of_note hn).1 hst hs)

end Cache

end Lending
