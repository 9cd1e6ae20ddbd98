import Lending.Proofs.Cache.Quiet

/-!
# What becomes of a session

A level makes sessions and tears them down. In between each is idle, on loan, or with a call of the
pool that has not begun its teardown. One more way is left: a session whose check raises is let go.
The sessions of the innermost level are remote ones; making one is to connect, and tearing it down
is to close it.

* `Frame.InRange`: operations are at levels that there are, and only the innermost level closes.
* `pending`: how many have a session and have not begun its teardown; `pending_of_apply`: what a
  move does to that, at any level.
* `pending_of_kept`: every session connected is pending, was asked to close, or is lost.

A close that failed has torn its session down all the same: the handle goes on with the discard, or
the pool with the eviction. One that raised has been asked for, and counts as well.
-/

namespace Lending

namespace Pool.Call

variable {α : Type} {m : Moment} {p p' : Pool α} {c c' : Call α} {r : Reply α}

/-- The resources that a call has, and whose teardown it has not begun. -/
def pends : Call α → List α
  | .start (.release r) | .checking _ r | .over (.got r) => [r]
  | .drained r rest => r :: rest
  | .evicting _ rest _ => rest
  | _ => []

/-- The resource that is let go as judging it raises. -/
def misses : Call α → Reply α → List α
  | .checking _ r, .raised _ => [r]
  | _, _ => []

theorem pends_of_bare (h : c.bare = true) : c.pends = [] := by
  cases c with
  | start op =>
    cases op with
    | release | discard => cases h
    | _ => rfl
  | «over» r =>
    cases r with
    | got => cases h
    | _ => rfl
  | teardown => rfl
  | _ => cases h

theorem evicts_of_bare (h : c.bare = true) : c.evicts = [] := by
  cases c <;> first | rfl | cases h

theorem Looked.pends {deadline : Option Instant} {now : Instant}
    (h : Looked p deadline now p' c') : (p'.idle ++ (c'.pends ++ c'.evicts)).Perm p.idle := by
  cases h with
  | took hi =>
    rw [hi]
    exact List.perm_append_singleton ..
  | reserved hi hr | expired hi hr hd | parked hi hr hd => exact List.Perm.of_eq (List.append_nil _)

/-- **A step passes resources on**, but for the one whose teardown it begins. -/
theorem Steps.pends (h : Steps m p c p' c') :
    (p'.idle ++ (c'.pends ++ c'.evicts)).Perm (p.idle ++ c.pends) := by
  cases h with
  | acquire h | retry h => exact (Looked.pends h).trans (List.Perm.of_eq (List.append_nil _).symm)
  | woken _ h => exact (Looked.pends h).trans (List.Perm.of_eq (List.append_nil _).symm)
  | notify next => cases next <;> exact List.Perm.refl _
  | putBack r ho => exact List.Perm.of_eq (List.append_nil _)
  | drain hi =>
    rw [hi]
    exact List.Perm.of_eq (by simp [Call.pends, Call.evicts])
  | closeDown hi =>
    rw [hi]
    exact (List.perm_append_singleton ..).trans (List.Perm.of_eq (List.append_nil _).symm)
  | wakeDrained r rest => exact (List.perm_append_singleton r rest).append_left _
  | free | surplus | nothingIdle | grow | shrink | wakeGrown | setWaitLimit | nothingLeft =>
    exact List.Perm.refl _

/-- **An answer passes resources on**, but for the one whose teardown begins and the one that is
let go, if no teardown raises. -/
theorem Answered.pends (h : Answered c r c') (ht : c.evicts ≠ [] → r = .done) :
    (c'.pends ++ c'.evicts ++ c.misses r).Perm (c.makes r ++ c.pends) := by
  cases h with
  | evicted r rest counted =>
    cases rest with
    | nil => exact List.Perm.refl _
    | cons r' rest =>
      exact (List.Perm.of_eq (List.append_nil _)).trans (List.perm_append_singleton r' rest)
  | staleRaised | surplusRaised | evictRaised => cases ht (List.cons_ne_nil _ _)
  | abandoned _ rest => cases rest <;> exact List.Perm.refl _
  | unasked hu =>
    have none : c.evicts = [] := by
      by_contra hne
      obtain rfl := ht hne
      cases c <;> first | exact hne rfl | cases hu
    have unmade : c.makes r = [] ∧ c.misses r = [] := by
      constructor
      · unfold makes
        split
        · cases hu
        · rfl
      · unfold misses
        split
        · cases hu
        · rfl
    rw [none, unmade.1, unmade.2, List.append_nil, List.append_nil]
    exact List.Perm.refl _
  | stale | fresh | checkRaised | staleEvicted | created | notCreated | createRaised | dropped
  | dropRaised | discarded | discardRaised | surplusEvicted | abandonRaised =>
    exact List.Perm.refl _

/-- A call asks whether a resource is stale as it checks it. -/
theorem eq_checking_of_asks {x : α} (h : c.asks = some (.isStale x)) :
    ∃ deadline, c = .checking deadline x := by
  cases c with
  | checking deadline y =>
    cases h
    exact ⟨deadline, rfl⟩
  | start op => cases op <;> cases h
  | _ => cases h

end Pool.Call

namespace Cache

/-! ## Where operations are -/

namespace Frame

/-- An operation is at one of `d` levels, and passes no close on. -/
def InRange (d : Nat) : Frame → Prop
  | .pool k _ | .borrow k | .borrowing k _ | .probe k _ | .forward k _ _ | .giveBack k _
  | .closing k _ | .retire k _ | .dropHandle k _ | .releasing k _ | .letGo k _ _ | .dropPool k
  | .poolGone k _ | .dropFactory k | .factoryGone k _ | .thenPool k _ | .thenFactory k _ | .reset k
  | .askingShared k | .resettingShared k | .readingClock k _ | .sweeping k _ => k < d
  | .remote (.close _) => False
  | _ => True

variable {d k : Nat} {m : Moment} {c c' : Cache} {f f' g : Frame} {r : Reply}

theorem inRange_releaseLevel (hk : k < d) (c : Cache) (fault : Option String) :
    (releaseLevel c k fault).2.InRange d := by
  unfold releaseLevel
  dsimp only
  split
  · exact hk
  · trivial

theorem inRange_afterLast (d : Nat) (c : Cache) (fault : Option String) (r : Reply) :
    (afterLast c fault r).2.1.InRange d := by
  unfold afterLast
  split
  · dsimp only
    split <;> trivial
  · trivial

theorem Steps.inRange (h : Steps m c f c' f') (h0 : 0 < c.depth) (hf : f.InRange c.depth) :
    f'.InRange c.depth := by
  cases h with
  | onFactory ho hk hd =>
    cases ho with
    | hold => trivial
    | _ => exact hd
  | last => exact h0
  | unavailable | onHandle | leave | markDirty | probeReleased | forwardReleased
  | alreadyReleased => trivial
  | probe | forward | poolGone =>
    split
    · trivial
    · rename_i hi
      exact inner_iff.mp hi
  | letGo | factoryGone => exact inRange_releaseLevel hf ..
  | dropHandle | reset => split <;> exact hf
  | pool | letGoRemote | borrow | close | putBack => exact hf

theorem Resumed.inRange (h : Resumed c f r c' f') (hf : f.InRange d) : f'.InRange d := by
  cases h with
  | resetRaised | within | lent | notLent | remote | closeRaised | retired | swept => trivial
  | poolWent | factoryWent => exact inRange_afterLast ..
  | pool | closed | released | poolEmptied | factoryEmptied | foundShared | notShared | sharedReset
  | advanced | readAgain => exact hf

theorem inRange_of_sub (hs : Started f) (h0 : 0 < c.depth) (hf : f.InRange c.depth)
    (hn : f.need c = .sub g) : g.InRange c.depth := by
  cases needs hs hn with
  | within ho => cases ho <;> exact h0
  | make | judge | evict | letGo =>
    obtain ⟨q, -, answered⟩ := exists_sub_of_need hn
    exact inner_of_sub answered
  | closing k s hi => exact innermost_eq_false.mp hi
  | borrowing | retire | releasing | dropPool | dropFactory | thenPool | thenFactory | sweeping =>
    exact hf

/-- **Operations are at levels that there are.** -/
theorem inRange_of_reach {w : World Cache Frame} (h0 : 0 < c.depth)
    (hw : program.Reach (World.init c) w) : ∀ f ∈ w.frames, f.InRange c.depth := by
  induction hw with
  | refl => exact fun f hf => absurd hf (by simp [World.frames, World.init])
  | @move w w' m notices hw ha ih =>
    have depth := (stands_of_reach hw).1
    have started := started_of_reach hw
    rw [forall_frames_iff_stacked] at ih ⊢
    refine Program.stacked_of_effect (R := fun _ f _ => f.InRange c.depth)
      (S := fun _ f _ => f.InRange c.depth) (Program.effect_of_apply ha) ih (fun _ _ _ _ h => h)
      ?_ ?_ ?_ ?_ ?_
    · exact fun _ _ _ => trivial
    · rintro i moment f below s f' notices - - - hne he - hf
      rw [← depth] at hf h0 ⊢
      exact (steps hne he).inRange h0 hf
    · rintro i f below g hst hne hf
      rw [← depth] at hf h0 ⊢
      exact inRange_of_sub (started f (World.mem_frames_of_stack hst)) h0 hf hne
    · rintro i moment f g x rest r s g' notices - - - - hg he - - hg'
      exact (resumed (Or.inr ⟨x, hg⟩) he).inRange hg'
    · rintro i f below q r s f' notices - - - hne he - hf
      exact (resumed (Or.inl ⟨q, hne⟩) he).inRange hf

/-! ## Closes -/

/-- The session of level `k` that a frame is there to tear down. -/
def shuts (k : Nat) : Frame → List Nat
  | .pool j x => if j = k then x.evicts else []
  | .closing j s => if j = k then [s] else []
  | _ => []

/-- How often an operation has session `s` of level `k`, and has not begun its teardown. -/
def pends (k s : Nat) : Frame → Nat
  | .pool j x => if j = k then x.pends.count s else 0
  | _ => 0

@[simp] theorem pends_pool (k s : Nat) (x : Pool.Call Nat) :
    (pool k x).pends k s = x.pends.count s := if_pos rfl

theorem ofLevel_pends (k s : Nat) : OfLevel k (pends k s) := by
  intro f hf
  cases f with
  | pool j x =>
    show (if j = k then x.pends.count s else 0) = 0
    by_cases hj : j = k
    · rw [if_pos hj, Pool.Call.pends_of_bare (hf hj)]
      rfl
    · exact if_neg hj
  | _ => rfl

theorem shuts_of_bare (hf : f.Bare k) : f.shuts k = [] := by
  cases f with
  | pool j x =>
    show (if j = k then x.evicts else []) = []
    by_cases hj : j = k
    · rw [if_pos hj, Pool.Call.evicts_of_bare (hf hj)]
    · exact if_neg hj
  | closing j s => exact if_neg hf
  | _ => rfl

/-- **A close is asked for by the innermost level**, by who tears the session down. -/
theorem shuts_eq (hk : k + 1 = c.depth) (hf : f.InRange c.depth) :
    f.shuts k = match f.need c with
      | .ask (.close s) => [s]
      | _ => [] := by
  have only : ∀ {j : Nat}, j < c.depth → c.innermost j = true → j = k := by
    intro j hj hi
    have := innermost_iff.mp hi
    omega
  have innermost : c.innermost k = true := innermost_iff.mpr (by omega)
  cases f with
  | pool j x =>
    by_cases hj : j = k
    · subst hj
      simp only [shuts, if_true, x.evicts_eq (c.level j).pool, need]
      cases hx : x.need (c.level j).pool with
      | ask q => cases q <;> simp [ofQuery, innermost]
      | step | sub | wait | «over» => rfl
    · have inner : ¬ c.innermost j = true := fun hi => hj (only hf hi)
      simp only [shuts, if_neg hj, need]
      cases hx : x.need (c.level j).pool with
      | ask q => cases q <;> simp [ofQuery, inner]
      | step | sub | wait | «over» => rfl
  | closing j s =>
    by_cases hj : j = k
    · subst hj
      simp [shuts, need, innermost]
    · have inner : ¬ c.innermost j = true := fun hi => hj (only hf hi)
      simp [shuts, need, inner, hj]
  | reset j => cases hr : (c.level j).resetting <;> simp [shuts, need, hr]
  | remote q =>
    cases q with
    | close s => exact hf.elim
    | _ => rfl
  | _ => rfl

end Frame

/-- How often session `s` of level `k` is idle, on loan, on its way, or with an operation that has
not begun its teardown. -/
def pending (k s : Nat) (w : World Cache Frame) : Nat := keeping k s w (Frame.pends k s)

/-- The session of level `k` whose teardown begins by a move. -/
def shutBy (k : Nat) (w' : World Cache Frame) (m : Move Op Reply) : List Nat :=
  ((Program.put w' m).map (Frame.shuts k)).getD []

variable {k s : Nat} {c : Cache} {w w' : World Cache Frame} {m : Move Op Reply}
  {notices : List Notice} {f : Frame} {D₀ D D' : Diary}

/-- What a handle stands for is on loan, so pending. -/
theorem pending_of_target {h : Nat} (ht : (w.shared.handle k h).target = some s) :
    0 < pending k s w := keeping_of_target _ ht

theorem shutBy_of_put (hp : Program.put w' m = some f) : shutBy k w' m = f.shuts k := by
  unfold shutBy
  rw [hp]
  rfl

theorem shutBy_of_bare (h : ∀ f, Program.put w' m = some f → f.Bare k) : shutBy k w' m = [] := by
  cases hp : Program.put w' m with
  | none =>
    unfold shutBy
    rw [hp]
    rfl
  | some f => exact (shutBy_of_put hp).trans (Frame.shuts_of_bare (h f hp))

theorem strayBy_of_bare (h : ∀ x r, program.heard w m = some (.pool k x, r) → x.bare = true) :
    strayBy w m k = [] := by
  unfold strayBy
  split
  · rename_i j deadline t message hm
    refine if_neg fun hj => ?_
    subst hj
    cases h _ _ hm
  · rfl

theorem strayBy_of_stepped (hm : program.stepped w m = some f) : strayBy w m k = [] := by
  unfold strayBy
  rw [Program.heard_of_stepped hm]

/-- What a call of a pool lets go of by an answer is what the level does. -/
theorem Hears.strayBy {x : Pool.Call Nat} {reply : Pool.Reply Nat} (h : Hears k w m x reply) :
    strayBy w m k = x.misses reply := by
  cases h with
  | @heard q r hm hx =>
    unfold Cache.strayBy
    rw [hm]
    by_cases hr : ∃ message, r = .raised message
    · obtain ⟨message, rfl⟩ := hr
      cases x with
      | checking => exact if_pos rfl
      | _ => rfl
    · have unraised : ∀ message, r.toPool q ≠ .raised message := fun message ht =>
        hr ⟨message, Frame.toPool_eq_raised ht⟩
      have kept : x.misses (r.toPool q) = [] := by
        unfold Pool.Call.misses
        split
        · rename_i heq
          exact absurd heq (unraised _)
        · rfl
      rw [kept]
      split
      · rename_i heq
        cases heq
        exact absurd ⟨_, rfl⟩ hr
      · rfl
  | letGo hm hx =>
    rw [strayBy_of_stepped hm]
    cases x <;> rfl

/-- A level hears of the end of a teardown that it has ended well. -/
theorem Hears.done_of_evicts {x : Pool.Call Nat} {reply : Pool.Reply Nat} (h : Hears k w m x reply)
    (hw : program.Kept Diary.note D₀ (World.init c) D w)
    (ha : program.apply w m = some (w', notices)) (hn : D.note w m w' = some D')
    (hx : x.evicts ≠ []) : reply = .done := by
  have depth := (stands_of_reach hw.reach).1
  have asks : ∃ t, x.need (w.shared.level k).pool = .ask (.evict t) := by
    rw [x.evicts_eq (w.shared.level k).pool] at hx
    split at hx
    · exact ⟨_, ‹_›⟩
    · exact absurd rfl hx
  obtain ⟨t, asks⟩ := asks
  cases h with
  | letGo hm hx' => rfl
  | @heard q r hm hx' =>
    cases asks.symm.trans hx'
    have ends : (Frame.pool k x).hushes c.depth = true ∨
        ∃ t, (Frame.pool k x).need w.shared = .ask (.close t) := by
      by_cases hi : w.shared.innermost k = true
      · exact Or.inr ⟨t, by simp [Frame.need, asks, Frame.ofQuery, hi]⟩
      · have inner := depth ▸ inner_iff.mp hi
        exact Or.inl (by simp [Frame.hushes, Pool.Call.asks_of_need asks, inner])
    have settled := settles_of_heard hw ha hn hm ends
    cases r with
    | done | refused => rfl
    | _ => cases settled

/-- **A session stays with its level until its teardown begins**, or until it is let go as judging
it raised. -/
theorem pending_of_apply (hk : k < c.depth)
    (hw : program.Kept Diary.note D₀ (World.init c) D w)
    (ha : program.apply w m = some (w', notices)) (hn : D.note w m w' = some D') (s : Nat) :
    pending k s w' + (shutBy k w' m).count s + (strayBy w m k).count s =
      pending k s w + (bornBy k w m).count s := by
  have depth := (stands_of_reach hw.reach).1
  have arriving := arriving_of_apply (k := k) hw.reach ha s
  unfold pending keeping
  cases dealt_of_apply (k := k) (by omega) hw.reach ha with
  | none same frames hears top =>
    rw [madeBy_of_bare hears] at arriving
    rw [same.idle, same.onLoan, frames _ (Frame.ofLevel_pends k s), shutBy_of_bare top,
      strayBy_of_bare hears]
    simp only [List.count_nil] at arriving ⊢
    omega
  | @pool moment x x' hm hs hl frames top =>
    have kept := hs.pends.count_eq s
    have frames := frames (Frame.pends k s)
    rw [madeBy_of_stepped hm] at arriving
    have shut : shutBy k w' m = x'.evicts := (shutBy_of_put top).trans (if_pos rfl)
    rw [hl, shut, strayBy_of_stepped hm]
    simp only [List.count_append, List.count_nil, Frame.pends_pool] at kept frames arriving ⊢
    omega
  | @answered x x' reply hm hans same frames top =>
    have kept := (hans.pends (hm.done_of_evicts hw ha hn)).count_eq s
    have frames := frames (Frame.pends k s) (Frame.ofLevel_pends k s)
    rw [hm.madeBy] at arriving
    have shut : shutBy k w' m = x'.evicts := (shutBy_of_put top).trans (if_pos rfl)
    rw [same.idle, same.onLoan, shut, hm.strayBy]
    simp only [List.count_append, Frame.pends_pool] at kept frames
    omega
  | @taken h t f' hm hf' idle hl frames top =>
    have kept := hl.count_eq s
    have frames := frames (Frame.pends k s) (Frame.ofLevel_pends k s)
    have one : f'.pends k s + (f'.shuts k).count s = [t].count s := by
      rcases hf' with rfl | rfl <;>
        simp [Frame.pends, Frame.shuts, Pool.Call.pends, Pool.Call.evicts]
    rw [madeBy_of_stepped hm] at arriving
    rw [idle, shutBy_of_put top, strayBy_of_stepped hm]
    simp only [List.count_cons, List.count_nil] at kept arriving one ⊢
    omega
  | @lent epoch t hm idle hl frames top =>
    have frames := frames (Frame.pends k s) (Frame.ofLevel_pends k s)
    have one : (Frame.pool k (.over (.got t))).pends k s = [t].count s := Frame.pends_pool ..
    have stray : strayBy w m k = [] := by
      unfold strayBy
      rw [hm]
    rw [madeBy_of_heard hm] at arriving
    rw [idle, hl, shutBy_of_bare top, stray]
    simp only [List.count_append, Frame.makes, List.count_nil] at frames arriving ⊢
    omega
  | @closed t r hm same frames top =>
    have frames := frames (Frame.pends k s) (Frame.ofLevel_pends k s)
    have none : (Frame.pool k (.start (.discard t))).pends k s = 0 := Frame.pends_pool ..
    have shut : shutBy k w' m = [] := (shutBy_of_put top).trans (if_pos rfl)
    have stray : strayBy w m k = [] := by
      unfold strayBy
      rw [hm]
    rw [madeBy_of_heard hm] at arriving
    rw [same.idle, same.onLoan, shut, stray]
    simp only [Frame.makes, Frame.pends, List.count_nil] at frames arriving none ⊢
    omega
  | @closeRaised t message hm same frames top =>
    have frames := frames (Frame.pends k s) (Frame.ofLevel_pends k s)
    have stray : strayBy w m k = [] := by
      unfold strayBy
      rw [hm]
    rw [madeBy_of_heard hm] at arriving
    rw [same.idle, same.onLoan, shutBy_of_bare top, stray]
    simp only [Frame.makes, Frame.pends, List.count_nil] at frames arriving ⊢
    omega

/-- The closes that a move asks for are those of the innermost level. -/
theorem count_askedBy (hk : k + 1 = c.depth) (hw : program.Reach (World.init c) w')
    (m : Move Op Reply) (s : Nat) :
    ((askedBy w' m).toList.map Event.asked).count (.asked (.close s)) =
      (shutBy k w' m).count s := by
  have depth := (stands_of_reach hw).1
  cases hp : Program.put w' m with
  | none =>
    unfold askedBy shutBy
    rw [hp]
    rfl
  | some f =>
    have mem : f ∈ w'.frames := by
      obtain ⟨p, hp, hf⟩ := Option.bind_eq_some_iff.mp hp
      exact World.mem_frames.mpr ⟨p.1, List.mem_of_mem_head? hf⟩
    have range := Frame.inRange_of_reach (by omega) hw f mem
    rw [shutBy_of_put hp, Frame.shuts_eq (c := w'.shared) (by omega) (depth ▸ range)]
    unfold askedBy
    rw [hp, Option.bind_some]
    cases f.need w'.shared with
    | ask q => cases q <;> simp [List.count_singleton]
    | step | sub | wait | «over» => rfl

/-- **Every session connected is accounted for**: it is pending, was asked to close, or is lost. -/
theorem pending_of_kept (hk : k + 1 = c.depth)
    (hw : program.Kept Diary.note {} (World.init c) D w)
    (none : pending k s (World.init c) = 0) :
    pending k s w + D.log.count (.asked (.close s)) + D.lost.count s = D.connected.count s := by
  induction hw with
  | refl => simpa using none
  | @move D D' w w' m notices hw ha hn ih =>
    have depth := (stands_of_reach hw.reach).1
    have law := pending_of_apply (k := k) (by omega) hw ha hn s
    obtain ⟨-, rfl⟩ := Diary.of_note hn
    have asked := count_askedBy hk (hw.reach.move m ha) m s
    have bottom : w.shared.bottom = k := by
      unfold bottom
      omega
    have lent : ((ledTo w m).toList.map Event.lent).count (.asked (.close s)) = 0 := by
      cases ledTo w m <;> simp
    simp only [Diary.write, bottom, List.count_append, asked, lent]
    omega

end Cache

end Lending
