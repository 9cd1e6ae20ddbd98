import Lending.Proofs.Cache.Deeds
import Lending.Proofs.Cache.Remote

/-!
# How long a level has a handle of the next

A handle below the outermost level is a session of the level above. So the two levels have to agree
on how long it is good for: the level above may lend it only while it has a session of its own, and
has it in any case until it is gone.

* `due_of_returned`: a handle that has been given back is lent above no more, and not torn down
  again. Its end is claimed by who has it there, and that is one.
* `spare_of_returned`: so what may yet be lent above has a session, even if closes raise.
* `TornDownUntilGone`: whoever has a handle torn down or let go waits until it is gone.
* `custody_of_lent`: so a handle is with the level above until it is gone, if no close raises.
-/

namespace Lending

namespace Pool.Call

variable {α : Type} {c : Call α} {x : α}

theorem pends_add_evicts_le_owns [DecidableEq α] (c : Call α) (x : α) :
    c.pends.count x + c.evicts.count x ≤ c.owns.count x := by
  cases c with
  | start op => cases op <;> simp [pends, evicts, owns, hands, checks, lends, tears, strays]
  | «over» r => cases r <;> simp [pends, evicts, owns, hands, checks, lends, tears, strays]
  | _ => simp [pends, evicts, owns, hands, checks, lends, tears, List.count_cons]

theorem spares_le_pends [DecidableEq α] (c : Call α) (x : α) :
    c.spares.count x ≤ c.pends.count x := by
  cases c with
  | start op => cases op <;> exact Nat.le_refl _
  | «over» r => cases r <;> exact Nat.le_refl _
  | checking => exact Nat.le_refl _
  | _ => exact Nat.zero_le _

theorem pends_lt_owns_of_asks [DecidableEq α]
    (h : c.asks = some (.evict x) ∨ c.asks = some (.drop x)) :
    c.pends.count x < c.owns.count x := by
  cases c with
  | start op =>
    cases op with
    | discard y =>
      rcases h with h | h <;> cases h
      simp [pends, owns, hands, checks, lends, tears, strays]
    | _ => rcases h with h | h <;> cases h
  | evictingStale | evictingSurplus | evicting | dropping | abandoning =>
    rcases h with h | h <;> cases h
    simp [pends, owns, hands, checks, lends, tears, strays]
  | _ => rcases h with h | h <;> cases h

/-- A call that takes a step asks nothing. -/
theorem Steps.asks {m : Moment} {p p' : Pool α} {c' : Call α} (h : Steps m p c p' c') :
    c.asks = none := by
  cases h <;> rfl

/-- What an answer is the end of was to be torn down, or let go. -/
theorem asks_of_sheds {reply : Reply α} (h : x ∈ c.sheds reply) :
    (∃ y, c.asks = some (.evict y) ∨ c.asks = some (.drop y)) ∧
      ((∀ message, reply ≠ .raised message) →
        c.asks = some (.evict x) ∨ c.asks = some (.drop x)) := by
  unfold sheds at h
  split at h
  · exact ⟨⟨_, Or.inr rfl⟩, fun hr => absurd rfl (hr _)⟩
  · split at h
    · rename_i asks _
      obtain rfl := List.mem_singleton.mp h
      exact ⟨⟨_, Or.inl asks⟩, fun _ => Or.inl asks⟩
    · rename_i asks _
      obtain rfl := List.mem_singleton.mp h
      exact ⟨⟨_, Or.inr asks⟩, fun _ => Or.inr asks⟩
    · exact absurd h List.not_mem_nil

end Pool.Call

namespace Cache

variable {k h i : Nat} {limits : List Limits} {shared : Bool} {w w' : World Cache Frame}
  {m : Move Op Reply} {notices : List Notice}

/-- Who called for a give-back is right below. -/
theorem exists_calls_of_caller {below : List Frame} (hc : Frame.caller? k below = some h) :
    ∃ g rest, below = g :: rest ∧ g.calls k h ≠ 0 := by
  cases below with
  | nil => cases hc
  | cons g rest => exact ⟨g, rest, rfl, Frame.calls_ne_zero_iff.mpr hc⟩

/-! ## What has been given back -/

namespace Frame

/-- How often an operation is there to tear session `s` of level `k` down next. -/
def evicts (k s : Nat) : Frame → Nat
  | .pool j x => if j = k then x.evicts.count s else 0
  | _ => 0

/-- How often an operation has session `s` of level `k` where its end has begun. -/
def retains (k s : Nat) (f : Frame) : Nat := f.has k s - f.pends k s

theorem evicts_le_shuts (f : Frame) (s : Nat) : f.evicts k s ≤ (f.shuts k).count s := by
  cases f with
  | pool j x =>
    show (if j = k then x.evicts.count s else 0) ≤ (if j = k then x.evicts else []).count s
    split <;> exact Nat.le_refl _
  | _ => exact Nat.zero_le _

theorem pends_add_evicts_le_has (f : Frame) (s : Nat) :
    f.pends k s + f.evicts k s ≤ f.has k s := by
  cases f with
  | pool j x =>
    show (if j = k then x.pends.count s else 0) + (if j = k then x.evicts.count s else 0) ≤
      if j = k then x.owns.count s else 0
    split
    · exact x.pends_add_evicts_le_owns s
    · exact Nat.le_refl _
  | _ => exact Nat.zero_le _

theorem spares_le_pends {s : Nat} (f : Frame) : f.spares k s ≤ f.pends k s := by
  cases f with
  | pool j x =>
    show (if j = k then x.spares.count s else 0) ≤ if j = k then x.pends.count s else 0
    split
    · exact x.spares_le_pends s
    · exact Nat.le_refl _
  | _ => exact Nat.zero_le _

end Frame

/-- How often a thread is about to tear session `s` of level `k` down, or does so at a level of its
own. -/
def ending (k s : Nat) (w : World Cache Frame) : Nat :=
  w.tally fun fs => (fs.head?.map (Frame.evicts k s)).getD 0

theorem evicts_le_ending {f : Frame} {below : List Frame} (hst : w.stack i = f :: below)
    (k s : Nat) : f.evicts k s ≤ ending k s w := by
  have one := World.le_tally (fun fs => (fs.head?.map (Frame.evicts k s)).getD 0)
    (World.lt_length_of_stack hst)
  rw [hst] at one
  exact one

/-- How often session `s` of level `k` is pending, or about to be torn down. -/
def due (k s : Nat) (w : World Cache Frame) : Nat := pending k s w + ending k s w

/-- Above the innermost level, a teardown that is about to begin begins with the next move of its
thread. -/
theorem ending_of_apply {c : Cache} (hi : k + 1 < c.depth) (hw : program.Reach (World.init c) w)
    (ha : program.apply w m = some (w', notices)) (s : Nat) :
    ending k s w' ≤ ending k s w + (shutBy k w' m).count s := by
  have depth := (stands_of_reach hw).1
  have inner : ¬ w.shared.innermost k = true := inner_iff.mpr (by omega)
  have put : ∀ {i : Nat} {c' : Cache} {f' : Frame} {below : List Frame} {m : Move Op Reply},
      i < w.threads.length →
      Program.touched (w.update i c' (f' :: below)) m =
        some (i, ((w.update i c' (f' :: below)).stack i).tail.length) →
      ending k s (w.update i c' (f' :: below)) ≤
        ending k s w + (shutBy k (w.update i c' (f' :: below)) m).count s := by
    intro i c' f' below m hi hm
    have updated := World.tally_update
      (fun fs => (fs.head?.map (Frame.evicts k s)).getD 0) hi c' (f' :: below)
    have top := f'.evicts_le_shuts (k := k) s
    rw [shutBy_of_put (Program.put_update hi hm)]
    simp only [List.head?_cons, Option.map_some, Option.getD_some] at updated
    unfold ending
    omega
  cases Program.effect_of_apply ha with
  | spawn => simp [ending, World.tally]
  | enter op hi' => exact put hi' rfl
  | step hst => exact put (World.lt_length_of_stack hst) rfl
  | descend hst => exact put (World.lt_length_of_stack hst) rfl
  | ascend hst => exact put (World.lt_length_of_stack hst) rfl
  | answer hst => exact put (World.lt_length_of_stack hst) rfl
  | expire => exact Nat.le_add_right ..
  | @collect i f below r hst hne =>
    have updated := World.tally_update
      (fun fs => (fs.head?.map (Frame.evicts k s)).getD 0) (World.lt_length_of_stack hst) w.shared
      below
    have none : ((below.head?.map (Frame.evicts k s)).getD 0) = 0 := by
      cases below with
      | nil => rfl
      | cons g rest =>
        show g.evicts k s = 0
        by_contra hne
        cases g with
        | pool j x =>
          have hj : j = k := by
            by_contra hj
            exact hne (if_neg hj)
          subst hj
          have some : x.evicts ≠ [] := by
            intro none
            exact hne (by simp [Frame.evicts, none])
          rw [x.evicts_eq (w.shared.level j).pool] at some
          split at some
          · rename_i t hx
            refine Program.not_sub_of_collect ha hst (.retire (j + 1) t) ?_
            show (Frame.pool j x).need w.shared = _
            simp [Frame.need, hx, Frame.ofQuery, inner]
          · exact some rfl
        | _ => exact hne rfl
    unfold ending
    omega

/-- What is due is so for one more only as it comes into being. -/
theorem due_of_apply {c : Cache} {D₀ D D' : Diary} (hi : k + 1 < c.depth)
    (hw : program.Kept Diary.note D₀ (World.init c) D w)
    (ha : program.apply w m = some (w', notices)) (hn : D.note w m w' = some D') (s : Nat) :
    due k s w' ≤ due k s w + (bornBy k w m).count s := by
  have pending := pending_of_apply (k := k) (by omega) hw ha hn s
  have ending := ending_of_apply hi hw.reach ha s
  unfold due
  omega

/-- Who is there for the end of a handle does not have it due. -/
theorem claims_add_due_le (hw : program.Reach (World.init (.ofLimits limits shared)) w) :
    w.weigh (Frame.claims (k + 1) h) + due k h w ≤ custody k h w := by
  have charged := World.weigh_add_le_of_charged (w := w) (Frame.claims (k + 1) h)
    (υ := Frame.retains k h) (p := fun f : Frame => f.calls (k + 1) h ≠ 0) fun i => by
      refine ((stands_of_reach hw).2 i).imp fun f below _ hs =>
        charged_of_claimed (k := k + 1) hs.claimed nofun ?_ ?_
      · rintro j hj
        obtain rfl : k = j := Nat.succ.inj hj
        simp [Frame.retains, Frame.has, Frame.pends]
      · rintro j x hj hx
        obtain rfl : k = j := Nat.succ.inj hj
        have := Pool.Call.pends_lt_owns_of_asks hx
        rw [Frame.retains, Frame.has_pool, Frame.pends_pool]
        omega
  have tops : ending k h w ≤ w.tally fun fs =>
      (fs.head?.map fun g => if g.calls (k + 1) h ≠ 0 then 0 else g.retains k h).getD 0 := by
    refine List.sum_le_sum fun fs _ => ?_
    cases fs with
    | nil => exact Nat.le_refl _
    | cons g rest =>
      show g.evicts k h ≤ if g.calls (k + 1) h ≠ 0 then 0 else g.retains k h
      have few := g.pends_add_evicts_le_has (k := k) h
      cases g with
      | pool j x =>
        have none : (Frame.pool j x).calls (k + 1) h = 0 := rfl
        rw [if_neg (not_not_intro none)]
        unfold Frame.retains
        omega
      | _ => exact Nat.zero_le _
  have both : w.total (Frame.retains k h) + w.total (Frame.pends k h) =
      w.total (Frame.has k h) := by
    rw [← World.total_add]
    refine congrArg (fun ω => w.total ω) (funext fun f => ?_)
    have := f.pends_add_evicts_le_has (k := k) h
    exact Nat.sub_add_cancel (by omega)
  unfold due pending custody keeping
  omega

/-- What may yet be lent, or become idle, has not begun its end. -/
theorem spare_le_due (k s : Nat) (w : World Cache Frame) : spare k s w ≤ due k s w := by
  have frames := w.total_le (Frame.spares_le_pends (k := k) (s := s))
  unfold spare due pending keeping
  omega

theorem claims_add_spare_le (hw : program.Reach (World.init (.ofLimits limits shared)) w) :
    w.weigh (Frame.claims (k + 1) h) + spare k h w ≤ custody k h w := by
  have both := claims_add_due_le (k := k) (h := h) hw
  have := spare_le_due k h w
  omega

/-- A handle is without its session after the first step of its give-back, and no other move. -/
theorem exists_giveBack_of_target (hk : k < w.shared.depth)
    (ha : program.apply w m = some (w', notices)) (lent : h < (w.shared.level k).handles.length)
    (has : (w.shared.handle k h).target ≠ none) (gone : (w'.shared.handle k h).target = none) :
    ∃ i below, w.stack i = .giveBack k h :: below := by
  have same : (w'.shared.handle k h).target ≠ (w.shared.handle k h).target :=
    fun he => has (he ▸ gone)
  cases Program.effect_of_apply ha with
  | spawn | enter | descend | collect => exact absurd gone has
  | @step i _ f _ below _ _ hst hne he =>
    by_cases hf : f = .giveBack k h
    · exact ⟨i, below, hf ▸ hst⟩
    · exact absurd ((((Frame.steps hne he).handles hk).target h).2 hf) same
  | ascend hst hne hg he =>
    exact absurd (((Frame.resumed (Or.inr ⟨_, hg⟩) he).handles hk).target lent) same
  | answer hst hne he =>
    exact absurd (((Frame.resumed (Or.inl ⟨_, hne⟩) he).handles hk).target lent) same
  | @expire i f below t hst ht =>
    obtain ⟨parked, level⟩ := Frame.exists_level_expire ht k
    exact absurd (congrArg Handle.target (handle_of_eq (by rw [level]) h)) same

/-- A handle is newly without its session only where somebody is there for its end, and it is not
new itself. -/
theorem returned_or_claimed (hi : k + 1 < limits.length)
    (hw : program.Reach (World.init (.ofLimits limits shared)) w)
    (ha : program.apply w m = some (w', notices)) (hr : HandleReturned w'.shared (k + 1) h) :
    (bornBy k w m).count h = 0 ∧
      (HandleReturned w.shared (k + 1) h ∨ custody k h w ≤ w.weigh (Frame.claims (k + 1) h)) := by
  have depth := depth_of_reach hw
  have inner : ¬ w.shared.innermost k = true := inner_iff.mpr (by omega)
  by_cases lent : h < (w.shared.level (k + 1)).handles.length
  · refine ⟨List.count_eq_zero.mpr fun hb => ?_, ?_⟩
    · have := (fresh_of_bornBy inner ha hb).1
      omega
    by_cases has : (w.shared.handle (k + 1) h).target = none
    · exact Or.inl ⟨lent, has⟩
    · -- whoever the handle is given back for has it above, and that is one
      obtain ⟨i, below, hst⟩ := exists_giveBack_of_target (by omega) ha lent has hr.target
      have top := (stands_of_reach hw).2 i
      rw [hst] at top
      obtain ⟨g, rest, rfl, calls⟩ := exists_calls_of_caller top.1.giveBack
      have claimed := World.le_weigh (Frame.claims (k + 1) h) (w := w) (i := i)
        (hst ▸ List.suffix_cons _ _ : g :: rest <:+ w.stack i)
      rw [Frame.claims_of_calls calls] at claimed
      exact Or.inr ((custody_le_one hi hw h).1.trans claimed)
  · have fresh : h = (w.shared.level (k + 1)).handles.length ∧
        (w'.shared.handle (k + 1) h).target ≠ none := by
      rcases lentBy_of_apply (k := k + 1) (by omega) ha with ⟨-, same⟩ | ⟨s, e, -, -, handles⟩
      · have := hr.lent
        omega
      · have := hr.lent
        rw [handles, List.length_append, List.length_singleton] at this
        obtain rfl : h = (w.shared.level (k + 1)).handles.length := by omega
        rw [handle_lent handles]
        exact ⟨rfl, nofun⟩
    exact absurd hr.target fresh.2

theorem not_returned_ofLimits (hi : k + 1 < limits.length) :
    ¬ HandleReturned (.ofLimits limits shared) (k + 1) h := by
  intro hr
  have := hr.lent
  rw [level_ofLimits hi shared] at this
  exact Nat.not_lt_zero h this

/-- **What has been given back is not lent again** by the level above, and not torn down again. -/
theorem due_of_returned {D₀ D : Diary} (hi : k + 1 < limits.length)
    (hw : program.Kept Diary.note D₀ (World.init (.ofLimits limits shared)) D w)
    (hr : HandleReturned w.shared (k + 1) h) : due k h w = 0 := by
  have start : (Cache.ofLimits limits shared).depth = limits.length := depth_ofLimits limits shared
  induction hw with
  | refl => exact absurd hr (not_returned_ofLimits hi)
  | @move D D' w w' m notices hw ha hn ih =>
    have later := due_of_apply (start.symm ▸ hi) hw ha hn h
    have both := claims_add_due_le (k := k) (h := h) hw.reach
    obtain ⟨unborn, before | claimed⟩ := returned_or_claimed hi hw.reach ha hr
    · have := ih before
      omega
    · omega

/-- **What has been given back is not lent again**, whether or not closes raise: a handle that the
level above may yet lend, or make idle, has a session. -/
theorem spare_of_returned (hi : k + 1 < limits.length)
    (hw : program.Reach (World.init (.ofLimits limits shared)) w)
    (hr : HandleReturned w.shared (k + 1) h) : spare k h w = 0 := by
  induction hw with
  | refl => exact absurd hr (not_returned_ofLimits hi)
  | @move w w' m notices hw ha ih =>
    have depth := depth_of_reach hw
    have later := spare_of_apply (k := k) (by omega) hw ha h
    have both := claims_add_spare_le (k := k) (h := h) hw
    obtain ⟨unborn, before | claimed⟩ := returned_or_claimed hi hw ha hr
    · have := ih before
      omega
    · omega

/-- What a session that may yet be lent stands for, above the innermost level. -/
theorem exists_target_of_spare (hi : k + 1 < limits.length)
    (hw : program.Reach (World.init (.ofLimits limits shared)) w) (hs : 0 < spare k h w) :
    ∃ s, (w.shared.handle (k + 1) h).target = some s := by
  have few := claims_add_spare_le (k := k) (h := h) hw
  have lent := (custody_le_one hi hw h).2 (by omega)
  cases ht : (w.shared.handle (k + 1) h).target with
  | none =>
    have := spare_of_returned hi hw ⟨lent, ht⟩
    omega
  | some s => exact ⟨s, rfl⟩

/-- What leads from level to level comes to a remote session. -/
theorem exists_remoteBehind_of {c : Cache} {G : Nat → Nat → Prop}
    (next : ∀ k s, G k s → k + 1 < c.depth →
      ∃ t, (c.handle (k + 1) s).target = some t ∧ G (k + 1) t) :
    ∀ {fuel k s : Nat}, k < c.depth → c.depth ≤ k + fuel → G k s →
      ∃ t, c.remoteBehind fuel k s = some t ∧ G c.bottom t := by
  intro fuel
  induction fuel with
  | zero => exact fun hk hd => absurd hd (by omega)
  | succ fuel ih =>
    intro k s hk hd hs
    unfold remoteBehind
    by_cases hi : c.innermost k = true
    · have here : c.bottom = k := by
        have := innermost_iff.mp hi
        unfold bottom
        omega
      exact ⟨s, if_pos hi, here.symm ▸ hs⟩
    · obtain ⟨t, target, ht⟩ := next k s hs (inner_iff.mp hi)
      obtain ⟨u, behind, hu⟩ := ih (inner_iff.mp hi) (by omega) ht
      exact ⟨u, by rw [if_neg hi, target, Option.bind_some, behind], hu⟩

/-! ## What is torn down, or let go -/

/-- Handle `h` of level `k` has been lent, and is no more. -/
structure HandleGone (c : Cache) (k h : Nat) : Prop where
  lent : h < (c.level k).handles.length
  gone : (c.handle k h).gone = true

theorem HandleGone.of_aged {c c' : Cache} (hg : HandleGone c k h) (ha : Aged k c c') :
    HandleGone c' k h where
  lent := Nat.lt_of_lt_of_le hg.lent ha.length
  gone := (ha.ages h hg.lent).gone hg.gone

theorem gone_of_modify {c c' : Cache} (lent : h < (c.level k).handles.length)
    (hh : (c'.level k).handles =
      (c.level k).handles.modify h fun x => { x with gone := true }) : HandleGone c' k h where
  lent := by rwa [hh, List.length_modify]
  gone := by rw [handle_of_modify hh, if_pos ⟨rfl, lent⟩]

/-- A handle is torn down, or let go, until it is gone. -/
structure TornDownUntilGone (c : Cache) (f : Frame) (below : List Frame) : Prop where
  retired : ∀ {k h}, k < c.depth → (Task.retire k h).On c.depth below →
    f = .retire k h ∨ HandleGone c k h
  dropped : ∀ {k h}, k < c.depth → (Task.drop k h).On c.depth below →
    (f = .dropHandle k h ∨ f = .releasing k h ∨ ∃ fault, f = .letGo k h fault) ∨ HandleGone c k h

theorem Task.On.eq_retire {c : Cache} {f g : Frame} {below : List Frame}
    (hon : (Task.retire k h).On c.depth (f :: below)) (hf : Frame.Started f)
    (hn : f.need c = .sub g) : g = .retire k h := by
  cases Frame.needs hf hn with
  | make hx | judge hx | evict hx | letGo hx =>
    obtain ⟨rfl, ha⟩ := hon
    have := ha.symm.trans (Pool.Call.asks_of_need hx)
    cases this
    try rfl
  | _ => exact hon.elim

theorem Frame.Resumed.of_retire {c c' : Cache} {r : Reply} {f' : Frame}
    (hr : Frame.Resumed c (.retire k h) r c' f') : c' = c.forget k h := by
  cases hr with
  | retired => rfl
  | resetRaised hf => cases hf

/-- Whoever has a handle torn down does not ask the remote side. -/
theorem Task.On.hushes {d : Nat} {f : Frame} {below : List Frame} (hk : k < d)
    (hon : (Task.retire k h).On d (f :: below) ∨ (Task.drop k h).On d (f :: below)) :
    f.hushes d = true := by
  cases f with
  | within h' body =>
    rcases hon with hon | ⟨rfl, rfl, rfl⟩
    · exact hon.elim
    · rfl
  | pool j x =>
    rcases hon with ⟨rfl, hx⟩ | ⟨rfl, hx⟩ <;> simp [Frame.hushes, hx, hk]
  | _ => exact (or_self_iff.mp hon).elim

section

variable {f f' : Frame} {below : List Frame}

/-- No move brings a handle back that is gone. -/
theorem TornDownUntilGone.of_apply (ha : program.apply w m = some (w', notices))
    (hf : TornDownUntilGone w.shared f below) : TornDownUntilGone w'.shared f below := by
  have depth := depth_of_apply ha
  refine ⟨fun hk hon => ?_, fun hk hon => ?_⟩
  · exact (hf.retired (depth ▸ hk) (depth ▸ hon)).imp_right fun hg =>
      hg.of_aged (aged_of_apply (depth ▸ hk) ha)
  · exact (hf.dropped (depth ▸ hk) (depth ▸ hon)).imp_right fun hg =>
      hg.of_aged (aged_of_apply (depth ▸ hk) ha)

/-- A step of the frame that is waited for goes on with the end of the handle. -/
theorem TornDownUntilGone.step {moment : Moment}
    (hw : program.Reach (World.init (.ofLimits limits shared)) w)
    (ha : program.apply w m = some (w', notices)) (hst : w.stack i = f :: below)
    (hn : f.need w.shared = .step) (steps : Frame.Steps moment w.shared f w'.shared f')
    (hf : TornDownUntilGone w.shared f below) : TornDownUntilGone w'.shared f' below := by
  have depth := depth_of_apply ha
  refine ⟨fun {k h} hk hon => ?_, fun {k h} hk hon => ?_⟩
  · have hk := depth ▸ hk
    rcases hf.retired hk (depth ▸ hon) with rfl | hg
    · cases hn
    · exact Or.inr (hg.of_aged (aged_of_apply hk ha))
  · have hk := depth ▸ hk
    rcases hf.dropped hk (depth ▸ hon) with (rfl | rfl | ⟨fault, rfl⟩) | hg
    · exact Or.inl (Or.inr (steps.of_dropHandle.imp_right fun h => ⟨_, h⟩))
    · cases hn
    · refine Or.inr ?_
      cases steps.handles hk with
      | same _ _ stays => exact absurd rfl (stays h fault)
      | forgotten hf hh =>
        cases hf
        obtain ⟨g, rest, rfl, drops⟩ := Task.On.drops (depth ▸ hon)
        refine gone_of_modify (lt_length_of_claims hk hw (i := i) (by rw [hst]) ?_) hh
        rw [Frame.claims_of_drops drops]
        exact Nat.one_ne_zero
      | entered hf | marked hf | released hf => cases hf
    · exact Or.inr (hg.of_aged (aged_of_apply hk ha))

/-- With the result it needed, the frame that is waited for goes on with the end of the handle. -/
theorem TornDownUntilGone.resume {r : Reply} {x : Frame}
    (hw : program.Reach (World.init (.ofLimits limits shared)) w)
    (ha : program.apply w m = some (w', notices)) (place : f :: below <:+ w.stack i)
    (hn : f.need w.shared = .sub x) (resumed : Frame.Resumed w.shared f r w'.shared f')
    (hf : TornDownUntilGone w.shared f below) : TornDownUntilGone w'.shared f' below := by
  have depth := depth_of_apply ha
  refine ⟨fun {k h} hk hon => Or.inr ?_, fun {k h} hk hon => ?_⟩
  · have hk := depth ▸ hk
    rcases hf.retired hk (depth ▸ hon) with rfl | hr
    · rw [resumed.of_retire]
      refine gone_of_modify (lt_length_of_claims hk hw place ?_) (Frame.handles_modifyHandle hk ..)
      rw [Frame.claims_of_calls (by simp [Frame.calls])]
      exact Nat.one_ne_zero
    · exact hr.of_aged (aged_of_apply hk ha)
  · have hk := depth ▸ hk
    rcases hf.dropped hk (depth ▸ hon) with (rfl | rfl | ⟨fault, rfl⟩) | hr
    · cases hn
    · exact Or.inl (Or.inr (Or.inr ⟨_, resumed.of_releasing⟩))
    · cases hn
    · exact Or.inr (hr.of_aged (aged_of_apply hk ha))

end

/-- **Who has a handle torn down, or let go, waits until it is gone.** -/
theorem parted_of_reach (hw : program.Reach (World.init (.ofLimits limits shared)) w) :
    ∀ i, Stacked (TornDownUntilGone w.shared) (w.stack i) := by
  induction hw with
  | refl => exact fun i => by simp [World.stack, World.init]
  | @move w w' m notices hw ha ih =>
    have depth' := depth_of_apply ha
    have started := Frame.started_of_reach hw
    refine Program.stacked_of_effect (Program.effect_of_apply ha) ih ?_ ?_ ?_ ?_ ?_ ?_
    · exact fun i f below _ hf => hf.of_apply ha
    · rintro i op hs
      have none : ∀ {k h}, k < w'.shared.depth →
          ¬ ((Task.retire k h).On w'.shared.depth (w.stack i) ∨
            (Task.drop k h).On w'.shared.depth (w.stack i)) := by
        intro k h hk hon
        rcases hs with hs | ⟨f, below, q, hs, hq⟩
        · rw [hs] at hon
          exact (or_self_iff.mp hon).elim
        · rw [hs] at hon
          have hushes := Task.On.hushes hk hon
          rw [depth', Frame.not_hushes_of_ask hq] at hushes
          cases hushes
      exact ⟨fun hk hon => absurd (Or.inl hon) (none hk),
        fun hk hon => absurd (Or.inr hon) (none hk)⟩
    · rintro i moment f below s f' notices - - hst hn he rfl hf
      exact hf.step hw ha hst hn (Frame.steps hn he)
    · rintro i f below g hst hn -
      have started := started f (World.mem_frames_of_stack hst)
      refine ⟨fun hk hon => Or.inl ?_, fun hk hon => Or.inl (Or.inl ?_)⟩
      · rw [depth'] at hon
        exact hon.eq_retire started hn
      · rw [depth'] at hon
        exact hon.eq_dropHandle started hn
    · rintro i moment f g x rest r s g' notices - - hst hn hg he rfl - hg'
      have above : g :: rest <:+ w.stack i := by
        rw [hst]
        exact List.suffix_cons ..
      exact hg'.resume hw ha above hg (Frame.resumed (Or.inr ⟨x, hg⟩) he)
    · rintro i f below q r s f' notices - - hst hn he rfl hf
      refine ⟨fun hk hon => Or.inr ?_, fun hk hon => Or.inr ?_⟩
      · have hk := depth' ▸ hk
        rcases hf.retired hk (depth' ▸ hon) with rfl | hg
        · cases hn
        · exact hg.of_aged (aged_of_apply hk ha)
      · have hk := depth' ▸ hk
        rcases hf.dropped hk (depth' ▸ hon) with (rfl | rfl | ⟨fault, rfl⟩) | hg
        · cases hn
        · cases hn
        · cases hn
        · exact hg.of_aged (aged_of_apply hk ha)

/-! ## What is not gone -/

section

variable {D₀ D D' : Diary}

/-- A question to the owner is one step only at the innermost level. -/
theorem Frame.Steps.innermost {moment : Moment} {c c' : Cache} {x : Pool.Call Nat} {f' : Frame}
    {q : Pool.Query Nat} (hs : Frame.Steps moment c (.pool k x) c' f') (hx : x.asks = some q) :
    c.innermost k = true := by
  cases hs with
  | pool hs => cases hs.asks.symm.trans hx
  | letGoRemote count hi => exact hi

/-- A teardown at the level above ends when the handle is gone. -/
theorem gone_of_parts (hi : k + 1 < limits.length)
    (hw : program.Kept Diary.note D₀ (World.init (.ofLimits limits shared)) D w)
    (ha : program.apply w m = some (w', notices)) (hn : D.note w m w' = some D')
    (hp : Parts k h w m) : HandleGone w'.shared (k + 1) h := by
  have start : (Cache.ofLimits limits shared).depth = limits.length := depth_ofLimits limits shared
  have depth : w.shared.depth = limits.length := (stands_of_reach hw.reach).1.trans start
  cases hp with
  | @closeRaised message hm =>
    have := settles_of_heard hw ha hn hm (Or.inl (decide_eq_true (by omega)))
    cases this
  | @shed x reply hm hs =>
    obtain ⟨⟨y, asks⟩, sheds⟩ := Pool.Call.asks_of_sheds hs
    have hushes : (Frame.pool k x).hushes w.shared.depth = true := by
      rcases asks with asks | asks <;> simp [Frame.hushes, asks, depth, hi]
    cases hm with
    | @heard q r hm hx =>
      have ended := settles_of_heard hw ha hn hm (Or.inl ((depth.trans start.symm) ▸ hushes))
      have asks := sheds fun message hr => by
        rw [Frame.toPool_eq_raised hr] at ended
        cases ended
      cases Program.hears_of_apply ha hm with
      | @result i _ _ _ _ _ _ _ hst hne =>
        have parted := parted_of_reach hw.reach i
        rw [hst] at parted
        have aged := aged_of_apply (k := k + 1) (by omega) ha
        rcases asks with asks | asks
        · rcases parted.1.retired (by omega) ⟨rfl, asks⟩ with rfl | gone
          · cases hne
          · exact gone.of_aged aged
        · rcases parted.1.dropped (by omega) ⟨rfl, asks⟩ with (rfl | rfl | ⟨fault, rfl⟩) | gone
          · cases hne
          · cases hne
          · cases hne
          · exact gone.of_aged aged
      | answer hst hne =>
        rw [Frame.not_hushes_of_ask (show (Frame.pool k x).need w.shared = _ from hne)] at hushes
        cases hushes
    | letGo hm hx =>
      obtain ⟨i, moment, below, f', -, -, steps⟩ := Frame.steps_of_stepped ha hm
      have := innermost_iff.mp (steps.innermost (Pool.Call.asks_of_need hx))
      omega

/-- **A handle is with the level above until it is gone.** -/
theorem custody_of_lent (hi : k + 1 < limits.length)
    (hw : program.Kept Diary.note D₀ (World.init (.ofLimits limits shared)) D w)
    (lent : h < (w.shared.level (k + 1)).handles.length)
    (alive : (w.shared.handle (k + 1) h).gone = false) : 0 < custody k h w := by
  induction hw with
  | refl =>
    have none : ((Cache.ofLimits limits shared).level (k + 1)).handles = [] := by
      rw [level_ofLimits hi shared]
    refine absurd lent ?_
    show ¬ h < ((Cache.ofLimits limits shared).level (k + 1)).handles.length
    rw [none]
    exact Nat.not_lt_zero h
  | @move D D' w w' m notices hw ha hn ih =>
    have depth := depth_of_reach hw.reach
    obtain ⟨n, law, parts⟩ := custody_of_apply (k := k) (by omega) hw.reach ha h
    have none : n = 0 := by
      by_contra hne
      have gone := (gone_of_parts hi hw ha hn (parts hne)).gone
      rw [alive] at gone
      cases gone
    by_cases old : h < (w.shared.level (k + 1)).handles.length
    · have aged := (aged_of_apply (k := k + 1) (by omega) ha).ages h old
      have before := ih old (by
        by_contra hg
        have := aged.gone (by simpa using hg)
        rw [alive] at this
        cases this)
      omega
    · rcases lentBy_of_apply (k := k + 1) (by omega) ha with ⟨-, same⟩ | ⟨s, e, -, hm, handles⟩
      · omega
      · rw [handles, List.length_append, List.length_singleton] at lent
        obtain rfl : h = (w.shared.level (k + 1)).handles.length := by omega
        have inner : ¬ w.shared.innermost k = true := inner_iff.mpr (by omega)
        have born : bornBy k w m = [(w.shared.level (k + 1)).handles.length] := by
          unfold bornBy
          rw [hm]
          simp [Frame.bears, inner]
        rw [born, List.count_singleton_self] at law
        omega

end

end Cache

end Lending
