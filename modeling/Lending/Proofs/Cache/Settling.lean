import Lending.Proofs.Alone
import Lending.Proofs.Cache.Quiet

/-!
# What gives back comes to an end

An operation that only gives back, tears down or ends something waits for nobody: it takes no
session, and no turn. It goes down the levels, and on each level through what is in its hands. So if
it is left alone, and closes do not raise, it comes to its end.

* `Closes`: callbacks whose closes do not raise.
* `SameEpochs`: what such an operation leaves alone, the epochs and the turns among it.
* `Ends`: an operation comes to its end so; `Ends.step`, `Ends.sub`, `Ends.ask` go through one, by
  what it needs.
* `LevelEnds`: what ends on a level, from which it follows on the level above.
* `ends_of_quiet`: every such operation comes to its end.
-/

namespace Lending

namespace Pool.Call

variable {α : Type} {m : Moment} {p p' : Pool α} {c c' : Call α} {q : Query α}

/-- How much a quiet call that has begun has left to do. -/
def remaining : Call α → Nat
  | .freeing _ => 2
  | .notifying _ | .evictingSurplus _ | .grown => 1
  | .drained _ rest => rest.length + 2
  | .evicting _ rest _ => rest.length + 1
  | _ => 0

/-- The call comes nearer to its end, and stays quiet. -/
structure Nearer (c c' : Call α) : Prop where
  quiet     : c'.quiet = true
  begun     : c'.begun = true
  remaining : c.begun = true → c'.remaining < c.remaining

theorem Steps.nearer (h : Steps m p c p' c') (hc : c.quiet = true) : Nearer c c' := by
  refine ⟨h.quiet hc, h.begun, fun hb => ?_⟩
  cases h with
  | acquire | surplus | putBack | nothingIdle | drain | grow | shrink | setWaitLimit | nothingLeft
  | closeDown => cases hb
  | retry | woken => cases hc
  | free next | notify next =>
    cases next with
    | finish => exact Nat.lt_succ_self _
    | _ => cases hc
  | wakeDrained | wakeGrown => exact Nat.lt_succ_self _

/-- What a quiet call asks may be done. -/
theorem takes_done_of_quiet (hc : c.quiet = true) (ha : c.asks = some q) :
    c.takes .done = true := by
  cases c with
  | start op =>
    cases op with
    | discard => rfl
    | _ => cases ha
  | evictingSurplus | evicting => rfl
  | checking | evictingStale | creating | dropping | abandoning => cases hc
  | teardown | retry | parked | freeing | notifying | drained | grown | «over» | aborted => cases ha

theorem Answered.nearer (h : Answered c .done c') (hc : c.quiet = true) (ha : c.asks = some q) :
    Nearer c c' := by
  refine ⟨h.quiet (fun _ => nofun) hc, ?_, fun hb => ?_⟩
  · cases h with
    | discarded | surplusEvicted => rfl
    | evicted _ rest => cases rest <;> rfl
    | staleEvicted | dropped | abandoned => cases hc
    | unasked ht => cases ht.symm.trans (takes_done_of_quiet hc ha)
  · cases h with
    | discarded => cases hb
    | surplusEvicted => exact Nat.lt_succ_self _
    | evicted _ rest => cases rest <;> exact Nat.lt_succ_self _
    | staleEvicted | dropped | abandoned => cases hc
    | unasked ht => cases ht.symm.trans (takes_done_of_quiet hc ha)

/-- A quiet call waits for nobody. -/
theorem need_ne_wait_of_quiet (hc : c.quiet = true) : c.need p ≠ .wait := by
  cases c with
  | start op => cases op <;> exact nofun
  | parked | aborted => cases hc
  | _ => exact nofun

end Pool.Call

namespace Cache

/-! ## What is left alone -/

/-- A change that leaves the levels, their epochs and their turns alone. -/
structure SameEpochs (c c' : Cache) : Prop where
  depth     : c'.depth = c.depth
  epoch     : ∀ k, k < c.depth → (c'.level k).epoch = (c.level k).epoch
  resetting : ∀ k, k < c.depth → (c'.level k).resetting = (c.level k).resetting

theorem SameEpochs.refl (c : Cache) : SameEpochs c c := ⟨rfl, fun _ _ => rfl, fun _ _ => rfl⟩

theorem SameEpochs.trans {c c' c'' : Cache} (h : SameEpochs c c') (h' : SameEpochs c' c'') :
    SameEpochs c c'' where
  depth := h'.depth.trans h.depth
  epoch := fun k hk => (h'.epoch k (h.depth ▸ hk)).trans (h.epoch k hk)
  resetting := fun k hk => (h'.resetting k (h.depth ▸ hk)).trans (h.resetting k hk)

namespace Frame

variable {k : Nat} {m : Moment} {c c' : Cache} {x : Pool.Call Nat} {f f' g : Frame} {r : Reply}

theorem Steps.sameEpochs (h : Steps m c f c' f') (hf : f.quiet = true) : SameEpochs c c' := by
  have level : ∀ k, k < c.depth → (c'.level k).epoch = (c.level k).epoch ∧
      (c'.level k).resetting = (c.level k).resetting := by
    intro k hk
    cases h.level hk with
    | quiet hq => exact ⟨hq.epoch, hq.resetting⟩
    | pool _ _ _ hl | answered _ _ _ _ hl =>
      rw [hl]
      exact ⟨rfl, rfl⟩
    | turn hr =>
      rw [hr] at hf
      cases hf
  exact ⟨h.depth, fun k hk => (level k hk).1, fun k hk => (level k hk).2⟩

/-- A frame that is quiet has no turn, and borrows nothing. -/
theorem Resumed.sameEpochs (h : Resumed c f r c' f') (hf : f.quiet = true) : SameEpochs c c' := by
  have level : ∀ k, k < c.depth → (c'.level k).epoch = (c.level k).epoch ∧
      (c'.level k).resetting = (c.level k).resetting := by
    intro k hk
    cases h.level hk with
    | quiet hq => exact ⟨hq.epoch, hq.resetting⟩
    | answered _ _ _ _ hl =>
      rw [hl]
      exact ⟨rfl, rfl⟩
    | lent hb | advanced hb =>
      rw [hb] at hf
      cases hf
    | ended hr => cases hr <;> cases hf
  exact ⟨h.depth, fun k hk => (level k hk).1, fun k hk => (level k hk).2⟩

/-- Whether an operation needs another one depends on the stack's depth only. -/
theorem exists_sub_of_depth (hn : f.need c = .sub g) (hd : c'.depth = c.depth) :
    ∃ g', f.need c' = .sub g' := by
  cases f with
  | pool k x =>
    simp only [need] at hn ⊢
    cases hx : x.need (c.level k).pool with
    | ask q =>
      have asks : x.need (c'.level k).pool = .ask q := Pool.program_steady _ _ _ _ hx
      rw [hx] at hn
      rw [asks]
      cases q <;> simp only [ofQuery, innermost_eq hd] at hn ⊢ <;> exact ⟨g, hn⟩
    | step | sub | wait | «over» => rw [hx] at hn; cases hn
  | closing k s =>
    simp only [need, innermost_eq hd] at hn ⊢
    exact ⟨g, hn⟩
  | reset k =>
    simp only [need] at hn
    split at hn <;> cases hn
  | _ => exact ⟨g, hn⟩

/-- What a call of a pool gets for a teardown that did not raise. -/
theorem toPool_of_settles {q : Pool.Query Nat} (hr : r.settles = true)
    (hq : (∃ s, q = .evict s) ∨ ∃ s, q = .drop s) : r.toPool q = .done := by
  cases r with
  | done => rfl
  | refused e => rcases hq with ⟨s, rfl⟩ | ⟨s, rfl⟩ <;> rfl
  | _ => cases hr

/-- A quiet call of a pool comes nearer to its end by a step. -/
theorem Steps.nearer (h : Steps m c (.pool k x) c' f') (hx : x.quiet = true) :
    ∃ x', f' = .pool k x' ∧ Pool.Call.Nearer x x' := by
  cases h with
  | pool hs => exact ⟨_, rfl, hs.nearer hx⟩
  | letGoRemote count hi hn ha => exact ⟨_, rfl, ha.nearer hx (Pool.Call.asks_of_need hn)⟩

/-- So it does by an answer. -/
theorem Resumed.nearer (h : Resumed c (.pool k x) r c' f') (hx : x.quiet = true)
    (hr : r.settles = true) : ∃ x', f' = .pool k x' ∧ Pool.Call.Nearer x x' := by
  cases h with
  | pool count hn ha =>
    have asks := Pool.Call.asks_of_need hn
    rw [toPool_of_settles hr (Pool.Call.asks_of_quiet hx asks)] at ha
    exact ⟨_, rfl, ha.nearer hx asks⟩
  | resetRaised hf => cases hf

end Frame

/-! ## Coming to an end -/

section

variable {Memory : Type} (O : Outside Memory Query Reply) (reads : Memory → Nat)

/-- Callbacks whose closes do not raise, and read no clock. -/
structure Closes : Prop where
  settles : ∀ mem s, (O mem (.close s)).1.settles = true
  reads   : ∀ mem s, reads (O mem (.close s)).2 = reads mem

/-- The operation `f`, left alone, comes to its end without a raise; epochs, turns and clocks are
left alone. -/
def Ends (f : Frame) (c : Cache) (mem : Memory) : Prop :=
  program.Leads O f c mem fun mem' c' f' =>
    (∃ r, f'.need c' = .over r ∧ r.settles = true) ∧ SameEpochs c c' ∧ reads mem' = reads mem

/-- What gives back sessions of level `k`, in a stack of `d` levels, ends. -/
structure LevelEnds (d k : Nat) : Prop where
  giveBack    : ∀ h c mem, c.depth = d → Ends O reads (.giveBack k h) c mem
  retire      : ∀ h c mem, c.depth = d → Ends O reads (.retire k h) c mem
  dropHandle  : ∀ h c mem, c.depth = d → Ends O reads (.dropHandle k h) c mem
  dropFactory : ∀ c mem, c.depth = d → Ends O reads (.dropFactory k) c mem

end

section

variable {Memory : Type} {O : Outside Memory Query Reply} {reads : Memory → Nat}
  {f g : Frame} {c : Cache} {mem : Memory} {q : Query}

namespace Ends

/-- What ends after a move that leaves the epochs alone ends. -/
theorem after {c' : Cache} {mem' : Memory} (h : Ends O reads f c' mem') (kept : SameEpochs c c')
    (hr : reads mem' = reads mem) :
    program.Leads O f c' mem' fun mem' c' f' =>
      (∃ r, f'.need c' = .over r ∧ r.settles = true) ∧ SameEpochs c c' ∧
        reads mem' = reads mem := by
  refine h.imp ?_
  rintro mem'' c'' f'' ⟨ended, kept', hr'⟩
  exact ⟨ended, kept.trans kept', hr'.trans hr⟩

theorem here {r : Reply} (hn : f.need c = .over r) (hr : r.settles = true) :
    Ends O reads f c mem := Program.Leads.here ⟨⟨r, hn, hr⟩, .refl c, rfl⟩

theorem step (hf : f.quiet = true) (hn : f.need c = .step)
    (h : ∀ t c' f', Frame.Steps t c f c' f' → Ends O reads f' c' mem) : Ends O reads f c mem := by
  refine Program.Leads.step hn fun t => ?_
  have steps : Frame.Steps t c f (f.step t c).1 (f.step t c).2.1 := Frame.steps hn rfl
  exact (h t _ _ steps).after (steps.sameEpochs hf) rfl

theorem ask (hO : Closes O reads) (hf : f.quiet = true) (hn : f.need c = .ask q)
    (h : ∀ r c' f' mem', r.settles = true → Frame.Resumed c f r c' f' → Ends O reads f' c' mem') :
    Ends O reads f c mem := by
  obtain ⟨s, rfl⟩ := Frame.exists_close_of_quiet hf hn
  refine Program.Leads.ask hn ?_
  have resumed : Frame.Resumed c f (O mem (.close s)).1 _ _ := Frame.resumed (Or.inl ⟨_, hn⟩) rfl
  exact (h _ _ _ _ (hO.settles mem s) resumed).after (resumed.sameEpochs hf) (hO.reads mem s)

theorem sub (hf : f.quiet = true) (hn : f.need c = .sub g) (hg : Ends O reads g c mem)
    (h : ∀ r c₁ c' f' mem', r.settles = true → c₁.depth = c.depth →
      Frame.Resumed c₁ f r c' f' → Ends O reads f' c' mem') : Ends O reads f c mem := by
  refine Program.Leads.sub hn (hg.imp ?_)
  rintro mem₁ c₁ g' ⟨⟨r, ended, hr⟩, kept, hreads⟩
  obtain ⟨g'', hn'⟩ := Frame.exists_sub_of_depth hn kept.depth
  refine ⟨r, g'', ended, hn', ?_⟩
  have resumed : Frame.Resumed c₁ f r _ _ := Frame.resumed (Or.inr ⟨g'', hn'⟩) rfl
  exact (h r c₁ _ _ mem₁ hr kept.depth resumed).after (kept.trans (resumed.sameEpochs hf)) hreads

end Ends

variable {d k : Nat} {x : Pool.Call Nat}

/-- A frame that has ended without a raise. -/
theorem ends_over {r : Reply} (hr : r.settles = true) : Ends O reads (.over r) c mem :=
  .here rfl hr

/-! ### Calls of a pool -/

/-- A quiet call of a pool ends, if it does after its next move. -/
theorem ends_pool_of_nearer (hO : Closes O reads) (above : k + 1 < d → LevelEnds O reads d (k + 1))
    (hx : x.quiet = true) (hd : c.depth = d)
    (h : ∀ x' c' mem', Pool.Call.Nearer x x' → c'.depth = d → Ends O reads (.pool k x') c' mem') :
    Ends O reads (.pool k x) c mem := by
  have hf : (Frame.pool k x).quiet = true := hx
  cases hn : (Frame.pool k x).need c with
  | step =>
    refine .step hf hn fun t c' f' steps => ?_
    obtain ⟨x', rfl, nearer⟩ := steps.nearer hx
    exact h x' c' mem nearer (steps.depth.trans hd)
  | ask q =>
    refine .ask hO hf hn fun r c' f' mem' hr resumed => ?_
    obtain ⟨x', rfl, nearer⟩ := resumed.nearer hx hr
    exact h x' c' mem' nearer (resumed.depth.trans hd)
  | sub g =>
    have goesOn : ∀ r c₁ c' f' mem', r.settles = true → c₁.depth = c.depth →
        Frame.Resumed c₁ (.pool k x) r c' f' → Ends O reads f' c' mem' := by
      intro r c₁ c' f' mem' hr hd₁ resumed
      obtain ⟨x', rfl, nearer⟩ := resumed.nearer hx hr
      exact h x' c' mem' nearer (resumed.depth.trans (hd₁.trans hd))
    obtain ⟨q', -, answered⟩ := Frame.exists_sub_of_need hn
    have next := above (hd ▸ Frame.inner_of_sub answered)
    have started : Frame.Started (.pool k x) := trivial
    cases Frame.needs started hn with
    | make hq | judge hq =>
      rcases Pool.Call.asks_of_quiet hx (Pool.Call.asks_of_need hq) with ⟨y, hy⟩ | ⟨y, hy⟩ <;>
        cases hy
    | evict => exact .sub hf hn (next.retire _ c mem hd) goesOn
    | letGo => exact .sub hf hn (next.dropHandle _ c mem hd) goesOn
  | «over» r => exact .here hn (Frame.settles_of_quiet hf hn)
  | wait =>
    simp only [Frame.need] at hn
    cases hq : x.need (c.level k).pool with
    | wait => exact absurd hq (Pool.Call.need_ne_wait_of_quiet hx)
    | ask q =>
      rw [hq] at hn
      cases q <;> simp only [Frame.ofQuery] at hn <;> split at hn <;> cases hn
    | step | sub | «over» => rw [hq] at hn; cases hn

/-- **A quiet call of a pool ends**, if what it needs of the next level does. -/
theorem ends_pool (hO : Closes O reads) (above : k + 1 < d → LevelEnds O reads d (k + 1))
    (hx : x.quiet = true) (hd : c.depth = d) : Ends O reads (.pool k x) c mem := by
  have begun : ∀ (n : Nat) (x : Pool.Call Nat) (c : Cache) (mem : Memory), x.remaining ≤ n →
      x.quiet = true → x.begun = true → c.depth = d → Ends O reads (.pool k x) c mem := by
    intro n
    induction n with
    | zero =>
      intro x c mem hle hx hb hd
      refine ends_pool_of_nearer hO above hx hd fun x' c' mem' nearer _ => ?_
      exact absurd (nearer.remaining hb) (by omega)
    | succ n ih =>
      intro x c mem hle hx hb hd
      refine ends_pool_of_nearer hO above hx hd fun x' c' mem' nearer hd' => ?_
      have less := nearer.remaining hb
      exact ih x' c' mem' (by omega) nearer.quiet nearer.begun hd'
  -- a call that has not begun is one move away from one that has
  refine ends_pool_of_nearer hO above hx hd fun x' c' mem' nearer hd' => ?_
  exact begun _ x' c' mem' (Nat.le_refl _) nearer.quiet nearer.begun hd'

/-- What goes last has gone, if it does. -/
theorem ends_thenPool (h : Ends O reads (.dropPool k) c mem) :
    Ends O reads (.thenPool k none) c mem := by
  refine .sub rfl rfl h fun r c₁ c' f' mem' hr hd₁ resumed => ?_
  cases resumed with
  | poolWent =>
    refine .here (r := .done) ?_ rfl
    cases r with
    | raised => cases hr
    | _ => rfl
  | resetRaised hf => cases hf

theorem ends_thenFactory (h : Ends O reads (.dropFactory k) c mem) :
    Ends O reads (.thenFactory k none) c mem := by
  refine .sub rfl rfl h fun r c₁ c' f' mem' hr hd₁ resumed => ?_
  cases resumed with
  | factoryWent =>
    refine .here (r := .done) ?_ rfl
    cases r with
    | raised => cases hr
    | _ => rfl
  | resetRaised hf => cases hf

/-! ### One level -/

section

variable (hO : Closes O reads) (above : k + 1 < d → LevelEnds O reads d (k + 1))

include hO above

theorem ends_closing (s : Nat) (hd : c.depth = d) : Ends O reads (.closing k s) c mem := by
  have goesOn : ∀ r c₁ c' f' mem', r.settles = true → c₁.depth = c.depth →
      Frame.Resumed c₁ (.closing k s) r c' f' → Ends O reads f' c' mem' := by
    intro r c₁ c' f' mem' hr hd₁ resumed
    have depth := resumed.depth.trans (hd₁.trans hd)
    cases resumed with
    | closeRaised => cases hr
    | closed => exact ends_pool hO above rfl depth
    | resetRaised hf => cases hf
  cases hi : c.innermost k with
  | true =>
    have hn : (Frame.closing k s).need c = .ask (.close s) := if_pos hi
    exact .ask hO rfl hn fun r c' f' mem' hr resumed => goesOn r c c' f' mem' hr rfl resumed
  | false =>
    have hn : (Frame.closing k s).need c = .sub (.giveBack (k + 1) s) := by
      simp only [Frame.need, hi, Bool.false_eq_true, if_false]
    have next := above (hd ▸ innermost_eq_false.mp hi)
    exact .sub rfl hn (next.giveBack s c mem hd) goesOn

theorem ends_giveBack (h : Nat) (hd : c.depth = d) : Ends O reads (.giveBack k h) c mem := by
  refine .step rfl rfl fun t c' f' steps => ?_
  have depth := steps.depth.trans hd
  cases steps with
  | alreadyReleased => exact ends_over rfl
  | close => exact ends_closing hO above _ depth
  | putBack => exact ends_pool hO above rfl depth

theorem ends_retire (h : Nat) (hd : c.depth = d) : Ends O reads (.retire k h) c mem := by
  refine .sub rfl rfl (ends_giveBack hO above h hd) fun r c₁ c' f' mem' hr hd₁ resumed => ?_
  cases resumed with
  | retired => exact ends_over hr
  | resetRaised hf => cases hf

omit hO in
/-- The pool has gone, and the next factory goes. -/
theorem ends_poolGone (hd : c.depth = d) : Ends O reads (.poolGone k none) c mem := by
  refine .step rfl rfl fun t c' f' steps => ?_
  have depth := steps.depth.trans hd
  cases steps with
  | poolGone =>
    cases hi : c.innermost k with
    | true => exact ends_over rfl
    | false =>
      have next := above (hd ▸ innermost_eq_false.mp hi)
      exact ends_thenFactory (next.dropFactory c mem hd)

theorem ends_dropPool (hd : c.depth = d) : Ends O reads (.dropPool k) c mem := by
  refine .sub rfl rfl (ends_pool hO above rfl hd) fun r c₁ c' f' mem' hr hd₁ resumed => ?_
  have depth := resumed.depth.trans (hd₁.trans hd)
  cases resumed with
  | poolEmptied =>
    rw [Reply.fault_of_settles hr]
    exact ends_poolGone above depth
  | resetRaised hf => cases hf

/-- A handle or the factory of the level has gone, and the pool may go. -/
theorem ends_releaseLevel (c₁ : Cache) (hd : c.depth = d) :
    Ends O reads (Frame.releaseLevel c₁ k none).2 c mem := by
  unfold Frame.releaseLevel
  dsimp only
  split
  · exact ends_thenPool (ends_dropPool hO above hd)
  · exact ends_over rfl

theorem ends_letGo (h : Nat) (hd : c.depth = d) : Ends O reads (.letGo k h none) c mem := by
  refine .step rfl rfl fun t c' f' steps => ?_
  have depth := steps.depth.trans hd
  cases steps with
  | letGo => exact ends_releaseLevel hO above _ depth

theorem ends_releasing (h : Nat) (hd : c.depth = d) : Ends O reads (.releasing k h) c mem := by
  refine .sub rfl rfl (ends_giveBack hO above h hd) fun r c₁ c' f' mem' hr hd₁ resumed => ?_
  have depth := resumed.depth.trans (hd₁.trans hd)
  cases resumed with
  | released =>
    rw [Reply.fault_of_settles hr]
    exact ends_letGo hO above h depth
  | resetRaised hf => cases hf

theorem ends_dropHandle (h : Nat) (hd : c.depth = d) : Ends O reads (.dropHandle k h) c mem := by
  refine .step rfl rfl fun t c' f' steps => ?_
  cases steps with
  | dropHandle =>
    split
    · exact ends_releasing hO above h hd
    · exact ends_letGo hO above h hd

theorem ends_factoryGone (hd : c.depth = d) : Ends O reads (.factoryGone k none) c mem := by
  refine .step rfl rfl fun t c' f' steps => ?_
  have depth := steps.depth.trans hd
  cases steps with
  | factoryGone => exact ends_releaseLevel hO above _ depth

theorem ends_dropFactory (hd : c.depth = d) : Ends O reads (.dropFactory k) c mem := by
  refine .sub rfl rfl (ends_pool hO above rfl hd) fun r c₁ c' f' mem' hr hd₁ resumed => ?_
  have depth := resumed.depth.trans (hd₁.trans hd)
  cases resumed with
  | factoryEmptied =>
    rw [Reply.fault_of_settles hr]
    exact ends_factoryGone hO above depth
  | resetRaised hf => cases hf

end

/-! ### All levels -/

theorem levelEnds_of_above (hO : Closes O reads) (above : k + 1 < d → LevelEnds O reads d (k + 1)) :
    LevelEnds O reads d k where
  giveBack := fun h _ _ hd => ends_giveBack hO above h hd
  retire := fun h _ _ hd => ends_retire hO above h hd
  dropHandle := fun h _ _ hd => ends_dropHandle hO above h hd
  dropFactory := fun _ _ hd => ends_dropFactory hO above hd

/-- On every level what gives back ends, from the innermost level up. -/
theorem levelEnds (hO : Closes O reads) (d k : Nat) : LevelEnds O reads d k := by
  have upTo : ∀ n k, d ≤ k + n → LevelEnds O reads d k := by
    intro n
    induction n with
    | zero => exact fun k hk => levelEnds_of_above hO fun h => absurd h (by omega)
    | succ n ih => exact fun k hk => levelEnds_of_above hO fun _ => ih (k + 1) (by omega)
  exact upTo d k (Nat.le_add_left ..)

/-- **What gives back comes to its end** when it is left alone and closes do not raise. -/
theorem ends_of_quiet (hO : Closes O reads) (hf : f.quiet = true) : Ends O reads f c mem := by
  have above : ∀ k, k + 1 < c.depth → LevelEnds O reads c.depth (k + 1) :=
    fun k _ => levelEnds hO c.depth (k + 1)
  cases f with
  | pool k x => exact ends_pool hO (above k) hf rfl
  | giveBack k h => exact ends_giveBack hO (above k) h rfl
  | closing k s => exact ends_closing hO (above k) s rfl
  | retire k h => exact ends_retire hO (above k) h rfl
  | dropHandle k h => exact ends_dropHandle hO (above k) h rfl
  | releasing k h => exact ends_releasing hO (above k) h rfl
  | dropPool k => exact ends_dropPool hO (above k) rfl
  | dropFactory k => exact ends_dropFactory hO (above k) rfl
  | «over» r => exact ends_over hf
  | letGo k h fault =>
    obtain rfl := Option.isNone_iff_eq_none.mp hf
    exact ends_letGo hO (above k) h rfl
  | poolGone k fault =>
    obtain rfl := Option.isNone_iff_eq_none.mp hf
    exact ends_poolGone (above k) rfl
  | factoryGone k fault =>
    obtain rfl := Option.isNone_iff_eq_none.mp hf
    exact ends_factoryGone hO (above k) rfl
  | thenPool k fault =>
    obtain rfl := Option.isNone_iff_eq_none.mp hf
    exact ends_thenPool (ends_dropPool hO (above k) rfl)
  | thenFactory k fault =>
    obtain rfl := Option.isNone_iff_eq_none.mp hf
    exact ends_thenFactory (ends_dropFactory hO (above k) rfl)
  | call | within | borrow | borrowing | probe | forward | remote | reset | askingShared
  | resettingShared | readingClock | sweeping | aborted => cases hf

end

end Cache

end Lending
