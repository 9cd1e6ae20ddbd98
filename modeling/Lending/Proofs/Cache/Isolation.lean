import Lending.Proofs.Cache.Resets
import Mathlib.Data.List.Chain

/-!
# What a reset keeps apart

A reset of a level is to keep the sessions that were there before it from being lent under its
epoch. Four things happen one after the other, with no lock in common: a borrowing loads the epoch,
a release looks at it, a reset stores a new one, and then removes what is idle. So what is idle when
the epoch is stored can be borrowed under the new epoch before it is removed, and what a release is
about to make idle then outlasts the removal.

* `Tracked`: what holds of the level and the record of its resets in every run.
* `isolated_unless_left`: a session lent under an epoch was connected after the reset of that epoch
  began, unless a store left it behind; and then it was not.

The release is that of a handle: it loads the epoch, compares it with its own, and calls the pool,
and `reset_cache` may store the next epoch and remove what is idle before the pool has the session.
The borrowing is `get_session`, which loads the epoch before it acquires: so a session that it finds
idle between the store and the removal is lent under the new epoch. `Resets.left` records exactly
these two, and the law says that there is no third way.
-/

namespace Lending.Cache

/-- Above a borrowing there is only its call of the pool, and what that has taken is sound up to the
epoch the borrowing has loaded. -/
def Above (k : Nat) (L : Resets) (f g : Frame) : Prop :=
  ∀ epoch, g = .borrowing k epoch →
    ∃ x, f = .pool k x ∧ ∀ s ∈ Frame.acquired x, L.Sound s epoch

theorem Frame.Needs.above {k : Nat} {L : Resets} {c : Cache} {f g : Frame} (h : Needs c f g) :
    Above k L g f := by
  rintro epoch rfl
  cases h with
  | borrowing => exact ⟨_, rfl, nofun⟩

/-- What holds of level `k` and the record of its resets. -/
structure Tracked (k : Nat) (L : Resets) (w : World Cache Frame) : Prop where
  range   : k < w.shared.depth
  /-- Resets take turns. -/
  turn    : w.total (Frame.turn k) = if (w.shared.level k).resetting then 1 else 0
  clocks  : ∀ e ∈ w.gather (Frame.clocks k), e = (w.shared.level k).epoch
  stores  : ∀ x ∈ L.stores, x.1 ≤ (w.shared.level k).epoch ∧ x.2 ≤ L.begun
  ordered : ∀ x ∈ L.stores, ∀ y ∈ L.stores, x.1 ≤ y.1 → x.2 ≤ y.2
  current : L.Stored (w.shared.level k).epoch
  /-- What a store left behind was connected before that reset began. -/
  left    : ∀ y ∈ L.left, ∃ n, L.since y.1 = some n ∧ ∃ x ∈ L.stores, x.1 = y.2 ∧ n < x.2
  idle    : ∀ s ∈ (w.shared.level k).pool.idle, L.Sound s (w.shared.level k).epoch
  returns : ∀ s ∈ w.gather (Frame.returning k), L.Sound s (w.shared.level k).epoch
  /-- What a handle still has was lent under the handle's epoch. -/
  handles : ∀ x ∈ (w.shared.level k).handles, ∀ s, x.target = some s → (s, x.epoch) ∈ L.lent
  loads   : ∀ e ∈ w.gather (Frame.loads k), e ≤ (w.shared.level k).epoch ∧ L.Stored e
  nested  : ∀ i, (w.stack i).IsChain (Above k L)
  lent    : ∀ y ∈ L.lent, y.2 ≤ (w.shared.level k).epoch ∧ L.Stored y.2 ∧ L.Sound y.1 y.2

namespace Tracked

variable {k i : Nat} {L L' : Resets} {w : World Cache Frame} {c' : Cache} {f f' g : Frame}
  {below : List Frame}

theorem of_extends (ht : Tracked k L w) (hx : L.Extends L') : Tracked k L' w where
  range := ht.range
  turn := ht.turn
  clocks := ht.clocks
  stores := fun x h => by
    rw [hx.stores] at h
    exact ⟨(ht.stores x h).1, Nat.le_trans (ht.stores x h).2 hx.begun⟩
  ordered := by rw [hx.stores]; exact ht.ordered
  current := ht.current.extends hx
  left := fun y h => by
    rw [hx.left] at h
    obtain ⟨n, hn, x, hxs, hxy, hlt⟩ := ht.left y h
    exact ⟨n, hx.since _ n hn, x, by rw [hx.stores]; exact hxs, hxy, hlt⟩
  idle := fun s h => (ht.idle s h).extends hx
  returns := fun s h => (ht.returns s h).extends hx
  handles := by rw [hx.lent]; exact ht.handles
  loads := fun e h => ⟨(ht.loads e h).1, (ht.loads e h).2.extends hx⟩
  nested := fun j => (ht.nested j).imp fun a b hab epoch hb => by
    obtain ⟨x, ha, hs⟩ := hab epoch hb
    exact ⟨x, ha, fun s h => (hs s h).extends hx⟩
  lent := fun y h => by
    rw [hx.lent] at h
    obtain ⟨hle, hst, hso⟩ := ht.lent y h
    exact ⟨hle, hst.extends hx, hso.extends hx⟩

/-- The top frame of a thread goes, and had no turn. -/
theorem pop (ht : Tracked k L w) (hst : w.stack i = f :: below) (hf : f.turn k = 0) :
    Tracked k L (w.update i w.shared below) where
  range := ht.range
  turn := by
    have := World.total_pop (Frame.turn k) hst w.shared
    rw [hf] at this
    exact this.trans ht.turn
  clocks := fun e h => ht.clocks e (World.mem_gather_pop hst h)
  stores := ht.stores
  ordered := ht.ordered
  current := ht.current
  left := ht.left
  idle := ht.idle
  returns := fun s h => ht.returns s (World.mem_gather_pop hst h)
  handles := ht.handles
  loads := fun e h => ht.loads e (World.mem_gather_pop hst h)
  nested := by
    refine World.forall_stack_update ht.nested (World.lt_length_of_stack hst) ?_
    have := ht.nested i
    rw [hst] at this
    exact this.tail
  lent := ht.lent

/-- A frame that carries nothing comes on top of a thread. -/
theorem push (ht : Tracked k L w) (hi : i < w.threads.length) (turn : g.turn k = 0)
    (clocks : g.clocks k = []) (returns : g.returning k = []) (loads : g.loads k = [])
    (above : ∀ f ∈ (w.stack i).head?, Above k L g f) :
    Tracked k L (w.update i w.shared (g :: w.stack i)) where
  range := ht.range
  turn := by
    have := World.total_push (Frame.turn k) hi w.shared g
    rw [turn] at this
    exact this.trans ht.turn
  clocks := fun e h => by
    have := World.mem_gather_push hi h
    rw [clocks] at this
    exact ht.clocks e (this.resolve_left List.not_mem_nil)
  stores := ht.stores
  ordered := ht.ordered
  current := ht.current
  left := ht.left
  idle := ht.idle
  returns := fun s h => by
    have := World.mem_gather_push hi h
    rw [returns] at this
    exact ht.returns s (this.resolve_left List.not_mem_nil)
  handles := ht.handles
  loads := fun e h => by
    have := World.mem_gather_push hi h
    rw [loads] at this
    exact ht.loads e (this.resolve_left List.not_mem_nil)
  nested := World.forall_stack_update ht.nested hi (List.isChain_cons.mpr ⟨above, ht.nested i⟩)
  lent := ht.lent

/-- A frame takes the place of the top one of a thread, with the stack changed. -/
theorem replace (ht : Tracked k L w) (hst : w.stack i = f :: below)
    (depth : c'.depth = w.shared.depth)
    (epoch : (c'.level k).epoch = (w.shared.level k).epoch)
    (balance : f'.turn k + (if (w.shared.level k).resetting then 1 else 0) =
      f.turn k + if (c'.level k).resetting then 1 else 0)
    (carried : Frame.Carried k w.shared f f')
    (idle : ∀ s ∈ (c'.level k).pool.idle, L.Sound s (w.shared.level k).epoch)
    (handles : ∀ x ∈ (c'.level k).handles, ∀ s, x.target = some s → (s, x.epoch) ∈ L.lent)
    (above : ∀ g ∈ below.head?, Above k L f g → Above k L f' g) :
    Tracked k L (w.update i c' (f' :: below)) where
  range := depth ▸ ht.range
  turn := by
    have total := World.total_replace (Frame.turn k) hst c' f'
    rw [ht.turn] at total
    rw [World.shared_update]
    omega
  clocks := fun e h => by
    rw [World.shared_update, epoch]
    rcases World.mem_gather_replace hst h with new | old
    · rcases carried.clocks e new with he | he
      · exact he
      · exact ht.clocks e (World.mem_gather_of_stack hst he)
    · exact ht.clocks e old
  stores := by
    rw [World.shared_update, epoch]
    exact ht.stores
  ordered := ht.ordered
  current := by
    rw [World.shared_update, epoch]
    exact ht.current
  left := ht.left
  idle := by
    rw [World.shared_update, epoch]
    exact idle
  returns := fun s h => by
    rw [World.shared_update, epoch]
    rcases World.mem_gather_replace hst h with new | old
    · obtain ⟨x, hx, hs, he⟩ := carried.returning s new
      rw [← he]
      exact (ht.lent _ (ht.handles x hx s hs)).2.2
    · exact ht.returns s old
  handles := handles
  loads := fun e h => by
    rw [World.shared_update, epoch]
    rcases World.mem_gather_replace hst h with new | old
    · rw [carried.loads e new]
      exact ⟨Nat.le_refl _, ht.current⟩
    · exact ht.loads e old
  nested := by
    refine World.forall_stack_update ht.nested (World.lt_length_of_stack hst) ?_
    have := ht.nested i
    rw [hst, List.isChain_cons] at this
    exact List.isChain_cons.mpr ⟨fun g hg => above g hg (this.1 g hg), this.2⟩
  lent := by
    rw [World.shared_update, epoch]
    exact ht.lent

theorem handles_of_kept {hs : List Handle} (ht : Tracked k L w)
    (hk : Kept (w.shared.level k).handles hs) :
    ∀ x ∈ hs, ∀ s, x.target = some s → (s, x.epoch) ∈ L.lent := by
  intro x hx s hs
  obtain ⟨y, hy, he, hty⟩ := hk x hx
  rw [← he]
  rcases hty with hty | hty
  · exact ht.handles y hy s (hty.symm.trans hs)
  · rw [hs] at hty
    exact absurd hty nofun

/-- A frame takes the place of the top one, with a quiet change of the level. -/
theorem replace_quiet (ht : Tracked k L w) (hst : w.stack i = f :: below)
    (depth : c'.depth = w.shared.depth) (hq : Quiet (w.shared.level k) (c'.level k))
    (turn : f'.turn k = f.turn k) (carried : Frame.Carried k w.shared f f')
    (above : ∀ g ∈ below.head?, Above k L f g → Above k L f' g) :
    Tracked k L (w.update i c' (f' :: below)) := by
  refine ht.replace hst depth hq.epoch ?_ carried ?_ (ht.handles_of_kept hq.handles) above
  · rw [turn, hq.resetting]
  · rw [hq.pool]
    exact ht.idle

/-- A call of the level's pool takes the place of the top frame, which is one, with the pool
changed. -/
theorem replace_pool {p : Pool Nat} {x x' : Pool.Call Nat} (ht : Tracked k L w)
    (hst : w.stack i = .pool k x :: below) (depth : c'.depth = w.shared.depth)
    (hl : c'.level k = { w.shared.level k with pool := p })
    (carried : Frame.Carried k w.shared (.pool k x) (.pool k x'))
    (idle : ∀ s ∈ p.idle, L.Sound s (w.shared.level k).epoch)
    (above : ∀ g ∈ below.head?, Above k L (.pool k x) g → Above k L (.pool k x') g) :
    Tracked k L (w.update i c' (.pool k x' :: below)) := by
  refine ht.replace hst depth ?_ ?_ carried ?_ ?_ above
  · rw [hl]
  · rw [hl]
    rfl
  · rw [hl]
    exact idle
  · rw [hl]
    exact ht.handles

/-- What a borrowing below the top has loaded is an epoch so far. -/
theorem loaded_le {epoch : Nat} (ht : Tracked k L w) (hst : w.stack i = f :: below)
    (hg : .borrowing k epoch ∈ below) : epoch ≤ (w.shared.level k).epoch := by
  refine (ht.loads epoch (World.mem_gather.mpr ⟨.borrowing k epoch, ?_, ?_⟩)).1
  · exact World.mem_frames_of_below hst hg
  · simp

/-- The top frame of a thread takes a step. -/
theorem step {m : Moment} (ht : Tracked k L w) (hst : w.stack i = f :: below)
    (h : Frame.Steps m w.shared f c' f') : Tracked k L (w.update i c' (f' :: below)) := by
  have above : ∀ g ∈ below.head?, Above k L f g → Above k L f' g := by
    rintro g hg hab epoch rfl
    obtain ⟨x, rfl, hs⟩ := hab epoch rfl
    obtain ⟨x', rfl, taken⟩ := h.acquired
    refine ⟨x', rfl, fun s hx => ?_⟩
    rcases taken s hx with hx | hx
    · exact hs s hx
    · exact (ht.idle s hx).mono (ht.loaded_le hst (List.mem_of_mem_head? hg))
  cases h.level ht.range with
  | quiet hq hturn => exact ht.replace_quiet hst h.depth hq hturn h.carried above
  | @pool x x' p' hf hf' hs hl =>
    subst hf hf'
    refine ht.replace_pool hst h.depth hl h.carried (fun s hx => ?_) above
    rcases hs.idle s hx with old | rfl
    · exact ht.idle s old
    · refine ht.returns s (World.mem_gather_of_stack hst ?_)
      simp
  | answered count hf hf' ha hl =>
    subst hf hf'
    exact ht.replace_pool hst h.depth hl h.carried ht.idle above
  | turn hf hr hf' hl =>
    subst hf
    refine ht.replace hst h.depth (by rw [hl]) ?_ h.carried (by rw [hl]; exact ht.idle)
      (by rw [hl]; exact ht.handles) above
    rw [hl, hf', hr]
    rfl

/-- A reset that reads the clock has the turn, so it is the only one that reads: when it goes on,
none does. -/
theorem clocks_update {previous : Nat} (ht : Tracked k L w)
    (hst : w.stack i = .readingClock k previous :: below) (hf : f'.clocks k = []) (c' : Cache) :
    (w.update i c' (f' :: below)).gather (Frame.clocks k) = [] := by
  have replaced := (World.gather_replace (g := Frame.clocks k) hst c' f').length_eq
  have few : (w.gather (Frame.clocks k)).length ≤ w.total (Frame.turn k) := by
    rw [World.length_gather]
    exact World.total_le (Frame.length_clocks_le k)
  have one : w.total (Frame.turn k) ≤ 1 := by
    rw [ht.turn]
    split <;> omega
  rw [List.length_append, List.length_append, Frame.clocks_readingClock, hf,
    List.length_singleton, List.length_nil] at replaced
  exact List.eq_nil_of_length_eq_zero (by omega)

/-- What a borrowing has loaded is older than an epoch that is yet to be stored. -/
theorem nested_store {n : Nat} (ht : Tracked k L w) (hn : (w.shared.level k).epoch < n)
    (sessions : List Nat) (j : Nat) : (w.stack j).IsChain (Above k (L.store n sessions)) := by
  refine (ht.nested j).imp_of_mem_imp fun f g _ hg hab epoch hge => ?_
  subst hge
  obtain ⟨x, rfl, hs⟩ := hab epoch rfl
  have loaded := ht.loads epoch (World.mem_gather.mpr
    ⟨.borrowing k epoch, World.mem_frames.mpr ⟨j, hg⟩, by simp⟩)
  exact ⟨x, rfl, fun s hx => (hs s hx).store (Nat.lt_of_le_of_lt loaded.1 hn) _⟩

/-- A reset stores an epoch. -/
theorem store {previous n : Nat} (ht : Tracked k L w)
    (hst : w.stack i = .readingClock k previous :: below) (hn : previous < n) :
    Tracked k (L.store n (L.outlasting k w))
      (w.update i (w.shared.modify k fun l => { l with epoch := n }) (.sweeping k n :: below)) := by
  have level : (w.shared.modify k fun l => { l with epoch := n }).level k =
      { w.shared.level k with epoch := n } := by
    rw [level_modify, if_pos ⟨rfl, ht.range⟩]
  have old : previous = (w.shared.level k).epoch := by
    refine ht.clocks previous (World.mem_gather_of_stack hst ?_)
    simp
  rw [old] at hn
  have stores_le : ∀ x ∈ L.stores, x.1 ≤ (w.shared.level k).epoch := fun x hx => (ht.stores x hx).1
  have epoch : ((w.update i (w.shared.modify k fun l => { l with epoch := n })
      (.sweeping k n :: below)).shared.level k).epoch = n := by
    rw [World.shared_update, level]
  constructor
  case range =>
    rw [World.shared_update, depth_modify]
    exact ht.range
  case turn =>
    have total := World.total_replace (Frame.turn k) hst
      (w.shared.modify k fun l => { l with epoch := n }) (.sweeping k n)
    rw [ht.turn] at total
    rw [World.shared_update, level]
    rw [Frame.turn_readingClock, Frame.turn_sweeping] at total
    exact Nat.add_right_cancel total
  case clocks =>
    intro e h
    rw [ht.clocks_update hst rfl] at h
    exact absurd h List.not_mem_nil
  case stores =>
    rw [epoch]
    intro x hx
    rcases List.mem_cons.mp hx with rfl | hx
    · exact ⟨Nat.le_refl n, Nat.le_refl _⟩
    · exact ⟨Nat.le_of_lt (Nat.lt_of_le_of_lt (stores_le x hx) hn), (ht.stores x hx).2⟩
  case ordered =>
    intro x hx y hy hle
    rcases List.mem_cons.mp hx with rfl | hx
    · rcases List.mem_cons.mp hy with rfl | hy
      · exact Nat.le_refl _
      · exact absurd (Nat.lt_of_le_of_lt (stores_le y hy) hn) (Nat.not_lt_of_le hle)
    · rcases List.mem_cons.mp hy with rfl | hy
      · exact (ht.stores x hx).2
      · exact ht.ordered x hx y hy hle
  case current =>
    rw [epoch]
    exact Or.inr ⟨(n, L.begun), List.mem_cons_self, rfl⟩
  case left =>
    intro y hy
    rcases List.mem_append.mp hy with hy | hy
    · obtain ⟨s, hs, rfl⟩ := List.mem_map.mp hy
      have before := (List.mem_filter.mp hs).2
      cases hm : L.since s with
      | none => rw [hm] at before; exact absurd before nofun
      | some m =>
        rw [hm] at before
        exact ⟨m, hm, (n, L.begun), List.mem_cons_self, rfl, of_decide_eq_true before⟩
    · obtain ⟨m, hm, x, hx, hxy, hlt⟩ := ht.left y hy
      exact ⟨m, hm, x, List.mem_cons_of_mem _ hx, hxy, hlt⟩
  case idle =>
    rw [epoch, World.shared_update, level]
    exact fun s hs => (ht.idle s hs).store_of_mem stores_le (List.mem_append_left _ hs)
  case returns =>
    rw [epoch]
    intro s hs
    rcases World.mem_gather_replace hst hs with new | old
    · exact absurd new List.not_mem_nil
    · exact (ht.returns s old).store_of_mem stores_le (List.mem_append_right _ old)
  case handles =>
    rw [World.shared_update, level]
    exact ht.handles
  case loads =>
    rw [epoch]
    intro e he
    rcases World.mem_gather_replace hst he with new | old
    · exact absurd new List.not_mem_nil
    · obtain ⟨hle, hs⟩ := ht.loads e old
      exact ⟨Nat.le_of_lt (Nat.lt_of_le_of_lt hle hn), hs.store n _⟩
  case nested =>
    have before := ht.nested_store hn (L.outlasting k w)
    refine World.forall_stack_update before (World.lt_length_of_stack hst) ?_
    have top := before i
    rw [hst, List.isChain_cons] at top
    refine List.isChain_cons.mpr ⟨fun g hg epoch hge => ?_, top.2⟩
    obtain ⟨x, hx, -⟩ := top.1 g hg epoch hge
    exact absurd hx nofun
  case lent =>
    rw [epoch]
    intro y hy
    obtain ⟨hle, hs, hso⟩ := ht.lent y hy
    have hlt := Nat.lt_of_le_of_lt hle hn
    exact ⟨Nat.le_of_lt hlt, hs.store n _, hso.store hlt _⟩

/-- A session is written down as lent. -/
theorem lend {s epoch : Nat} (ht : Tracked k L w) (he : epoch ≤ (w.shared.level k).epoch)
    (hs : L.Stored epoch) (hso : L.Sound s epoch) :
    Tracked k { L with lent := (s, epoch) :: L.lent } w where
  range := ht.range
  turn := ht.turn
  clocks := ht.clocks
  stores := ht.stores
  ordered := ht.ordered
  current := ht.current
  left := ht.left
  idle := ht.idle
  returns := ht.returns
  handles := fun x hx s hs => List.mem_cons_of_mem _ (ht.handles x hx s hs)
  loads := ht.loads
  nested := ht.nested
  lent := fun y hy => by
    rcases List.mem_cons.mp hy with rfl | hy
    · exact ⟨he, hs, hso⟩
    · exact ht.lent y hy

/-- The top frame of a thread goes on with a reply, and nothing is stored: what it is given is sound
or written down. -/
theorem resume_of_le {r : Reply} (ht : Tracked k L w) (hst : w.stack i = f :: below)
    (h : Frame.Resumed w.shared f r c' f')
    (stays : ∀ previous n, f = .readingClock k previous → r = .reading n → n ≤ previous)
    (made : ∀ s, f = .pool k .creating → r = .got s → ∀ epoch, L.Sound s epoch)
    (lent : ∀ s epoch, f = .borrowing k epoch → r = .got s → (s, epoch) ∈ L.lent) :
    Tracked k L (w.update i c' (f' :: below)) := by
  have above : ∀ g ∈ below.head?, Above k L f g → Above k L f' g := by
    rintro g hg hab epoch rfl
    obtain ⟨x, rfl, hs⟩ := hab epoch rfl
    obtain ⟨x', rfl, taken⟩ := h.acquired
    refine ⟨x', rfl, fun s hx => ?_⟩
    rcases taken s hx with hx | ⟨rfl, hr⟩
    · exact hs s hx
    · exact made s rfl hr epoch
  cases h.level ht.range with
  | quiet hq hturn => exact ht.replace_quiet hst h.depth hq hturn h.carried above
  | answered count hf hf' ha hl =>
    subst hf hf'
    exact ht.replace_pool hst h.depth hl h.carried ht.idle above
  | @lent epoch s hf hr hl =>
    subst hf
    have balance : f'.turn k = 0 := by
      cases h with
      | lent => rfl
      | notLent => rfl
      | resetRaised hf => exact absurd hf nofun
    refine ht.replace hst h.depth (by rw [hl]) (by rw [hl, balance]; rfl) h.carried
      (by rw [hl]; exact ht.idle) ?_ above
    rw [hl]
    intro x hx s' hs'
    rcases List.mem_append.mp hx with hx | hx
    · exact ht.handles x hx s' hs'
    · cases List.mem_singleton.mp hx
      cases hs'
      exact lent s epoch rfl hr
  | ended hf hf' hl =>
    have one := Frame.resetting_iff_turn.mp hf
    have held : (w.shared.level k).resetting = true := by
      have le := w.le_total (Frame.turn k) (World.mem_frames_of_stack hst)
      rw [one, ht.turn] at le
      by_contra hr
      rw [if_neg hr] at le
      omega
    refine ht.replace hst h.depth (by rw [hl]) ?_ h.carried (by rw [hl]; exact ht.idle)
      (by rw [hl]; exact ht.handles) above
    rw [hl, hf', one, held]
    rfl
  | advanced hf hr hn hf' hl => exact absurd (stays _ _ hf hr) (Nat.not_le_of_lt hn)

/-- **A reply keeps the level tracked.** -/
theorem resume {r : Reply} {outlasting : List Nat} (ht : Tracked k L w)
    (hst : w.stack i = f :: below) (h : Frame.Resumed w.shared f r c' f')
    (hh : L.hear k outlasting f r = some L')
    (left : ∀ previous, f = .readingClock k previous → outlasting = L.outlasting k w)
    (lent : ∀ s epoch, f = .borrowing k epoch → r = .got s → L.Sound s epoch) :
    Tracked k L' (w.update i c' (f' :: below)) := by
  unfold Resets.hear at hh
  split at hh
  · rename_i j s
    by_cases hj : j = k
    · subst hj
      rw [if_pos rfl] at hh
      split at hh
      · rename_i fresh
        cases hh
        refine (ht.of_extends (Resets.extends_connect fresh)).resume_of_le hst h nofun ?_ nofun
        intro s' _ hs'
        cases hs'
        exact Resets.sound_of_connected fun x hx => (ht.stores x hx).2
      · exact absurd hh nofun
    · rw [if_neg hj] at hh
      cases hh
      refine ht.resume_of_le hst h nofun (fun s' hf => ?_) nofun
      cases hf
      exact absurd rfl hj
  · rename_i j epoch s
    by_cases hj : j = k
    · subst hj
      rw [if_pos rfl] at hh
      cases hh
      have loaded := ht.loads epoch (World.mem_gather_of_stack hst (by simp))
      have lent := ht.lend loaded.1 loaded.2 (lent s epoch rfl rfl)
      refine lent.resume_of_le hst h nofun nofun fun s' epoch' hf hr => ?_
      cases hf
      cases hr
      exact List.mem_cons_self
    · rw [if_neg hj] at hh
      cases hh
      refine ht.resume_of_le hst h nofun nofun fun s' epoch' hf => ?_
      cases hf
      exact absurd rfl hj
  · rename_i j previous n
    by_cases hj : j = k ∧ previous < n
    · obtain ⟨rfl, hn⟩ := hj
      rw [if_pos ⟨rfl, hn⟩] at hh
      cases hh
      rw [left previous rfl]
      cases h with
      | advanced => exact ht.store hst hn
      | readAgain _ _ _ hle => exact absurd (hle n rfl) (Nat.not_le_of_lt hn)
    · rw [if_neg hj] at hh
      cases hh
      refine ht.resume_of_le hst h (fun previous' n' hf hr => ?_) nofun nofun
      cases hf
      cases hr
      exact Nat.le_of_not_lt fun hn => hj ⟨rfl, hn⟩
  · rename_i noCreate noBorrow noStore
    cases hh
    refine ht.resume_of_le hst h (fun previous n hf hr => ?_) (fun s hf hr => ?_)
      fun s epoch hf hr => ?_
    · exact absurd hr (noStore k previous n hf)
    · exact absurd hr (noCreate k s hf)
    · exact absurd hr (noBorrow k epoch s hf)

/-- A level changes in what does not matter here. -/
theorem of_same (ht : Tracked k L w) (depth : c'.depth = w.shared.depth)
    (epoch : (c'.level k).epoch = (w.shared.level k).epoch)
    (resetting : (c'.level k).resetting = (w.shared.level k).resetting)
    (handles : (c'.level k).handles = (w.shared.level k).handles)
    (idle : (c'.level k).pool.idle = (w.shared.level k).pool.idle) :
    Tracked k L ⟨c', w.threads⟩ where
  range := depth ▸ ht.range
  turn := ht.turn.trans (by rw [resetting])
  clocks := epoch ▸ ht.clocks
  stores := epoch ▸ ht.stores
  ordered := ht.ordered
  current := epoch ▸ ht.current
  left := ht.left
  idle := by
    rw [idle, epoch]
    exact ht.idle
  returns := epoch ▸ ht.returns
  handles := by
    rw [handles]
    exact ht.handles
  loads := epoch ▸ ht.loads
  nested := ht.nested
  lent := epoch ▸ ht.lent

section

variable {w' : World Cache Frame}

/-- **A move keeps the level tracked.** -/
theorem move {m : Move Op Reply} {notices : List Notice} (ht : Tracked k L w)
    (hs : ∀ f ∈ w.frames, Frame.Started f)
    (ha : program.apply w m = some (w', notices)) (hn : L.note k w m w' = some L') :
    Tracked k L' w' := by
  cases Program.effect_of_apply ha with
  | spawn =>
    obtain rfl : L = L' := Option.some.inj hn
    refine ⟨ht.range, ?_, ?_, ht.stores, ht.ordered, ht.current, ht.left, ht.idle, ?_, ht.handles,
      ?_, fun j => ?_, ht.lent⟩
    · exact (World.total_spawn ..).trans ht.turn
    · rw [World.gather_spawn]
      exact ht.clocks
    · rw [World.gather_spawn]
      exact ht.returns
    · rw [World.gather_spawn]
      exact ht.loads
    · rw [World.stack_spawn]
      exact ht.nested j
  | @enter i op hi hst =>
    obtain rfl : L = L' := Option.some.inj hn
    refine ht.push hi rfl rfl rfl rfl fun f hf epoch he => ?_
    subst he
    rcases hst with hst | ⟨f, below, q, hst, hq⟩
    · rw [hst] at hf
      exact absurd hf nofun
    · rw [hst] at hf
      cases hf
      exact absurd hq nofun
  | @step i m f f' below c' _ hst hne he =>
    have notOver : ∀ r, f.need w.shared ≠ .over r := fun r h => absurd (h.symm.trans hne) nofun
    exact (ht.of_extends (Resets.extends_of_note hst notOver hn)).step hst (Frame.steps hne he)
  | @descend i m f g below hst hne =>
    have notOver : ∀ r, f.need w.shared ≠ .over r := fun r h => absurd (h.symm.trans hne) nofun
    have needs := Frame.needs (hs f (World.mem_frames_of_stack hst)) hne
    obtain ⟨turn, clocks, returns, loads⟩ := needs.carries (k := k)
    rw [← hst]
    refine (ht.of_extends (Resets.extends_of_note hst notOver hn)).push
      (World.lt_length_of_stack hst) turn clocks returns loads fun f' hf' => ?_
    rw [hst] at hf'
    cases hf'
    exact needs.above
  | @ascend i m f g g' h rest r c' _ hst hne hg he =>
    have popped := ht.pop hst (Frame.turn_of_over hne)
    have hst' := World.stack_update_self (World.lt_length_of_stack hst) w.shared (g :: rest)
    have heard := Resets.hear_of_over hst hne hn
    have resumed := Frame.resumed (Or.inr ⟨h, hg⟩) he
    rw [← World.update_update w.shared c' (g :: rest) (g' :: rest)]
    refine popped.resume hst' resumed heard (fun previous hf => ?_) fun s epoch hf hr => ?_
    · subst hf
      exact absurd hg nofun
    · subst hf hr
      have above := ht.nested i
      rw [hst, List.isChain_cons_cons] at above
      obtain ⟨x, rfl, sound⟩ := above.1 epoch rfl
      exact sound s (Frame.mem_acquired_of_over hne)
  | @answer i r f f' below q c' _ hst hne he =>
    have heard := Resets.hear_of_answer hst hn
    refine ht.resume hst (Frame.resumed (Or.inl ⟨q, hne⟩) he) heard (fun _ _ => rfl) ?_
    intro s epoch hf
    subst hf
    exact absurd hne nofun
  | @expire i f below t hst htimer =>
    obtain rfl : L = L' := Option.some.inj hn
    obtain ⟨parked, level⟩ := Frame.exists_level_expire htimer k
    refine ht.of_same (Frame.depth_expire htimer) ?_ ?_ ?_ ?_ <;> rw [level]
  | @collect i f below r hst hne =>
    obtain rfl : L = L' := Option.some.inj hn
    exact ht.pop hst (Frame.turn_of_over hne)

/-- **Every run keeps the level tracked.** -/
theorem of_kept {limits : List Limits} {shared : Bool} (hk : k < limits.length)
    (h : program.Kept (Resets.note k) {} (World.init (.ofLimits limits shared)) L w) :
    Tracked k L w := by
  induction h with
  | refl =>
    have level := level_ofLimits hk shared
    constructor
    case range => exact lt_of_lt_of_eq hk (depth_ofLimits limits shared).symm
    case turn =>
      show World.total _ _ = if ((Cache.ofLimits limits shared).level k).resetting then 1 else 0
      rw [level]
      rfl
    case current => exact Or.inl (congrArg Level.epoch level)
    case idle =>
      show ∀ s ∈ ((Cache.ofLimits limits shared).level k).pool.idle, _
      rw [level]
      exact nofun
    case handles =>
      show ∀ x ∈ ((Cache.ofLimits limits shared).level k).handles, _
      rw [level]
      exact nofun
    case nested => exact fun _ => List.isChain_nil
    all_goals exact nofun
  | move m h ha hn ih => exact ih.move (Frame.started_of_reach h.reach) ha hn

/-- A session that is sound up to the epoch of a store was connected before that reset began exactly
if it was left behind by then. -/
theorem before_iff {s epoch : Nat} (ht : Tracked k L w) (hs : L.Sound s epoch) {x : Nat × Nat}
    (hx : x ∈ L.stores) (hle : x.1 ≤ epoch) : L.Before s x.2 ↔ L.LeftBy s x.1 := by
  obtain ⟨n, hn, sound⟩ := hs
  constructor
  · rintro ⟨m, hm, hlt⟩
    obtain rfl : n = m := Option.some.inj (hn.symm.trans hm)
    exact (sound x hx hle).resolve_left (Nat.not_le_of_lt hlt)
  · rintro ⟨y, hy, rfl, hyx⟩
    obtain ⟨m, hm, x', hx', hxy, hlt⟩ := ht.left y hy
    refine ⟨m, hm, Nat.lt_of_lt_of_le hlt (ht.ordered x' hx' x hx ?_)⟩
    rw [hxy]
    exact hyx

/-- A borrowing loads the epoch there is. -/
theorem loads_of_apply {m : Move Op Reply} {notices : List Notice} {e : Nat}
    (hs : ∀ f ∈ w.frames, Frame.Started f) (ha : program.apply w m = some (w', notices))
    (he : e ∈ w'.gather (Frame.loads k)) :
    e ∈ w.gather (Frame.loads k) ∨ e = (w.shared.level k).epoch := by
  cases Program.effect_of_apply ha with
  | spawn =>
    rw [World.gather_spawn] at he
    exact Or.inl he
  | @enter i op hi =>
    exact Or.inl ((World.mem_gather_push hi he).resolve_left List.not_mem_nil)
  | step hst hne h =>
    rcases World.mem_gather_replace hst he with new | old
    · exact Or.inr ((Frame.steps hne h).carried.loads e new)
    · exact Or.inl old
  | @descend i m f g below hst hne =>
    have needs := Frame.needs (hs f (World.mem_frames_of_stack hst)) hne
    rw [← hst] at he
    have := World.mem_gather_push (World.lt_length_of_stack hst) he
    rw [(needs.carries (k := k)).2.2.2] at this
    exact Or.inl (this.resolve_left List.not_mem_nil)
  | @ascend i m f g g' h rest r c' _ hst hne hg hr =>
    have hst' := World.stack_update_self (World.lt_length_of_stack hst) w.shared (g :: rest)
    rw [← World.update_update w.shared c' (g :: rest) (g' :: rest)] at he
    rcases World.mem_gather_replace hst' he with new | old
    · exact Or.inr ((Frame.resumed (Or.inr ⟨h, hg⟩) hr).carried.loads e new)
    · exact Or.inl (World.mem_gather_pop hst old)
  | answer hst hne hr =>
    rcases World.mem_gather_replace hst he with new | old
    · exact Or.inr ((Frame.resumed (Or.inl ⟨_, hne⟩) hr).carried.loads e new)
    · exact Or.inl old
  | expire => exact Or.inl he
  | collect hst => exact Or.inl (World.mem_gather_pop hst he)

end

end Tracked

/-- **A reset keeps the sessions before it apart, but for those its store leaves behind.** Take any
level of any stack and any run in which a connection is not made twice.

* What a handle still has was lent under the epoch of the handle.
* What is lent under an epoch was connected, and the epoch is the first one or was stored.
* For every store up to that epoch, the session was connected before that reset began exactly if
  a store up to that one left it behind.
* A borrowing that loads the epoch loads one that no store so far is later than; so those of all
  resets that had ended when it began are among the stores up to its epoch. -/
theorem isolated_unless_left {limits : List Limits} {shared : Bool} {k : Nat} {L : Resets}
    {w : World Cache Frame} (hk : k < limits.length)
    (h : program.Kept (Resets.note k) {} (World.init (.ofLimits limits shared)) L w) :
    (∀ x ∈ (w.shared.level k).handles, ∀ s, x.target = some s → (s, x.epoch) ∈ L.lent) ∧
    (∀ y ∈ L.lent, (∃ n, L.since y.1 = some n) ∧ L.Stored y.2 ∧
      ∀ x ∈ L.stores, x.1 ≤ y.2 → (L.Before y.1 x.2 ↔ L.LeftBy y.1 x.1)) ∧
    ∀ m w' notices, program.apply w m = some (w', notices) →
      ∀ e ∈ w'.gather (Frame.loads k), e ∈ w.gather (Frame.loads k) ∨ ∀ x ∈ L.stores, x.1 ≤ e := by
  have ht := Tracked.of_kept hk h
  refine ⟨ht.handles, ?_, ?_⟩
  · intro y hy
    obtain ⟨-, stored, sound⟩ := ht.lent y hy
    refine ⟨⟨_, sound.choose_spec.1⟩, stored, fun x hx hle => ht.before_iff sound hx hle⟩
  · intro m w' notices ha e he
    refine (Tracked.loads_of_apply (Frame.started_of_reach h.reach) ha he).imp_right ?_
    rintro rfl x hx
    exact (ht.stores x hx).1

/-- Steps of a thread, one after the other. -/
def runs (i n : Nat) : List (Move Op Reply) := List.replicate n (.run i (.at 0))

/-- A session is lent and is being given back; a reset begins and ends after the give-back has
looked at the epoch and before the session is idle; then the session is lent again. -/
def returnedLate : List (Move Op Reply) :=
  List.flatten [
    [.spawn, .spawn, .enter 0 .getSession], runs 0 4, [.answer 0 (.got 0)], runs 0 1, [.collect 0],
    [.enter 0 (.close 0)], runs 0 3,
    [.enter 1 (.reset 0)], runs 1 2, [.answer 1 (.reading 5)], runs 1 3, [.collect 1],
    runs 0 3, [.collect 0],
    [.enter 0 .getSession], runs 0 4, [.answer 0 (.flag true)], runs 0 1, [.collect 0]]

/-- What is recorded of `returnedLate`. -/
def lentAgain : Resets where
  begun := 1
  connected := [(0, 0)]
  stores := [(5, 1)]
  left := [(0, 5)]
  lent := [(0, 5), (0, 0)]

/-- What `returnedLate` comes to. -/
def afterReturn : World Cache Frame where
  shared :=
    { levels :=
        [{ pool :=
            { allocated := 1
              capacity := 1
              counters := { created := 1, released := 1, acquired := 2 } }
           epoch := 5
           handles := [{ target := none, epoch := 0 }, { target := some 0, epoch := 5 }] }]
      keepers := 4 }
  threads := [[], []]

theorem isolated_unless_left_returnedLate :
    0 < 1 ∧
    program.keep? (Resets.note 0) {} (World.init (.ofLimits [{ size := 1 }] false)) returnedLate =
      some (lentAgain, afterReturn) ∧
    (∀ x ∈ (afterReturn.shared.level 0).handles, ∀ s, x.target = some s →
      (s, x.epoch) ∈ lentAgain.lent) ∧
    (∀ y ∈ lentAgain.lent, (∃ n, lentAgain.since y.1 = some n) ∧ lentAgain.Stored y.2 ∧
      ∀ x ∈ lentAgain.stores, x.1 ≤ y.2 →
        (lentAgain.Before y.1 x.2 ↔ lentAgain.LeftBy y.1 x.1)) ∧
    (∀ m w' notices, program.apply afterReturn m = some (w', notices) →
      ∀ e ∈ w'.gather (Frame.loads 0),
        e ∈ afterReturn.gather (Frame.loads 0) ∨ ∀ x ∈ lentAgain.stores, x.1 ≤ e) ∧
    -- the session was connected before the reset began, and is lent under the epoch of it
    (0, 5) ∈ lentAgain.lent ∧ (5, 1) ∈ lentAgain.stores ∧ lentAgain.Before 0 1 := by
  have run : program.keep? (Resets.note 0) {} (World.init (.ofLimits [{ size := 1 }] false))
      returnedLate = some (lentAgain, afterReturn) := rfl
  obtain ⟨handles, lent, loads⟩ := isolated_unless_left (by decide) (Program.kept_of_keep? run)
  exact ⟨by decide, run, handles, lent, loads, by decide, by decide, 0, rfl, by decide⟩

/-- The other way: a session is idle when a reset stores its epoch, and is lent before the reset
removes what is idle. -/
example :
    (program.keep? (Resets.note 0) {} (World.init (.ofLimits [{ size := 1 }] false)) (List.flatten [
      [.spawn, .spawn, .enter 0 .getSession], runs 0 4, [.answer 0 (.got 0)], runs 0 1,
      [.collect 0], [.enter 0 (.close 0)], runs 0 6, [.collect 0],
      [.enter 1 (.reset 0)], runs 1 2, [.answer 1 (.reading 5)],
      [.enter 0 .getSession], runs 0 4, [.answer 0 (.flag true)], runs 0 1])).map Prod.fst =
    some lentAgain := rfl

/-- Only the sessions of the level itself are kept apart: a reset of the outer one of two levels
gives the sessions back to the inner one, which lends the remote session behind them again. -/
example :
    (program.run? (World.init (.ofLimits [{}, {}] false)) (List.flatten [
      [.spawn, .enter 0 .getSession], runs 0 8, [.answer 0 (.got 0)], runs 0 3, [.collect 0],
      [.enter 0 (.close 0)], runs 0 6, [.collect 0],
      [.enter 0 (.reset 0)], runs 0 2, [.answer 0 (.reading 1)], runs 0 11, [.collect 0],
      [.enter 0 .getSession], runs 0 8, [.answer 0 (.flag true)], runs 0 3])).map
      (fun w => ((w.shared.handle 0 1).epoch, w.shared.remote? 1)) =
    some (1, some 0) := rfl

end Lending.Cache
