import Lending.Proofs.Cache.Dealings
import Lending.Proofs.Cache.Handles

/-!
# Who has a session

A session of a level is idle, on loan to a handle, or in the hands of an operation: of a call of the
pool, or of a give-back that closes it. At a level above the innermost one it is a handle of the
next level, and between the moment it is lent there and the moment it is acquired here it is a
result on its way.

* `custody`: how many have a session. No move makes it more, but the one that makes the session
  (`custody_of_apply`), and what makes it less is the end of a teardown.
* `spare`: how many may yet lend it, or make it idle.
* `custody_le_one`: at a level above the innermost one, a session is with one at a time.

At the innermost level the remote side says what is one session. If it connects under one number
twice, two sessions look like one; so `custody_of_apply` counts those that come into being, and the
laws about single sessions are about runs in which this does not happen.
-/

namespace Lending

namespace Pool.Call

variable {α : Type}

/-- The resources that a call lets go of, or is about to, on the way of a raise. -/
def strays : Call α → List α
  | .dropping r _ | .freeing (.drop r _) | .notifying (.drop r _) => [r]
  | .abandoning r rest _ => r :: rest
  | _ => []

/-- The resources that a call has, each until its owner has torn it down or let it go. -/
def owns (c : Call α) : List α := c.hands ++ c.strays

/-- The resource that a call has and may yet hand out, or make idle. -/
def spares : Call α → List α
  | .start (.release r) | .checking _ r | .over (.got r) => [r]
  | _ => []

/-- The resource that an answer is the end of; where a raise meets a raise, there are more. -/
def sheds (c : Call α) (reply : Reply α) : List α :=
  match c, reply with
  | .abandoning r rest _, .raised _ => r :: rest
  | c, reply =>
    match c.asks, c.takes reply with
    | some (.evict r), true | some (.drop r), true => [r]
    | _, _ => []

variable {m : Moment} {p p' : Pool α} {c c' : Call α} {r : Reply α}

@[simp] theorem strays_evictAll (counted : Bool) (rs : List α) :
    (evictAll counted rs).strays = [] := by
  cases rs <;> rfl

@[simp] theorem strays_abandonAll (message : String) (rs : List α) :
    (abandonAll message rs).strays = rs := by
  cases rs <;> rfl

theorem Looked.strays {deadline : Option Instant} {now : Instant}
    (h : Looked p deadline now p' c') : c'.strays = [] := by
  cases h <;> rfl

theorem Steps.strays (h : Steps m p c p' c') : c'.strays = c.strays := by
  cases h with
  | acquire h | retry h | woken _ h => exact Looked.strays h
  | free next | notify next => cases next <;> rfl
  | surplus | putBack | nothingIdle | drain | wakeDrained | grow | shrink | wakeGrown
  | setWaitLimit | nothingLeft | closeDown => rfl

/-- A step keeps what is idle and what the call has together. -/
theorem Steps.owns (h : Steps m p c p' c') : (p'.idle ++ c'.owns).Perm (p.idle ++ c.owns) := by
  unfold Call.owns
  rw [h.strays, ← List.append_assoc, ← List.append_assoc]
  exact h.hands.append_right _

/-- An answer keeps what the call has, but for what it makes or is the end of. -/
theorem Answered.owns (h : Answered c r c') :
    (c'.owns ++ c.sheds r).Perm (c.makes r ++ c.owns) := by
  cases h with
  | evicted r rest counted =>
    unfold Call.owns
    rw [hands_evictAll, strays_evictAll, List.append_nil]
    exact (List.perm_append_singleton ..).trans (List.Perm.of_eq (List.append_nil _).symm)
  | evictRaised r rest counted message =>
    unfold Call.owns
    rw [hands_abandonAll, strays_abandonAll]
    exact (List.perm_append_singleton r rest).trans (List.Perm.of_eq (List.append_nil _).symm)
  | abandoned r rest message =>
    unfold Call.owns
    rw [hands_abandonAll, strays_abandonAll]
    exact List.perm_append_singleton r rest
  | unasked ht =>
    have none : c.sheds r = [] ∧ c.makes r = [] := by
      unfold sheds makes
      constructor
      · split
        · exact absurd ht nofun
        · rw [ht]
          split <;> first | rfl | contradiction
      · split
        · exact absurd ht nofun
        · rfl
    rw [none.1, none.2, List.append_nil]
    exact List.Perm.refl _
  | stale | fresh | checkRaised | staleEvicted | staleRaised | created | notCreated | createRaised
  | dropped | dropRaised | discarded | discardRaised | surplusEvicted | surplusRaised
  | abandonRaised => exact List.Perm.refl _

theorem owns_of_bare {c : Call α} (h : c.bare = true) : c.owns = [] := by
  cases c with
  | start op => cases op <;> first | rfl | exact absurd h nofun
  | «over» r => cases r <;> first | rfl | exact absurd h nofun
  | teardown => rfl
  | _ => exact absurd h nofun

/-- A call has what it asks its owner to tear down or let go. -/
theorem mem_owns_of_asks {c : Call α} {r : α}
    (h : c.asks = some (.evict r) ∨ c.asks = some (.drop r)) : r ∈ c.owns := by
  cases c with
  | start op =>
    cases op with
    | discard =>
      rcases h with h | h <;> cases h
      simp [Call.owns, hands, lends]
    | _ => rcases h with h | h <;> cases h
  | evictingStale | evictingSurplus | evicting | dropping | abandoning =>
    rcases h with h | h <;> cases h
    simp [Call.owns, hands, tears, Call.strays]
  | _ => rcases h with h | h <;> cases h

theorem eq_creating_of_asks {c : Call α} (h : c.asks = some .create) : c = .creating := by
  cases c with
  | creating => rfl
  | start op => cases op <;> exact absurd h nofun
  | _ => exact absurd h nofun

variable [DecidableEq α]

theorem Looked.spares {deadline : Option Instant} {now : Instant}
    (h : Looked p deadline now p' c') (x : α) :
    p'.idle.count x + c'.spares.count x ≤ p.idle.count x := by
  cases h with
  | took hi =>
    rw [hi]
    simp [Call.spares, List.count_cons]
  | reserved hi hr | expired hi hr hd | parked hi hr hd => simp [Call.spares]

theorem Steps.spares (h : Steps m p c p' c') (x : α) :
    p'.idle.count x + c'.spares.count x ≤ p.idle.count x + c.spares.count x := by
  cases h with
  | acquire h | retry h | woken _ h => exact Nat.le_trans (Looked.spares h x) (Nat.le_add_right ..)
  | notify next => cases next <;> simp [Call.spares, ofThen]
  | putBack r ho => simp [Call.spares]
  | drain hi | closeDown hi => simp [Call.spares]
  | free | surplus | nothingIdle | wakeDrained | grow | shrink | wakeGrown | setWaitLimit
  | nothingLeft => simp [Call.spares]

theorem Answered.spares (h : Answered c r c') (x : α) :
    c'.spares.count x ≤ (c.makes r).count x + c.spares.count x := by
  cases h with
  | evicted _ rest | evictRaised _ rest | abandoned _ rest =>
    cases rest <;> simp [Call.spares, evictAll, abandonAll]
  | unasked => exact Nat.le_add_left ..
  | stale | fresh | checkRaised | staleEvicted | staleRaised | created | notCreated | createRaised
  | dropped | dropRaised | discarded | discardRaised | surplusEvicted | surplusRaised
  | abandonRaised => simp [Call.spares, makes]

theorem spares_le_owns (c : Call α) (x : α) : c.spares.count x ≤ c.owns.count x := by
  cases c with
  | start op => cases op <;> simp [Call.spares, Call.owns, hands, checks, lends, tears, Call.strays]
  | «over» r => cases r <;> simp [Call.spares, Call.owns, hands, checks, lends, tears, Call.strays]
  | _ => simp [Call.spares, Call.owns, hands, checks, lends, tears, List.count_cons]

end Pool.Call

namespace Cache

/-! ## A handle of the next level on its way -/

namespace Stands

variable {d k epoch : Nat} {f : Frame} {below rest : List Frame}

/-- What a pool lends from is a borrowing of the next level. -/
theorem lending (h : Stands d f (.pool k .creating :: rest)) (hk : k + 1 < d) :
    f = .borrow (k + 1) ∨ (∃ epoch, f = .borrowing (k + 1) epoch) ∨ ∃ r, f = .over r := by
  obtain ⟨t, ht, hon⟩ := h
  cases t with
  | user op =>
    obtain ⟨c, q, rfl, hq⟩ := hon
    have inner : c.innermost k = false := innermost_eq_false.mpr (by omega)
    simp [Frame.need, Pool.Call.need, Frame.ofQuery, inner] at hq
  | lend j =>
    obtain ⟨rfl, -⟩ := hon
    cases f with
    | borrow j =>
      obtain rfl := ht
      exact Or.inl rfl
    | borrowing j epoch =>
      obtain rfl := ht
      exact Or.inr (Or.inl ⟨epoch, rfl⟩)
    | «over» r => exact Or.inr (Or.inr ⟨r, rfl⟩)
    | _ => exact ht.elim
  | use =>
    obtain ⟨s, hs⟩ := hon
    cases hs
  | retire | drop => cases hon.2
  | _ => exact hon.elim

/-- A borrowing below the outermost level is for the pool above it. -/
theorem lent (h : Stands d (.borrowing (k + 1) epoch) below) :
    ∃ rest, below = .pool k .creating :: rest := by
  obtain ⟨t, ht, hon⟩ := h
  cases t with
  | user op => cases op <;> exact absurd ht nofun
  | lend j =>
    obtain rfl : k + 1 = j := ht
    cases below with
    | nil => exact hon.elim
    | cons g rest =>
      cases g with
      | pool j x =>
        obtain ⟨hj, hx⟩ := hon
        cases hj
        rw [Pool.Call.eq_creating_of_asks hx]
        exact ⟨rest, rfl⟩
      | _ => exact hon.elim
  | _ => exact ht.elim

end Stands

namespace Frame

section

variable (k s : Nat)

/-- How often an operation has session `s` of level `k`. -/
def has : Frame → Nat
  | .pool j x => if j = k then x.owns.count s else 0
  | .closing j t => if j = k ∧ t = s then 1 else 0
  | _ => 0

/-- How often an operation may yet lend session `s` of level `k`, or make it idle. -/
def spares : Frame → Nat
  | .pool j x => if j = k then x.spares.count s else 0
  | _ => 0

/-- Whether a result is handle `s` of the next level, for level `k`'s pool. -/
def arrives : Frame → List Frame → Nat
  | .over (.got n), .pool j .creating :: _ => if j = k ∧ n = s then 1 else 0
  | _, _ => 0

/-- The sessions of level `k` that a call of its pool gets with a reply. -/
def makes : Frame → Reply → List Nat
  | .pool j .creating, .got s => if j = k then [s] else []
  | _, _ => []

/-- The sessions of level `k` that come into being with a reply: remote ones as they are connected,
others as handles of the next level. -/
def bears (c : Cache) : Frame → Reply → List Nat
  | .pool j .creating, .got s => if j = k ∧ c.innermost k then [s] else []
  | .borrowing j _, .got _ =>
    if j = k + 1 ∧ ¬ c.innermost k then [(c.level j).handles.length] else []
  | _, _ => []

end

variable {k s : Nat} {m : Moment} {c c' : Cache} {f f' g : Frame} {r : Reply}
  {below : List Frame}

@[simp] theorem has_pool (k s : Nat) (x : Pool.Call Nat) :
    (pool k x).has k s = x.owns.count s := if_pos rfl

theorem ofLevel_has (k s : Nat) : OfLevel k (has k s) := by
  intro f hf
  cases f with
  | pool j x =>
    show (if j = k then x.owns.count s else 0) = 0
    by_cases hj : j = k
    · rw [if_pos hj, Pool.Call.owns_of_bare (hf hj)]
      rfl
    · exact if_neg hj
  | closing j t => exact if_neg fun h => hf h.1
  | _ => rfl

@[simp] theorem spares_pool (k s : Nat) (x : Pool.Call Nat) :
    (pool k x).spares k s = x.spares.count s := if_pos rfl

theorem spares_le_has (f : Frame) : f.spares k s ≤ f.has k s := by
  cases f with
  | pool j x =>
    show (if j = k then x.spares.count s else 0) ≤ if j = k then x.owns.count s else 0
    split
    · exact x.spares_le_owns s
    · exact Nat.le_refl _
  | _ => exact Nat.zero_le _

theorem ofLevel_spares (k s : Nat) : OfLevel k (spares k s) := fun f hf =>
  Nat.le_zero.mp ((ofLevel_has k s f hf) ▸ f.spares_le_has)

/-- A step comes to no handle. -/
theorem Steps.ne_got (h : Steps m c f c' f') (n : Nat) : f' ≠ .over (.got n) := by
  rintro rfl
  generalize hg : (Frame.over (.got n) : Frame) = g at h
  cases h with
  | letGo | factoryGone =>
    unfold releaseLevel at hg
    dsimp only at hg
    split at hg
    · cases hg
    · rename_i fault _
      cases fault <;> cases hg
  | poolGone k fault =>
    split at hg
    · cases fault <;> cases hg
    · cases hg
  | onFactory ho => cases ho <;> cases hg
  | probe | forward | dropHandle | reset => split at hg <;> cases hg
  | unavailable | onHandle | leave | last | markDirty | pool | letGoRemote | borrow
  | probeReleased | forwardReleased | alreadyReleased | close | putBack => cases hg

end Frame

section

variable (k s : Nat) (w : World Cache Frame) (m : Move Op Reply)

/-- How often handle `s` of the next level is on its way to level `k`'s pool. -/
def arriving : Nat := if w.shared.innermost k then 0 else w.weigh (Frame.arrives k s)

/-- How often session `s` of level `k` is idle, on loan, on its way, or with an operation as `ω`
counts. -/
def keeping (ω : Frame → Nat) : Nat :=
  (w.shared.level k).pool.idle.count s + (w.shared.level k).onLoan.count s + w.total ω +
    arriving k s w

/-- How often session `s` of level `k` is with somebody. -/
def custody : Nat := keeping k s w (Frame.has k s)

/-- How often session `s` of level `k` is where it may yet be lent or become idle. -/
def spare : Nat := keeping k s w (Frame.spares k s)

/-- The sessions of level `k` that its pool gets by a move. -/
def madeBy : List Nat := ((program.heard w m).map fun x => x.1.makes k x.2).getD []

/-- The sessions of level `k` that come into being by a move. -/
def bornBy : List Nat := ((program.heard w m).map fun x => x.1.bears k w.shared x.2).getD []

end

section

variable {k s i : Nat} {c : Cache} {w w' : World Cache Frame} {m : Move Op Reply}
  {notices : List Notice} {f : Frame} {below : List Frame}

/-- What a handle stands for is on loan, so somebody has it. -/
theorem keeping_of_target (ω : Frame → Nat) {h : Nat}
    (ht : (w.shared.handle k h).target = some s) : 0 < keeping k s w ω := by
  have mem : s ∈ (w.shared.level k).onLoan := by
    have lent := lt_length_of_target ht
    refine List.mem_filterMap.mpr ⟨(w.shared.level k).handles[h], List.getElem_mem lent, ?_⟩
    simpa [handle, lent] using ht
  have one := List.count_pos_iff.mpr mem
  unfold keeping
  omega

theorem keeping_of_idle (ω : Frame → Nat) (hs : s ∈ (w.shared.level k).pool.idle) :
    0 < keeping k s w ω := by
  have one := List.count_pos_iff.mpr hs
  unfold keeping
  omega

theorem innermost_eq {c c' : Cache} (h : c'.depth = c.depth) (k : Nat) :
    c'.innermost k = c.innermost k := by
  unfold innermost
  rw [h]

theorem Frame.arrives_of_ne (k s : Nat) {f : Frame} (hf : ∀ n, f ≠ .over (.got n))
    (below : List Frame) : f.arrives k s below = 0 := by
  unfold arrives
  split
  · rename_i n j _
    exact absurd rfl (hf n)
  · rfl

theorem Frame.arrives_of_need (k s : Nat) {f : Frame} (hf : ∀ r, f.need c ≠ .over r)
    (below : List Frame) : f.arrives k s below = 0 :=
  arrives_of_ne k s (fun n hn => hf (.got n) (by rw [hn]; rfl)) below

theorem Frame.arrives_of_below (s : Nat) (hb : ∀ rest, below ≠ .pool k .creating :: rest) :
    f.arrives k s below = 0 := by
  unfold arrives
  split
  · rename_i n j rest
    refine if_neg fun h => hb rest ?_
    rw [h.1]
  · rfl

theorem Frame.makes_of_ne (hf : f ≠ .pool k .creating) (r : Reply) : f.makes k r = [] := by
  unfold makes
  split
  · rename_i j n
    refine if_neg fun h => hf ?_
    rw [h]
  · rfl

/-- At the innermost level, sessions come into being as they come to the pool. -/
theorem Frame.bears_of_innermost (hi : c.innermost k = true) (f : Frame) (r : Reply) :
    f.bears k c r = f.makes k r := by
  cases f with
  | pool j x =>
    cases x with
    | creating => cases r <;> simp [bears, makes, hi]
    | _ => rfl
  | borrowing => cases r <;> simp [bears, makes, hi]
  | _ => rfl

/-- Above the innermost level, sessions come into being as a borrowing lends them. -/
theorem Frame.bears_of_inner (hi : ¬ c.innermost k = true)
    (hf : ∀ epoch, f ≠ .borrowing (k + 1) epoch) (r : Reply) : f.bears k c r = [] := by
  unfold bears
  split
  · exact if_neg fun h => hi h.2
  · rename_i j epoch n
    refine if_neg fun h => hf epoch ?_
    rw [h.1]
  · rfl

/-- What is on its way to a pool gets there. -/
theorem Stands.arrives {d : Nat} {g : Frame} {r : Reply} {rest : List Frame} (hk : k + 1 < d)
    (h : Stands d f (g :: rest)) (hn : f.need c = .over r) :
    f.arrives k s (g :: rest) = (g.makes k r).count s := by
  by_cases hg : g = .pool k .creating
  · subst hg
    rcases h.lending hk with rfl | ⟨epoch, rfl⟩ | ⟨r', rfl⟩
    · exact absurd hn nofun
    · exact absurd hn nofun
    · cases hn
      cases r with
      | got n => simp [Frame.arrives, Frame.makes, List.count_singleton]
      | _ => rfl
  · rw [Frame.makes_of_ne hg]
    refine Frame.arrives_of_below s fun rest' hr => hg ?_
    exact (List.cons.inj hr).1

/-- What a borrowing lends to the pool above it is a new handle. -/
theorem Stands.bears {d : Nat} {g f' : Frame} {c' : Cache} {r : Reply} (hk : k + 1 < d)
    (hi : ¬ c.innermost k = true) (h : Stands d f below) (hn : f.need c = .sub g)
    (hr : Frame.Resumed c f r c' f') : f'.arrives k s below = (f.bears k c r).count s := by
  by_cases hb : ∃ rest, below = .pool k .creating :: rest
  · obtain ⟨rest, rfl⟩ := hb
    rcases h.lending hk with rfl | ⟨epoch, rfl⟩ | ⟨r', rfl⟩
    · exact absurd hn nofun
    · cases hr with
      | lent => simp [Frame.arrives, Frame.bears, hi, lend, List.count_singleton]
      | notLent _ _ hne =>
        rw [Frame.arrives_of_ne k s fun n hn => hne n (by cases hn; rfl)]
        unfold Frame.bears
        split
        · exact absurd rfl (hne _)
        · exact absurd rfl (hne _)
        · rfl
      | resetRaised hf => exact absurd hf nofun
    · exact absurd hn nofun
  · have none : ∀ epoch, f ≠ .borrowing (k + 1) epoch := by
      rintro epoch rfl
      exact hb h.lent
    rw [Frame.bears_of_inner hi none]
    exact Frame.arrives_of_below s fun rest hr => hb ⟨rest, hr⟩

/-- **What the pool of a level gets has been on its way to it.** -/
theorem arriving_of_apply (hw : program.Reach (World.init c) w)
    (ha : program.apply w m = some (w', notices)) (s : Nat) :
    arriving k s w' + (madeBy k w m).count s = arriving k s w + (bornBy k w m).count s := by
  have stands := (stands_of_reach hw).2
  have depth := (stands_of_reach hw).1
  unfold arriving
  rw [innermost_eq (depth_of_apply ha)]
  by_cases hi : w.shared.innermost k = true
  · rw [if_pos hi, if_pos hi]
    unfold madeBy bornBy
    cases program.heard w m with
    | none => rfl
    | some x =>
      dsimp only [Option.map_some, Option.getD_some]
      rw [Frame.bears_of_innermost hi]
  rw [if_neg hi, if_neg hi]
  have hk : k + 1 < c.depth := depth ▸ inner_iff.mp hi
  cases Program.effect_of_apply ha with
  | spawn => rw [World.weigh_spawn]; rfl
  | @enter i op hi' =>
    rw [World.weigh_push _ hi']
    rfl
  | @step i moment f f' below c' _ hst hne he =>
    have replaced := World.weigh_replace (Frame.arrives k s) hst c' f'
    rw [Frame.arrives_of_need k s (c := w.shared) (fun r hr => absurd (hne.symm.trans hr) nofun),
      Frame.arrives_of_ne k s (Frame.steps hne he).ne_got] at replaced
    unfold madeBy bornBy
    rw [Program.heard_step hst hne]
    exact replaced
  | @descend i moment f g below hst hne =>
    have started := Frame.started_of_reach hw f (World.mem_frames_of_stack hst)
    have pushed := World.weigh_push (Frame.arrives k s) (World.lt_length_of_stack hst) w.shared g
    have none : ∀ n, g ≠ .over (.got n) := by
      rintro n rfl
      cases Frame.needs started hne with
      | within ho => cases ho
    rw [hst, Frame.arrives_of_ne k s none] at pushed
    unfold madeBy bornBy
    rw [Program.heard_descend hst hne]
    exact pushed
  | @ascend i moment f g g' h rest r c' _ hst hne hg he =>
    have top := stands i
    rw [hst] at top
    obtain ⟨top, second, -⟩ := top
    have went := World.weigh_ascend (Frame.arrives k s) hst c' g'
    rw [Frame.arrives_of_need k s (c := w.shared)
      (fun r hr => absurd (hg.symm.trans hr) nofun)] at went
    unfold madeBy bornBy
    rw [Program.heard_ascend hst hne]
    dsimp only [Option.map_some, Option.getD_some]
    have taken := top.arrives (k := k) (s := s) hk hne
    have lent := second.bears (s := s) hk hi hg (Frame.resumed (Or.inr ⟨h, hg⟩) he)
    omega
  | @answer i r f f' below q c' _ hst hne he =>
    have top := stands i
    rw [hst] at top
    have replaced := World.weigh_replace (Frame.arrives k s) hst c' f'
    have apart : ∀ rest, below ≠ .pool k .creating :: rest := by
      rintro rest rfl
      rcases top.1.lending hk with rfl | ⟨epoch, rfl⟩ | ⟨r', rfl⟩ <;> exact absurd hne nofun
    have noBirth : f.bears k w.shared r = [] := by
      refine Frame.bears_of_inner hi ?_ r
      rintro epoch rfl
      exact absurd hne nofun
    have noMaking : f.makes k r = [] := by
      refine Frame.makes_of_ne ?_ r
      rintro rfl
      refine absurd (show Frame.ofQuery w.shared k .create = .ask q from hne) ?_
      simp [Frame.ofQuery, hi]
    rw [Frame.arrives_of_below s apart, Frame.arrives_of_below s apart] at replaced
    unfold madeBy bornBy
    rw [Program.heard_answer hst]
    dsimp only [Option.map_some, Option.getD_some]
    rw [noBirth, noMaking]
    exact replaced
  | expire hst ht => rfl
  | @collect i f below r hst hne =>
    have popped := World.weigh_pop (Frame.arrives k s) hst w.shared
    have apart : ∀ rest, below ≠ .pool k .creating :: rest := by
      rintro rest rfl
      refine Program.not_sub_of_collect ha hst (.borrow (k + 1)) ?_
      show Frame.ofQuery w.shared k .create = _
      simp [Frame.ofQuery, hi]
    rw [Frame.arrives_of_below s apart] at popped
    exact popped

/-- A session of level `k` leaves whoever has it: its teardown ends. -/
inductive Parts (k s : Nat) (w : World Cache Frame) (m : Move Op Reply) : Prop
  | shed {x : Pool.Call Nat} {reply : Pool.Reply Nat} (hm : Hears k w m x reply)
      (hs : s ∈ x.sheds reply)
  | closeRaised {message : String} (hm : program.heard w m = some (.closing k s, .raised message))

/-- What a call of a pool makes of an answer is what the pool gets by the move. -/
theorem Hears.madeBy {x : Pool.Call Nat} {reply : Pool.Reply Nat} (h : Hears k w m x reply) :
    madeBy k w m = x.makes reply := by
  unfold Cache.madeBy
  cases h with
  | @heard q r hm hx =>
    rw [hm]
    dsimp only [Option.map_some, Option.getD_some]
    cases x with
    | creating =>
      cases hx
      cases r <;> simp [Frame.makes, Pool.Call.makes, Reply.toPool]
    | _ => rfl
  | letGo hm hx =>
    rw [Program.heard_of_stepped hm]
    cases x <;> rfl

theorem count_bornBy_le (k s : Nat) (w : World Cache Frame) (m : Move Op Reply) :
    (bornBy k w m).count s ≤ 1 := by
  refine Nat.le_trans List.count_le_length ?_
  unfold bornBy
  cases program.heard w m with
  | none => exact Nat.zero_le _
  | some x =>
    dsimp only [Option.map_some, Option.getD_some]
    unfold Frame.bears
    split
    · split <;> simp
    · split <;> simp
    · exact Nat.zero_le _

theorem madeBy_of_stepped (hm : program.stepped w m = some f) : madeBy k w m = [] := by
  unfold madeBy
  rw [Program.heard_of_stepped hm]
  rfl

theorem madeBy_of_heard {r : Reply} (hm : program.heard w m = some (f, r)) :
    madeBy k w m = f.makes k r := by
  unfold madeBy
  rw [hm]
  rfl

theorem madeBy_of_bare (h : ∀ x r, program.heard w m = some (.pool k x, r) → x.bare = true) :
    madeBy k w m = [] := by
  unfold madeBy
  cases hm : program.heard w m with
  | none => rfl
  | some x =>
    obtain ⟨f, r⟩ := x
    refine Frame.makes_of_ne ?_ r
    rintro rfl
    exact absurd (h _ r hm) nofun

/-- **A session passes from hand to hand**: it comes to somebody as it is made, and leaves as its
teardown ends. -/
theorem custody_of_apply (hk : k < w.shared.depth) (hw : program.Reach (World.init c) w)
    (ha : program.apply w m = some (w', notices)) (s : Nat) :
    ∃ n, custody k s w' + n = custody k s w + (bornBy k w m).count s ∧
      (n ≠ 0 → Parts k s w m) := by
  have arriving := arriving_of_apply (k := k) hw ha s
  unfold custody keeping
  cases dealt_of_apply hk hw ha with
  | none same frames hears =>
    rw [madeBy_of_bare hears] at arriving
    refine ⟨0, ?_, fun h => absurd rfl h⟩
    rw [same.idle, same.onLoan, frames _ (Frame.ofLevel_has k s)]
    simp only [List.count_nil] at arriving
    omega
  | @pool moment x x' hm hs hl frames =>
    have kept := hs.owns.count_eq s
    have frames := frames (Frame.has k s)
    rw [madeBy_of_stepped hm] at arriving
    refine ⟨0, ?_, fun h => absurd rfl h⟩
    rw [hl]
    simp only [List.count_append, List.count_nil, Frame.has_pool] at kept frames arriving
    omega
  | @answered x x' reply hm hans same frames =>
    have kept := hans.owns.count_eq s
    have frames := frames (Frame.has k s) (Frame.ofLevel_has k s)
    rw [hm.madeBy] at arriving
    refine ⟨(x.sheds reply).count s, ?_,
      fun h => .shed hm (List.count_pos_iff.mp (Nat.pos_of_ne_zero h))⟩
    rw [same.idle, same.onLoan]
    simp only [List.count_append, Frame.has_pool] at kept frames
    omega
  | @taken h t f' hm hf' idle hl frames =>
    have kept := hl.count_eq s
    have frames := frames (Frame.has k s) (Frame.ofLevel_has k s)
    have one : f'.has k s = [t].count s := by
      rcases hf' with rfl | rfl
      · simp [Frame.has, List.count_singleton]
      · exact Frame.has_pool ..
    rw [madeBy_of_stepped hm] at arriving
    refine ⟨0, ?_, fun h => absurd rfl h⟩
    rw [idle]
    simp only [List.count_cons, List.count_nil] at kept frames arriving one
    omega
  | @lent epoch t hm idle hl frames =>
    have frames := frames (Frame.has k s) (Frame.ofLevel_has k s)
    have one : (Frame.pool k (.over (.got t))).has k s = [t].count s := Frame.has_pool ..
    rw [madeBy_of_heard hm] at arriving
    refine ⟨0, ?_, fun h => absurd rfl h⟩
    rw [idle, hl]
    simp only [List.count_append, Frame.makes, List.count_nil] at frames arriving one ⊢
    omega
  | @closed t r hm same frames =>
    have frames := frames (Frame.has k s) (Frame.ofLevel_has k s)
    have one : (Frame.closing k t).has k s = (Frame.pool k (.start (.discard t))).has k s := by
      simp [Frame.has, Pool.Call.owns, Pool.Call.hands, Pool.Call.checks, Pool.Call.lends,
        Pool.Call.tears, Pool.Call.strays, List.count_singleton]
    rw [madeBy_of_heard hm] at arriving
    refine ⟨0, ?_, fun h => absurd rfl h⟩
    rw [same.idle, same.onLoan]
    simp only [Frame.makes, List.count_nil] at arriving
    omega
  | @closeRaised t message hm same frames =>
    have frames := frames (Frame.has k s) (Frame.ofLevel_has k s)
    rw [madeBy_of_heard hm] at arriving
    refine ⟨(Frame.closing k t).has k s, ?_, fun h => ?_⟩
    · rw [same.idle, same.onLoan]
      simp only [Frame.makes, List.count_nil] at arriving
      omega
    · have : t = s := by
        by_contra ht
        exact h (if_neg fun h => ht h.2)
      exact .closeRaised (this ▸ hm)

/-- **What has been taken to be closed is not lent again.** -/
theorem spare_of_apply (hk : k < w.shared.depth) (hw : program.Reach (World.init c) w)
    (ha : program.apply w m = some (w', notices)) (s : Nat) :
    spare k s w' ≤ spare k s w + (bornBy k w m).count s := by
  have arriving := arriving_of_apply (k := k) hw ha s
  unfold spare keeping
  cases dealt_of_apply hk hw ha with
  | none same frames hears =>
    rw [madeBy_of_bare hears] at arriving
    rw [same.idle, same.onLoan, frames _ (Frame.ofLevel_spares k s)]
    simp only [List.count_nil] at arriving
    omega
  | @pool moment x x' hm hs hl frames =>
    have kept := hs.spares s
    have frames := frames (Frame.spares k s)
    rw [madeBy_of_stepped hm] at arriving
    rw [hl]
    simp only [List.count_nil, Frame.spares_pool] at frames arriving
    omega
  | @answered x x' reply hm hans same frames =>
    have kept := hans.spares s
    have frames := frames (Frame.spares k s) (Frame.ofLevel_spares k s)
    rw [hm.madeBy] at arriving
    rw [same.idle, same.onLoan]
    simp only [Frame.spares_pool] at frames
    omega
  | @taken h t f' hm hf' idle hl frames =>
    have kept := hl.count_eq s
    have frames := frames (Frame.spares k s) (Frame.ofLevel_spares k s)
    have one : f'.spares k s ≤ [t].count s := by
      rcases hf' with rfl | rfl
      · exact Nat.zero_le _
      · exact Nat.le_of_eq (Frame.spares_pool ..)
    rw [madeBy_of_stepped hm] at arriving
    rw [idle]
    simp only [List.count_cons, List.count_nil] at kept arriving one
    omega
  | @lent epoch t hm idle hl frames =>
    have frames := frames (Frame.spares k s) (Frame.ofLevel_spares k s)
    have one : (Frame.pool k (.over (.got t))).spares k s = [t].count s := Frame.spares_pool ..
    rw [madeBy_of_heard hm] at arriving
    rw [idle, hl]
    simp only [List.count_append, Frame.makes, List.count_nil] at arriving ⊢
    omega
  | @closed t r hm same frames =>
    have frames := frames (Frame.spares k s) (Frame.ofLevel_spares k s)
    have none : (Frame.pool k (.start (.discard t))).spares k s = 0 := Frame.spares_pool ..
    rw [madeBy_of_heard hm] at arriving
    rw [same.idle, same.onLoan]
    simp only [Frame.makes, List.count_nil] at arriving
    omega
  | @closeRaised t message hm same frames =>
    have frames := frames (Frame.spares k s) (Frame.ofLevel_spares k s)
    rw [madeBy_of_heard hm] at arriving
    rw [same.idle, same.onLoan]
    simp only [Frame.makes, List.count_nil] at arriving
    omega

/-- What a borrowing gets is with the call of the pool that it comes from. -/
theorem keeping_of_lent {epoch : Nat} (hw : program.Reach (World.init c) w)
    (ha : program.apply w m = some (w', notices))
    (hm : program.heard w m = some (.borrowing k epoch, .got s)) {ω : Frame → Nat}
    (hω : 0 < ω (.pool k (.over (.got s)))) : 0 < keeping k s w ω := by
  cases Program.hears_of_apply ha hm with
  | @result i _ _ _ _ rest _ _ hst hne =>
    have top := (stands_of_reach hw).2 i
    rw [hst] at top
    cases top.1.over (k := k) hne with
    | bare _ hr => exact absurd rfl (hr epoch rest s rfl)
    | acquired hf hr hb =>
      cases hr
      have one := World.le_total ω (World.mem_frames_of_stack hst)
      rw [hf] at one
      unfold keeping
      omega
  | answer hst hne => cases hne

/-! ## Along a run -/

/-- A session that comes into being above the innermost level is a new handle of the next. -/
theorem fresh_of_bornBy (hi : ¬ w.shared.innermost k = true)
    (ha : program.apply w m = some (w', notices)) (hs : s ∈ bornBy k w m) :
    s = (w.shared.level (k + 1)).handles.length ∧
      (w'.shared.level (k + 1)).handles.length = s + 1 := by
  have hk : k + 1 < w.shared.depth := inner_iff.mp hi
  unfold bornBy at hs
  cases hm : program.heard w m with
  | none => rw [hm] at hs; exact absurd hs List.not_mem_nil
  | some x =>
    obtain ⟨f, r⟩ := x
    rw [hm] at hs
    dsimp only [Option.map_some, Option.getD_some] at hs
    by_cases hf : ∃ epoch, f = .borrowing (k + 1) epoch
    · obtain ⟨epoch, rfl⟩ := hf
      cases r with
      | got t =>
        have : s = (w.shared.level (k + 1)).handles.length := by
          simpa [Frame.bears, hi] using hs
        refine ⟨this, ?_⟩
        obtain ⟨i, below, f', -, resumed⟩ := Frame.resumed_of_heard ha hm
        cases resumed.handles hk with
        | same _ notLent => exact absurd rfl (notLent epoch t rfl)
        | left _ hf => exact absurd hf nofun
        | forgotten hf => rcases hf with hf | ⟨j, message, -, hf, -⟩ <;> exact absurd hf nofun
        | lent _ _ _ hh => rw [hh, this, List.length_append, List.length_singleton]
      | _ => exact absurd hs List.not_mem_nil
    · rw [Frame.bears_of_inner hi fun epoch h => hf ⟨epoch, h⟩] at hs
      exact absurd hs List.not_mem_nil

theorem keeping_init {limits : List Limits} {shared : Bool} (hk : k < limits.length) (s : Nat)
    (ω : Frame → Nat) : keeping k s (World.init (.ofLimits limits shared)) ω = 0 := by
  have level := level_ofLimits hk shared
  unfold keeping arriving
  simp only [World.init] at level ⊢
  rw [level]
  simp [Pool.ofLimits, Level.onLoan, World.total, World.frames, World.weigh, World.tally]

/-- **Above the innermost level, a session is with one at a time**, and is a handle of the next
level. -/
theorem custody_le_one {limits : List Limits} {shared : Bool} (hi : k + 1 < limits.length)
    (hw : program.Reach (World.init (.ofLimits limits shared)) w) (s : Nat) :
    custody k s w ≤ 1 ∧
      (0 < custody k s w → s < (w.shared.level (k + 1)).handles.length) := by
  induction hw with
  | refl =>
    have none : custody k s (World.init (.ofLimits limits shared)) = 0 :=
      keeping_init (by omega) s _
    rw [none]
    exact ⟨Nat.zero_le _, fun h => absurd h (Nat.lt_irrefl _)⟩
  | @move w w' m notices hw ha ih =>
    have depth := depth_of_reach hw
    have inner : ¬ w.shared.innermost k = true := inner_iff.mpr (by omega)
    obtain ⟨n, law, -⟩ := custody_of_apply (k := k) (by omega) hw ha s
    have grown := (aged_of_apply (k := k + 1) (by omega) ha).length
    by_cases hs : s ∈ bornBy k w m
    · obtain ⟨fresh, later⟩ := fresh_of_bornBy inner ha hs
      have once := count_bornBy_le k s w m
      omega
    · rw [List.count_eq_zero_of_not_mem hs] at law
      omega

end

end Cache

end Lending
