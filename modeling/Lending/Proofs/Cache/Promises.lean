import Lending.Proofs.Cache.Diary

/-!
# What the remote side and the users promise

Some laws hold as long as nothing raises, and nobody uses what he has given up. What the remote side
promises: it answers what it was asked, without raising, and connects no session twice. What the
users promise: nobody gives up a reference to the outermost factory that an operation works with.

* `underWay`: how many operations on a factory are under way.
* `Diary.pledged`: the diary of a run in which these promises are kept.
* `underWay_le_keepers`: so every operation on a factory has a reference to work with;
  `keepers_of_borrowing`: so does every borrowing, at whatever level.
-/

namespace Lending.Cache

namespace Frame

variable {k : Nat} {m : Moment} {c c' : Cache} {f f' g : Frame} {r : Reply}

/-- Whether a callback may be running for a frame, in a stack of `d` levels. -/
def outward (d : Nat) : Frame → Bool
  | .pool k x =>
    match x.asks with
    | none | some (.drop _) => false
    | some _ => decide (d ≤ k + 1)
  | .closing k _ => decide (d ≤ k + 1)
  | .remote _ | .askingShared _ | .resettingShared _ | .readingClock _ _ => true
  | _ => false

/-- Whether a frame is that of a user's operation on a factory: one to begin with, or a call of a
pool that stands on nothing or on a callback. -/
def employs (d : Nat) : Frame → List Frame → Nat
  | .borrow 0, _ | .borrowing 0 _, _ | .reset _, _ | .askingShared _, _ | .resettingShared _, _
  | .readingClock _ _, _ | .sweeping _ _, _ => 1
  | .pool _ (.over _), _ => 0
  | .pool _ _, below => if below.head?.all (outward d) then 1 else 0
  | _, _ => 0

theorem outward_of_ask {q : Query} (hn : f.need c = .ask q) : f.outward c.depth = true := by
  cases f with
  | pool k x =>
    simp only [need] at hn
    cases hx : x.need (c.level k).pool with
    | ask q' =>
      rw [hx] at hn
      have asks := Pool.Call.asks_of_need hx
      cases q' <;> simp only [ofQuery] at hn <;> split at hn <;> cases hn <;>
        (rename_i hi; simp_all [outward, innermost])
    | step | sub | wait | «over» => rw [hx] at hn; cases hn
  | closing k s =>
    simp only [need] at hn
    split at hn
    · rename_i hi
      simpa [outward, innermost] using hi
    · cases hn
  | reset k =>
    simp only [need] at hn
    split at hn <;> cases hn
  | remote | askingShared | resettingShared | readingClock => rfl
  | _ => cases hn

theorem outward_of_sub (hn : f.need c = .sub g) : f.outward c.depth = false := by
  cases f with
  | pool k x =>
    simp only [need] at hn
    cases hx : x.need (c.level k).pool with
    | ask q' =>
      rw [hx] at hn
      have asks := Pool.Call.asks_of_need hx
      cases q' <;> simp only [ofQuery] at hn <;> split at hn <;> cases hn <;>
        (rename_i hi; simp_all [outward, innermost])
    | step | sub | wait | «over» => rw [hx] at hn; cases hn
  | closing k s =>
    simp only [need] at hn
    split at hn
    · cases hn
    · rename_i hi
      simpa [outward, innermost] using hi
  | reset k =>
    simp only [need] at hn
    split at hn <;> cases hn
  | remote | askingShared | resettingShared | readingClock => cases hn
  | _ => rfl

theorem employs_le_one (d : Nat) (f : Frame) (below : List Frame) : f.employs d below ≤ 1 := by
  unfold employs
  split
  case h_9 => split <;> decide
  all_goals decide

theorem employs_pool_of_ne {d k : Nat} {x : Pool.Call Nat} (hx : ∀ r, x ≠ .over r)
    (below : List Frame) :
    (pool k x).employs d below = if below.head?.all (outward d) then 1 else 0 := by
  cases x with
  | «over» r => exact absurd rfl (hx r)
  | _ => rfl

theorem employs_pool_le {d j k : Nat} {x x' : Pool.Call Nat} (hx : ∀ r, x ≠ .over r)
    (below : List Frame) : (pool k x').employs d below ≤ (pool j x).employs d below := by
  rw [employs_pool_of_ne hx]
  cases x' with
  | «over» => exact Nat.zero_le _
  | _ => exact Nat.le_refl _

theorem employs_pool {d k : Nat} {below : List Frame}
    (hb : below.head?.all (outward d) = false) (x : Pool.Call Nat) :
    (pool k x).employs d below = 0 := by
  cases x with
  | «over» => rfl
  | _ => exact if_neg (by rw [hb]; exact nofun)

theorem employs_releaseLevel (d : Nat) (c : Cache) (k : Nat) (fault : Option String)
    (below : List Frame) : (releaseLevel c k fault).2.employs d below = 0 := by
  unfold releaseLevel
  dsimp only
  split <;> rfl

theorem employs_afterLast (d : Nat) (c : Cache) (fault : Option String) (r : Reply)
    (below : List Frame) : (afterLast c fault r).2.1.employs d below = 0 := by
  unfold afterLast
  split
  · dsimp only
    split <;> rfl
  · rfl

end Frame

section

variable {d k h s : Nat} {m : Moment} {c c' : Cache} {f f' g : Frame} {r : Reply}
  {below : List Frame}

/-- A give-back is for a frame whose callback does not run. -/
theorem Task.On.inward (hon : (Task.giveBack k h).On d below) :
    below.head?.all (Frame.outward d) = false := by
  cases below with
  | nil => exact hon.elim
  | cons g rest =>
    cases g with
    | within | retire | releasing => rfl
    | closing j t =>
      obtain ⟨rfl, rfl, hk⟩ := hon
      simpa [Frame.outward] using hk
    | _ => exact hon.elim

/-- Neither a give-back nor what it comes to is an operation on a factory. -/
theorem Task.On.employs (hon : (Task.giveBack k h).On d below) (x : Pool.Call Nat) :
    (Frame.pool k x).employs d below = 0 :=
  Frame.employs_pool hon.inward x

/-- An operation on a factory begins with a reference of its own. -/
theorem Frame.Steps.employs (hs : Frame.Steps m c f c' f') (stands : Stands d f below) :
    c.keepers + f'.employs d below ≤ c'.keepers + f.employs d below ∨
      f = .call .leave ∧ c.keepers ≠ 0 ∧ c.keepers ≤ c'.keepers + 1 ∧ f'.employs d below = 0 := by
  cases hs with
  | onFactory ho hk =>
    refine Or.inl ?_
    have := Frame.employs_le_one d f' below
    show c.keepers + _ ≤ c.keepers + 1 + 0
    omega
  | leave hk => exact Or.inr ⟨rfl, by omega, by dsimp only; omega, rfl⟩
  | last hk => exact Or.inr ⟨rfl, by omega, by dsimp only; omega, rfl⟩
  | pool hs =>
    refine Or.inl (Nat.add_le_add_left (Frame.employs_pool_le ?_ below) _)
    rintro r rfl
    cases hs
  | letGoRemote count hi hx ha =>
    refine Or.inl (Nat.add_le_add_left (Frame.employs_pool_le ?_ below) _)
    rintro r rfl
    cases hx
  | putBack =>
    obtain ⟨t, ht, hon⟩ := stands
    cases t with
    | user op => cases op <;> exact ht.elim
    | giveBack j h' =>
      obtain ⟨rfl, rfl⟩ := ht
      rw [hon.employs]
      exact Or.inl (Nat.le_add_right ..)
    | _ => exact ht.elim
  | letGo | factoryGone =>
    rw [Frame.employs_releaseLevel]
    exact Or.inl (Nat.le_add_right ..)
  | borrow k => cases k <;> exact Or.inl (Nat.le_refl _)
  | reset => split <;> exact Or.inl (Nat.le_refl _)
  | probe | forward | dropHandle | poolGone => split <;> exact Or.inl (Nat.le_refl _)
  | unavailable | onHandle | markDirty | probeReleased | forwardReleased | alreadyReleased
  | close => exact Or.inl (Nat.le_refl _)

theorem Frame.Resumed.employs (hr : Frame.Resumed c f r c' f') (stands : Stands d f below) :
    c'.keepers = c.keepers ∧ f'.employs d below ≤ f.employs d below := by
  cases hr with
  | pool count hx ha =>
    refine ⟨rfl, Frame.employs_pool_le ?_ below⟩
    rintro r rfl
    cases hx
  | closed k s hr =>
    obtain ⟨t, ht, hon⟩ := stands
    cases t with
    | user op => cases op <;> exact ht.elim
    | giveBack j h' =>
      obtain rfl := ht
      exact ⟨rfl, Nat.le_of_eq (hon.employs _)⟩
    | _ => exact ht.elim
  | closeRaised =>
    refine ⟨?_, Nat.zero_le _⟩
    split <;> rfl
  | poolWent | factoryWent =>
    rw [Frame.afterLast_fst, Frame.employs_afterLast]
    exact ⟨rfl, Nat.zero_le _⟩
  | foundShared | notShared | sharedReset | advanced | readAgain => exact ⟨rfl, Nat.le_refl _⟩
  | within | lent | notLent | remote | retired | released | poolEmptied | factoryEmptied
  | resetRaised | swept => exact ⟨rfl, Nat.zero_le _⟩

/-- What an operation needs is no operation of a user. -/
theorem Frame.Needs.employs (hn : Frame.Needs c f g) (hf : f.outward d = false) :
    g.employs d (f :: below) = 0 := by
  have head : (f :: below).head?.all (Frame.outward d) = false := hf
  cases hn with
  | within ho => cases ho <;> rfl
  | borrowing | dropPool | dropFactory | sweeping =>
    exact Frame.employs_pool head _
  | make | judge | evict | letGo | closing | retire | releasing | thenPool | thenFactory => rfl

end

section

variable (w : World Cache Frame) (m : Move Op Reply)

/-- The number of operations on a factory that are under way. -/
def underWay : Nat := w.weigh (Frame.employs w.shared.depth)

/-- Whether an answer is one to the question asked. -/
def answersWell : Bool :=
  match m with
  | .answer i r =>
    match program.status w i with
    | .asking q => q.fits r
    | _ => true
  | _ => true

/-- Whether a reference is given up only if one is left for each operation on a factory. -/
def leavesEnough : Bool :=
  match program.stepped w m with
  | some (.call .leave) => decide (w.shared.keepers = 0 ∨ underWay w < w.shared.keepers)
  | _ => true

end

/-- A move is written down, unless it breaks a promise. -/
def Diary.pledged (D : Diary) (w : World Cache Frame) (m : Move Op Reply)
    (w' : World Cache Frame) : Option Diary :=
  if answersWell w m ∧ leavesEnough w m ∧ ∀ s ∈ bornBy w.shared.bottom w m, s ∉ D.connected then
    D.note w m w'
  else none

section

variable {k i : Nat} {D₀ D D' : Diary} {c : Cache} {w w' : World Cache Frame} {m : Move Op Reply}
  {notices : List Notice}

theorem Diary.of_pledged (hn : D.pledged w m w' = some D') :
    answersWell w m = true ∧ leavesEnough w m = true ∧
    (∀ s ∈ bornBy w.shared.bottom w m, s ∉ D.connected) ∧ D.note w m w' = some D' := by
  unfold pledged at hn
  split at hn
  · rename_i promised
    exact ⟨promised.1, promised.2.1, promised.2.2, hn⟩
  · cases hn

/-- What is promised of closes is among it. -/
theorem kept_of_pledged {w₀ : World Cache Frame} (h : program.Kept Diary.pledged D₀ w₀ D w) :
    program.Kept Diary.note D₀ w₀ D w :=
  h.map id fun hn => (Diary.of_pledged hn).2.2.2

/-- **Every operation on a factory has a reference to work with.** -/
theorem underWay_le_keepers (h : program.Kept Diary.pledged D₀ (World.init c) D w) :
    underWay w ≤ w.shared.keepers := by
  induction h with
  | refl => exact Nat.zero_le _
  | @move D D' w w' m notices h ha hn ih =>
    have depth := (stands_of_reach h.reach).1
    have stands := (stands_of_reach h.reach).2
    have started := Frame.started_of_reach h.reach
    obtain ⟨-, enough, -⟩ := Diary.of_pledged hn
    unfold underWay at ih ⊢
    rw [depth_of_apply ha]
    cases Program.effect_of_apply ha with
    | spawn =>
      rw [World.weigh_spawn]
      exact ih
    | @enter i op hi =>
      rw [World.weigh_push _ hi]
      exact ih
    | @step i moment f f' below c' _ hst hne he =>
      have top := stands i
      rw [hst, ← depth] at top
      have replaced := World.weigh_replace (Frame.employs w.shared.depth) hst c' f'
      rw [World.shared_update]
      rcases (Frame.steps hne he).employs top.1 with begun | ⟨rfl, some, kept, none⟩
      · omega
      · have left : underWay w < w.shared.keepers := by
          have := Program.stepped_step (m := moment) hst hne
          simpa [leavesEnough, this, some] using enough
        unfold underWay at left
        omega
    | @descend i moment f g below hst hne =>
      have pushed := World.weigh_push (Frame.employs w.shared.depth) (World.lt_length_of_stack hst)
        w.shared g
      rw [hst, (Frame.needs (started f (World.mem_frames_of_stack hst)) hne).employs
        (Frame.outward_of_sub hne)] at pushed
      rw [pushed]
      exact ih
    | @ascend i moment f g g' h rest r c' _ hst hne hg he =>
      have top := stands i
      rw [hst, ← depth] at top
      have went := World.weigh_ascend (Frame.employs w.shared.depth) hst c' g'
      obtain ⟨kept, less⟩ := (Frame.resumed (Or.inr ⟨h, hg⟩) he).employs top.2.1
      rw [World.shared_update]
      omega
    | @answer i r f f' below q c' _ hst hne he =>
      have top := stands i
      rw [hst, ← depth] at top
      have replaced := World.weigh_replace (Frame.employs w.shared.depth) hst c' f'
      obtain ⟨kept, less⟩ := (Frame.resumed (Or.inl ⟨q, hne⟩) he).employs top.1
      rw [World.shared_update]
      omega
    | @expire i f below t hst ht =>
      have same : (program.expire w.shared f).keepers = w.shared.keepers := by
        cases f with
        | pool => rfl
        | _ => cases ht
      rw [same]
      exact ih
    | @collect i f below r hst hne =>
      have popped := World.weigh_pop (Frame.employs w.shared.depth) hst w.shared
      rw [World.shared_update]
      omega

theorem keepers_of_employs (h : program.Kept Diary.pledged D₀ (World.init c) D w) {f : Frame}
    {below : List Frame} (hf : f :: below <:+ w.stack i)
    (employs : f.employs c.depth below ≠ 0) : 0 < w.shared.keepers := by
  have depth := (stands_of_reach h.reach).1
  have few := underWay_le_keepers h
  have one := World.le_weigh (Frame.employs c.depth) hf
  unfold underWay at few
  rw [depth] at few
  omega

/-- A call of a pool that a user started works with a reference. -/
theorem keepers_of_user (h : program.Kept Diary.pledged D₀ (World.init c) D w)
    {x : Pool.Call Nat} {op : Op} {below : List Frame} (hf : .pool k x :: below <:+ w.stack i)
    (hx : ∀ r, x ≠ .over r) (hon : (Task.user op).On c.depth below) : 0 < w.shared.keepers := by
  refine keepers_of_employs h hf ?_
  have outward : below.head?.all (Frame.outward c.depth) = true := by
    cases below with
    | nil => rfl
    | cons g rest =>
      obtain ⟨c', q, hd, hq⟩ := hon
      exact hd ▸ Frame.outward_of_ask hq
  rw [Frame.employs_pool_of_ne hx, if_pos outward]
  exact Nat.one_ne_zero

/-- A pool that makes a session, or judges one, does so for a borrowing. -/
theorem Stands.acquiring {d : Nat} {x : Pool.Call Nat} {below : List Frame}
    (hs : Stands d (.pool k x) below) (hx : x.service = some .acquire) :
    ∃ epoch rest, below = .borrowing k epoch :: rest := by
  have serves : ∀ {s : Pool.Service}, x.Serves s → s = .acquire := by
    rintro s (none | some)
    · cases hx.symm.trans none
    · cases hx.symm.trans some
      rfl
  obtain ⟨t, ht, hon⟩ := hs
  cases t with
  | user op =>
    cases op with
    | destroy | setSize | setWaitLimit => cases serves ht.2
    | _ => exact ht.elim
  | acquire j =>
    cases below with
    | nil => exact hon.elim
    | cons g rest =>
      cases g with
      | borrowing j' epoch =>
        obtain ⟨rfl, -⟩ := ht
        obtain rfl := hon
        exact ⟨epoch, rest, rfl⟩
      | _ => exact hon.elim
  | sweep | teardown | giveBack => cases serves ht.2
  | _ => exact ht.elim

/-- **Who borrows, at whatever level, works with a reference.** -/
theorem keepers_of_borrowing (h : program.Kept Diary.pledged D₀ (World.init c) D w) {epoch : Nat}
    {below : List Frame} (hf : .borrowing k epoch :: below <:+ w.stack i) :
    0 < w.shared.keepers := by
  have stands := fun {f below} (hs : f :: below <:+ w.stack i) =>
    stacked_iff.mp ((stands_of_reach h.reach).2 i) f below hs
  induction k generalizing epoch below with
  | zero =>
    refine keepers_of_employs h hf ?_
    exact Nat.one_ne_zero
  | succ k ih =>
    obtain ⟨rest, rfl⟩ := (stands hf).lent
    have above : .pool k .creating :: rest <:+ w.stack i := (List.suffix_cons _ _).trans hf
    obtain ⟨epoch, rest, rfl⟩ := (stands above).acquiring rfl
    exact ih ((List.suffix_cons _ _).trans above)

end

end Lending.Cache
