import Lending.Proofs.Cache.Deeds
import Lending.Proofs.Cache.Epochs

/-!
# What becomes of a handle

A handle keeps its session until it is given back. Then the session goes to the pool, if no reset of
the level stored an epoch since the epoch of the handle was loaded and nobody marked the handle
dirty; else it is closed, and discarded then. Which of these it was is read off a journal.

* `Journal`: the epochs stored, when the epoch of each handle was loaded, and all that was done for
  give-backs.
* `LoadedSince`: as epochs only grow, two loads get the same one if nothing was stored in between,
  and only then.
* `Entry.Happened`: what an entry says was done is a move of the run (`happened_of_kept`).
* `HandleFate`: how far a handle has come, with all that was done for it.
* `JournalFates`: every handle has one of these fates, in every run (`JournalFates.of_kept`).
-/

namespace Lending.Cache

/-- Something done for a give-back. -/
structure Entry where
  handle : Nat
  deed   : Deed
  /-- How many epochs were stored before. -/
  stores : Nat
  /-- Whether the handle was dirty. -/
  dirty  : Bool
  deriving DecidableEq

/-- How a handle was lent. -/
structure Issue where
  session : Nat
  /-- How many epochs were stored when the epoch of the handle was loaded. -/
  stores  : Nat
  deriving DecidableEq

/-- What is recorded of a level's handles. -/
structure Journal where
  /-- How many epochs were stored. -/
  stores  : Nat := 0
  /-- How many were when an epoch was loaded, by the place of the borrowing, the last one first. -/
  loads   : List ((Nat × Nat) × Nat) := []
  /-- All handles, in the order of their numbers. -/
  issued  : List Issue := []
  entries : List Entry := []
  /-- The sessions that came into being. -/
  made    : List Nat := []
  deriving DecidableEq

/-- The place of a borrowing of level `k` that loads the epoch at a move. -/
def loadedBy (k : Nat) (w : World Cache Frame) (m : Move Op Reply) (w' : World Cache Frame) :
    Option (Nat × Nat) :=
  match program.stepped w m with
  | some (.borrow j) => if j = k then Program.touched w' m else none
  | _ => none

namespace Journal

/-- When the epoch was loaded that the borrowing at this place carries. -/
def loadedAt (J : Journal) (place : Option (Nat × Nat)) : Nat :=
  (place.bind fun p => J.loads.lookup p).getD 0

/-- A move is written down, as far as it matters to level `k`. It breaks a promise of the remote
side if it connects a session that there was before. -/
def note (k : Nat) (J : Journal) (w : World Cache Frame) (m : Move Op Reply)
    (w' : World Cache Frame) : Option Journal :=
  if w.shared.innermost k ∧ ∃ s ∈ bornBy k w m, s ∈ J.made then none
  else some
    { stores := J.stores + (storedBy k w m).toList.length
      loads := (loadedBy k w m w').toList.map (·, J.stores) ++ J.loads
      issued := J.issued ++ (lentBy k w m).toList.map
        (⟨·, J.loadedAt (Program.touched w' m)⟩)
      entries := J.entries ++ (doneBy k w m w').toList.map fun x =>
        ⟨x.1, x.2, J.stores, (w.shared.handle k x.1).dirty⟩
      made := J.made ++ bornBy k w m }

/-- All that was done for handle `h`. -/
def of (J : Journal) (h : Nat) : List Entry := J.entries.filter (·.handle = h)

end Journal

/-- In a run from `w₀` to `w`, an entry of level `k`'s journal was written at a move that was its
deed. -/
inductive Entry.Happened (k : Nat) (w₀ w : World Cache Frame) (e : Entry) : Prop
  | move {J : Journal} {w₁ w₂ : World Cache Frame} {m : Move Op Reply} {notices : List Notice}
      (before : program.Kept (Journal.note k) {} w₀ J w₁)
      (ha : program.apply w₁ m = some (w₂, notices)) (deed : DeedMove k w₁ m w₂ e.deed)
      (stores : e.stores = J.stores) (dirty : e.dirty = (w₁.shared.handle k e.handle).dirty)
      (after : program.Reach w₂ w)

/-- A number of epochs stored, and an epoch loaded then, by the time that `stores` were and `epoch`
is the present one. -/
def LoadedSince (epoch stores e n : Nat) : Prop := e = epoch ∧ n = stores ∨ e < epoch ∧ n < stores

theorem LoadedSince.eq_iff {epoch stores e n : Nat} (h : LoadedSince epoch stores e n) :
    e = epoch ↔ n = stores := by
  unfold LoadedSince at h
  omega

theorem LoadedSince.store {epoch stores e n epoch' : Nat} (h : LoadedSince epoch stores e n)
    (he : epoch < epoch') : LoadedSince epoch' (stores + 1) e n := by
  unfold LoadedSince at h ⊢
  omega

/-- The session of handle `h`, which was lent so, has come back: it was released once and never
closed, or closed once, and discarded once then, unless the close raised. A failure is written only
where it did (`DeedMove.fail`, by `happened_of_kept`). -/
inductive HandleSettled (h : Nat) (x : Issue) (J : Journal) : Prop
  | released {e : Entry} (hj : J.of h = [e]) (deed : e.deed = .release x.session)
      (same : e.stores = x.stores) (clean : e.dirty = false)
  | closed {e e' : Entry} (hj : J.of h = [e, e']) (deed : e.deed = .close x.session)
      (why : e.stores ≠ x.stores ∨ e.dirty = true)
      (deed' : e'.deed = .discard x.session ∨ e'.deed = .fail x.session)

theorem HandleSettled.of_eq {h : Nat} {x : Issue} {J J' : Journal} (hs : HandleSettled h x J)
    (of : J'.of h = J.of h) : HandleSettled h x J' := by
  cases hs with
  | released hj deed same clean => exact .released (of.trans hj) deed same clean
  | closed hj deed why deed' => exact .closed (of.trans hj) deed why deed'

/-- How far handle `h` of level `k` has come, which was lent so. -/
inductive HandleFate (k h : Nat) (x : Issue) (J : Journal) (w : World Cache Frame) : Prop
  /-- It has its session, and nothing has been done for it. -/
  | kept (ht : (w.shared.handle k h).target = some x.session) (hj : J.of h = [])
  /-- Its session is being closed. -/
  | closing {e : Entry} (ht : (w.shared.handle k h).target = none) (hj : J.of h = [e])
      (deed : e.deed = .close x.session) (why : e.stores ≠ x.stores ∨ e.dirty = true)
      (now : w.weigh (Frame.closes k h x.session) ≠ 0)
  | settled (ht : (w.shared.handle k h).target = none) (hs : HandleSettled h x J)

/-- What holds of level `k` and its journal. -/
structure JournalFates (k : Nat) (J : Journal) (w : World Cache Frame) : Prop where
  range  : k < w.shared.depth
  issued : J.issued.length = (w.shared.level k).handles.length
  fates  : ∀ n x, J.issued[n]? = some x → HandleFate k n x J w
  closes : ∀ n s, w.weigh (Frame.closes k n s) =
    if (J.of n).map Entry.deed = [.close s] then 1 else 0
  known  : ∀ e ∈ J.entries, e.handle < J.issued.length
  since  : ∀ n x, J.issued[n]? = some x →
    LoadedSince (w.shared.level k).epoch J.stores (w.shared.handle k n).epoch x.stores
  loads  : ∀ i, Stacked (fun f below => ∀ e, f = .borrowing k e → ∃ n,
    J.loads.lookup (i, below.length) = some n ∧ LoadedSince (w.shared.level k).epoch J.stores e n)
    (w.stack i)

section

variable {k : Nat} {J J' : Journal} {c : Cache} {w w' : World Cache Frame} {m : Move Op Reply}
  {notices : List Notice}

theorem HandleFate.transfer {h : Nat} {x : Issue} (hf : HandleFate k h x J w)
    (target : (w'.shared.handle k h).target = (w.shared.handle k h).target)
    (of : J'.of h = J.of h)
    (closes : w'.weigh (Frame.closes k h x.session) = w.weigh (Frame.closes k h x.session)) :
    HandleFate k h x J' w' := by
  cases hf with
  | kept ht hj => exact .kept (target.trans ht) (of.trans hj)
  | closing ht hj deed why now =>
    exact .closing (target.trans ht) (of.trans hj) deed why (closes.symm ▸ now)
  | settled ht hs => exact .settled (target.trans ht) (hs.of_eq of)

theorem exists_of_note (hn : J.note k w m w' = some J') :
    ¬ (w.shared.innermost k ∧ ∃ s ∈ bornBy k w m, s ∈ J.made) ∧
    J'.stores = J.stores + (storedBy k w m).toList.length ∧
    J'.loads = (loadedBy k w m w').toList.map (·, J.stores) ++ J.loads ∧
    J'.issued = J.issued ++ (lentBy k w m).toList.map (⟨·, J.loadedAt (Program.touched w' m)⟩) ∧
    J'.entries = J.entries ++ ((doneBy k w m w').toList.map fun x =>
      ⟨x.1, x.2, J.stores, (w.shared.handle k x.1).dirty⟩) ∧
    J'.made = J.made ++ bornBy k w m := by
  unfold Journal.note at hn
  split at hn
  · exact absurd hn nofun
  · rename_i new
    cases hn
    exact ⟨new, rfl, rfl, rfl, rfl, rfl⟩

/-- **What a journal says was done has been done**, at a move of the run. -/
theorem happened_of_kept {w₀ : World Cache Frame}
    (h : program.Kept (Journal.note k) {} w₀ J w) : ∀ e ∈ J.entries, e.Happened k w₀ w := by
  induction h with
  | refl => exact nofun
  | @move J J' w w' m notices h ha hn ih =>
    intro e he
    obtain ⟨-, -, -, -, entries, -⟩ := exists_of_note hn
    rw [entries, List.mem_append] at he
    rcases he with old | new
    · obtain ⟨before, ha', deed, stores, dirty, after⟩ := ih e old
      exact ⟨before, ha', deed, stores, dirty, .move m after ha⟩
    · obtain ⟨⟨n, d⟩, hd, rfl⟩ := List.mem_map.mp new
      rw [Option.mem_toList] at hd
      exact ⟨h, ha, deedMove_of_apply ha hd, rfl, rfl, .refl⟩

section

variable {n h : Nat} {d : Deed}

/-- The entries of a handle after a move that does nothing for any. -/
theorem of_note_none (hn : J.note k w m w' = some J') (hd : doneBy k w m w' = none) :
    J'.of n = J.of n := by
  obtain ⟨-, -, -, -, entries, -⟩ := exists_of_note hn
  unfold Journal.of
  rw [entries, hd]
  simp

/-- The entries of a handle after a move that does something for another one. -/
theorem of_note_ne (hn : J.note k w m w' = some J') (hd : doneBy k w m w' = some (h, d))
    (hh : n ≠ h) : J'.of n = J.of n := by
  obtain ⟨-, -, -, -, entries, -⟩ := exists_of_note hn
  unfold Journal.of
  rw [entries, List.filter_append, hd]
  simp [hh.symm]

/-- The entries of a handle after a move that does something for it. -/
theorem of_note_self (hn : J.note k w m w' = some J') (hd : doneBy k w m w' = some (n, d)) :
    J'.of n = J.of n ++ [⟨n, d, J.stores, (w.shared.handle k n).dirty⟩] := by
  obtain ⟨-, -, -, -, entries, -⟩ := exists_of_note hn
  unfold Journal.of
  rw [entries, List.filter_append, hd]
  simp

end

/-! ## When an epoch was loaded -/

theorem Frame.Steps.borrow_of_borrowing {moment : Moment} {c c' : Cache} {f : Frame} {e : Nat}
    (hs : Frame.Steps moment c f c' (.borrowing k e)) :
    f = .borrow k ∧ e = (c.level k).epoch := by
  generalize hg : (Frame.borrowing k e : Frame) = g at hs
  cases hs with
  | borrow j =>
    cases hg
    exact ⟨rfl, rfl⟩
  | letGo | factoryGone =>
    unfold Frame.releaseLevel at hg
    dsimp only at hg
    split at hg <;> cases hg
  | onFactory ho => cases ho <;> cases hg
  | probe | forward | dropHandle | poolGone | reset => split at hg <;> cases hg
  | unavailable | onHandle | leave | last | markDirty | pool | letGoRemote | probeReleased
  | forwardReleased | alreadyReleased | close | putBack => cases hg

theorem Frame.Resumed.ne_borrowing {c c' : Cache} {f f' : Frame} {r : Reply}
    (hr : Frame.Resumed c f r c' f') (e : Nat) : f' ≠ .borrowing k e := by
  rintro rfl
  generalize hg : (Frame.borrowing k e : Frame) = g at hr
  cases hr with
  | poolWent | factoryWent =>
    unfold Frame.afterLast at hg
    split at hg
    · dsimp only at hg
      split at hg <;> cases hg
    · cases hg
  | within | pool | lent | notLent | remote | closeRaised | closed | retired | released
  | poolEmptied | factoryEmptied | resetRaised | foundShared | notShared | sharedReset | advanced
  | readAgain | swept => cases hg

theorem lookup_of_note (hn : J.note k w m w' = some J') {p : Nat × Nat}
    (hp : Program.touched w' m ≠ some p) : J'.loads.lookup p = J.loads.lookup p := by
  obtain ⟨-, -, loads, -⟩ := exists_of_note hn
  rw [loads]
  cases hl : loadedBy k w m w' with
  | none => rfl
  | some q =>
    have : Program.touched w' m = some q := by
      unfold loadedBy at hl
      split at hl
      · split at hl
        · exact hl
        · exact absurd hl nofun
      · exact absurd hl nofun
    have hne : (p == q) = false := by
      rw [beq_eq_false_iff_ne]
      rintro rfl
      exact hp this
    simp [List.lookup_cons, hne]

/-- When an epoch was current stays known: an epoch that is stored is a later one. -/
theorem LoadedSince.of_apply {e n : Nat} (hs : LoadedSince (w.shared.level k).epoch J.stores e n)
    (hk : k < w.shared.depth) (paced : EpochsPaced k w)
    (ha : program.apply w m = some (w', notices)) (hn : J.note k w m w' = some J') :
    LoadedSince (w'.shared.level k).epoch J'.stores e n := by
  obtain ⟨-, stores, -⟩ := exists_of_note hn
  rw [stores, epoch_of_apply hk ha]
  cases hst : storedBy k w m with
  | none => exact hs
  | some e' => exact hs.store (paced.lt_of_storedBy hst)

namespace JournalFates

variable {limits : List Limits} {shared : Bool}

theorem of_target (ht : JournalFates k J w) {h s : Nat}
    (hs : (w.shared.handle k h).target = some s) :
    ∃ x, J.issued[h]? = some x ∧ x.session = s ∧ J.of h = [] := by
  have lent : h < J.issued.length := ht.issued ▸ lt_length_of_target hs
  have hx : J.issued[h]? = some J.issued[h] := List.getElem?_eq_getElem lent
  refine ⟨_, hx, ?_⟩
  cases ht.fates h _ hx with
  | kept ht hj =>
    rw [hs] at ht
    exact ⟨(Option.some.inj ht).symm, hj⟩
  | closing ht => rw [hs] at ht; exact absurd ht nofun
  | settled ht => rw [hs] at ht; exact absurd ht nofun

/-- A close that ends is the only thing that was done for its handle. -/
theorem of_ended (ht : JournalFates k J w) {h s : Nat}
    (closes : ∀ n t, w'.weigh (Frame.closes k n t) + (if n = h ∧ t = s then 1 else 0) =
      w.weigh (Frame.closes k n t)) : ∃ e, J.of h = [e] ∧ e.deed = .close s := by
  have law := ht.closes h s
  have one := closes h s
  rw [if_pos ⟨rfl, rfl⟩] at one
  split at law
  · rename_i entries
    exact List.map_eq_singleton_iff.mp entries
  · omega

theorem closes_move (ht : JournalFates k J w) (done : GiveBackMove k w m w')
    (hn : J.note k w m w' = some J') (n s : Nat) : w'.weigh (Frame.closes k n s) =
      if (J'.of n).map Entry.deed = [.close s] then 1 else 0 := by
  cases done with
  | none hd targets closes =>
    rw [closes, of_note_none hn hd]
    exact ht.closes n s
  | @taken h t d hd has ht' targets how closes =>
    rw [closes]
    by_cases hh : n = h
    · subst hh
      obtain ⟨x, -, -, empty⟩ := ht.of_target has
      have law := ht.closes n s
      rw [empty] at law
      rw [of_note_self hn hd, empty, law]
      simp
    · rw [of_note_ne hn hd hh, if_neg fun h => hh h.1]
      exact ht.closes n s
  | @ended h t d hd how targets closes =>
    have law := closes n s
    by_cases hh : n = h
    · subst hh
      obtain ⟨e, he, deed⟩ := ht.of_ended closes
      rw [of_note_self hn hd, he]
      rw [ht.closes, he, List.map_singleton, deed] at law
      by_cases hs : s = t
      · subst hs
        simp at law ⊢
        exact law
      · have : t ≠ s := fun h => hs h.symm
        simp [hs, this] at law ⊢
        exact law
    · rw [of_note_ne hn hd hh]
      rw [if_neg fun h => hh h.1] at law
      exact law.trans (ht.closes n s)

/-- Something is done only for handles that were lent before. -/
theorem known_move (ht : JournalFates k J w) (done : GiveBackMove k w m w')
    (hn : J.note k w m w' = some J') :
    ∀ e ∈ J'.entries, e.handle < J.issued.length := by
  intro e he
  obtain ⟨-, -, -, -, entries, -⟩ := exists_of_note hn
  rw [entries, List.mem_append] at he
  rcases he with he | he
  · exact ht.known e he
  · obtain ⟨x, hx, rfl⟩ := List.mem_map.mp he
    rw [Option.mem_toList] at hx
    cases done with
    | none hd => rw [hd] at hx; exact absurd hx nofun
    | taken hd has =>
      rw [hd] at hx
      cases hx
      exact ht.issued ▸ lt_length_of_target has
    | @ended h s d hd how targets closes =>
      rw [hd] at hx
      cases hx
      obtain ⟨e, he, -⟩ := ht.of_ended closes
      have : e ∈ J.of h := by rw [he]; exact List.mem_singleton_self e
      obtain ⟨he, hh⟩ := List.mem_filter.mp this
      rw [← of_decide_eq_true hh]
      exact ht.known e he

/-- The fate of a handle that was lent before a move. -/
theorem fate_move (ht : JournalFates k J w) (done : GiveBackMove k w m w')
    (hn : J.note k w m w' = some J') {n : Nat} {x : Issue} (hx : J.issued[n]? = some x) :
    HandleFate k n x J' w' := by
  have lent : n < (w.shared.level k).handles.length := by
    rw [← ht.issued]
    exact (List.getElem?_eq_some_iff.mp hx).1
  cases done with
  | none hd targets closes =>
    exact (ht.fates n x hx).transfer (targets n lent) (of_note_none hn hd) (closes ..)
  | @taken h t d hd has ht' targets how closes =>
    by_cases hh : n = h
    · subst hh
      obtain ⟨y, hy, rfl, empty⟩ := ht.of_target has
      rw [hx] at hy
      cases hy
      have entries := of_note_self hn hd
      rw [empty] at entries
      have since := (ht.since n x hx).eq_iff
      rcases how with ⟨rfl, why⟩ | ⟨rfl, he, clean⟩
      · refine .closing ht' entries rfl (why.imp_left fun he hs => he (since.mpr hs.symm)) ?_
        rw [closes, if_pos ⟨rfl, rfl⟩]
        exact Nat.succ_ne_zero _
      · exact .settled ht' (.released entries rfl (since.mp he).symm clean)
    · refine (ht.fates n x hx).transfer (targets n lent hh) (of_note_ne hn hd hh) ?_
      rw [closes, if_neg fun h => hh h.1, Nat.add_zero]
  | @ended h t d hd how targets closes =>
    by_cases hh : n = h
    · subst hh
      obtain ⟨e, he, deed⟩ := ht.of_ended closes
      have entries := of_note_self hn hd
      rw [he] at entries
      cases ht.fates n x hx with
      | kept _ hj => rw [he] at hj; exact absurd hj nofun
      | closing ht hj deed' why now =>
        rw [he] at hj
        cases hj
        rw [deed] at deed'
        cases deed'
        refine .settled ((targets n lent).trans ht) (.closed entries deed why ?_)
        exact how
      | settled _ hs =>
        cases hs with
        | released hj deed' =>
          rw [he] at hj
          cases hj
          rw [deed] at deed'
          exact absurd deed' nofun
        | closed hj => rw [he] at hj; exact absurd hj nofun
    · refine (ht.fates n x hx).transfer (targets n lent) (of_note_ne hn hd hh) ?_
      have := closes n x.session
      rw [if_neg fun h => hh h.1] at this
      exact this

/-- A borrowing carries an epoch and when it was loaded, until it lends a handle. -/
theorem loads_move (ht : JournalFates k J w) (hw : program.Reach (World.init c) w)
    (ha : program.apply w m = some (w', notices)) (hn : J.note k w m w' = some J')
    (later : ∀ {e n}, LoadedSince (w.shared.level k).epoch J.stores e n →
      LoadedSince (w'.shared.level k).epoch J'.stores e n) :
    ∀ i, Stacked (fun f below => ∀ e, f = .borrowing k e → ∃ n,
      J'.loads.lookup (i, below.length) = some n ∧
        LoadedSince (w'.shared.level k).epoch J'.stores e n) (w'.stack i) := by
  refine Program.stacked_of_effect (Program.effect_of_apply ha) ht.loads ?_ ?_ ?_ ?_ ?_ ?_
  · intro i f below hp hf e he
    obtain ⟨n, hl, hs⟩ := hf e he
    exact ⟨n, (lookup_of_note hn hp).trans hl, later hs⟩
  · exact fun i op _ e he => absurd he nofun
  · rintro i moment f below s f' notices rfl place hst hne he rfl - e rfl
    obtain ⟨rfl, rfl⟩ := (Frame.steps hne he).borrow_of_borrowing
    obtain ⟨-, -, loads, -⟩ := exists_of_note hn
    have loaded : loadedBy k w (.run i moment) w' = some (i, below.length) := by
      unfold loadedBy
      rw [Program.stepped_step hst hne]
      exact (if_pos rfl).trans place
    refine ⟨J.stores, ?_, later (Or.inl ⟨rfl, rfl⟩)⟩
    rw [loads, loaded]
    simp
  · rintro i f below g hst hne - e rfl
    cases Frame.needs (Frame.started_of_reach hw f (World.mem_frames_of_stack hst)) hne with
    | within ho => cases ho
  · rintro i moment f g h rest r s g' notices - - - - hg he - - - e rfl
    exact absurd rfl ((Frame.resumed (Or.inr ⟨_, hg⟩) he).ne_borrowing e)
  · rintro i f below q r s f' notices - - - hne he - - e rfl
    exact absurd rfl ((Frame.resumed (Or.inl ⟨q, hne⟩) he).ne_borrowing e)

/-- A new handle carries an epoch, and it is known when that was loaded. -/
theorem loadedAt_of_lent (ht : JournalFates k J w) {e s : Nat}
    (ha : program.apply w m = some (w', notices))
    (hm : program.heard w m = some (.borrowing k e, .got s)) :
    LoadedSince (w.shared.level k).epoch J.stores e (J.loadedAt (Program.touched w' m)) := by
  cases Program.hears_of_apply ha hm with
  | @result i moment top g f' rest c' _ hst hne hg he =>
    have loads := ht.loads i
    rw [hst] at loads
    obtain ⟨n, hl, hs⟩ := loads.2.1 e rfl
    have place : Program.touched (w.update i c' (f' :: rest)) (.run i moment : Move Op Reply) =
        some (i, rest.length) :=
      Program.touched_update (World.lt_length_of_stack hst) rfl
    rw [place]
    show LoadedSince _ _ e ((J.loads.lookup (i, rest.length)).getD 0)
    rw [hl]
    exact hs
  | answer hst hne => exact absurd hne nofun

/-- **A move keeps the journal true.** -/
theorem move (ht : JournalFates k J w) (hk : k < limits.length)
    (hw : program.Reach (World.init (.ofLimits limits shared)) w)
    (ha : program.apply w m = some (w', notices)) (hn : J.note k w m w' = some J') :
    JournalFates k J' w' := by
  have done := done_of_apply ht.range hw ha
  have aged := aged_of_apply ht.range ha
  have known := ht.known_move done hn
  have later : ∀ {e n}, LoadedSince (w.shared.level k).epoch J.stores e n →
      LoadedSince (w'.shared.level k).epoch J'.stores e n :=
    fun hs => hs.of_apply ht.range (.of_reach hk hw) ha hn
  obtain ⟨-, -, -, issued, -, -⟩ := exists_of_note hn
  have old : ∀ {n x}, J.issued[n]? = some x → HandleFate k n x J' w' ∧
      LoadedSince (w'.shared.level k).epoch J'.stores (w'.shared.handle k n).epoch x.stores := by
    intro n x hx
    refine ⟨ht.fate_move done hn hx, ?_⟩
    rw [(aged.ages n (ht.issued ▸ (List.getElem?_eq_some_iff.mp hx).1)).epoch]
    exact later (ht.since n x hx)
  have range : k < w'.shared.depth := (depth_of_apply ha).symm ▸ ht.range
  have closes := ht.closes_move done hn
  have loads := ht.loads_move hw ha hn later
  rcases lentBy_of_apply ht.range ha with ⟨hl, length⟩ | ⟨s, e, hl, hm, handles⟩
  · rw [hl] at issued
    have same : J'.issued = J.issued := issued.trans (List.append_nil _)
    refine ⟨range, ?_, ?_, closes, same ▸ known, ?_, loads⟩
    · rw [same, length]
      exact ht.issued
    · exact fun n x hx => (old (same ▸ hx)).1
    · exact fun n x hx => (old (same ▸ hx)).2
  · rw [hl] at issued
    have same : J'.issued = J.issued ++ [⟨s, J.loadedAt (Program.touched w' m)⟩] := issued
    have new : ∀ {n x}, J'.issued[n]? = some x → J.issued[n]? = some x ∨
        n = (w.shared.level k).handles.length ∧
          x = ⟨s, J.loadedAt (Program.touched w' m)⟩ := by
      intro n x hx
      rw [same, List.getElem?_append] at hx
      split at hx
      · exact Or.inl hx
      · rename_i hlt
        obtain ⟨hn, rfl⟩ := List.getElem?_eq_some_iff.mp hx
        rw [List.length_singleton] at hn
        have := ht.issued
        refine Or.inr ⟨by omega, ?_⟩
        simp
    have last := handle_lent handles
    refine ⟨range, ?_, ?_, closes, ?_, ?_, loads⟩
    · rw [same, handles, List.length_append, List.length_append, ht.issued]
      rfl
    · intro n x hx
      rcases new hx with hx | ⟨rfl, rfl⟩
      · exact (old hx).1
      · refine .kept (by rw [last]) ?_
        refine List.filter_eq_nil_iff.mpr fun e he => ?_
        have := known e he
        rw [ht.issued] at this
        simp
        omega
    · intro e he
      rw [same, List.length_append]
      exact Nat.lt_of_lt_of_le (known e he) (Nat.le_add_right ..)
    · intro n x hx
      rcases new hx with hx | ⟨rfl, rfl⟩
      · exact (old hx).2
      · rw [last]
        exact later (ht.loadedAt_of_lent ha hm)

/-- **Every run keeps its journal true.** -/
theorem of_kept (hk : k < limits.length)
    (h : program.Kept (Journal.note k) {} (World.init (.ofLimits limits shared)) J w) :
    JournalFates k J w := by
  induction h with
  | refl =>
    refine ⟨?_, ?_, nofun, fun _ _ => rfl, nofun, nofun, fun _ => stacked_nil⟩
    · exact (depth_ofLimits limits shared).symm ▸ hk
    · rw [World.init, level_ofLimits hk shared]
      rfl
  | move m h ha hn ih => exact ih.move hk h.reach ha hn

/-- What has come back is not in its handle any more, and not being closed. -/
theorem of_settled (ht : JournalFates k J w) {n : Nat} {x : Issue} (hx : J.issued[n]? = some x)
    (hs : HandleSettled n x J) :
    (w.shared.handle k n).target = none ∧ ∀ s, w.weigh (Frame.closes k n s) = 0 := by
  constructor
  · cases ht.fates n x hx with
    | kept _ hj => cases hs with
      | released hj' | closed hj' => rw [hj'] at hj; exact absurd hj nofun
    | closing ht | settled ht => exact ht
  · intro s
    rw [ht.closes]
    refine if_neg fun h => ?_
    cases hs with
    | released hj deed =>
      rw [hj, List.map_singleton, deed] at h
      exact absurd h (by simp)
    | closed hj =>
      rw [hj] at h
      exact absurd h (by simp)

/-- Nothing more is done for a handle whose session has come back. -/
theorem of_of_settled (ht : JournalFates k J w) {n : Nat} {x : Issue} (hx : J.issued[n]? = some x)
    (hs : HandleSettled n x J) (done : GiveBackMove k w m w') (hn : J.note k w m w' = some J') :
    J'.of n = J.of n := by
  obtain ⟨gone, still⟩ := ht.of_settled hx hs
  cases done with
  | none hd => exact of_note_none hn hd
  | taken hd has =>
    refine of_note_ne hn hd ?_
    rintro rfl
    exact absurd (gone.symm.trans has) nofun
  | @ended h s d hd how targets closes =>
    refine of_note_ne hn hd ?_
    rintro rfl
    have one := closes n s
    rw [if_pos ⟨rfl, rfl⟩, still s] at one
    exact absurd one (Nat.succ_ne_zero _)

end JournalFates

end

end Lending.Cache
