import Lending.Proofs.Cache.Fates

/-!
# Each handle gives its session back once

From the end of its first close or drop on, all that is ever done for a handle is what gave its
session back: one release, or one close and, unless that raised, one discard. What was closed so is
never idle or lent again.

* `JournalSessions`: a session is with one at a time, so that one which is being closed is with
  nobody else; and what nobody may lend can only come back as a new one.
* `returned_once`: the law, for every handle of every level.

A handle gives back with its `close` or as it is dropped, and marks the end by taking its session
out: whoever comes second finds nothing to give. What is recorded is what is done then, as calls of
the pool and of the session (`DeedMove`): `release` of the pool, or `close` of the session and
`discard` of the pool. A close that fails is followed by the discard like any other; only one that
raises is not.
-/

namespace Lending.Cache

/-- What holds of the sessions of level `k` and its journal. -/
structure JournalSessions (k : Nat) (J : Journal) (w : World Cache Frame) : Prop where
  alone  : ∀ s, custody k s w ≤ 1
  known  : ∀ s, 0 < custody k s w → s ∈ J.made
  /-- Above the innermost level, sessions are the handles of the next. -/
  range  : ¬ w.shared.innermost k → ∀ s ∈ J.made, s < (w.shared.level (k + 1)).handles.length
  closed : ∀ e ∈ J.entries, ∀ s, e.deed = .close s → s ∈ J.made ∧ spare k s w = 0

section

variable {k s : Nat} {J J' : Journal} {c : Cache} {w w' : World Cache Frame} {m : Move Op Reply}
  {notices : List Notice} {limits : List Limits} {shared : Bool}

theorem Frame.spares_add_closes_le {h : Nat} (f : Frame) (below : List Frame) :
    f.spares k s + f.closes k h s below ≤ f.has k s := by
  have le : f.spares k s ≤ f.has k s := f.spares_le_has
  cases f with
  | closing j t =>
    show 0 + (if j = k ∧ t = s ∧ caller? k below = some h then 1 else 0) ≤
      if j = k ∧ t = s then 1 else 0
    split
    · rename_i hc
      rw [if_pos ⟨hc.1, hc.2.1⟩]
    · exact Nat.zero_le _
  | _ => exact le

/-- A session that is being closed is not where it may be lent. -/
theorem spare_add_closes_le (k s h : Nat) (w : World Cache Frame) :
    spare k s w + w.weigh (Frame.closes k h s) ≤ custody k s w := by
  have frames : w.total (Frame.spares k s) + w.weigh (Frame.closes k h s) ≤
      w.total (Frame.has k s) := by
    rw [World.total_eq_weigh, World.total_eq_weigh, ← World.weigh_add]
    exact World.weigh_mono Frame.spares_add_closes_le
  unfold spare custody keeping
  omega

theorem not_mem_of_spare (h : spare k s w = 0) :
    s ∉ (w.shared.level k).pool.idle ∧ s ∉ (w.shared.level k).onLoan := by
  unfold spare keeping at h
  exact ⟨List.count_eq_zero.mp (by omega), List.count_eq_zero.mp (by omega)⟩

namespace JournalSessions

/-- What comes into being was not there before. -/
theorem fresh (hs : JournalSessions k J w) (ha : program.apply w m = some (w', notices))
    (hn : J.note k w m w' = some J') (hb : s ∈ bornBy k w m) : s ∉ J.made := by
  intro made
  by_cases hi : w.shared.innermost k = true
  · exact (exists_of_note hn).1 ⟨hi, s, hb, made⟩
  · have := hs.range hi s made
    have := (fresh_of_bornBy hi ha hb).1
    omega

/-- **A move keeps to it that a session which was closed is spent.** -/
theorem move (hs : JournalSessions k J w) (ht : JournalFates k J w)
    (hw : program.Reach (World.init c) w)
    (ha : program.apply w m = some (w', notices)) (hn : J.note k w m w' = some J') :
    JournalSessions k J' w' := by
  have inner : w'.shared.innermost k = w.shared.innermost k := innermost_eq (depth_of_apply ha) k
  obtain ⟨-, -, -, -, entries, made⟩ := exists_of_note hn
  have owned : ∀ s, custody k s w' ≤ 1 ∧ (0 < custody k s w' → s ∈ J'.made) := by
    intro s
    obtain ⟨n, law, -⟩ := custody_of_apply ht.range hw ha s
    have one := hs.alone s
    rw [made, List.mem_append]
    by_cases hb : s ∈ bornBy k w m
    · have few := count_bornBy_le k s w m
      have none : ¬ 0 < custody k s w := fun h => hs.fresh ha hn hb (hs.known s h)
      exact ⟨by omega, fun _ => Or.inr hb⟩
    · rw [List.count_eq_zero_of_not_mem hb] at law
      exact ⟨by omega, fun h => Or.inl (hs.known s (by omega))⟩
  refine ⟨fun s => (owned s).1, fun s => (owned s).2, ?_, ?_⟩
  · intro hi s hm
    rw [inner] at hi
    rw [made, List.mem_append] at hm
    rcases hm with hm | hb
    · have hk : k + 1 < w.shared.depth := inner_iff.mp hi
      exact Nat.lt_of_lt_of_le (hs.range hi s hm) (aged_of_apply hk ha).length
    · have := (fresh_of_bornBy hi ha hb).2
      omega
  · intro e he s deed
    rw [entries, List.mem_append] at he
    rcases he with he | he
    · obtain ⟨old, none⟩ := hs.closed e he s deed
      have later := spare_of_apply ht.range hw ha s
      rw [List.count_eq_zero_of_not_mem fun hb => hs.fresh ha hn hb old] at later
      exact ⟨made ▸ List.mem_append_left _ old, by omega⟩
    · -- the close is under way after the move, and takes the one place that a session has
      obtain ⟨⟨h, d⟩, hd, rfl⟩ := List.mem_map.mp he
      rw [Option.mem_toList] at hd
      cases (show d = .close s from deed)
      have under : 1 ≤ w'.weigh (Frame.closes k h s) := by
        cases done_of_apply ht.range hw ha with
        | none hd' => cases hd'.symm.trans hd
        | taken hd' _ _ _ _ closes =>
          cases hd'.symm.trans hd
          rw [closes, if_pos ⟨rfl, rfl⟩]
          exact Nat.le_add_left ..
        | ended hd' how =>
          cases hd'.symm.trans hd
          exact absurd how (by simp)
      have both := spare_add_closes_le k s h w'
      obtain ⟨one, known⟩ := owned s
      exact ⟨known (by omega), by omega⟩

theorem of_kept (hk : k < limits.length)
    (h : program.Kept (Journal.note k) {} (World.init (.ofLimits limits shared)) J w) :
    JournalSessions k J w := by
  induction h with
  | refl =>
    have none : ∀ s, custody k s (World.init (.ofLimits limits shared)) = 0 := fun s =>
      keeping_init hk s _
    refine ⟨fun s => ?_, fun s hs => ?_, nofun, nofun⟩
    · rw [none]
      exact Nat.zero_le _
    · rw [none] at hs
      exact absurd hs (Nat.lt_irrefl _)
  | move m h ha hn ih => exact ih.move (JournalFates.of_kept hk h) h.reach ha hn

end JournalSessions

/-- Who called for the end of a handle and hears of it finds its session back. -/
theorem JournalFates.settled_of_heard {n : Nat} {x : Issue} {f : Frame} {r : Reply}
    (ht : JournalFates k J w) (hk : k < limits.length)
    (hw : program.Reach (World.init (.ofLimits limits shared)) w)
    (ha : program.apply w m = some (w', notices)) (hx : J.issued[n]? = some x)
    (hm : program.heard w m = some (f, r))
    (hf : f.need w.shared = .sub (.giveBack k n) ∨ f.need w.shared = .sub (.dropHandle k n)) :
    HandleSettled n x J := by
  cases ht.fates n x hx with
  | kept has =>
    have gone := (returned_of_heard hk hw ha hm hf).target
    exact absurd (gone.symm.trans has) nofun
  | closing _ _ _ _ now => exact absurd (no_close_of_heard hk hw ha hm hf) now
  | settled _ hs => exact hs

/-- Nothing more is done for a handle whose session is back, in any run from there. -/
theorem JournalFates.of_of_kept {n : Nat} {x : Issue} (ht : JournalFates k J w)
    (hk : k < limits.length) (hw : program.Reach (World.init (.ofLimits limits shared)) w)
    (hx : J.issued[n]? = some x) (hs : HandleSettled n x J)
    (h : program.Kept (Journal.note k) J w J' w') : J'.of n = J.of n := by
  have all : JournalFates k J' w' ∧ J'.issued[n]? = some x ∧ J'.of n = J.of n := by
    induction h with
    | refl => exact ⟨ht, hx, rfl⟩
    | @move J₁ J₂ w₁ w₂ m notices h ha hn ih =>
      obtain ⟨told, issued, same⟩ := ih
      have reached := hw.trans h.reach
      have done := done_of_apply told.range reached ha
      refine ⟨told.move hk reached ha hn, ?_, ?_⟩
      · obtain ⟨-, -, -, grown, -⟩ := exists_of_note hn
        rw [grown]
        exact List.getElem?_append_left (List.getElem?_eq_some_iff.mp issued).1 ▸ issued
      · exact (told.of_of_settled issued (hs.of_eq same) done hn).trans same
  exact all.2.2

end

/-- **Each handle gives its session back once**, in every run: however many threads there are, and
whatever the clocks read, the callbacks answer and other callers do. Take any handle of any level.

* It has one of the fates, with all that was ever done for it. So a release is for a clean handle,
  with as many epochs stored as when its own was loaded; in every other case the session is closed.
* Its epoch is the present one exactly if none was stored since.
* Whoever gives it back or drops it, and hears of the end, finds its session back.
* From then on nothing more is done for it, whatever follows.
* All that was done for it happened at moves of the run: the release is the pool's, the close is
  asked for, the discard comes when the close has not raised, and a failure is a close that has
  raised.
* A session that was closed is neither idle nor lent. -/
theorem returned_once {limits : List Limits} {shared : Bool} {k : Nat} {J : Journal}
    {w : World Cache Frame} (hk : k < limits.length)
    (h : program.Kept (Journal.note k) {} (World.init (.ofLimits limits shared)) J w) :
    J.issued.length = (w.shared.level k).handles.length ∧
    ∀ n x, J.issued[n]? = some x →
      HandleFate k n x J w ∧
      ((w.shared.handle k n).epoch = (w.shared.level k).epoch ↔ x.stores = J.stores) ∧
      (∀ m w' notices f r, program.apply w m = some (w', notices) →
        program.heard w m = some (f, r) →
        f.need w.shared = .sub (.giveBack k n) ∨ f.need w.shared = .sub (.dropHandle k n) →
        HandleSettled n x J) ∧
      (HandleSettled n x J → ∀ J' w', program.Kept (Journal.note k) J w J' w' → J'.of n = J.of n) ∧
      ∀ e ∈ J.of n, e.Happened k (World.init (.ofLimits limits shared)) w ∧
        ∀ s, e.deed = .close s →
          s ∉ (w.shared.level k).pool.idle ∧ s ∉ (w.shared.level k).onLoan := by
  have told := JournalFates.of_kept hk h
  have spent := JournalSessions.of_kept hk h
  refine ⟨told.issued, fun n x hx => ⟨told.fates n x hx, (told.since n x hx).eq_iff, ?_, ?_, ?_⟩⟩
  · exact fun m w' notices f r ha hm hf => told.settled_of_heard hk h.reach ha hx hm hf
  · exact fun hs J' w' h' => told.of_of_kept hk h.reach hx hs h'
  · intro e he
    have mem : e ∈ J.entries := List.mem_of_mem_filter he
    exact ⟨happened_of_kept h e mem, fun s deed => not_mem_of_spare (spent.closed e mem s deed).2⟩

/-- Two sessions are lent. One is given back before a reset, which removes it; the other one after
it, and is closed then, though the close fails. -/
def bothWays : List (Move Op Reply) :=
  let run (n : Nat) : List (Move Op Reply) := List.replicate n (.run 0 (.at 0))
  let get (s : Nat) : List (Move Op Reply) :=
    .enter 0 .getSession :: run 4 ++ [.answer 0 (.got s), .run 0 (.at 0), .collect 0]
  List.flatten [
    [.spawn], get 0, get 1, .enter 0 (.close 0) :: run 6, [.collect 0],
    .enter 0 (.reset 0) :: run 2, .answer 0 (.reading 5) :: run 3, [.answer 0 .done],
    [.run 0 (.at 0), .collect 0],
    .enter 0 (.close 1) :: run 3, .answer 0 (.refused (.reported .other "lost")) :: run 4,
    [.collect 0]]

/-- What `bothWays` comes to. -/
def bothBack : World Cache Frame where
  shared :=
    { levels :=
        [{ pool :=
            { counters :=
                { acquired := 2, released := 1, created := 2, evicted := 1, discarded := 1 } }
           epoch := 5
           handles := [{ target := none, epoch := 0 }, { target := none, epoch := 0 }] }]
      keepers := 4 }
  threads := [[]]

/-- The journal of `bothWays`. -/
def bothNoted : Journal where
  stores := 1
  loads := [((0, 0), 0), ((0, 0), 0)]
  issued := [⟨0, 0⟩, ⟨1, 0⟩]
  entries := [⟨0, .release 0, 0, false⟩, ⟨1, .close 1, 1, false⟩, ⟨1, .discard 1, 1, false⟩]
  made := [0, 1]

set_option maxRecDepth 1024 in
theorem returned_once_bothWays :
    0 < 1 ∧
    program.keep? (Journal.note 0) {} (World.init (.ofLimits [{}] false)) bothWays =
      some (bothNoted, bothBack) ∧
    bothNoted.issued.length = (bothBack.shared.level 0).handles.length ∧
    HandleFate 0 0 ⟨0, 0⟩ bothNoted bothBack ∧ HandleFate 0 1 ⟨1, 0⟩ bothNoted bothBack ∧
    bothNoted.of 0 = [⟨0, .release 0, 0, false⟩] ∧
    bothNoted.of 1 = [⟨1, .close 1, 1, false⟩, ⟨1, .discard 1, 1, false⟩] ∧
    (∀ e ∈ bothNoted.of 1, e.Happened 0 (World.init (.ofLimits [{}] false)) bothBack) ∧
    1 ∉ (bothBack.shared.level 0).pool.idle := by
  have run : program.keep? (Journal.note 0) {} (World.init (.ofLimits [{}] false)) bothWays =
      some (bothNoted, bothBack) := rfl
  obtain ⟨issued, all⟩ := returned_once (by decide) (Program.kept_of_keep? run)
  obtain ⟨first, -⟩ := all 0 ⟨0, 0⟩ rfl
  obtain ⟨second, -, -, -, done⟩ := all 1 ⟨1, 0⟩ rfl
  refine ⟨by decide, run, issued, first, second, rfl, rfl, fun e he => (done e he).1, ?_⟩
  exact ((done _ (List.Mem.head _)).2 1 rfl).1

end Lending.Cache
