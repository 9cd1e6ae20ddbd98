import Lending.Proofs.Cache.Level

/-!
# The record of a level's resets

`Resets` records of one level of a stack when its sessions were connected, which epochs were stored,
which sessions each store **left** behind, and what was lent under which epoch. A store leaves
behind what is idle, and what a release that has looked at the epoch is about to make idle.

* `Resets.note`: how a move is written down.
* `Resets.Sound`: what a session that may be lent under an epoch is known for. It stays so while
  the record grows (`Sound.extends`), while later epochs are stored (`Sound.store`), and for what a
  store leaves behind (`Sound.store_of_mem`).
-/

namespace Lending.Cache

/-- What is recorded of the resets of a level. A reset begins when it gets its turn. -/
structure Resets where
  /-- How many resets have begun. -/
  begun     : Nat := 0
  /-- The sessions connected, each with how many resets had begun. -/
  connected : List (Nat × Nat) := []
  /-- The epochs stored, each with which reset it was. -/
  stores    : List (Nat × Nat) := []
  /-- The sessions left behind by a store, each with the epoch. -/
  left      : List (Nat × Nat) := []
  /-- The sessions lent, each with the epoch. -/
  lent      : List (Nat × Nat) := []

namespace Resets

/-- How many resets had begun when a session was connected. -/
def since (L : Resets) (s : Nat) : Option Nat := L.connected.lookup s

/-- Whether an epoch is the first one, or was stored. -/
def Stored (L : Resets) (epoch : Nat) : Prop := epoch = 0 ∨ ∃ x ∈ L.stores, x.1 = epoch

/-- Whether a session was connected before reset `n` began. -/
def Before (L : Resets) (s n : Nat) : Prop := ∃ m, L.since s = some m ∧ m < n

/-- Whether a session was left behind by the store of an epoch up to this one. -/
def LeftBy (L : Resets) (s epoch : Nat) : Prop := ∃ y ∈ L.left, y.1 = s ∧ y.2 ≤ epoch

/-- A session is known, and for every store up to an epoch it was connected after that reset began,
or was left behind by then. -/
def Sound (L : Resets) (s epoch : Nat) : Prop :=
  ∃ n, L.since s = some n ∧ ∀ x ∈ L.stores, x.1 ≤ epoch → x.2 ≤ n ∨ L.LeftBy s x.1

/-- The sessions of level `k` that a store leaves behind: those that are idle, or are about to be
by a release that has looked at the epoch, and were connected before this reset began. -/
def outlasting (L : Resets) (k : Nat) (w : World Cache Frame) : List Nat :=
  ((w.shared.level k).pool.idle ++ w.gather (Frame.returning k)).filter
    fun s => (L.since s).any (· < L.begun)

/-- The record after a store. -/
def store (L : Resets) (n : Nat) (outlasting : List Nat) : Resets :=
  { L with
    stores := (n, L.begun) :: L.stores
    left := outlasting.map (fun s => (s, n)) ++ L.left }

/-- The result or the answer that a frame goes on with is written down; a session connected for the
second time is objected to. -/
def hear (L : Resets) (k : Nat) (outlasting : List Nat) : Frame → Reply → Option Resets
  | .pool j .creating, .got s =>
    if j = k then
      if L.since s = none then some { L with connected := (s, L.begun) :: L.connected } else none
    else some L
  | .borrowing j epoch, .got s =>
    if j = k then some { L with lent := (s, epoch) :: L.lent } else some L
  | .readingClock j previous, .reading n =>
    if j = k ∧ previous < n then some (L.store n outlasting) else some L
  | _, _ => some L

/-- A move is written down, as far as it matters to level `k`. -/
def note (k : Nat) (L : Resets) (w : World Cache Frame) :
    Move Op Reply → World Cache Frame → Option Resets
  | .run i _, _ =>
    match w.stack i with
    | .reset j :: _ => some (if j = k then { L with begun := L.begun + 1 } else L)
    | f :: g :: _ =>
      match f.need w.shared with
      | .over r => L.hear k (L.outlasting k w) g r
      | _ => some L
    | _ => some L
  | .answer i r, _ =>
    match w.stack i with
    | f :: _ => L.hear k (L.outlasting k w) f r
    | [] => some L
  | _, _ => some L

/-! ## The record grows -/

/-- The record goes on without a store, and nothing is lent. -/
structure Extends (L L' : Resets) : Prop where
  begun  : L.begun ≤ L'.begun
  since  : ∀ s n, L.since s = some n → L'.since s = some n
  stores : L'.stores = L.stores
  left   : L'.left = L.left
  lent   : L'.lent = L.lent

theorem Extends.refl (L : Resets) : L.Extends L :=
  ⟨Nat.le_refl _, fun _ _ h => h, rfl, rfl, rfl⟩

theorem extends_begin (L : Resets) : L.Extends { L with begun := L.begun + 1 } :=
  ⟨Nat.le_succ _, fun _ _ h => h, rfl, rfl, rfl⟩

theorem since_connect (L : Resets) (s t : Nat) :
    ({ L with connected := (s, L.begun) :: L.connected } : Resets).since t =
      if t = s then some L.begun else L.since t := by
  unfold since
  by_cases h : t = s
  · simp [h]
  · have : (t == s) = false := by simpa using h
    simp [List.lookup_cons, this, h]

theorem extends_connect {L : Resets} {s : Nat} (hs : L.since s = none) :
    L.Extends { L with connected := (s, L.begun) :: L.connected } := by
  refine ⟨Nat.le_refl _, fun t n h => ?_, rfl, rfl, rfl⟩
  rw [since_connect]
  by_cases ht : t = s
  · rw [ht, hs] at h
    exact absurd h nofun
  · rw [if_neg ht]
    exact h

theorem Sound.extends {L L' : Resets} {s epoch : Nat} (h : L.Sound s epoch) (hx : L.Extends L') :
    L'.Sound s epoch := by
  obtain ⟨n, hn, hs⟩ := h
  refine ⟨n, hx.since s n hn, ?_⟩
  unfold LeftBy
  rw [hx.stores, hx.left]
  exact hs

theorem Stored.extends {L L' : Resets} {epoch : Nat} (h : L.Stored epoch) (hx : L.Extends L') :
    L'.Stored epoch := by
  unfold Stored
  rw [hx.stores]
  exact h

/-- A store of a later epoch changes nothing up to an earlier one. -/
theorem Sound.store {L : Resets} {s epoch n : Nat} (h : L.Sound s epoch) (hn : epoch < n)
    (outlasting : List Nat) : (L.store n outlasting).Sound s epoch := by
  obtain ⟨m, hm, hs⟩ := h
  refine ⟨m, hm, fun x hx hle => ?_⟩
  rcases List.mem_cons.mp hx with rfl | hx
  · exact absurd hle (Nat.not_le_of_lt hn)
  · exact (hs x hx hle).imp_right fun ⟨y, hy, hys⟩ => ⟨y, List.mem_append_right _ hy, hys⟩

/-- What outlasts a store is sound after it, as it is left behind. -/
theorem Sound.store_of_mem {L : Resets} {s epoch n k : Nat} {w : World Cache Frame}
    (h : L.Sound s epoch) (hle : ∀ x ∈ L.stores, x.1 ≤ epoch)
    (hs : s ∈ (w.shared.level k).pool.idle ++ w.gather (Frame.returning k)) :
    (L.store n (L.outlasting k w)).Sound s n := by
  obtain ⟨m, hm, hso⟩ := h
  refine ⟨m, hm, fun x hx _ => ?_⟩
  rcases List.mem_cons.mp hx with rfl | hx
  · by_cases hb : L.begun ≤ m
    · exact Or.inl hb
    · refine Or.inr ⟨(s, n), List.mem_append_left _ (List.mem_map.mpr ⟨s, ?_, rfl⟩), rfl,
        Nat.le_refl n⟩
      refine List.mem_filter.mpr ⟨hs, ?_⟩
      rw [hm]
      exact decide_eq_true (Nat.lt_of_not_le hb)
  · exact (hso x hx (hle x hx)).imp_right
      fun ⟨y, hy, hys⟩ => ⟨y, List.mem_append_right _ hy, hys⟩

theorem Stored.store {L : Resets} {epoch : Nat} (h : L.Stored epoch) (n : Nat)
    (outlasting : List Nat) : (L.store n outlasting).Stored epoch :=
  h.imp_right fun ⟨x, hx, he⟩ => ⟨x, List.mem_cons_of_mem _ hx, he⟩

/-- Sound up to an epoch is sound up to an earlier one. -/
theorem Sound.mono {L : Resets} {s e e' : Nat} (h : L.Sound s e) (he : e' ≤ e) : L.Sound s e' := by
  obtain ⟨n, hn, hs⟩ := h
  exact ⟨n, hn, fun x hx hle => hs x hx (Nat.le_trans hle he)⟩

/-- What was connected last is after every reset that has begun. -/
theorem sound_of_connected {L : Resets} {s : Nat} (hb : ∀ x ∈ L.stores, x.2 ≤ L.begun)
    (epoch : Nat) :
    ({ L with connected := (s, L.begun) :: L.connected } : Resets).Sound s epoch := by
  refine ⟨L.begun, ?_, fun x hx _ => Or.inl (hb x hx)⟩
  rw [since_connect, if_pos rfl]

/-! ## Moves in the record -/

/-- A step that is not the end of an operation is written down only as the begin of a reset. -/
theorem extends_of_note {k i : Nat} {L L' : Resets} {w w' : World Cache Frame} {m : Moment}
    {f : Frame} {below : List Frame} (hst : w.stack i = f :: below)
    (hf : ∀ r, f.need w.shared ≠ .over r) (hn : L.note k w (.run i m) w' = some L') :
    L.Extends L' := by
  simp only [note, hst] at hn
  split at hn
  · cases hn
    split
    · exact L.extends_begin
    · exact .refl L
  · rename_i f' g rest _ heq
    obtain ⟨rfl, -⟩ := List.cons.inj heq
    split at hn
    · rename_i r hr
      exact absurd hr (hf r)
    · cases hn
      exact .refl L
  · cases hn
    exact .refl L

/-- The end of an operation that another one needs is written down as its result for that one. -/
theorem hear_of_over {k i : Nat} {L L' : Resets} {w w' : World Cache Frame} {m : Moment}
    {f g : Frame} {r : Reply} {rest : List Frame} (hst : w.stack i = f :: g :: rest)
    (hne : f.need w.shared = .over r) (hn : L.note k w (.run i m) w' = some L') :
    L.hear k (L.outlasting k w) g r = some L' := by
  simp only [note, hst] at hn
  split at hn
  · rename_i j _ heq
    obtain ⟨rfl, -⟩ := List.cons.inj heq
    exact absurd hne Frame.need_reset_ne_over
  · rename_i f₁ g₁ rest₁ _ heq
    obtain ⟨rfl, hrest⟩ := List.cons.inj heq
    obtain ⟨rfl, -⟩ := List.cons.inj hrest
    rw [hne] at hn
    exact hn
  · rename_i hno
    exact absurd rfl (hno f g rest)

/-- An answer is written down for the frame that asked. -/
theorem hear_of_answer {k i : Nat} {L L' : Resets} {w w' : World Cache Frame} {f : Frame}
    {r : Reply} {below : List Frame} (hst : w.stack i = f :: below)
    (hn : L.note k w (.answer i r) w' = some L') : L.hear k (L.outlasting k w) f r = some L' := by
  simp only [note, hst] at hn
  exact hn

end Resets

end Lending.Cache
