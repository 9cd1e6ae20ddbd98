import Lending.Proofs.Pool.Held
import Mathlib.Data.List.Nodup

/-!
# Every resource is in one place

A resource leaves the pool's lock while it is judged or torn down, so that its owner is a program
point of some call. Here each resource that was ever made is followed, through calls that overlap,
callbacks that use the pool, raises, and the end of the pool.

Users are bound to two promises: no resource is made twice, and callers give back only what they
hold. A `Ledger` records what was made, what callers hold and what is gone, which resources were
judged stale, and every question that was asked; `Ledger.note` objects to a move that breaks a
promise.

* `Custody`: idle resources, those in the hands of calls, those that callers hold and those that are
  gone are together the ones that were made, each once.
* `one_place`: so each resource is in one place, one that is gone stays gone, a teardown is asked
  for at most once and never for a discarded resource, one judged stale is torn down and not seen
  again, and one that is handed out was judged fresh, or made, by that same call.

The places are the idle queue, the calls on their way to lend or to tear down, the callers, and what
is gone. What is popped for `is_stale` is with the `acquire` that popped it; what `remove_idle` and
the end of the pool drain is with them until `on_evict` is called for it. Only `release` and
`discard` take a resource from a caller.
-/

namespace Lending.Pool

variable {α : Type}

namespace Call

/-! ## What is in the hands of a call -/

/-- The resource that a call is about to hand to its caller, or takes back from it. -/
def lends : Call α → List α
  | .start (.release r) | .start (.discard r) | .over (.got r) => [r]
  | _ => []

/-- The resources that a call tears down, or has taken to do so. -/
def tears : Call α → List α
  | .evictingStale _ r | .evictingSurplus r => [r]
  | .drained r rest | .evicting r rest _ => r :: rest
  | _ => []

/-- The resources in the hands of a call. -/
def hands (c : Call α) : List α := c.checks ++ c.lends ++ c.tears

/-- The resource whose teardown is running. -/
def evicts : Call α → List α
  | .evictingStale _ r | .evictingSurplus r | .evicting r _ _ => [r]
  | _ => []

/-! ## What an answer makes of it -/

def makes : Call α → Reply α → List α
  | .creating, .got r => [r]
  | _, _ => []

/-- The resource that an answer finds stale. -/
def condemns : Call α → Reply α → List α
  | .checking _ r, .verdict true => [r]
  | _, _ => []

/-- The resource whose teardown ends with an answer. -/
def buries : Call α → Reply α → List α
  | c, .done => c.evicts
  | _, _ => []

/-- The resource whose teardown raises. -/
def spoils : Call α → Reply α → List α
  | c, .raised _ => c.evicts
  | _, _ => []

def discards : Call α → Reply α → List α
  | .start (.discard r), .done => [r]
  | _, _ => []

/-- The other resources that a raise takes with it. -/
def forfeits : Call α → Reply α → List α
  | .checking _ r, .raised _ | .start (.discard r), .raised _ => [r]
  | .evicting _ rest _, .raised _ => rest
  | _, _ => []

/-- The resources that an answer is the end of. -/
def ends (c : Call α) (reply : Reply α) : List α :=
  c.buries reply ++ c.spoils reply ++ c.discards reply ++ c.forfeits reply

@[simp] theorem hands_ofThen (next : Then α) : (ofThen next).hands = [] := by
  cases next <;> rfl

@[simp] theorem hands_evictAll (counted : Bool) (rs : List α) :
    (evictAll counted rs).hands = rs := by
  cases rs <;> rfl

@[simp] theorem hands_abandonAll (message : String) (rs : List α) :
    (abandonAll message rs).hands = [] := by
  cases rs <;> rfl

end Call

theorem Looked.hands {p p' : Pool α} {deadline : Option Instant} {now : Instant}
    {c' : Call α}
    (h : Looked p deadline now p' c') : (p'.idle ++ c'.hands).Perm p.idle := by
  cases h with
  | took hi =>
    rw [hi]
    exact List.perm_append_singleton ..
  | reserved hi hr | expired hi hr hd | parked hi hr hd => exact List.Perm.of_eq (List.append_nil _)

namespace Call

variable {m : Moment} {p p' : Pool α} {c c' : Call α} {r : Reply α}

/-- **A step passes resources on**, between the idle ones and the call's hands. -/
theorem Steps.hands (h : Steps m p c p' c') : (p'.idle ++ c'.hands).Perm (p.idle ++ c.hands) := by
  cases h with
  | acquire h | retry h => exact h.hands.trans (List.Perm.of_eq (List.append_nil _).symm)
  | woken _ h => exact h.hands.trans (List.Perm.of_eq (List.append_nil _).symm)
  | notify next => rw [hands_ofThen]; exact List.Perm.refl _
  | putBack r ho => exact List.Perm.of_eq (List.append_nil _)
  | drain hi | closeDown hi =>
    rw [hi]
    exact List.Perm.of_eq (List.append_nil _).symm
  | free | surplus | nothingIdle | wakeDrained | grow | shrink | wakeGrown | setWaitLimit
  | nothingLeft => exact List.Perm.refl _

/-- **An answer passes resources on**, but for those it makes or is the end of. -/
theorem Answered.hands (h : Answered c r c') (ht : c.takes r = true) :
    (c'.hands ++ c.ends r).Perm (c.makes r ++ c.hands) := by
  cases h with
  | evicted r rest counted =>
    rw [hands_evictAll]
    exact List.perm_append_singleton ..
  | evictRaised r rest counted message =>
    rw [hands_abandonAll]
    exact List.Perm.refl _
  | abandoned r rest message =>
    rw [hands_abandonAll]
    exact List.Perm.refl _
  | unasked hf => rw [ht] at hf; exact absurd hf nofun
  | stale | fresh | checkRaised | staleEvicted | staleRaised | created | notCreated | createRaised
  | dropped | dropRaised | discarded | discardRaised | surplusEvicted | surplusRaised
  | abandonRaised => exact List.Perm.refl _

theorem Answered.eq_of_not_takes (h : Answered c r c') (ht : c.takes r = false) : c' = c := by
  cases h with
  | unasked => rfl
  | stale | fresh | checkRaised | staleEvicted | staleRaised | created | notCreated | createRaised
  | dropped | dropRaised | discarded | discardRaised | surplusEvicted | surplusRaised | evicted
  | evictRaised | abandoned | abandonRaised => exact absurd ht nofun

/-- A raise or an answer ends the teardown that runs. -/
theorem buries_append_spoils (ht : c.takes r = true) : c.buries r ++ c.spoils r = c.evicts := by
  cases r with
  | done => exact List.append_nil _
  | raised => rfl
  | got | failed | verdict => cases c <;> first | rfl | exact absurd ht nofun

theorem makes_nodup (c : Call α) (r : Reply α) : (c.makes r).Nodup := by
  unfold makes
  split
  · exact List.nodup_singleton _
  · exact List.nodup_nil

/-- What is found stale is torn down next. -/
theorem Answered.condemns (h : Answered c r c') : ∀ x ∈ c.condemns r, x ∈ c'.evicts := by
  cases h with
  | stale deadline r => exact fun x hx => hx
  | unasked ht =>
    intro x hx
    unfold Call.condemns at hx
    split at hx
    · exact absurd ht nofun
    · exact absurd hx List.not_mem_nil
  | fresh | checkRaised | staleEvicted | staleRaised | created | notCreated | createRaised
  | dropped | dropRaised | discarded | discardRaised | surplusEvicted | surplusRaised | evicted
  | evictRaised | abandoned | abandonRaised => exact nofun

/-- The result of a call that has ended is the caller's. -/
theorem hands_eq_handed (hn : c.need p = .over r) : c.hands = c.handed := by
  cases c with
  | «over» result => cases result <;> rfl
  | start op => cases op <;> exact absurd hn nofun
  | parked => rfl
  | _ => exact absurd hn nofun

/-- The teardowns that run are those a call has asked for. -/
theorem evicts_eq (p : Pool α) (c : Call α) :
    c.evicts = match c.need p with
      | .ask (.evict r) => [r]
      | _ => [] := by
  cases c with
  | start op => cases op <;> rfl
  | parked ticket deadline =>
    by_cases ht : ticket ∈ p.parked
    · simp [need, ht, evicts]
    · simp [need, ht, evicts]
  | _ => rfl

end Call

namespace Held

namespace Frame

/-- What an operation that has not begun brings back to the pool. -/
def brings : Op α → List α
  | .call (.release r) | .call (.discard r) => [r]
  | _ => []

/-- What the next step of an operation brings back to a pool that has gone. -/
def strands (s : Held α) : Frame α → List α
  | .start op => if s.alive then [] else brings op
  | .call _ => []

def checks : Frame α → List α
  | .call c => c.checks
  | _ => []

def lends : Frame α → List α
  | .start op => brings op
  | .call c => c.lends

def tears : Frame α → List α
  | .call c => c.tears
  | _ => []

def evicts : Frame α → List α
  | .call c => c.evicts
  | _ => []

/-- What a call hands to its caller. -/
def handed : Frame α → List α
  | .call c => c.handed
  | _ => []

/-- The resources in the hands of an operation. -/
def hands (f : Frame α) : List α := f.checks ++ f.lends ++ f.tears

theorem hands_start (op : Op α) : (start op).hands = brings op := by
  simp [hands, checks, lends, tears]

theorem hands_call (c : Call α) : (call c).hands = c.hands := rfl

/-- **A step passes resources on**, but for those that come back too late. -/
theorem Steps.hands {m : Moment} {s s' : Held α} {f f' : Frame α} (h : Steps m s f s' f') :
    (s'.pool.idle ++ f'.hands ++ f.strands s).Perm (s.pool.idle ++ f.hands) := by
  cases h with
  | dead op ha =>
    rw [hands_start]
    simp only [strands, ha]
    have : (Frame.call (.over .done) : Frame α).hands = [] := rfl
    rw [this, List.append_nil]
    exact List.Perm.refl _
  | call op ha =>
    simp only [strands, ha, if_true, List.append_nil, hands_start, hands_call]
    cases op <;> exact List.Perm.refl _
  | hold ha | leave ha =>
    simp only [strands, ha, if_true, List.append_nil]
    exact List.Perm.refl _
  | last hk =>
    have ha : s.alive = true := by simp [alive, hk]
    simp only [strands, ha, if_true, List.append_nil]
    exact List.Perm.refl _
  | inner h =>
    simp only [strands, List.append_nil, hands_call]
    exact h.hands

/-- The teardowns that run are those an operation has asked for. -/
theorem evicts_eq (s : Held α) (f : Frame α) :
    f.evicts = match f.need s with
      | .ask (.evict r) => [r]
      | _ => [] := by
  cases f with
  | start op => rfl
  | call c =>
    simp only [evicts, need]
    rw [c.evicts_eq s.pool]
    cases c.need s.pool with
    | ask q => cases q <;> rfl
    | step | sub | wait | «over» => rfl

/-- The result of an operation that has ended is the caller's. -/
theorem hands_eq_handed {s : Held α} {f : Frame α} {r : Reply α} (hn : f.need s = .over r) :
    f.hands = f.handed := by
  obtain ⟨c, rfl, hc⟩ := exists_over hn
  exact Call.hands_eq_handed hc

end Frame

/-! ## The ledger -/

/-- What is recorded of the resources of a pool. -/
structure Ledger (α : Type) where
  /-- What was ever made. -/
  made      : List α := []
  /-- What callers hold. -/
  held      : List α := []
  /-- What was torn down. -/
  evicted   : List α := []
  /-- What a teardown raised for. -/
  spoiled   : List α := []
  discarded : List α := []
  /-- What a raise of something else took with it, or was brought back to a pool that had gone. -/
  lost      : List α := []
  /-- What was judged stale. -/
  stale     : List α := []
  /-- What was ever asked. -/
  asked     : List (Query α) := []

namespace Ledger

/-- What is gone. -/
def gone (L : Ledger α) : List α := L.evicted ++ L.spoiled ++ L.discarded ++ L.lost

/-- An answer is written down. -/
def settle (L : Ledger α) (c : Call α) (reply : Reply α) : Ledger α :=
  { L with
    made := c.makes reply ++ L.made
    evicted := c.buries reply ++ L.evicted
    spoiled := c.spoils reply ++ L.spoiled
    discarded := c.discards reply ++ L.discarded
    lost := c.forfeits reply ++ L.lost
    stale := c.condemns reply ++ L.stale }

/-- What a thread asks from now on is written down. -/
def ask (L : Ledger α) : Status (Query α) (Reply α) → Ledger α
  | .asking q => { L with asked := q :: L.asked }
  | _ => L

/-- A move is written down. One that makes a resource a second time is objected to, and one by
which a caller gives back what it does not hold. -/
def note [DecidableEq α] (L : Ledger α) (w : World (Held α) (Frame α)) :
    Move (Op α) (Reply α) → World (Held α) (Frame α) → Option (Ledger α)
  | .enter _ (.call (.release r)), _ | .enter _ (.call (.discard r)), _ =>
    if r ∈ L.held then some { L with held := L.held.erase r } else none
  | .run i _, w' =>
    match w.stack i with
    | f :: _ =>
      some ({ L with lost := f.strands w.shared ++ L.lost }.ask ((program α).status w' i))
    | [] => some L
  | .answer i reply, w' =>
    match w.stack i with
    | .call c :: _ =>
      if c.takes reply then
        if ∀ r ∈ c.makes reply, r ∉ L.made then
          some ((L.settle c reply).ask ((program α).status w' i))
        else none
      else some L
    | _ => some L
  | .collect i, _ =>
    match w.stack i with
    | f :: _ => some { L with held := f.handed ++ L.held }
    | [] => some L
  | _, _ => some L

/-- What an operation brings back leaves the caller's hands. -/
theorem note_enter [DecidableEq α] {L L' : Ledger α} {w w' : World (Held α) (Frame α)} {i : Nat}
    {op : Op α} (h : L.note w (.enter i op) w' = some L') :
    ∃ held, L' = { L with held } ∧ (Frame.brings op ++ held).Perm L.held := by
  cases op with
  | call op =>
    cases op with
    | release r | discard r =>
      simp only [note, Option.ite_none_right_eq_some, Option.some.injEq] at h
      obtain ⟨hr, rfl⟩ := h
      exact ⟨L.held.erase r, rfl, (List.perm_cons_erase hr).symm⟩
    | acquire | removeIdle | resize | setWaitLimit =>
      cases h
      exact ⟨L.held, rfl, List.Perm.refl _⟩
  | hold | leave =>
    cases h
    exact ⟨L.held, rfl, List.Perm.refl _⟩

section

variable (L : Ledger α) (s : Status (Query α) (Reply α))

@[simp] theorem made_ask : (L.ask s).made = L.made := by cases s <;> rfl
@[simp] theorem held_ask : (L.ask s).held = L.held := by cases s <;> rfl
@[simp] theorem evicted_ask : (L.ask s).evicted = L.evicted := by cases s <;> rfl
@[simp] theorem spoiled_ask : (L.ask s).spoiled = L.spoiled := by cases s <;> rfl
@[simp] theorem gone_ask : (L.ask s).gone = L.gone := by cases s <;> rfl
@[simp] theorem stale_ask : (L.ask s).stale = L.stale := by cases s <;> rfl

end

/-- A thread asks for the teardowns that its top frame runs. -/
theorem count_asked_ask [DecidableEq α] (L : Ledger α) {w : World (Held α) (Frame α)} {i : Nat}
    {f : Frame α} {below : List (Frame α)} (hst : w.stack i = f :: below) (r : α) :
    (L.ask ((program α).status w i)).asked.count (.evict r) =
      L.asked.count (.evict r) + f.evicts.count r := by
  have hf : (program α).need w.shared f = f.need w.shared := rfl
  rw [f.evicts_eq w.shared]
  unfold Program.status
  simp only [hst, hf]
  cases f.need w.shared with
  | ask q =>
    simp only [ask, List.count_cons]
    cases q with
    | evict r' => simp [List.count_singleton]
    | create | isStale | drop => simp
  | step | sub | wait => rfl
  | «over» reply =>
    simp only
    split
    · rfl
    · split <;> rfl

end Ledger

/-- Every resource that was made is idle, in the hands of a call, held by a caller or gone, and
every teardown asked for runs or has ended. -/
structure Custody [DecidableEq α] (L : Ledger α) (w : World (Held α) (Frame α)) : Prop where
  distinct  : L.made.Nodup
  places    : (w.shared.pool.idle ++ w.gather Frame.hands ++ L.held ++ L.gone).Perm L.made
  asked     : ∀ r, L.asked.count (.evict r) =
    (w.gather Frame.evicts ++ L.evicted ++ L.spoiled).count r
  condemned : ∀ r ∈ L.stale, .evict r ∈ L.asked

namespace Custody

variable [DecidableEq α] {L L' : Ledger α} {w w' : World (Held α) (Frame α)}

theorem step {i : Nat} {f f' : Frame α} {below : List (Frame α)} {m : Moment} {s' : Held α}
    (hc : Custody L w) (hst : w.stack i = f :: below) (hn : f.need w.shared = .step)
    (h : Frame.Steps m w.shared f s' f') :
    Custody ({ L with lost := f.strands w.shared ++ L.lost }.ask
      ((program α).status (w.update i s' (f' :: below)) i)) (w.update i s' (f' :: below)) := by
  have hst' := World.stack_update_self (World.lt_length_of_stack hst) s' (f' :: below)
  have quiet : f.evicts = [] := by rw [f.evicts_eq w.shared, hn]
  obtain ⟨distinct, places, asked, condemned⟩ := hc
  refine ⟨by simpa using distinct, ?_, ?_, ?_⟩
  · have moved := World.gather_replace (g := Frame.hands) hst s' f'
    have passed := h.hands
    rw [Ledger.made_ask, Ledger.held_ask, Ledger.gone_ask, World.shared_update]
    rw [List.perm_iff_count] at places moved passed ⊢
    intro r
    have := places r
    have := moved r
    have := passed r
    simp only [List.count_append, Ledger.gone] at *
    omega
  · intro r
    have moved := World.gather_replace (g := Frame.evicts) hst s' f'
    rw [List.perm_iff_count] at moved
    rw [Ledger.count_asked_ask _ hst']
    have := asked r
    have := moved r
    simp only [List.count_append, quiet, List.count_nil, Ledger.evicted_ask,
      Ledger.spoiled_ask] at *
    omega
  · intro r hr
    rw [← List.count_pos_iff, Ledger.count_asked_ask _ hst']
    have := List.count_pos_iff.mpr (condemned r (by simpa using hr))
    show 0 < L.asked.count (.evict r) + _
    omega

theorem answer {i : Nat} {c c' : Call α} {below : List (Frame α)} {reply : Reply α}
    {s' : Held α} (hc : Custody L w) (hst : w.stack i = .call c :: below)
    (ht : c.takes reply = true) (hnew : ∀ r ∈ c.makes reply, r ∉ L.made)
    (h : Call.Answered c reply c') (hs' : s'.pool.idle = w.shared.pool.idle) :
    Custody ((L.settle c reply).ask ((program α).status (w.update i s' (.call c' :: below)) i))
      (w.update i s' (.call c' :: below)) := by
  have hst' := World.stack_update_self (World.lt_length_of_stack hst) s' (.call c' :: below)
  obtain ⟨distinct, places, asked, condemned⟩ := hc
  refine ⟨?_, ?_, ?_, ?_⟩
  · rw [Ledger.made_ask]
    exact List.nodup_append.mpr ⟨c.makes_nodup reply, distinct, fun r hr s hs hrs =>
      hnew r hr (hrs ▸ hs)⟩
  · have moved := World.gather_replace (g := Frame.hands) hst s' (.call c')
    have passed := h.hands ht
    rw [Ledger.made_ask, Ledger.held_ask, Ledger.gone_ask, World.shared_update, hs']
    rw [List.perm_iff_count] at places moved passed ⊢
    intro r
    have := places r
    have := moved r
    have := passed r
    simp only [List.count_append, Ledger.gone, Ledger.settle, Call.ends, Frame.hands_call] at *
    omega
  · intro r
    have moved := World.gather_replace (g := Frame.evicts) hst s' (.call c')
    rw [List.perm_iff_count] at moved
    have ended := Call.buries_append_spoils ht
    rw [Ledger.count_asked_ask _ hst']
    have := asked r
    have := moved r
    simp only [List.count_append, Ledger.evicted_ask, Ledger.spoiled_ask, Ledger.settle,
      Frame.evicts, ← ended] at *
    omega
  · intro r hr
    rw [← List.count_pos_iff, Ledger.count_asked_ask _ hst']
    rw [Ledger.stale_ask] at hr
    rcases List.mem_append.mp hr with hr | hr
    · exact Nat.add_pos_right _ (List.count_pos_iff.mpr (h.condemns r hr))
    · exact Nat.add_pos_left (List.count_pos_iff.mpr (condemned r hr)) _

/-- A change that leaves every resource where it is. -/
theorem of_perm (hc : Custody L w) (hi : w'.shared.pool.idle = w.shared.pool.idle)
    (hands : (w'.gather Frame.hands).Perm (w.gather Frame.hands))
    (evicts : (w'.gather Frame.evicts).Perm (w.gather Frame.evicts)) : Custody L w' := by
  obtain ⟨distinct, places, asked, condemned⟩ := hc
  refine ⟨distinct, ?_, fun r => ?_, condemned⟩
  · rw [hi]
    exact (((hands.append_left _).append_right _).append_right _).trans places
  · rw [asked r]
    exact (((evicts.append_right _).append_right _).count_eq r).symm

/-- An operation begins with what its caller gives back. -/
theorem enter {i : Nat} {op : Op α} {held : List α} (hc : Custody L w) (hi : i < w.threads.length)
    (hh : (Frame.brings op ++ held).Perm L.held) :
    Custody { L with held } (w.update i w.shared (.start op :: w.stack i)) := by
  have hands := World.gather_push (g := Frame.hands) hi w.shared (.start op)
  have evicts := World.gather_push (g := Frame.evicts) hi w.shared (.start op)
  rw [Frame.hands_start] at hands
  obtain ⟨distinct, places, asked, condemned⟩ := hc
  refine ⟨distinct, ?_, fun r => ?_, condemned⟩
  · rw [List.perm_iff_count] at places hands hh ⊢
    intro r
    have := places r
    have := hands r
    have := hh r
    simp only [List.count_append, Ledger.gone, World.shared_update] at *
    omega
  · refine (asked r).trans ?_
    exact (((evicts.append_right _).append_right _).count_eq r).symm

/-- A caller takes what a call hands it. -/
theorem collect {i : Nat} {f : Frame α} {below : List (Frame α)} {reply : Reply α}
    (hc : Custody L w) (hst : w.stack i = f :: below) (hn : f.need w.shared = .over reply) :
    Custody { L with held := f.handed ++ L.held } (w.update i w.shared below) := by
  have hands := World.gather_pop (g := Frame.hands) hst w.shared
  have evicts := World.gather_pop (g := Frame.evicts) hst w.shared
  have quiet : f.evicts = [] := by rw [f.evicts_eq w.shared, hn]
  rw [Frame.hands_eq_handed hn] at hands
  rw [quiet, List.nil_append] at evicts
  obtain ⟨distinct, places, asked, condemned⟩ := hc
  refine ⟨distinct, ?_, fun r => ?_, condemned⟩
  · rw [List.perm_iff_count] at places hands ⊢
    intro r
    have := places r
    have := hands r
    simp only [List.count_append, Ledger.gone, World.shared_update] at *
    omega
  · refine (asked r).trans ?_
    exact (((evicts.append_right _).append_right _).count_eq r).symm

/-- **A move keeps every resource in one place.** -/
theorem move {m : Move (Op α) (Reply α)} {notices : List Notice} (hc : Custody L w)
    (ha : (program α).apply w m = some (w', notices)) (hn : L.note w m w' = some L') :
    Custody L' w' := by
  cases moved ha with
  | spawn =>
    obtain rfl : L = L' := Option.some.inj hn
    exact hc.of_perm rfl (by simp) (by simp)
  | enter op hi =>
    obtain ⟨held, rfl, hh⟩ := Ledger.note_enter hn
    exact hc.enter hi hh
  | step hst hne h =>
    simp only [Ledger.note, hst, Option.some.injEq] at hn
    subst hn
    exact hc.step hst hne h
  | answer hst _ answered =>
    simp only [Ledger.note, hst] at hn
    split at hn
    · rename_i ht
      split at hn
      · rename_i hnew
        cases hn
        exact hc.answer hst ht hnew answered rfl
      · exact absurd hn nofun
    · rename_i ht
      cases hn
      obtain rfl := answered.eq_of_not_takes (by simpa using ht)
      refine hc.of_perm rfl ?_ ?_
      · exact (List.perm_append_left_iff _).mp (World.gather_replace (g := Frame.hands) hst _ _)
      · exact (List.perm_append_left_iff _).mp (World.gather_replace (g := Frame.evicts) hst _ _)
  | expire hst =>
    obtain rfl : L = L' := Option.some.inj hn
    exact hc.of_perm rfl (List.Perm.refl _) (List.Perm.refl _)
  | collect hst =>
    simp only [Ledger.note, hst, Option.some.injEq] at hn
    subst hn
    exact hc.collect hst rfl

theorem of_kept {l : Limits} (h : (program α).Kept Ledger.note {}
    (World.init { pool := .ofLimits l }) L w) : Custody L w := by
  induction h with
  | refl => exact ⟨List.nodup_nil, List.Perm.refl _, fun _ => rfl, nofun⟩
  | move m h ha hn ih => exact ih.move ha hn

end Custody

/-! ## What is gone stays gone -/

namespace Ledger

variable [DecidableEq α] {L L' : Ledger α} {w w' w'' : World (Held α) (Frame α)}

/-- Nothing is ever struck out of the ledger. -/
theorem subset_of_note {m : Move (Op α) (Reply α)} (h : L.note w m w'' = some L') :
    L.gone ⊆ L'.gone ∧ L.stale ⊆ L'.stale := by
  cases m with
  | enter i op =>
    obtain ⟨held, rfl, -⟩ := note_enter h
    exact ⟨List.Subset.refl _, List.Subset.refl _⟩
  | run i moment =>
    simp only [note] at h
    split at h <;> cases h
    · rw [gone_ask, stale_ask]
      refine ⟨fun r hr => ?_, List.Subset.refl _⟩
      simp only [gone, List.mem_append] at hr ⊢
      exact hr.imp_right Or.inr
    · exact ⟨List.Subset.refl _, List.Subset.refl _⟩
  | answer i reply =>
    simp only [note] at h
    split at h
    · split at h
      · split at h <;> cases h
        rw [gone_ask, stale_ask]
        refine ⟨fun r hr => ?_, List.subset_append_right ..⟩
        simp only [gone, settle, List.mem_append] at hr ⊢
        rcases hr with ((hr | hr) | hr) | hr
        · exact Or.inl (Or.inl (Or.inl (Or.inr hr)))
        · exact Or.inl (Or.inl (Or.inr (Or.inr hr)))
        · exact Or.inl (Or.inr (Or.inr hr))
        · exact Or.inr (Or.inr hr)
      · cases h
        exact ⟨List.Subset.refl _, List.Subset.refl _⟩
    · cases h
      exact ⟨List.Subset.refl _, List.Subset.refl _⟩
  | collect i =>
    simp only [note] at h
    split at h <;> cases h <;> exact ⟨List.Subset.refl _, List.Subset.refl _⟩
  | spawn | expire =>
    cases h
    exact ⟨List.Subset.refl _, List.Subset.refl _⟩

theorem subset_of_kept (h : (program α).Kept note L w L' w') :
    L.gone ⊆ L'.gone ∧ L.stale ⊆ L'.stale := by
  induction h with
  | refl => exact ⟨List.Subset.refl _, List.Subset.refl _⟩
  | move m _ _ hn ih =>
    obtain ⟨gone, stale⟩ := subset_of_note hn
    exact ⟨List.Subset.trans ih.1 gone, List.Subset.trans ih.2 stale⟩

end Ledger

/-! ## Handing out -/

/-- How a call comes to have `r` for its caller. -/
inductive Cleared (w : World (Held α) (Frame α)) (m : Move (Op α) (Reply α)) (r : α) : Prop
  /-- It took `r` from the idle ones, and `r` is judged fresh. -/
  | fresh {i : Nat} {deadline : Option Instant} {below : List (Frame α)}
      (hs : w.stack i = .call (.checking deadline r) :: below) (hm : m = .answer i (.verdict false))
  | made {i : Nat} {below : List (Frame α)} (hs : w.stack i = .call .creating :: below)
      (hm : m = .answer i (.got r))

section

variable [DecidableEq α] {w w' : World (Held α) (Frame α)} {m : Move (Op α) (Reply α)}
  {notices : List Notice} {r : α}

/-- **A call hands out what it found fresh, or made.** -/
theorem cleared_of_handed (ha : (program α).apply w m = some (w', notices))
    (hr : r ∈ w'.gather Frame.handed) : r ∈ w.gather Frame.handed ∨ Cleared w m r := by
  cases moved ha with
  | spawn => exact Or.inl (by simpa using hr)
  | enter op hi => exact Or.inl ((World.mem_gather_push hi hr).resolve_left List.not_mem_nil)
  | step hst _ steps =>
    rcases World.mem_gather_replace hst hr with new | old
    · cases steps with
      | inner h =>
        have new : r ∈ Call.handed _ := new
        rw [h.handed] at new
        exact absurd new List.not_mem_nil
      | dead | call | hold | leave | last => exact absurd new List.not_mem_nil
    · exact Or.inl old
  | answer hst _ answered =>
    rcases World.mem_gather_replace hst hr with new | old
    · rcases answered.handed r new with old | ⟨deadline, rfl, rfl⟩ | ⟨rfl, rfl⟩
      · exact Or.inl (World.mem_gather_of_stack hst old)
      · exact Or.inr (.fresh hst rfl)
      · exact Or.inr (.made hst rfl)
    · exact Or.inl old
  | expire hst => exact Or.inl hr
  | collect hst => exact Or.inl (World.mem_gather_pop hst hr)

/-- **A call judges what it takes from the idle ones.** -/
theorem taken_of_checks (ha : (program α).apply w m = some (w', notices))
    (hr : r ∈ w'.gather Frame.checks) : r ∈ w.gather Frame.checks ∨
      (∃ i moment, m = .run i moment) ∧ w.shared.pool.idle = r :: w'.shared.pool.idle := by
  cases moved ha with
  | spawn => exact Or.inl (by simpa using hr)
  | enter op hi => exact Or.inl ((World.mem_gather_push hi hr).resolve_left List.not_mem_nil)
  | @step i moment _ _ _ _ hst _ steps =>
    rcases World.mem_gather_replace hst hr with new | old
    · cases steps with
      | inner h => exact Or.inr ⟨⟨i, moment, rfl⟩, h.checks r new⟩
      | dead | call | hold | leave | last => exact absurd new List.not_mem_nil
    · exact Or.inl old
  | answer hst _ answered =>
    rcases World.mem_gather_replace hst hr with new | old
    · have old := answered.checks r new
      exact Or.inl (World.mem_gather_of_stack hst old)
    · exact Or.inl old
  | expire hst => exact Or.inl hr
  | collect hst => exact Or.inl (World.mem_gather_pop hst hr)

end

/-! ## One place -/

/-- Where a resource is, each time it is there: idle, judged by a call, borrowed, torn down or about
to be, or gone. Borrowed is what callers hold, with what calls have for them or from them. -/
def Ledger.places [DecidableEq α] (L : Ledger α) (w : World (Held α) (Frame α)) (r : α) :
    List Nat :=
  [w.shared.pool.idle.count r, (w.gather Frame.checks).count r,
    (L.held ++ w.gather Frame.lends).count r, (w.gather Frame.tears).count r, L.gone.count r]

namespace Custody

variable [DecidableEq α] {L : Ledger α} {w : World (Held α) (Frame α)}

theorem sum_places (hc : Custody L w) (r : α) : (L.places w r).sum = L.made.count r := by
  have split : (w.gather Frame.checks ++ w.gather Frame.lends ++ w.gather Frame.tears).Perm
      (w.gather Frame.hands) := (World.gather_append.append_right _).trans World.gather_append
  have places := hc.places
  rw [List.perm_iff_count] at places split
  have := places r
  have := split r
  simp only [List.count_append] at *
  simp only [Ledger.places, List.sum_cons, List.sum_nil, List.count_append]
  omega

/-- **A resource that was made is in one place, another one nowhere.** -/
theorem sum_places_eq (hc : Custody L w) (r : α) :
    (L.places w r).sum = if r ∈ L.made then 1 else 0 := by
  rw [hc.sum_places r]
  split
  · rename_i hr
    exact List.count_eq_one_of_mem hc.distinct hr
  · rename_i hr
    exact List.count_eq_zero_of_not_mem hr

theorem evicts_le_tears (w : World (Held α) (Frame α)) (r : α) :
    (w.gather Frame.evicts).count r ≤ (w.gather Frame.tears).count r := by
  rw [World.count_gather, World.count_gather]
  refine World.total_le fun f => ?_
  cases f with
  | start op => exact Nat.le_refl _
  | call c =>
    cases c with
    | evicting r' rest counted =>
      simp only [Frame.evicts, Frame.tears, Call.evicts, Call.tears, List.count_cons]
      exact Nat.add_le_add_right (Nat.zero_le _) _
    | _ => first | exact Nat.le_refl _ | exact Nat.zero_le _

/-- A teardown is asked for once for what is torn down or was, never for anything else. -/
theorem count_asked_le (hc : Custody L w) (r : α) : L.asked.count (.evict r) ≤
    (w.gather Frame.tears).count r + L.evicted.count r + L.spoiled.count r := by
  have := evicts_le_tears w r
  rw [hc.asked r, List.count_append, List.count_append]
  omega

/-- What is gone is nowhere else. -/
theorem places_of_gone (hc : Custody L w) {r : α} (hr : r ∈ L.gone) :
    L.places w r = [0, 0, 0, 0, 1] := by
  have sum := hc.sum_places_eq r
  have pos := List.count_pos_iff.mpr hr
  simp only [Ledger.places, List.sum_cons, List.sum_nil] at sum ⊢
  have le : (if r ∈ L.made then 1 else 0) ≤ 1 := by split <;> omega
  have idle : w.shared.pool.idle.count r = 0 := by omega
  have checked : (w.gather Frame.checks).count r = 0 := by omega
  have lent : (L.held ++ w.gather Frame.lends).count r = 0 := by omega
  have torn : (w.gather Frame.tears).count r = 0 := by omega
  have gone : L.gone.count r = 1 := by omega
  rw [idle, checked, lent, torn, gone]

/-- What was judged stale is torn down, once, and nowhere else. -/
theorem of_condemned (hc : Custody L w) {r : α} (hr : r ∈ L.stale) :
    L.asked.count (.evict r) = 1 ∧ r ∉ w.shared.pool.idle ∧ r ∉ w.gather Frame.checks ∧
    r ∉ L.held ++ w.gather Frame.lends := by
  have asked := List.count_pos_iff.mpr (hc.condemned r hr)
  have le := hc.count_asked_le r
  have sum := hc.sum_places_eq r
  have one : (if r ∈ L.made then 1 else 0) ≤ 1 := by split <;> omega
  simp only [Ledger.places, Ledger.gone, List.sum_cons, List.sum_nil, List.count_append] at sum
  refine ⟨by omega, ?_, ?_, ?_⟩ <;> rw [← List.count_eq_zero]
  · omega
  · omega
  · rw [List.count_append]
    omega

end Custody

/-- **Every resource is in one place.** In every world that a run from a fresh pool comes to,
whatever else users and callbacks do, if no resource is made twice and callers give back only what
they hold:

* a resource that was made is in one place and there once, and no other one is anywhere;
* its teardown is asked for at most once, and never once it was discarded;
* one that was judged stale has its teardown asked for, and is neither idle nor judged nor borrowed;
* one that is gone stays gone and is nowhere else, and one judged stale stays so;
* a call hands out what it judged fresh, having taken it from the idle ones, or what it made. -/
theorem one_place [DecidableEq α] (l : Limits) {L : Ledger α} {w : World (Held α) (Frame α)}
    (h : (program α).Kept Ledger.note {} (World.init { pool := .ofLimits l }) L w) :
    (∀ r, (L.places w r).sum = if r ∈ L.made then 1 else 0) ∧
    (∀ r, L.asked.count (.evict r) ≤ 1 ∧ (r ∈ L.discarded → .evict r ∉ L.asked)) ∧
    (∀ r ∈ L.stale, L.asked.count (.evict r) = 1 ∧ r ∉ w.shared.pool.idle ∧
      r ∉ w.gather Frame.checks ∧ r ∉ L.held ++ w.gather Frame.lends) ∧
    (∀ L' w', (program α).Kept Ledger.note L w L' w' →
      L.gone ⊆ L'.gone ∧ L.stale ⊆ L'.stale ∧ ∀ r ∈ L.gone, L'.places w' r = [0, 0, 0, 0, 1]) ∧
    ∀ m w' notices, (program α).apply w m = some (w', notices) →
      (∀ r ∈ w'.gather Frame.handed, r ∈ w.gather Frame.handed ∨ Cleared w m r) ∧
      ∀ r ∈ w'.gather Frame.checks, r ∈ w.gather Frame.checks ∨
        (∃ i moment, m = .run i moment) ∧ w.shared.pool.idle = r :: w'.shared.pool.idle := by
  have hc := Custody.of_kept h
  refine ⟨hc.sum_places_eq, fun r => ?_, fun r => hc.of_condemned, fun L' w' h' => ?_,
    fun m w' notices ha => ?_⟩
  · have le := hc.count_asked_le r
    have sum := hc.sum_places_eq r
    have one : (if r ∈ L.made then 1 else 0) ≤ 1 := by split <;> omega
    simp only [Ledger.places, Ledger.gone, List.sum_cons, List.sum_nil, List.count_append] at sum
    refine ⟨by omega, fun hr => ?_⟩
    have := List.count_pos_iff.mpr hr
    rw [← List.count_eq_zero]
    omega
  · obtain ⟨gone, stale⟩ := Ledger.subset_of_kept h'
    have later := Custody.of_kept (h.trans h')
    exact ⟨gone, stale, fun r hr => later.places_of_gone (gone hr)⟩
  · exact ⟨fun r => cleared_of_handed ha, fun r => taken_of_checks ha⟩

/-- A resource is made, lent and brought back; then it is found stale, and another one is made. -/
def madeTwice : List (Move (Op Nat) (Reply Nat)) :=
  [.spawn, .enter 0 (.call .acquire), .run 0 (.at 0), .run 0 (.at 0), .answer 0 (.got 7),
    .collect 0, .enter 0 (.call (.release 7)), .run 0 (.at 0), .run 0 (.at 0), .run 0 (.at 0),
    .collect 0, .enter 0 (.call .acquire), .run 0 (.at 0), .run 0 (.at 0),
    .answer 0 (.verdict true), .answer 0 .done, .run 0 (.at 0), .run 0 (.at 0), .run 0 (.at 0),
    .answer 0 (.got 8), .collect 0]

theorem one_place_madeTwice : ∃ L w,
    (program Nat).keep? Ledger.note {} (World.init { pool := .ofLimits {} }) madeTwice =
      some (L, w) ∧
    L = { made := [8, 7], held := [8], evicted := [7], stale := [7]
          asked := [.create, .evict 7, .isStale 7, .create] } ∧
    (∀ r, (L.places w r).sum = if r ∈ L.made then 1 else 0) ∧
    (∀ r, L.asked.count (.evict r) ≤ 1 ∧ (r ∈ L.discarded → .evict r ∉ L.asked)) ∧
    (∀ r ∈ L.stale, L.asked.count (.evict r) = 1 ∧ r ∉ w.shared.pool.idle ∧
      r ∉ w.gather Frame.checks ∧ r ∉ L.held ++ w.gather Frame.lends) := by
  have run : (program Nat).keep? Ledger.note {} (World.init { pool := .ofLimits {} }) madeTwice =
      some ({ made := [8, 7], held := [8], evicted := [7], stale := [7]
              asked := [.create, .evict 7, .isStale 7, .create] },
        { shared :=
            { pool :=
                { allocated := 1
                  counters :=
                    { acquired := 2, released := 1, created := 2, evicted := 1, stale := 1 } }
              keepers := 4 }
          threads := [[]] }) := rfl
  obtain ⟨places, asked, stale, -, -⟩ := one_place {} (Program.kept_of_keep? run)
  exact ⟨_, _, run, rfl, places, asked, stale⟩

end Held

end Lending.Pool
