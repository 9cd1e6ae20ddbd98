import Lending.Proofs.Cache.Nesting
import Lending.Proofs.Pool.Balance
import Lending.Proofs.Pool.Refusal

/-!
# How an `acquire` goes on

A call of `acquire` looks for a resource, tears stale ones down and looks again, makes one, or
waits. It is on this way until it has a resource, or an error or a raise to end with, and then on
the way of that.

* `Call.seeks`: on the first way, where an answer that is no raise lets it go on, hands it a
  resource, or fails it (`Answered.seeks`); a step does not lead away from it, unless the pool is
  exhausted (`Steps.seeks`). What is idle is used up before a resource is made, and before the pool
  is exhausted.
* `Steps.fails`: a call that is about to fail does nothing else.
* `Call.raises`: on the way of a raise, which a call does not leave again (`Steps.raises`,
  `Answered.raises`).
-/

namespace Lending

namespace Pool

variable {α : Type}

/-- Whether an `acquire` is still looking for a resource, or making one. -/
def Call.seeks : Call α → Bool
  | .start .acquire | .retry _ | .checking _ _ | .evictingStale _ _ | .creating | .parked _ _
  | .freeing (.retry _) | .notifying (.retry _) => true
  | _ => false

/-- A look goes on, or finds the pool exhausted. Nothing is idle then, nor where something is going
to be made. -/
theorem Looked.seeks {p p' : Pool α} {deadline : Option Instant} {now : Instant} {c' : Call α}
    (h : Looked p deadline now p' c') : c'.seeks = true ∧ (c' = .creating → p'.idle = []) ∨
      ∃ limit, c' = .over (.failed (.exhausted limit)) ∧ p'.idle = [] := by
  cases h with
  | took => exact Or.inl ⟨rfl, nofun⟩
  | reserved hi => exact Or.inl ⟨rfl, fun _ => hi⟩
  | expired hi => exact Or.inr ⟨_, rfl, hi⟩
  | parked => exact Or.inl ⟨rfl, nofun⟩

namespace Call

variable {m : Moment} {p p' : Pool α} {c c' : Call α} {r : Reply α} {q : Query α}

theorem Steps.seeks (h : Steps m p c p' c') (hc : c.seeks = true) :
    c'.seeks = true ∧ (c' = .creating → p'.idle = []) ∨
      ∃ limit, c' = .over (.failed (.exhausted limit)) ∧ p'.idle = [] := by
  cases h with
  | acquire h | retry h | woken _ h => exact Looked.seeks h
  | free next | notify next =>
    cases next with
    | retry => exact Or.inl ⟨rfl, nofun⟩
    | _ => cases hc
  | _ => cases hc

/-- Unless it is a raise, an answer lets an `acquire` go on, hands it a resource, or fails it where
one is being made. -/
theorem Answered.seeks (h : Answered c r c') (hc : c.seeks = true)
    (hr : ∀ message, r ≠ .raised message) :
    c'.seeks = true ∧ (c' = .creating → c = .creating) ∨ (∃ x, c' = .over (.got x)) ∨
      ∃ e, c = .creating ∧ r = .failed e ∧ c' = .freeing (.fail e) := by
  cases h with
  | stale | staleEvicted => exact Or.inl ⟨rfl, nofun⟩
  | fresh _ x | created x => exact Or.inr (Or.inl ⟨x, rfl⟩)
  | notCreated e => exact Or.inr (Or.inr ⟨e, rfl, rfl, rfl⟩)
  | unasked => exact Or.inl ⟨hc, id⟩
  | checkRaised | staleRaised | createRaised => exact absurd rfl (hr _)
  | _ => cases hc

/-- An `acquire` asks for a new resource, or about one that it has taken. -/
theorem asks_of_seeks (hc : c.seeks = true) (ha : c.asks = some q) :
    q = .create ∧ c = .creating ∨
      c ≠ .creating ∧ ((∃ x, q = .isStale x) ∨ ∃ x, q = .evict x) := by
  cases c with
  | creating =>
    cases ha
    exact Or.inl ⟨rfl, rfl⟩
  | checking _ x =>
    cases ha
    exact Or.inr ⟨nofun, Or.inl ⟨x, rfl⟩⟩
  | evictingStale _ x =>
    cases ha
    exact Or.inr ⟨nofun, Or.inr ⟨x, rfl⟩⟩
  | start op =>
    cases op with
    | acquire => cases ha
    | _ => cases hc
  | retry | parked | freeing | notifying => cases ha
  | _ => cases hc

theorem begun_of_seeks (hc : c.seeks = true) (ha : c.asks = some q) : c.begun = true := by
  cases c with
  | start op =>
    cases op with
    | acquire => cases ha
    | _ => cases hc
  | teardown => cases hc
  | _ => rfl

/-- A call that is about to fail asks for nothing. -/
theorem asks_of_error? {e : PoolError} (he : c.error? = some e) : c.asks = none := by
  cases c with
  | freeing | notifying | «over» => rfl
  | _ => cases he

theorem plain_of_seeks (hc : c.seeks = true) : c ≠ .teardown ∧ c.closes = 0 := by
  cases c with
  | teardown | evicting => cases hc
  | _ => exact ⟨nofun, rfl⟩

theorem plain_of_error? {e : PoolError} (he : c.error? = some e) :
    c ≠ .teardown ∧ c.closes = 0 := by
  cases c with
  | teardown | evicting => cases he
  | _ => exact ⟨nofun, rfl⟩

/-- A call that is about to fail waits for nobody. -/
theorem timer?_of_error? {e : PoolError} (he : c.error? = some e) (p : Pool α) :
    c.timer? p = none := by
  cases c with
  | parked => cases he
  | _ => rfl

theorem idle_expire (c : Call α) (p : Pool α) : (c.expire p).idle = p.idle := by
  cases c <;> rfl

/-- A call that is about to fail goes on to do so. -/
theorem Steps.fails (h : Steps m p c p' c') {e : PoolError} (he : c.error? = some e) :
    c'.error? = some e ∧ p'.idle = p.idle := by
  cases h with
  | free next | notify next =>
    cases next with
    | fail => exact ⟨he, rfl⟩
    | _ => cases he
  | _ => cases he

/-! ## Raises -/

/-- Whether a call is on the way of a raise. -/
def raises : Call α → Bool
  | .freeing (.raise _) | .freeing (.drop _ _) | .notifying (.raise _) | .notifying (.drop _ _)
  | .dropping _ _ | .abandoning _ _ _ | .over (.raised _) | .aborted => true
  | _ => false

/-- A raise is on its way until the call has ended with it. -/
theorem Steps.raises (h : Steps m p c p' c') (hc : c.raises = true) : c'.raises = true := by
  cases h with
  | free next | notify next =>
    cases next with
    | raise | drop => rfl
    | _ => cases hc
  | _ => cases hc

theorem raises_abandonAll (message : String) (rs : List α) :
    (abandonAll message rs).raises = true := by
  cases rs <;> rfl

theorem Answered.raises (h : Answered c r c') (hc : c.raises = true) : c'.raises = true := by
  cases h with
  | dropped | dropRaised | abandonRaised => rfl
  | abandoned => exact raises_abandonAll ..
  | unasked => exact hc
  | _ => cases hc

/-- A call that asks is one that a raise can answer. -/
theorem takes_raised (ha : c.asks = some q) (message : String) :
    c.takes (.raised message) = true := by
  cases c with
  | start op =>
    cases op with
    | discard => rfl
    | _ => cases ha
  | checking | evictingStale | creating | dropping | evictingSurplus | evicting | abandoning => rfl
  | _ => cases ha

/-- A raise of the callback is one of the call. -/
theorem Answered.raised {message : String} (h : Answered c (.raised message) c')
    (ha : c.asks = some q) : c'.raises = true := by
  cases h with
  | evictRaised => exact raises_abandonAll ..
  | unasked ht => cases ht.symm.trans (takes_raised ha message)
  | _ => rfl

end Call

end Pool

end Lending
