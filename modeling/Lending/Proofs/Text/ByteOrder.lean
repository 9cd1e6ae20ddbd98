import Lending.Text.ByteOrder
import Mathlib.Data.List.Nodup

/-!
# Sorting by bytes

The order of texts by their bytes is linear, so sorting entries by a text that no two of them share
has one result, however the entries came.

* `before_total`, `before_trans`, `before_antisymm`: the order is linear.
* `pairwise_sortOn`: with texts that differ, it is strict in what has been sorted.
* `sortOn_eq_of_perm`: and what has been sorted does not tell the order it came in.
-/

namespace Lending.Text

theorem bytes_inj {s t : String} : bytes s = bytes t ↔ s = t := by
  unfold bytes
  rw [Array.toList_inj, ← ByteArray.ext_iff]
  exact String.toByteArray_inj

section

variable {s t u : String}

theorem before_iff : before s t = true ↔ bytes s ≤ bytes t := decide_eq_true_iff

theorem before_total (s t : String) : (before s t || before t s) = true := by
  rw [Bool.or_eq_true, before_iff, before_iff]
  exact List.le_total ..

theorem before_trans (h : before s t = true) (h' : before t u = true) : before s u = true := by
  rw [before_iff] at h h' ⊢
  exact List.le_trans h h'

theorem before_antisymm (h : before s t = true) (h' : before t s = true) : s = t := by
  rw [before_iff] at h h'
  exact bytes_inj.mp (List.le_antisymm h h')

/-- Of two texts that differ, one comes strictly first. -/
theorem lt_of_before (h : before s t = true) (hne : s ≠ t) : bytes s < bytes t := by
  rw [before_iff] at h
  by_contra hlt
  exact hne (bytes_inj.mp (List.le_antisymm h hlt))

end

variable {α : Type} {key : α → String} {xs ys : List α}

theorem sortOn_perm (key : α → String) (xs : List α) : (sortOn key xs).Perm xs :=
  List.mergeSort_perm ..

theorem pairwise_before_sortOn (key : α → String) (xs : List α) :
    (sortOn key xs).Pairwise fun a b => before (key a) (key b) = true := by
  refine List.pairwise_mergeSort ?_ ?_ xs
  · exact fun _ _ _ => before_trans
  · exact fun _ _ => before_total ..

/-- **Entries with different texts come in strictly ascending order.** -/
theorem pairwise_sortOn (distinct : (xs.map key).Nodup) :
    (sortOn key xs).Pairwise fun a b => bytes (key a) < bytes (key b) := by
  have differ : (sortOn key xs).Pairwise fun a b => key a ≠ key b :=
    List.pairwise_map.mp (((sortOn_perm key xs).map key).nodup_iff.mpr distinct)
  refine ((pairwise_before_sortOn key xs).and differ).imp ?_
  rintro a b ⟨le, ne⟩
  exact lt_of_before le ne

/-- **Entries with different texts are sorted in one way**, whatever order they came in. -/
theorem sortOn_eq_of_perm (h : xs.Perm ys) (distinct : (xs.map key).Nodup) :
    sortOn key xs = sortOn key ys := by
  have same : (sortOn key xs).Perm (sortOn key ys) :=
    (sortOn_perm key xs).trans (h.trans (sortOn_perm key ys).symm)
  refine same.eq_of_pairwise ?_ (pairwise_before_sortOn key xs) (pairwise_before_sortOn key ys)
  intro a b ha hb le ge
  have ha : a ∈ xs := (sortOn_perm key xs).mem_iff.mp ha
  have hb : b ∈ xs := h.mem_iff.mpr ((sortOn_perm key ys).mem_iff.mp hb)
  exact List.inj_on_of_nodup_map distinct ha hb (before_antisymm le ge)

end Lending.Text
