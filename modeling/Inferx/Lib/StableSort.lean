import Mathlib.Data.List.Basic
import Mathlib.Data.List.Nodup

/-!
# Stable sorting

What a stable sort by a total preorder does to a part of a list: it is the sort of the
whole, restricted to the part. An element goes behind what is strictly before it and in
front of the rest, so the sort can be taken apart one element at a time.
-/

namespace Inferx.StableSort

variable {α : Type} {le : α → α → Bool}

/-- A sort order: `le` is transitive and total. -/
structure IsOrder (le : α → α → Bool) : Prop where
  trans : ∀ a b c, le a b = true → le b c = true → le a c = true
  total : ∀ a b, (le a b || le b a) = true

/-- A sorted list is what is strictly before `a` and the rest, and `a` goes between. -/
theorem mergeSort_halves (h : IsOrder le) (a : α) (l : List α) :
    l.mergeSort le = (l.mergeSort le).filter (fun b => !le a b) ++
        (l.mergeSort le).filter (fun b => le a b) ∧
      (a :: l).mergeSort le = (l.mergeSort le).filter (fun b => !le a b) ++
        a :: (l.mergeSort le).filter (fun b => le a b) := by
  obtain ⟨l₁, l₂, hcons, hl, hbefore⟩ := List.mergeSort_cons h.trans h.total a l
  have hsorted : (l₁ ++ a :: l₂).Pairwise fun x y => le x y = true :=
    hcons ▸ List.pairwise_mergeSort h.trans h.total (a :: l)
  have hbehind : ∀ b ∈ l₂, le a b = true :=
    (List.pairwise_cons.mp (List.pairwise_append.mp hsorted).2.1).1
  have hfirst : l₁.filter (fun b => !le a b) = l₁ := List.filter_eq_self.mpr hbefore
  have hfirst' : l₁.filter (fun b => le a b) = [] := by
    refine List.filter_eq_nil_iff.mpr fun b hb hle => ?_
    have := hbefore b hb
    rw [hle] at this
    cases this
  have hrest : l₂.filter (fun b => le a b) = l₂ := List.filter_eq_self.mpr hbehind
  have hrest' : l₂.filter (fun b => !le a b) = [] := by
    refine List.filter_eq_nil_iff.mpr fun b hb hnot => ?_
    rw [hbehind b hb] at hnot
    cases hnot
  rw [hcons, hl, List.filter_append, List.filter_append, hfirst, hfirst', hrest, hrest',
    List.append_nil, List.nil_append]
  exact ⟨rfl, rfl⟩

/-- **The sort of a part** is the part of the sort. -/
theorem mergeSort_filter (h : IsOrder le) (p : α → Bool) (l : List α) :
    (l.filter p).mergeSort le = (l.mergeSort le).filter p := by
  induction l with
  | nil => rw [List.filter_nil, List.mergeSort_nil, List.filter_nil]
  | cons a l ih =>
    have hswap : ∀ q : α → Bool, ((l.mergeSort le).filter q).filter p
      = ((l.filter p).mergeSort le).filter q := by
      intro q
      rw [ih, List.filter_filter, List.filter_filter]
      exact List.filter_congr fun b _ => Bool.and_comm _ _
    rw [(mergeSort_halves h a l).2, List.filter_append, hswap]
    by_cases ha : p a = true
    · rw [List.filter_cons_of_pos ha, List.filter_cons_of_pos ha, hswap, (mergeSort_halves h a _).2]
    · -- without it, the two halves are the sort
      rw [List.filter_cons_of_neg ha, List.filter_cons_of_neg ha, hswap]
      exact (mergeSort_halves h a _).1

/-- Where no two elements are equal in the order, the sort depends on the elements only. -/
theorem mergeSort_perm_eq (h : IsOrder le) {l l' : List α} (hperm : l.Perm l')
    (hinj : ∀ a ∈ l, ∀ b ∈ l, le a b = true → le b a = true → a = b) :
    l.mergeSort le = l'.mergeSort le := by
  have hboth : (l.mergeSort le).Perm (l'.mergeSort le) :=
    (List.mergeSort_perm l le).trans (hperm.trans (List.mergeSort_perm l' le).symm)
  have hanti : ∀ a b, a ∈ l.mergeSort le → b ∈ l'.mergeSort le → le a b = true → le b a = true →
      a = b := fun a b ha hb =>
    hinj a (List.mem_mergeSort.mp ha) b (hperm.mem_iff.mpr (List.mem_mergeSort.mp hb))
  exact hboth.eq_of_pairwise hanti (List.pairwise_mergeSort h.trans h.total l)
    (List.pairwise_mergeSort h.trans h.total l')

end Inferx.StableSort
