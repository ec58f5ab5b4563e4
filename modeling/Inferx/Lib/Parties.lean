import Mathlib.Data.List.Perm.Basic

/-!
# One of several

A system of several parties keeps them in a list, and one of them takes a step: it
leaves its place, or another state takes its place. An invariant between any two of
them is one between the party that steps and the others, and one among the others.
-/

namespace List

variable {α : Type} {l : List α} {i : ℕ} {a b : α}

/-- The one that steps, and the others. -/
theorem cons_eraseIdx_perm (hi : l[i]? = some a) : (a :: l.eraseIdx i).Perm l := by
  obtain ⟨hlt, hget⟩ := getElem?_eq_some_iff.mp hi
  exact hget ▸ getElem_cons_eraseIdx_perm hlt

/-- Each of them is the one that steps, or one of the others. -/
theorem eq_or_mem_eraseIdx (hi : l[i]? = some a) (hb : b ∈ l) : b = a ∨ b ∈ l.eraseIdx i :=
  mem_cons.mp ((cons_eraseIdx_perm hi).mem_iff.mpr hb)

/-- The new state of the one that steps, and the others. -/
theorem set_perm_of_getElem? (hi : l[i]? = some a) : (l.set i b).Perm (b :: l.eraseIdx i) :=
  set_perm_cons_eraseIdx (getElem?_eq_some_iff.mp hi).1 b

/-- What holds between any two holds between the one that steps and each other one, and
among the others. -/
theorem Pairwise.step {R : α → α → Prop} (h : l.Pairwise R) (hR : ∀ {x y}, R x y → R y x) (hi : l[i]? = some a) :
    (∀ b ∈ l.eraseIdx i, R a b) ∧ (l.eraseIdx i).Pairwise R :=
  pairwise_cons.mp (((cons_eraseIdx_perm hi).pairwise_iff hR).mpr h)

end List
