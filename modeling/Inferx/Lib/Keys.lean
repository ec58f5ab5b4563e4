import Mathlib.Data.List.Basic
import Mathlib.Order.Lattice

/-!
# Keys with separators

Keys that are made of parts with a separator between them, in an ordered store.
The keys that start with a given list are next to each other in the order
(`prefix_of_between`), and a part without the separator can be read off a key
(`part_of_prefix`).
-/

namespace List

variable {α : Type}

/-- What lies between a list and one that starts with it starts with it too. -/
theorem prefix_of_between [LinearOrder α] {a b x : List α} (hle : ¬ x < a) (hlt : ¬ a ++ b < x) :
    a <+: x := by
  induction a generalizing x with
  | nil => exact nil_prefix
  | cons c a ih =>
    cases x with
    | nil => exact absurd (nil_lt_cons c a) hle
    | cons d x =>
      rw [cons_lt_cons_iff, not_or, not_and] at hle
      rw [cons_append, cons_lt_cons_iff, not_or, not_and] at hlt
      have hdc : d = c := by
        rcases lt_trichotomy d c with hd | hd | hd
        · exact absurd hd hle.1
        · exact hd
        · exact absurd hd hlt.1
      subst hdc
      exact cons_prefix_cons.mpr ⟨rfl, ih (hle.2 rfl) (hlt.2 rfl)⟩

/-- The first part of a key is determined by the key. -/
theorem part_of_prefix {sep : α} {xs ys a b : List α} (hx : sep ∉ xs) (hy : sep ∉ ys)
    (h : xs ++ sep :: a <+: ys ++ sep :: b) : xs = ys ∧ a <+: b := by
  induction xs generalizing ys with
  | nil =>
    cases ys with
    | nil => exact ⟨rfl, (cons_prefix_cons.mp h).2⟩
    | cons y ys =>
      obtain ⟨rfl, -⟩ := cons_prefix_cons.mp h
      exact absurd (mem_cons_self ..) hy
  | cons x xs ih =>
    cases ys with
    | nil =>
      obtain ⟨rfl, -⟩ := cons_prefix_cons.mp h
      exact absurd (mem_cons_self ..) hx
    | cons y ys =>
      rw [cons_append, cons_append] at h
      obtain ⟨rfl, htail⟩ := cons_prefix_cons.mp h
      obtain ⟨rfl, hab⟩ := ih (fun hmem => hx (mem_cons_of_mem _ hmem))
        (fun hmem => hy (mem_cons_of_mem _ hmem)) htail
      exact ⟨rfl, hab⟩

/-- A text without the separator that a key starts with ends inside the first part of the key. -/
theorem prefix_part_iff {sep : α} {x y b : List α} (hx : sep ∉ x) :
    x <+: y ++ sep :: b ↔ x <+: y := by
  constructor
  · intro h
    refine prefix_of_prefix_length_le h (prefix_append ..) (Nat.le_of_not_lt fun hlt => ?_)
    have hsep : y ++ [sep] <+: x :=
      prefix_of_prefix_length_le ((prefix_append_right_inj y).mpr
        (cons_prefix_cons.mpr ⟨rfl, nil_prefix⟩)) h (by simpa using Nat.succ_le_of_lt hlt)
    exact hx (hsep.subset (mem_append_right _ (mem_singleton_self _)))
  · exact fun h => h.trans (prefix_append ..)

/-- No piece has the element that a list is split at. -/
theorem not_mem_of_mem_splitOn [BEq α] [LawfulBEq α] {c : α} {l piece : List α}
    (h : piece ∈ l.splitOn c) : c ∉ piece := by
  induction l generalizing piece with
  | nil =>
    rw [splitOn_nil, mem_singleton] at h
    rw [h]
    exact not_mem_nil
  | cons d l ih =>
    rw [splitOn_cons_eq_if_modifyHead] at h
    split at h
    next =>
      rcases mem_cons.mp h with rfl | h
      · exact not_mem_nil
      · exact ih h
    next hd =>
      obtain ⟨first, rest, hl⟩ := exists_cons_of_ne_nil (splitOn_ne_nil c l)
      rw [hl, modifyHead_cons] at h
      rcases mem_cons.mp h with rfl | h
      · rw [mem_cons, not_or]
        refine ⟨?_, ih (hl ▸ mem_cons_self)⟩
        rintro rfl
        exact hd (beq_self_eq_true c)
      · exact ih (hl ▸ mem_cons_of_mem first h)

end List
