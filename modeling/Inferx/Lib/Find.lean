import Mathlib.Data.List.Infix

/-!
# The first occurrence of a word

`splitFirst w l` cuts a list at the first occurrence of a word. It is found where it was put,
when what is in front of it has no occurrence and the first letter of the word is not in it a
second time (`splitFirst_append`).
-/

namespace Find

variable {α : Type} [DecidableEq α] {w a b l : List α}

/-- What is before the first occurrence of a word, and what is after it. -/
def splitFirst (w : List α) : List α → Option (List α × List α)
  | [] => if w = [] then some ([], []) else none
  | c :: cs =>
    if w <+: c :: cs then some ([], (c :: cs).drop w.length)
    else (splitFirst w cs).map fun p => (c :: p.1, p.2)

theorem splitFirst_eq_none (hw : w ≠ []) : splitFirst w l = none ↔ ¬ w <:+: l := by
  induction l with
  | nil => simp [splitFirst, hw]
  | cons c cs ih =>
    unfold splitFirst
    rw [List.infix_cons_iff]
    split
    next h => simp [h]
    next h => rw [Option.map_eq_none_iff, ih, or_iff_right h]

/-- What is found is there, and there is none before it. -/
theorem of_splitFirst (hw : w ≠ []) (h : splitFirst w l = some (a, b)) :
    l = a ++ w ++ b ∧ ¬ w <:+: a := by
  induction l generalizing a with
  | nil =>
    rw [splitFirst, if_neg hw] at h
    cases h
  | cons c cs ih =>
    unfold splitFirst at h
    split at h
    next hp =>
      obtain ⟨rfl, rfl⟩ := Prod.mk.inj (Option.some.inj h)
      obtain ⟨t, ht⟩ := hp
      refine ⟨?_, fun hinf => hw (List.eq_nil_of_infix_nil hinf)⟩
      rw [← ht, List.drop_left, List.nil_append]
    next hp =>
      obtain ⟨⟨a', b'⟩, hcs, heq⟩ := Option.map_eq_some_iff.mp h
      obtain ⟨rfl, rfl⟩ := Prod.mk.inj heq
      obtain ⟨rfl, hnot⟩ := ih hcs
      refine ⟨rfl, fun hinf => ?_⟩
      rcases List.infix_cons_iff.mp hinf with hpre | hinf
      · refine hp (hpre.trans ?_)
        rw [List.append_assoc]
        exact List.cons_prefix_cons.mpr ⟨rfl, List.prefix_append _ _⟩
      · exact hnot hinf

/-- A word whose first letter is not in it again does not start before where it was put. -/
theorem splitFirst_append {c : α} {v : List α} (hc : c ∉ v) (ha : ¬ (c :: v) <:+: a) :
    splitFirst (c :: v) (a ++ c :: v ++ b) = some (a, b) := by
  induction a with
  | nil => simp [splitFirst]
  | cons x a ih =>
    have hnot : ¬ (c :: v) <+: x :: (a ++ c :: v ++ b) := by
      intro hpre
      obtain ⟨rfl, s, hs⟩ := List.cons_prefix_cons.mp hpre
      rw [List.append_assoc] at hs
      rcases List.append_eq_append_iff.mp hs with ⟨z, rfl, -⟩ | ⟨z, rfl, hz⟩
      · exact ha (List.cons_prefix_cons.mpr ⟨rfl, List.prefix_append _ _⟩).isInfix
      · -- the word would start a second time within itself
        cases z with
        | nil => exact ha (by rw [List.append_nil])
        | cons y z =>
          obtain ⟨rfl, -⟩ := List.cons.inj hz
          exact hc (List.mem_append_right _ List.mem_cons_self)
    have htail : ¬ (c :: v) <:+: a := fun h => ha (List.infix_cons_iff.mpr (.inr h))
    rw [List.cons_append, List.cons_append, splitFirst, if_neg hnot, ih htail]
    rfl

end Find
