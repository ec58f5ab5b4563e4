import Mathlib.Algebra.BigOperators.Group.List.Lemmas
import Mathlib.Data.List.Perm.Subperm
import Mathlib.Data.List.Nodup
import Mathlib.Tactic.Ring
import Mathlib.Tactic.Linarith

/-!
# Amounts in whole units with a carry

A sum of amounts in fractions of a unit is kept as whole units and a carry below the
unit. Adding one batch after the other loses nothing, and the two are determined by
the sum.

A batch is a part of the rows of a table. `sum_map_mark` tells how a sum over the
rows changes when those of a batch are marked.
-/

namespace Inferx.Carry

/-- `used` whole units of `d` and `carry` are the sum `s`. -/
structure Exact (d used carry s : ℤ) : Prop where
  /-- nothing is lost -/
  sum : d * used + carry = s
  /-- the carry is not negative -/
  nonneg : 0 ≤ carry
  /-- the carry is below the unit -/
  lt : carry < d

variable {d used carry s n : ℤ}

/-- Nothing is zero units. -/
theorem Exact.zero (hd : 0 < d) : Exact d 0 0 0 := ⟨by ring, le_refl 0, hd⟩

/-- One more batch, divided with truncation as SQL does. -/
theorem Exact.add (h : Exact d used carry s) (hn : 0 ≤ n) :
    Exact d (used + (carry + n).tdiv d) ((carry + n).tmod d) (s + n) := by
  have hd : 0 < d := lt_of_le_of_lt h.nonneg h.lt
  have hsum : 0 ≤ carry + n := add_nonneg h.nonneg hn
  refine ⟨?_, Int.tmod_nonneg d hsum, Int.tmod_lt_of_pos _ hd⟩
  have hdiv := Int.mul_tdiv_add_tmod (carry + n) d
  have hold := h.sum
  linarith [mul_add d used ((carry + n).tdiv d)]

/-- Units and carry are determined by the sum. -/
theorem Exact.eq_div_mod (h : Exact d used carry s) : used = s / d ∧ carry = s % d := by
  have hd : 0 < d := lt_of_le_of_lt h.nonneg h.lt
  obtain ⟨hdiv, hmod⟩ : s / d = used ∧ s % d = carry :=
    (Int.ediv_emod_unique hd).mpr ⟨by linarith [h.sum], h.nonneg, h.lt⟩
  exact ⟨hdiv.symm, hmod.symm⟩

section Mark

variable {R κ : Type} {id : R → κ} {rows batch : List R}

/-- Rows with different ids are in a batch exactly if their ids are. -/
theorem mem_batch_iff (hnodup : (rows.map id).Nodup) (hsub : batch.Subperm rows) {r : R} (hr : r ∈ rows) :
    id r ∈ batch.map id ↔ r ∈ batch := by
  constructor
  · intro h
    obtain ⟨r', hr', heq⟩ := List.mem_map.mp h
    have hsame : r' = r := List.inj_on_of_nodup_map hnodup (hsub.subset hr') hr heq
    exact hsame ▸ hr'
  · exact fun h => List.mem_map_of_mem h

variable [DecidableEq κ]

/-- The rows of a batch, picked by their ids. -/
theorem filter_perm_batch (hnodup : (rows.map id).Nodup) (hsub : batch.Subperm rows) :
    (rows.filter fun r => decide (id r ∈ batch.map id)).Perm batch := by
  have hrows : rows.Nodup := List.Nodup.of_map id hnodup
  have hbatch : batch.Nodup := by
    obtain ⟨l, hperm, hl⟩ := hsub
    exact hperm.nodup_iff.mp (hrows.sublist hl)
  refine (List.perm_ext_iff_of_nodup (hrows.filter _) hbatch).mpr fun r => ?_
  rw [List.mem_filter, decide_eq_true_iff]
  constructor
  · exact fun h => (mem_batch_iff hnodup hsub h.1).mp h.2
  · exact fun h => ⟨hsub.subset h, List.mem_map_of_mem h⟩

omit [DecidableEq κ] in
theorem sum_map_filter (p : R → Bool) (g : R → ℤ) (l : List R) :
    ((l.filter p).map g).sum = (l.map fun r => if p r then g r else 0).sum := by
  induction l with
  | nil => rfl
  | cons r l ih =>
    by_cases hp : p r = true
    · rw [List.filter_cons_of_pos hp, List.map_cons, List.sum_cons, ih, List.map_cons, List.sum_cons, if_pos hp]
    · rw [List.filter_cons_of_neg hp, ih, List.map_cons, List.sum_cons, if_neg hp, zero_add]

/-- **A batch is marked.** A sum over all rows changes by a sum over the batch. -/
theorem sum_map_mark {f g : R → ℤ} {mark : R → R} (hnodup : (rows.map id).Nodup) (hsub : batch.Subperm rows)
    (hout : ∀ r ∈ rows, id r ∉ batch.map id → f (mark r) = f r)
    (hin : ∀ r ∈ batch, f (mark r) = f r + g r) :
    ((rows.map mark).map f).sum = (rows.map f).sum + (batch.map g).sum := by
  have hrow : ∀ r ∈ rows, (f ∘ mark) r = f r + if decide (id r ∈ batch.map id) = true then g r else 0 := by
    intro r hr
    by_cases hmem : id r ∈ batch.map id
    · rw [if_pos (decide_eq_true hmem)]
      exact hin r ((mem_batch_iff hnodup hsub hr).mp hmem)
    · rw [if_neg (by simpa using hmem), add_zero]
      exact hout r hr hmem
  have hpick : (batch.map g).sum = (rows.map fun r => if decide (id r ∈ batch.map id) = true then g r else 0).sum := by
    rw [← sum_map_filter]
    exact ((filter_perm_batch hnodup hsub).map g).sum_eq.symm
  rw [List.map_map, List.map_congr_left hrow, List.sum_map_add, hpick]

end Mark

end Inferx.Carry
