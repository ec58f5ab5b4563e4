import Mathlib.Algebra.BigOperators.Group.Finset.Basic
import Mathlib.Algebra.Order.BigOperators.Group.Finset
import Inferx.Lib.Map

/-!
# Totals over ordered maps

A total is the sum over the keys of what the entry with the key is worth, so totals over two
maps compare key by key, and one key can be taken out.
-/

namespace BTreeMap

variable {K V W : Type} [Ord K] [Std.TransOrd K] [Std.LawfulEqOrd K] [DecidableEq K]

/-- What the entry with a key is worth. -/
def worth (f : K → V → ℕ) (m : BTreeMap K V) (k : K) : ℕ := m[k]?.elim 0 (f k)

variable {f : K → V → ℕ} {g : K → W → ℕ} {m : BTreeMap K V} {n : BTreeMap K W} {k : K} {v : V}

omit [Std.LawfulEqOrd K] [DecidableEq K] in
theorem worth_of_get (h : m[k]? = some v) : worth f m k = f k v := by
  rw [worth, h, Option.elim_some]

omit [Std.LawfulEqOrd K] [DecidableEq K] in
theorem worth_of_none (h : m[k]? = none) : worth f m k = 0 := by
  rw [worth, h, Option.elim_none]

theorem worth_erase_self : worth f (m.erase k) k = 0 :=
  worth_of_none (by rw [get_erase, if_pos rfl])

theorem worth_erase_of_ne {a : K} (h : a ≠ k) : worth f (m.erase k) a = worth f m a := by
  rw [worth, get_erase_of_ne h, worth]

/-- The keys of a map. -/
def keySet (m : BTreeMap K V) : Finset K := (m.toList.map Prod.fst).toFinset

theorem mem_keySet : k ∈ keySet m ↔ ∃ v, m[k]? = some v := by
  simp only [keySet, List.mem_toFinset, List.mem_map, Prod.exists, exists_and_right, exists_eq_right,
    mem_toList]

/-- A total as a sum over any set that holds the keys. -/
theorem total_eq_sum {S : Finset K} (hS : keySet m ⊆ S) : total f m = ∑ k ∈ S, worth f m k := by
  have hkeys : (m.toList.map Prod.fst).Nodup := by
    simpa only [keysWith, List.filter_true] using nodup_keysWith (fun _ _ => true) m
  have hown : total f m = ∑ k ∈ keySet m, worth f m k := by
    rw [keySet, List.sum_toFinset _ hkeys, List.map_map, total]
    refine congrArg List.sum (List.map_congr_left fun p hp => ?_)
    exact (worth_of_get (mem_toList.mp hp)).symm
  rw [hown]
  refine Finset.sum_subset hS fun k _ hk => worth_of_none ?_
  by_contra hne
  exact hk (mem_keySet.mpr (Option.ne_none_iff_exists'.mp hne))

/-- Totals are compared key by key. -/
theorem total_le (h : ∀ k, worth f m k ≤ worth g n k) : total f m ≤ total g n := by
  rw [total_eq_sum (S := keySet m ∪ keySet n) Finset.subset_union_left,
    total_eq_sum (S := keySet m ∪ keySet n) Finset.subset_union_right]
  exact Finset.sum_le_sum fun k _ => h k

/-- One key taken out. -/
theorem total_erase_add (k : K) : total f (m.erase k) + worth f m k = total f m := by
  have herase : keySet (m.erase k) ⊆ insert k (keySet m) := fun a ha => by
    obtain ⟨v, hv⟩ := mem_keySet.mp ha
    exact Finset.mem_insert_of_mem (mem_keySet.mpr ⟨v, (get_erase_eq_some.mp hv).2⟩)
  rw [total_eq_sum herase, total_eq_sum (Finset.subset_insert k (keySet m)),
    ← Finset.add_sum_erase _ _ (Finset.mem_insert_self k _),
    ← Finset.add_sum_erase _ _ (Finset.mem_insert_self k _), worth_erase_self, Nat.zero_add,
    Nat.add_comm]
  refine congrArg _ (Finset.sum_congr rfl fun a ha => ?_)
  exact worth_erase_of_ne (Finset.ne_of_mem_erase ha)

/-- Totals that differ at one key at most. -/
theorem total_le_erase (k : K) (h : ∀ a, a ≠ k → worth f m a ≤ worth g n a) :
    total f m ≤ total g (n.erase k) + worth f m k := by
  rw [← total_erase_add (f := f) (m := m) k]
  refine Nat.add_le_add_right (total_le fun a => ?_) _
  by_cases ha : a = k
  · rw [ha, worth_erase_self]
    exact Nat.zero_le _
  · rw [worth_erase_of_ne ha, worth_erase_of_ne ha]
    exact h a ha

end BTreeMap
