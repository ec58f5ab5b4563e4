import Std.Data.ExtTreeMap
import Mathlib.Algebra.BigOperators.Group.List.Basic

/-!
# Ordered maps

The maps of a sequential program, as the standard library's extensional tree
maps: iteration runs in key order, and two maps are equal as soon as all their
lookups agree, so a state that has been changed and changed back *is* the old
state.

The lookup lemmas are restated with equality of keys instead of `compare`, and
`total` is the sum of a quantity over all entries.
-/

/-- An ordered map with keys `K` and values `V`. -/
abbrev BTreeMap (K V : Type) [Ord K] : Type := Std.ExtTreeMap K V compare

namespace BTreeMap

variable {K V : Type} [Ord K] [Std.TransOrd K] [Std.LawfulEqOrd K]

@[simp] theorem get_insert_self (m : BTreeMap K V) (k : K) (v : V) :
    (m.insert k v)[k]? = some v := by
  grind

section Lookup

variable [DecidableEq K]

theorem get_insert (m : BTreeMap K V) (k a : K) (v : V) :
    (m.insert k v)[a]? = if a = k then some v else m[a]? := by
  grind

theorem get_erase (m : BTreeMap K V) (k a : K) :
    (m.erase k)[a]? = if a = k then none else m[a]? := by
  grind

theorem get_modify (m : BTreeMap K V) (k a : K) (f : V → V) :
    (m.modify k f)[a]? = if a = k then m[a]?.map f else m[a]? := by
  grind

theorem get_insert_of_ne {m : BTreeMap K V} {k a : K} {v : V} (h : a ≠ k) :
    (m.insert k v)[a]? = m[a]? := by
  rw [get_insert, if_neg h]

theorem get_erase_of_ne {m : BTreeMap K V} {k a : K} (h : a ≠ k) :
    (m.erase k)[a]? = m[a]? := by
  rw [get_erase, if_neg h]

theorem get_modify_self (m : BTreeMap K V) (k : K) (f : V → V) :
    (m.modify k f)[k]? = m[k]?.map f := by
  rw [get_modify, if_pos rfl]

theorem get_modify_of_ne {m : BTreeMap K V} {k a : K} {f : V → V} (h : a ≠ k) :
    (m.modify k f)[a]? = m[a]? := by
  rw [get_modify, if_neg h]

/-- A lookup in an erased map comes from the original map, at another key. -/
theorem get_erase_eq_some {m : BTreeMap K V} {k a : K} {v : V} :
    (m.erase k)[a]? = some v ↔ a ≠ k ∧ m[a]? = some v := by
  rw [get_erase]
  by_cases h : a = k
  · simp [h]
  · simp [h]

end Lookup

theorem mem_toList {m : BTreeMap K V} {k : K} {v : V} :
    (k, v) ∈ m.toList ↔ m[k]? = some v :=
  Std.ExtTreeMap.mem_toList_iff_getElem?_eq_some

theorem nodup_toList (m : BTreeMap K V) : m.toList.Nodup := by
  refine Std.ExtTreeMap.distinct_keys_toList.imp ?_
  intro a b hne hab
  exact hne (by rw [hab]; exact Std.compare_self)

/-! ## Nested maps

Maps of maps, with one operation to write an entry, creating the inner map on
demand, and one to drop an entry, together with an inner map that is left
empty. -/

section Nested

variable {L : Type} [Ord L] [Std.TransOrd L] [Std.LawfulEqOrd L]

/-- Look up an entry of a nested map. -/
def getInner (m : BTreeMap K (BTreeMap L V)) (a : K) (b : L) : Option V :=
  m[a]?.bind fun inner => inner[b]?

/-- Write an entry of a nested map. -/
def setInner (m : BTreeMap K (BTreeMap L V)) (a : K) (b : L) (v : V) :
    BTreeMap K (BTreeMap L V) :=
  m.insert a ((m[a]?.getD ∅).insert b v)

/-- Drop an entry of a nested map. -/
def removeInner (m : BTreeMap K (BTreeMap L V)) (a : K) (b : L) : BTreeMap K (BTreeMap L V) :=
  match m[a]? with
  | none => m
  | some inner =>
    if (inner.erase b).isEmpty then m.erase a else m.insert a (inner.erase b)

variable [DecidableEq K]

theorem getInner_setInner [DecidableEq L] (m : BTreeMap K (BTreeMap L V)) (a c : K) (b d : L) (v : V) :
    getInner (setInner m a b v) c d = if c = a ∧ d = b then some v else getInner m c d := by
  unfold getInner setInner
  rw [get_insert]
  by_cases hc : c = a
  · subst hc
    rw [if_pos rfl, Option.bind_some, get_insert]
    by_cases hd : d = b
    · rw [if_pos hd, if_pos ⟨rfl, hd⟩]
    · rw [if_neg hd, if_neg fun h => hd h.2]
      rcases m[c]? with _ | inner
      · simp
      · simp
  · rw [if_neg hc, if_neg fun h => hc h.1]

omit [Std.LawfulEqOrd K] [DecidableEq K] in
omit [Std.LawfulEqOrd L] in
theorem get_getD (m : BTreeMap K (BTreeMap L V)) (a : K) (b : L) :
    (m[a]?.getD ∅)[b]? = getInner m a b := by
  unfold getInner
  rcases m[a]? with _ | inner
  · simp
  · rfl

omit [Std.LawfulEqOrd L] in
theorem getInner_erase (m : BTreeMap K (BTreeMap L V)) (a c : K) (d : L) :
    getInner (m.erase a) c d = if c = a then none else getInner m c d := by
  unfold getInner
  rw [get_erase]
  by_cases hc : c = a
  · rw [if_pos hc, if_pos hc, Option.bind_none]
  · rw [if_neg hc, if_neg hc]

theorem getInner_removeInner [DecidableEq L] (m : BTreeMap K (BTreeMap L V)) (a c : K) (b d : L) :
    getInner (removeInner m a b) c d = if c = a ∧ d = b then none else getInner m c d := by
  unfold removeInner
  split
  next hnone =>
    split
    next h =>
      unfold getInner
      rw [h.1, hnone, Option.bind_none]
    next => rfl
  next inner hinner =>
    have hself : getInner m a d = inner[d]? := by
      unfold getInner
      rw [hinner, Option.bind_some]
    have herase : (inner.erase b)[d]? = if d = b then none else inner[d]? := get_erase inner b d
    split
    next hempty =>
      rw [getInner_erase]
      by_cases hc : c = a
      · subst hc
        have hnone : (inner.erase b)[d]? = none := by
          rw [Std.ExtTreeMap.isEmpty_iff.mp hempty, Std.ExtTreeMap.getElem?_empty]
        rw [herase] at hnone
        rw [if_pos rfl, hself]
        by_cases hd : d = b
        · rw [if_pos ⟨rfl, hd⟩]
        · rw [if_neg hd] at hnone
          rw [if_neg fun h => hd h.2, hnone]
      · rw [if_neg hc, if_neg fun h => hc h.1]
    next =>
      by_cases hc : c = a
      · subst hc
        have hget : getInner (m.insert c (inner.erase b)) c d = (inner.erase b)[d]? := by
          unfold getInner
          rw [get_insert_self, Option.bind_some]
        rw [hget, herase, hself]
        by_cases hd : d = b
        · rw [if_pos hd, if_pos ⟨rfl, hd⟩]
        · rw [if_neg hd, if_neg fun h => hd h.2]
      · have hget : getInner (m.insert a (inner.erase b)) c d = getInner m c d := by
          unfold getInner
          rw [get_insert_of_ne hc]
        rw [hget, if_neg fun h => hc h.1]

end Nested

/-! ## Taking away -/

section Erase

variable [DecidableEq K]

theorem erase_eq_self {m : BTreeMap K V} {k : K} (h : m[k]? = none) : m.erase k = m := by
  refine Std.ExtTreeMap.ext_getElem? fun a => ?_
  rw [get_erase]
  by_cases ha : a = k
  · rw [if_pos ha, ha, h]
  · rw [if_neg ha]

end Erase

/-! ## Totals -/

section Total

variable {A : Type} [AddCommMonoid A]

/-- The sum of `f` over all entries. -/
def total (f : K → V → A) (m : BTreeMap K V) : A :=
  (m.toList.map fun p => f p.1 p.2).sum

end Total

/-! ## Counts -/

section Count

/-- How many entries have a property. -/
def count (p : K → V → Bool) (m : BTreeMap K V) : ℕ := (m.toList.filter fun e => p e.1 e.2).length

variable {W : Type} {p : K → V → Bool} {q : K → W → Bool} {m : BTreeMap K V} {n : BTreeMap K W}

/-- The keys of the entries with a property. -/
def keysWith (p : K → V → Bool) (m : BTreeMap K V) : List K :=
  (m.toList.filter fun e => p e.1 e.2).map Prod.fst

theorem mem_keysWith {k : K} : k ∈ keysWith p m ↔ ∃ v, m[k]? = some v ∧ p k v = true := by
  unfold keysWith
  simp only [List.mem_map, List.mem_filter, Prod.exists]
  constructor
  · rintro ⟨a, v, ⟨hmem, hp⟩, rfl⟩
    exact ⟨v, mem_toList.mp hmem, hp⟩
  · rintro ⟨v, hv, hp⟩
    exact ⟨k, v, ⟨mem_toList.mpr hv, hp⟩, rfl⟩

theorem nodup_keysWith (p : K → V → Bool) (m : BTreeMap K V) : (keysWith p m).Nodup := by
  have hkeys : (m.toList.map Prod.fst).Nodup := by
    refine List.pairwise_map.mpr (Std.ExtTreeMap.distinct_keys_toList.imp ?_)
    intro a b hne hab
    exact hne (by rw [hab]; exact Std.compare_self)
  exact hkeys.sublist (List.Sublist.map _ List.filter_sublist)

omit [Std.LawfulEqOrd K] in
theorem length_keysWith (p : K → V → Bool) (m : BTreeMap K V) : (keysWith p m).length = count p m :=
  List.length_map ..

/-- Counting is monotone in the keys that count. -/
theorem count_le (h : ∀ k v, m[k]? = some v → p k v = true → ∃ w, n[k]? = some w ∧ q k w = true) :
    count p m ≤ count q n := by
  rw [← length_keysWith, ← length_keysWith]
  refine (List.subperm_of_subset (nodup_keysWith p m) fun k hk => ?_).length_le
  obtain ⟨v, hv, hp⟩ := mem_keysWith.mp hk
  exact mem_keysWith.mpr (h k v hv hp)

/-- One more key counts. -/
theorem count_le_succ (k₀ : K) (h : ∀ k v, m[k]? = some v → p k v = true →
    k = k₀ ∨ ∃ w, n[k]? = some w ∧ q k w = true) : count p m ≤ count q n + 1 := by
  rw [← length_keysWith, ← length_keysWith, ← List.length_cons (a := k₀)]
  refine (List.subperm_of_subset (nodup_keysWith p m) fun k hk => ?_).length_le
  obtain ⟨v, hv, hp⟩ := mem_keysWith.mp hk
  rcases h k v hv hp with rfl | hmem
  · exact List.mem_cons_self
  · exact List.mem_cons_of_mem _ (mem_keysWith.mpr hmem)

end Count

end BTreeMap
