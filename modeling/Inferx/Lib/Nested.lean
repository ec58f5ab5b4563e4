import Inferx.Lib.Map
import Mathlib.Data.Set.Card

/-!
# Maps of maps, without empty ones

A nested map in which no inner map is empty: writing and dropping entries keep it so.
`pairs` are the pairs of keys under which something is stored, each once.
-/

namespace BTreeMap

variable {K L V : Type} [Ord K] [Std.TransOrd K] [Std.LawfulEqOrd K] [DecidableEq K]
  [Ord L] [Std.TransOrd L] [Std.LawfulEqOrd L]
  {m : BTreeMap K (BTreeMap L V)} {a : K} {b : L}

/-- No inner map is empty. -/
def Full (m : BTreeMap K (BTreeMap L V)) : Prop :=
  ∀ (a : K) (inner : BTreeMap L V), m[a]? = some inner → inner ≠ ∅

omit [Std.LawfulEqOrd K] [DecidableEq K] [Std.TransOrd L] [Std.LawfulEqOrd L] in
theorem full_empty : Full (∅ : BTreeMap K (BTreeMap L V)) := by
  intro a inner h
  rw [Std.ExtTreeMap.getElem?_empty] at h
  cases h

omit [Std.TransOrd L] [Std.LawfulEqOrd L] in
theorem Full.insert {inner : BTreeMap L V} (h : Full m) (hinner : inner ≠ ∅) :
    Full (m.insert a inner) := by
  intro c other hc
  rw [get_insert] at hc
  split at hc
  next =>
    obtain rfl := Option.some.inj hc
    exact hinner
  next => exact h c other hc

omit [Std.TransOrd L] [Std.LawfulEqOrd L] in
theorem Full.erase (h : Full m) : Full (m.erase a) := fun c inner hc =>
  h c inner (get_erase_eq_some.mp hc).2

omit [Std.LawfulEqOrd L] in
theorem Full.setInner {v : V} (h : Full m) : Full (m.setInner a b v) :=
  h.insert fun hempty => Std.ExtTreeMap.insert_ne_empty hempty

omit [Std.LawfulEqOrd L] in
theorem Full.removeInner (h : Full m) : Full (m.removeInner a b) := by
  unfold BTreeMap.removeInner
  split
  next => exact h
  next inner _ =>
    split
    next => exact h.erase
    next hempty => exact h.insert fun he => hempty (Std.ExtTreeMap.isEmpty_iff.mpr he)

/-! ## Dropping one entry of many inner maps -/

omit [Std.LawfulEqOrd L] in
theorem Full.removeInner_keys {l : List K} (h : Full m) :
    Full (l.foldl (fun m a => m.removeInner a b) m) := by
  induction l generalizing m with
  | nil => exact h
  | cons a l ih => exact ih h.removeInner

theorem getInner_removeInner_keys [DecidableEq L] {l : List K} {c : K} {d : L} :
    (l.foldl (fun m a => m.removeInner a b) m).getInner c d =
      if c ∈ l ∧ d = b then none else m.getInner c d := by
  induction l generalizing m with
  | nil => simp
  | cons a l ih =>
    rw [List.foldl_cons, ih, getInner_removeInner]
    by_cases hd : d = b
    · by_cases hc : c = a
      · simp [hd, hc]
      · simp [hd, hc]
    · simp [hd]

/-! ## The pairs -/

/-- The pairs of keys with an entry. -/
def pairs (m : BTreeMap K (BTreeMap L V)) : List (K × L) :=
  m.toList.flatMap fun e => e.2.keys.map fun b => (e.1, b)

omit [DecidableEq K] in
theorem mem_pairs {p : K × L} : p ∈ m.pairs ↔ (m.getInner p.1 p.2).isSome = true := by
  obtain ⟨a, b⟩ := p
  unfold pairs getInner
  simp only [List.mem_flatMap, List.mem_map, Prod.exists, Prod.mk.injEq, mem_toList,
    Std.ExtTreeMap.mem_keys]
  constructor
  · rintro ⟨a, inner, ha, b, hb, rfl, rfl⟩
    rw [ha, Option.bind_some]
    exact Std.ExtTreeMap.mem_iff_isSome_getElem?.mp hb
  · intro h
    rcases ha : m[a]? with _ | inner
    · rw [ha] at h
      cases h
    · rw [ha, Option.bind_some] at h
      exact ⟨a, inner, ha, b, Std.ExtTreeMap.mem_iff_isSome_getElem?.mpr h, rfl, rfl⟩

omit [DecidableEq K] in
theorem nodup_pairs : m.pairs.Nodup := by
  refine List.nodup_flatMap.mpr ⟨fun e _ => ?_, ?_⟩
  · refine List.Nodup.map (fun b b' h => (Prod.mk.inj h).2) ?_
    exact Std.ExtTreeMap.distinct_keys.imp fun hne hab => hne (by rw [hab]; exact Std.compare_self)
  · refine Std.ExtTreeMap.distinct_keys_toList.imp fun {e e'} hne => ?_
    refine List.disjoint_left.mpr fun p hp hp' => hne ?_
    obtain ⟨b, -, rfl⟩ := List.mem_map.mp hp
    obtain ⟨b', -, hb'⟩ := List.mem_map.mp hp'
    rw [← (Prod.mk.inj hb').1]
    exact Std.compare_self

omit [DecidableEq K] in
/-- **How many pairs there are.** -/
theorem ncard_pairs :
    {p : K × L | (m.getInner p.1 p.2).isSome = true}.ncard = total (fun _ inner => inner.size) m := by
  classical
  have hset : {p : K × L | (m.getInner p.1 p.2).isSome = true} = ↑m.pairs.toFinset := by
    ext p
    rw [Set.mem_ofPred_eq, List.coe_toFinset, Set.mem_ofPred_eq, mem_pairs]
  rw [hset, Set.ncard_coe_finset, List.toFinset_card_of_nodup nodup_pairs]
  unfold pairs total
  rw [List.length_flatMap]
  congr 1
  refine List.map_congr_left fun e _ => ?_
  rw [List.length_map, Std.ExtTreeMap.length_keys]

end BTreeMap
