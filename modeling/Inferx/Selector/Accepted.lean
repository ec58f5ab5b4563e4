import Inferx.Selector.Exact

/-!
# What the parser accepts

The requirements of any text that is read are made by `New` from a key that is one
word and values that are words or empty, and so they print to a text that reads back.
-/

namespace Inferx.Selector

/-- The last of the values of a set is not empty. -/
theorem ValueList.some {vs : List (List Char)} (h : ValueList vs) : ∃ v ∈ vs, v ≠ [] := by
  refine ⟨vs.getLast h.ne_nil, List.getLast_mem h.ne_nil, fun hlast => h.last ?_⟩
  rw [List.getLast?_eq_some_getLast h.ne_nil, hlast]

/-- A requirement that is read prints to a text that reads back. -/
theorem Dialect.Req.readable {items : List ScannedItem} {r : Requirement} (h : accepted.Req items r) :
    r.Readable := by
  have hno : ∀ v ∈ (∅ : Finset (List Char)), IsValue v := fun v hv => absurd hv (Finset.notMem_empty v)
  have hone : ∀ {v : List Char}, IsValue v → ∀ u ∈ ({v} : Finset (List Char)), IsValue u :=
    fun hv u hu => Finset.mem_singleton.mp hu ▸ hv
  cases h with
  | exist hk hvalid =>
    exact ⟨hk, Requirement.new_valid hvalid _ _ (.inl ⟨rfl, rfl⟩), hno, fun h => by cases h <;> contradiction⟩
  | notExist hk hvalid =>
    exact ⟨hk, Requirement.new_valid hvalid _ _ (.inr (.inl ⟨rfl, rfl⟩)), hno,
      fun h => by cases h <;> contradiction⟩
  | exact hk hvalid hop hv _ =>
    refine ⟨hk, Requirement.new_valid hvalid _ _ (.inr (.inr (.inr (.inl ⟨hop, Finset.card_singleton _⟩)))),
      hone hv, fun h => ?_⟩
    rcases hop with rfl | rfl | rfl <;> rcases h with h | h <;> cases h
  | compare _ hk hvalid hop hv hnum =>
    refine ⟨hk, Requirement.new_valid hvalid _ _ (.inr (.inr (.inr (.inr ⟨hop, _, rfl, hnum⟩)))),
      hone hv, fun h => ?_⟩
    rcases hop with rfl | rfl <;> rcases h with h | h <;> cases h
  | @set k op vs hk hvalid hop hvs hne _ hlast =>
    have hlist : ValueList vs := ⟨fun v hv => (hvs v hv).1, hne, hlast.resolve_left id⟩
    obtain ⟨v, hv, hvne⟩ := hlist.some
    exact ⟨hk, Requirement.new_valid hvalid _ _
        (.inr (.inr (.inl ⟨hop, mt (List.toFinset_eq_empty_iff vs).mp hne⟩))),
      fun u hu => hlist.values u (List.mem_toFinset.mp hu),
      fun _ => ⟨v, List.mem_toFinset.mpr hv, hvne⟩⟩
  | negated hg => exact absurd hg id

theorem Dialect.Reqs.readable {items : List ScannedItem} {reqs : List Requirement}
    (h : accepted.Reqs items reqs) : ∀ r ∈ reqs, r.Readable := by
  induction h with
  | one h => exact fun r hr => List.mem_singleton.mp hr ▸ h.readable
  | cons h _ ih =>
    intro r hr
    rcases List.mem_cons.mp hr with rfl | hr
    · exact h.readable
    · exact ih r hr

/-- **Requirements of a text print to a text that reads back.** -/
theorem parse_readable {s : List Char} {sel : List Requirement} (h : parse s = .ok sel) :
    ∀ r ∈ sel, r.Readable := by
  obtain ⟨reqs, ⟨items, -, hwhole⟩, rfl⟩ := ((parse_reads s).2 sel).mp h
  intro r hr
  have hr := List.mem_mergeSort.mp hr
  rcases hwhole with h | ⟨-, -, rfl⟩
  · exact h.readable r hr
  · cases hr

theorem sortByKey_pairwise (reqs : List Requirement) :
    (sortByKey reqs).Pairwise fun a b => decide (a.key ≤ b.key) = true := by
  refine List.pairwise_mergeSort (fun a b c hab hbc => ?_) (fun a b => ?_) reqs
  · exact decide_eq_true (le_trans (of_decide_eq_true hab) (of_decide_eq_true hbc))
  · rw [Bool.or_eq_true, decide_eq_true_iff, decide_eq_true_iff]
    exact le_total a.key b.key

theorem parse_sorted {s : List Char} {sel : List Requirement} (h : parse s = .ok sel) :
    sortByKey sel = sel := by
  obtain ⟨reqs, -, h⟩ := Except.bind_eq_ok.mp h
  cases h
  exact List.mergeSort_of_pairwise (sortByKey_pairwise reqs)

end Inferx.Selector
