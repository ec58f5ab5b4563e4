import Inferx.Selector.Exact

/-!
# Selectors read back

The tokens of a printed selector are requirements that the parser reads.
-/

namespace Inferx.Selector

/-- The values of a requirement of one value. -/
theorem Requirement.Readable.exact {r : Requirement} (h : r.Readable)
    (hop : r.op = .equals ∨ r.op = .doubleEquals ∨ r.op = .notEquals ∨ r.op = .greaterThan ∨
      r.op = .lessThan) : ∃ v, r.strVals = {v} := by
  have hmade := h.made
  unfold Requirement.new at hmade
  obtain ⟨-, -, hmade⟩ := Except.bind_eq_ok.mp hmade
  refine Finset.card_eq_one.mp ?_
  by_contra hcard
  rcases hop with hop | hop | hop | hop | hop <;>
    · rw [hop] at hmade
      dsimp only at hmade
      rw [if_neg hcard] at hmade
      cases hmade

/-- The values of a set, in order: the empty value can only be the first. -/
theorem Requirement.Readable.last {r : Requirement} (h : r.Readable)
    (hop : r.op = .isIn ∨ r.op = .notIn) : r.values.getLast? ≠ Option.some [] := by
  intro hlast
  obtain ⟨init, hinit⟩ := List.getLast?_eq_some_iff.mp hlast
  have hsorted : r.values.Pairwise (· ≤ ·) := Finset.pairwise_sort r.strVals (· ≤ ·)
  rw [hinit, List.pairwise_append] at hsorted
  obtain ⟨v, hv, hne⟩ := h.some hop
  have hv : v ∈ r.values := (Finset.mem_sort _).mpr hv
  rw [hinit] at hv
  rcases List.mem_append.mp hv with hv | hv
  · have hle := hsorted.2.2 v hv [] (List.mem_singleton_self [])
    rcases v with _ | ⟨c, v⟩
    · exact hne rfl
    · exact absurd hle (by simp)
  · exact hne (List.mem_singleton.mp hv)

/-- **The tokens of a printed requirement are one that is read.** -/
theorem Requirement.Readable.req {r : Requirement} (h : r.Readable) : accepted.Req r.items r := by
  have hmade := h.made
  obtain ⟨⟨⟩, hvalid, hkind⟩ := Except.bind_eq_ok.mp hmade
  have hempty : r.op = .exist ∨ r.op = .doesNotExist → r.strVals = ∅ := by
    intro hop
    refine Finset.card_eq_zero.mp ?_
    by_contra hcard
    rcases hop with hop | hop <;>
      · rw [hop] at hkind
        dsimp only at hkind
        rw [if_neg hcard] at hkind
        cases hkind
  -- an operator and a value
  have hexact : (∃ v, r.strVals = {v}) → ∃ v, r = ⟨r.key, r.op, {v}⟩ ∧ IsValue v ∧ r.values = [v] := by
    rintro ⟨v, hv⟩
    refine ⟨v, by rw [← hv], h.values v (hv ▸ Finset.mem_singleton_self v), ?_⟩
    rw [Requirement.values, hv, Finset.sort_singleton]
  have hset : r.op = .isIn ∨ r.op = .notIn →
      accepted.Req (wordItem r.key :: (r.op.item ++ openItem :: (valueItems r.values ++ [closeItem]))) r := by
    intro hop
    obtain ⟨v, hv, hne⟩ := h.some hop
    have hv : v ∈ r.values := (Finset.mem_sort _).mpr hv
    have hreq := Dialect.Req.set (g := accepted) h.key hvalid hop
      (fun u hu => ⟨h.values u ((Finset.mem_sort _).mp hu), True.intro⟩)
      (List.ne_nil_of_mem hv) (fun hone => hne (List.mem_singleton.mp (hone ▸ hv)))
      (.inr (h.last hop))
    rw [Finset.sort_toFinset] at hreq
    exact hreq
  unfold Requirement.items
  rw [valueItem_word h.key]
  cases hop : r.op with
  | none =>
    rw [hop] at hkind
    cases hkind
  | doesNotExist =>
    have hreq := Dialect.Req.notExist (g := accepted) h.key hvalid
    rw [← hempty (.inr hop), ← hop] at hreq
    exact hreq
  | exist =>
    have hreq := Dialect.Req.exist (g := accepted) h.key hvalid
    rw [← hempty (.inl hop), ← hop] at hreq
    exact hreq
  | isIn =>
    have hreq := hset (.inl hop)
    rw [hop] at hreq
    exact hreq
  | notIn =>
    have hreq := hset (.inr hop)
    rw [hop] at hreq
    exact hreq
  | equals | doubleEquals | notEquals =>
    obtain ⟨v, hr, hv, hvalues⟩ := hexact (h.exact (by simp [hop]))
    have hreq := @Dialect.Req.exact accepted r.key r.op v h.key hvalid (by simp [hop]) hv True.intro
    rw [← hr, hop] at hreq
    rw [hvalues]
    exact hreq
  | greaterThan | lessThan =>
    obtain ⟨v, hr, hv, hvalues⟩ := hexact (h.exact (by simp [hop]))
    have hvals : r.strVals = {v} := congrArg Requirement.strVals hr
    rw [hvals] at hmade
    have hnum := Requirement.new_number hmade (by simp [hop])
    have hreq := @Dialect.Req.compare accepted r.key r.op v True.intro h.key hvalid
      (by simp [hop]) hv hnum
    rw [← hr, hop] at hreq
    rw [hvalues]
    exact hreq

/-! ## A printed selector -/

/-- The tokens of a printed selector, without its end. -/
def selectorItems : List Requirement → List ScannedItem
  | [] => []
  | [r] => r.items
  | r :: rs => r.items ++ commaItem :: selectorItems rs

theorem Requirement.Readable.head {r : Requirement} (h : r.Readable) :
    (∃ c cs, r.string = c :: cs ∧ c ≠ '\x00') ∧
      ∃ i items, r.items = i :: items ∧
        (i.inContext .values = .identifier ∨ i.inContext .values = .doesNotExist) := by
  obtain ⟨c, cs, hkey, hchar⟩ := h.key.head []
  rw [List.append_nil] at hkey
  have hword := word_context h.key
  have hnul := (isWordChar_iff.mp hchar).1
  unfold Requirement.string Requirement.items
  rw [valueItem_word h.key, hkey]
  by_cases hop : r.op = .doesNotExist
  · simp only [hop, if_true, true_or]
    exact ⟨⟨'!', c :: cs, rfl, by decide⟩, _, _, rfl, .inr rfl⟩
  · simp only [if_neg hop]
    split
    next => exact ⟨⟨c, cs, rfl, hnul⟩, _, [], rfl, .inl (hkey ▸ hword)⟩
    next =>
      split
      next => exact ⟨⟨c, _, rfl, hnul⟩, _, _, rfl, .inl (hkey ▸ hword)⟩
      next => exact ⟨⟨c, _, rfl, hnul⟩, _, _, rfl, .inl (hkey ▸ hword)⟩

theorem scan_selectorString {reqs : List Requirement} (h : ∀ r ∈ reqs, r.Readable) :
    scan (selectorString reqs) = selectorItems reqs ++ [endItem] := by
  induction reqs with
  | nil => rfl
  | cons r reqs ih =>
    have hr := h r List.mem_cons_self
    have ih' := ih fun q hq => h q (List.mem_cons_of_mem r hq)
    rcases reqs with _ | ⟨q, reqs⟩
    · have hscan : scan (r.string ++ []) = r.items ++ scan [] := scan_string hr (.inl rfl)
      rw [List.append_nil] at hscan
      exact hscan
    · obtain ⟨⟨c, cs, hc, hnul⟩, -⟩ := (h q (List.mem_cons_of_mem r List.mem_cons_self)).head
      have hhead : ∀ d rest, selectorString (q :: reqs) = d :: rest → d ≠ '\x00' := by
        intro d rest hd
        rcases reqs with _ | ⟨p, reqs⟩
        · obtain rfl : c = d := (List.cons.inj (hc.symm.trans hd)).1
          exact hnul
        · have hd' : q.string ++ ',' :: selectorString (p :: reqs) = d :: rest := hd
          rw [hc] at hd'
          obtain rfl : c = d := (List.cons.inj hd').1
          exact hnul
      show scan (r.string ++ ',' :: selectorString (q :: reqs))
        = (r.items ++ commaItem :: selectorItems (q :: reqs)) ++ [endItem]
      rw [scan_string hr (.inr ⟨_, rfl⟩), scan_comma _ hhead, ih', List.append_assoc,
        List.cons_append]

theorem selectorItems_reqs {r : Requirement} {reqs : List Requirement}
    (h : ∀ q ∈ r :: reqs, q.Readable) : accepted.Reqs (selectorItems (r :: reqs)) (r :: reqs) := by
  induction reqs generalizing r with
  | nil => exact .one (h r List.mem_cons_self).req
  | cons q reqs ih =>
    exact .cons (h r List.mem_cons_self).req (ih fun p hp => h p (List.mem_cons_of_mem r hp))

/-- **A printed selector is read as its requirements.** -/
theorem parse_selectorString {reqs : List Requirement} (h : ∀ r ∈ reqs, r.Readable) :
    parse (selectorString reqs) = .ok (sortByKey reqs) := by
  refine parse_complete ⟨selectorItems reqs, scan_selectorString h, ?_⟩
  rcases reqs with _ | ⟨r, reqs⟩
  · exact .inr ⟨True.intro, rfl, rfl⟩
  · exact .inl (selectorItems_reqs h)

end Inferx.Selector
