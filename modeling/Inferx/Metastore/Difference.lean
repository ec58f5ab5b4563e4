import Inferx.Metastore.Informer

/-!
# The difference of two stores

`difference` says for each key which event is due when one store takes the place of
another. `merge` finds all of these events, but collects them by the revision of their
object: of two objects with the same revision, of whatever source, only the later one
is reported. So it reports the difference exactly if no two changed objects have the same
revision.
-/

namespace Inferx.Metastore

variable {V : Type}

/-- The event that is due for a key. -/
def difference (first : Bool) (old new : Objects V) (k : String) : Option (DeltaEvent V) :=
  match old[k]?, new[k]? with
  | none, none => none
  | none, some v => some ⟨.added, first, v, none⟩
  | some o, some v =>
    if compare o.epochRevision v.epochRevision
    = .lt then some ⟨.modified, first, v, some o⟩ else none
  | some o, none => some ⟨.deleted, false, o, none⟩

/-- `Informer::Merge` with the store it leaves: the old one is cleared, and the objects of the new
one are copied into it. -/
def mergeInto (first : Bool) (old new : Objects V) : List (DeltaEvent V) × Objects V :=
  (merge first old new, new.toList.foldl (fun l p => l.insert p.1 p.2) ∅)

/-- The events about a key. -/
def about (k : String) (l : List (DeltaEvent V)) : List (DeltaEvent V) := l.filter
    fun e => e.obj.key = k

/-- Revisions tell the changed keys apart. -/
def Distinguished (first : Bool) (old new : Objects V) : Prop :=
  ∀ k k' e e', difference first old new k = some e → difference first old new k' = some e' →
    e.epochRevision = e'.epochRevision → k = k'

/-- Every object that is in both stores is the same or has a greater revision. -/
def Grown (old new : Objects V) : Prop :=
  ∀ (k : String) (o v : DataObject V), old[k]? = some o → new[k]? = some v →
    o = v ∨ compare o.epochRevision v.epochRevision = .lt

section Difference

variable {first : Bool} {old new : Objects V} {k : String} {e : DeltaEvent V}

theorem copy_toList (m : Objects V) : m.toList.foldl (fun l p => l.insert p.1 p.2) ∅ = m := by
  have hcopy : Std.ExtTreeMap.ofList m.toList compare = m.toList.foldl
    (fun l p => l.insert p.1 p.2) ∅ := by
    rw [Std.ExtTreeMap.ofList_eq_insertMany_empty, Std.ExtTreeMap.insertMany_list_eq_foldl]
  rw [← hcopy]
  refine Std.ExtTreeMap.ext_getElem? fun k => ?_
  rcases hk : m[k]? with _ | v
  · refine Std.ExtTreeMap.getElem?_eq_none fun hmem => ?_
    have hin : k ∈ m.toList.map Prod.fst := by simpa using Std.ExtTreeMap.mem_ofList.mp hmem
    obtain ⟨p, hp, rfl⟩ := List.mem_map.mp hin
    rw [BTreeMap.mem_toList.mp hp] at hk
    cases hk
  · exact Std.ExtTreeMap.getElem?_ofList_of_mem Std.compare_self Std.ExtTreeMap.distinct_keys_toList
      (BTreeMap.mem_toList.mpr hk)

theorem key_of_difference (hold : Keyed old) (hnew : Keyed new)
    (h : difference first old new k = some e) : e.obj.key = k := by
  unfold difference at h
  rcases ho : old[k]? with _ | o
  · rcases hv : new[k]? with _ | v
    · rw [ho, hv] at h
      cases h
    · rw [ho, hv] at h
      obtain rfl := Option.some.inj h
      exact hnew k v hv
  · rcases hv : new[k]? with _ | v
    · rw [ho, hv] at h
      obtain rfl := Option.some.inj h
      exact hold k o ho
    · rw [ho, hv] at h
      dsimp only at h
      split at h
      next =>
        obtain rfl := Option.some.inj h
        exact hnew k v hv
      next => cases h

/-- What a merge finds is the difference. -/
theorem mem_changes : e ∈ changes first old new ↔ ∃ k, difference first old new k = some e := by
  unfold changes
  simp only [List.mem_append, List.mem_filterMap, Prod.exists, BTreeMap.mem_toList]
  constructor
  · rintro (⟨k, v, hv, hchange⟩ | ⟨k, o, ho, hgone⟩)
    · refine ⟨k, ?_⟩
      unfold changeOf at hchange
      unfold difference
      rcases ho : old[k]? with _ | o
      · rw [ho] at hchange
        rw [hv]
        exact hchange
      · rw [ho] at hchange
        rw [hv]
        exact hchange
    · refine ⟨k, ?_⟩
      unfold goneOf at hgone
      unfold difference
      split at hgone
      next => cases hgone
      next hnot =>
        rw [ho, Std.ExtTreeMap.getElem?_eq_none
          fun h => hnot (Std.ExtTreeMap.contains_iff_mem.mpr h)]
        exact hgone
  · rintro ⟨k, h⟩
    unfold difference at h
    rcases ho : old[k]? with _ | o
    · rcases hv : new[k]? with _ | v
      · rw [ho, hv] at h
        cases h
      · rw [ho, hv] at h
        refine Or.inl ⟨k, v, hv, ?_⟩
        unfold changeOf
        rw [ho]
        exact h
    · rcases hv : new[k]? with _ | v
      · rw [ho, hv] at h
        refine Or.inr ⟨k, o, ho, ?_⟩
        unfold goneOf
        have hnot : new.contains k = false := by
          rw [Std.ExtTreeMap.contains_eq_isSome_getElem?, hv]
          rfl
        rw [hnot]
        exact h
      · rw [ho, hv] at h
        refine Or.inl ⟨k, v, hv, ?_⟩
        unfold changeOf
        rw [ho]
        exact h

/-- Reported events have different revisions. -/
theorem eq_of_mem_merge {e' : DeltaEvent V} (he : e ∈ merge first old new)
    (he' : e' ∈ merge first old new) (hrev : e.epochRevision = e'.epochRevision) : e = e' := by
  obtain ⟨⟨r, a⟩, hp, rfl⟩ := List.mem_map.mp he
  obtain ⟨⟨r', a'⟩, hp', rfl⟩ := List.mem_map.mp he'
  have hget := BTreeMap.mem_toList.mp hp
  have hget' := BTreeMap.mem_toList.mp hp'
  have hr : r = r' := (byRevision_eq_some hget).2.symm.trans
    (hrev.trans (byRevision_eq_some hget').2)
  rw [← hr] at hget'
  exact Option.some.inj (hget.symm.trans hget')

theorem eq_toList_of_nodup {l : List (DeltaEvent V)} {o : Option (DeltaEvent V)} (hl : l.Nodup)
    (h : ∀ e, e ∈ l ↔ o = some e) : l = o.toList := by
  rcases o with _ | e
  · exact List.eq_nil_iff_forall_not_mem.mpr fun e he => nomatch (h e).mp he
  · refine List.perm_singleton.mp ((List.perm_ext_iff_of_nodup hl
      (List.nodup_singleton e)).mpr fun a => ?_)
    rw [h a, List.mem_singleton, Option.some_inj]
    exact eq_comm

/-- If revisions tell the changed keys apart, all of them are reported. -/
theorem mem_merge_of_distinguished (h : Distinguished first old new)
    (he : difference first old new k = some e) : e ∈ merge first old new := by
  have hmem : e.epochRevision ∈ byRevision (changes first old new) := by
    refine Std.ExtTreeMap.mem_ofList.mpr ?_
    rw [List.contains_iff_mem, List.map_map]
    exact List.mem_map.mpr ⟨e, mem_changes.mpr ⟨k, he⟩, rfl⟩
  obtain ⟨e', hget⟩ := Option.isSome_iff_exists.mp (Std.ExtTreeMap.mem_iff_isSome_getElem?.mp hmem)
  obtain ⟨hchange, hrev⟩ := byRevision_eq_some hget
  obtain ⟨k', he'⟩ := mem_changes.mp hchange
  obtain rfl : k = k' := h k k' e e' he he' hrev.symm
  obtain rfl := Option.some.inj (he.symm.trans he')
  exact List.mem_map.mpr ⟨_, BTreeMap.mem_toList.mpr hget, rfl⟩

variable (hold : Keyed old) (hnew : Keyed new)

include hold hnew

/-- **The difference.** Each key has exactly the event that is due for it, exactly if revisions
tell the changed keys apart. -/
theorem about_merge_iff : (∀ k, about k
      (merge first old new) = (difference first old new k).toList) ↔
    Distinguished first old new := by
  constructor
  · intro h k k' e e' he he' hrev
    have hmem : ∀ k e, difference first old new k = some e → e ∈ merge first old new := by
      intro k e he
      have habout : e ∈ about k (merge first old new) := by
        rw [h k, he]
        exact List.mem_singleton_self e
      exact (List.mem_filter.mp habout).1
    have heq : e = e' := eq_of_mem_merge (hmem k e he) (hmem k' e' he') hrev
    rw [← key_of_difference hold hnew he, ← key_of_difference hold hnew he', heq]
  · intro h k
    refine eq_toList_of_nodup (nodup_merge.sublist List.filter_sublist) fun e => ?_
    unfold about
    rw [List.mem_filter, decide_eq_true_eq]
    constructor
    · rintro ⟨hmem, rfl⟩
      obtain ⟨k', he⟩ := mem_changes.mp (mem_changes_of_mem_merge hmem)
      rw [key_of_difference hold hnew he]
      exact he
    · exact fun he => ⟨mem_merge_of_distinguished h he, key_of_difference hold hnew he⟩

/-- **Merge.** The store becomes the new one. The events are the difference exactly if revisions
tell the changed keys apart, and there is one for each key whose object changes exactly if besides
every object that is kept is the same or has a greater revision. -/
theorem mergeInto_iff :
    (mergeInto first old new).2 = new ∧
    ((∀ k, about k (mergeInto first old new).1 = (difference first old new k).toList) ↔
      Distinguished first old new) ∧
    ((∀ k, about k (mergeInto first old new).1 = (difference first old new k).toList ∧
        (old[k]? ≠ new[k]? → ∃ e, about k (mergeInto first old new).1 = [e])) ↔
      Distinguished first old new ∧ Grown old new) := by
  refine ⟨copy_toList new, about_merge_iff hold hnew, ?_⟩
  rw [← about_merge_iff hold hnew, forall_and]
  refine and_congr_right fun hall => ⟨fun h k o v ho hv => ?_, fun hgrown k hne => ?_⟩
  · by_contra hnot
    obtain ⟨hne, hlt⟩ := not_or.mp hnot
    obtain ⟨e, he⟩ := h k (by rw [ho, hv]; exact fun heq => hne (Option.some.inj heq))
    have hnone : difference first old new k = none := by
      unfold difference
      rw [ho, hv]
      exact if_neg hlt
    have hempty := hall k
    rw [hnone] at hempty
    exact List.cons_ne_nil _ _ (he.symm.trans hempty)
  · have hsome : ∃ e, difference first old new k = some e := by
      unfold difference
      rcases ho : old[k]? with _ | o
      · rcases hv : new[k]? with _ | v
        · exact absurd (ho.trans hv.symm) hne
        · exact ⟨_, rfl⟩
      · rcases hv : new[k]? with _ | v
        · exact ⟨_, rfl⟩
        · rcases hgrown k o v ho hv with rfl | hlt
          · exact absurd (ho.trans hv.symm) hne
          · exact ⟨_, if_pos hlt⟩
    obtain ⟨e, he⟩ := hsome
    refine ⟨e, ?_⟩
    have h := hall k
    rw [he] at h
    exact h

end Difference

/-- One object is added and one has grown. -/
theorem mergeInto_two :
    let obj : String → ℤ → DataObject Unit := fun name revision =>
      { objType := "node", tenant := "acme", nameSpace := "ns", name, revision, object := () }
    let old : Objects Unit := (∅ : Objects Unit).insert "acme/ns/a" (obj "a" 1)
    let new : Objects Unit :=
      ((∅ : Objects Unit).insert "acme/ns/a" (obj "a" 2)).insert "acme/ns/b" (obj "b" 3)
    (mergeInto false old new).2 = new ∧
      ((∀ k, about k (mergeInto false old new).1 = (difference false old new k).toList) ↔
        Distinguished false old new) ∧
      ((∀ k, about k (mergeInto false old new).1 = (difference false old new k).toList ∧
          (old[k]? ≠ new[k]? → ∃ e, about k (mergeInto false old new).1 = [e])) ↔
        Distinguished false old new ∧ Grown old new) := by
  intro obj old new
  exact mergeInto_iff (Keyed.empty.insert
    (by decide)) ((Keyed.empty.insert (by decide)).insert (by decide))

/-- **An event is lost.** Two objects of different sources are added with the same revision: one
of them is reported, and the other one is in the store. -/
theorem merge_loses_event :
    let obj : String → DataObject Unit := fun name =>
      { objType := "node", tenant := "acme", nameSpace := "ns", name, revision := 1, object := () }
    let new : Objects Unit :=
      ((∅ : Objects Unit).insert "acme/ns/a" (obj "a")).insert "acme/ns/b" (obj "b")
    Keyed new ∧ difference false ∅ new "acme/ns/a" = some ⟨.added, false, obj "a", none⟩ ∧
      (mergeInto false ∅ new).1 = [⟨.added, false, obj "b", none⟩] ∧
      ¬ (∀ k, about k (mergeInto false ∅ new).1 = (difference false ∅ new k).toList) := by
  intro obj new
  refine ⟨(Keyed.empty.insert (by decide)).insert (by decide), by decide +kernel, by decide +kernel, ?_⟩
  intro h
  exact absurd (h "acme/ns/a") (by decide +kernel)

end Inferx.Metastore
