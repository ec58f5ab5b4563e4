import Mathlib.Data.List.Nodup
import Inferx.Metastore.Views

/-!
# Refreshing a cache store

`refresh` compares the store with a list and processes the difference: what is new,
what has another revision, and what is no longer listed. The event of a removal
carries the object of the store, and with it the revision of the store, so it is as
old as the object it is about and `processEvent` drops it.
-/

namespace Inferx.Metastore

variable {V : Type}

namespace CacheStore

/-- What `Refresh` makes of a listed object. -/
def refreshEvent (cs : CacheStore V) (obj : DataObject V) : Option (WatchEvent V) :=
  match cs.cacheStore[obj.key]? with
  | some oldObj => if oldObj.revision ≠ obj.revision then some ⟨.modified, obj⟩ else none
  | none => some ⟨.added, obj⟩

/-- The events of `CacheStoreInner::Refresh`. -/
def refreshEvents (cs : CacheStore V) (objs : List (DataObject V)) : List (WatchEvent V) :=
  objs.filterMap cs.refreshEvent ++
    (cs.cacheStore.toList.filter fun p => !(objs.map DataObject.key).contains p.1).map
      fun p => ⟨.deleted, p.2⟩

/-- The calls of `ProcessEvent` it makes: the `i`-th draws the revision `draw i` and finds the
watchers `full i` without room. -/
def refreshCalls (full : ℕ → ℕ → Bool) (draw : ℕ → ℤ) (objs : List (DataObject V))
    (cs : CacheStore V) : List (ProcessCall V) :=
  (cs.refreshEvents objs).mapIdx fun i e => ⟨full i, draw i, e⟩

/-- `CacheStoreInner::Refresh`. -/
def refresh (full : ℕ → ℕ → Bool) (draw : ℕ → ℤ) (objs : List (DataObject V)) (cs : CacheStore V) :
    CacheStore V :=
  cs.processCalls (cs.refreshCalls full draw objs)

/-- The revision that is kept for a key. -/
def revisionOf (cs : CacheStore V) (k : String) : Option ℤ :=
  cs.cacheStore[k]?.map DataObject.revision

end CacheStore

/-- What a refresh is for. -/
structure Refreshed (full : ℕ → ℕ → Bool) (cs cs' : CacheStore V) (objs : List (DataObject V)) :
    Prop where
  /-- the store has the listed keys, with the listed revisions -/
  store : ∀ k, cs'.revisionOf k = (objs.find? fun o => o.key = k).map DataObject.revision
  /-- a watcher with room is sent one event for each key that has changed, and these take the
  objects it selects from the old store to those from the new one -/
  sent : ∀ id w, cs.watchers[id]? = some w → (∀ i, full i id = false) →
    ∃ w' l, cs'.watchers[id]? = some w' ∧ w'.sent = w.sent ++ l ∧
      viewFrom (cs.selection w) l = some (cs'.selection w) ∧
      (l.map fun e => e.obj.key).Nodup ∧ ∀ e ∈ l, cs.revisionOf e.obj.key ≠ cs'.revisionOf e.obj.key
  /-- refreshing again does nothing -/
  again : ∀ full' draw', cs'.refresh full' draw' objs = cs'

/-! ## Calls about distinct keys -/

section Distinct

variable {cs : CacheStore V} {l : List (ProcessCall V)} {k : String}

/-- The key a call is about. -/
def ProcessCall.key (a : ProcessCall V) : String := a.event.obj.key

theorem processCalls_cons (a : ProcessCall V) : cs.processCalls (a :: l) =
    (cs.processEvent a.full a.channelRev a.event).processCalls l := rfl

theorem stale_congr {cs' : CacheStore V} {e : WatchEvent V}
    (h : cs'.cacheStore[e.obj.key]? = cs.cacheStore[e.obj.key]?) : cs'.stale e = cs.stale e := by
  unfold CacheStore.stale
  rw [h]

theorem get_processCalls_of_not_mem (h : k ∉ l.map ProcessCall.key) :
    (cs.processCalls l).cacheStore[k]? = cs.cacheStore[k]? := by
  induction l generalizing cs with
  | nil => rfl
  | cons a l ih =>
    rw [List.map_cons, List.mem_cons, not_or] at h
    exact (ih h.2).trans (CacheStore.processEvent_of_ne h.1)

/-- What a call leaves for its key, when no other call is about it. -/
theorem get_processCalls_of_mem {a : ProcessCall V} (hl : (l.map ProcessCall.key).Nodup)
    (ha : a ∈ l) :
    (cs.processCalls l).cacheStore[a.key]? =
      if cs.stale a.event = true then cs.cacheStore[a.key]?
      else CacheStore.left a.channelRev a.event := by
  induction l generalizing cs with
  | nil => cases ha
  | cons b l ih =>
    rw [List.map_cons, List.nodup_cons] at hl
    rcases List.mem_cons.mp ha with rfl | hmem
    · rw [processCalls_cons, get_processCalls_of_not_mem hl.1]
      split
      next hstale => rw [CacheStore.processEvent_of_stale hstale]
      next hfresh => exact CacheStore.get_processEvent_self (Bool.eq_false_iff.mpr hfresh)
    · have hne : a.key ≠ b.key := fun h => hl.1 (h ▸ List.mem_map_of_mem hmem)
      have hsame : (cs.processEvent b.full b.channelRev b.event).cacheStore[a.key]?
          = cs.cacheStore[a.key]? := CacheStore.processEvent_of_ne hne
      refine (ih hl.2 hmem).trans ?_
      rw [stale_congr hsame, hsame]

theorem processCalls_of_stale (h : ∀ a ∈ l, cs.stale a.event = true) : cs.processCalls l = cs := by
  induction l with
  | nil => rfl
  | cons a l ih =>
    rw [processCalls_cons, CacheStore.processEvent_of_stale (h a List.mem_cons_self)]
    exact ih fun b hb => h b (List.mem_cons_of_mem a hb)

/-- An event that a watch makes of another is about the same key. -/
theorem key_of_convertToWatchEvent {w : CacheWatcher V} {c : ℤ} {e ev : WatchEvent V}
    (hkeyed : Keyed cs.cacheStore) (h : ev ∈ w.convertToWatchEvent (cs.cacheEvent c e)) :
    ev.obj.key = e.obj.key := by
  unfold CacheWatcher.convertToWatchEvent at h
  dsimp only at h
  split at h
  next =>
    obtain rfl := Option.some.inj h
    rfl
  next =>
    split at h
    next =>
      obtain rfl := Option.some.inj h
      rfl
    next =>
      split at h
      next =>
        obtain ⟨old, hold, rfl⟩ := Option.map_eq_some_iff.mp h
        exact hkeyed _ old hold
      next => cases h

/-- A watcher with room stays, and is sent at most one event for each call that applies. -/
theorem sent_processCalls {id : ℕ} {w : CacheWatcher V} (hkeyed : Keyed cs.cacheStore)
    (hl : (l.map ProcessCall.key).Nodup) (hid : cs.watchers[id]? = some w)
    (hroom : ∀ a ∈ l, a.full id = false) :
    ∃ w' sent, (cs.processCalls l).watchers[id]? = some w' ∧ w'.sent = w.sent ++ sent ∧
      List.Sublist (sent.map fun e => e.obj.key)
        ((l.filter fun a => !cs.stale a.event).map ProcessCall.key) := by
  induction l generalizing cs w with
  | nil => exact ⟨w, [], hid, (List.append_nil _).symm, List.Sublist.refl _⟩
  | cons a l ih =>
    rw [List.map_cons, List.nodup_cons] at hl
    have hroom' : ∀ b ∈ l, b.full id = false := fun b hb => hroom b (List.mem_cons_of_mem a hb)
    rcases hstale : cs.stale a.event
    · -- the call applies: the others find for their keys what they would have found
      have hopen : (cs.processEvent a.full a.channelRev a.event).watchers[id]?
          = some (w.send (cs.cacheEvent a.channelRev a.event)) := by
        rw [watchers_processEvent _ _ hstale, hid, Option.filter_some, hroom a List.mem_cons_self]
        simp
      obtain ⟨w', sent, hw', hsent, hsub⟩ :=
        ih (CacheStore.keyed_processEvent hkeyed) hl.2 hopen hroom'
      have hothers : (l.filter fun b =>
          !(cs.processEvent a.full a.channelRev a.event).stale b.event)
            = l.filter fun b => !cs.stale b.event := by
        refine List.filter_congr fun b hb => ?_
        have hne : b.key ≠ a.key := fun h => hl.1 (h ▸ List.mem_map_of_mem hb)
        rw [stale_congr (CacheStore.processEvent_of_ne hne)]
      rw [hothers] at hsub
      refine ⟨w', (w.convertToWatchEvent
        (cs.cacheEvent a.channelRev a.event)).toList ++ sent, hw', ?_, ?_⟩
      · rw [hsent, ← List.append_assoc]
        rfl
      · rw [List.filter_cons, hstale, Bool.not_false, if_pos rfl, List.map_cons, List.map_append]
        rcases hconvert : w.convertToWatchEvent (cs.cacheEvent a.channelRev a.event) with _ | ev
        · exact hsub.cons _
        · have hkey : ev.obj.key = a.key := key_of_convertToWatchEvent hkeyed hconvert
          rw [Option.toList_some, List.map_singleton, hkey, List.singleton_append]
          exact hsub.cons_cons _
    · rw [List.filter_cons, hstale, Bool.not_true, if_neg Bool.false_ne_true]
      rw [processCalls_cons, CacheStore.processEvent_of_stale hstale]
      exact ih hkeyed hl.2 hid hroom'

end Distinct

/-! ## The refresh -/

section Refresh

variable {cs : CacheStore V} {objs : List (DataObject V)} {full : ℕ → ℕ → Bool} {draw : ℕ → ℤ}

theorem events_refreshCalls (full : ℕ → ℕ → Bool) (draw : ℕ → ℤ) :
    (cs.refreshCalls full draw objs).map ProcessCall.event = cs.refreshEvents objs := by
  unfold CacheStore.refreshCalls
  exact List.ext_getElem (by simp) (by simp)

theorem keys_refreshCalls : (cs.refreshCalls full draw objs).map ProcessCall.key =
    (cs.refreshEvents objs).map fun e => e.obj.key := by
  rw [← events_refreshCalls full draw, List.map_map]
  rfl

/-- A listed object has an event if the store has not its revision. -/
theorem refreshEvent_eq_some {obj : DataObject V} {e : WatchEvent V}
    (h : cs.refreshEvent obj = some e) :
    e.type ≠ .deleted ∧ e.obj = obj ∧ cs.revisionOf obj.key ≠ some obj.revision := by
  unfold CacheStore.refreshEvent at h
  unfold CacheStore.revisionOf
  rcases ho : cs.cacheStore[obj.key]? with _ | old
  · rw [ho] at h
    obtain rfl := Option.some.inj h
    exact ⟨EventType.noConfusion, rfl, fun heq => by cases heq⟩
  · rw [ho] at h
    dsimp only at h
    split at h
    next hne =>
      obtain rfl := Option.some.inj h
      exact ⟨EventType.noConfusion, rfl, fun heq => hne (Option.some.inj heq)⟩
    next => cases h

theorem refreshEvent_isSome {obj : DataObject V} (h : cs.revisionOf obj.key ≠ some obj.revision) :
    ∃ e, cs.refreshEvent obj = some e := by
  unfold CacheStore.refreshEvent
  rcases ho : cs.cacheStore[obj.key]? with _ | old
  · exact ⟨_, rfl⟩
  · have hne : old.revision ≠ obj.revision := fun heq => h
      (by simp [CacheStore.revisionOf, ho, heq])
    exact ⟨_, if_pos hne⟩

theorem mem_refreshEvents {e : WatchEvent V} (hkeyed : Keyed cs.cacheStore)
    (h : e ∈ cs.refreshEvents objs) :
    (∃ o ∈ objs, cs.refreshEvent o = some e) ∨
      (cs.cacheStore[e.obj.key]? = some e.obj ∧ e.obj.key ∉ objs.map DataObject.key) := by
  unfold CacheStore.refreshEvents at h
  rcases List.mem_append.mp h with hlisted | hremoved
  · exact Or.inl (List.mem_filterMap.mp hlisted)
  · obtain ⟨⟨k, o⟩, hp, rfl⟩ := List.mem_map.mp hremoved
    obtain ⟨hmem, hnot⟩ := List.mem_filter.mp hp
    have ho : cs.cacheStore[k]? = some o := BTreeMap.mem_toList.mp hmem
    obtain rfl := hkeyed k o ho
    refine Or.inr ⟨ho, fun hk => ?_⟩
    rw [List.contains_iff_mem.mpr hk] at hnot
    cases hnot

theorem nodup_refreshEvents (hkeyed : Keyed cs.cacheStore)
    (hobjs : (objs.map DataObject.key).Nodup) :
    ((cs.refreshEvents objs).map fun e => e.obj.key).Nodup := by
  have hlisted : List.Sublist ((objs.filterMap cs.refreshEvent).map fun e => e.obj.key)
      (objs.map DataObject.key) := by
    clear hobjs
    induction objs with
    | nil => exact List.Sublist.refl _
    | cons o objs ih =>
      rw [List.filterMap_cons]
      rcases he : cs.refreshEvent o with _ | e
      · exact ih.cons _
      · dsimp only
        rw [List.map_cons, List.map_cons, (refreshEvent_eq_some he).2.1]
        exact ih.cons_cons _
  have hremoved : (((cs.cacheStore.toList.filter
    fun p => !(objs.map DataObject.key).contains p.1).map
      fun p => (⟨.deleted, p.2⟩ : WatchEvent V)).map fun e => e.obj.key)
        = BTreeMap.keysWith (fun k _ => !(objs.map DataObject.key).contains k) cs.cacheStore := by
    rw [List.map_map]
    refine List.map_congr_left fun p hp => ?_
    exact hkeyed p.1 p.2 (BTreeMap.mem_toList.mp (List.mem_filter.mp hp).1)
  unfold CacheStore.refreshEvents
  rw [List.map_append, hremoved]
  refine List.nodup_append.mpr ⟨hobjs.sublist hlisted, BTreeMap.nodup_keysWith .., ?_⟩
  rintro k hk _ hk' rfl
  obtain ⟨v, -, hnot⟩ := BTreeMap.mem_keysWith.mp hk'
  rw [List.contains_iff_mem.mpr (hlisted.subset hk)] at hnot
  cases hnot

theorem exists_refreshCall (full : ℕ → ℕ → Bool) (draw : ℕ → ℤ) {e : WatchEvent V}
    (h : e ∈ cs.refreshEvents objs) :
    ∃ a ∈ cs.refreshCalls full draw objs, a.event = e := by
  rw [← events_refreshCalls full draw] at h
  exact List.mem_map.mp h

theorem event_mem_refreshEvents {a : ProcessCall V} (h : a ∈ cs.refreshCalls full draw objs) :
    a.event ∈ cs.refreshEvents objs := by
  rw [← events_refreshCalls full draw]
  exact List.mem_map_of_mem h

/-- An event that carries the cached object is stale. -/
theorem stale_of_cached {e : WatchEvent V} (h : cs.cacheStore[e.obj.key]? = some e.obj) :
    cs.stale e = true := by
  unfold CacheStore.stale
  rw [h]
  exact decide_eq_true (Int.le_refl _)

section Listed

variable (hkeyed : Keyed cs.cacheStore) (hobjs : (objs.map DataObject.key).Nodup)

include hkeyed hobjs

theorem nodup_refreshCalls : ((cs.refreshCalls full draw objs).map ProcessCall.key).Nodup := by
  rw [keys_refreshCalls]
  exact nodup_refreshEvents hkeyed hobjs

/-- What is not listed stays as it is. -/
theorem get_refresh_of_not_mem {k : String} (hk : k ∉ objs.map DataObject.key) :
    (cs.refresh full draw objs).cacheStore[k]? = cs.cacheStore[k]? := by
  by_cases hmem : k ∈ (cs.refreshCalls full draw objs).map ProcessCall.key
  · obtain ⟨a, ha, rfl⟩ := List.mem_map.mp hmem
    have hstale : cs.stale a.event = true := by
      rcases mem_refreshEvents hkeyed (event_mem_refreshEvents ha) with ⟨o, ho, he⟩ | ⟨hcached, -⟩
      · have hkey : o.key = a.key := congrArg DataObject.key (refreshEvent_eq_some he).2.1.symm
        exact absurd (hkey ▸ List.mem_map_of_mem ho) hk
      · exact stale_of_cached hcached
    exact (get_processCalls_of_mem (nodup_refreshCalls hkeyed hobjs) ha).trans (if_pos hstale)
  · exact get_processCalls_of_not_mem hmem

variable (hrev : ∀ o ∈ objs, ∀ old, cs.cacheStore[o.key]? = some old → old.revision ≤ o.revision)

include hrev

/-- What is listed is kept with its revision. -/
theorem revisionOf_refresh {o : DataObject V} (ho : o ∈ objs) :
    (cs.refresh full draw objs).revisionOf o.key = some o.revision := by
  by_cases hsame : cs.revisionOf o.key = some o.revision
  · have hmem : o.key ∉ (cs.refreshCalls full draw objs).map ProcessCall.key := by
      intro hmem
      obtain ⟨a, ha, hkey⟩ := List.mem_map.mp hmem
      rcases mem_refreshEvents hkeyed (event_mem_refreshEvents ha) with ⟨o', ho', he⟩ | ⟨-, hnot⟩
      · obtain ⟨-, hobj, hne⟩ := refreshEvent_eq_some he
        have heq : o' = o := List.inj_on_of_nodup_map hobjs ho' ho (hobj ▸ hkey)
        exact hne (heq ▸ hsame)
      · have hkey' : a.event.obj.key = o.key := hkey
        exact hnot (hkey' ▸ List.mem_map_of_mem ho)
    unfold CacheStore.revisionOf CacheStore.refresh
    rw [get_processCalls_of_not_mem hmem]
    exact hsame
  · obtain ⟨e, he⟩ := refreshEvent_isSome hsame
    obtain ⟨htype, rfl, -⟩ := refreshEvent_eq_some he
    obtain ⟨a, ha, rfl⟩ := exists_refreshCall full draw
      (List.mem_append_left _ (List.mem_filterMap.mpr ⟨_, ho, he⟩))
    have hfresh : cs.stale a.event = false := by
      unfold CacheStore.stale
      rcases hold : cs.cacheStore[a.event.obj.key]? with _ | old
      · rfl
      · refine decide_eq_false fun hle => hsame ?_
        unfold CacheStore.revisionOf
        rw [hold, Int.le_antisymm hle (hrev _ ho old hold)]
        rfl
    have hget : (cs.refresh full draw objs).cacheStore[a.key]?
      = CacheStore.left a.channelRev a.event :=
      (get_processCalls_of_mem (nodup_refreshCalls hkeyed hobjs) ha).trans
        (if_neg (Bool.eq_false_iff.mp hfresh))
    rw [CacheStore.left, if_neg htype] at hget
    exact congrArg (Option.map DataObject.revision) hget

theorem refresh_refresh (full' : ℕ → ℕ → Bool) (draw' : ℕ → ℤ) :
    (cs.refresh full draw objs).refresh full' draw' objs = cs.refresh full draw objs := by
  refine processCalls_of_stale fun a ha => ?_
  have hkeyed' : Keyed (cs.refresh full draw objs).cacheStore := keyed_processCalls hkeyed
  rcases mem_refreshEvents hkeyed' (event_mem_refreshEvents ha) with ⟨o, ho, he⟩ | ⟨hcached, -⟩
  · exact absurd (revisionOf_refresh hkeyed hobjs hrev ho) (refreshEvent_eq_some he).2.2
  · exact stale_of_cached hcached

/-- What a watcher with room is sent. -/
theorem sent_refresh {id : ℕ} {w : CacheWatcher V} (hid : cs.watchers[id]? = some w)
    (hroom : ∀ i, full i id = false) :
    ∃ w' l, (cs.refresh full draw objs).watchers[id]? = some w' ∧ w'.sent = w.sent ++ l ∧
      viewFrom (cs.selection w) l = some ((cs.refresh full draw objs).selection w) ∧
      (l.map fun e => e.obj.key).Nodup ∧
      ∀ e ∈ l, cs.revisionOf e.obj.key ≠ (cs.refresh full draw objs).revisionOf e.obj.key := by
  have hroom' : ∀ a ∈ cs.refreshCalls full draw objs, a.full id = false := by
    intro a ha
    obtain ⟨i, -, rfl⟩ := List.mem_mapIdx.mp ha
    exact hroom i
  have hnodup : ((cs.refreshCalls full draw objs).map ProcessCall.key).Nodup :=
    nodup_refreshCalls hkeyed hobjs
  obtain ⟨w', sent, hw', hsent, hsub⟩ := sent_processCalls hkeyed hnodup hid hroom'
  obtain ⟨hns, hpred, l, hsent', hview⟩ := follows_processCalls hkeyed hid hw'
  obtain rfl := List.append_cancel_left (hsent.symm.trans hsent')
  refine ⟨w', sent, hw', hsent, hview, ?_, fun e he => ?_⟩
  · exact (hnodup.sublist (List.Sublist.map _ List.filter_sublist)).sublist hsub
  · obtain ⟨a, ha, hkey⟩ := List.mem_map.mp (hsub.subset (List.mem_map_of_mem he))
    obtain ⟨hmem, hfresh⟩ := List.mem_filter.mp ha
    rcases mem_refreshEvents hkeyed (event_mem_refreshEvents hmem) with ⟨o, ho, he'⟩ | ⟨hcached, -⟩
    · obtain ⟨-, hobj, hne⟩ := refreshEvent_eq_some he'
      have hkey' : e.obj.key = o.key := hobj ▸ hkey.symm
      rw [hkey', revisionOf_refresh hkeyed hobjs hrev ho]
      exact hne
    · rw [stale_of_cached hcached] at hfresh
      cases hfresh

/-- **Refreshing.** A refresh does what it is for exactly if it has nothing to remove. -/
theorem refreshed_iff : Refreshed full cs (cs.refresh full draw objs) objs ↔
    ∀ k ∈ cs.cacheStore, k ∈ objs.map DataObject.key := by
  constructor
  · intro h k hk
    by_contra hnot
    obtain ⟨o, ho⟩ := Std.ExtTreeMap.mem_iff_isSome_getElem?.mp hk |> Option.isSome_iff_exists.mp
    have hstore := h.store k
    unfold CacheStore.revisionOf at hstore
    rw [get_refresh_of_not_mem hkeyed hobjs hnot, ho, List.find?_eq_none.mpr] at hstore
    · cases hstore
    · exact fun o' ho' heq => hnot (of_decide_eq_true heq ▸ List.mem_map_of_mem ho')
  · intro hall
    refine ⟨fun k => ?_, fun id w => sent_refresh hkeyed hobjs hrev,
      refresh_refresh hkeyed hobjs hrev⟩
    rcases hfind : objs.find? fun o => o.key = k with _ | o
    · have hnot : k ∉ objs.map DataObject.key := by
        intro hk
        obtain ⟨o, ho, rfl⟩ := List.mem_map.mp hk
        exact List.find?_eq_none.mp hfind o ho (decide_eq_true rfl)
      have habsent : cs.cacheStore[k]? = none :=
        Std.ExtTreeMap.getElem?_eq_none fun hk => hnot (hall k hk)
      unfold CacheStore.revisionOf
      rw [get_refresh_of_not_mem hkeyed hobjs hnot, habsent, hfind]
    · have hfound := List.find?_some hfind
      obtain rfl : o.key = k := of_decide_eq_true hfound
      rw [hfind]
      exact revisionOf_refresh hkeyed hobjs hrev (List.mem_of_find?_eq_some hfind)

end Listed

/-- A store with one node, refreshed with a newer one and another: nothing is removed. -/
theorem refreshed_two :
    let node : String → ℤ → DataObject Unit := fun name revision =>
      { objType := "node", tenant := "acme", nameSpace := "ns", name, revision, object := () }
    let cs : CacheStore Unit := ({ objectType := "node" } : CacheStore Unit).processCalls
      [⟨fun _ => false, 1, ⟨.added, node "a" 3⟩⟩]
    Refreshed (fun _ _ => false) cs
      (cs.refresh (fun _ _ => false) (fun i => i + 2) [node "a" 4, node "b" 1])
      [node "a" 4, node "b" 1] := by
  intro node cs
  have hlisted : ∀ k ∈ cs.cacheStore.keys, k ∈ [node "a" 4, node "b" 1].map DataObject.key := by
    decide +kernel
  exact (refreshed_iff (keyed_processCalls Keyed.empty) (by decide +kernel) (by decide +kernel)).mpr
    fun k hk => hlisted k (Std.ExtTreeMap.mem_keys.mpr hk)

/-- **The removal is missing.** Of a store with two nodes one is listed: the other one stays, and
the watcher that has been sent it is sent nothing. -/
theorem refresh_keeps_removed :
    let node : String → ℤ → DataObject Unit := fun name revision =>
      { objType := "node", tenant := "acme", nameSpace := "ns", name, revision, object := () }
    let cs : CacheStore Unit :=
      (({ objectType := "node" } : CacheStore Unit).watch "" 0 fun _ => true).1.processCalls
        [⟨fun _ => false, 1, ⟨.added, node "a" 3⟩⟩, ⟨fun _ => false, 2, ⟨.added, node "b" 4⟩⟩]
    let cs' := cs.refresh (fun _ _ => false) (fun i => i + 3) [node "a" 3]
    Keyed cs.cacheStore ∧ ([node "a" 3].map DataObject.key).Nodup ∧
      (∀ o ∈ [node "a" 3], ∀ old, cs.cacheStore[o.key]? = some old → old.revision ≤ o.revision) ∧
      cs'.revisionOf "acme/ns/b" = some 4 ∧
      cs'.watchers[1]?.map CacheWatcher.sent = cs.watchers[1]?.map CacheWatcher.sent ∧
      ¬ Refreshed (fun _ _ => false) cs cs' [node "a" 3] := by
  intro node cs cs'
  have hkept : cs'.revisionOf "acme/ns/b" = some 4 := by decide +kernel
  refine ⟨keyed_processCalls Keyed.empty, by decide +kernel, by decide +kernel, hkept,
    by decide +kernel, fun h => ?_⟩
  exact absurd (hkept.symm.trans (h.store "acme/ns/b")) (by decide +kernel)

end Refresh

end Inferx.Metastore
