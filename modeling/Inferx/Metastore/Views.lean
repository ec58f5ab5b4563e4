import Inferx.Metastore.CacheStore

/-!
# What a watcher sees

A watcher that folds what it is sent has a view: an added object is inserted, a
modified one replaces, a deleted one is removed, and each event has to fit what the
view has. However the events are typed that `processEvent` is given, and whether they
are stale or not, the view stays the selection of the watcher from the store.
-/

namespace Inferx.Metastore

variable {V : Type}

/-! ## Views -/

/-- The view after an event, if the event fits it. -/
def viewAfter (m : Objects V) (e : WatchEvent V) : Option (Objects V) :=
  match e.type with
  | .added => if m.contains e.obj.key then none else some (m.insert e.obj.key e.obj)
  | .modified => if m.contains e.obj.key then some (m.insert e.obj.key e.obj) else none
  | .deleted => if m.contains e.obj.key then some (m.erase e.obj.key) else none
  | _ => none

/-- The view after some events. -/
def viewFrom (m : Objects V) (sent : List (WatchEvent V)) : Option (Objects V) :=
  sent.foldlM viewAfter m

/-- The objects of the store that a watcher selects. -/
def CacheStore.selection (cs : CacheStore V) (w : CacheWatcher V) : Objects V :=
  cs.cacheStore.filter w.matchObj

/-- A call of `ProcessEvent`: the watchers without room, the revision that is drawn and the
event. -/
structure ProcessCall (V : Type) where
  full : ℕ → Bool
  channelRev : ℤ
  event : WatchEvent V

/-- The calls one after the other. -/
def CacheStore.processCalls (cs : CacheStore V) (l : List (ProcessCall V)) : CacheStore V :=
  l.foldl (fun cs c => cs.processEvent c.full c.channelRev c.event) cs

theorem viewFrom_append (m : Objects V) (l l' : List (WatchEvent V)) :
    viewFrom m (l ++ l') = (viewFrom m l).bind fun m' => viewFrom m' l' := List.foldlM_append

theorem viewFrom_singleton (m : Objects V) (e : WatchEvent V) : viewFrom m [e] = viewAfter m e := by
  unfold viewFrom
  rw [List.foldlM_cons]
  exact Option.bind_fun_some _

section Selection

variable {cs : CacheStore V} {w w' : CacheWatcher V}

theorem get_selection (k : String) :
    (cs.selection w)[k]? = cs.cacheStore[k]?.filter (w.matchObj k) :=
  Std.ExtTreeMap.getElem?_filter'

theorem selection_congr (hns : w.nameSpace = w'.nameSpace) (hpred : w.predicate = w'.predicate) :
    cs.selection w = cs.selection w' := by
  have hmatch : w.matchObj = w'.matchObj := by
    funext k o
    simp only [CacheWatcher.matchObj, hns, hpred]
  unfold CacheStore.selection
  rw [hmatch]

theorem contains_selection {k : String} :
    (cs.selection w).contains k = true ↔ ∃ o, cs.cacheStore[k]? = some o ∧
    w.matchObj k o = true := by
  rw [Std.ExtTreeMap.contains_eq_isSome_getElem?, get_selection, Option.isSome_iff_exists]
  exact exists_congr fun o => Option.filter_eq_some_iff

end Selection

theorem erase_of_absent {m : Objects V} {k : String} (h : k ∉ m) : m.erase k = m := by
  refine Std.ExtTreeMap.ext_getElem? fun a => ?_
  rw [BTreeMap.get_erase]
  split
  next heq => rw [heq, Std.ExtTreeMap.getElem?_eq_none h]
  next => rfl

/-! ## One event -/

section Event

variable {cs : CacheStore V} {w : CacheWatcher V} {full : ℕ → Bool} {c : ℤ} {e : WatchEvent V}

/-- The selection after a newer event: only the entry of its object changes. -/
theorem get_selection_processEvent (hstale : cs.stale e = false) (k : String) :
    ((cs.processEvent full c e).selection w)[k]? =
      if k = e.obj.key then (CacheStore.left c e).filter (w.matchObj k)
      else (cs.selection w)[k]? := by
  rw [get_selection, get_selection]
  split
  next heq => rw [heq, CacheStore.get_processEvent_self hstale]
  next hne => rw [CacheStore.processEvent_of_ne hne]

/-- Does the object that an event leaves pass? -/
theorem left_filter (k : String) : (CacheStore.left c e).filter (w.matchObj k) =
    if (e.type != .deleted && w.matchObj k (e.obj.copyWithRev c e.obj.revision)) = true then
      some (e.obj.copyWithRev c e.obj.revision) else none := by
  unfold CacheStore.left
  by_cases hdel : e.type = .deleted
  · rw [if_pos hdel, hdel]
    rfl
  · rw [if_neg hdel]
    have htype : (e.type != .deleted) = true := bne_iff_ne.mpr hdel
    rw [htype, Bool.true_and]
    rfl

/-- An object that passes is in the selection afterwards. -/
theorem selection_of_passes (hstale : cs.stale e = false)
    (hcur : (e.type != .deleted && w.matchObj e.obj.key
      (e.obj.copyWithRev c e.obj.revision)) = true) :
    (cs.processEvent full c e).selection w =
      (cs.selection w).insert e.obj.key (e.obj.copyWithRev c e.obj.revision) := by
  refine Std.ExtTreeMap.ext_getElem? fun k => ?_
  rw [get_selection_processEvent hstale, BTreeMap.get_insert]
  split
  next heq => rw [heq, left_filter, if_pos hcur]
  next => rfl

/-- One that does not is not. -/
theorem selection_of_fails (hstale : cs.stale e = false)
    (hcur : (e.type != .deleted && w.matchObj e.obj.key
      (e.obj.copyWithRev c e.obj.revision)) = false) :
    (cs.processEvent full c e).selection w = (cs.selection w).erase e.obj.key := by
  refine Std.ExtTreeMap.ext_getElem? fun k => ?_
  rw [get_selection_processEvent hstale, BTreeMap.get_erase]
  split
  next heq => rw [heq, left_filter, hcur, if_neg Bool.false_ne_true]
  next => rfl

/-- **One event.** What a watcher is sent takes its selection to the next one. -/
theorem viewFrom_convert (hkeyed : Keyed cs.cacheStore) (hstale : cs.stale e = false) :
    viewFrom (cs.selection w) (w.convertToWatchEvent (cs.cacheEvent c e)).toList =
      some ((cs.processEvent full c e).selection w) := by
  have hcontains : (cs.selection w).contains e.obj.key = true ↔
      (cs.cacheStore[e.obj.key]?.any (w.matchObj e.obj.key)) = true := by
    rw [contains_selection, Option.any_eq_true]
  -- does the current object pass, and did the old one?
  rcases hcur : (e.type != .deleted && w.matchObj e.obj.key (e.obj.copyWithRev c e.obj.revision))
  · rw [selection_of_fails hstale hcur]
    rcases hold : cs.cacheStore[e.obj.key]?.any (w.matchObj e.obj.key)
    · have hconvert : w.convertToWatchEvent (cs.cacheEvent c e) = none := by
        simp [CacheWatcher.convertToWatchEvent, CacheStore.cacheEvent,
          WatchCacheEvent.key, hcur, hold]
      have habsent : e.obj.key ∉ cs.selection w := fun h =>
        Bool.false_ne_true (hold.symm.trans (hcontains.mp (Std.ExtTreeMap.contains_iff_mem.mpr h)))
      rw [hconvert, erase_of_absent habsent]
      rfl
    · obtain ⟨old, ho, hmatch⟩ := (Option.any_eq_true ..).mp hold
      have hconvert : w.convertToWatchEvent (cs.cacheEvent c e)
          = some ⟨.deleted, old.copyWithRev c e.obj.revision⟩ := by
        simp [CacheWatcher.convertToWatchEvent, CacheStore.cacheEvent,
          WatchCacheEvent.key, hcur, ho,
          hmatch]
      rw [hconvert, Option.toList_some, viewFrom_singleton]
      unfold viewAfter
      dsimp only
      rw [DataObject.key_copyWithRev, hkeyed _ old ho, if_pos (hcontains.mpr hold)]
  · rw [selection_of_passes hstale hcur]
    rcases hold : cs.cacheStore[e.obj.key]?.any (w.matchObj e.obj.key)
    · have hconvert : w.convertToWatchEvent (cs.cacheEvent c e)
          = some ⟨.added, e.obj.copyWithRev c e.obj.revision⟩ := by
        simp [CacheWatcher.convertToWatchEvent, CacheStore.cacheEvent,
          WatchCacheEvent.key, hcur, hold]
      rw [hconvert, Option.toList_some, viewFrom_singleton]
      unfold viewAfter
      dsimp only
      rw [DataObject.key_copyWithRev,
        if_neg fun h => Bool.false_ne_true (hold.symm.trans (hcontains.mp h))]
    · have hconvert : w.convertToWatchEvent (cs.cacheEvent c e)
          = some ⟨.modified, e.obj.copyWithRev c e.obj.revision⟩ := by
        simp [CacheWatcher.convertToWatchEvent, CacheStore.cacheEvent,
          WatchCacheEvent.key, hcur, hold]
      rw [hconvert, Option.toList_some, viewFrom_singleton]
      unfold viewAfter
      dsimp only
      rw [DataObject.key_copyWithRev, if_pos (hcontains.mpr hold)]

end Event

/-! ## Runs -/

/-- What a watcher has been sent since it was `w`: it looks for the same objects, and the new
events take one selection to the other. -/
structure Follows (w : CacheWatcher V) (old new : CacheStore V) (w' : CacheWatcher V) : Prop where
  nameSpace : w'.nameSpace = w.nameSpace
  predicate : w'.predicate = w.predicate
  sent : ∃ l, w'.sent = w.sent ++ l ∧ viewFrom (old.selection w) l = some (new.selection w)

section Runs

variable {cs cs' : CacheStore V} {w w' : CacheWatcher V} {id : ℕ}

theorem Follows.refl (w : CacheWatcher V) (cs : CacheStore V) : Follows w cs cs w :=
  ⟨rfl, rfl, [], (List.append_nil _).symm, rfl⟩

theorem keyed_processCalls {l : List (ProcessCall V)} (h : Keyed cs.cacheStore) :
    Keyed (cs.processCalls l).cacheStore := by
  induction l generalizing cs with
  | nil => exact h
  | cons a l ih => exact ih (CacheStore.keyed_processEvent h)

/-- **The step.** -/
theorem Follows.processEvent {cs₀ : CacheStore V} (hkeyed : Keyed cs.cacheStore) (a : ProcessCall V)
    (h : ∀ w', cs.watchers[id]? = some w' → Follows w cs₀ cs w')
    (hw : (cs.processEvent a.full a.channelRev a.event).watchers[id]? = some w') :
    Follows w cs₀ (cs.processEvent a.full a.channelRev a.event) w' := by
  rcases hstale : cs.stale a.event
  · rw [watchers_processEvent _ _ hstale] at hw
    obtain ⟨w₁, hfilter, rfl⟩ := Option.map_eq_some_iff.mp hw
    obtain ⟨hns, hpred, l, hsent, hview⟩ := h w₁ (Option.filter_eq_some_iff.mp hfilter).1
    refine ⟨hns, hpred, l ++ (w₁.convertToWatchEvent
      (cs.cacheEvent a.channelRev a.event)).toList, ?_, ?_⟩
    · unfold CacheWatcher.send
      rw [hsent, List.append_assoc]
    · have hstep : viewFrom (cs.selection w₁)
            (w₁.convertToWatchEvent (cs.cacheEvent a.channelRev a.event)).toList
          = some ((cs.processEvent a.full a.channelRev a.event).selection w₁) :=
        viewFrom_convert hkeyed hstale
      rw [selection_congr hns hpred, selection_congr hns hpred] at hstep
      rw [viewFrom_append, hview]
      exact hstep
  · have hsame : cs.processEvent a.full a.channelRev a.event = cs :=
      CacheStore.processEvent_of_stale hstale
    rw [hsame] at hw ⊢
    exact h w' hw

/-- **The run.** Whatever the calls are, a watcher that is still there has been sent what takes
its selection from the first store to its selection from the last. -/
theorem follows_processCalls {l : List (ProcessCall V)} (hkeyed : Keyed cs.cacheStore)
    (hid : cs.watchers[id]? = some w) (hw : (cs.processCalls l).watchers[id]? = some w') :
    Follows w cs (cs.processCalls l) w' := by
  have hrun : ∀ (l : List (ProcessCall V)) (cs₁ : CacheStore V), Keyed cs₁.cacheStore →
      (∀ w', cs₁.watchers[id]? = some w' → Follows w cs cs₁ w') →
      ∀ w', (cs₁.processCalls l).watchers[id]? = some w' →
      Follows w cs (cs₁.processCalls l) w' := by
    intro l
    induction l with
    | nil => exact fun cs₁ _ h => h
    | cons a l ih =>
      intro cs₁ hkeyed h
      exact ih _ (CacheStore.keyed_processEvent hkeyed)
        fun w' hw' => Follows.processEvent hkeyed a h hw'
  refine hrun l cs hkeyed (fun w₁ hw₁ => ?_) w' hw
  obtain rfl := Option.some.inj (hid.symm.trans hw₁)
  exact Follows.refl w cs

/-- What a watch that is opened on the empty store starts with. -/
theorem watcher_of_watch_empty {nameSpace : String} {revision : ℤ} {predicate : DataObject V → Bool}
    (hstore : cs.cacheStore = ∅) (hring : revision = 0 ∨ cs.cache.events = [])
    (hwatch : cs.watch nameSpace revision predicate = (cs', some id)) :
    cs'.cacheStore = ∅ ∧ cs'.watchers[id]? = some ⟨nameSpace, predicate, []⟩ := by
  have hnone : ∀ events, cs.getAllEvents revision predicate = .ok events → events = [] := by
    intro events hevents
    unfold CacheStore.getAllEvents at hevents
    split at hevents
    next => cases hevents
    next =>
      split at hevents
      next =>
        obtain rfl := Except.ok.inj hevents
        simp [CacheStore.getAllEventsFromStore, hstore]
      next hrev =>
        split at hevents
        next => cases hevents
        next =>
          obtain rfl := Except.ok.inj hevents
          simp [RingBuf.getAllEvents, hring.resolve_left hrev]
  unfold CacheStore.watch at hwatch
  dsimp only at hwatch
  split at hwatch
  next => cases (Prod.mk.inj hwatch).2
  next events hevents =>
    obtain ⟨rfl, hid⟩ := Prod.mk.inj hwatch
    obtain rfl := Option.some.inj hid
    rw [hnone events hevents]
    exact ⟨hstore, BTreeMap.get_insert_self ..⟩

/-- **Views.** Whatever events are processed, a watch that was opened on the empty store and has
not been dropped has been sent what builds up the objects it selects, every event fitting. -/
theorem viewFrom_sent {nameSpace : String} {revision : ℤ} {predicate : DataObject V → Bool}
    (hstore : cs.cacheStore = ∅) (hring : revision = 0 ∨ cs.cache.events = [])
    (hwatch : cs.watch nameSpace revision predicate = (cs', some id)) (l : List (ProcessCall V))
    (hw : (cs'.processCalls l).watchers[id]? = some w) :
    viewFrom ∅ w.sent = some ((cs'.processCalls l).cacheStore.filter w.matchObj) ∧
      w.nameSpace = nameSpace ∧ w.predicate = predicate := by
  obtain ⟨hempty, hopened⟩ := watcher_of_watch_empty hstore hring hwatch
  have hkeyed : Keyed cs'.cacheStore := by
    rw [hempty]
    exact Keyed.empty
  obtain ⟨hns, hpred, sent, hsent, hview⟩ := follows_processCalls hkeyed hopened hw
  have hselection : cs'.selection ⟨nameSpace, predicate, []⟩ = ∅ := by
    unfold CacheStore.selection
    rw [hempty]
    rfl
  rw [hselection] at hview
  refine ⟨?_, hns, hpred⟩
  rw [hsent, List.nil_append, hview]
  exact congrArg some (selection_congr hns.symm hpred.symm)

/-- A watch on the keys under `acme`, and three calls: the second event is stale. -/
theorem viewFrom_sent_three :
    let o : DataObject Unit := { objType := "node", tenant := "acme", nameSpace := "ns", name := "a",
                                 revision := 3, object := () }
    let cs := (({ objectType := "node" } : CacheStore Unit).watch "acme" 0
      fun _ => true).1.processCalls
      [⟨fun _ => false, 1, ⟨.modified, o⟩⟩, ⟨fun _ => false, 2, ⟨.deleted, o⟩⟩,
        ⟨fun _ => false, 3, ⟨.modified, o.copyWithRev 0 5⟩⟩]
    cs.watchers[1]?.map CacheWatcher.sent
        = some [⟨.added, o.copyWithRev 1 3⟩, ⟨.modified, o.copyWithRev 3 5⟩] ∧
      ∃ w, cs.watchers[1]? = some w ∧
      viewFrom ∅ w.sent = some (cs.cacheStore.filter w.matchObj) := by
  intro o cs
  have hsent : cs.watchers[1]?.map CacheWatcher.sent
      = some [⟨.added, o.copyWithRev 1 3⟩, ⟨.modified, o.copyWithRev 3 5⟩] := by decide +kernel
  obtain ⟨w, hw, -⟩ := Option.map_eq_some_iff.mp hsent
  have hwatch : ({ objectType := "node" } : CacheStore Unit).watch "acme" 0 (fun _ => true)
      = (_, some 1) := rfl
  exact ⟨hsent, w, hw, (viewFrom_sent rfl (Or.inl rfl) hwatch _ hw).1⟩

end Runs

end Inferx.Metastore
