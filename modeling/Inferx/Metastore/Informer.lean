import Mathlib.Data.List.Nodup
import Inferx.Lib.Runs
import Inferx.Metastore.Objects

/-!
# Informers and their handlers

The client side of a watch: an informer keeps a copy of the server's objects and
tells its handlers about every change. `InitList` replaces the copy by a list
and derives the events from the difference (`merge`); `WatchUpdate` applies one
watch event at a time; the events are given to the registered handlers one after
the other. `AddEventHandler` runs beside that: it reads the objects, hands them
to the new handler one by one, and only then registers it.

The store is changed first and the handlers are told afterwards, so a handler
agrees with the store when no event is left to be distributed. What breaks the
agreement for good: `Add` and `Update` of the store write before they report an
error, and the event is then not distributed; `merge` collects its events in a
map by revision, so that two of them with the same revision become one, does not
report an object that has become older, and reports a deletion without the old
object; and a change between the reading of the objects and the registration
reaches neither.
-/

namespace Inferx.Metastore

variable {V : Type}

/-! ## The store -/

/-- `ThreadSafeStore::Add`: it writes in any case and fails if the key was there. -/
def storeAdd (m : Objects V) (obj : DataObject V) : Objects V × Bool :=
  (m.insert obj.key obj, !m.contains obj.key)

/-- `ThreadSafeStore::Update`: it writes in any case and fails if the key was
not there. -/
def storeUpdate (m : Objects V) (obj : DataObject V) : Objects V × Option (DataObject V) :=
  (m.insert obj.key obj, m[obj.key]?)

/-- `ThreadSafeStore::Delete`. -/
def storeDelete (m : Objects V) (obj : DataObject V) : Objects V × Option (DataObject V) :=
  (m.erase obj.key, m[obj.key]?)

/-- The store made of a list, unless a key occurs twice. -/
def storeOfList (objs : List (DataObject V)) : Option (Objects V) :=
  objs.foldlM (fun m o => if (storeAdd m o).2 then some (storeAdd m o).1 else none) ∅

/-! ## Merge -/

/-- The event for an object of the new list. -/
def changeOf (first : Bool) (old : Objects V) (k : String) (v : DataObject V) :
    Option (DeltaEvent V) :=
  match old[k]? with
  | none => some ⟨.added, first, v, none⟩
  | some o =>
    if compare o.epochRevision v.epochRevision
    = .lt then some ⟨.modified, first, v, some o⟩ else none

/-- The event for an object of the old store. -/
def goneOf (new : Objects V) (k : String) (v : DataObject V) : Option (DeltaEvent V) :=
  if new.contains k then none else some ⟨.deleted, false, v, none⟩

/-- The changes from one store to the next, in the order they are found. -/
def changes (first : Bool) (old new : Objects V) : List (DeltaEvent V) :=
  new.toList.filterMap (fun p => changeOf first old p.1 p.2) ++
    old.toList.filterMap fun p => goneOf new p.1 p.2

/-- The revision an event is collected under. -/
def DeltaEvent.epochRevision (e : DeltaEvent V) : EpochRevision := e.obj.epochRevision

/-- Events by revision; of two with the same revision the later one stays. -/
def byRevision (l : List (DeltaEvent V)) : BTreeMap EpochRevision (DeltaEvent V) :=
  Std.ExtTreeMap.ofList (l.map fun e => (e.epochRevision, e))

/-- `Informer::Merge`: the changes in the order of their revisions. -/
def merge (first : Bool) (old new : Objects V) : List (DeltaEvent V) :=
  (byRevision (changes first old new)).toList.map Prod.snd

/-! ## The informer -/

/-- A handler: what it has been given, and while it is being added, the objects
it still has to be given. -/
structure HandlerState (V : Type) where
  /-- the events it was given, oldest first -/
  given : List (DeltaEvent V) := []
  /-- the objects of the replay that are left; `none` once it is registered -/
  replay : Option (List (DataObject V)) := none

/-- `InformerInner`, with the events that are still to be distributed. -/
structure Informer (V : Type) where
  /-- the objects -/
  store : Objects V := ∅
  /-- the revision the next watch starts from -/
  revision : ℤ := 0
  /-- the events still to be distributed, oldest first -/
  pending : List (DeltaEvent V) := []
  /-- the handlers, in the order they were added -/
  handlers : List (HandlerState V) := []

/-- What happens to an informer. -/
inductive InformerInput (V : Type) where
  /-- a list has been fetched -/
  | initList (first : Bool) (objs : List (DataObject V)) (revision : ℤ)
  /-- an event has come from the watch -/
  | watch (e : WatchEvent V)
  /-- the next event is given to the handlers -/
  | distribute
  /-- a handler is to be added: the objects are read -/
  | addHandler
  /-- a handler that is being added is given the next object -/
  | replay (i : ℕ)
  /-- a handler that has been given all objects is registered -/
  | register (i : ℕ)

namespace Informer

/-- The end of the initial list. -/
def initDone [Inhabited V] (first : Bool) : List (DeltaEvent V) :=
  if first then [⟨.initDone, true, .default, none⟩] else []

/-- `Informer::InitList`, up to the distribution. -/
def initList [Inhabited V] (first : Bool) (objs : List (DataObject V)) (revision : ℤ)
    (x : Informer V) :
    Informer V :=
  match storeOfList objs with
  | none => { x with revision }
  | some new =>
    { x with
      revision
      store := new
      pending := merge first x.store new ++ initDone first }

/-- Is the event not newer than what the informer has? -/
def seen (x : Informer V) (e : WatchEvent V) : Bool :=
  x.store[e.obj.key]?.any fun old => decide (e.obj.revision ≤ old.revision)

/-- One event of `Informer::WatchUpdate`, up to the distribution. An error ends
the watch, and the store stays as it was written. -/
def watch (x : Informer V) (e : WatchEvent V) : Option (Informer V) :=
  let x := { x with revision := e.obj.channelRev }
  if x.seen e then some x
  else
    match e.type with
    | .added =>
      let (store, ok) := storeAdd x.store e.obj
      some { x with store, pending := if ok then [⟨.added, false, e.obj, none⟩] else [] }
    | .modified =>
      let (store, old) := storeUpdate x.store e.obj
      some { x with
        store
        pending := old.toList.map fun old => ⟨.modified, false, e.obj, some old⟩ }
    | .deleted =>
      let (store, old) := storeDelete x.store e.obj
      some { x with
        store
        pending := old.toList.map fun old => ⟨.deleted, false, e.obj, some old⟩ }
    | _ => none

/-- `Informer::Distribute`: the registered handlers are given the event. -/
def distribute (x : Informer V) (e : DeltaEvent V) (rest : List (DeltaEvent V)) : Informer V :=
  { x with
    pending := rest
    handlers := x.handlers.map fun h =>
      if h.replay.isNone then { h with given := h.given ++ [e] } else h }

/-- The event that hands an object of the store to a new handler. -/
def replayed (obj : DataObject V) : DeltaEvent V := ⟨.added, true, obj, none⟩

/-- A handler takes the next step of `AddEventHandler`. -/
def replayStep (h : HandlerState V) : Option (HandlerState V) :=
  match h.replay with
  | some (obj :: rest) => some { given := h.given ++ [replayed obj], replay := some rest }
  | _ => none

/-- A handler is registered. -/
def registerStep (h : HandlerState V) : Option (HandlerState V) :=
  match h.replay with
  | some [] => some { h with replay := none }
  | _ => none

/-- One step. The informer's own task distributes all events of a change before
it makes the next one. -/
def next [Inhabited V] (x : Informer V) : InformerInput V → Option (Informer V)
  | .initList first objs revision =>
    if x.pending.isEmpty then some (x.initList first objs revision) else none
  | .watch e => if x.pending.isEmpty then x.watch e else none
  | .distribute =>
    match x.pending with
    | [] => none
    | e :: rest => some (x.distribute e rest)
  | .addHandler => some { x with
      handlers := x.handlers ++ [{ replay := some (x.store.toList.map Prod.snd) }] }
  | .replay i => do
    let h ← x.handlers[i]?
    let h' ← replayStep h
    return { x with handlers := x.handlers.set i h' }
  | .register i => do
    let h ← x.handlers[i]?
    let h' ← registerStep h
    return { x with handlers := x.handlers.set i h' }

end Informer

/-! ## What a handler holds -/

/-- What a handler holds after an event. -/
def heldAfter (m : Objects V) (e : DeltaEvent V) : Objects V :=
  match e.type with
  | .added => m.insert e.obj.key e.obj
  | .modified => m.insert e.obj.key e.obj
  | .deleted => m.erase e.obj.key
  | _ => m

/-- The event carries the object it replaces. -/
def Carries (m : Objects V) (e : DeltaEvent V) : Prop :=
  e.type = .modified ∨ e.type = .deleted → e.oldObj.isSome ∧ e.oldObj = m[e.obj.key]?

/-- The events lead from `m` to `m'`, each carrying the object it replaces. -/
inductive Leads : Objects V → List (DeltaEvent V) → Objects V → Prop where
  /-- no event -/
  | nil {m} : Leads m [] m
  /-- one more event -/
  | cons {m m' e l} : Carries m e → Leads (heldAfter m e) l m' → Leads m (e :: l) m'

theorem Leads.append {m m' m'' : Objects V} {l l' : List (DeltaEvent V)} (h : Leads m l m')
    (h' : Leads m' l' m'') : Leads m (l ++ l') m'' := by
  induction h with
  | nil => exact h'
  | cons hcarries _ ih => exact .cons hcarries (ih h')

theorem Leads.oldObj_isSome {m m' : Objects V} {l : List (DeltaEvent V)} (h : Leads m l m') :
    ∀ e ∈ l, e.type = .modified ∨ e.type = .deleted → e.oldObj.isSome = true := by
  induction h with
  | nil => exact fun e he => (nomatch he)
  | cons hcarries _ ih =>
    intro e he htype
    rcases List.mem_cons.mp he with rfl | he
    · exact (hcarries htype).1
    · exact ih e he htype

/-- An event that changes nothing. -/
theorem Leads.idle {m : Objects V} {e : DeltaEvent V} (hheld : heldAfter m e = m)
    (hmod : e.type ≠ .modified) (hdel : e.type ≠ .deleted) : Leads m [e] m := by
  refine .cons ?_ (hheld.symm ▸ .nil)
  rintro (h | h)
  · exact absurd h hmod
  · exact absurd h hdel

/-- The event makes `new` have its object: it is an addition, or a modification
that carries what `old` has. -/
structure Sets (old new : Objects V) (e : DeltaEvent V) : Prop where
  /-- what it is -/
  type : e.type = .added ∨ e.type = .modified ∧ e.oldObj.isSome ∧ e.oldObj = old[e.obj.key]?
  /-- what it writes -/
  new : new[e.obj.key]? = some e.obj

theorem Sets.heldAfter {old new : Objects V} {e : DeltaEvent V} (h : Sets old new e) :
    heldAfter old e = old.insert e.obj.key e.obj := by
  unfold Metastore.heldAfter
  rcases h.type with htype | ⟨htype, -⟩
  · rw [htype]
  · rw [htype]

theorem Sets.carries {old new : Objects V} {e : DeltaEvent V} (h : Sets old new e) :
    Carries old e := by
  intro htype
  rcases h.type with hadded | ⟨-, hold⟩
  · rw [hadded] at htype
    rcases htype with htype | htype
    · cases htype
    · cases htype
  · exact hold

/-- Events about different keys lead to what they write, in any order. -/
theorem leads_of_sets {old new : Objects V} {l : List (DeltaEvent V)}
    (hkeys : (l.map fun e => e.obj.key).Nodup) (hsets : ∀ e ∈ l, Sets old new e)
    (hrest : ∀ k : String, (∀ e ∈ l, e.obj.key ≠ k) → new[k]? = old[k]?) : Leads old l new := by
  induction l generalizing old with
  | nil =>
    have heq : new = old := Std.ExtTreeMap.ext_getElem? fun k => hrest k fun _ he => (nomatch he)
    rw [heq]
    exact .nil
  | cons e l ih =>
    have he := hsets e (List.mem_cons_self ..)
    obtain ⟨hnotin, hkeys⟩ := List.nodup_cons.mp hkeys
    have hne : ∀ e' ∈ l, e'.obj.key ≠ e.obj.key := fun e' he' heq =>
      hnotin (List.mem_map.mpr ⟨e', he', heq⟩)
    refine .cons he.carries ?_
    rw [he.heldAfter]
    refine ih hkeys (fun e' he' => ?_) fun k hk => ?_
    · have hset := hsets e' (List.mem_cons_of_mem _ he')
      refine ⟨?_, hset.new⟩
      rw [BTreeMap.get_insert_of_ne (hne e' he')]
      exact hset.type
    · rw [BTreeMap.get_insert]
      split
      next heq => rw [heq, he.new]
      next hk' =>
        refine hrest k fun e' he' => ?_
        rcases List.mem_cons.mp he' with rfl | he'
        · exact fun heq => hk' heq.symm
        · exact hk e' he'

/-! ## Lists and merges -/

/-- When does a list reach the handlers? No object disappears, an object is newer
or the same, and no two events have the same revision. -/
structure Mergeable (first : Bool) (old new : Objects V) : Prop where
  /-- every object is still there, and not older -/
  kept : ∀ (k : String) (o : DataObject V), old[k]? = some o →
    ∃ v, new[k]? = some v ∧ (compare o.epochRevision v.epochRevision = .lt ∨ o = v)
  /-- revisions tell the events apart -/
  distinct : ((changes first old new).map DeltaEvent.epochRevision).Nodup

theorem keyed_storeOfList {objs : List (DataObject V)} {new : Objects V}
    (h : storeOfList objs = some new) : Keyed new := by
  have hfold : ∀ (l : List (DataObject V)) (m : Objects V), Keyed m →
      l.foldlM (fun m o => if (storeAdd m o).2 then some (storeAdd m o).1 else none) m = some new →
      Keyed new := by
    intro l
    induction l with
    | nil =>
      intro m hm h
      obtain rfl := Option.some.inj h
      exact hm
    | cons o l ih =>
      intro m hm h
      rw [List.foldlM_cons] at h
      obtain ⟨m', hm', h⟩ := Option.bind_eq_some_iff.mp h
      split at hm'
      next =>
        obtain rfl := Option.some.inj hm'
        exact ih _ (hm.insert rfl) h
      next => cases hm'
  exact hfold objs ∅ Keyed.empty h

section Merge

variable {first : Bool} {old new : Objects V} {e : DeltaEvent V}

/-- What is collected under a revision has it. -/
theorem byRevision_eq_some {l : List (DeltaEvent V)} {r : EpochRevision}
    (h : (byRevision l)[r]? = some e) : e ∈ l ∧ e.epochRevision = r := by
  have hfold : ∀ (l : List (DeltaEvent V)) (m : BTreeMap EpochRevision (DeltaEvent V)),
      (m.insertMany (l.map fun e => (e.epochRevision, e)))[r]? = some e →
      (e ∈ l ∧ e.epochRevision = r) ∨ m[r]? = some e := by
    intro l
    induction l with
    | nil => exact fun m h => Or.inr h
    | cons a l ih =>
      intro m h
      rw [List.map_cons, Std.ExtTreeMap.insertMany_cons] at h
      rcases ih _ h with ⟨hmem, hrev⟩ | hm
      · exact Or.inl ⟨List.mem_cons_of_mem a hmem, hrev⟩
      · rw [BTreeMap.get_insert] at hm
        split at hm
        next heq =>
          obtain rfl := Option.some.inj hm
          exact Or.inl ⟨List.mem_cons_self, heq.symm⟩
        next => exact Or.inr hm
  unfold byRevision at h
  rw [Std.ExtTreeMap.ofList_eq_insertMany_empty] at h
  rcases hfold l ∅ h with hin | hempty
  · exact hin
  · rw [Std.ExtTreeMap.getElem?_empty] at hempty
    cases hempty

theorem get_byRevision {l : List (DeltaEvent V)} {r : EpochRevision}
    (hdistinct : (l.map DeltaEvent.epochRevision).Nodup) :
    (byRevision l)[r]? = some e ↔ e ∈ l ∧ e.epochRevision = r := by
  have hpairwise : (l.map fun e => (e.epochRevision, e)).Pairwise
    fun a b => ¬ compare a.1 b.1 = .eq := by
    refine List.pairwise_map.mpr ((List.pairwise_map.mp hdistinct).imp fun hne heq => hne ?_)
    exact Std.LawfulEqOrd.eq_of_compare heq
  refine ⟨byRevision_eq_some, ?_⟩
  rintro ⟨he, rfl⟩
  exact Std.ExtTreeMap.getElem?_ofList_of_mem Std.compare_self hpairwise
    (List.mem_map.mpr ⟨e, he, rfl⟩)

/-- Nothing else is reported. -/
theorem mem_changes_of_mem_merge (h : e ∈ merge first old new) : e ∈ changes first old new := by
  obtain ⟨⟨r, e'⟩, hp, rfl⟩ := List.mem_map.mp h
  exact (byRevision_eq_some (BTreeMap.mem_toList.mp hp)).1

theorem nodup_merge : (merge first old new).Nodup := by
  refine List.Nodup.map_on ?_ (BTreeMap.nodup_toList _)
  rintro ⟨r, e⟩ hp ⟨r', e'⟩ hp' heq
  obtain rfl : e = e' := heq
  obtain ⟨-, rfl⟩ := byRevision_eq_some (BTreeMap.mem_toList.mp hp)
  obtain ⟨-, rfl⟩ := byRevision_eq_some (BTreeMap.mem_toList.mp hp')
  rfl

theorem mem_merge (hdistinct : ((changes first old new).map DeltaEvent.epochRevision).Nodup) :
    e ∈ merge first old new ↔ e ∈ changes first old new := by
  refine ⟨mem_changes_of_mem_merge, fun he => ?_⟩
  unfold merge
  exact List.mem_map.mpr ⟨(e.epochRevision, e),
    BTreeMap.mem_toList.mpr ((get_byRevision hdistinct).mpr ⟨he, rfl⟩), rfl⟩

/-- An event of a merge in which no object disappears. -/
theorem sets_of_mem_changes (hnew : Keyed new) (hmerge : Mergeable first old new)
    (he : e ∈ changes first old new) : Sets old new e ∧ ∃ k v, new[k]? = some v ∧
      changeOf first old k v = some e ∧ e.obj.key = k := by
  rcases List.mem_append.mp he with he | he
  · obtain ⟨⟨k, v⟩, hp, hchange⟩ := List.mem_filterMap.mp he
    have hv := BTreeMap.mem_toList.mp hp
    have hkey : v.key = k := hnew k v hv
    have hchange' := hchange
    unfold changeOf at hchange
    dsimp only at hchange
    rcases hk : old[k]? with _ | o
    · rw [hk] at hchange
      obtain rfl := Option.some.inj hchange
      exact ⟨⟨Or.inl rfl, by rw [hkey, hv]⟩, k, v, hv, hchange', hkey⟩
    · rw [hk] at hchange
      dsimp only at hchange
      split at hchange
      next =>
        obtain rfl := Option.some.inj hchange
        exact ⟨⟨Or.inr ⟨rfl, rfl, by rw [hkey, hk]⟩, by rw [hkey, hv]⟩, k, v, hv, hchange', hkey⟩
      next => cases hchange
  · obtain ⟨⟨k, o⟩, hp, hgone⟩ := List.mem_filterMap.mp he
    obtain ⟨v, hv, -⟩ := hmerge.kept k o (BTreeMap.mem_toList.mp hp)
    unfold goneOf at hgone
    have hcontains : new.contains k = true := by
      rw [Std.ExtTreeMap.contains_iff_mem, ← Std.ExtTreeMap.isSome_getElem?_iff_mem, hv]
      rfl
    dsimp only at hgone
    rw [if_pos hcontains] at hgone
    cases hgone

theorem nodup_merge_keys (hnew : Keyed new) (hmerge : Mergeable first old new) :
    ((merge first old new).map fun e => e.obj.key).Nodup := by
  refine List.Nodup.map_on ?_ nodup_merge
  intro e he e' he' hkey
  rw [mem_merge hmerge.distinct] at he he'
  obtain ⟨-, k, v, hv, hchange, hk⟩ := sets_of_mem_changes hnew hmerge he
  obtain ⟨-, k', v', hv', hchange', hk'⟩ := sets_of_mem_changes hnew hmerge he'
  have hkk : k = k' := hk.symm.trans (hkey.trans hk')
  subst hkk
  obtain rfl := Option.some.inj (hv.symm.trans hv')
  exact Option.some.inj (hchange.symm.trans hchange')

/-- **Merge.** The events of a merge lead from the old store to the new one. -/
theorem leads_merge (hnew : Keyed new) (hmerge : Mergeable first old new) :
    Leads old (merge first old new) new := by
  refine leads_of_sets (nodup_merge_keys hnew hmerge) (fun e he => ?_) fun k hk => ?_
  · rw [mem_merge hmerge.distinct] at he
    exact (sets_of_mem_changes hnew hmerge he).1
  · have hnone : ∀ v, new[k]? = some v → changeOf first old k v = none := by
      intro v hv
      rcases hchange : changeOf first old k v with _ | e
      · rfl
      · have he : e ∈ changes first old new :=
          List.mem_append_left _ (List.mem_filterMap.mpr ⟨(k, v),
            BTreeMap.mem_toList.mpr hv, hchange⟩)
        obtain ⟨hsets, -⟩ := sets_of_mem_changes hnew hmerge he
        refine absurd ?_ (hk e ((mem_merge hmerge.distinct).mpr he))
        unfold changeOf at hchange
        split at hchange
        next =>
          obtain rfl := Option.some.inj hchange
          exact hnew k v hv
        next =>
          split at hchange
          next =>
            obtain rfl := Option.some.inj hchange
            exact hnew k v hv
          next => cases hchange
    rcases hv : new[k]? with _ | v
    · rcases ho : old[k]? with _ | o
      · rfl
      · obtain ⟨v, hv', -⟩ := hmerge.kept k o ho
        rw [hv] at hv'
        cases hv'
    · have hchange := hnone v hv
      unfold changeOf at hchange
      rcases ho : old[k]? with _ | o
      · rw [ho] at hchange
        cases hchange
      · rw [ho] at hchange
        obtain ⟨v', hv', hle⟩ := hmerge.kept k o ho
        obtain rfl := Option.some.inj (hv.symm.trans hv')
        rcases hle with hlt | rfl
        · dsimp only at hchange
          rw [if_pos hlt] at hchange
          cases hchange
        · rfl

/-- A new handler is given all objects. -/
theorem leads_replay {m : Objects V} (hm : Keyed m) :
    Leads ∅ ((m.toList.map Prod.snd).map Informer.replayed) m := by
  have hkey : ∀ p ∈ m.toList, p.2.key = p.1 := fun p hp => hm p.1 p.2 (BTreeMap.mem_toList.mp hp)
  refine leads_of_sets ?_ (fun e he => ?_) fun k hk => ?_
  · rw [List.map_map, List.map_map]
    refine List.Nodup.map_on ?_ (BTreeMap.nodup_toList m)
    intro p hp q hq heq
    replace heq : p.2.key = q.2.key := heq
    rw [hkey p hp, hkey q hq] at heq
    have hp' := BTreeMap.mem_toList.mp hp
    have hq' := BTreeMap.mem_toList.mp hq
    rw [heq] at hp'
    exact Prod.ext heq (Option.some.inj (hp'.symm.trans hq'))
  · obtain ⟨o, ho, rfl⟩ := List.mem_map.mp he
    obtain ⟨p, hp, rfl⟩ := List.mem_map.mp ho
    refine ⟨Or.inl rfl, ?_⟩
    show m[p.2.key]? = some p.2
    rw [hkey p hp]
    exact BTreeMap.mem_toList.mp hp
  · rw [Std.ExtTreeMap.getElem?_empty]
    rcases ho : m[k]? with _ | o
    · rfl
    · have hp := BTreeMap.mem_toList.mpr ho
      refine absurd (hkey _ hp) (hk (Informer.replayed o) ?_)
      exact List.mem_map_of_mem (List.mem_map.mpr ⟨(k, o), hp, rfl⟩)

end Merge

namespace Informer

/-- **The promise about a state.** What each registered handler has been given
leads, together with what is still to be distributed, to the store. -/
def Agrees (x : Informer V) : Prop :=
  ∀ h ∈ x.handlers, h.replay = none → Leads ∅ (h.given ++ x.pending) x.store

/-- Is a handler being added? -/
def Joining (x : Informer V) : Prop := ∃ h ∈ x.handlers, h.replay.isSome

/-- When does a step keep the handlers up to date? -/
def StepOk (x : Informer V) : InformerInput V → Prop
  | .initList first objs _ => ¬ x.Joining ∧
    ∀ new, storeOfList objs = some new → Mergeable first x.store new
  | .watch e => ¬ x.Joining ∧ (x.seen e = false →
    (e.type = .added → x.store[e.obj.key]? = none) ∧
    (e.type = .modified → x.store[e.obj.key]? ≠ none))
  | .addHandler => x.pending = []
  | _ => True

/-! ## Runs -/

/-- What holds in every state of a run. -/
structure Inv (x : Informer V) : Prop where
  /-- objects are stored under their key -/
  keyed : Keyed x.store
  /-- the registered handlers are up to date -/
  agrees : x.Agrees
  /-- a handler that is being added will be, and meanwhile nothing changes -/
  joining : ∀ h ∈ x.handlers, ∀ rest, h.replay = some rest →
    x.pending = [] ∧ Leads ∅ (h.given ++ rest.map replayed) x.store

variable {x y : Informer V}

/-- The store changes while no handler is being added, and the events of the
change lead from the old store to the new one. -/
theorem Inv.change (h : Inv x) (hpending : x.pending = []) (hjoin : ¬ x.Joining)
    (hhandlers : y.handlers = x.handlers) (hkeyed : Keyed y.store)
    (hleads : Leads x.store y.pending y.store) : Inv y := by
  refine ⟨hkeyed, fun k hk hreplay => ?_, fun k hk rest hreplay => ?_⟩
  · rw [hhandlers] at hk
    have hold := h.agrees k hk hreplay
    rw [hpending, List.append_nil] at hold
    exact hold.append hleads
  · rw [hhandlers] at hk
    exact absurd ⟨k, hk, by rw [hreplay]; rfl⟩ hjoin

theorem Inv.initList [Inhabited V] (h : Inv x) {first : Bool} {objs : List (DataObject V)} {rev : ℤ}
    (hpending : x.pending = []) (hjoin : ¬ x.Joining)
    (hok : ∀ new, storeOfList objs = some new → Mergeable first x.store new) :
    Inv (x.initList first objs rev) := by
  unfold Informer.initList
  split
  next =>
    refine h.change hpending hjoin rfl h.keyed ?_
    show Leads x.store x.pending x.store
    rw [hpending]
    exact .nil
  next new hnew =>
    have hkeyed := keyed_storeOfList hnew
    refine h.change hpending hjoin rfl hkeyed ((leads_merge hkeyed (hok new hnew)).append ?_)
    unfold initDone
    split
    next => exact .idle rfl nofun nofun
    next => exact .nil

theorem Inv.watch (h : Inv x) {e : WatchEvent V} (hpending : x.pending = [])
    (hok : x.StepOk (.watch e)) (hnext : x.watch e = some y) : Inv y := by
  obtain ⟨hjoin, htype⟩ := hok
  have hquiet : Inv { x with revision := e.obj.channelRev } := by
    refine h.change hpending hjoin rfl h.keyed ?_
    show Leads x.store x.pending x.store
    rw [hpending]
    exact .nil
  unfold Informer.watch at hnext
  dsimp only at hnext
  split at hnext
  next =>
    obtain rfl := Option.some.inj hnext
    exact hquiet
  next hseen =>
    obtain ⟨hadded, hmodified⟩ := htype (Bool.eq_false_iff.mpr hseen)
    split at hnext
    next ht =>
      obtain rfl := Option.some.inj hnext
      have habsent := hadded ht
      refine h.change hpending hjoin rfl (h.keyed.insert rfl) ?_
      have hok' : (storeAdd x.store e.obj).2 = true := by
        simp [storeAdd, Std.ExtTreeMap.contains_eq_isSome_getElem?, habsent]
      show Leads x.store (if (storeAdd x.store e.obj).2 then _ else _)
        (x.store.insert e.obj.key e.obj)
      rw [if_pos hok']
      refine .cons ?_ .nil
      rintro (hm | hm)
      · cases hm
      · cases hm
    next ht =>
      obtain rfl := Option.some.inj hnext
      obtain ⟨old, hold⟩ := Option.ne_none_iff_exists'.mp (hmodified ht)
      refine h.change hpending hjoin rfl (h.keyed.insert rfl) ?_
      show Leads x.store ((x.store[e.obj.key]?).toList.map _) (x.store.insert e.obj.key e.obj)
      rw [hold]
      exact .cons (fun _ => ⟨rfl, hold.symm⟩) .nil
    next ht =>
      obtain rfl := Option.some.inj hnext
      refine h.change hpending hjoin rfl h.keyed.erase ?_
      show Leads x.store ((x.store[e.obj.key]?).toList.map _) (x.store.erase e.obj.key)
      rcases hold : x.store[e.obj.key]? with _ | old
      · rw [BTreeMap.erase_eq_self hold]
        exact .nil
      · exact .cons (fun _ => ⟨rfl, hold.symm⟩) .nil
    next => cases hnext

theorem Inv.distribute (h : Inv x) {e : DeltaEvent V} {rest : List (DeltaEvent V)}
    (hpending : x.pending = e :: rest) : Inv (x.distribute e rest) := by
  have hnone : ∀ k ∈ x.handlers, k.replay = none := by
    intro k hk
    rcases hreplay : k.replay with _ | l
    · rfl
    · have hnil := (h.joining k hk l hreplay).1
      rw [hpending] at hnil
      cases hnil
  refine ⟨h.keyed, fun k hk _ => ?_, fun k hk l hreplay => ?_⟩
  · obtain ⟨k', hk', rfl⟩ := List.mem_map.mp hk
    have hreplay := hnone k' hk'
    have hold := h.agrees k' hk' hreplay
    rw [hpending] at hold
    rw [hreplay]
    show Leads ∅ ((k'.given ++ [e]) ++ rest) x.store
    rw [List.append_assoc, List.singleton_append]
    exact hold
  · obtain ⟨k', hk', rfl⟩ := List.mem_map.mp hk
    have hreplay' := hnone k' hk'
    rw [hreplay'] at hreplay
    replace hreplay : (none : Option (List (DataObject V))) = some l := hreplay
    cases hreplay

theorem Inv.addHandler (h : Inv x) (hpending : x.pending = []) :
    Inv { x with handlers := x.handlers ++ [{ replay := some (x.store.toList.map Prod.snd) }] } := by
  refine ⟨h.keyed, fun k hk hreplay => ?_, fun k hk rest hreplay => ?_⟩
  · rcases List.mem_append.mp hk with hk | hk
    · exact h.agrees k hk hreplay
    · rw [List.mem_singleton.mp hk] at hreplay
      cases hreplay
  · rcases List.mem_append.mp hk with hk | hk
    · exact h.joining k hk rest hreplay
    · obtain rfl := List.mem_singleton.mp hk
      obtain rfl := Option.some.inj hreplay
      exact ⟨hpending, leads_replay h.keyed⟩

/-- A handler that is being added takes a step and stays on the way to the
store. -/
theorem Inv.join (h : Inv x) {i : ℕ} {k k' : HandlerState V} {rest : List (DataObject V)}
    (hk : x.handlers[i]? = some k) (hreplay : k.replay = some rest)
    (hgiven : k'.given ++ (k'.replay.getD []).map replayed = k.given ++ rest.map replayed) :
    Inv { x with handlers := x.handlers.set i k' } := by
  obtain ⟨hpending, hleads⟩ := h.joining k (List.mem_of_getElem? hk) rest hreplay
  rw [← hgiven] at hleads
  refine ⟨h.keyed, fun u hu hu' => ?_, fun u hu l hu' => ?_⟩
  · rcases List.mem_or_eq_of_mem_set hu with hu | rfl
    · exact h.agrees u hu hu'
    · rw [hu', Option.getD_none, List.map_nil, List.append_nil] at hleads
      show Leads ∅ (u.given ++ x.pending) x.store
      rw [hpending, List.append_nil]
      exact hleads
  · rcases List.mem_or_eq_of_mem_set hu with hu | rfl
    · exact h.joining u hu l hu'
    · rw [hu', Option.getD_some] at hleads
      exact ⟨hpending, hleads⟩

theorem Inv.next [Inhabited V] (h : Inv x) {c : InformerInput V} (hok : x.StepOk c)
    (hnext : x.next c = some y) : Inv y := by
  cases c with
  | initList first objs rev =>
    dsimp only [Informer.next] at hnext
    split at hnext
    next hpending =>
      obtain rfl := Option.some.inj hnext
      exact h.initList (List.isEmpty_iff.mp hpending) hok.1 hok.2
    next => cases hnext
  | watch e =>
    dsimp only [Informer.next] at hnext
    split at hnext
    next hpending => exact h.watch (List.isEmpty_iff.mp hpending) hok hnext
    next => cases hnext
  | distribute =>
    dsimp only [Informer.next] at hnext
    split at hnext
    next => cases hnext
    next hpending =>
      obtain rfl := Option.some.inj hnext
      exact h.distribute hpending
  | addHandler =>
    obtain rfl := Option.some.inj hnext
    exact h.addHandler hok
  | replay i =>
    obtain ⟨k, hk, hnext⟩ := Option.bind_eq_some_iff.mp hnext
    obtain ⟨k', hstep, hnext⟩ := Option.bind_eq_some_iff.mp hnext
    obtain rfl := Option.some.inj hnext
    unfold replayStep at hstep
    split at hstep
    next obj rest hreplay =>
      obtain rfl := Option.some.inj hstep
      exact h.join hk hreplay (by simp)
    next => cases hstep
  | register i =>
    obtain ⟨k, hk, hnext⟩ := Option.bind_eq_some_iff.mp hnext
    obtain ⟨k', hstep, hnext⟩ := Option.bind_eq_some_iff.mp hnext
    obtain rfl := Option.some.inj hnext
    unfold registerStep at hstep
    split at hstep
    next hreplay =>
      obtain rfl := Option.some.inj hstep
      exact h.join hk hreplay rfl
    next => cases hstep

/-- A new informer. -/
structure Start (x : Informer V) : Prop where
  /-- no objects -/
  store : x.store = ∅
  /-- nothing to distribute -/
  pending : x.pending = []
  /-- no handlers -/
  handlers : x.handlers = []

/-- **Handlers see the store.** In every run whose steps keep to `StepOk`, what a
registered handler has been given, with what is still to be distributed, leads
to the store, and every modification and deletion carries the object it
replaces. -/
theorem agrees_of_reach [Inhabited V] (h : Reach next Start StepOk x) : x.Agrees := by
  have hinv : Inv x := by
    refine h.invariant (fun x hx => ?_) fun x c y hx hok hnext => hx.next hok hnext
    refine ⟨hx.store ▸ Keyed.empty, fun k hk => ?_, fun k hk => ?_⟩
    · rw [hx.handlers] at hk
      cases hk
    · rw [hx.handlers] at hk
      cases hk
  exact hinv.agrees

end Informer

/-! ## Two runs -/

namespace Sample

/-- A small object. -/
def obj (name : String) (rev n : ℤ) : DataObject ℤ where
  objType := "pod"
  tenant := "t"
  nameSpace := "n"
  name := name
  revision := rev
  object := n

/-- A handler is added to a new informer, then a list with one object comes. -/
def listed : List (InformerInput ℤ) :=
  [.addHandler, .register 0, .initList true [obj "a" 1 1] 2, .distribute, .distribute]

/-- The object is gone when the list is loaded again. -/
def reloaded : List (InformerInput ℤ) := listed ++ [.initList false [] 3, .distribute]

/-- The state after some steps. -/
def told (l : List (InformerInput ℤ)) : Informer ℤ :=
  (exec Informer.next (fun _ _ => True) {} l).getD {}

end Sample

theorem Informer.start_empty : Informer.Start ({} : Informer ℤ) := ⟨rfl, rfl, rfl⟩

/-- A handler is told about the first list. -/
theorem Informer.agrees_after_list : (Sample.told (Sample.listed.take 3)).Agrees := by
  refine Informer.agrees_of_reach (.step (c := .initList true [Sample.obj "a" 1 1] 2)
    (.step (c := .register 0) (.step (c := .addHandler)
      (.init Informer.start_empty) rfl rfl) trivial
      rfl) ⟨?_, fun new hnew => ⟨fun k o ho => ?_, ?_⟩⟩ rfl)
  · rintro ⟨h, hh, hreplay⟩
    have hall : ∀ h ∈ (Sample.told (Sample.listed.take 2)).handlers, h.replay.isSome = false := by
      decide +kernel
    exact absurd hreplay (by rw [hall h hh]; exact Bool.false_ne_true)
  · have hstore : (Sample.told (Sample.listed.take 2)).store = ∅ := rfl
    replace ho : (Sample.told (Sample.listed.take 2)).store[k]? = some o := ho
    rw [hstore, Std.ExtTreeMap.getElem?_empty] at ho
    cases ho
  · have hdistinct : ∀ new ∈ storeOfList [Sample.obj "a" 1 1],
        ((changes true (Sample.told (Sample.listed.take 2)).store new).map
          DeltaEvent.epochRevision).Nodup := by
      decide +kernel
    exact hdistinct new hnew

/-- The deletion that a reload finds is reported without the old object. -/
theorem Informer.reload_without_oldObj : ¬ ∀ x : Informer ℤ,
    Reach Informer.next Informer.Start (fun _ _ => True) x → x.Agrees := by
  intro h
  have hsome : (exec Informer.next (fun _ _ => True) {} Sample.reloaded).isSome = true := by
    decide +kernel
  obtain ⟨x, hx⟩ := Option.isSome_iff_exists.mp hsome
  have htold : Sample.told Sample.reloaded = x := by
    unfold Sample.told
    rw [hx, Option.getD_some]
  have hagrees := h x (Reach.of_exec _ _ (.init Informer.start_empty) hx)
  rw [← htold] at hagrees
  have hbad : ∃ k ∈ (Sample.told Sample.reloaded).handlers, k.replay = none ∧
      ∃ e ∈ k.given ++ (Sample.told Sample.reloaded).pending, e.type = .deleted ∧
      e.oldObj = none := by
    decide +kernel
  obtain ⟨k, hk, hreplay, e, he, htype, hold⟩ := hbad
  have hold' := (hagrees k hk hreplay).oldObj_isSome e he (Or.inr htype)
  rw [hold] at hold'
  cases hold'

end Inferx.Metastore
