import Inferx.Metastore.Objects

/-!
# The cache store

The server side of a watch: `cacheStore` holds the current objects of one type,
`cache` the last two thousand events, and `watchers` the open watches with what
has been sent to each of them and not been taken yet. `processEvent` is the only
way an object changes. It drops an event that is not newer than the object it is
about, sends what is left to every watcher that selects it, keeps it in the ring
and applies it.

The channel revision is counted by all cache stores together, so `processEvent`
is given the revision it has drawn. A watcher whose channel is full or has no
receiver any more is dropped; which ones these are is not decided here (`full`).
-/

namespace Inferx.Metastore

variable {V : Type}

/-! ## The ring -/

/-- An event as the ring keeps it. -/
structure WatchCacheEvent (V : Type) where
  /-- what happened -/
  type : EventType
  /-- the object after it -/
  obj : DataObject V
  /-- the object before it -/
  prevObj : Option (DataObject V)
  /-- revision of the channel -/
  channelRev : ℤ
  /-- revision of the object -/
  revision : ℤ
  deriving DecidableEq

/-- The key of the object. -/
def WatchCacheEvent.key (e : WatchCacheEvent V) : String := e.obj.key

/-- How many events the ring holds. -/
def defaultCacheCount : ℕ := 2000

/-- The last events, oldest first. The two counters of the source are `head` and
`head + events.length`. -/
structure RingBuf (V : Type) where
  /-- the events between head and tail -/
  events : List (WatchCacheEvent V) := []
  /-- how many events have been overwritten -/
  head : ℕ := 0
  deriving DecidableEq

namespace RingBuf

/-- How many events have been pushed since the last reset. -/
def tail (r : RingBuf V) : ℕ := r.head + r.events.length

/-- `RingBuf::Push`: a full ring loses its oldest event. -/
def push (r : RingBuf V) (e : WatchCacheEvent V) : RingBuf V :=
  if r.events.length = defaultCacheCount then ⟨r.events.tail ++ [e], r.head + 1⟩
  else ⟨r.events ++ [e], r.head⟩

/-- `RingBuf::GetAllEvents`: from a channel revision on, those whose object
matches. -/
def getAllEvents (r : RingBuf V) (startRev : ℤ) (pred : DataObject V → Bool) :
    List (WatchCacheEvent V) :=
  r.events.filter fun e => decide (startRev ≤ e.channelRev) && pred e.obj

end RingBuf

/-! ## Watchers -/

/-- An open watch. -/
structure CacheWatcher (V : Type) where
  /-- a prefix of the keys it is about -/
  nameSpace : String
  /-- the predicate of its selection -/
  predicate : DataObject V → Bool
  /-- what has been sent on it and not been taken yet, oldest first -/
  sent : List (WatchEvent V) := []

namespace CacheWatcher

/-- `CacheWatcher::Match`. -/
def matchObj (w : CacheWatcher V) (objKey : String) (obj : DataObject V) : Bool :=
  w.nameSpace.toList.isPrefixOf objKey.toList && w.predicate obj

/-- `CacheWatcher::ConvertToWatchEvent`: the event as this watch sees it. -/
def convertToWatchEvent (w : CacheWatcher V) (e : WatchCacheEvent V) : Option (WatchEvent V) :=
  let curObjPasses := e.type != .deleted && w.matchObj e.key e.obj
  let oldObjPasses := e.prevObj.any (w.matchObj e.key)
  if curObjPasses && oldObjPasses then some ⟨.modified, e.obj⟩
  else if curObjPasses && !oldObjPasses then some ⟨.added, e.obj⟩
  else if !curObjPasses && oldObjPasses then
    e.prevObj.map fun old => ⟨.deleted, old.copyWithRev e.channelRev e.revision⟩
  else none

/-- `CacheWatcher::SendWatchCacheEvent`, where the channel has room. -/
def send (w : CacheWatcher V) (e : WatchCacheEvent V) : CacheWatcher V :=
  { w with sent := w.sent ++ (w.convertToWatchEvent e).toList }

end CacheWatcher

/-! ## The store -/

/-- `CacheStoreInner`. -/
structure CacheStore (V : Type) where
  /-- the kind of objects -/
  objectType : String
  /-- the last events -/
  cache : RingBuf V := {}
  /-- revision of the last list; never set -/
  listRevision : ℤ := 0
  /-- the last id given to a watch -/
  lastWatcherId : ℕ := 0
  /-- the objects -/
  cacheStore : Objects V := ∅
  /-- the open watches -/
  watchers : BTreeMap ℕ (CacheWatcher V) := ∅

namespace CacheStore

/-- Is the event not newer than the object it is about? -/
def stale (cs : CacheStore V) (e : WatchEvent V) : Bool :=
  cs.cacheStore[e.obj.key]?.any fun o => decide (e.obj.revision ≤ o.revision)

/-- The event with what it replaces. -/
def cacheEvent (cs : CacheStore V) (channelRev : ℤ) (e : WatchEvent V) : WatchCacheEvent V where
  type := e.type
  obj := e.obj.copyWithRev channelRev e.obj.revision
  prevObj := cs.cacheStore[e.obj.key]?
  channelRev := channelRev
  revision := e.obj.revision

/-- `CacheStoreInner::ProcessEvent` with the channel revision it has drawn. -/
def processEvent (full : ℕ → Bool) (channelRev : ℤ) (e : WatchEvent V) (cs : CacheStore V) :
    CacheStore V :=
  if cs.stale e then cs
  else
    let wcEvent := cs.cacheEvent channelRev e
    { cs with
      watchers := (cs.watchers.filter fun id w =>
        (w.convertToWatchEvent wcEvent).isNone || !full id).map fun _ w => w.send wcEvent
      cache := cs.cache.push wcEvent
      cacheStore :=
        if e.type = .deleted then cs.cacheStore.erase e.obj.key
        else cs.cacheStore.insert e.obj.key (e.obj.copyWithRev channelRev e.obj.revision) }

/-- `CacheStoreInner::GetAllEventsFromStore`. -/
def getAllEventsFromStore (cs : CacheStore V) (pred : DataObject V → Bool) :
    List (WatchCacheEvent V) :=
  ((cs.cacheStore.toList.map Prod.snd).filter pred).map fun obj =>
    ⟨.added, obj, none, obj.channelRev, obj.revision⟩

/-- The oldest event that can be delivered, if the ring tells. -/
def oldest (cs : CacheStore V) : Option ℤ :=
  if 0 ≤ cs.listRevision ∧ cs.cache.tail = 0 then some (cs.listRevision + 1)
  else cs.cache.events.head?.map WatchCacheEvent.channelRev

/-- `CacheStoreInner::GetAllEvents`: what a watch from a channel revision on
starts with. -/
def getAllEvents (cs : CacheStore V) (revision : ℤ) (pred : DataObject V → Bool) :
    Except String (List (WatchCacheEvent V)) :=
  match cs.oldest with
  | none => .error ("CacheStoreInner: watch cache isn't correctly initialized " ++
      s!"self.listRevision = {cs.listRevision} tail = {cs.cache.tail}")
  | some oldest =>
    if revision = 0 then .ok (cs.getAllEventsFromStore pred)
    else if revision < oldest - 1 then
      .error s!"too old resource version: {revision} ({oldest - 1})"
    else .ok (cs.cache.getAllEvents revision pred)

/-- `CacheStoreInner::Watch`: a watch is opened and sent what it starts with. -/
def watch (cs : CacheStore V) (nameSpace : String) (revision : ℤ)
    (predicate : DataObject V → Bool) :
    CacheStore V × Option ℕ :=
  let wid := cs.lastWatcherId + 1
  match cs.getAllEvents revision predicate with
  | .error _ => ({ cs with lastWatcherId := wid }, none)
  | .ok events =>
    let watcher := events.foldl CacheWatcher.send ⟨nameSpace, predicate, []⟩
    ({ cs with lastWatcherId := wid, watchers := cs.watchers.insert wid watcher }, some wid)

/-- The prefix of the keys a list is about. -/
def listPrefix (tenant nameSpace : String) : String :=
  if tenant.isEmpty then ""
  else if nameSpace.isEmpty then tenant
  else s!"{tenant}/{nameSpace}"

/-- `CacheStore::List`: the objects, selected by a prefix of the key and a
predicate. -/
def list (cs : CacheStore V) (tenant nameSpace : String) (pred : DataObject V → Bool) :
    List (DataObject V) :=
  (cs.cacheStore.toList.map Prod.snd).filter fun obj =>
    (listPrefix tenant nameSpace).toList.isPrefixOf obj.key.toList && pred obj

/-- `EtcdStore::InitCacheStore`, once it has the list: everything is dropped and
the objects are added anew; each draws a revision, the first one `c + 1`. -/
def rebuild (full : ℕ → Bool) (c : ℤ) (objs : List (DataObject V)) (cs : CacheStore V) :
    CacheStore V :=
  (objs.foldl (fun (p : CacheStore V × ℤ) o =>
    (p.1.processEvent full (p.2 + 1) ⟨.added, o⟩, p.2 + 1))
    ({ cs with watchers := ∅, cacheStore := ∅, cache := {} }, c)).1

variable {full : ℕ → Bool} {c : ℤ} {e : WatchEvent V} {cs : CacheStore V}

/-- The object an event leaves behind. -/
def left (c : ℤ) (e : WatchEvent V) : Option (DataObject V) :=
  if e.type = .deleted then none else some (e.obj.copyWithRev c e.obj.revision)

/-- An event on a key without an object always applies. -/
theorem processEvent_absent (h : cs.cacheStore[e.obj.key]? = none) :
    (cs.processEvent full c e).cacheStore[e.obj.key]? = left c e := by
  have hfresh : cs.stale e = false := by simp [stale, h]
  by_cases hdel : e.type = .deleted
  · simp [processEvent, hfresh, left, hdel]
  · simp [processEvent, hfresh, left, hdel]

/-- A newer event applies. -/
theorem processEvent_newer {o : DataObject V} (h : cs.cacheStore[e.obj.key]? = some o)
    (hrev : o.revision < e.obj.revision) :
    (cs.processEvent full c e).cacheStore[e.obj.key]? = left c e := by
  have hfresh : cs.stale e = false := by simp [stale, h, hrev]
  by_cases hdel : e.type = .deleted
  · simp [processEvent, hfresh, left, hdel]
  · simp [processEvent, hfresh, left, hdel]

/-- A newer event leaves in the store what it says. -/
theorem get_processEvent_self (hstale : cs.stale e = false) :
    (cs.processEvent full c e).cacheStore[e.obj.key]? = left c e := by
  rcases ho : cs.cacheStore[e.obj.key]? with _ | o
  · exact processEvent_absent ho
  · refine processEvent_newer ho ?_
    simpa [stale, ho] using hstale

/-- An event that is not newer changes nothing. -/
theorem processEvent_of_stale (h : cs.stale e = true) : cs.processEvent full c e = cs := by
  unfold processEvent
  rw [if_pos h]

theorem processEvent_stale {o : DataObject V} (h : cs.cacheStore[e.obj.key]? = some o)
    (hrev : e.obj.revision ≤ o.revision) : cs.processEvent full c e = cs :=
  processEvent_of_stale (by simp [stale, h, hrev])

/-- An event is about one key. -/
theorem processEvent_of_ne {k : String} (h : k ≠ e.obj.key) :
    (cs.processEvent full c e).cacheStore[k]? = cs.cacheStore[k]? := by
  unfold processEvent
  split
  next => rfl
  next =>
    dsimp only
    split
    next => exact BTreeMap.get_erase_of_ne h
    next => exact BTreeMap.get_insert_of_ne h

/-- An object after an event was there before, or is the object of the event. -/
theorem get_processEvent {k : String} {o : DataObject V}
    (h : (cs.processEvent full c e).cacheStore[k]? = some o) :
    cs.cacheStore[k]? = some o ∨ e.obj.key = k ∧ o = e.obj.copyWithRev c e.obj.revision := by
  unfold processEvent at h
  split at h
  next => exact Or.inl h
  next =>
    dsimp only at h
    split at h
    next =>
      rw [BTreeMap.get_erase] at h
      split at h
      next => cases h
      next => exact Or.inl h
    next =>
      rw [BTreeMap.get_insert] at h
      split at h
      next hk => exact Or.inr ⟨hk.symm, (Option.some.inj h).symm⟩
      next => exact Or.inl h

theorem keyed_processEvent (h : Keyed cs.cacheStore) :
    Keyed (cs.processEvent full c e).cacheStore := by
  unfold processEvent
  split
  next => exact h
  next =>
    dsimp only
    split
    next => exact h.erase
    next => exact h.insert rfl

end CacheStore

/-! ## What a watch is sent -/

theorem convertToWatchEvent_congr {w w' : CacheWatcher V} (hns : w.nameSpace = w'.nameSpace)
    (hpred : w.predicate = w'.predicate) : w.convertToWatchEvent = w'.convertToWatchEvent := by
  have hmatch : w.matchObj = w'.matchObj := by
    funext k o
    simp only [CacheWatcher.matchObj, hns, hpred]
  funext e
  simp only [CacheWatcher.convertToWatchEvent, hmatch]

/-- What a watch starts with is what it makes of the events. -/
theorem sent_foldl_send (w : CacheWatcher V) (l : List (WatchCacheEvent V)) :
    l.foldl CacheWatcher.send w = { w with sent := w.sent ++ l.filterMap w.convertToWatchEvent } := by
  induction l generalizing w with
  | nil => simp
  | cons a l ih =>
    rw [List.foldl_cons, ih]
    have hconvert : (w.send a).convertToWatchEvent = w.convertToWatchEvent :=
      convertToWatchEvent_congr rfl rfl
    rw [hconvert, List.filterMap_cons]
    unfold CacheWatcher.send
    rcases w.convertToWatchEvent a with _ | ev
    · simp
    · simp

theorem watchers_processEvent {cs : CacheStore V} {e : WatchEvent V} (full : ℕ → Bool) (c : ℤ)
    (hstale : cs.stale e = false) (id : ℕ) :
    (cs.processEvent full c e).watchers[id]? =
      (cs.watchers[id]?.filter fun w =>
        (w.convertToWatchEvent (cs.cacheEvent c e)).isNone || !full id).map
        fun w => w.send (cs.cacheEvent c e) := by
  unfold CacheStore.processEvent
  rw [hstale]
  simp only [Bool.false_eq_true, ↓reduceIte, Std.ExtTreeMap.getElem?_map,
    Std.ExtTreeMap.getElem?_filter']

end Inferx.Metastore
