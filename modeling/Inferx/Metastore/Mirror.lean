import Mathlib.Data.List.Nodup
import Inferx.Metastore.CacheStore
import Inferx.Metastore.Informer

/-!
# An informer and the cache store it watches

The two ends of a watch together: a cache store that processes events and is
rebuilt now and then, an informer that lists it once and then watches it, the
answer to its list while that is on its way, and the stream between them, which may break at any point and is opened again from
the revision of the last event the informer has taken. A stream is reliable and
ordered until it breaks: the events that are on their way are the `queue` of the
stream and what the watcher has sent and the stream has not taken over.

While a stream lasts, what the informer holds with the events on their way
applied to it is what the store holds. When a stream is opened again the ring
has to replay what was missed, and the whole argument is that replaying from the
informer's revision on leads to the store (`Ready`). Four things break it: a
rebuild forgets what was deleted; the ring may have lost the event right after
the informer's revision; the replay drops an event whose new object no longer
passes the predicate; and a list selects by tenant and namespace, a watch by a
prefix that is the namespace alone.
-/

namespace Inferx.Metastore

variable {V : Type}

/-! ## The server -/

/-- What an informer asks for. -/
structure Selection (V : Type) where
  /-- the tenant, or nothing for all of them -/
  tenant : String
  /-- the namespace, or nothing for all of them -/
  nameSpace : String
  /-- the predicate, on labels and fields -/
  pred : DataObject V → Bool
  /-- the predicate does not read the revisions -/
  pred_copyWithRev : ∀ o c r, pred (DataObject.copyWithRev o c r) = pred o

namespace Selection

/-- Is the object one of those a list with this selection has? -/
def selects (sel : Selection V) (o : DataObject V) : Bool :=
  (CacheStore.listPrefix sel.tenant sel.nameSpace).toList.isPrefixOf o.key.toList && sel.pred o

/-- A watch with this selection, as the server opens it. -/
def watcher (sel : Selection V) : CacheWatcher V := ⟨sel.nameSpace, sel.pred, []⟩

/-- A list and a watch agree on whether the key is selected. -/
def Uniform (sel : Selection V) (k : String) : Prop :=
  (CacheStore.listPrefix sel.tenant sel.nameSpace).toList.isPrefixOf k.toList =
    sel.nameSpace.toList.isPrefixOf k.toList

instance (sel : Selection V) (k : String) : Decidable (sel.Uniform k) :=
  inferInstanceAs (Decidable (_ = _))

/-- The events a watch makes of the ring's. -/
def convert (sel : Selection V) (l : List (WatchCacheEvent V)) : List (WatchEvent V) :=
  l.filterMap sel.watcher.convertToWatchEvent

end Selection

/-- The server: a cache store and the channel revision it shares with others. -/
structure Server (V : Type) where
  /-- the cache store -/
  cs : CacheStore V
  /-- the last revision drawn -/
  channelRev : ℤ
  /-- all events since the last rebuild, oldest first; the ring has the last ones -/
  history : List (WatchCacheEvent V) := []

namespace Server

/-- The store processes an event. -/
def process (full : ℕ → Bool) (s : Server V) (e : WatchEvent V) : Server V where
  cs := s.cs.processEvent full (s.channelRev + 1) e
  channelRev := s.channelRev + 1
  history :=
    if s.cs.stale e then s.history else s.history ++ [s.cs.cacheEvent (s.channelRev + 1) e]

/-- Everything is dropped. -/
def cleared (s : Server V) : Server V :=
  { s with cs := { s.cs with watchers := ∅, cacheStore := ∅, cache := {} }, history := [] }

/-- `EtcdStore::InitCacheStore`: the store is rebuilt from a list. -/
def rebuild (full : ℕ → Bool) (s : Server V) (objs : List (DataObject V)) : Server V :=
  objs.foldl (fun s o => s.process full ⟨.added, o⟩) s.cleared

end Server

/-! ## Both ends -/

/-- A stream of a watch: the watcher at its other end and the events it has taken
over from it. -/
structure Stream (V : Type) where
  /-- the id of the watcher -/
  wid : ℕ
  /-- the events to be delivered -/
  queue : List (WatchEvent V) := []
  deriving DecidableEq

/-- A server and an informer. -/
structure Mirror (V : Type) extends Server V where
  /-- the informer -/
  inf : Informer V := {}
  /-- the answer to the list that is on its way: the objects and the revision -/
  fetched : Option (List (DataObject V) × ℤ) := none
  /-- has the informer got its list? -/
  listed : Bool := false
  /-- the open stream -/
  stream : Option (Stream V) := none

/-- What can happen to them. -/
inductive MirrorInput (V : Type) where
  /-- the store processes an event; the watchers with a full channel are dropped -/
  | process (e : WatchEvent V) (full : ℕ → Bool)
  /-- other stores draw revisions -/
  | others (n : ℕ)
  /-- the store is rebuilt from a list -/
  | rebuild (objs : List (DataObject V)) (full : ℕ → Bool)
  /-- the server answers the informer's list -/
  | list
  /-- the informer merges the answer -/
  | merge
  /-- the informer opens a stream -/
  | watch
  /-- the stream takes over what the watcher has sent -/
  | forward
  /-- the informer takes an event from the stream -/
  | deliver
  /-- the stream breaks -/
  | lose

/-- What has been sent to a watcher and not been taken over. -/
def CacheStore.unsent (cs : CacheStore V) (wid : ℕ) : List (WatchEvent V) :=
  (cs.watchers[wid]?.map CacheWatcher.sent).getD []

/-- Does the informer's store refuse the event? It has been written then, and the
error ends the watch. -/
def Informer.refuses (x : Informer V) (e : WatchEvent V) : Bool :=
  !x.seen e && match e.type with
    | .added => !(storeAdd x.store e.obj).2
    | .modified => (storeUpdate x.store e.obj).2.isNone
    | .deleted => (storeDelete x.store e.obj).2.isNone
    | _ => true

namespace Mirror

/-- The events on their way. -/
def flight (x : Mirror V) : List (WatchEvent V) :=
  match x.stream with
  | none => []
  | some st => st.queue ++ x.cs.unsent st.wid

/-- The server takes a step. Where that drops the watcher of the stream, the
stream still has what was sent to it. -/
def serve (x : Mirror V) (s : Server V) : Mirror V :=
  { x with
    toServer := s
    stream := x.stream.map fun st =>
      if s.cs.watchers.contains st.wid then st
      else { st with queue := st.queue ++ x.cs.unsent st.wid } }

/-- `Informer::InitList` when the answer has come. -/
def merged [Inhabited V] (x : Mirror V) (answer : List (DataObject V) × ℤ) : Mirror V :=
  { x with
    inf := x.inf.initList true answer.1 answer.2
    listed := (storeOfList answer.1).isSome
    fetched := none }

/-- The state with the answer that is on its way merged. -/
def settled [Inhabited V] (x : Mirror V) : Mirror V :=
  match x.fetched with
  | none => x
  | some answer => x.merged answer

/-- One step. The informer asks for the current state when it lists, and
`channelRev + 1` is `ChannelRev::Current`. -/
def next (sel : Selection V) [Inhabited V] (x : Mirror V) : MirrorInput V → Option (Mirror V)
  | .process e full => some (x.serve (x.toServer.process full e))
  | .others n => some { x with channelRev := x.channelRev + n }
  | .rebuild objs full => some (x.serve (x.toServer.rebuild full objs))
  | .list =>
    if x.listed || x.fetched.isSome then none
    else some { x with
      fetched := some (x.cs.list sel.tenant sel.nameSpace sel.pred, x.channelRev + 1) }
  | .merge => x.fetched.map x.merged
  | .watch =>
    if x.listed && x.stream.isNone then
      let (cs, wid) := x.cs.watch sel.nameSpace x.inf.revision sel.pred
      some { x with cs, stream := wid.map fun wid => ⟨wid, []⟩ }
    else none
  | .forward =>
    match x.stream with
    | none => none
    | some st => some { x with
        cs := { x.cs with watchers := x.cs.watchers.modify st.wid fun w => { w with sent := [] } }
        stream := some { st with queue := st.queue ++ x.cs.unsent st.wid } }
  | .deliver =>
    match x.stream with
    | some ⟨wid, e :: rest⟩ => (x.inf.watch e).map fun inf =>
        { x with inf, stream := if x.inf.refuses e then none else some ⟨wid, rest⟩ }
    | _ => none
  | .lose => some { x with stream := none }

end Mirror

/-! ## What the informer should hold -/

/-- The informer's store after an event. -/
def applied (m : Objects V) (e : WatchEvent V) : Objects V :=
  if m[e.obj.key]?.any fun old => decide (e.obj.revision ≤ old.revision) then m
  else if e.type = .deleted then m.erase e.obj.key
  else m.insert e.obj.key e.obj

/-- The revision of the last event, if there is one. -/
def lastRev (r : ℤ) (l : List (WatchEvent V)) : ℤ :=
  (l.getLast?.map fun e => e.obj.channelRev).getD r

/-- The copy agrees with the store about a key: it has the object if and only if
the store has it and it is selected, and then with the same revision. -/
def Matches (sel : Selection V) (m : Objects V) (cs : CacheStore V) (k : String) : Prop :=
  m[k]?.map DataObject.revision = (cs.cacheStore[k]?.filter sel.selects).map DataObject.revision

namespace Mirror

/-- A stream is open, and the server still has its watcher. -/
def Live (x : Mirror V) : Prop := ∃ st, x.stream = some st ∧ x.cs.watchers.contains st.wid = true

/-- **The promise about a state.** When a stream is open and nothing is on its way,
the informer holds the selected objects, each with the same revision. -/
def Mirrored (sel : Selection V) (x : Mirror V) : Prop :=
  x.Live → x.flight = [] → ∀ k, Matches sel x.inf.store x.cs k

/-- The list still has the object, selected and not older. -/
def Listed (sel : Selection V) (objs : List (DataObject V)) (o : DataObject V) : Prop :=
  (∃ o' ∈ objs, o'.key = o.key) ∧
    ∀ o' ∈ objs, o'.key = o.key → sel.selects o' = true ∧ o.revision ≤ o'.revision

/-- When does a step keep the informer in line? In a run this is asked of the state with the answer
that is on its way merged.
* The keys of the store are selected alike by a list and by a watch.
* A rebuild has every object that the informer has or is about to get.
* When a stream is opened, an event that has left the ring would not change the
  informer's store, and the replay does not drop an event that the watch would
  have sent. -/
def StepOk (sel : Selection V) (x : Mirror V) : MirrorInput V → Prop
  | .process e _ => sel.Uniform e.obj.key
  | .rebuild objs _ =>
    (∀ o ∈ objs, sel.Uniform o.key) ∧
    (∀ (k : String) (o : DataObject V), x.inf.store[k]? = some o → Listed sel objs o) ∧
    ∀ e ∈ x.flight, e.type ≠ .deleted → Listed sel objs e.obj
  | .watch =>
    (∀ e ∈ x.history.take x.cs.cache.head, x.inf.revision ≤ e.channelRev →
      ∀ ev ∈ sel.watcher.convertToWatchEvent e, applied x.inf.store ev = x.inf.store) ∧
    ∀ e ∈ x.cs.cache.events, x.inf.revision ≤ e.channelRev →
      (sel.watcher.convertToWatchEvent e).isSome → sel.pred e.obj = true
  | _ => True

/-- A start: nothing has happened yet. -/
structure Start (x : Mirror V) : Prop where
  /-- a new cache store -/
  cs : x.cs = { objectType := x.cs.objectType }
  /-- revisions are counted from zero -/
  channelRev : 0 ≤ x.channelRev
  /-- no events -/
  history : x.history = []
  /-- a new informer -/
  inf : x.inf.store = ∅
  /-- no list is on its way -/
  fetched : x.fetched = none
  /-- not listed -/
  listed : x.listed = false
  /-- no stream -/
  stream : x.stream = none

end Mirror

/-! ## Events on a copy -/

section Applied

variable {m : Objects V} {e : WatchEvent V} {k : String}

theorem applied_of_seen (h : m[e.obj.key]?.any (fun old => decide (e.obj.revision ≤ old.revision)) = true) :
    applied m e = m := by
  unfold applied
  rw [if_pos h]

theorem get_applied_of_ne (h : k ≠ e.obj.key) : (applied m e)[k]? = m[k]? := by
  unfold applied
  split
  next => rfl
  next =>
    split
    next => exact BTreeMap.get_erase_of_ne h
    next => exact BTreeMap.get_insert_of_ne h

/-- An object of the copy was there before, or is the one of the event. -/
theorem get_applied {o : DataObject V} (h : (applied m e)[k]? = some o) :
    m[k]? = some o ∨ e.type ≠ .deleted ∧ e.obj.key = k ∧ e.obj = o := by
  unfold applied at h
  split at h
  next => exact Or.inl h
  next =>
    split at h
    next =>
      rw [BTreeMap.get_erase] at h
      split at h
      next => cases h
      next => exact Or.inl h
    next htype =>
      rw [BTreeMap.get_insert] at h
      split at h
      next hk => exact Or.inr ⟨htype, hk.symm, Option.some.inj h⟩
      next => exact Or.inl h

/-- An event that comes twice changes nothing the second time. -/
theorem applied_applied (m : Objects V) (e : WatchEvent V) : applied (applied m e) e = applied m e := by
  by_cases hseen : m[e.obj.key]?.any (fun old => decide (e.obj.revision ≤ old.revision)) = true
  · rw [applied_of_seen hseen, applied_of_seen hseen]
  · by_cases htype : e.type = .deleted
    · have herase : applied m e = m.erase e.obj.key := by
        unfold applied
        rw [if_neg hseen, if_pos htype]
      rw [herase]
      unfold applied
      split
      next => rfl
      next => exact BTreeMap.erase_eq_self (by rw [BTreeMap.get_erase, if_pos rfl])
    · have hinsert : applied m e = m.insert e.obj.key e.obj := by
        unfold applied
        rw [if_neg hseen, if_neg htype]
      rw [hinsert]
      exact applied_of_seen (by simp)

theorem keyed_applied (h : Keyed m) : Keyed (applied m e) := by
  unfold applied
  split
  next => exact h
  next =>
    split
    next => exact h.erase
    next => exact h.insert rfl

/-- An object of the copy after some events was there before, or is the one of
an event. -/
theorem get_foldl_applied {l : List (WatchEvent V)} {o : DataObject V}
    (h : (l.foldl applied m)[k]? = some o) :
    m[k]? = some o ∨ ∃ e ∈ l, e.type ≠ .deleted ∧ e.obj = o := by
  induction l generalizing m with
  | nil => exact Or.inl h
  | cons e l ih =>
    rcases ih h with h | ⟨e', he', h'⟩
    · rcases get_applied h with h | ⟨htype, -, ho⟩
      · exact Or.inl h
      · exact Or.inr ⟨e, List.mem_cons_self .., htype, ho⟩
    · exact Or.inr ⟨e', List.mem_cons_of_mem _ he', h'⟩

theorem keyed_foldl_applied {l : List (WatchEvent V)} (h : Keyed m) : Keyed (l.foldl applied m) := by
  induction l generalizing m with
  | nil => exact h
  | cons e l ih => exact ih (keyed_applied h)

/-- Events that each change nothing change nothing. -/
theorem foldl_applied_eq_self {l : List (WatchEvent V)} (h : ∀ e ∈ l, applied m e = m) :
    l.foldl applied m = m := by
  induction l with
  | nil => rfl
  | cons e l ih =>
    rw [List.foldl_cons, h e (List.mem_cons_self ..)]
    exact ih fun e' he' => h e' (List.mem_cons_of_mem _ he')

/-- What an event does to an informer. -/
theorem Informer.watch_store {x y : Informer V} (h : x.watch e = some y) :
    y.store = applied x.store e ∧ y.revision = e.obj.channelRev := by
  unfold Informer.watch at h
  dsimp only at h
  split at h
  next hseen =>
    obtain rfl := Option.some.inj h
    exact ⟨(applied_of_seen hseen).symm, rfl⟩
  next hseen =>
    have hstore : applied x.store e =
        if e.type = .deleted then x.store.erase e.obj.key else x.store.insert e.obj.key e.obj := by
      unfold applied
      exact if_neg hseen
    rw [hstore]
    split at h
    next ht =>
      obtain rfl := Option.some.inj h
      have hne : e.type ≠ .deleted := by rw [ht]; exact nofun
      exact ⟨(if_neg hne).symm, rfl⟩
    next ht =>
      obtain rfl := Option.some.inj h
      have hne : e.type ≠ .deleted := by rw [ht]; exact nofun
      exact ⟨(if_neg hne).symm, rfl⟩
    next ht =>
      obtain rfl := Option.some.inj h
      exact ⟨(if_pos ht).symm, rfl⟩
    next => cases h

end Applied

/-! ## What a watch makes of an event -/

section Convert

variable {sel : Selection V} {cs : CacheStore V} {e : WatchEvent V} {c : ℤ} {full : ℕ → Bool}
  {m : Objects V} {k : String}

/-- The object that an event leaves in the store, if it is selected. -/
theorem matchObj_eq {o : DataObject V} (hsel : sel.Uniform k) (hk : o.key = k) :
    sel.watcher.matchObj k o = sel.selects o := by
  unfold CacheWatcher.matchObj Selection.selects
  rw [hk, hsel]
  rfl

theorem eq_of_left_filter {o : DataObject V} (h : (CacheStore.left c e).filter sel.selects = some o) :
    o = e.obj.copyWithRev c e.obj.revision := by
  have hleft := (Option.filter_eq_some_iff.mp h).1
  unfold CacheStore.left at hleft
  split at hleft
  next => cases hleft
  next => exact (Option.some.inj hleft).symm

/-- What the watch sends for an event, by what the store has of the key before and
after it. -/
theorem convert_cases (hkeyed : Keyed cs.cacheStore) (hsel : sel.Uniform e.obj.key) :
    sel.watcher.convertToWatchEvent (cs.cacheEvent c e) =
      match (CacheStore.left c e).filter sel.selects, cs.cacheStore[e.obj.key]?.filter sel.selects with
      | some o, some _ => some ⟨.modified, o⟩
      | some o, none => some ⟨.added, o⟩
      | none, some old => some ⟨.deleted, old.copyWithRev c e.obj.revision⟩
      | none, none => none := by
  have hcur : (((cs.cacheEvent c e).type != .deleted) &&
      sel.watcher.matchObj (cs.cacheEvent c e).key (cs.cacheEvent c e).obj) =
        ((CacheStore.left c e).filter sel.selects).isSome := by
    unfold CacheStore.left
    show ((e.type != .deleted) &&
      sel.watcher.matchObj e.obj.key (e.obj.copyWithRev c e.obj.revision)) = _
    rw [matchObj_eq hsel (DataObject.key_copyWithRev ..)]
    by_cases hdel : e.type = .deleted
    · simp [hdel]
    · rcases hs : sel.selects (e.obj.copyWithRev c e.obj.revision)
      · simp [hdel, hs, Option.filter]
      · simp [hdel, hs, Option.filter]
  have hold : (cs.cacheEvent c e).prevObj.any (sel.watcher.matchObj (cs.cacheEvent c e).key) =
      (cs.cacheStore[e.obj.key]?.filter sel.selects).isSome := by
    show cs.cacheStore[e.obj.key]?.any (sel.watcher.matchObj e.obj.key) = _
    rcases ho : cs.cacheStore[e.obj.key]? with _ | o
    · rfl
    · rw [Option.any_some, matchObj_eq hsel (hkeyed _ o ho)]
      rcases hs : sel.selects o
      · simp [hs, Option.filter]
      · simp [hs, Option.filter]
  unfold CacheWatcher.convertToWatchEvent
  dsimp only
  rw [hcur, hold]
  rcases hleft : (CacheStore.left c e).filter sel.selects with _ | o
  · rcases hprev : cs.cacheStore[e.obj.key]?.filter sel.selects with _ | old
    · rfl
    · have hget : cs.cacheStore[e.obj.key]? = some old := (Option.filter_eq_some_iff.mp hprev).1
      show (cs.cacheStore[e.obj.key]?).map _ = _
      rw [hget]
      rfl
  · have hobj := eq_of_left_filter hleft
    rcases cs.cacheStore[e.obj.key]?.filter sel.selects with _ | old
    · rw [hobj]
      rfl
    · rw [hobj]
      rfl

/-- What the watch sends is about the key of the event, and carries the channel
revision. -/
theorem convert_key {ev : WatchEvent V} (hkeyed : Keyed cs.cacheStore) (hsel : sel.Uniform e.obj.key)
    (h : sel.watcher.convertToWatchEvent (cs.cacheEvent c e) = some ev) :
    ev.obj.key = e.obj.key ∧ ev.obj.channelRev = c ∧ ev.obj.revision = e.obj.revision := by
  rw [convert_cases hkeyed hsel] at h
  split at h
  next o _ ho _ =>
    obtain rfl := Option.some.inj h
    rw [eq_of_left_filter ho]
    exact ⟨rfl, rfl, rfl⟩
  next o ho _ =>
    obtain rfl := Option.some.inj h
    rw [eq_of_left_filter ho]
    exact ⟨rfl, rfl, rfl⟩
  next old _ hold =>
    obtain rfl := Option.some.inj h
    have hget := (Option.filter_eq_some_iff.mp hold).1
    exact ⟨hkeyed _ old hget, rfl, rfl⟩
  next => cases h

/-- **One event.** A copy that agrees with the store about a key agrees with it
after the event, once it has got what the watch makes of it. -/
theorem Matches.process (h : Matches sel m cs k) (hkeyed : Keyed cs.cacheStore)
    (hsel : sel.Uniform e.obj.key) (hstale : cs.stale e = false) :
    Matches sel ((sel.watcher.convertToWatchEvent (cs.cacheEvent c e)).toList.foldl applied m)
      (cs.processEvent full c e) k := by
  by_cases hk : k = e.obj.key
  · subst hk
    have hnewer : ∀ o, cs.cacheStore[e.obj.key]? = some o → o.revision < e.obj.revision := by
      intro o ho
      simpa [CacheStore.stale, ho] using hstale
    unfold Matches at h ⊢
    rw [CacheStore.get_processEvent_self hstale, convert_cases hkeyed hsel]
    rcases hprev : cs.cacheStore[e.obj.key]?.filter sel.selects with _ | old
    · rw [hprev, Option.map_none, Option.map_eq_none_iff] at h
      rcases hleft : (CacheStore.left c e).filter sel.selects with _ | o
      · simp [h]
      · have hkey : o.key = e.obj.key := by
          rw [eq_of_left_filter hleft]
          rfl
        simp [applied, hkey, h]
    · have hget := (Option.filter_eq_some_iff.mp hprev).1
      have hlt := hnewer old hget
      rw [hprev] at h
      obtain ⟨p, hp, hrev⟩ := Option.map_eq_some_iff.mp h
      have hfresh : ¬ e.obj.revision ≤ p.revision := by
        rw [hrev]
        omega
      rcases hleft : (CacheStore.left c e).filter sel.selects with _ | o
      · have hkey : old.key = e.obj.key := hkeyed _ old hget
        simp [applied, hkey, hp, hfresh]
      · have hobj := eq_of_left_filter hleft
        have hkey : o.key = e.obj.key := by rw [hobj]; rfl
        have horev : o.revision = e.obj.revision := by rw [hobj]; rfl
        simp [applied, hkey, hp, horev, hfresh]
  · unfold Matches at h ⊢
    rw [CacheStore.processEvent_of_ne hk, ← h]
    rcases hev : sel.watcher.convertToWatchEvent (cs.cacheEvent c e) with _ | ev
    · rfl
    · have hkey := (convert_key hkeyed hsel hev).1
      show ((applied m ev)[k]?).map _ = _
      rw [get_applied_of_ne (by rw [hkey]; exact hk)]

/-- An object that the store has not, but the copy has, comes anew. -/
theorem matches_of_arrival {p : DataObject V} (hkeyed : Keyed cs.cacheStore)
    (hsel : sel.Uniform e.obj.key) (hp : m[e.obj.key]? = some p)
    (hnone : cs.cacheStore[e.obj.key]? = none) (htype : e.type ≠ .deleted)
    (hselects : sel.selects e.obj = true) (hle : p.revision ≤ e.obj.revision) :
    Matches sel ((sel.watcher.convertToWatchEvent (cs.cacheEvent c e)).toList.foldl applied m)
      (cs.processEvent full c e) e.obj.key := by
  have hcopy : sel.selects (e.obj.copyWithRev c e.obj.revision) = true := by
    unfold Selection.selects at hselects ⊢
    rw [sel.pred_copyWithRev]
    exact hselects
  have hleft : (CacheStore.left c e).filter sel.selects = some (e.obj.copyWithRev c e.obj.revision) := by
    simp [CacheStore.left, Option.filter, htype, hcopy]
  have hprev : cs.cacheStore[e.obj.key]?.filter sel.selects = none := by
    rw [hnone]
    rfl
  have hev : sel.watcher.convertToWatchEvent (cs.cacheEvent c e) =
      some ⟨.added, e.obj.copyWithRev c e.obj.revision⟩ := by
    rw [convert_cases hkeyed hsel, hleft, hprev]
  unfold Matches
  rw [CacheStore.processEvent_absent hnone, hleft, hev, Option.toList_some, List.foldl_cons,
    List.foldl_nil]
  by_cases hrev : e.obj.revision ≤ p.revision
  · rw [applied_of_seen (by simp [hp, hrev]), hp]
    simp only [Option.map_some, DataObject.revision_copyWithRev, Option.some.injEq]
    omega
  · simp [applied, hp, hrev]

theorem convert_singleton (sel : Selection V) (a : WatchCacheEvent V) :
    sel.convert [a] = (sel.watcher.convertToWatchEvent a).toList := by
  unfold Selection.convert
  rw [List.filterMap_cons]
  rcases sel.watcher.convertToWatchEvent a with _ | ev
  · rfl
  · rfl

theorem convert_append (sel : Selection V) (l l' : List (WatchCacheEvent V)) :
    sel.convert (l ++ l') = sel.convert l ++ sel.convert l' :=
  List.filterMap_append ..

end Convert

/-! ## The server's history -/

namespace Server

variable {sel : Selection V} {s : Server V} {full : ℕ → Bool} {e : WatchEvent V}

/-- What holds of a server at any time. -/
structure Wf (sel : Selection V) (s : Server V) : Prop where
  /-- objects are stored under their key -/
  keyed : Keyed s.cs.cacheStore
  /-- revisions are positive -/
  positive : 0 ≤ s.channelRev
  /-- the revision of the last list is never set -/
  listRevision : s.cs.listRevision = 0
  /-- the ring has the last events -/
  ring : s.cs.cache.events = s.history.drop s.cs.cache.head
  /-- no more events have been overwritten than there were -/
  head : s.cs.cache.head ≤ s.history.length
  /-- later events have higher revisions -/
  sorted : s.history.Pairwise fun a b => a.channelRev < b.channelRev
  /-- which are in the past -/
  past : ∀ e ∈ s.history, e.channelRev ≤ s.channelRev
  /-- and positive -/
  pos : ∀ e ∈ s.history, 0 < e.channelRev
  /-- what a watch makes of an event has its channel revision -/
  stamped : ∀ e ∈ s.history, ∀ ev ∈ sel.watcher.convertToWatchEvent e, ev.obj.channelRev = e.channelRev

theorem push_cacheEvent (full : ℕ → Bool) (hstale : s.cs.stale e = false) :
    (s.process full e).history = s.history ++ [s.cs.cacheEvent (s.channelRev + 1) e] ∧
    (s.process full e).cs.cache = s.cs.cache.push (s.cs.cacheEvent (s.channelRev + 1) e) := by
  refine ⟨?_, ?_⟩
  · simp [process, hstale]
  · simp [process, CacheStore.processEvent, hstale]

theorem process_stale (hstale : s.cs.stale e = true) :
    s.process full e = { s with channelRev := s.channelRev + 1 } := by
  simp [process, CacheStore.processEvent, hstale]

theorem Wf.tick (h : Wf sel s) (n : ℕ) : Wf sel { s with channelRev := s.channelRev + n } :=
  ⟨h.keyed, by have := h.positive; show 0 ≤ s.channelRev + n; omega, h.listRevision, h.ring, h.head, h.sorted,
    fun e he => by have := h.past e he; show _ ≤ s.channelRev + n; omega, h.pos, h.stamped⟩

theorem Wf.process (h : Wf sel s) (hsel : sel.Uniform e.obj.key) : Wf sel (s.process full e) := by
  rcases hstale : s.cs.stale e
  · obtain ⟨hhistory, hcache⟩ := push_cacheEvent full hstale
    have hpast : ∀ a ∈ (s.process full e).history,
        a ∈ s.history ∨ a = s.cs.cacheEvent (s.channelRev + 1) e := by
      rw [hhistory]
      intro a ha
      rcases List.mem_append.mp ha with ha | ha
      · exact Or.inl ha
      · exact Or.inr (List.mem_singleton.mp ha)
    have hpos := h.positive
    refine ⟨CacheStore.keyed_processEvent h.keyed, ?_, ?_, ?_, ?_, ?_, fun a ha => ?_, fun a ha => ?_,
      fun a ha ev hev => ?_⟩
    · show 0 ≤ s.channelRev + 1
      omega
    · show (s.cs.processEvent full _ e).listRevision = 0
      unfold CacheStore.processEvent
      rw [hstale]
      exact h.listRevision
    · rw [hhistory, hcache]
      unfold RingBuf.push
      split
      next hfull =>
        have hlen : s.cs.cache.head + 1 ≤ s.history.length := by
          rw [h.ring, List.length_drop] at hfull
          unfold defaultCacheCount at hfull
          omega
        show s.cs.cache.events.tail ++ _ = List.drop (s.cs.cache.head + 1) _
        rw [h.ring, List.tail_drop, List.drop_append_of_le_length hlen]
      next =>
        show s.cs.cache.events ++ _ = List.drop s.cs.cache.head _
        rw [h.ring, List.drop_append_of_le_length h.head]
    · rw [hhistory, hcache, List.length_append]
      have hhead := h.head
      unfold RingBuf.push
      split
      next => show s.cs.cache.head + 1 ≤ _ + 1; omega
      next => show s.cs.cache.head ≤ _ + 1; omega
    · rw [hhistory]
      refine List.pairwise_append.mpr ⟨h.sorted, List.pairwise_singleton .., fun a ha b hb => ?_⟩
      rw [List.mem_singleton.mp hb]
      have := h.past a ha
      show a.channelRev < s.channelRev + 1
      omega
    · show a.channelRev ≤ s.channelRev + 1
      rcases hpast a ha with ha | rfl
      · have := h.past a ha
        omega
      · exact Int.le_refl _
    · rcases hpast a ha with ha | rfl
      · exact h.pos a ha
      · show 0 < s.channelRev + 1
        omega
    · rcases hpast a ha with ha | rfl
      · exact h.stamped a ha ev hev
      · exact (convert_key h.keyed hsel hev).2.1
  · rw [process_stale hstale]
    exact h.tick 1

theorem Wf.cleared (h : Wf sel s) : Wf sel s.cleared where
  keyed := Keyed.empty
  positive := h.positive
  listRevision := h.listRevision
  ring := rfl
  head := Nat.le_refl _
  sorted := List.Pairwise.nil
  past := fun _ he => (nomatch he)
  pos := fun _ he => (nomatch he)
  stamped := fun _ he => (nomatch he)

/-- A server that has been filled anew: no watcher is left, and all events have
revisions above `c`. -/
structure Fresh (sel : Selection V) (c : ℤ) (s : Server V) : Prop where
  /-- it is a server -/
  wf : Wf sel s
  /-- no watchers -/
  watchers : s.cs.watchers = ∅
  /-- revisions only grow -/
  le : c ≤ s.channelRev
  /-- the events are new -/
  above : ∀ e ∈ s.history, c < e.channelRev

theorem Fresh.process {c : ℤ} (h : Fresh sel c s) (hsel : sel.Uniform e.obj.key) :
    Fresh sel c (s.process full e) := by
  have hle := h.le
  refine ⟨h.wf.process hsel, ?_, ?_, fun a ha => ?_⟩
  · show (s.cs.processEvent full _ e).watchers = ∅
    unfold CacheStore.processEvent
    split
    next => exact h.watchers
    next =>
      refine Std.ExtTreeMap.ext_getElem? fun id => ?_
      simp [h.watchers]
  · show c ≤ s.channelRev + 1
    omega
  · rcases hstale : s.cs.stale e
    · rw [(push_cacheEvent _ hstale).1] at ha
      rcases List.mem_append.mp ha with ha | ha
      · exact h.above a ha
      · rw [List.mem_singleton.mp ha]
        show c < s.channelRev + 1
        omega
    · rw [process_stale hstale] at ha
      exact h.above a ha

theorem Wf.rebuild {objs : List (DataObject V)} (h : Wf sel s) (full : ℕ → Bool) (hsel : ∀ o ∈ objs, sel.Uniform o.key) :
    Fresh sel s.channelRev (s.rebuild full objs) := by
  have hfold : ∀ (l : List (DataObject V)) (t : Server V), (∀ o ∈ l, sel.Uniform o.key) →
      Fresh sel s.channelRev t →
      Fresh sel s.channelRev (l.foldl (fun s o => s.process full ⟨.added, o⟩) t) := by
    intro l
    induction l with
    | nil => exact fun t _ ht => ht
    | cons o l ih =>
      intro t hl ht
      exact ih _ (fun o' ho' => hl o' (List.mem_cons_of_mem _ ho'))
        (ht.process (hl o (List.mem_cons_self ..)))
  exact hfold objs s.cleared hsel ⟨h.cleared, rfl, Int.le_refl _, fun _ he => (nomatch he)⟩

/-- What the watch makes of the history, applied to a copy. -/
def replayed (sel : Selection V) (s : Server V) (m : Objects V) : Objects V :=
  (sel.convert s.history).foldl applied m

theorem replayed_process {m : Objects V} (hstale : s.cs.stale e = false) :
    (s.process full e).replayed sel m =
      (sel.watcher.convertToWatchEvent (s.cs.cacheEvent (s.channelRev + 1) e)).toList.foldl applied
        (s.replayed sel m) := by
  unfold replayed
  rw [(push_cacheEvent _ hstale).1, convert_append, convert_singleton, List.foldl_append]

/-- The copy has an object that the rest of the list is going to bring. -/
def Awaited (sel : Selection V) (s : Server V) (m : Objects V) (k : String)
    (objs : List (DataObject V)) : Prop :=
  ∃ o, m[k]? = some o ∧ o.key = k ∧ s.cs.cacheStore[k]? = none ∧ Mirror.Listed sel objs o

/-- One object of the list. -/
theorem matches_or_awaited {m : Objects V} {k : String} {o : DataObject V} {objs : List (DataObject V)}
    (hwf : Wf sel s) (hsel : sel.Uniform o.key)
    (h : Matches sel (s.replayed sel m) s.cs k ∨ Awaited sel s (s.replayed sel m) k (o :: objs)) :
    Matches sel ((s.process full ⟨.added, o⟩).replayed sel m) (s.process full ⟨.added, o⟩).cs k ∨
      Awaited sel (s.process full ⟨.added, o⟩) ((s.process full ⟨.added, o⟩).replayed sel m) k objs := by
  have hrest : ∀ p : DataObject V, p.key = k → o.key ≠ k → Mirror.Listed sel (o :: objs) p →
      Mirror.Listed sel objs p := by
    rintro p hp hne ⟨⟨o', ho', hkey⟩, hall⟩
    refine ⟨?_, fun q hq => hall q (List.mem_cons_of_mem _ hq)⟩
    rcases List.mem_cons.mp ho' with rfl | ho'
    · exact absurd (hkey.trans hp) hne
    · exact ⟨o', ho', hkey⟩
  rcases hstale : s.cs.stale ⟨.added, o⟩
  · rw [replayed_process hstale]
    rcases h with h | ⟨p, hp, hpk, hnone, hlisted⟩
    · exact Or.inl (h.process hwf.keyed hsel hstale)
    · by_cases hk : o.key = k
      · subst hk
        obtain ⟨hselects, hle⟩ := hlisted.2 o (List.mem_cons_self ..) hpk.symm
        exact Or.inl (matches_of_arrival (e := ⟨.added, o⟩) hwf.keyed hsel hp hnone nofun hselects hle)
      · refine Or.inr ⟨p, ?_, hpk, ?_, hrest p hpk hk hlisted⟩
        · rcases hev : sel.watcher.convertToWatchEvent
              (s.cs.cacheEvent (s.channelRev + 1) ⟨.added, o⟩) with _ | ev
          · exact hp
          · have hkey : ev.obj.key = o.key := (convert_key (e := ⟨.added, o⟩) hwf.keyed hsel hev).1
            have hne : k ≠ ev.obj.key := fun h => hk (hkey.symm.trans h.symm)
            exact (get_applied_of_ne hne).trans hp
        · have hne : k ≠ (WatchEvent.mk .added o).obj.key := fun h => hk h.symm
          exact (CacheStore.processEvent_of_ne hne).trans hnone
  · rw [process_stale hstale]
    rcases h with h | ⟨p, hp, hpk, hnone, hlisted⟩
    · exact Or.inl h
    · refine Or.inr ⟨p, hp, hpk, hnone, hrest p hpk ?_ hlisted⟩
      rintro rfl
      simp [CacheStore.stale, hnone] at hstale

/-- **A rebuild.** A copy all of whose objects are in the list agrees with the
rebuilt store once it has got the events of the rebuild. -/
theorem matches_rebuild {m : Objects V} {objs : List (DataObject V)} (hwf : Wf sel s) (hkeyed : Keyed m)
    (hsel : ∀ o ∈ objs, sel.Uniform o.key)
    (hlisted : ∀ (k : String) (o : DataObject V), m[k]? = some o → Mirror.Listed sel objs o) (k : String) :
    Matches sel ((s.rebuild full objs).replayed sel m) (s.rebuild full objs).cs k := by
  have hfold : ∀ (l : List (DataObject V)) (t : Server V), Wf sel t → (∀ o ∈ l, sel.Uniform o.key) →
      Matches sel (t.replayed sel m) t.cs k ∨ Awaited sel t (t.replayed sel m) k l →
      Matches sel ((l.foldl (fun s o => s.process full ⟨.added, o⟩) t).replayed sel m)
        (l.foldl (fun s o => s.process full ⟨.added, o⟩) t).cs k := by
    intro l
    induction l with
    | nil =>
      rintro t - - (h | ⟨o, -, -, -, ⟨o', ho', -⟩, -⟩)
      · exact h
      · cases ho'
    | cons o l ih =>
      intro t ht hl h
      have ho := hl o (List.mem_cons_self ..)
      exact ih _ (ht.process ho) (fun o' ho' => hl o' (List.mem_cons_of_mem _ ho'))
        (matches_or_awaited ht ho h)
  refine hfold objs s.cleared hwf.cleared hsel ?_
  have hempty : s.cleared.cs.cacheStore[k]? = none := Std.ExtTreeMap.getElem?_empty
  rcases ho : m[k]? with _ | o
  · left
    unfold Matches
    rw [hempty]
    show m[k]?.map _ = _
    rw [ho]
    rfl
  · exact Or.inr ⟨o, ho, hkeyed k o ho, hempty, hlisted k o ho⟩

/-- The events from a revision on. -/
def since (s : Server V) (r : ℤ) : List (WatchCacheEvent V) :=
  s.history.filter fun e => decide (r ≤ e.channelRev)

/-- Replaying from a revision on leads the copy to the store. -/
def Ready (sel : Selection V) (s : Server V) (r : ℤ) (m : Objects V) : Prop :=
  ∀ k, Matches sel ((sel.convert (s.since r)).foldl applied m) s.cs k

theorem since_process {r : ℤ} (hstale : s.cs.stale e = false) (hr : r ≤ s.channelRev + 1) :
    (s.process full e).since r = s.since r ++ [s.cs.cacheEvent (s.channelRev + 1) e] := by
  unfold since
  rw [(push_cacheEvent _ hstale).1, List.filter_append]
  congr 1
  exact List.filter_eq_self.mpr fun a ha => by
    rw [List.mem_singleton.mp ha]
    exact decide_eq_true hr

/-- Nothing has happened since now. -/
theorem since_eq_nil (hwf : Wf sel s) : s.since (s.channelRev + 1) = [] := by
  refine List.filter_eq_nil_iff.mpr fun a ha => ?_
  have := hwf.past a ha
  rw [decide_eq_true_iff]
  omega

theorem Ready.process {r : ℤ} {m : Objects V} (h : Ready sel s r m) (hwf : Wf sel s)
    (hr : r ≤ s.channelRev + 1) (hsel : sel.Uniform e.obj.key) : Ready sel (s.process full e) r m := by
  rcases hstale : s.cs.stale e
  · intro k
    rw [since_process hstale hr, convert_append, convert_singleton, List.foldl_append]
    exact (h k).process hwf.keyed hsel hstale
  · rw [process_stale hstale]
    exact h

/-- Right after an event, replaying it once more leads nowhere else. -/
theorem ready_of_process {m : Objects V} {ev : WatchEvent V} (hwf : Wf sel s)
    (hstale : s.cs.stale e = false)
    (hev : sel.watcher.convertToWatchEvent (s.cs.cacheEvent (s.channelRev + 1) e) = some ev)
    (h : ∀ k, Matches sel (applied m ev) (s.process full e).cs k) :
    Ready sel (s.process full e) (s.channelRev + 1) (applied m ev) := by
  intro k
  rw [since_process hstale (Int.le_refl _), since_eq_nil hwf, List.nil_append, convert_singleton, hev,
    Option.toList_some, List.foldl_cons, List.foldl_nil, applied_applied]
  exact h k

end Server

/-! ## The invariant -/

/-- What a list with no key twice makes of a store. -/
theorem get_storeOfList {objs : List (DataObject V)} {new : Objects V} {k : String} {o : DataObject V}
    (h : storeOfList objs = some new) : new[k]? = some o ↔ o ∈ objs ∧ o.key = k := by
  have hfold : ∀ (l : List (DataObject V)) (m : Objects V),
      l.foldlM (fun m o => if (storeAdd m o).2 then some (storeAdd m o).1 else none) m = some new →
      (new[k]? = some o ↔ m[k]? = some o ∨ o ∈ l ∧ o.key = k) := by
    intro l
    induction l with
    | nil =>
      intro m h
      obtain rfl := Option.some.inj h
      exact ⟨Or.inl, fun h => h.resolve_right fun h => (nomatch h.1)⟩
    | cons a l ih =>
      intro m h
      rw [List.foldlM_cons] at h
      obtain ⟨m', hm', h⟩ := Option.bind_eq_some_iff.mp h
      split at hm'
      next hadd =>
        obtain rfl := Option.some.inj hm'
        have hfresh : m[a.key]? = none := by
          have hnot : m.contains a.key = false := (Bool.not_eq_true' _).mp hadd
          rw [Std.ExtTreeMap.contains_eq_isSome_getElem?, Option.isSome_eq_false_iff] at hnot
          exact Option.isNone_iff_eq_none.mp hnot
        rw [ih _ h]
        show (m.insert a.key a)[k]? = some o ∨ _ ↔ _
        rw [BTreeMap.get_insert]
        by_cases hk : k = a.key
        · subst hk
          rw [if_pos rfl, hfresh]
          constructor
          · rintro (heq | ⟨hmem, hkey⟩)
            · obtain rfl := Option.some.inj heq
              exact Or.inr ⟨List.mem_cons_self .., rfl⟩
            · exact Or.inr ⟨List.mem_cons_of_mem _ hmem, hkey⟩
          · rintro (heq | ⟨hmem, hkey⟩)
            · cases heq
            · rcases List.mem_cons.mp hmem with rfl | hmem
              · exact Or.inl rfl
              · exact Or.inr ⟨hmem, hkey⟩
        · rw [if_neg hk]
          constructor
          · rintro (heq | ⟨hmem, hkey⟩)
            · exact Or.inl heq
            · exact Or.inr ⟨List.mem_cons_of_mem _ hmem, hkey⟩
          · rintro (heq | ⟨hmem, hkey⟩)
            · exact Or.inl heq
            · rcases List.mem_cons.mp hmem with rfl | hmem
              · exact absurd hkey.symm hk
              · exact Or.inr ⟨hmem, hkey⟩
      next => cases hm'
  have hall := hfold objs ∅ h
  rw [Std.ExtTreeMap.getElem?_empty] at hall
  simpa using hall

/-- A list agrees with the store. -/
theorem matches_list {sel : Selection V} {cs : CacheStore V} {new : Objects V} (hkeyed : Keyed cs.cacheStore)
    (h : storeOfList (cs.list sel.tenant sel.nameSpace sel.pred) = some new) (k : String) :
    Matches sel new cs k := by
  unfold Matches
  congr 1
  refine Option.ext fun o => ?_
  have hlist : o ∈ cs.list sel.tenant sel.nameSpace sel.pred ↔
      (∃ k : String, cs.cacheStore[k]? = some o) ∧ sel.selects o = true := by
    unfold CacheStore.list Selection.selects
    rw [List.mem_filter, List.mem_map]
    refine and_congr_left fun _ => ⟨?_, ?_⟩
    · rintro ⟨p, hp, rfl⟩
      exact ⟨p.1, BTreeMap.mem_toList.mp hp⟩
    · rintro ⟨k, hk⟩
      exact ⟨(k, o), BTreeMap.mem_toList.mpr hk, rfl⟩
  rw [get_storeOfList h, hlist, Option.filter_eq_some_iff]
  constructor
  · rintro ⟨⟨⟨k', hk'⟩, hsel⟩, rfl⟩
    rw [hkeyed k' o hk']
    exact ⟨hk', hsel⟩
  · rintro ⟨hget, hsel⟩
    exact ⟨⟨⟨k, hget⟩, hsel⟩, hkeyed k o hget⟩

namespace Mirror

/-- What holds in every state of a run. -/
structure Inv (sel : Selection V) (x : Mirror V) : Prop where
  /-- the server is one -/
  wf : x.toServer.Wf sel
  /-- the informer's objects are stored under their key -/
  keyed : Keyed x.inf.store
  /-- before the list there is nothing -/
  unlisted : x.listed = false → x.inf.store = ∅ ∧ x.stream = none
  /-- then the informer's revision is one of the server's -/
  revision : x.listed = true → 0 < x.inf.revision ∧ x.inf.revision ≤ x.channelRev + 1
  /-- and so are those of the events on their way -/
  revs : ∀ e ∈ x.flight, 0 < e.obj.channelRev ∧ e.obj.channelRev ≤ x.channelRev
  /-- the watcher of the stream has the informer's selection -/
  watcher : ∀ st w, x.stream = some st → x.cs.watchers[st.wid]? = some w →
    w.nameSpace = sel.nameSpace ∧ w.predicate = sel.pred
  /-- wherever the stream breaks, replaying from there leads to the store -/
  ready : x.listed = true → ∀ l l', x.flight = l ++ l' →
    x.toServer.Ready sel (lastRev x.inf.revision l) (l.foldl applied x.inf.store)
  /-- while a stream lasts, the events on their way lead to the store -/
  live : x.Live → ∀ k, Matches sel (x.flight.foldl applied x.inf.store) x.cs k

variable {sel : Selection V} {x y : Mirror V}

theorem lastRev_append (r : ℤ) (l : List (WatchEvent V)) (e : WatchEvent V) :
    lastRev r (l ++ [e]) = e.obj.channelRev := by
  simp [lastRev]

theorem lastRev_cons (r : ℤ) (e : WatchEvent V) (l : List (WatchEvent V)) :
    lastRev r (e :: l) = lastRev e.obj.channelRev l := by
  unfold lastRev
  rcases l.eq_nil_or_concat with rfl | ⟨l, a, rfl⟩
  · rfl
  · simp [List.getLast?_cons]

/-- The revision after some of the events on their way. -/
theorem Inv.lastRev_le (h : Inv sel x) (hlisted : x.listed = true) {l l' : List (WatchEvent V)}
    (hl : x.flight = l ++ l') : lastRev x.inf.revision l ≤ x.channelRev + 1 := by
  rcases l.eq_nil_or_concat with rfl | ⟨l, a, rfl⟩
  · exact (h.revision hlisted).2
  · rw [List.concat_eq_append, lastRev_append]
    have := (h.revs a (by rw [hl]; simp)).2
    omega

/-! ## Steps of the server -/

/-- A stream that has lost its watcher keeps what was sent to it. -/
theorem flight_serve_of_lost {s : Server V}
    (hlost : ∀ st, x.stream = some st → s.cs.watchers[st.wid]? = none) :
    (x.serve s).flight = x.flight ∧ ¬ (x.serve s).Live := by
  unfold flight Live serve
  dsimp only
  rcases hst : x.stream with _ | st
  · exact ⟨rfl, fun ⟨_, h, _⟩ => by cases h⟩
  · have hnone := hlost st hst
    have hcontains : s.cs.watchers.contains st.wid = false := by
      rw [Std.ExtTreeMap.contains_eq_isSome_getElem?, hnone]
      rfl
    have hunsent : s.cs.unsent st.wid = [] := by
      unfold CacheStore.unsent
      rw [hnone]
      rfl
    refine ⟨?_, ?_⟩
    · simp only [Option.map_some, hcontains, Bool.false_eq_true, ↓reduceIte, hunsent, List.append_nil]
    · rintro ⟨st', hst', hcontains'⟩
      simp only [Option.map_some, hcontains, Bool.false_eq_true, ↓reduceIte, Option.some.injEq] at hst'
      subst hst'
      rw [hcontains] at hcontains'
      cases hcontains'

/-- What a new event does to the stream: nothing, or it drops the watcher, or the
event is on its way. -/
theorem Inv.flight_process (h : Inv sel x) (full : ℕ → Bool) {e : WatchEvent V}
    (hstale : x.cs.stale e = false) :
    (x.serve (x.toServer.process full e)).flight = x.flight ∧
        ¬ (x.serve (x.toServer.process full e)).Live ∨
      x.Live ∧ (x.serve (x.toServer.process full e)).flight =
        x.flight ++
          (sel.watcher.convertToWatchEvent (x.cs.cacheEvent (x.channelRev + 1) e)).toList := by
  rcases hst : x.stream with _ | st
  · refine Or.inl (flight_serve_of_lost fun st hst' => ?_)
    rw [hst] at hst'
    cases hst'
  · have hget := watchers_processEvent full (x.channelRev + 1) hstale st.wid
    rcases hnew : (x.cs.processEvent full (x.channelRev + 1) e).watchers[st.wid]? with _ | w'
    · refine Or.inl (flight_serve_of_lost fun st' hst' => ?_)
      rw [hst] at hst'
      obtain rfl := Option.some.inj hst'
      exact hnew
    · right
      rw [hnew] at hget
      obtain ⟨w, hw, rfl⟩ := Option.map_eq_some_iff.mp hget.symm
      have hold := (Option.filter_eq_some_iff.mp hw).1
      obtain ⟨hns, hpred⟩ := h.watcher st w hst hold
      have hcontains : x.cs.watchers.contains st.wid = true := by
        rw [Std.ExtTreeMap.contains_eq_isSome_getElem?, hold]
        rfl
      have hcontains' : (x.cs.processEvent full (x.channelRev + 1) e).watchers.contains st.wid = true := by
        rw [Std.ExtTreeMap.contains_eq_isSome_getElem?, hnew]
        rfl
      refine ⟨⟨st, hst, hcontains⟩, ?_⟩
      have hconvert : w.convertToWatchEvent = sel.watcher.convertToWatchEvent :=
        convertToWatchEvent_congr hns hpred
      have hunsent : (x.cs.processEvent full (x.channelRev + 1) e).unsent st.wid = x.cs.unsent st.wid ++
          (sel.watcher.convertToWatchEvent (x.cs.cacheEvent (x.channelRev + 1) e)).toList := by
        unfold CacheStore.unsent
        rw [hnew, hold, ← hconvert]
        rfl
      unfold flight serve
      simp only [hst, Option.map_some, Server.process, hcontains', ↓reduceIte, hunsent, List.append_assoc]

theorem stream_serve {s : Server V} {st : Stream V} (h : (x.serve s).stream = some st) :
    ∃ st', x.stream = some st' ∧ st'.wid = st.wid := by
  obtain ⟨st', hst', hmap⟩ := Option.map_eq_some_iff.mp h
  refine ⟨st', hst', ?_⟩
  split at hmap
  next => rw [hmap]
  next => rw [← hmap]

theorem Inv.watcher_process (h : Inv sel x) {full : ℕ → Bool} {e : WatchEvent V}
    (hstale : x.cs.stale e = false) {st : Stream V} {w : CacheWatcher V}
    (hst : (x.serve (x.toServer.process full e)).stream = some st)
    (hw : (x.cs.processEvent full (x.channelRev + 1) e).watchers[st.wid]? = some w) :
    w.nameSpace = sel.nameSpace ∧ w.predicate = sel.pred := by
  obtain ⟨st', hst', hwid⟩ := stream_serve hst
  rw [← hwid, watchers_processEvent _ _ hstale] at hw
  obtain ⟨w', hw', rfl⟩ := Option.map_eq_some_iff.mp hw
  exact h.watcher st' w' hst' (Option.filter_eq_some_iff.mp hw').1

/-- Other stores draw revisions. -/
theorem Inv.others (h : Inv sel x) (n : ℕ) : Inv sel { x with channelRev := x.channelRev + n } where
  wf := h.wf.tick n
  keyed := h.keyed
  unlisted := h.unlisted
  revision hlisted := by
    have := h.revision hlisted
    show 0 < x.inf.revision ∧ x.inf.revision ≤ x.channelRev + n + 1
    omega
  revs e he := by
    have := h.revs e he
    show 0 < e.obj.channelRev ∧ e.obj.channelRev ≤ x.channelRev + n
    omega
  watcher := h.watcher
  ready := h.ready
  live := h.live

/-- Where the watchers stay as they are, so does the stream. -/
theorem serve_of_cs_eq {s : Server V} (hs : s.cs = x.cs) : x.serve s = { x with toServer := s } := by
  have hstream : (x.stream.map fun st => if s.cs.watchers.contains st.wid then st
      else { st with queue := st.queue ++ x.cs.unsent st.wid }) = x.stream := by
    rcases x.stream with _ | st
    · rfl
    · rw [Option.map_some, hs]
      split
      next => rfl
      next hcontains =>
        rw [Std.ExtTreeMap.contains_eq_isSome_getElem?, Bool.not_eq_true, Option.isSome_eq_false_iff,
          Option.isNone_iff_eq_none] at hcontains
        have hunsent : x.cs.unsent st.wid = [] := by
          unfold CacheStore.unsent
          rw [hcontains]
          rfl
        rw [hunsent, List.append_nil]
  unfold serve
  rw [hstream]

/-- The store processes an event. -/
theorem Inv.process (h : Inv sel x) {full : ℕ → Bool} {e : WatchEvent V} (hsel : sel.Uniform e.obj.key) :
    Inv sel (x.serve (x.toServer.process full e)) := by
  rcases hstale : x.cs.stale e
  · have hunlisted : x.listed = false →
        x.inf.store = ∅ ∧ (x.serve (x.toServer.process full e)).stream = none := by
      intro hlisted
      obtain ⟨hstore, hst⟩ := h.unlisted hlisted
      refine ⟨hstore, ?_⟩
      show x.stream.map _ = none
      rw [hst]
      rfl
    have hrevision : x.listed = true →
        0 < x.inf.revision ∧ x.inf.revision ≤ x.channelRev + 1 + 1 := by
      intro hlisted
      have := h.revision hlisted
      omega
    have hold : ∀ a ∈ x.flight, 0 < a.obj.channelRev ∧ a.obj.channelRev ≤ x.channelRev + 1 := by
      intro a ha
      have := h.revs a ha
      omega
    rcases h.flight_process full hstale with ⟨hflight, hdead⟩ | ⟨hlive, hflight⟩
    · refine ⟨h.wf.process hsel, h.keyed, hunlisted, hrevision, ?_, fun st w hst hw =>
        h.watcher_process hstale hst hw, fun hlisted l l' hl => ?_, fun hlive => absurd hlive hdead⟩
      · rw [hflight]
        exact hold
      · rw [hflight] at hl
        exact (h.ready hlisted l l' hl).process h.wf (h.lastRev_le hlisted hl) hsel
    · have hmatches : ∀ k, Matches sel
          ((x.serve (x.toServer.process full e)).flight.foldl applied x.inf.store)
          (x.toServer.process full e).cs k := by
        intro k
        rw [hflight, List.foldl_append]
        exact (h.live hlive k).process h.wf.keyed hsel hstale
      refine ⟨h.wf.process hsel, h.keyed, hunlisted, hrevision, ?_, fun st w hst hw =>
        h.watcher_process hstale hst hw, fun hlisted l l' hl => ?_, fun _ => hmatches⟩
      · rw [hflight]
        intro a ha
        rcases List.mem_append.mp ha with ha | ha
        · exact hold a ha
        · have hrev := (convert_key h.wf.keyed hsel (Option.mem_toList.mp ha)).2.1
          have := h.wf.positive
          show 0 < a.obj.channelRev ∧ a.obj.channelRev ≤ x.channelRev + 1
          omega
      · rcases hev : sel.watcher.convertToWatchEvent (x.cs.cacheEvent (x.channelRev + 1) e) with _ | ev
        · rw [hflight, hev, Option.toList_none, List.append_nil] at hl
          exact (h.ready hlisted l l' hl).process h.wf (h.lastRev_le hlisted hl) hsel
        · rw [hev, Option.toList_some] at hflight
          rcases l'.eq_nil_or_concat with rfl | ⟨u, a, rfl⟩
          · rw [List.append_nil, hflight] at hl
            rw [← hl, lastRev_append, (convert_key h.wf.keyed hsel hev).2.1, List.foldl_append]
            refine Server.ready_of_process h.wf hstale hev fun k => ?_
            have := hmatches k
            rwa [hflight, List.foldl_append] at this
          · rw [hflight, List.concat_eq_append, ← List.append_assoc] at hl
            have hl' := (List.append_inj' hl rfl).1
            exact (h.ready hlisted l u hl').process h.wf (h.lastRev_le hlisted hl') hsel
  · rw [Server.process_stale hstale,
      serve_of_cs_eq (s := { x.toServer with channelRev := x.channelRev + 1 }) rfl]
    exact h.others 1

/-- The store is rebuilt. -/
theorem Inv.rebuild (h : Inv sel x) {full : ℕ → Bool} {objs : List (DataObject V)}
    (hok : x.StepOk sel (.rebuild objs full)) : Inv sel (x.serve (x.toServer.rebuild full objs)) := by
  obtain ⟨hsel, hstore, hflying⟩ := hok
  have hfresh := h.wf.rebuild full hsel
  have hle := hfresh.le
  obtain ⟨hflight, hdead⟩ := flight_serve_of_lost (x := x) (s := x.toServer.rebuild full objs)
    fun st _ => by rw [hfresh.watchers, Std.ExtTreeMap.getElem?_empty]
  refine ⟨hfresh.wf, h.keyed, fun hlisted => ?_, fun hlisted => ?_, fun a ha => ?_, fun st w _ hw => ?_,
    fun hlisted l l' hl k => ?_, fun hlive => absurd hlive hdead⟩
  · obtain ⟨hempty, hst⟩ := h.unlisted hlisted
    refine ⟨hempty, ?_⟩
    show x.stream.map _ = none
    rw [hst]
    rfl
  · have := h.revision hlisted
    show 0 < x.inf.revision ∧ x.inf.revision ≤ (x.toServer.rebuild full objs).channelRev + 1
    omega
  · rw [hflight] at ha
    have := h.revs a ha
    show 0 < a.obj.channelRev ∧ a.obj.channelRev ≤ (x.toServer.rebuild full objs).channelRev
    omega
  · have hnone : (x.toServer.rebuild full objs).cs.watchers[st.wid]? = none := by
      rw [hfresh.watchers, Std.ExtTreeMap.getElem?_empty]
    replace hw : (x.toServer.rebuild full objs).cs.watchers[st.wid]? = some w := hw
    rw [hnone] at hw
    cases hw
  · rw [hflight] at hl
    have hall : (x.toServer.rebuild full objs).since (lastRev x.inf.revision l) =
        (x.toServer.rebuild full objs).history := by
      refine List.filter_eq_self.mpr fun a ha => decide_eq_true ?_
      have := h.lastRev_le hlisted hl
      have := hfresh.above a ha
      omega
    show Matches sel ((sel.convert ((x.toServer.rebuild full objs).since
      (lastRev x.inf.revision l))).foldl applied _) _ k
    rw [hall]
    refine Server.matches_rebuild h.wf (keyed_foldl_applied h.keyed) hsel (fun k o ho => ?_) k
    rcases get_foldl_applied ho with ho | ⟨e, he, htype, rfl⟩
    · exact hstore k o ho
    · exact hflying e (by rw [hl]; exact List.mem_append_left _ he) htype

/-! ## Steps of the informer -/

/-- The list is answered and merged. -/
theorem Inv.list [Inhabited V] (h : Inv sel x) (hlisted : x.listed = false) :
    Inv sel (x.merged (x.cs.list sel.tenant sel.nameSpace sel.pred, x.channelRev + 1)) := by
  obtain ⟨hempty, hst⟩ := h.unlisted hlisted
  have hflight : x.flight = [] := by
    unfold flight
    rw [hst]
  unfold merged Informer.initList
  dsimp only
  rcases hnew : storeOfList (x.cs.list sel.tenant sel.nameSpace sel.pred) with _ | new
  · exact ⟨h.wf, h.keyed, fun _ => ⟨hempty, hst⟩, nofun, h.revs, h.watcher, nofun, h.live⟩
  · refine ⟨h.wf, keyed_storeOfList hnew, nofun, fun _ => ?_, h.revs, h.watcher,
      fun _ l l' hl k => ?_, ?_⟩
    · have := h.wf.positive
      show 0 < x.channelRev + 1 ∧ x.channelRev + 1 ≤ x.channelRev + 1
      omega
    · replace hl : x.flight = l ++ l' := hl
      rw [hflight, eq_comm, List.append_eq_nil_iff] at hl
      rw [hl.1]
      show Matches sel ((sel.convert (x.toServer.since (x.channelRev + 1))).foldl applied new) x.cs k
      rw [Server.since_eq_nil h.wf]
      exact matches_list h.wf.keyed hnew k
    · rintro ⟨st, hst', -⟩
      replace hst' : x.stream = some st := hst'
      rw [hst] at hst'
      cases hst'

/-- The stream takes over what the watcher has sent. -/
theorem Inv.forward (h : Inv sel x) {st : Stream V} (hst : x.stream = some st) :
    Inv sel { x with
      cs := { x.cs with watchers := x.cs.watchers.modify st.wid fun w => { w with sent := [] } }
      stream := some { st with queue := st.queue ++ x.cs.unsent st.wid } } := by
  have hflight : Mirror.flight { x with
      cs := { x.cs with watchers := x.cs.watchers.modify st.wid fun w => { w with sent := [] } }
      stream := some { st with queue := st.queue ++ x.cs.unsent st.wid } } = x.flight := by
    unfold flight CacheStore.unsent
    rw [hst]
    dsimp only
    rw [BTreeMap.get_modify_self]
    rcases x.cs.watchers[st.wid]? with _ | w
    · simp
    · simp
  have hlive : Mirror.Live { x with
      cs := { x.cs with watchers := x.cs.watchers.modify st.wid fun w => { w with sent := [] } }
      stream := some { st with queue := st.queue ++ x.cs.unsent st.wid } } → x.Live := by
    rintro ⟨st', hst', hcontains⟩
    obtain rfl := Option.some.inj hst'
    refine ⟨st, hst, ?_⟩
    rw [Std.ExtTreeMap.contains_eq_isSome_getElem?, BTreeMap.get_modify_self, Option.isSome_map,
      ← Std.ExtTreeMap.contains_eq_isSome_getElem?] at hcontains
    exact hcontains
  refine ⟨⟨h.wf.keyed, h.wf.positive, h.wf.listRevision, h.wf.ring, h.wf.head, h.wf.sorted, h.wf.past,
    h.wf.pos, h.wf.stamped⟩, h.keyed, fun hlisted => ?_, h.revision, ?_, fun st' w hst' hw => ?_,
    fun hlisted l l' hl => ?_, fun hl k => ?_⟩
  · have := (h.unlisted hlisted).2
    rw [hst] at this
    cases this
  · rw [hflight]
    exact h.revs
  · obtain rfl := Option.some.inj hst'
    replace hw : (x.cs.watchers.modify st.wid fun w => { w with sent := [] })[st.wid]? = some w := hw
    rw [BTreeMap.get_modify_self] at hw
    obtain ⟨w', hw', rfl⟩ := Option.map_eq_some_iff.mp hw
    exact h.watcher st w' hst hw'
  · rw [hflight] at hl
    exact h.ready hlisted l l' hl
  · rw [hflight]
    exact h.live (hlive hl) k

/-- The informer takes an event. -/
theorem Inv.deliver (h : Inv sel x) {wid : ℕ} {e : WatchEvent V} {rest : List (WatchEvent V)}
    {inf : Informer V} (hst : x.stream = some ⟨wid, e :: rest⟩) (hwatch : x.inf.watch e = some inf) :
    Inv sel { x with inf, stream := some ⟨wid, rest⟩ } := by
  obtain ⟨hstore, hrev⟩ := Informer.watch_store hwatch
  have hflight : x.flight = e :: Mirror.flight { x with inf, stream := some ⟨wid, rest⟩ } := by
    unfold flight
    rw [hst]
    rfl
  have hlisted : x.listed = true := by
    rcases hl : x.listed
    · have := (h.unlisted hl).2
      rw [hst] at this
      cases this
    · rfl
  have he := h.revs e (by rw [hflight]; exact List.mem_cons_self ..)
  refine ⟨h.wf, ?_, fun hl => ?_, fun _ => ?_, fun a ha => ?_, fun st w hst' hw => ?_,
    fun _ l l' hl => ?_, ?_⟩
  · show Keyed inf.store
    rw [hstore]
    exact keyed_applied h.keyed
  · replace hl : x.listed = false := hl
    rw [hlisted] at hl
    cases hl
  · show 0 < inf.revision ∧ inf.revision ≤ x.channelRev + 1
    rw [hrev]
    omega
  · exact h.revs a (by rw [hflight]; exact List.mem_cons_of_mem _ ha)
  · obtain rfl := Option.some.inj hst'
    exact h.watcher _ w hst hw
  · have hready := h.ready hlisted (e :: l) l' (by rw [hflight, hl]; rfl)
    rw [lastRev_cons, List.foldl_cons, ← hstore, ← hrev] at hready
    exact hready
  · rintro ⟨st, hst', hcontains⟩ k
    obtain rfl := Option.some.inj hst'
    have hlive := h.live ⟨_, hst, hcontains⟩ k
    rw [hflight, List.foldl_cons, ← hstore] at hlive
    exact hlive

/-- The stream breaks. -/
theorem Inv.lose (h : Inv sel x) : Inv sel { x with stream := none } where
  wf := h.wf
  keyed := h.keyed
  unlisted hlisted := ⟨(h.unlisted hlisted).1, rfl⟩
  revision := h.revision
  revs := fun _ he => (nomatch he)
  watcher := fun _ _ hst => (nomatch hst)
  ready := by
    intro hlisted l l' hl
    have hnil : l = [] := (List.append_eq_nil_iff.mp hl.symm).1
    subst hnil
    exact h.ready hlisted [] x.flight rfl
  live := by
    rintro ⟨st, hst, -⟩
    cases hst

/-- In a list that is sorted by a key, what `f` makes of the elements from one of
its results on is that result and what comes after it. -/
theorem filterMap_from {α β : Type} {f : α → Option β} {key : α → ℤ} {g : β → ℤ} {l : List α}
    {u v : List β} {b : β} (hsorted : l.Pairwise fun a a' => key a < key a')
    (hkey : ∀ a ∈ l, ∀ b ∈ f a, g b = key a) (h : l.filterMap f = u ++ b :: v) :
    (l.filter fun a => decide (g b ≤ key a)).filterMap f = b :: v := by
  induction l generalizing u with
  | nil => simp at h
  | cons a l ih =>
    obtain ⟨hlt, hsorted⟩ := List.pairwise_cons.mp hsorted
    have hkey' : ∀ a ∈ l, ∀ b ∈ f a, g b = key a := fun a ha => hkey a (List.mem_cons_of_mem _ ha)
    have hskip : ∀ u', l.filterMap f = u' ++ b :: v →
        ((a :: l).filter fun a => decide (g b ≤ key a)).filterMap f = b :: v := by
      intro u' hu'
      have hb : b ∈ l.filterMap f := by
        rw [hu']
        simp
      obtain ⟨a', ha', hfa'⟩ := List.mem_filterMap.mp hb
      have hneg : ¬ decide (g b ≤ key a) = true := by
        rw [decide_eq_true_iff, hkey' a' ha' b hfa']
        have := hlt a' ha'
        omega
      rw [List.filter_cons, if_neg hneg]
      exact ih hsorted hkey' hu'
    rw [List.filterMap_cons] at h
    rcases hfa : f a with _ | b'
    · rw [hfa] at h
      exact hskip u h
    · rw [hfa] at h
      rcases u with _ | ⟨b'', u⟩
      · obtain ⟨rfl, hv⟩ := List.cons.inj h
        have hself := hkey a (List.mem_cons_self ..) b' hfa
        have hall : (a :: l).filter (fun a => decide (g b' ≤ key a)) = a :: l := by
          refine List.filter_eq_self.mpr fun a' ha' => decide_eq_true ?_
          rcases List.mem_cons.mp ha' with rfl | ha'
          · omega
          · have := hlt a' ha'
            omega
        rw [hall, List.filterMap_cons, hfa, ← hv]
      · exact hskip u (List.cons.inj h).2

/-- The events that a new stream starts with. -/
def replay (sel : Selection V) (x : Mirror V) : List (WatchEvent V) :=
  sel.convert (x.cs.cache.events.filter fun e => decide (x.inf.revision ≤ e.channelRev))

theorem watch_eq (h : Inv sel x) (hlisted : x.listed = true) (hok : x.StepOk sel .watch)
    {cs : CacheStore V} {wid : ℕ}
    (hwatch : x.cs.watch sel.nameSpace x.inf.revision sel.pred = (cs, some wid)) :
    cs = { x.cs with
      lastWatcherId := wid
      watchers := x.cs.watchers.insert wid ⟨sel.nameSpace, sel.pred, x.replay sel⟩ } := by
  have hne : x.inf.revision ≠ 0 := by
    have := h.revision hlisted
    omega
  unfold CacheStore.watch at hwatch
  dsimp only at hwatch
  split at hwatch
  next => cases hwatch
  next events hevents =>
    have heq : events = x.cs.cache.getAllEvents x.inf.revision sel.pred := by
      unfold CacheStore.getAllEvents at hevents
      split at hevents
      next => cases hevents
      next =>
        rw [if_neg hne] at hevents
        split at hevents
        next => cases hevents
        next => exact (Except.ok.inj hevents).symm
    have hreplay : events.filterMap sel.watcher.convertToWatchEvent = x.replay sel := by
      unfold replay Selection.convert
      rw [heq, RingBuf.getAllEvents, List.filterMap_filter, List.filterMap_filter]
      refine List.filterMap_congr fun e he => ?_
      by_cases hr : x.inf.revision ≤ e.channelRev
      · rcases hev : sel.watcher.convertToWatchEvent e with _ | ev
        · simp
        · have hpred := hok.2 e he hr (by rw [hev]; rfl)
          simp [hpred]
      · simp [hr]
    obtain ⟨hcs, hwid⟩ := Prod.mk.inj hwatch
    obtain rfl := Option.some.inj hwid
    rw [← hcs, sent_foldl_send]
    have hconvert : (CacheWatcher.mk sel.nameSpace sel.pred []).convertToWatchEvent =
        sel.watcher.convertToWatchEvent := rfl
    rw [hconvert, hreplay]
    rfl

theorem Inv.mem_history (h : Inv sel x) {e : WatchCacheEvent V} (he : e ∈ x.cs.cache.events) :
    e ∈ x.history := by
  rw [h.wf.ring] at he
  exact List.mem_of_mem_drop he

/-- Replaying from one of the events of a replay on gives that event and those
after it. -/
theorem Inv.convert_since (h : Inv sel x) {u v : List (WatchEvent V)} {ev : WatchEvent V}
    (hsplit : x.replay sel = u ++ ev :: v) :
    sel.convert (x.toServer.since ev.obj.channelRev) = ev :: v := by
  have hsorted : (x.cs.cache.events.filter fun e => decide (x.inf.revision ≤ e.channelRev)).Pairwise
      fun a b => a.channelRev < b.channelRev := by
    rw [h.wf.ring]
    exact (h.wf.sorted.sublist (List.drop_sublist ..)).sublist List.filter_sublist
  have hfrom := filterMap_from (g := fun ev => ev.obj.channelRev) hsorted
    (fun e he ev hev => h.wf.stamped e (h.mem_history (List.mem_filter.mp he).1) ev hev) hsplit
  have hevent : ev ∈ x.replay sel := by
    rw [hsplit]
    simp
  obtain ⟨e, he, hconvert⟩ := List.mem_filterMap.mp hevent
  obtain ⟨hemem, her⟩ := List.mem_filter.mp he
  have herev := h.wf.stamped e (h.mem_history hemem) ev hconvert
  -- what has left the ring is older than all events in it
  have hnil : (x.history.take x.cs.cache.head).filter
      (fun e => decide (ev.obj.channelRev ≤ e.channelRev)) = [] := by
    refine List.filter_eq_nil_iff.mpr fun a ha => ?_
    have hsorted' := h.wf.sorted
    rw [← List.take_append_drop x.cs.cache.head x.history, ← h.wf.ring] at hsorted'
    have := (List.pairwise_append.mp hsorted').2.2 a ha e hemem
    rw [decide_eq_true_iff]
    omega
  have hlater : x.toServer.since ev.obj.channelRev =
      (x.cs.cache.events.filter fun e => decide (x.inf.revision ≤ e.channelRev)).filter
        fun e => decide (ev.obj.channelRev ≤ e.channelRev) := by
    unfold Server.since
    rw [← List.take_append_drop x.cs.cache.head x.history, List.filter_append, ← h.wf.ring,
      List.filter_filter, hnil, List.nil_append]
    refine List.filter_congr fun a _ => ?_
    have := of_decide_eq_true her
    by_cases ha : ev.obj.channelRev ≤ a.channelRev
    · have hle : x.inf.revision ≤ a.channelRev := by omega
      simp [ha, hle]
    · simp [ha]
  unfold Selection.convert
  rw [hlater, hfrom]

/-- A stream is opened. -/
theorem Inv.watch (h : Inv sel x) (hlisted : x.listed = true)
    (hok : x.StepOk sel .watch) {cs : CacheStore V} {wid : ℕ}
    (hwatch : x.cs.watch sel.nameSpace x.inf.revision sel.pred = (cs, some wid)) :
    Inv sel { x with cs, stream := some ⟨wid, []⟩ } := by
  have hcs := watch_eq h hlisted hok hwatch
  subst hcs
  have hwatcher : (x.cs.watchers.insert wid ⟨sel.nameSpace, sel.pred, x.replay sel⟩)[wid]? =
      some ⟨sel.nameSpace, sel.pred, x.replay sel⟩ := BTreeMap.get_insert_self ..
  have hflight : Mirror.flight { x with
      cs := { x.cs with
        lastWatcherId := wid
        watchers := x.cs.watchers.insert wid ⟨sel.nameSpace, sel.pred, x.replay sel⟩ }
      stream := some ⟨wid, []⟩ } = x.replay sel := by
    unfold flight CacheStore.unsent
    dsimp only
    rw [hwatcher]
    rfl
  have hsince : x.toServer.since x.inf.revision =
      (x.history.take x.cs.cache.head).filter (fun e => decide (x.inf.revision ≤ e.channelRev)) ++
        x.cs.cache.events.filter fun e => decide (x.inf.revision ≤ e.channelRev) := by
    unfold Server.since
    rw [h.wf.ring, ← List.filter_append, List.take_append_drop]
  have hmatches : ∀ k, Matches sel ((x.replay sel).foldl applied x.inf.store) x.cs k := by
    intro k
    have hready := h.ready hlisted [] x.flight rfl k
    replace hready : Matches sel ((sel.convert (x.toServer.since x.inf.revision)).foldl applied
      x.inf.store) x.cs k := hready
    have hlost : (sel.convert ((x.history.take x.cs.cache.head).filter
        fun e => decide (x.inf.revision ≤ e.channelRev))).foldl applied x.inf.store = x.inf.store := by
      refine foldl_applied_eq_self fun ev hev => ?_
      obtain ⟨e, he, hconvert⟩ := List.mem_filterMap.mp hev
      obtain ⟨he, hr⟩ := List.mem_filter.mp he
      exact hok.1 e he (of_decide_eq_true hr) ev hconvert
    rw [hsince, convert_append, List.foldl_append, hlost] at hready
    exact hready
  refine ⟨⟨h.wf.keyed, h.wf.positive, h.wf.listRevision, h.wf.ring, h.wf.head, h.wf.sorted, h.wf.past,
    h.wf.pos, h.wf.stamped⟩, h.keyed, fun hl => ?_, h.revision, fun ev hev => ?_, fun st w hst' hw => ?_,
    fun _ l l' hl k => ?_, fun _ k => ?_⟩
  · replace hl : x.listed = false := hl
    rw [hlisted] at hl
    cases hl
  · rw [hflight] at hev
    obtain ⟨e, he, hconvert⟩ := List.mem_filterMap.mp hev
    have hmem := h.mem_history (List.mem_filter.mp he).1
    rw [h.wf.stamped e hmem ev hconvert]
    exact ⟨h.wf.pos e hmem, h.wf.past e hmem⟩
  · obtain rfl := Option.some.inj hst'
    replace hw : (x.cs.watchers.insert wid ⟨sel.nameSpace, sel.pred, x.replay sel⟩)[wid]? = some w := hw
    rw [hwatcher] at hw
    obtain rfl := Option.some.inj hw
    exact ⟨rfl, rfl⟩
  · rw [hflight] at hl
    rcases l.eq_nil_or_concat with rfl | ⟨u, ev, rfl⟩
    · exact h.ready hlisted [] x.flight rfl k
    · rw [List.concat_eq_append] at hl ⊢
      have hsplit : x.replay sel = u ++ ev :: l' := by
        rw [hl, List.append_assoc]
        rfl
      have hagain : (sel.convert (x.toServer.since ev.obj.channelRev)).foldl applied
          ((u ++ [ev]).foldl applied x.inf.store) = (x.replay sel).foldl applied x.inf.store := by
        rw [h.convert_since hsplit, hsplit, List.foldl_append, List.foldl_append, List.foldl_cons,
          List.foldl_cons, List.foldl_cons, List.foldl_nil, applied_applied]
      show Matches sel ((sel.convert (x.toServer.since (lastRev x.inf.revision (u ++ [ev])))).foldl
        applied ((u ++ [ev]).foldl applied x.inf.store)) x.cs k
      rw [lastRev_append, hagain]
      exact hmatches k
  · rw [hflight]
    exact hmatches k

/-- A stream could not be opened. -/
theorem Inv.refused (h : Inv sel x) (n : ℕ) :
    Inv sel { x with cs := { x.cs with lastWatcherId := n }, stream := none } :=
  have h' := h.lose
  ⟨⟨h.wf.keyed, h.wf.positive, h.wf.listRevision, h.wf.ring, h.wf.head, h.wf.sorted, h.wf.past,
    h.wf.pos, h.wf.stamped⟩, h.keyed, h'.unlisted, h.revision, h'.revs, h'.watcher, h'.ready,
    fun ⟨_, hst, _⟩ => (nomatch hst)⟩

/-! ## Runs -/

section Settled

variable [Inhabited V]

theorem settled_of_none (h : x.fetched = none) : x.settled = x := by
  unfold settled
  rw [h]

theorem settled_toServer (x : Mirror V) : x.settled.toServer = x.toServer := by
  unfold settled
  split
  next => rfl
  next => rfl

theorem settled_serve (x : Mirror V) (s : Server V) : (x.serve s).settled = x.settled.serve s := by
  rcases hf : x.fetched with _ | answer
  · rw [settled_of_none hf, settled_of_none (show (x.serve s).fetched = none from hf)]
  · unfold settled
    rw [show (x.serve s).fetched = some answer from hf, hf]
    rfl

theorem settled_others (x : Mirror V) (n : ℕ) : Mirror.settled { x with channelRev := x.channelRev + n } =
    { x.settled with channelRev := x.settled.channelRev + n } := by
  unfold settled
  dsimp only
  split
  next => rfl
  next => rfl

theorem settled_lose (x : Mirror V) :
    Mirror.settled { x with stream := none } = { x.settled with stream := none } := by
  unfold settled
  dsimp only
  split
  next => rfl
  next => rfl

/-- What holds in every state of a run: merging the answer that is on its way keeps the informer
in line, and until then it has no stream. -/
structure InvRun (sel : Selection V) (x : Mirror V) : Prop where
  /-- with the answer merged -/
  inv : Inv sel x.settled
  /-- before -/
  waiting : x.fetched.isSome = true → x.listed = false ∧ x.stream = none

/-- Where no answer is on its way, nothing is merged. -/
theorem InvRun.of_none (h : Inv sel x) (hnone : x.fetched = none) : InvRun sel x := by
  refine ⟨by rwa [settled_of_none hnone], fun hsome => ?_⟩
  rw [hnone] at hsome
  cases hsome

theorem InvRun.serve (h : InvRun sel x) {s : Server V} (hinv : Inv sel (x.settled.serve s)) :
    InvRun sel (x.serve s) := by
  refine ⟨by rwa [settled_serve], fun hsome => ?_⟩
  obtain ⟨hlisted, hstream⟩ := h.waiting hsome
  refine ⟨hlisted, ?_⟩
  show x.stream.map _ = none
  rw [hstream]
  rfl

/-- An informer that has its list or a stream waits for no answer. -/
theorem InvRun.fetched_none (h : InvRun sel x) (hbusy : x.listed = true ∨ x.stream.isSome = true) :
    x.fetched = none := by
  rcases hf : x.fetched with _ | answer
  · rfl
  · obtain ⟨hlisted, hstream⟩ := h.waiting (by rw [hf]; rfl)
    rw [hlisted, hstream] at hbusy
    rcases hbusy with hbusy | hbusy
    · cases hbusy
    · cases hbusy

theorem InvRun.next (h : InvRun sel x) {c : MirrorInput V} (hok : x.settled.StepOk sel c)
    (hnext : x.next sel c = some y) : InvRun sel y := by
  cases c with
  | process e full =>
    obtain rfl := Option.some.inj hnext
    have hinv : Inv sel (x.settled.serve (x.settled.toServer.process full e)) := h.inv.process hok
    rw [settled_toServer] at hinv
    exact h.serve hinv
  | others n =>
    obtain rfl := Option.some.inj hnext
    refine ⟨?_, h.waiting⟩
    rw [settled_others]
    exact h.inv.others n
  | rebuild objs full =>
    obtain rfl := Option.some.inj hnext
    have hinv := h.inv.rebuild hok
    rw [settled_toServer] at hinv
    exact h.serve hinv
  | list =>
    dsimp only [Mirror.next] at hnext
    split at hnext
    next => cases hnext
    next hcond =>
      obtain rfl := Option.some.inj hnext
      rw [Bool.or_eq_true, not_or, Bool.not_eq_true] at hcond
      have hinv := h.inv
      rw [settled_of_none (Option.not_isSome_iff_eq_none.mp hcond.2)] at hinv
      exact ⟨hinv.list hcond.1, fun _ => ⟨hcond.1, (hinv.unlisted hcond.1).2⟩⟩
  | merge =>
    obtain ⟨answer, hf, rfl⟩ := Option.map_eq_some_iff.mp hnext
    have hinv := h.inv
    unfold settled at hinv
    rw [hf] at hinv
    exact .of_none hinv rfl
  | watch =>
    dsimp only [Mirror.next] at hnext
    split at hnext
    next hcond =>
      obtain rfl := Option.some.inj hnext
      rw [Bool.and_eq_true] at hcond
      have hnone := h.fetched_none (.inl hcond.1)
      have hinv := h.inv
      rw [settled_of_none hnone] at hinv hok
      refine .of_none ?_ hnone
      rcases hwatch : x.cs.watch sel.nameSpace x.inf.revision sel.pred with ⟨cs, _ | wid⟩
      · have hcs : cs = { x.cs with lastWatcherId := x.cs.lastWatcherId + 1 } := by
          unfold CacheStore.watch at hwatch
          dsimp only at hwatch
          split at hwatch
          next => exact (Prod.mk.inj hwatch).1.symm
          next => cases hwatch
        rw [hcs]
        exact hinv.refused _
      · exact hinv.watch hcond.1 hok hwatch
    next => cases hnext
  | forward =>
    dsimp only [Mirror.next] at hnext
    split at hnext
    next => cases hnext
    next st hst =>
      obtain rfl := Option.some.inj hnext
      have hnone := h.fetched_none (.inr (by rw [hst]; rfl))
      have hinv := h.inv
      rw [settled_of_none hnone] at hinv
      exact .of_none (hinv.forward hst) hnone
  | deliver =>
    dsimp only [Mirror.next] at hnext
    split at hnext
    next wid e rest hst =>
      obtain ⟨inf, hwatch, rfl⟩ := Option.map_eq_some_iff.mp hnext
      have hnone := h.fetched_none (.inr (by rw [hst]; rfl))
      have hinv := h.inv
      rw [settled_of_none hnone] at hinv
      have htaken := hinv.deliver hst hwatch
      refine .of_none ?_ hnone
      split
      next => exact htaken.lose
      next => exact htaken
    next => cases hnext
  | lose =>
    obtain rfl := Option.some.inj hnext
    refine ⟨?_, fun hsome => ⟨(h.waiting hsome).1, rfl⟩⟩
    rw [settled_lose]
    exact h.inv.lose

end Settled

theorem Start.inv (h : Start x) : Inv sel x := by
  have hcs := h.cs
  refine ⟨⟨?_, h.channelRev, ?_, ?_, ?_, ?_, ?_, ?_, ?_⟩, ?_, fun _ => ⟨h.inf, h.stream⟩, ?_, ?_, ?_, ?_, ?_⟩
  · rw [hcs]
    exact Keyed.empty
  · rw [hcs]
  · rw [hcs, h.history]
    rfl
  · rw [hcs]
    exact Nat.zero_le _
  · rw [h.history]
    exact List.Pairwise.nil
  · rw [h.history]
    exact fun _ he => (nomatch he)
  · rw [h.history]
    exact fun _ he => (nomatch he)
  · rw [h.history]
    exact fun _ he => (nomatch he)
  · rw [h.inf]
    exact Keyed.empty
  · intro hlisted
    rw [h.listed] at hlisted
    cases hlisted
  · unfold flight
    rw [h.stream]
    exact fun _ he => (nomatch he)
  · intro st w hst
    rw [h.stream] at hst
    cases hst
  · intro hlisted
    rw [h.listed] at hlisted
    cases hlisted
  · rintro ⟨st, hst, -⟩
    rw [h.stream] at hst
    cases hst

/-- **An informer mirrors the server.** In every run whose steps keep to `StepOk`,
whenever a stream is open and every event sent on it has been taken, the
informer holds the selected objects of the store, each with the same revision. -/
theorem mirrored_of_reach [Inhabited V]
    (h : Reach (next sel) Start (fun x => x.settled.StepOk sel) x) : x.Mirrored sel := by
  have hrun : InvRun sel x :=
    h.invariant (fun x hx => .of_none hx.inv hx.fetched) fun x c y hx hok hnext => hx.next hok hnext
  intro hlive hflight k
  have hinv := hrun.inv
  obtain ⟨st, hst, hcontains⟩ := hlive
  rw [settled_of_none (hrun.fetched_none (.inr (by rw [hst]; rfl)))] at hinv
  have hmatches := hinv.live ⟨st, hst, hcontains⟩ k
  rw [hflight] at hmatches
  exact hmatches

end Mirror

/-! ## Two runs -/

namespace Sample

/-- An informer that asks for everything. -/
def everything : Selection ℤ := ⟨"", "", fun _ => true, fun _ _ _ => rfl⟩

/-- A new server and a new informer. -/
def unwatched : Mirror ℤ := { cs := { objectType := "pod" }, channelRev := 0 }

/-- The informer lists an object that is changed while the answer is on its way, and again when
it is watched. -/
def followed : List (MirrorInput ℤ) :=
  [.rebuild [obj "a" 1 1] fun _ => false, .list, .process ⟨.modified, obj "a" 2 5⟩ fun _ => false,
    .merge, .watch, .process ⟨.modified, obj "a" 3 6⟩ fun _ => false, .forward, .deliver, .deliver]

/-- The object is gone when the store is rebuilt, and then the informer opens its
stream. -/
def forgotten : List (MirrorInput ℤ) :=
  [.rebuild [obj "a" 1 1] fun _ => false, .list, .merge, .rebuild [] fun _ => false, .watch]

/-- Is there nothing that a rebuild or an opened stream could miss? -/
def safe (x : Mirror ℤ) : MirrorInput ℤ → Bool
  | .rebuild _ _ => x.settled.inf.store.isEmpty && x.settled.flight.isEmpty
  | .watch => x.settled.cs.cache.head == 0
  | _ => true

/-- The state after some steps. -/
def mirror (l : List (MirrorInput ℤ)) : Mirror ℤ :=
  (exec (Mirror.next everything) (fun x c => safe x c = true) unwatched l).getD unwatched

/-- The same, whatever the steps. -/
def mirror' (l : List (MirrorInput ℤ)) : Mirror ℤ :=
  (exec (Mirror.next everything) (fun _ _ => True) unwatched l).getD unwatched

end Sample

namespace Mirror

theorem start_unwatched : Start Sample.unwatched := ⟨rfl, Int.le_refl _, rfl, rfl, rfl, rfl, rfl⟩

theorem stepOk_of_safe {x : Mirror ℤ} {c : MirrorInput ℤ} (h : Sample.safe x c = true) :
    x.settled.StepOk Sample.everything c := by
  cases c with
  | process e full => rfl
  | rebuild objs full =>
    obtain ⟨hstore, hflight⟩ := (Bool.and_eq_true _ _).mp h
    refine ⟨fun _ _ => rfl, fun k o ho => ?_, fun e he => ?_⟩
    · rw [Std.ExtTreeMap.isEmpty_iff.mp hstore, Std.ExtTreeMap.getElem?_empty] at ho
      cases ho
    · rw [List.isEmpty_iff.mp hflight] at he
      cases he
  | watch =>
    have hhead : x.settled.cs.cache.head = 0 := beq_iff_eq.mp h
    refine ⟨fun e he => ?_, fun _ _ _ _ => rfl⟩
    rw [hhead] at he
    cases he
  | _ => trivial

/-- A change reaches an informer that is watching. -/
theorem mirrored_after_change : (Sample.mirror Sample.followed).Live ∧
    (Sample.mirror Sample.followed).flight = [] ∧
    (Sample.mirror Sample.followed).Mirrored Sample.everything := by
  refine ⟨⟨⟨1, []⟩, by decide +kernel, by decide +kernel⟩, by decide +kernel, ?_⟩
  have hsome : (exec (next Sample.everything) (fun x c => Sample.safe x c = true) Sample.unwatched
      Sample.followed).isSome = true := by
    decide +kernel
  obtain ⟨x, hx⟩ := Option.isSome_iff_exists.mp hsome
  have heq : Sample.mirror Sample.followed = x := by
    unfold Sample.mirror
    rw [hx, Option.getD_some]
  rw [heq]
  have hreach : Reach (next Sample.everything) Start (fun x c => Sample.safe x c = true) x :=
    Reach.of_exec _ _ (.init start_unwatched) hx
  exact mirrored_of_reach (hreach.mono fun _ _ => stepOk_of_safe)

/-- A rebuild forgets what was deleted, and the informer never learns of it. -/
theorem deleted_in_rebuild : ¬ ∀ (sel : Selection ℤ) (x : Mirror ℤ),
    Reach (next sel) Start (fun _ _ => True) x → x.Mirrored sel := by
  intro h
  have hsome : (exec (next Sample.everything) (fun _ _ => True) Sample.unwatched
      Sample.forgotten).isSome = true := by
    decide +kernel
  obtain ⟨x, hx⟩ := Option.isSome_iff_exists.mp hsome
  have heq : Sample.mirror' Sample.forgotten = x := by
    unfold Sample.mirror'
    rw [hx, Option.getD_some]
  have hmirrored := h _ x (Reach.of_exec _ _ (.init start_unwatched) hx)
  rw [← heq] at hmirrored
  have hlive : (Sample.mirror' Sample.forgotten).Live := by
    refine ⟨⟨1, []⟩, ?_, ?_⟩
    · rfl
    · decide +kernel
  have hflight : (Sample.mirror' Sample.forgotten).flight = [] := by
    rfl
  have hkey := hmirrored hlive hflight "t/n/a"
  have hheld : ((Sample.mirror' Sample.forgotten).inf.store["t/n/a"]?.map DataObject.revision).isSome =
      true := by
    decide +kernel
  have hgone : (((Sample.mirror' Sample.forgotten).cs.cacheStore["t/n/a"]?.filter
      Sample.everything.selects).map DataObject.revision).isSome = false := by
    decide +kernel
  unfold Matches at hkey
  rw [hkey, hgone] at hheld
  cases hheld

end Mirror

end Inferx.Metastore
