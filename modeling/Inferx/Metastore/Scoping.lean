import Inferx.Etcd.Pages
import Inferx.Lib.Keys
import Inferx.Metastore.Views

/-!
# Tenants and namespaces

Three ways lead to the objects of a namespace, and each makes its own prefix. A list from
the cache takes `tenant/namespace`, which is a prefix of the keys of every namespace whose
name starts with this one. A list from the backend takes the namespace alone, in the place
where the keys have the tenant. A watch takes the namespace alone too, and as a prefix of
the key, which begins with the tenant.
-/

namespace Inferx.Metastore

open Etcd Strs

variable {V : Type}

/-! ## The three ways -/

/-- `CacheStoreInner::StoreKey`. -/
def CacheStore.storeKey (cs : CacheStore V) (key : String) : String := cs.objectType ++ "/" ++ key

/-- `CacheStore::List` once the cache has the revision that is asked for; -1 asks the backend. -/
def CacheStore.listWith (fuel : ℕ) (store : Option (EtcdStore V)) (tenant nameSpace : String)
    (opts : ListOption V) (cs : CacheStore V) : Option (Except ListError (List (DataObject V))) :=
  if opts.revision = -1 then
    match store with
    | none => some (.ok [])
    | some s => (s.list fuel (cs.storeKey nameSpace) { opts with revision := 0 }).map fun r =>
        r.map fun l => l.objs.map Prod.snd
  else some (.ok (cs.list tenant nameSpace opts.pred))

/-- `StateSvc::list`: the options of a request. -/
def listOption (revision : ℤ) (pred : DataObject V → Bool) : ListOption V where
  revision := revision
  revisionMatch := .exact
  pred := pred

/-- `StateSvc::watch`: the watch is opened for the namespace. -/
def CacheStore.watchRequest (cs : CacheStore V) (_tenant nameSpace : String) (revision : ℤ)
    (pred : DataObject V → Bool) : CacheStore V × Option ℕ :=
  cs.watch nameSpace revision pred

/-- `validate_name`. -/
def validateName (s : String) : Bool :=
  s.toList.all fun c => c.isAlphanum || c == '-' || c == '_' || c == '.'

/-! ## What is promised -/

/-- Names as they are accepted. -/
structure ValidNames (o : DataObject V) : Prop where
  tenant : validateName o.tenant = true
  nameSpace : validateName o.nameSpace = true
  name : validateName o.name = true

/-- An event about an object with valid names, and what it replaces has the same key. -/
structure ValidEvent (e : WatchCacheEvent V) : Prop where
  names : ValidNames e.obj
  prev : ∀ old, e.prevObj = some old → ValidNames old ∧ old.key = e.obj.key

/-- A cache with valid names: each object is under its key, and the events fit. -/
structure ValidCache (cs : CacheStore V) : Prop where
  keyed : Keyed cs.cacheStore
  names : ∀ (k : String) (o : DataObject V), cs.cacheStore[k]? = some o → ValidNames o
  events : ∀ e ∈ cs.cache.events, ValidEvent e

/-- The backend holds the objects of the cache. -/
def SameObjects (s : EtcdStore V) (cs : CacheStore V) : Prop :=
  ∀ (k : String) (o : DataObject V), s.contents[k]? = some o ↔
    cs.cacheStore[o.key]? = some o ∧ s.prepareKey (cs.storeKey o.key) = .ok k

/-- An object of this tenant and namespace. -/
def InScope (tenant nameSpace : String) (o : DataObject V) : Prop :=
  o.tenant = tenant ∧ o.nameSpace = nameSpace

instance (tenant nameSpace : String) (o : DataObject V) : Decidable (InScope tenant nameSpace o) :=
  inferInstanceAs (Decidable (_ ∧ _))

/-- The list has exactly the objects of the tenant and the namespace that pass, each once. -/
def ListsScope (cs : CacheStore V) (tenant nameSpace : String) (pred : DataObject V → Bool)
    (objs : List (DataObject V)) : Prop :=
  objs.Nodup ∧ ∀ o, o ∈ objs ↔
    cs.cacheStore[o.key]? = some o ∧ pred o = true ∧ InScope tenant nameSpace o

/-- The events that are kept of some calls. -/
def CacheStore.applied (cs : CacheStore V) : List (ProcessCall V) → List (WatchCacheEvent V)
  | [] => []
  | a :: l =>
    (if cs.stale a.event then [] else [cs.cacheEvent a.channelRev a.event]) ++
      (cs.processEvent a.full a.channelRev a.event).applied l

/-- What a watch starts with. -/
def CacheStore.initialEvents (cs : CacheStore V) (revision : ℤ) (pred : DataObject V → Bool) :
    List (WatchCacheEvent V) :=
  match cs.getAllEvents revision pred with
  | .ok events => events
  | .error _ => []

/-- Everything there is to deliver to a watch with this predicate, were it not scoped. -/
def CacheStore.unscoped (cs : CacheStore V) (revision : ℤ) (pred : DataObject V → Bool)
    (l : List (ProcessCall V)) : List (WatchEvent V) :=
  (cs.initialEvents revision pred ++ cs.applied l).filterMap
    (⟨"", pred, []⟩ : CacheWatcher V).convertToWatchEvent

/-! ## Keys -/

section Keys

variable {o : DataObject V} {tenant nameSpace : String}

theorem slash_not_mem_of_validateName {s : String} (h : validateName s = true) : '/' ∉ s.toList :=
  fun hmem => absurd (List.all_eq_true.mp h '/' hmem) (by decide)

theorem DataObject.key_ne_empty (o : DataObject V) : o.key ≠ "" := by
  intro h
  have hnil : o.key.toList = [] := congrArg String.toList h
  rw [DataObject.key_toList] at hnil
  exact List.append_ne_nil_of_right_ne_nil _ (List.cons_ne_nil _ _) hnil

/-- The prefix of a list from the cache. -/
theorem listPrefix_iff (ho : ValidNames o) (htenant : validateName tenant = true)
    (hnameSpace : validateName nameSpace = true) (ht : tenant ≠ "") (hn : nameSpace ≠ "") :
    (CacheStore.listPrefix tenant nameSpace).toList <+: o.key.toList ↔
      o.tenant = tenant ∧ nameSpace.toList <+: o.nameSpace.toList := by
  have hstart : (CacheStore.listPrefix tenant nameSpace).toList =
      tenant.toList ++ '/' :: nameSpace.toList := by
    unfold CacheStore.listPrefix
    rw [if_neg (by simpa using ht), if_neg (by simpa using hn)]
    simp only [String.toList_append, List.append_assoc]
    rfl
  rw [hstart, DataObject.key_toList]
  constructor
  · intro h
    obtain ⟨heq, h⟩ := List.part_of_prefix (slash_not_mem_of_validateName htenant)
      (slash_not_mem_of_validateName ho.tenant) h
    exact ⟨String.toList_inj.mp heq.symm,
      (List.prefix_part_iff (slash_not_mem_of_validateName hnameSpace)).mp h⟩
  · rintro ⟨rfl, h⟩
    exact (List.prefix_append_right_inj _).mpr (List.cons_prefix_cons.mpr ⟨rfl,
      (List.prefix_part_iff (slash_not_mem_of_validateName hnameSpace)).mpr h⟩)

/-- The prefix of a watch. -/
theorem watchPrefix_iff (hnameSpace : validateName nameSpace = true) :
    nameSpace.toList <+: o.key.toList ↔ nameSpace.toList <+: o.tenant.toList := by
  rw [DataObject.key_toList]
  exact List.prefix_part_iff (slash_not_mem_of_validateName hnameSpace)

/-- The prefix of a list from the backend, behind what all keys have. -/
theorem storePrefix_iff (ho : ValidNames o) (hnameSpace : validateName nameSpace = true) :
    nameSpace.toList ++ ['/'] <+: o.key.toList ↔ o.tenant = nameSpace := by
  rw [DataObject.key_toList]
  constructor
  · intro h
    exact (String.toList_inj.mp (List.part_of_prefix (slash_not_mem_of_validateName hnameSpace)
      (slash_not_mem_of_validateName ho.tenant) h).1).symm
  · rintro rfl
    exact (List.prefix_append_right_inj _).mpr (List.cons_prefix_cons.mpr ⟨rfl, List.nil_prefix⟩)

/-- Where the backend puts a key. -/
theorem prepareKey_storeKey (s : EtcdStore V) (cs : CacheStore V) :
    ∃ base : List Char, ∀ key : String, key ≠ "" →
      ∃ k, s.prepareKey (cs.storeKey key) = .ok k ∧ k.toList = base ++ key.toList := by
  have htoList : ∀ key : String,
      (cs.storeKey key).toList = cs.objectType.toList ++ '/' :: key.toList := by
    intro key
    unfold CacheStore.storeKey
    rw [String.toList_append, String.toList_append, List.append_assoc]
    rfl
  have hvalid : ∀ key : String, key ≠ "" → ¬ (cs.storeKey key = "." ∨ cs.storeKey key = "/") := by
    intro key hkey h
    have hlist : cs.objectType.toList ++ '/' :: key.toList = ['.'] ∨
        cs.objectType.toList ++ '/' :: key.toList = ['/'] :=
      (htoList key) ▸ h.imp (congrArg String.toList) (congrArg String.toList)
    have hlen : (cs.objectType.toList ++ '/' :: key.toList).length = 1 := by
      rcases hlist with h | h
      · rw [h]
        rfl
      · rw [h]
        rfl
    rw [List.length_append, List.length_cons] at hlen
    have hnil : key.toList = [] := List.length_eq_zero_iff.mp (by omega)
    exact hkey (String.toList_inj.mp hnil)
  have hprepare : ∀ key : String, key ≠ "" → s.prepareKey (cs.storeKey key) =
      .ok (s.pathPrefix ++ "/" ++ String.ofList (if ['/'].isPrefixOf (cs.storeKey key).toList then
        (cs.storeKey key).toList.drop 1 else (cs.storeKey key).toList)) := by
    intro key hkey
    unfold EtcdStore.prepareKey
    rw [if_neg (hvalid key hkey)]
  rcases hfirst : cs.objectType.toList with _ | ⟨c, rest⟩
  · -- the slash behind the type is the leading one
    refine ⟨s.pathPrefix.toList ++ ['/'], fun key hkey => ⟨_, hprepare key hkey, ?_⟩⟩
    rw [htoList, hfirst]
    simp [String.toList_append]
  · by_cases hc : c = '/'
    · refine ⟨s.pathPrefix.toList ++ '/' :: rest ++ ['/'],
        fun key hkey => ⟨_, hprepare key hkey, ?_⟩⟩
      rw [htoList, hfirst, hc]
      simp [String.toList_append]
    · refine ⟨s.pathPrefix.toList ++ '/' :: c :: rest ++ ['/'],
        fun key hkey => ⟨_, hprepare key hkey, ?_⟩⟩
      rw [htoList, hfirst]
      simp [String.toList_append, Ne.symm hc]

end Keys

/-! ## Lists -/

section Lists

variable {cs : CacheStore V} {s : EtcdStore V} {tenant nameSpace : String}
  {pred : DataObject V → Bool}

/-- Objects that tell their keys are listed once. -/
theorem nodup_values {m : Objects V}
    (h : ∀ (k k' : String) (o : DataObject V), m[k]? = some o → m[k']? = some o → k = k') :
    (m.toList.map Prod.snd).Nodup := by
  refine List.Nodup.map_on ?_ (BTreeMap.nodup_toList _)
  rintro ⟨k, o⟩ hp ⟨k', o'⟩ hp' heq
  obtain rfl : o = o' := heq
  rw [h k k' o (BTreeMap.mem_toList.mp hp) (BTreeMap.mem_toList.mp hp')]

theorem mem_list (hkeyed : Keyed cs.cacheStore) {o : DataObject V} :
    o ∈ cs.list tenant nameSpace pred ↔ cs.cacheStore[o.key]? = some o ∧ pred o = true ∧
      (CacheStore.listPrefix tenant nameSpace).toList <+: o.key.toList := by
  unfold CacheStore.list
  rw [List.mem_filter, Bool.and_eq_true, List.isPrefixOf_iff_prefix, List.mem_map]
  constructor
  · rintro ⟨⟨⟨k, o'⟩, hp, rfl⟩, hstart, hpred⟩
    have hget := BTreeMap.mem_toList.mp hp
    exact ⟨(hkeyed k o' hget) ▸ hget, hpred, hstart⟩
  · rintro ⟨hget, hpred, hstart⟩
    exact ⟨⟨(o.key, o), BTreeMap.mem_toList.mpr hget, rfl⟩, hstart, hpred⟩

/-- **From the cache.** A list is exact if no other namespace of the tenant that starts with this
one has objects that pass. -/
theorem list_cache_iff (hcs : ValidCache cs) (htenant : validateName tenant = true)
    (hnameSpace : validateName nameSpace = true) (ht : tenant ≠ "") (hn : nameSpace ≠ "") :
    ListsScope cs tenant nameSpace pred (cs.list tenant nameSpace pred) ↔
      ∀ (k : String) (o : DataObject V), cs.cacheStore[k]? = some o → pred o = true →
        o.tenant = tenant → nameSpace.toList <+: o.nameSpace.toList → o.nameSpace = nameSpace := by
  have hnodup : (cs.list tenant nameSpace pred).Nodup :=
    (nodup_values fun k k' o h h' => (hcs.keyed k o h).symm.trans (hcs.keyed k' o h')).filter _
  constructor
  · rintro ⟨-, hmem⟩ k o hget hpred hto hstart
    obtain rfl := hcs.keyed k o hget
    exact ((hmem o).mp ((mem_list hcs.keyed).mpr ⟨hget, hpred, (listPrefix_iff (hcs.names _ o hget)
      htenant hnameSpace ht hn).mpr ⟨hto, hstart⟩⟩)).2.2.2
  · refine fun h => ⟨hnodup, fun o => (mem_list hcs.keyed).trans ?_⟩
    refine and_congr_right fun hget => and_congr_right fun hpred => ?_
    rw [listPrefix_iff (hcs.names _ o hget) htenant hnameSpace ht hn]
    refine and_congr_right fun hto => ⟨h _ o hget hpred hto, ?_⟩
    rintro rfl
    exact List.prefix_refl _

/-- A text that ends with a name gets a slash. -/
theorem keyPrefix_of_name {preparedKey : String} {base : List Char}
    (hlist : preparedKey.toList = base ++ nameSpace.toList)
    (hnameSpace : validateName nameSpace = true) (hn : nameSpace ≠ "") :
    (EtcdStore.keyPrefix preparedKey).toList = base ++ (nameSpace.toList ++ ['/']) := by
  have hend : ¬ ['/'].isSuffixOf preparedKey.toList = true := by
    rw [List.isSuffixOf_iff_suffix, hlist]
    rintro ⟨t, ht⟩
    obtain ⟨q, c, hqc⟩ := (List.eq_nil_or_concat nameSpace.toList).resolve_left
      fun hnil => hn (String.toList_inj.mp hnil)
    rw [hqc, List.concat_eq_append, ← List.append_assoc] at ht
    have hc : ['/'] = [c] := List.append_inj_right' ht rfl
    refine slash_not_mem_of_validateName hnameSpace ?_
    rw [hqc, List.concat_eq_append, ← hc]
    exact List.mem_append_right _ (List.mem_singleton_self _)
  unfold EtcdStore.keyPrefix
  rw [if_neg hend, String.toList_append, hlist, List.append_assoc]
  rfl

/-- What a list from the backend returns. -/
theorem listWith_backend (tenant : String) (pred : DataObject V → Bool) (fuel : ℕ)
    (hcs : ValidCache cs) (hsame : SameObjects s cs)
    (hnameSpace : validateName nameSpace = true) (hn : nameSpace ≠ "") :
    ∃ objs, cs.listWith (fuel + 1) (some s) tenant nameSpace (listOption (-1) pred)
        = some (.ok objs) ∧
      objs.Nodup ∧ ∀ o, o ∈ objs ↔
        cs.cacheStore[o.key]? = some o ∧ pred o = true ∧ o.tenant = nameSpace := by
  obtain ⟨base, hbase⟩ := prepareKey_storeKey s cs
  obtain ⟨preparedKey, hprepare, hlist⟩ := hbase nameSpace hn
  obtain ⟨rv, heq⟩ := list_unpaged { listOption (-1) pred with revision := 0 } hprepare
    (Bool.and_false _) (Or.inr rfl) (Or.inl rfl) fuel
  have hkeyPrefix := keyPrefix_of_name hlist hnameSpace hn
  refine ⟨(listed s preparedKey pred).map Prod.snd, ?_, ?_, fun o => ?_⟩
  · unfold CacheStore.listWith
    rw [if_pos (show (listOption (-1) pred).revision = -1 from rfl)]
    exact congrArg (Option.map _) heq
  · refine List.Nodup.sublist (List.filter_sublist.map _) (nodup_values fun k k' o h h' => ?_)
    exact Except.ok.inj (((hsame k o).mp h).2.symm.trans ((hsame k' o).mp h').2)
  · have hunder : ∀ k : String, cs.cacheStore[o.key]? = some o → s.prepareKey
      (cs.storeKey o.key) = .ok k →
        ((EtcdStore.keyPrefix preparedKey).toList <+: k.toList ↔ o.tenant = nameSpace) := by
      intro k hget hk
      obtain ⟨k', hk', hk'list⟩ := hbase o.key o.key_ne_empty
      obtain rfl := Except.ok.inj (hk.symm.trans hk')
      rw [hkeyPrefix, hk'list, List.prefix_append_right_inj]
      exact storePrefix_iff (hcs.names _ o hget) hnameSpace
    unfold listed
    rw [List.mem_map]
    constructor
    · rintro ⟨⟨k, o'⟩, hp, rfl⟩
      obtain ⟨hp, hsel⟩ := List.mem_filter.mp hp
      obtain ⟨hstart, hpred⟩ := Bool.and_eq_true_iff.mp hsel
      obtain ⟨hget, hk⟩ := (hsame k o').mp (BTreeMap.mem_toList.mp hp)
      exact ⟨hget, hpred, (hunder k hget hk).mp (List.isPrefixOf_iff_prefix.mp hstart)⟩
    · rintro ⟨hget, hpred, hto⟩
      obtain ⟨k, hk, -⟩ := hbase o.key o.key_ne_empty
      refine ⟨(k, o), List.mem_filter.mpr ⟨BTreeMap.mem_toList.mpr ((hsame k o).mpr ⟨hget, hk⟩),
        Bool.and_eq_true_iff.mpr ⟨List.isPrefixOf_iff_prefix.mpr
          ((hunder k hget hk).mpr hto), hpred⟩⟩,
        rfl⟩

/-- **From the backend.** A list is exact if the tenant that is named like the namespace has, of the
objects that pass, exactly those of the namespace. -/
theorem list_backend_iff (fuel : ℕ) (hcs : ValidCache cs) (hsame : SameObjects s cs)
    (hnameSpace : validateName nameSpace = true) (hn : nameSpace ≠ "") :
    (∃ objs, cs.listWith (fuel + 1) (some s) tenant nameSpace (listOption (-1) pred)
        = some (.ok objs) ∧ ListsScope cs tenant nameSpace pred objs) ↔
      ∀ (k : String) (o : DataObject V), cs.cacheStore[k]? = some o → pred o = true →
        (o.tenant = nameSpace ↔ InScope tenant nameSpace o) := by
  obtain ⟨objs, hlist, hnodup, hmem⟩ := listWith_backend tenant pred fuel hcs hsame hnameSpace hn
  constructor
  · rintro ⟨objs', hlist', -, hmem'⟩ k o hget hpred
    obtain rfl := Except.ok.inj (Option.some.inj (hlist.symm.trans hlist'))
    obtain rfl := hcs.keyed k o hget
    have hboth := (hmem o).symm.trans (hmem' o)
    exact ⟨fun h => (hboth.mp ⟨hget, hpred, h⟩).2.2, fun h => (hboth.mpr ⟨hget, hpred, h⟩).2.2⟩
  · refine fun h => ⟨objs, hlist, hnodup, fun o => (hmem o).trans ?_⟩
    exact and_congr_right fun hget => and_congr_right fun hpred => h _ o hget hpred

end Lists

/-! ## Watches -/

section Watches

variable {cs cs' : CacheStore V} {nameSpace : String} {pred : DataObject V → Bool}
  {e : WatchCacheEvent V} {x : WatchEvent V} {w : CacheWatcher V} {id : ℕ}

/-- A watch looks at the key first. -/
theorem convertToWatchEvent_scoped (e : WatchCacheEvent V) :
    (⟨nameSpace, pred, []⟩ : CacheWatcher V).convertToWatchEvent e =
      if nameSpace.toList <+: e.obj.key.toList then
        (⟨"", pred, []⟩ : CacheWatcher V).convertToWatchEvent e
      else none := by
  split
  next h =>
    have hmatch : (⟨nameSpace, pred, []⟩ : CacheWatcher V).matchObj e.key =
        (⟨"", pred, []⟩ : CacheWatcher V).matchObj e.key := by
      funext o
      unfold CacheWatcher.matchObj
      rw [show nameSpace.toList.isPrefixOf e.key.toList
        = true from List.isPrefixOf_iff_prefix.mpr h]
      rfl
    unfold CacheWatcher.convertToWatchEvent
    rw [hmatch]
  next h =>
    have hmatch : (⟨nameSpace, pred, []⟩ : CacheWatcher V).matchObj e.key = fun _ => false := by
      funext o
      unfold CacheWatcher.matchObj
      rw [Bool.and_eq_false_iff, ← Bool.not_eq_true, List.isPrefixOf_iff_prefix]
      exact Or.inl h
    unfold CacheWatcher.convertToWatchEvent
    rw [hmatch]
    cases e.prevObj with
    | none => simp
    | some old => simp

/-- What is delivered of an event has its key. -/
theorem obj_of_convertToWatchEvent (he : ValidEvent e) (h : w.convertToWatchEvent e = some x) :
    x.obj.key = e.obj.key ∧ ValidNames x.obj := by
  unfold CacheWatcher.convertToWatchEvent at h
  dsimp only at h
  split at h
  next =>
    obtain rfl := Option.some.inj h
    exact ⟨rfl, he.names⟩
  next =>
    split at h
    next =>
      obtain rfl := Option.some.inj h
      exact ⟨rfl, he.names⟩
    next =>
      split at h
      next =>
        obtain ⟨old, hold, rfl⟩ := Option.map_eq_some_iff.mp h
        obtain ⟨hnames, hkey⟩ := he.prev old hold
        exact ⟨hkey, hnames.tenant, hnames.nameSpace, hnames.name⟩
      next => cases h

/-- Of what there is to deliver a watch has what belongs to the tenants that start with the
namespace. -/
theorem filterMap_scoped {events : List (WatchCacheEvent V)} (hevents : ∀ e ∈ events, ValidEvent e)
    (hnameSpace : validateName nameSpace = true) :
    events.filterMap (⟨nameSpace, pred, []⟩ : CacheWatcher V).convertToWatchEvent =
      (events.filterMap (⟨"", pred, []⟩ : CacheWatcher V).convertToWatchEvent).filter
        fun x => nameSpace.toList.isPrefixOf x.obj.tenant.toList := by
  rw [List.filter_filterMap]
  refine List.filterMap_congr fun e he => ?_
  rw [convertToWatchEvent_scoped]
  rcases hconvert : (⟨"", pred, []⟩ : CacheWatcher V).convertToWatchEvent e with _ | x
  · rw [ite_self]
    rfl
  · have hkey : nameSpace.toList <+: e.obj.key.toList ↔
      nameSpace.toList <+: x.obj.tenant.toList := by
      rw [← (obj_of_convertToWatchEvent (hevents e he) hconvert).1]
      exact watchPrefix_iff hnameSpace
    rw [Option.filter_some]
    exact if_congr (hkey.trans List.isPrefixOf_iff_prefix.symm) rfl rfl

theorem validEvent_cacheEvent (hcs : ValidCache cs) {c : ℤ} {e : WatchEvent V}
    (hnames : ValidNames e.obj) : ValidEvent (cs.cacheEvent c e) where
  names := ⟨hnames.tenant, hnames.nameSpace, hnames.name⟩
  prev old hold := ⟨hcs.names _ old hold, hcs.keyed _ old hold⟩

/-- **The step.** -/
theorem ValidCache.processEvent (hcs : ValidCache cs) (full : ℕ → Bool) (c : ℤ) {e : WatchEvent V}
    (hnames : ValidNames e.obj) : ValidCache (cs.processEvent full c e) where
  keyed := CacheStore.keyed_processEvent hcs.keyed
  names k o hget := by
    rcases CacheStore.get_processEvent hget with hold | ⟨-, rfl⟩
    · exact hcs.names k o hold
    · exact ⟨hnames.tenant, hnames.nameSpace, hnames.name⟩
  events a ha := by
    unfold CacheStore.processEvent at ha
    split at ha
    next => exact hcs.events a ha
    next =>
      have hmem : a ∈ cs.cache.events ∨ a = cs.cacheEvent c e := by
        change a ∈ (cs.cache.push (cs.cacheEvent c e)).events at ha
        unfold RingBuf.push at ha
        split at ha
        next =>
          rcases List.mem_append.mp ha with h | h
          · exact Or.inl (List.mem_of_mem_tail h)
          · exact Or.inr (List.mem_singleton.mp h)
        next =>
          rcases List.mem_append.mp ha with h | h
          · exact Or.inl h
          · exact Or.inr (List.mem_singleton.mp h)
      rcases hmem with h | rfl
      · exact hcs.events a h
      · exact validEvent_cacheEvent hcs hnames

theorem validEvent_applied {l : List (ProcessCall V)} (hcs : ValidCache cs)
    (hl : ∀ a ∈ l, ValidNames a.event.obj) : ∀ e ∈ cs.applied l, ValidEvent e := by
  induction l generalizing cs with
  | nil => exact fun e he => nomatch he
  | cons a l ih =>
    intro e he
    have hnames := hl a List.mem_cons_self
    unfold CacheStore.applied at he
    rcases List.mem_append.mp he with he | he
    · split at he
      next => cases he
      next =>
        obtain rfl := List.mem_singleton.mp he
        exact validEvent_cacheEvent hcs hnames
    · exact ih (hcs.processEvent _ _ hnames) (fun a' ha' => hl a' (List.mem_cons_of_mem a ha')) e he

theorem validEvent_initialEvents (hcs : ValidCache cs) (revision : ℤ) (pred : DataObject V → Bool) :
    ∀ e ∈ cs.initialEvents revision pred, ValidEvent e := by
  intro e he
  unfold CacheStore.initialEvents CacheStore.getAllEvents at he
  rcases holdest : cs.oldest with _ | oldest
  · rw [holdest] at he
    cases he
  · rw [holdest] at he
    dsimp only at he
    by_cases hzero : revision = 0
    · rw [if_pos hzero] at he
      obtain ⟨o, ho, rfl⟩ := List.mem_map.mp he
      obtain ⟨⟨k, o⟩, hp, rfl⟩ := List.mem_map.mp (List.mem_filter.mp ho).1
      exact ⟨hcs.names k o (BTreeMap.mem_toList.mp hp), fun old hold => nomatch hold⟩
    · rw [if_neg hzero] at he
      by_cases hlow : revision < oldest - 1
      · rw [if_pos hlow] at he
        cases he
      · rw [if_neg hlow] at he
        exact hcs.events e (List.mem_filter.mp he).1

/-- What is kept of some calls depends on the objects only. -/
theorem applied_congr {l : List (ProcessCall V)} (h : cs.cacheStore = cs'.cacheStore) :
    cs.applied l = cs'.applied l := by
  induction l generalizing cs cs' with
  | nil => rfl
  | cons a l ih =>
    have hstale : cs.stale a.event = cs'.stale a.event := by
      unfold CacheStore.stale
      rw [h]
    have hevent : cs.cacheEvent a.channelRev a.event = cs'.cacheEvent a.channelRev a.event := by
      unfold CacheStore.cacheEvent
      rw [h]
    have hnext : (cs.processEvent a.full a.channelRev a.event).cacheStore =
        (cs'.processEvent a.full a.channelRev a.event).cacheStore := by
      unfold CacheStore.processEvent
      rw [hstale]
      split
      next => exact h
      next =>
        dsimp only
        rw [h]
    unfold CacheStore.applied
    rw [hstale, hevent, ih hnext]

/-- **The run.** A watcher that is still there has been sent what it makes of the events that were
kept. -/
theorem sent_of_calls {l : List (ProcessCall V)} {w₀ : CacheWatcher V}
    (h : ∀ w, cs.watchers[id]? = some w → w = w₀)
    (hw : (cs.processCalls l).watchers[id]? = some w) :
    w.sent = w₀.sent ++ (cs.applied l).filterMap w₀.convertToWatchEvent := by
  induction l generalizing cs w₀ with
  | nil =>
    rw [h w hw]
    exact (List.append_nil _).symm
  | cons a l ih =>
    unfold CacheStore.applied
    rcases hstale : cs.stale a.event
    · have hnext : ∀ w, (cs.processEvent a.full a.channelRev a.event).watchers[id]? = some w →
          w = w₀.send (cs.cacheEvent a.channelRev a.event) := by
        intro w hw
        rw [watchers_processEvent _ _ hstale] at hw
        obtain ⟨w₁, hfilter, rfl⟩ := Option.map_eq_some_iff.mp hw
        rw [h w₁ (Option.filter_eq_some_iff.mp hfilter).1]
      have hconvert : (w₀.send (cs.cacheEvent a.channelRev a.event)).convertToWatchEvent =
          w₀.convertToWatchEvent := convertToWatchEvent_congr rfl rfl
      have hsend : (w₀.send (cs.cacheEvent a.channelRev a.event)).sent =
          w₀.sent ++ [cs.cacheEvent a.channelRev a.event].filterMap w₀.convertToWatchEvent := rfl
      have hrest := ih hnext hw
      rw [hconvert, hsend, List.append_assoc, ← List.filterMap_append] at hrest
      rw [hrest, if_neg Bool.false_ne_true]
    · have hsame : cs.processEvent a.full a.channelRev a.event = cs :=
        CacheStore.processEvent_of_stale hstale
      rw [if_pos rfl, List.nil_append, hsame]
      refine ih h ?_
      rw [← hsame]
      exact hw

/-- What a watch that was opened has been sent. -/
theorem sent_watchRequest {tenant : String} {revision : ℤ} {l : List (ProcessCall V)}
    (hcs : ValidCache cs) (hnameSpace : validateName nameSpace = true)
    (hwatch : cs.watchRequest tenant nameSpace revision pred = (cs', some id))
    (hl : ∀ a ∈ l, ValidNames a.event.obj) (hw : (cs'.processCalls l).watchers[id]? = some w) :
    w.sent = (cs.unscoped revision pred l).filter
      fun x => nameSpace.toList.isPrefixOf x.obj.tenant.toList := by
  obtain ⟨hobjs, hopened⟩ : cs'.cacheStore = cs.cacheStore ∧ cs'.watchers[id]? = some
      ((cs.initialEvents revision pred).foldl CacheWatcher.send ⟨nameSpace, pred, []⟩) := by
    unfold CacheStore.watchRequest CacheStore.watch at hwatch
    unfold CacheStore.initialEvents
    rcases hall : cs.getAllEvents revision pred with err | events
    · rw [hall] at hwatch
      cases (Prod.mk.inj hwatch).2
    · rw [hall] at hwatch
      obtain ⟨rfl, hid⟩ := Prod.mk.inj hwatch
      obtain rfl := Option.some.inj hid
      exact ⟨rfl, BTreeMap.get_insert_self ..⟩
  have hsent := sent_of_calls (fun w hw => Option.some.inj (hw.symm.trans hopened)) hw
  rw [sent_foldl_send] at hsent
  have hconvert : ({ (⟨nameSpace, pred, []⟩ : CacheWatcher V) with
      sent := [] ++ (cs.initialEvents revision pred).filterMap
        (⟨nameSpace, pred, []⟩ : CacheWatcher V).convertToWatchEvent } :
        CacheWatcher V).convertToWatchEvent =
      (⟨nameSpace, pred, []⟩ : CacheWatcher V).convertToWatchEvent :=
      convertToWatchEvent_congr rfl rfl
  rw [hconvert, applied_congr hobjs, List.nil_append, ← List.filterMap_append] at hsent
  rw [hsent]
  refine filterMap_scoped (fun e he => ?_) hnameSpace
  exact (List.mem_append.mp he).elim (validEvent_initialEvents hcs revision pred e)
    (validEvent_applied hcs hl e)

/-- **A watch.** It is exact if, of what there is to deliver, the tenants that start with the
namespace have exactly what belongs to the namespace. -/
theorem watch_iff {tenant : String} {revision : ℤ} {l : List (ProcessCall V)}
    (hcs : ValidCache cs) (hnameSpace : validateName nameSpace = true)
    (hwatch : cs.watchRequest tenant nameSpace revision pred = (cs', some id))
    (hl : ∀ a ∈ l, ValidNames a.event.obj) (hw : (cs'.processCalls l).watchers[id]? = some w) :
    (w.sent = (cs.unscoped revision pred l).filter fun x => InScope tenant nameSpace x.obj) ↔
      ∀ x ∈ cs.unscoped revision pred l,
        (nameSpace.toList <+: x.obj.tenant.toList ↔ InScope tenant nameSpace x.obj) := by
  rw [sent_watchRequest hcs hnameSpace hwatch hl hw]
  constructor
  · intro h x hx
    have hmem : x ∈ _ ↔ x ∈ _ := iff_of_eq (congrArg (x ∈ ·) h)
    rw [List.mem_filter, List.mem_filter, decide_eq_true_iff, List.isPrefixOf_iff_prefix] at hmem
    exact ⟨fun hstart => (hmem.mp ⟨hx, hstart⟩).2, fun hscope => (hmem.mpr ⟨hx, hscope⟩).2⟩
  · refine fun h => List.filter_congr fun x hx => ?_
    rw [Bool.eq_iff_iff, List.isPrefixOf_iff_prefix, decide_eq_true_iff]
    exact h x hx

end Watches

/-! ## The promise -/

section Promise

variable {cs : CacheStore V} {s : EtcdStore V} {tenant nameSpace : String}
  {pred : DataObject V → Bool}

/-- **Scoping.** A list from the cache, a list from the backend and a watch have exactly what
belongs to a tenant's namespace when the prefix that each of them takes tells it apart. -/
theorem scoped_iff (fuel : ℕ) (hcs : ValidCache cs) (hsame : SameObjects s cs)
    (htenant : validateName tenant = true) (hnameSpace : validateName nameSpace = true)
    (ht : tenant ≠ "") (hn : nameSpace ≠ "") :
    ((∃ objs, cs.listWith (fuel + 1) (some s) tenant nameSpace (listOption 0 pred)
        = some (.ok objs) ∧ ListsScope cs tenant nameSpace pred objs) ↔
      ∀ (k : String) (o : DataObject V), cs.cacheStore[k]? = some o → pred o = true →
        o.tenant = tenant → nameSpace.toList <+: o.nameSpace.toList → o.nameSpace = nameSpace) ∧
    ((∃ objs, cs.listWith (fuel + 1) (some s) tenant nameSpace (listOption (-1) pred)
        = some (.ok objs) ∧ ListsScope cs tenant nameSpace pred objs) ↔
      ∀ (k : String) (o : DataObject V), cs.cacheStore[k]? = some o → pred o = true →
        (o.tenant = nameSpace ↔ InScope tenant nameSpace o)) ∧
    ∀ (revision : ℤ) (cs' : CacheStore V) (id : ℕ) (l : List (ProcessCall V)) (w : CacheWatcher V),
      cs.watchRequest tenant nameSpace revision pred = (cs', some id) →
      (∀ a ∈ l, ValidNames a.event.obj) → (cs'.processCalls l).watchers[id]? = some w →
      (w.sent = ((cs.unscoped revision pred l).filter fun x => InScope tenant nameSpace x.obj) ↔
        ∀ x ∈ cs.unscoped revision pred l,
          (nameSpace.toList <+: x.obj.tenant.toList ↔ InScope tenant nameSpace x.obj)) := by
  refine ⟨?_, list_backend_iff fuel hcs hsame hnameSpace hn,
    fun revision cs' id l w hwatch hl hw => watch_iff hcs hnameSpace hwatch hl hw⟩
  rw [← list_cache_iff hcs htenant hnameSpace ht hn]
  have hlist : cs.listWith (fuel + 1) (some s) tenant nameSpace (listOption 0 pred)
      = some (.ok (cs.list tenant nameSpace pred)) := rfl
  rw [hlist]
  constructor
  · rintro ⟨objs, heq, h⟩
    rwa [Except.ok.inj (Option.some.inj heq)]
  · exact fun h => ⟨_, rfl, h⟩

theorem validCache_empty (objectType : String) : ValidCache ({ objectType } : CacheStore V) where
  keyed := Keyed.empty
  names k o h := by
    rw [show (({ objectType } : CacheStore V).cacheStore)[k]? = none from
      Std.ExtTreeMap.getElem?_empty] at h
    cases h
  events e he := nomatch he

/-- A node in the cache and in the backend. -/
theorem scoped_one :
    let o : DataObject Unit := { objType := "node", tenant := "acme", nameSpace := "prod",
                                 name := "a", channelRev := 1, revision := 3, object := () }
    let cs := ({ objectType := "node" } : CacheStore Unit).processEvent
      (fun _ => false) 1 ⟨.added, o⟩
    let s : EtcdStore Unit := { pagingEnable := true, revision := 3
                                contents :=
                                  (∅ : Objects Unit).insert "/registry/node/acme/prod/a" o }
    (∃ objs, cs.listWith 1 (some s) "acme" "prod" (listOption 0 fun _ => true) = some (.ok objs) ∧
        ListsScope cs "acme" "prod" (fun _ => true) objs) ↔
      ∀ (k : String) (o : DataObject Unit), cs.cacheStore[k]? = some o → true = true →
        o.tenant = "acme" → "prod".toList <+: o.nameSpace.toList → o.nameSpace = "prod" := by
  intro o cs s
  have hcs : ValidCache cs :=
    (validCache_empty "node").processEvent _ _ ⟨by decide, by decide, by decide⟩
  have hstore : cs.cacheStore = (∅ : Objects Unit).insert "acme/prod/a" o := rfl
  have hsame : SameObjects s cs := by
    intro k o'
    rw [hstore, BTreeMap.get_insert, BTreeMap.get_insert, Std.ExtTreeMap.getElem?_empty,
      Std.ExtTreeMap.getElem?_empty]
    constructor
    · intro h
      split at h
      next hk =>
        obtain rfl := Option.some.inj h
        rw [hk]
        exact ⟨if_pos rfl, by decide +kernel⟩
      next => cases h
    · rintro ⟨h, hk⟩
      split at h
      next =>
        obtain rfl := Option.some.inj h
        have hprepare : s.prepareKey (cs.storeKey o.key) = .ok "/registry/node/acme/prod/a" := by
          decide +kernel
        exact if_pos (Except.ok.inj (hk.symm.trans hprepare))
      next => cases h
  exact (scoped_iff 0 hcs hsame (by decide) (by decide) (by decide) (by decide)).1

/-- **A namespace and one that starts with it.** With a node in each of `prod` and `prod2`, a list
of `prod` from the cache has both. A list from the backend and a watch have none. -/
theorem prod_lists_prod2 :
    let node : String → String → DataObject Unit := fun nameSpace name =>
      { objType := "node", tenant := "acme", nameSpace, name, channelRev := 1, revision := 3,
        object := () }
    let cs := (({ objectType := "node" } : CacheStore Unit).processEvent (fun _ => false) 1
      ⟨.added, node "prod" "a"⟩).processEvent (fun _ => false) 1 ⟨.added, node "prod2" "b"⟩
    let s : EtcdStore Unit := {
      pagingEnable := true, revision := 3
      contents := ((∅ : Objects Unit).insert "/registry/node/acme/prod/a" (node "prod" "a")).insert
        "/registry/node/acme/prod2/b" (node "prod2" "b") }
    cs.list "acme" "prod" (fun _ => true) = [node "prod" "a", node "prod2" "b"] ∧
      ¬ ListsScope cs "acme" "prod" (fun _ => true) (cs.list "acme" "prod" fun _ => true) ∧
      (cs.listWith 1 (some s) "acme" "prod" (listOption (-1) fun _ => true)).map
        Except.toOption = some (some []) ∧
      (cs.watchRequest "acme" "prod" 0
        fun _ => true).1.watchers[1]?.map CacheWatcher.sent = some [] ∧
      (cs.unscoped 0 (fun _ => true) []).filter (fun x => InScope "acme" "prod" x.obj)
        = [⟨.added, node "prod" "a"⟩] := by
  intro node cs s
  have hlist : cs.list "acme" "prod" (fun _ => true) = [node "prod" "a", node "prod2" "b"] := by
    decide +kernel
  refine ⟨hlist, ?_, by decide +kernel, by decide +kernel, by decide +kernel⟩
  rw [hlist]
  intro h
  exact absurd ((h.2 (node "prod2" "b")).mp (by simp)).2.2.2 (by decide)

end Promise

end Inferx.Metastore
