import Inferx.StateSvc.Admission

/-!
# Writes at a revision

An update or a deletion may name the revision that it expects the object to have. Update
compares it when it is positive, deletion when it is not zero; and on a mismatch the
deletion reads the revision of an object that may not be there. The service hands the
number to the cache store first, which gives up if its own counter has not come that far,
and then looks for the object in its memory.
-/

namespace Inferx.StateSvc

open Metastore Proc

variable {V : Type}

/-! ## The cache store -/

/-- What a deletion finds of the cache store of its type. -/
structure CacheView where
  /-- `channelRev.Current()` -/
  current : ℤ
  /-- `cacheStore`, by store key -/
  cacheStore : String → Bool

/-- `CacheStore::WaitUntilRev`. Nothing notifies `revNotify`, so a wait that begins ends in its
timeout, and the counter is not looked at again. -/
def CacheView.waitUntilRev (w : CacheView) (channelRev : ℤ) : Except Error Unit :=
  -- 0 means the current revision
  if channelRev = 0 then .ok ()
  else if channelRev ≤ w.current then .ok ()
  else .error (.timeout 3000)

/-- What a request meets that looks at the cache store; no operation of etcd fails. -/
def CacheView.env (w : CacheView) (channelRev : ℤ) : SvcEnv where
  revReached := (w.waitUntilRev channelRev).isOk
  cached := w.cacheStore

theorem CacheView.isOk_iff {w : CacheView} {channelRev : ℤ} :
    (w.waitUntilRev channelRev).isOk = true ↔ channelRev = 0 ∨ channelRev ≤ w.current := by
  unfold CacheView.waitUntilRev
  split
  next h => exact iff_of_true rfl (.inl h)
  next h =>
    split
    next hle => exact iff_of_true rfl (.inr hle)
    next hlt => exact iff_of_false Bool.false_ne_true fun hor => hor.elim h hlt

/-! ## What is promised -/

/-- The revision of the last write of a key. -/
def Etcd.modRevision (s : Etcd V) (key : String) : Option ℤ := s.kvs[key]?.map DataObject.revision

/-- The key an object is kept under in etcd. -/
def etcdKey (obj : DataObject V) : String := prepareKey (storeKey obj.objType obj.key)

/-- An update writes when the revision is the expected one, and else is refused. -/
structure UpdatesExactly (s : Etcd V) (expectedRev : ℤ) (obj : DataObject V) : Prop where
  hit : s.modRevision (etcdKey obj) = some expectedRev →
    storeUpdate none expectedRev obj s = .ok () (s.put (etcdKey obj) obj)
  miss : s.modRevision (etcdKey obj) ≠ some expectedRev →
    ∃ actualRev, storeUpdate none expectedRev obj s = .err (.updateRevNotMatchErr expectedRev actualRev) s

/-- So does a deletion. -/
structure DeletesExactly (s : Etcd V) (key : String) (expectedRev : ℤ) : Prop where
  hit : s.modRevision (prepareKey key) = some expectedRev →
    storeDelete none key expectedRev s = .ok () (s.del (prepareKey key))
  miss : s.modRevision (prepareKey key) ≠ some expectedRev →
    ∃ actualRev, storeDelete none key expectedRev s = .err (.deleteRevNotMatchErr expectedRev actualRev) s

/-- A request to delete an object at its revision deletes it. -/
def DeletesAt (s : Etcd V) (w : CacheView) (objType tenant nameSpace name : String) (expectRev : ℤ) : Prop :=
  ∃ t, delete (w.env expectRev) objType tenant nameSpace name expectRev s = .ok () t ∧
    t.kvs[prepareKey (storeKey objType (objKey tenant nameSpace name))]? = none

/-! ## The store -/

variable {s : Etcd V} {expectedRev : ℤ} {obj : DataObject V} {key : String}

theorem storeUpdate_run : storeUpdate none expectedRev obj s =
    if 0 < expectedRev ∧ s.modRevision (etcdKey obj) ≠ some expectedRev then
      .err (.updateRevNotMatchErr expectedRev s.revision) s
    else .ok () (s.put (etcdKey obj) obj) := by
  show (if 0 < expectedRev ∧ s.modRevision (etcdKey obj) ≠ some expectedRev then
    throw (.updateRevNotMatchErr expectedRev s.revision)
      else modify (·.put (etcdKey obj) obj) : SvcM V Unit) s = _
  split
  next => rfl
  next => rfl

/-- **An update is exact** when the revision it names is positive. -/
theorem updatesExactly_iff : UpdatesExactly s expectedRev obj ↔
    0 < expectedRev ∨ s.modRevision (etcdKey obj) = some expectedRev := by
  constructor
  · intro h
    refine or_iff_not_imp_right.mpr fun hne => ?_
    obtain ⟨actualRev, hrun⟩ := h.miss hne
    rw [storeUpdate_run] at hrun
    split at hrun
    next hpos => exact hpos.1
    next => cases hrun
  · intro h
    refine ⟨fun heq => ?_, fun hne => ⟨s.revision, ?_⟩⟩
    · rw [storeUpdate_run, if_neg fun hand => hand.2 heq]
    · rw [storeUpdate_run, if_pos ⟨h.resolve_right hne, hne⟩]

theorem storeDelete_hit (h : expectedRev = 0 ∨ s.modRevision (prepareKey key) = some expectedRev) :
    storeDelete none key expectedRev s = .ok () (s.del (prepareKey key)) := by
  show (if expectedRev = 0 ∨ s.modRevision (prepareKey key) = some expectedRev then
    modify (·.del (prepareKey key)) else _ : SvcM V Unit) s = _
  rw [if_pos h]
  rfl

theorem storeDelete_miss (hrev : expectedRev ≠ 0)
    (h : s.modRevision (prepareKey key) ≠ some expectedRev) :
    storeDelete none key expectedRev s =
      match s.kvs[prepareKey key]? with
      | none => .panic .deleteMissing
      | some o => .err (.deleteRevNotMatchErr expectedRev o.revision) s := by
  show (if expectedRev = 0 ∨ s.modRevision (prepareKey key) = some expectedRev then
    modify (·.del (prepareKey key)) else
      match s.kvs[prepareKey key]? with
      | none => crash .deleteMissing
      | some o => throw (.deleteRevNotMatchErr expectedRev o.revision) : SvcM V Unit) s = _
  rw [if_neg (not_or.mpr ⟨hrev, h⟩)]
  rcases s.kvs[prepareKey key]? with _ | o
  · rfl
  · rfl

/-- **A deletion is exact** when there is something to delete. -/
theorem deletesExactly_iff (hrev : expectedRev ≠ 0) : DeletesExactly s key expectedRev ↔
    s.kvs[prepareKey key]?.isSome = true := by
  rcases hkey : s.kvs[prepareKey key]? with _ | o
  · refine iff_of_false (fun h => ?_) Bool.false_ne_true
    have hne : s.modRevision (prepareKey key) ≠ some expectedRev := by
      unfold Etcd.modRevision
      rw [hkey]
      exact nofun
    obtain ⟨actualRev, hrun⟩ := h.miss hne
    rw [storeDelete_miss hrev hne, hkey] at hrun
    cases hrun
  · refine iff_of_true ⟨fun heq => storeDelete_hit (.inr heq), fun hne => ⟨o.revision, ?_⟩⟩ rfl
    rw [storeDelete_miss hrev hne, hkey]

/-! ## The service -/

variable {w : CacheView} {objType tenant nameSpace name : String}

theorem deleteFuncStatus_run (objType tenant nameSpace name : String) (h : s.kvs[key]? = none) :
    ∃ t, deleteFuncStatus none objType tenant nameSpace name s = .ok () t ∧ t.kvs[key]? = none := by
  unfold deleteFuncStatus
  split
  next =>
    refine ⟨_, storeDelete_hit (.inl rfl), ?_⟩
    show (s.kvs.erase _)[key]? = none
    rw [BTreeMap.get_erase, h]
    split
    next => rfl
    next => rfl
  next => exact ⟨s, rfl, h⟩

/-- **A deletion by the service** gets to the store when the counter of the channel has come as far
as the revision and the object is in memory. -/
theorem deletesAt_iff (htype : objType ∈ etcdObjects)
    (hobj : s.modRevision (prepareKey (storeKey objType (objKey tenant nameSpace name))) = some expectedRev) :
    DeletesAt s w objType tenant nameSpace name expectedRev ↔
      expectedRev = -1 ∨ (expectedRev = 0 ∨ expectedRev ≤ w.current) ∧
        w.cacheStore (storeKey objType (objKey tenant nameSpace name)) = true := by
  have hetcd : objType ∉ aggregatedObjects := by
    have hall : ∀ a ∈ etcdObjects, a ∉ aggregatedObjects := by decide
    exact hall objType htype
  have hcontains : s.kvs.contains (prepareKey (storeKey objType (objKey tenant nameSpace name))) = true := by
    rw [Std.ExtTreeMap.contains_eq_isSome_getElem?]
    unfold Etcd.modRevision at hobj
    rcases hkey : s.kvs[prepareKey (storeKey objType (objKey tenant nameSpace name))]? with _ | o
    · rw [hkey] at hobj
      cases hobj
    · rfl
  have hget : cacherGet (w.env expectedRev) s objType tenant nameSpace name expectedRev =
      if expectedRev = -1 then .ok true
      else if (w.waitUntilRev expectedRev).isOk = true then
        .ok (w.cacheStore (storeKey objType (objKey tenant nameSpace name)))
      else .error (.timeout 3000) := by
    unfold cacherGet
    dsimp only
    rw [hcontains, decide_eq_true hetcd]
    rfl
  have hfound (hget : cacherGet (w.env expectedRev) s objType tenant nameSpace name expectedRev = .ok true) :
      DeletesAt s w objType tenant nameSpace name expectedRev := by
    have hdel : (s.del (prepareKey (storeKey objType (objKey tenant nameSpace name)))).kvs[
        prepareKey (storeKey objType (objKey tenant nameSpace name))]? = none := by
      show (s.kvs.erase _)[_]? = none
      rw [BTreeMap.get_erase, if_pos rfl]
    obtain ⟨t, hrun, hgone⟩ := deleteFuncStatus_run objType tenant nameSpace name hdel
    refine ⟨t, ?_, hgone⟩
    unfold delete
    rw [if_pos (.inl htype)]
    show (check (cacherGet (w.env expectedRev) s objType tenant nameSpace name expectedRev) >>=
      fun found => _ : SvcM V Unit) s = .ok () t
    rw [hget]
    exact (Proc.bind_ok (storeDelete_hit (.inr hobj))).trans hrun
  have hmissed (hget : cacherGet (w.env expectedRev) s objType tenant nameSpace name expectedRev ≠ .ok true) :
      ¬ DeletesAt s w objType tenant nameSpace name expectedRev := by
    rintro ⟨t, hrun, -⟩
    unfold delete at hrun
    rw [if_pos (.inl htype)] at hrun
    change (check (cacherGet (w.env expectedRev) s objType tenant nameSpace name expectedRev) >>=
      fun found => _ : SvcM V Unit) s = .ok () t at hrun
    rcases hres : cacherGet (w.env expectedRev) s objType tenant nameSpace name expectedRev with e | _ | _
    · rw [hres] at hrun
      cases hrun
    · rw [hres] at hrun
      cases hrun
    · exact hget hres
  rw [hget] at hfound hmissed
  rw [← CacheView.isOk_iff]
  by_cases hminus : expectedRev = -1
  · rw [if_pos hminus] at hfound
    exact iff_of_true (hfound rfl) (.inl hminus)
  rw [if_neg hminus] at hfound hmissed
  by_cases hreached : (w.waitUntilRev expectedRev).isOk = true
  · rw [if_pos hreached] at hfound hmissed
    by_cases hin : w.cacheStore (storeKey objType (objKey tenant nameSpace name)) = true
    · exact iff_of_true (hfound (congrArg _ hin)) (.inr ⟨hreached, hin⟩)
    · exact iff_of_false (hmissed fun heq => hin (Except.ok.inj heq))
        fun hor => hor.elim hminus fun h => hin h.2
  · rw [if_neg hreached] at hmissed
    exact iff_of_false (hmissed fun heq => by cases heq) fun hor => hor.elim hminus fun h => hreached h.1

/-- **Writes at a revision are exact**, and when they are not. -/
theorem conditional_iff (obj : DataObject V) (key : String) (hrev : expectedRev ≠ 0) :
    (UpdatesExactly s expectedRev obj ↔
      0 < expectedRev ∨ s.modRevision (etcdKey obj) = some expectedRev) ∧
    (DeletesExactly s key expectedRev ↔ s.kvs[prepareKey key]?.isSome = true) ∧
    ∀ (w : CacheView) (objType tenant nameSpace name : String), objType ∈ etcdObjects →
      s.modRevision (prepareKey (storeKey objType (objKey tenant nameSpace name))) = some expectedRev →
      (DeletesAt s w objType tenant nameSpace name expectedRev ↔ expectedRev = -1 ∨
        expectedRev ≤ w.current ∧ w.cacheStore (storeKey objType (objKey tenant nameSpace name)) = true) := by
  refine ⟨updatesExactly_iff, deletesExactly_iff hrev, fun w objType tenant nameSpace name htype hobj => ?_⟩
  rw [deletesAt_iff htype hobj, or_iff_right hrev]

/-! ### One node -/

/-- The record of a node. -/
def nodeInfo : DataObject Unit where
  objType := "node_info"
  tenant := systemTenant
  nameSpace := systemNamespace
  name := "node-1"
  object := ()

/-- It is the second thing that is written. -/
def oneNode : Etcd Unit := ({} : Etcd Unit).put (etcdKey nodeInfo) nodeInfo

theorem conditional_node :
    (UpdatesExactly oneNode 2 nodeInfo ↔ (0 : ℤ) < 2 ∨ oneNode.modRevision (etcdKey nodeInfo) = some 2) ∧
    (DeletesExactly oneNode "node_info/system/system/node-1" 2 ↔
      oneNode.kvs[prepareKey "node_info/system/system/node-1"]?.isSome = true) ∧
    ∀ (w : CacheView) (objType tenant nameSpace name : String), objType ∈ etcdObjects →
      oneNode.modRevision (prepareKey (storeKey objType (objKey tenant nameSpace name))) = some 2 →
      (DeletesAt oneNode w objType tenant nameSpace name 2 ↔ (2 : ℤ) = -1 ∨
        2 ≤ w.current ∧ w.cacheStore (storeKey objType (objKey tenant nameSpace name)) = true) :=
  conditional_iff nodeInfo "node_info/system/system/node-1" (by decide)

theorem modRevision_oneNode : oneNode.modRevision (etcdKey nodeInfo) = some 2 := by
  show (((∅ : BTreeMap String (DataObject Unit)).insert (etcdKey nodeInfo) _)[etcdKey nodeInfo]?).map _ = _
  rw [BTreeMap.get_insert_self]
  rfl

/-- A negative revision is not compared, a deletion of what is not there panics, and the counter of
the channel may be behind, or what it has come to not be in memory. -/
theorem conditional_fails :
    (¬ ∀ (s : Etcd Unit) (expectedRev : ℤ) (obj : DataObject Unit), expectedRev ≠ 0 →
      UpdatesExactly s expectedRev obj) ∧
    (¬ ∀ (s : Etcd Unit) (expectedRev : ℤ) (key : String), expectedRev ≠ 0 →
      DeletesExactly s key expectedRev) ∧
    ¬ ∀ (s : Etcd Unit) (w : CacheView) (objType tenant nameSpace name : String) (expectRev : ℤ),
      objType ∈ etcdObjects →
      s.modRevision (prepareKey (storeKey objType (objKey tenant nameSpace name))) = some expectRev →
      DeletesAt s w objType tenant nameSpace name expectRev := by
  refine ⟨fun h => ?_, fun h => ?_, fun h => ?_⟩
  · rcases updatesExactly_iff.mp (h oneNode (-1) nodeInfo (by decide)) with hpos | heq
    · exact absurd hpos (by decide)
    · rw [modRevision_oneNode] at heq
      exact absurd heq (by decide)
  · have hsome := (deletesExactly_iff (by decide)).mp (h {} 5 "node_info/system/system/node-1" (by decide))
    have hnone : ({} : Etcd Unit).kvs[prepareKey "node_info/system/system/node-1"]? = none :=
      Std.ExtTreeMap.getElem?_empty
    rw [hnone] at hsome
    exact absurd hsome (by decide)
  · have hbehind := (deletesAt_iff (by decide) modRevision_oneNode).mp
      (h oneNode ⟨1, fun _ => true⟩ "node_info" systemTenant systemNamespace "node-1" 2 (by decide)
        modRevision_oneNode)
    exact absurd hbehind (by decide)

end Inferx.StateSvc
