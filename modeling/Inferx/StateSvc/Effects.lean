import Inferx.Lib.Keys
import Inferx.StateSvc.Admission

/-!
# What a request does to the store

A request writes one object or deletes one, and after it the status of a
function, and nothing else. `Effect` says this with all that has been checked
before: every invariant of the store is shown from it, and none looks at how a
request is run.

The keys of objects of two types differ, because a type has no slash in it
(`storeKey_inj`).
-/

namespace Inferx.StateSvc

open Metastore Proc

variable {V : Type}

/-! ## Keys -/

theorem toList_storeKey (objType key : String) :
    (storeKey objType key).toList = objType.toList ++ '/' :: key.toList := by
  simp [storeKey]
  rfl

/-- The key of an object tells its type. -/
theorem storeKey_inj {a b k l : String} (ha : '/' ∉ a.toList) (hb : '/' ∉ b.toList)
    (h : storeKey a k = storeKey b l) : a = b ∧ k = l := by
  have hlist := congrArg String.toList h
  rw [toList_storeKey, toList_storeKey] at hlist
  obtain ⟨htype, hrest⟩ := List.part_of_prefix ha hb (by rw [hlist])
  obtain rfl := String.toList_inj.mp htype
  rw [List.append_cancel_left_eq, List.cons.injEq] at hlist
  exact ⟨rfl, String.toList_inj.mp hlist.2⟩

/-- A type without a slash stays in front. -/
theorem prepareKey_storeKey {a : String} (ha : '/' ∉ a.toList) (hne : a ≠ "") (k : String) :
    prepareKey (storeKey a k) = storeKey a k := by
  unfold prepareKey
  refine if_neg fun hhead => ?_
  rw [toList_storeKey] at hhead
  rcases hlist : a.toList with _ | ⟨c, l⟩
  · exact hne (String.toList_inj.mp hlist)
  · rw [hlist] at hhead ha
    obtain rfl := Option.some.inj hhead
    exact ha List.mem_cons_self

/-- The types the service knows have no slash in them. -/
theorem plain_of_known {a : String} (h : a ∈ etcdObjects ∨ a ∈ aggregatedObjects) :
    '/' ∉ a.toList ∧ a ≠ "" := by
  have hall : ∀ a ∈ etcdObjects ++ aggregatedObjects, '/' ∉ a.toList ∧ a ≠ "" := by decide
  exact hall a (List.mem_append.mpr h)

/-! ## Effects -/

/-- Only statuses differ. -/
def StatusOnly (u t : Etcd V) : Prop :=
  ∀ k, t.kvs[k]? = u.kvs[k]? ∨
    (∃ key, k = storeKey funcstatusKEY key) ∧ ∀ o ∈ t.kvs[k]?, o.objType = funcstatusKEY

theorem StatusOnly.refl (s : Etcd V) : StatusOnly s s := fun _ => Or.inl rfl

/-- The object under a key of another type stays. -/
theorem StatusOnly.get {u t : Etcd V} (h : StatusOnly u t) {a key : String} (ha : '/' ∉ a.toList)
    (hne : a ≠ funcstatusKEY) : t.kvs[storeKey a key]? = u.kvs[storeKey a key]? := by
  rcases h (storeKey a key) with hsame | ⟨⟨key', hkey⟩, -⟩
  · exact hsame
  · exact absurd (storeKey_inj ha (by decide) hkey).1 hne

/-- An object of another type was there before. -/
theorem StatusOnly.get_eq {u t : Etcd V} (h : StatusOnly u t) {k : String} {o : DataObject V}
    (ho : t.kvs[k]? = some o) (hne : o.objType ≠ funcstatusKEY) : u.kvs[k]? = some o := by
  rcases h k with hsame | ⟨-, hstatus⟩
  · rw [← hsame, ho]
  · exact absurd (hstatus o ho) hne

/-- What a request does: nothing, a write that has been checked, or a deletion. -/
inductive Effect (codec : Codec V) (s : Etcd V) : Request V → Etcd V → Prop where
  /-- nothing -/
  | none {r : Request V} : Effect codec s r s
  /-- a new object -/
  | created {obj obj' : DataObject V} {t : Etcd V} (hobj : normalizeFuncPolicy codec obj = .ok obj')
      (hcheck : s.createObjCheck codec obj' = .ok ())
      (hnew : s.kvs[prepareKey (storeKey obj'.objType obj'.key)]? = none)
      (hstatus : StatusOnly (s.put (prepareKey (storeKey obj'.objType obj'.key)) obj') t) :
      Effect codec s (.create obj) t
  /-- an object in place of another -/
  | updated {expectRev : ℤ} {obj obj' : DataObject V} {t : Etcd V}
      (hobj : normalizeFuncPolicy codec obj = .ok obj')
      (hcheck : s.updateObjCheck codec obj' = .ok ())
      (hstatus : StatusOnly (s.put (prepareKey (storeKey obj'.objType obj'.key)) obj') t) :
      Effect codec s (.update expectRev obj) t
  /-- an object less -/
  | deleted {objType tenant nameSpace name : String} {expectRev : ℤ} {t : Etcd V}
      (hknown : objType ∈ etcdObjects ∨ objType ∈ aggregatedObjects)
      (hstatus : StatusOnly (s.del (storeKey objType (objKey tenant nameSpace name))) t) :
      Effect codec s (.delete objType tenant nameSpace name expectRev) t

section Wp

variable {s : Etcd V} {α : Type} {Q : α → Etcd V → Prop} {E : Error → Etcd V → Prop}

theorem wp_check {x : Except Error α} (hok : ∀ a, x = .ok a → Q a s) (herr : ∀ e, E e s) :
    (check x : SvcM V α).wp Q E (fun _ => True) s := by
  rcases x with e | a
  · exact herr e
  · exact hok a rfl

/-- An operation of etcd that is refused leaves the store, and one whose answer is lost leaves what
it leaves when it is answered. -/
theorem wp_etcdOp {x : SvcM V α} {fails : Option Failure}
    (h : x.wp (fun a t => Q a t ∧ ∀ e, E e t) (fun _ t => ∀ e, E e t) (fun _ => True) s)
    (herr : ∀ e, E e s) : (etcdOp fails x).wp Q E (fun _ => True) s := by
  rcases fails with _ | e | e
  · exact wp_mono h (fun _ _ ha => ha.1) (fun e _ he => he e) fun _ _ => trivial
  · exact herr e
  · unfold Proc.wp at h ⊢
    unfold etcdOp
    dsimp only
    rcases hrun : x s with ⟨a, t⟩ | ⟨e', t⟩ | p
    · rw [hrun] at h
      exact h.2 e
    · rw [hrun] at h
      exact h e
    · exact herr e

/-- A write of a status touches no other object. -/
theorem statusOnly_put {u : Etcd V} {status : DataObject V} (hs : StatusOnly u s)
    (htype : status.objType = funcstatusKEY) :
    StatusOnly u (s.put (prepareKey (storeKey status.objType status.key)) status) := by
  intro k
  rw [htype, prepareKey_storeKey (by decide) (by decide)]
  unfold Etcd.put
  rw [BTreeMap.get_insert]
  split
  next hk =>
    refine Or.inr ⟨⟨_, hk⟩, fun o ho => ?_⟩
    obtain rfl := Option.some.inj ho
    exact htype
  next => exact hs k

theorem statusOnly_storeCreate {u : Etcd V} {status : DataObject V} {fails : Option Failure}
    (hs : StatusOnly u s) (htype : status.objType = funcstatusKEY) :
    (storeCreate fails status).wp (fun _ t => StatusOnly u t) (fun _ t => StatusOnly u t)
      (fun _ => True) s := by
  refine wp_etcdOp ?_ fun _ => hs
  rw [wp_bind, wp_get]
  dsimp only
  split
  next => exact fun _ => hs
  next => exact ⟨statusOnly_put hs htype, fun _ => statusOnly_put hs htype⟩

theorem statusOnly_storeUpdate {u : Etcd V} {status : DataObject V} {fails : Option Failure} {r : ℤ}
    (hs : StatusOnly u s) (htype : status.objType = funcstatusKEY) :
    (storeUpdate fails r status).wp (fun _ t => StatusOnly u t) (fun _ t => StatusOnly u t)
      (fun _ => True) s := by
  refine wp_etcdOp ?_ fun _ => hs
  rw [wp_bind, wp_get]
  dsimp only
  split
  next => exact fun _ => hs
  next => exact ⟨statusOnly_put hs htype, fun _ => statusOnly_put hs htype⟩

theorem statusOnly_updateFuncStatusLoop {u : Etcd V} {status : DataObject V} {fails : Option Failure}
    (htype : status.objType = funcstatusKEY) (n : ℕ) {s : Etcd V} (hs : StatusOnly u s) :
    (updateFuncStatusLoop fails status n).wp (fun _ t => StatusOnly u t) (fun _ t => StatusOnly u t)
      (fun _ => True) s := by
  induction n generalizing s with
  | zero => exact hs
  | succ n ih =>
    unfold updateFuncStatusLoop
    rw [wp_bind, wp_get, wp_bind, wp_attempt]
    refine wp_mono (statusOnly_storeUpdate hs htype) (fun _ t ht => ht) (fun e t ht => ?_) fun _ h => h
    split
    next => exact ht
    next =>
      split
      next => exact ht
      next => exact ih ht
    next => exact ht

theorem statusOnly_createFuncStatus {u : Etcd V} (codec : Codec V) {fails : Option Failure}
    {obj : DataObject V} (hs : StatusOnly u s) :
    (createFuncStatus codec fails obj).wp (fun _ t => StatusOnly u t) (fun _ t => StatusOnly u t)
      (fun _ => True) s := by
  unfold createFuncStatus
  split
  next =>
    rw [wp_bind]
    exact wp_check (fun func _ => statusOnly_storeCreate hs rfl) fun _ => hs
  next => exact hs

theorem statusOnly_updateFuncStatus {u : Etcd V} (codec : Codec V) {fails : Option Failure}
    {obj : DataObject V} (hs : StatusOnly u s) :
    (updateFuncStatus codec fails obj).wp (fun _ t => StatusOnly u t) (fun _ t => StatusOnly u t)
      (fun _ => True) s := by
  unfold updateFuncStatus
  split
  next =>
    rw [wp_bind]
    exact wp_check (fun func _ => statusOnly_updateFuncStatusLoop (by exact rfl) 3 hs) fun _ => hs
  next => exact hs

theorem statusOnly_deleteFuncStatus {u : Etcd V} {fails : Option Failure}
    {objType tenant nameSpace name : String} (hs : StatusOnly u s) :
    (deleteFuncStatus fails objType tenant nameSpace name).wp (fun _ t => StatusOnly u t)
      (fun _ t => StatusOnly u t) (fun _ => True) s := by
  unfold deleteFuncStatus
  split
  next =>
    refine wp_etcdOp ?_ fun _ => hs
    rw [wp_bind, wp_get]
    dsimp only
    rw [prepareKey_storeKey (by decide) (by decide), if_pos (Or.inl rfl)]
    have hdel : StatusOnly u (s.del (storeKey funcstatusKEY (objKey tenant nameSpace name))) := by
      intro k
      unfold Etcd.del
      rw [BTreeMap.get_erase]
      split
      next hk => exact Or.inr ⟨⟨_, hk⟩, fun o ho => by cases ho⟩
      next => exact hs k
    exact ⟨hdel, fun _ => hdel⟩
  next => exact hs

end Wp

/-- **What a request does.** It ends in an `Effect`, whatever fails on the way. -/
theorem run_effect (codec : Codec V) (env : SvcEnv) (r : Request V) (s : Etcd V) :
    (r.run codec env).wp (fun _ t => Effect codec s r t) (fun _ t => Effect codec s r t)
      (fun _ => True) s := by
  cases r with
  | create obj =>
    show (create codec env obj).wp _ _ _ s
    unfold create
    rw [wp_bind]
    refine wp_check (fun obj' hobj => ?_) fun _ => .none
    rw [wp_bind, wp_get, wp_bind]
    refine wp_check (fun _ hcheck => ?_) fun _ => .none
    rw [wp_bind]
    refine wp_etcdOp ?_ fun _ => .none
    rw [wp_bind, wp_get]
    dsimp only
    split
    next => exact fun _ => .none
    next hnew =>
      have habsent : s.kvs[prepareKey (storeKey obj'.objType obj'.key)]? = none := by
        simpa using hnew
      rw [wp_modify]
      refine ⟨?_, fun _ => .created hobj hcheck habsent (StatusOnly.refl _)⟩
      refine wp_mono (statusOnly_createFuncStatus codec (StatusOnly.refl _)) (fun _ t ht => ?_)
        (fun _ t ht => ?_) fun _ h => h
      · exact .created hobj hcheck habsent ht
      · exact .created hobj hcheck habsent ht
  | update expectRev obj =>
    show (update codec env expectRev obj).wp _ _ _ s
    unfold update
    rw [wp_bind]
    refine wp_check (fun obj' hobj => ?_) fun _ => .none
    rw [wp_bind, wp_get, wp_bind]
    refine wp_check (fun _ hcheck => ?_) fun _ => .none
    rw [wp_bind]
    refine wp_etcdOp ?_ fun _ => .none
    rw [wp_bind, wp_get]
    dsimp only
    split
    next => exact fun _ => .none
    next =>
      rw [wp_modify]
      refine ⟨?_, fun _ => .updated hobj hcheck (StatusOnly.refl _)⟩
      refine wp_mono (statusOnly_updateFuncStatus codec (StatusOnly.refl _)) (fun _ t ht => ?_)
        (fun _ t ht => ?_) fun _ h => h
      · exact .updated hobj hcheck ht
      · exact .updated hobj hcheck ht
  | delete objType tenant nameSpace name expectRev =>
    show (delete env objType tenant nameSpace name expectRev).wp _ _ _ s
    unfold delete
    split
    next hknown =>
      obtain ⟨hplain, hne⟩ := plain_of_known hknown
      rw [wp_bind, wp_get, wp_bind]
      refine wp_check (fun found _ => ?_) fun _ => .none
      split
      next =>
        rw [wp_bind]
        refine wp_etcdOp ?_ fun _ => .none
        rw [wp_bind, wp_get]
        dsimp only
        rw [prepareKey_storeKey hplain hne]
        split
        next =>
          rw [wp_modify]
          refine ⟨?_, fun _ => .deleted hknown (StatusOnly.refl _)⟩
          refine wp_mono (statusOnly_deleteFuncStatus (StatusOnly.refl _)) (fun _ t ht => ?_)
            (fun _ t ht => ?_) fun _ h => h
          · exact .deleted hknown ht
          · exact .deleted hknown ht
        next =>
          split
          next => trivial
          next => exact fun _ => .none
      next => exact .none
    next => exact .none

theorem next_effect {codec : Codec V} {s t : Etcd V} {c : SvcEnv × Request V}
    (h : s.next codec c = some t) : Effect codec s c.2 t := wp_state (run_effect codec c.1 c.2 s) h

end Inferx.StateSvc
