import Inferx.Lib.Runs
import Inferx.StateSvc.Effects

/-!
# Referential integrity

A function belongs to a tenant and a namespace, and a namespace to a tenant, and
the checks of the requests are there so that these exist. They do as long as no
tenant or namespace is deleted and a namespace is only updated for a tenant that
exists: `DeleteObjCheck` refuses such deletions, but no request runs it, and the
check of an update of a namespace, unlike that of a creation, does not look for
the tenant.
-/

namespace Inferx.StateSvc

open Metastore

variable {V : Type} {codec : Codec V} {s t u : Etcd V}

/-! ## What the checks establish -/

/-- Is there such a tenant? -/
def Etcd.hasTenant (s : Etcd V) (tenant : String) : Bool :=
  s.has tenantKEY systemTenant systemNamespace tenant

/-- Is there such a namespace? -/
def Etcd.hasNamespace (s : Etcd V) (tenant nameSpace : String) : Bool :=
  s.has namespaceKEY tenant systemNamespace nameSpace

theorem containersNamespace_ok {tenant nameSpace : String}
    (h : s.containersNamespace tenant nameSpace = .ok ()) :
    s.hasTenant tenant = true ∧ s.hasNamespace tenant nameSpace = true := by
  unfold Etcd.containersNamespace at h
  split at h
  next => cases h
  next htenant =>
    split at h
    next => cases h
    next hspace =>
      rw [Bool.not_eq_true', Bool.not_eq_false] at htenant hspace
      exact ⟨htenant, hspace⟩

theorem createFuncCheck_ok {obj : DataObject V} (h : s.createFuncCheck codec obj = .ok ()) :
    s.hasTenant obj.tenant = true ∧ s.hasNamespace obj.tenant obj.nameSpace = true := by
  unfold Etcd.createFuncCheck at h
  obtain ⟨_, -, h⟩ := Except.bind_eq_ok.mp h
  obtain ⟨_, -, h⟩ := Except.bind_eq_ok.mp h
  obtain ⟨_, hspace, -⟩ := Except.bind_eq_ok.mp h
  exact containersNamespace_ok hspace

theorem updateFuncCheck_ok {obj : DataObject V} (h : s.updateFuncCheck codec obj = .ok ()) :
    s.hasTenant obj.tenant = true ∧ s.hasNamespace obj.tenant obj.nameSpace = true := by
  unfold Etcd.updateFuncCheck at h
  obtain ⟨_, -, h⟩ := Except.bind_eq_ok.mp h
  obtain ⟨_, -, h⟩ := Except.bind_eq_ok.mp h
  obtain ⟨_, hspace, -⟩ := Except.bind_eq_ok.mp h
  exact containersNamespace_ok hspace

theorem createNamespaceCheck_ok {obj : DataObject V} (h : s.createNamespaceCheck codec obj = .ok ()) :
    s.hasTenant obj.tenant = true := by
  unfold Etcd.createNamespaceCheck at h
  obtain ⟨_, -, h⟩ := Except.bind_eq_ok.mp h
  obtain ⟨_, -, h⟩ := Except.bind_eq_ok.mp h
  split at h
  next => cases h
  next htenant =>
    rw [Bool.not_eq_true', Bool.not_eq_false] at htenant
    exact htenant

/-- The types of objects, as the checks tell them apart. -/
theorem createObjCheck_function {obj : DataObject V} (h : s.createObjCheck codec obj = .ok ())
    (htype : obj.objType = functionKEY) : s.createFuncCheck codec obj = .ok () := by
  unfold Etcd.createObjCheck at h
  rw [htype, if_neg (by decide), if_neg (by decide), if_pos rfl] at h
  exact h

theorem createObjCheck_namespace {obj : DataObject V} (h : s.createObjCheck codec obj = .ok ())
    (htype : obj.objType = namespaceKEY) : s.createNamespaceCheck codec obj = .ok () := by
  unfold Etcd.createObjCheck at h
  rw [htype, if_neg (by decide), if_pos rfl] at h
  exact h

theorem updateObjCheck_function {obj : DataObject V} (h : s.updateObjCheck codec obj = .ok ())
    (htype : obj.objType = functionKEY) : s.updateFuncCheck codec obj = .ok () := by
  unfold Etcd.updateObjCheck at h
  rw [htype, if_neg (by decide), if_neg (by decide), if_neg (by decide), if_pos rfl] at h
  exact h

/-- Only objects of these types are updated. -/
theorem updateObjCheck_known {obj : DataObject V} (h : s.updateObjCheck codec obj = .ok ()) :
    obj.objType ∈ etcdObjects := by
  unfold Etcd.updateObjCheck at h
  split at h
  next htype => simp [etcdObjects, htype]
  next =>
    split at h
    next htype => simp [etcdObjects, htype]
    next =>
      split at h
      next htype => simp [etcdObjects, htype]
      next =>
        split at h
        next htype => simp [etcdObjects, htype]
        next =>
          split at h
          next htype => simp [etcdObjects, htype]
          next => cases h

/-- A policy keeps its names and its type when it is normalized. -/
theorem normalizeFuncPolicy_names {obj obj' : DataObject V} (h : normalizeFuncPolicy codec obj = .ok obj') :
    obj'.objType = obj.objType ∧ obj'.tenant = obj.tenant := by
  unfold normalizeFuncPolicy at h
  split at h
  next =>
    obtain ⟨p, -, h⟩ := Except.bind_eq_ok.mp h
    obtain rfl := Except.ok.inj h
    exact ⟨rfl, rfl⟩
  next =>
    obtain rfl := Except.ok.inj h
    exact ⟨rfl, rfl⟩

/-! ## Owners -/

/-- The types that others refer to. -/
def ownerTypes : List String := [tenantKEY, namespaceKEY]

theorem plain_of_owner {a : String} (h : a ∈ ownerTypes) :
    '/' ∉ a.toList ∧ a ≠ "" ∧ a ≠ funcstatusKEY := by
  have hall : ∀ a ∈ ownerTypes, '/' ∉ a.toList ∧ a ≠ "" ∧ a ≠ funcstatusKEY := by decide
  exact hall a h

/-- No tenant and no namespace is lost. -/
def KeepsOwners (s t : Etcd V) : Prop :=
  ∀ a ∈ ownerTypes, ∀ tenant nameSpace name,
    s.has a tenant nameSpace name = true → t.has a tenant nameSpace name = true

/-- Functions and namespaces belong to tenants and namespaces that exist. -/
structure Integral (s : Etcd V) : Prop where
  /-- functions -/
  func : ∀ (k : String) (o : DataObject V), s.kvs[k]? = some o → o.objType = functionKEY →
    s.hasTenant o.tenant = true ∧ s.hasNamespace o.tenant o.nameSpace = true
  /-- namespaces -/
  nameSpace : ∀ (k : String) (o : DataObject V), s.kvs[k]? = some o → o.objType = namespaceKEY → s.hasTenant o.tenant = true

theorem KeepsOwners.hasTenant (h : KeepsOwners s t) {tenant : String} (hs : s.hasTenant tenant = true) :
    t.hasTenant tenant = true :=
  h tenantKEY (by decide) _ _ _ hs

theorem KeepsOwners.hasNamespace (h : KeepsOwners s t) {tenant nameSpace : String}
    (hs : s.hasNamespace tenant nameSpace = true) : t.hasNamespace tenant nameSpace = true :=
  h namespaceKEY (by decide) _ _ _ hs

theorem KeepsOwners.trans (h : KeepsOwners s t) (h' : KeepsOwners t u) : KeepsOwners s u :=
  fun a ha _ _ _ hs => h' a ha _ _ _ (h a ha _ _ _ hs)

theorem has_congr {a tenant nameSpace name : String}
    (h : t.kvs[storeKey a (objKey tenant nameSpace name)]? = s.kvs[storeKey a (objKey tenant nameSpace name)]?) :
    t.has a tenant nameSpace name = s.has a tenant nameSpace name := by
  unfold Etcd.has
  rw [h]

theorem StatusOnly.keepsOwners (h : StatusOnly s t) : KeepsOwners s t := by
  intro a ha tenant nameSpace name hs
  obtain ⟨hplain, -, hne⟩ := plain_of_owner ha
  rw [has_congr (h.get hplain hne)]
  exact hs

/-- A write that does not put another type in the place of an owner. -/
theorem keepsOwners_put {k : String} {obj : DataObject V}
    (h : ∀ a ∈ ownerTypes, ∀ tenant nameSpace name, k = storeKey a (objKey tenant nameSpace name) →
      s.has a tenant nameSpace name = true → obj.objType = a) : KeepsOwners s (s.put k obj) := by
  intro a ha tenant nameSpace name hs
  unfold Etcd.has Etcd.put
  rw [BTreeMap.get_insert]
  split
  next hk =>
    have htype := h a ha tenant nameSpace name hk.symm hs
    simp [htype]
  next => exact hs

theorem keepsOwners_del {b tenant nameSpace name : String} (hplain : '/' ∉ b.toList) (hb : b ∉ ownerTypes) :
    KeepsOwners s (s.del (storeKey b (objKey tenant nameSpace name))) := by
  intro a ha tenant' nameSpace' name' hs
  refine (has_congr ?_).trans hs
  unfold Etcd.del
  refine BTreeMap.get_erase_of_ne fun heq => hb ?_
  rw [← (storeKey_inj (plain_of_owner ha).1 hplain heq).1]
  exact ha

/-- One more object leaves the store sound if what it belongs to exists. -/
theorem integral_put {k : String} {obj : DataObject V} (hs : Integral s) (hkeeps : KeepsOwners s (s.put k obj))
    (hfunc : obj.objType = functionKEY →
      s.hasTenant obj.tenant = true ∧ s.hasNamespace obj.tenant obj.nameSpace = true)
    (hspace : obj.objType = namespaceKEY → s.hasTenant obj.tenant = true) : Integral (s.put k obj) := by
  have hget : ∀ (a : String) (o : DataObject V), (s.put k obj).kvs[a]? = some o → s.kvs[a]? = some o ∨
      o.objType = obj.objType ∧ o.tenant = obj.tenant ∧ o.nameSpace = obj.nameSpace := by
    intro a o ho
    unfold Etcd.put at ho
    rw [BTreeMap.get_insert] at ho
    split at ho
    next =>
      obtain rfl := Option.some.inj ho
      exact Or.inr ⟨rfl, rfl, rfl⟩
    next => exact Or.inl ho
  refine ⟨fun a o ho htype => ?_, fun a o ho htype => ?_⟩
  · rcases hget a o ho with hold | ⟨htype', htenant, hname⟩
    · obtain ⟨htenant, hname⟩ := hs.func a o hold htype
      exact ⟨hkeeps.hasTenant htenant, hkeeps.hasNamespace hname⟩
    · obtain ⟨h, h'⟩ := hfunc (htype'.symm.trans htype)
      rw [htenant, hname]
      exact ⟨hkeeps.hasTenant h, hkeeps.hasNamespace h'⟩
  · rcases hget a o ho with hold | ⟨htype', htenant, -⟩
    · exact hkeeps.hasTenant (hs.nameSpace a o hold htype)
    · rw [htenant]
      exact hkeeps.hasTenant (hspace (htype'.symm.trans htype))

/-- Fewer functions and namespaces leave the store sound if all owners stay. -/
theorem integral_sub (hs : Integral s) (hkeeps : KeepsOwners s t)
    (hsub : ∀ (k : String) (o : DataObject V), t.kvs[k]? = some o → o.objType ≠ funcstatusKEY → s.kvs[k]? = some o) : Integral t := by
  refine ⟨fun k o ho htype => ?_, fun k o ho htype => ?_⟩
  · obtain ⟨htenant, hname⟩ := hs.func k o (hsub k o ho (by rw [htype]; decide)) htype
    exact ⟨hkeeps.hasTenant htenant, hkeeps.hasNamespace hname⟩
  · exact hkeeps.hasTenant (hs.nameSpace k o (hsub k o ho (by rw [htype]; decide)) htype)

theorem StatusOnly.integral (h : StatusOnly s t) (hs : Integral s) : Integral t :=
  integral_sub hs h.keepsOwners fun _ _ ho hne => h.get_eq ho hne

/-! ## Requests -/

/-- No tenant or namespace is deleted, and a namespace is only updated for a tenant
that exists. -/
def IntegrityOk (s : Etcd V) (c : SvcEnv × Request V) : Prop :=
  match c.2 with
  | .create _ => True
  | .update _ obj => obj.objType = namespaceKEY → s.hasTenant obj.tenant = true
  | .delete objType _ _ _ _ => objType ∉ ownerTypes

/-- One request keeps all owners and leaves the store sound. -/
theorem Effect.integral {c : SvcEnv × Request V} (h : Effect codec s c.2 t) (hs : Integral s)
    (hok : IntegrityOk s c) : Integral t ∧ KeepsOwners s t := by
  obtain ⟨env, r⟩ := c
  cases h with
  | none => exact ⟨hs, fun _ _ _ _ _ h => h⟩
  | @created obj obj' _ hobj hcheck hnew hstatus =>
    have hkeeps : KeepsOwners s (s.put (prepareKey (storeKey obj'.objType obj'.key)) obj') := by
      refine keepsOwners_put fun a ha tenant nameSpace name hk hhas => ?_
      unfold Etcd.has at hhas
      rw [← hk, hnew] at hhas
      cases hhas
    refine ⟨hstatus.integral (integral_put hs hkeeps (fun htype => ?_) fun htype => ?_),
      hkeeps.trans hstatus.keepsOwners⟩
    · exact createFuncCheck_ok (createObjCheck_function hcheck htype)
    · exact createNamespaceCheck_ok (createObjCheck_namespace hcheck htype)
  | @updated _ obj obj' _ hobj hcheck hstatus =>
    obtain ⟨hplain, hne⟩ := plain_of_known (Or.inl (updateObjCheck_known hcheck))
    obtain ⟨htype', htenant'⟩ := normalizeFuncPolicy_names hobj
    have hkeeps : KeepsOwners s (s.put (prepareKey (storeKey obj'.objType obj'.key)) obj') := by
      refine keepsOwners_put fun a ha tenant nameSpace name hk _ => ?_
      rw [prepareKey_storeKey hplain hne] at hk
      exact (storeKey_inj hplain (plain_of_owner ha).1 hk).1
    refine ⟨hstatus.integral (integral_put hs hkeeps (fun htype => ?_) fun htype => ?_),
      hkeeps.trans hstatus.keepsOwners⟩
    · exact updateFuncCheck_ok (updateObjCheck_function hcheck htype)
    · rw [htenant']
      exact hok (htype'.symm.trans htype)
  | @deleted objType tenant nameSpace name _ _ hknown hstatus =>
    have hkeeps : KeepsOwners s (s.del (storeKey objType (objKey tenant nameSpace name))) :=
      keepsOwners_del (plain_of_known hknown).1 hok
    refine ⟨hstatus.integral (integral_sub hs hkeeps fun k o ho _ => ?_), hkeeps.trans hstatus.keepsOwners⟩
    exact (BTreeMap.get_erase_eq_some.mp ho).2

/-- **Referential integrity.** In every state that requests lead to from an empty
store, whatever fails on the way, functions and namespaces belong to tenants and
namespaces that exist, and no further request loses a tenant or a namespace: as
long as no request deletes one, and namespaces are only updated for tenants that
exist. -/
theorem integral_of_reach (h : Reach (Etcd.next codec) (fun s => s.kvs = ∅) IntegrityOk s) :
    Integral s ∧ ∀ c t, IntegrityOk s c → s.next codec c = some t → KeepsOwners s t := by
  have hs : Integral s := by
    refine h.invariant (I := Integral) (fun s hs => ?_) fun s c t hs hok hnext =>
      ((next_effect hnext).integral hs hok).1
    refine ⟨fun k o ho _ => ?_, fun k o ho _ => ?_⟩
    · rw [hs] at ho
      cases ho
    · rw [hs] at ho
      cases ho
  exact ⟨hs, fun c t hok hnext => ((next_effect hnext).integral hs hok).2⟩

instance (s : Etcd V) (c : SvcEnv × Request V) : Decidable (IntegrityOk s c) := by
  unfold IntegrityOk
  split
  · exact instDecidableTrue
  · exact inferInstance
  · exact inferInstance

namespace Sample

/-- JSON values, by what they hold. -/
inductive Value where
  | tenant (t : TenantObject)
  | nameSpace
  | func (f : FuncObject)
  | policy (p : FuncPolicySpec)
  | partialPolicy (p : PartialFuncPolicySpec)
  | status (st : FunctionStatusDef)
  deriving DecidableEq

/-- A value is read as what it holds. -/
def json : Codec Value where
  tenant v := match v with | .tenant t => some t | _ => none
  nameSpace v := match v with | .nameSpace => some () | _ => none
  func v := match v with | .func f => some f | _ => none
  policy v := match v with | .policy p => some p | _ => none
  partialPolicy v := match v with | .partialPolicy p => some p | _ => none
  ofPolicy := .policy
  ofStatus := .status

/-- An object of given names. -/
def named (objType tenant nameSpace name : String) (object : Value) : DataObject Value :=
  { objType, tenant, nameSpace, name, object }

/-- Create a tenant, a namespace and a function. -/
def founding : List (SvcEnv × Request Value) :=
  [({}, .create (named tenantKEY "system" "system" "t" (.tenant {}))),
    ({}, .create (named namespaceKEY "t" "system" "n" .nameSpace)),
    ({}, .create (named functionKEY "t" "n" "f" (.func {})))]

/-- Delete the tenant. -/
def orphaning : List (SvcEnv × Request Value) :=
  founding ++ [(({} : SvcEnv), .delete tenantKEY "system" "system" "t" 0)]

/-- The store after some requests. -/
def after (l : List (SvcEnv × Request Value)) : Etcd Value :=
  (exec (Etcd.next json) (fun _ _ => True) {} l).getD {}

end Sample

/-- A function is created in its namespace. -/
theorem integral_after_founding :
    (Sample.after Sample.founding).has functionKEY "t" "n" "f" = true ∧
      Integral (Sample.after Sample.founding) := by
  refine ⟨by decide +kernel, ?_⟩
  have hsome : (exec (Etcd.next Sample.json) IntegrityOk {} Sample.founding).isSome = true := by
    decide +kernel
  obtain ⟨s, hs⟩ := Option.isSome_iff_exists.mp hsome
  have hreach : Reach (Etcd.next Sample.json) (fun s => s.kvs = ∅) IntegrityOk s :=
    Reach.of_exec _ _ (.init rfl) hs
  have heq : Sample.after Sample.founding = s := by
    unfold Sample.after
    rw [exec_mono (fun _ _ _ => trivial) hs, Option.getD_some]
  rw [heq]
  exact (integral_of_reach hreach).1

/-- The tenant of a function is deleted. -/
theorem tenant_deleted_under_function : ¬ ∀ s : Etcd Sample.Value,
    Reach (Etcd.next Sample.json) (fun s => s.kvs = ∅) (fun _ _ => True) s → Integral s := by
  intro h
  have hsome : (exec (Etcd.next Sample.json) (fun _ _ => True) {} Sample.orphaning).isSome = true := by
    decide +kernel
  obtain ⟨s, hs⟩ := Option.isSome_iff_exists.mp hsome
  have hint := h s (Reach.of_exec _ _ (.init rfl) hs)
  have heq : Sample.after Sample.orphaning = s := by
    unfold Sample.after
    rw [hs, Option.getD_some]
  rw [← heq] at hint
  have hfunc : (Sample.after Sample.orphaning).kvs[
      "function/t/n/f"]?.map (fun o => (o.objType, o.tenant)) = some (functionKEY, "t") := by
    decide +kernel
  obtain ⟨o, ho, hnames⟩ := Option.map_eq_some_iff.mp hfunc
  have htenant := (hint.func _ o ho (congrArg Prod.fst hnames)).1
  rw [show o.tenant = "t" from congrArg Prod.snd hnames] at htenant
  have hgone : (Sample.after Sample.orphaning).hasTenant
      "t" = false := by
    decide +kernel
  rw [hgone] at htenant
  cases htenant

end Inferx.StateSvc
