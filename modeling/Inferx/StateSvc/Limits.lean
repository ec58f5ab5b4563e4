import Inferx.StateSvc.Integrity

/-!
# The limits of a tenant

A tenant has limits on its functions and their policies. A creation checks all of
them; an update of a function checks the policy only. So a function that is
created as it should be can be changed into one that keeps its standby parts in
memory, and the limits hold as long as no update does that.

How many functions a tenant has is read off their keys, which start with the
tenant. An update that puts a function of another tenant under the same key,
which takes a slash in a name, is not counted.
-/

namespace Inferx.StateSvc

open Metastore

variable {V : Type} {codec : Codec V} {s t u : Etcd V} {tenant : String} {T : TenantObject}

/-! ## Limits -/

/-- A policy is within the limits. -/
structure Within (limit : ResourceLimit) (p : FuncPolicySpec) : Prop where
  /-- pods to keep -/
  minReplica : p.minReplica ≤ limit.minReplicaCap
  /-- pods to allow -/
  maxReplica : p.maxReplica ≤ limit.maxReplica
  /-- standby pods -/
  standbyPerNode : p.standbyPerNode ≤ limit.maxStandby
  /-- queued requests -/
  queueLen : p.queueLen ≤ limit.maxQueueLen

/-- A function is within the limits. -/
def FuncWithin (limit : ResourceLimit) (f : FuncObject) : Prop :=
  (limit.allocMemStandby = false → usesMem f.standby = false) ∧ ∀ p, f.policy = .obj p → Within limit p

/-- How many functions a tenant has. -/
def Etcd.funcCount (s : Etcd V) (tenant : String) : ℕ :=
  BTreeMap.count (fun _ o => o.objType == functionKEY && o.tenant == tenant) s.kvs

/-- All of a tenant is within its limits. -/
structure Respects (codec : Codec V) (tenant : String) (limit : ResourceLimit) (s : Etcd V) : Prop where
  /-- its functions -/
  func : ∀ (k : String) (o : DataObject V) (f : FuncObject), s.kvs[k]? = some o → o.objType = functionKEY →
    o.tenant = tenant → codec.func o.object = some f → FuncWithin limit f
  /-- its policies -/
  policy : ∀ (k : String) (o : DataObject V) (p : FuncPolicySpec), s.kvs[k]? = some o →
    o.objType = funcpolicyKEY → o.tenant = tenant → codec.policy o.object = some p → Within limit p
  /-- the number of its functions -/
  count : s.funcCount tenant ≤ limit.maxFuncCnt

/-! ## What the checks establish -/

theorem parse_ok {α : Type} {x : Option α} {a : α} (h : parse x = .ok a) : x = some a := by
  rcases x with _ | b
  · cases h
  · obtain rfl := Except.ok.inj h
    rfl

theorem within_of_validate {limit : ResourceLimit} {p : FuncPolicySpec}
    (h : validateTenantFuncPolicyLimit limit p = .ok ()) : Within limit p := by
  unfold validateTenantFuncPolicyLimit at h
  split at h
  next => cases h
  next hmin =>
    split at h
    next => cases h
    next hmax =>
      split at h
      next => cases h
      next hstandby =>
        split at h
        next => cases h
        next hqueue => exact ⟨by omega, by omega, by omega, by omega⟩

theorem within_of_check {p : FuncPolicySpec} (hT : s.getTenant codec tenant = .ok T)
    (h : s.funcPolicyCheck codec tenant p = .ok ()) : Within T.resourceLimit p := by
  unfold Etcd.funcPolicyCheck at h
  obtain ⟨T', hT', h⟩ := Except.bind_eq_ok.mp h
  obtain rfl := Except.ok.inj (hT'.symm.trans hT)
  exact within_of_validate h

theorem within_of_policyRef {r : ObjRef} (hT : s.getTenant codec tenant = .ok T)
    (h : s.policyRefCheck codec tenant r = .ok ()) (p : FuncPolicySpec) (hp : r = .obj p) :
    Within T.resourceLimit p := by
  subst hp
  exact within_of_check hT h

/-- A function that is created is within the limits, and there is room for it. -/
theorem createFuncCheck_within {obj : DataObject V} {f : FuncObject}
    (hT : s.getTenant codec obj.tenant = .ok T) (hf : codec.func obj.object = some f)
    (h : s.createFuncCheck codec obj = .ok ()) :
    FuncWithin T.resourceLimit f ∧ s.countByPrefix obj.tenant < T.resourceLimit.maxFuncCnt := by
  unfold Etcd.createFuncCheck at h
  obtain ⟨f', hf', h⟩ := Except.bind_eq_ok.mp h
  obtain rfl := Option.some.inj ((parse_ok hf').symm.trans hf)
  obtain ⟨_, -, h⟩ := Except.bind_eq_ok.mp h
  obtain ⟨_, -, h⟩ := Except.bind_eq_ok.mp h
  obtain ⟨T', hT', h⟩ := Except.bind_eq_ok.mp h
  obtain rfl := Except.ok.inj (hT'.symm.trans hT)
  dsimp only at h
  split at h
  next => cases h
  next =>
    split at h
    next => cases h
    next hcount =>
      split at h
      next => cases h
      next hstandby =>
        refine ⟨⟨fun hmem => ?_, within_of_policyRef hT h⟩, by omega⟩
        simpa [hmem] using hstandby

/-- A function that is updated has a policy within the limits. -/
theorem updateFuncCheck_within {obj : DataObject V} {f : FuncObject}
    (hT : s.getTenant codec obj.tenant = .ok T) (hf : codec.func obj.object = some f)
    (h : s.updateFuncCheck codec obj = .ok ()) :
    (∀ p, f.policy = .obj p → Within T.resourceLimit p) ∧
      s.has functionKEY obj.tenant obj.nameSpace obj.name = true := by
  unfold Etcd.updateFuncCheck at h
  obtain ⟨f', hf', h⟩ := Except.bind_eq_ok.mp h
  obtain rfl := Option.some.inj ((parse_ok hf').symm.trans hf)
  obtain ⟨_, -, h⟩ := Except.bind_eq_ok.mp h
  obtain ⟨_, -, h⟩ := Except.bind_eq_ok.mp h
  split at h
  next => cases h
  next hhas =>
    rw [Bool.not_eq_true', Bool.not_eq_false] at hhas
    exact ⟨within_of_policyRef hT h, hhas⟩

theorem createFuncPolicyCheck_within {obj : DataObject V} {p : FuncPolicySpec}
    (hT : s.getTenant codec obj.tenant = .ok T) (hp : codec.policy obj.object = some p)
    (h : s.createFuncPolicyCheck codec obj = .ok ()) : Within T.resourceLimit p := by
  unfold Etcd.createFuncPolicyCheck at h
  obtain ⟨p', hp', h⟩ := Except.bind_eq_ok.mp h
  obtain rfl := Option.some.inj ((parse_ok hp').symm.trans hp)
  obtain ⟨_, -, h⟩ := Except.bind_eq_ok.mp h
  exact within_of_check hT h

theorem createObjCheck_policy {obj : DataObject V} (h : s.createObjCheck codec obj = .ok ())
    (htype : obj.objType = funcpolicyKEY) : s.createFuncPolicyCheck codec obj = .ok () := by
  unfold Etcd.createObjCheck at h
  rw [htype, if_neg (by decide), if_neg (by decide), if_neg (by decide), if_pos rfl] at h
  exact h

theorem updateObjCheck_policy {obj : DataObject V} (h : s.updateObjCheck codec obj = .ok ())
    (htype : obj.objType = funcpolicyKEY) : s.createFuncPolicyCheck codec obj = .ok () := by
  unfold Etcd.updateObjCheck at h
  rw [htype, if_neg (by decide), if_neg (by decide), if_neg (by decide), if_neg (by decide),
    if_pos rfl] at h
  exact h

/-! ## Counting -/

/-- The key of an object starts with its tenant. -/
theorem tenant_prefix (o : DataObject V) :
    (if o.tenant.isEmpty then "" else s!"{o.tenant}/").toList.isPrefixOf o.key.toList = true := by
  rw [List.isPrefixOf_iff_prefix]
  split
  next => exact List.nil_prefix
  next =>
    refine ⟨(s!"{o.nameSpace}/{o.name}").toList, ?_⟩
    simp [DataObject.key]

/-- The functions of a tenant are among those whose key starts with it. -/
theorem funcCount_le (s : Etcd V) (tenant : String) : s.funcCount tenant ≤ s.countByPrefix tenant := by
  unfold Etcd.funcCount Etcd.countByPrefix
  refine BTreeMap.count_le fun k o ho hp => ⟨o, ho, ?_⟩
  rw [Bool.and_eq_true, beq_iff_eq, beq_iff_eq] at hp
  rw [Bool.and_eq_true, beq_iff_eq]
  refine ⟨hp.1, ?_⟩
  rw [← hp.2]
  exact tenant_prefix o

theorem get_put {k a : String} {obj o : DataObject V} (h : (s.put k obj).kvs[a]? = some o) :
    s.kvs[a]? = some o ∨ a = k ∧ o.objType = obj.objType ∧ o.tenant = obj.tenant ∧ o.object = obj.object := by
  unfold Etcd.put at h
  rw [BTreeMap.get_insert] at h
  split at h
  next ha =>
    obtain rfl := Option.some.inj h
    exact Or.inr ⟨ha, rfl, rfl, rfl⟩
  next => exact Or.inl h

/-- A write makes one function more at most. -/
theorem funcCount_put_le {k : String} {obj : DataObject V} :
    (s.put k obj).funcCount tenant ≤ s.funcCount tenant + 1 := by
  refine BTreeMap.count_le_succ k fun a o ho hp => ?_
  rcases get_put ho with hold | ⟨ha, -⟩
  · exact Or.inr ⟨o, hold, hp⟩
  · exact Or.inl ha

/-- A write makes no function more if it is none of the tenant, or takes the place of one. -/
theorem funcCount_put_same {k : String} {obj : DataObject V}
    (h : obj.objType = functionKEY → obj.tenant = tenant →
      ∃ o, s.kvs[k]? = some o ∧ o.objType = functionKEY ∧ o.tenant = tenant) :
    (s.put k obj).funcCount tenant ≤ s.funcCount tenant := by
  refine BTreeMap.count_le fun a o ho hp => ?_
  rcases get_put ho with hold | ⟨ha, htype, htenant, -⟩
  · exact ⟨o, hold, hp⟩
  · rw [Bool.and_eq_true, beq_iff_eq, beq_iff_eq] at hp
    obtain ⟨o', ho', htype', htenant'⟩ := h (htype.symm.trans hp.1) (htenant.symm.trans hp.2)
    refine ⟨o', ha ▸ ho', ?_⟩
    rw [htype', htenant', beq_self_eq_true, beq_self_eq_true]
    rfl

/-! ## Requests -/

/-- One object more is within the limits. -/
theorem respects_put {k : String} {obj : DataObject V} {limit : ResourceLimit}
    (hs : Respects codec tenant limit s)
    (hfunc : ∀ f, obj.objType = functionKEY → obj.tenant = tenant → codec.func obj.object = some f →
      FuncWithin limit f)
    (hpolicy : ∀ p, obj.objType = funcpolicyKEY → obj.tenant = tenant → codec.policy obj.object = some p →
      Within limit p)
    (hcount : (s.put k obj).funcCount tenant ≤ limit.maxFuncCnt) : Respects codec tenant limit (s.put k obj) := by
  refine ⟨fun a o f ho htype htenant hf => ?_, fun a o p ho htype htenant hp => ?_, hcount⟩
  · rcases get_put ho with hold | ⟨-, htype', htenant', hobject⟩
    · exact hs.func a o f hold htype htenant hf
    · exact hfunc f (htype'.symm.trans htype) (htenant'.symm.trans htenant) (hobject ▸ hf)
  · rcases get_put ho with hold | ⟨-, htype', htenant', hobject⟩
    · exact hs.policy a o p hold htype htenant hp
    · exact hpolicy p (htype'.symm.trans htype) (htenant'.symm.trans htenant) (hobject ▸ hp)

/-- Fewer objects are within the limits. -/
theorem respects_sub {limit : ResourceLimit} (hs : Respects codec tenant limit s)
    (hsub : ∀ (k : String) (o : DataObject V), t.kvs[k]? = some o → o.objType ≠ funcstatusKEY →
      s.kvs[k]? = some o) : Respects codec tenant limit t := by
  have hne : functionKEY ≠ funcstatusKEY ∧ funcpolicyKEY ≠ funcstatusKEY := by decide
  refine ⟨fun k o f ho htype => hs.func k o f (hsub k o ho (htype ▸ hne.1)) htype,
    fun k o p ho htype => hs.policy k o p (hsub k o ho (htype ▸ hne.2)) htype, ?_⟩
  refine Nat.le_trans (BTreeMap.count_le fun k o ho hp => ⟨o, hsub k o ho fun htype => ?_, hp⟩) hs.count
  rw [htype] at hp
  cases hp

/-- An update of one of the tenant's functions keeps no standby part in memory
unless the tenant may, and takes the place of a function of the same tenant. -/
def LimitsOk (codec : Codec V) (tenant : String) (T : TenantObject) (s : Etcd V) (c : SvcEnv × Request V) :
    Prop :=
  match c.2 with
  | .update _ obj => obj.objType = functionKEY → obj.tenant = tenant →
    (∀ f, codec.func obj.object = some f → T.resourceLimit.allocMemStandby = false →
      usesMem f.standby = false) ∧
    ∀ o, s.kvs[storeKey functionKEY obj.key]? = some o → o.tenant = tenant
  | _ => True

/-- One request leaves the tenant within its limits. -/
theorem Effect.respects {c : SvcEnv × Request V} (h : Effect codec s c.2 t)
    (hT : s.getTenant codec tenant = .ok T) (hs : Respects codec tenant T.resourceLimit s)
    (hok : LimitsOk codec tenant T s c) : Respects codec tenant T.resourceLimit t := by
  obtain ⟨env, r⟩ := c
  cases h with
  | none => exact hs
  | @created obj obj' _ hobj hcheck hnew hstatus =>
    refine respects_sub (respects_put (s := s) hs (fun f htype htenant hf => ?_)
      (fun p htype htenant hp => ?_) ?_) fun _ _ ho hne => hstatus.get_eq ho hne
    · subst htenant
      exact (createFuncCheck_within hT hf (createObjCheck_function hcheck htype)).1
    · subst htenant
      exact createFuncPolicyCheck_within hT hp (createObjCheck_policy hcheck htype)
    · by_cases hmine : obj'.objType = functionKEY ∧ obj'.tenant = tenant
      · obtain ⟨htype, rfl⟩ := hmine
        have hfunc := createObjCheck_function hcheck htype
        obtain ⟨f, hf⟩ : ∃ f, codec.func obj'.object = some f := by
          obtain ⟨f, hf, -⟩ := Except.bind_eq_ok.mp hfunc
          exact ⟨f, parse_ok hf⟩
        have hroom := (createFuncCheck_within hT hf hfunc).2
        have hfew := funcCount_le s obj'.tenant
        refine Nat.le_trans funcCount_put_le ?_
        omega
      · exact Nat.le_trans (funcCount_put_same fun htype htenant => absurd ⟨htype, htenant⟩ hmine) hs.count
  | @updated _ obj obj' _ hobj hcheck hstatus =>
    obtain ⟨hplain, hne⟩ := plain_of_known (Or.inl (updateObjCheck_known hcheck))
    -- a function is not changed before it is checked
    have hsame : obj'.objType = functionKEY → obj' = obj := by
      intro htype
      have htype' := (normalizeFuncPolicy_names hobj).1.symm.trans htype
      unfold normalizeFuncPolicy at hobj
      rw [htype', if_neg (by decide)] at hobj
      exact (Except.ok.inj hobj).symm
    refine respects_sub (respects_put (s := s) hs (fun f htype htenant hf => ?_)
      (fun p htype htenant hp => ?_) ?_) fun _ _ ho hne => hstatus.get_eq ho hne
    · obtain rfl := hsame htype
      have hT' : s.getTenant codec obj'.tenant = .ok T := by rw [htenant, hT]
      exact ⟨(hok htype htenant).1 f hf,
        (updateFuncCheck_within hT' hf (updateObjCheck_function hcheck htype)).1⟩
    · subst htenant
      exact createFuncPolicyCheck_within hT hp (updateObjCheck_policy hcheck htype)
    · refine Nat.le_trans (funcCount_put_same fun htype htenant => ?_) hs.count
      obtain rfl := hsame htype
      have hT' : s.getTenant codec obj'.tenant = .ok T := by rw [htenant, hT]
      have hfunc := updateObjCheck_function hcheck htype
      obtain ⟨f, hf⟩ : ∃ f, codec.func obj'.object = some f := by
        obtain ⟨f, hf, -⟩ := Except.bind_eq_ok.mp hfunc
        exact ⟨f, parse_ok hf⟩
      have hhas := (updateFuncCheck_within hT' hf hfunc).2
      rw [prepareKey_storeKey hplain hne, htype]
      unfold Etcd.has at hhas
      change (s.kvs[storeKey functionKEY obj'.key]?.any _) = true at hhas
      rcases hold : s.kvs[storeKey functionKEY obj'.key]? with _ | o
      · rw [hold] at hhas
        cases hhas
      · rw [hold, Option.any_some, beq_iff_eq] at hhas
        exact ⟨o, rfl, hhas, (hok htype htenant).2 o hold⟩
  | @deleted objType _ _ _ _ _ hknown hstatus =>
    refine respects_sub (respects_sub (s := s) hs fun k o ho _ => ?_) fun _ _ ho hne => hstatus.get_eq ho hne
    exact (BTreeMap.get_erase_eq_some.mp ho).2

/-- A tenant that has no functions and no policies yet. -/
structure NewTenant (codec : Codec V) (tenant : String) (T : TenantObject) (s : Etcd V) : Prop where
  /-- it exists -/
  present : s.getTenant codec tenant = .ok T
  /-- it has no functions and no policies -/
  none : ∀ (k : String) (o : DataObject V), s.kvs[k]? = some o →
    o.objType = functionKEY ∨ o.objType = funcpolicyKEY → o.tenant ≠ tenant

/-- The tenant's object is not changed. -/
def TenantKept (codec : Codec V) (tenant : String) (T : TenantObject) (s : Etcd V) (c : SvcEnv × Request V) :
    Prop := ∀ t, s.next codec c = some t → t.getTenant codec tenant = .ok T

/-- **Limits.** In every state that requests lead to from the time a tenant is new,
as long as its object is not changed, all it has is within its limits: as long as
no update of its functions keeps standby parts in memory that it may not keep
there, or takes the place of another tenant's function. -/
theorem respects_of_reach (h : Reach (Etcd.next codec) (NewTenant codec tenant T)
    (fun s c => LimitsOk codec tenant T s c ∧ TenantKept codec tenant T s c) s) :
    Respects codec tenant T.resourceLimit s := by
  refine (h.invariant (I := fun s => s.getTenant codec tenant = .ok T ∧
    Respects codec tenant T.resourceLimit s) (fun s hs => ?_) fun s c t hs hok hnext => ?_).2
  · refine ⟨hs.present, fun k o f ho htype htenant => absurd htenant (hs.none k o ho (Or.inl htype)),
      fun k o p ho htype htenant => absurd htenant (hs.none k o ho (Or.inr htype)), ?_⟩
    refine Nat.le_trans (BTreeMap.count_le (n := (∅ : BTreeMap String Unit)) (q := fun _ _ => false)
      fun k o ho hp => ?_) (Nat.zero_le _)
    rw [Bool.and_eq_true, beq_iff_eq, beq_iff_eq] at hp
    exact absurd hp.2 (hs.none k o ho (Or.inl hp.1))
  · exact ⟨hok.2 t hnext, (next_effect hnext).respects hs.1 hs.2 hok.1⟩

instance (c : SvcEnv × Request V) : Decidable (LimitsOk codec tenant T s c) :=
  match c with
  | (_, .update _ obj) => inferInstanceAs (Decidable (obj.objType = functionKEY → obj.tenant = tenant →
      (∀ f ∈ codec.func obj.object, T.resourceLimit.allocMemStandby = false → usesMem f.standby = false) ∧
        ∀ o ∈ s.kvs[storeKey functionKEY obj.key]?, o.tenant = tenant))
  | (_, .create _) => instDecidableTrue
  | (_, .delete _ _ _ _ _) => instDecidableTrue

instance (c : SvcEnv × Request V) : Decidable (TenantKept codec tenant T s c) :=
  inferInstanceAs (Decidable (∀ t ∈ s.next codec c, t.getTenant codec tenant = .ok T))

namespace Sample

/-- A tenant with a namespace. -/
def settled : Etcd Value := after (founding.take 2)

/-- Create a function. -/
def creating : List (SvcEnv × Request Value) := founding.drop 2

/-- Update it to one that keeps its standby GPU memory in files. -/
def updating : List (SvcEnv × Request Value) :=
  creating ++ [(({} : SvcEnv), .update 0 (named functionKEY "t" "n" "f"
    (.func { standby := { gpuMem := .file } })))]

/-- Update it to one that keeps it in memory. -/
def hoarding : List (SvcEnv × Request Value) :=
  creating ++ [(({} : SvcEnv), .update 0 (named functionKEY "t" "n" "f"
    (.func { standby := { gpuMem := .mem } })))]

theorem newTenant_settled : NewTenant json "t" {} settled := by
  refine ⟨by decide +kernel, fun k o ho htype htenant => ?_⟩
  have hnone : BTreeMap.keysWith (fun (_ : String) (o : DataObject Value) =>
      (o.objType == functionKEY || o.objType == funcpolicyKEY) && o.tenant == "t") settled.kvs = [] := by
    decide +kernel
  have hmem : k ∈ BTreeMap.keysWith (fun (_ : String) (o : DataObject Value) =>
      (o.objType == functionKEY || o.objType == funcpolicyKEY) && o.tenant == "t") settled.kvs := by
    refine BTreeMap.mem_keysWith.mpr ⟨o, ho, ?_⟩
    rcases htype with htype | htype
    · simp [htype, htenant]
    · simp [htype, htenant]
  rw [hnone] at hmem
  cases hmem

end Sample

/-- A function is created and updated within the limits. -/
theorem respects_after_creating : (exec (Etcd.next Sample.json)
      (fun s c => LimitsOk Sample.json "t" {} s c ∧ TenantKept Sample.json "t" {} s c) Sample.settled
      Sample.updating).any (fun s => s.funcCount "t" == 1) = true ∧
    ∀ s ∈ exec (Etcd.next Sample.json)
      (fun s c => LimitsOk Sample.json "t" {} s c ∧ TenantKept Sample.json "t" {} s c) Sample.settled
      Sample.updating, Respects Sample.json "t" {} s :=
  ⟨by decide +kernel, fun _ hs =>
    respects_of_reach (T := {}) (Reach.of_exec _ _ (.init Sample.newTenant_settled) hs)⟩

/-- An update lets a function keep in memory what its tenant may not keep there. -/
theorem update_exceeds_limits : ¬ ∀ (tenant : String) (T : TenantObject) (s : Etcd Sample.Value),
    Reach (Etcd.next Sample.json) (NewTenant Sample.json tenant T) (TenantKept Sample.json tenant T) s →
      Respects Sample.json tenant T.resourceLimit s := by
  intro h
  have hsome : (exec (Etcd.next Sample.json) (TenantKept Sample.json "t" {}) Sample.settled
      Sample.hoarding).any (fun s => (s.kvs["function/t/n/f"]?.map fun o => (o.objType, o.tenant, o.object)) =
        some (functionKEY, "t", .func { standby := { gpuMem := .mem } })) = true := by
    decide +kernel
  obtain ⟨s, hs, hkv⟩ := (Option.any_eq_true ..).mp hsome
  obtain ⟨o, ho, hfields⟩ := Option.map_eq_some_iff.mp (of_decide_eq_true hkv)
  rw [Prod.mk.injEq, Prod.mk.injEq] at hfields
  obtain ⟨htype, htenant, hobject⟩ := hfields
  have hwithin := (h "t" {} s (Reach.of_exec _ _ (.init Sample.newTenant_settled) hs)).func _ o
    { standby := { gpuMem := .mem } } ho htype htenant (by rw [hobject]; rfl)
  exact absurd (hwithin.1 rfl) (by decide)

end Inferx.StateSvc
