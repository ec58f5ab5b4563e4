import Mathlib.Tactic.Common
import Inferx.Lib.Runs
import Inferx.Gateway.Auth

/-!
# Limits and quota of a tenant

The limits of a tenant and whether its quota is exceeded are fields of its object in
the state service. The object is written as a whole: by `CreateObj` and `UpdateObj`, and
by the requests that set the quota, which read it, change the one field, and write it
back. A read may return an older version; of the writes only that of
`SetTenantQuotaExceeded` expects the revision that was read.

`granted` and `quotaFrom` keep the account of who may say what. Labels and annotations
of the object are left out, and so are the requests that are refused or fail.
-/

namespace Inferx.Gateway.TenantControl

/-! ## Objects -/

/-- `ResourceLimit`, with the values of `default_resourcelimit`. -/
structure ResourceLimit where
  maxFuncCnt : ℕ := 6
  allocMemStandby : Bool := false
  minReplicaCap : ℕ := 0
  maxGpu : ℕ := 2
  maxReplica : ℕ := 2
  maxStandby : ℕ := 1
  maxQueueLen : ℕ := 100
  deriving DecidableEq

structure TenantSpec where
  resourceLimit : ResourceLimit := {}
  quotaExempt : Bool := false
  deriving DecidableEq

structure TenantStatus where
  disable : Bool := false
  quotaExceeded : Bool := false
  deriving DecidableEq

structure TenantObject where
  spec : TenantSpec := {}
  status : TenantStatus := {}
  deriving DecidableEq

/-- A version of a tenant in the state service. -/
structure Tenant where
  object : TenantObject
  revision : ℤ
  deriving DecidableEq

/-- A tenant as a request has it. -/
structure TenantData where
  tenant : String := "system"
  nameSpace : String := "system"
  name : String
  object : TenantObject

/-- Set the one field. -/
def TenantObject.withQuota (object : TenantObject) (quotaExceeded : Bool) : TenantObject :=
  { object with status := { object.status with quotaExceeded } }

/-! ## Requests under way -/

/-- The next step of a request that writes back what it has read. -/
inductive Pending where
  /-- `SetTenantQuotaExceeded` is about to read -/
  | setQuota (name : String) (quotaExceeded : Bool)
  /-- and about to write -/
  | setQuotaWrite (name : String) (quotaExceeded : Bool) (read : Tenant)
  /-- `AddTenantCredits` or `EnsureOnboardInitialCredit` has the quota from the ledger and is
  about to read -/
  | credit (name : String) (quotaExceeded : Bool)
  /-- and about to write -/
  | creditWrite (name : String) (quotaExceeded : Bool) (read : Tenant)

/-- The tenants of the state service, and the requests under way. -/
structure ControlState where
  tenants : BTreeMap String Tenant := ∅
  revision : ℤ := 1
  /-- the versions that a tenant has had, the last first -/
  past : String → List Tenant := fun _ => []
  pending : List Pending := []
  /-- the limits of the last write by an InferX admin, or those it was created with -/
  granted : String → TenantSpec := fun _ => {}
  /-- the last value that an InferX admin has written or the ledger has given -/
  quotaFrom : String → Bool := fun _ => false

/-- What can happen next. -/
inductive ControlInput where
  | createObj (token : AccessToken) (obj : TenantData)
  | updateObj (token : AccessToken) (obj : TenantData)
  | setTenantQuotaExceeded (token : AccessToken) (name : String) (quotaExceeded : Bool)
  /-- the credit has been added and the ledger has given the quota -/
  | addTenantCredits (token : AccessToken) (name : String) (quotaExceeded : Bool)
  /-- `CreateOnboardTenant`, whose `Get` has found nothing -/
  | onboardTenant (name : String)
  /-- `EnsureOnboardInitialCredit`, likewise with the quota that the ledger has given -/
  | onboardCredit (name : String) (quotaExceeded : Bool)
  /-- the next step of the `i`-th request; a read may be some versions behind -/
  | run (i lag : ℕ)
  /-- the `i`-th request fails -/
  | fail (i : ℕ)

namespace ControlState

variable (s : ControlState)

/-- The state service stores a version. -/
def put (name : String) (object : TenantObject) : ControlState :=
  { s with
    tenants := s.tenants.insert name ⟨object, s.revision + 1⟩
    revision := s.revision + 1
    past := fun n => if n = name then ⟨object, s.revision + 1⟩ :: s.past n else s.past n }

/-- Keep account of limits. -/
def grant (name : String) (spec : TenantSpec) : ControlState :=
  { s with granted := fun n => if n = name then spec else s.granted n }

/-- Keep account of a quota. -/
def account (name : String) (quotaExceeded : Bool) : ControlState :=
  { s with quotaFrom := fun n => if n = name then quotaExceeded else s.quotaFrom n }

/-- `client.Create`: there must be no such tenant. -/
def create (name : String) (object : TenantObject) : Option ControlState :=
  if (s.tenants[name]?).isSome then none
  else some (((s.put name object).grant name object.spec).account name object.status.quotaExceeded)

/-- `client.Update`: there must be one, and its revision is compared if one is given. -/
def update (name : String) (object : TenantObject) (expectRev : ℤ) : Option ControlState :=
  match s.tenants[name]? with
  | none => none
  | some t => if 0 < expectRev ∧ t.revision ≠ expectRev then none else some (s.put name object)

/-- `CreateTenant` -/
def createTenant (token : AccessToken) (obj : TenantData) : Option ControlState :=
  if token.isInferxAdmin && obj.tenant == "system" && obj.nameSpace == "system" then s.create obj.name obj.object
  else none

/-- `UpdateTenant`. What an InferX admin writes is what counts. -/
def updateTenant (token : AccessToken) (obj : TenantData) : Option ControlState :=
  if obj.tenant == "system" && obj.nameSpace == "system" && token.isTenantAdmin obj.name then
    (s.update obj.name obj.object 0).map fun s =>
      if token.isInferxAdmin then (s.grant obj.name obj.object.spec).account obj.name obj.object.status.quotaExceeded
      else s
  else none

/-- One step of a request: the state after it, and how it goes on. -/
def step (lag : ℕ) : Pending → Option (ControlState × Option Pending)
  | .setQuota name quotaExceeded => do
    let t ← (s.past name)[lag]?
    if t.object.status.quotaExceeded = quotaExceeded ∨ t.revision ≤ 0 then return (s, none)
    else return (s, some (.setQuotaWrite name quotaExceeded t))
  | .setQuotaWrite name quotaExceeded t => do
    let s' ← s.update name (t.object.withQuota quotaExceeded) t.revision
    return (s'.account name quotaExceeded, none)
  | .credit name quotaExceeded => do
    let t ← (s.past name)[lag]?
    if t.object.status.quotaExceeded = quotaExceeded then return (s, none)
    else return (s, some (.creditWrite name quotaExceeded t))
  | .creditWrite name quotaExceeded t => do
    let s' ← s.update name (t.object.withQuota quotaExceeded) 0
    return (s'.account name quotaExceeded, none)

def next : ControlInput → Option ControlState
  | .createObj token obj => s.createTenant token obj
  | .updateObj token obj => s.updateTenant token obj
  | .setTenantQuotaExceeded token name quotaExceeded =>
    if token.isInferxAdmin then some { s with pending := .setQuota name quotaExceeded :: s.pending } else none
  | .addTenantCredits token name quotaExceeded =>
    if token.isInferxAdmin then some { s with pending := .credit name quotaExceeded :: s.pending } else none
  | .onboardTenant name => s.create name {}
  | .onboardCredit name quotaExceeded => some { s with pending := .credit name quotaExceeded :: s.pending }
  | .run i lag => do
    let p ← s.pending[i]?
    let (s', more) ← s.step lag p
    return { s' with pending := more.toList ++ s.pending.eraseIdx i }
  | .fail i => some { s with pending := s.pending.eraseIdx i }

/-- A state service without tenants. -/
def Started : Prop := s = {}

/-- **Limits and quota are the operator's.** -/
structure Controlled : Prop where
  spec : ∀ (name : String) t, s.tenants[name]? = some t → t.object.spec = s.granted name
  quota : ∀ (name : String) t, s.tenants[name]? = some t → t.object.status.quotaExceeded = s.quotaFrom name

/-- Does the next step of a request write back the limits that are stored? -/
def KeepsLimits : Pending → Prop
  | .creditWrite name _ read => ∀ t ∈ s.tenants[name]?, read.object.spec = t.object.spec
  | .setQuota _ _ | .setQuotaWrite _ _ _ | .credit _ _ => True

/-- The steps that leave the fields alone: an update by another than an InferX admin
carries the limits and the quota that are stored; and a credit writes back the limits
that are stored still. -/
def Orderly : ControlInput → Prop
  | .updateObj token obj => token.isInferxAdmin = false → ∀ t ∈ s.tenants[obj.name]?,
      obj.object.spec = t.object.spec ∧ obj.object.status.quotaExceeded = t.object.status.quotaExceeded
  | .run i _ => ∀ p ∈ s.pending[i]?, s.KeepsLimits p
  | _ => True

variable {s} {s' : ControlState} {name : String} {object : TenantObject}

/-! ## Versions -/

/-- A revision is of one version, and what is about to be written back is one. -/
structure Versions (s : ControlState) : Prop where
  bound : ∀ n, ∀ p ∈ s.past n, p.revision ≤ s.revision
  last : ∀ (n : String) t, s.tenants[n]? = some t → ∀ p ∈ s.past n, p.revision = t.revision → p = t
  read : ∀ n b r, .setQuotaWrite n b r ∈ s.pending → r ∈ s.past n ∧ 0 < r.revision

theorem Versions.put (h : Versions s) (name : String) (object : TenantObject) : Versions (s.put name object) := by
  have hpast : ∀ n p, p ∈ (s.put name object).past n →
      (n = name ∧ p = ⟨object, s.revision + 1⟩) ∨ p ∈ s.past n := by
    intro n p hp
    simp only [ControlState.put] at hp
    split at hp
    next hn => exact (List.mem_cons.mp hp).imp (fun h => ⟨hn, h⟩) id
    next => exact .inr hp
  refine ⟨fun n p hp => ?_, fun n t ht p hp hrev => ?_, fun n b r hr => ?_⟩
  · rcases hpast n p hp with ⟨-, rfl⟩ | hp
    · exact le_refl _
    · exact (h.bound n p hp).trans (Int.le_add_one (le_refl _))
  · simp only [ControlState.put, BTreeMap.get_insert] at ht
    split at ht
    next =>
      -- no older version has the new revision
      obtain rfl := Option.some.inj ht
      rcases hpast n p hp with ⟨-, rfl⟩ | hp
      · rfl
      · have hle := h.bound n p hp
        dsimp only at hrev
        omega
    next hn =>
      rcases hpast n p hp with ⟨heq, -⟩ | hp
      · exact absurd heq hn
      · exact h.last n t ht p hp hrev
  · obtain ⟨hmem, hpos⟩ := h.read n b r hr
    refine ⟨?_, hpos⟩
    simp only [ControlState.put]
    split
    next => exact List.mem_cons_of_mem _ hmem
    next => exact hmem

/-- Requests under way that are not about to write. -/
theorem Versions.requests (h : Versions s) {pending : List Pending}
    (hread : ∀ n b r, .setQuotaWrite n b r ∈ pending → .setQuotaWrite n b r ∈ s.pending ∨ (r ∈ s.past n ∧ 0 < r.revision)) :
    Versions { s with pending } :=
  ⟨h.bound, h.last, fun n b r hr => (hread n b r hr).elim (h.read n b r) id⟩

/-! ## Writes -/

/-- What a write has to be like. -/
theorem controlled_put_iff (h : s.Controlled) {r : ℤ} (htenants : s'.tenants = s.tenants.insert name ⟨object, r⟩)
    (hgranted : ∀ n, n ≠ name → s'.granted n = s.granted n) (hquota : ∀ n, n ≠ name → s'.quotaFrom n = s.quotaFrom n) :
    s'.Controlled ↔ object.spec = s'.granted name ∧ object.status.quotaExceeded = s'.quotaFrom name := by
  constructor
  · intro hc
    have hget : s'.tenants[name]? = some ⟨object, r⟩ := by rw [htenants, BTreeMap.get_insert_self]
    exact ⟨hc.spec name _ hget, hc.quota name _ hget⟩
  · rintro ⟨hspec, hq⟩
    have hget : ∀ (n : String) t, s'.tenants[n]? = some t →
        (n = name ∧ t = ⟨object, r⟩) ∨ (n ≠ name ∧ s.tenants[n]? = some t) := by
      intro n t ht
      rw [htenants, BTreeMap.get_insert] at ht
      split at ht
      next hn => exact .inl ⟨hn, (Option.some.inj ht).symm⟩
      next hn => exact .inr ⟨hn, ht⟩
    refine ⟨fun n t ht => ?_, fun n t ht => ?_⟩
    · rcases hget n t ht with ⟨rfl, rfl⟩ | ⟨hn, ht⟩
      · exact hspec
      · rw [hgranted n hn]
        exact h.spec n t ht
    · rcases hget n t ht with ⟨rfl, rfl⟩ | ⟨hn, ht⟩
      · exact hq
      · rw [hquota n hn]
        exact h.quota n t ht

/-- A write with a quota that counts. -/
theorem controlled_account_iff (h : s.Controlled) (quotaExceeded : Bool) :
    ((s.put name object).account name quotaExceeded).Controlled ↔
      object.spec = s.granted name ∧ object.status.quotaExceeded = quotaExceeded := by
  have hiff : ((s.put name object).account name quotaExceeded).Controlled ↔ _ :=
    controlled_put_iff h (rfl : ((s.put name object).account name quotaExceeded).tenants = _) (fun _ _ => rfl)
      fun n hn => if_neg hn
  rw [hiff]
  simp only [account, ControlState.put, if_true]

/-- An update that succeeds finds the tenant, with the revision that it expects. -/
theorem update_eq_some {expectRev : ℤ} (h : s.update name object expectRev = some s') :
    ∃ t, s.tenants[name]? = some t ∧ (0 < expectRev → t.revision = expectRev) ∧ s' = s.put name object := by
  unfold update at h
  split at h
  next => cases h
  next t ht =>
    split at h
    next => cases h
    next hrev =>
      refine ⟨t, ht, fun hpos => ?_, (Option.some.inj h).symm⟩
      by_contra hne
      exact hrev ⟨hpos, hne⟩

/-- What holds in every state. -/
structure Inv (s : ControlState) : Prop where
  controlled : s.Controlled
  versions : Versions s

theorem Inv.started (h : s.Started) : Inv s := by
  obtain rfl := h
  refine ⟨⟨?_, ?_⟩, ⟨?_, ?_, ?_⟩⟩
  · simp
  · simp
  · simp
  · simp
  · simp

/-- **A tenant is created** with limits of its own. -/
theorem create_spec (h : Inv s) (hnext : s.create name object = some s') : s'.Controlled ∧ Versions s' := by
  unfold create at hnext
  split at hnext
  next => cases hnext
  next =>
    obtain rfl := Option.some.inj hnext
    refine ⟨(controlled_put_iff h.controlled rfl (fun n hn => if_neg hn) fun n hn => if_neg hn).mpr ⟨?_, ?_⟩, ?_⟩
    · exact (if_pos rfl).symm
    · exact (if_pos rfl).symm
    · exact ⟨(h.versions.put name object).bound, (h.versions.put name object).last, (h.versions.put name object).read⟩

/-- **A tenant is updated** by a request. -/
theorem updateTenant_spec (h : Inv s) {token : AccessToken} {obj : TenantData}
    (hnext : s.updateTenant token obj = some s') :
    (s'.Controlled ↔ s.Orderly (.updateObj token obj)) ∧ Versions s' := by
  unfold updateTenant at hnext
  split at hnext
  next =>
    obtain ⟨s₁, hs₁, rfl⟩ := Option.map_eq_some_iff.mp hnext
    obtain ⟨t, ht, -, rfl⟩ := update_eq_some hs₁
    have hput := h.versions.put obj.name obj.object
    by_cases hadmin : token.isInferxAdmin = true
    · rw [if_pos hadmin]
      refine ⟨⟨fun _ hnot => absurd (hadmin.symm.trans hnot) (by decide), fun _ => ?_⟩, hput.bound, hput.last, hput.read⟩
      refine (controlled_put_iff h.controlled rfl (fun n hn => if_neg hn) fun n hn => if_neg hn).mpr ⟨?_, ?_⟩
      · exact (if_pos rfl).symm
      · exact (if_pos rfl).symm
    · rw [if_neg hadmin]
      have hiff : (s.put obj.name obj.object).Controlled ↔ _ :=
        controlled_put_iff h.controlled (rfl : (s.put obj.name obj.object).tenants = _) (fun _ _ => rfl) fun _ _ => rfl
      refine ⟨hiff.trans ?_, hput⟩
      have hspec : s.granted obj.name = t.object.spec := (h.controlled.spec obj.name t ht).symm
      have hquota : s.quotaFrom obj.name = t.object.status.quotaExceeded := (h.controlled.quota obj.name t ht).symm
      simp only [ControlState.put, hspec, hquota, Orderly, ht, Bool.not_eq_true] at hadmin ⊢
      simp [hadmin]
  next => cases hnext

/-- What is known of the way a request goes on. -/
def Fresh (s : ControlState) : Option Pending → Prop
  | some (.setQuotaWrite n _ r) => r ∈ s.past n ∧ 0 < r.revision
  | _ => True

/-- **A request goes on.** -/
theorem step_spec (h : Inv s) {lag : ℕ} {p : Pending} {more : Option Pending} (hp : p ∈ s.pending)
    (hstep : s.step lag p = some (s', more)) :
    (s'.Controlled ↔ s.KeepsLimits p) ∧ Versions s' ∧ Fresh s' more ∧ s'.pending = s.pending := by
  cases p with
  | setQuota name quotaExceeded =>
    obtain ⟨t, ht, hstep⟩ := Option.bind_eq_some_iff.mp hstep
    split at hstep
    next =>
      obtain ⟨rfl, rfl⟩ := Prod.ext_iff.mp (Option.some.inj hstep)
      exact ⟨⟨fun _ => trivial, fun _ => h.controlled⟩, h.versions, trivial, rfl⟩
    next hnot =>
      obtain ⟨rfl, rfl⟩ := Prod.ext_iff.mp (Option.some.inj hstep)
      rw [not_or, not_le] at hnot
      exact ⟨⟨fun _ => trivial, fun _ => h.controlled⟩, h.versions, ⟨List.mem_of_getElem? ht, hnot.2⟩, rfl⟩
  | setQuotaWrite name quotaExceeded r =>
    obtain ⟨s₁, hs₁, hstep⟩ := Option.bind_eq_some_iff.mp hstep
    obtain ⟨rfl, rfl⟩ := Prod.ext_iff.mp (Option.some.inj hstep)
    obtain ⟨t, ht, hrev, rfl⟩ := update_eq_some hs₁
    -- the revision is that of the version that was read, so nothing has changed since
    obtain ⟨hmem, hpos⟩ := h.versions.read name quotaExceeded r hp
    obtain rfl := h.versions.last name t ht r hmem (hrev hpos).symm
    have hput := h.versions.put name (r.object.withQuota quotaExceeded)
    refine ⟨⟨fun _ => trivial, fun _ => ?_⟩, ⟨hput.bound, hput.last, hput.read⟩, trivial, rfl⟩
    exact (controlled_account_iff h.controlled quotaExceeded).mpr ⟨h.controlled.spec name r ht, rfl⟩
  | credit name quotaExceeded =>
    obtain ⟨t, ht, hstep⟩ := Option.bind_eq_some_iff.mp hstep
    split at hstep
    next =>
      obtain ⟨rfl, rfl⟩ := Prod.ext_iff.mp (Option.some.inj hstep)
      exact ⟨⟨fun _ => trivial, fun _ => h.controlled⟩, h.versions, trivial, rfl⟩
    next =>
      obtain ⟨rfl, rfl⟩ := Prod.ext_iff.mp (Option.some.inj hstep)
      exact ⟨⟨fun _ => trivial, fun _ => h.controlled⟩, h.versions, trivial, rfl⟩
  | creditWrite name quotaExceeded r =>
    obtain ⟨s₁, hs₁, hstep⟩ := Option.bind_eq_some_iff.mp hstep
    obtain ⟨rfl, rfl⟩ := Prod.ext_iff.mp (Option.some.inj hstep)
    obtain ⟨t, ht, -, rfl⟩ := update_eq_some hs₁
    have hput := h.versions.put name (r.object.withQuota quotaExceeded)
    refine ⟨?_, ⟨hput.bound, hput.last, hput.read⟩, trivial, rfl⟩
    have hspec : s.granted name = t.object.spec := (h.controlled.spec name t ht).symm
    refine (controlled_account_iff h.controlled quotaExceeded).trans ⟨fun hboth t' ht' => ?_, fun hall => ⟨?_, rfl⟩⟩
    · obtain rfl := Option.some.inj (ht.symm.trans ht')
      exact hboth.1.trans hspec
    · exact (hall t ht).trans hspec.symm

/-- **One step**: the fields stay the operator's exactly if it leaves them alone. -/
theorem Inv.next_iff (h : Inv s) {i : ControlInput} (hnext : s.next i = some s') :
    (s'.Controlled ↔ s.Orderly i) ∧ Versions s' := by
  -- a request begins
  have hbegin : ∀ p, (∀ n b r, p ≠ Pending.setQuotaWrite n b r) →
      ({ s with pending := p :: s.pending } : ControlState).Controlled ∧ Versions { s with pending := p :: s.pending } := by
    refine fun p hp => ⟨⟨h.controlled.spec, h.controlled.quota⟩, h.versions.requests fun n b r hr => ?_⟩
    exact .inl ((List.mem_cons.mp hr).resolve_left fun heq => hp n b r heq.symm)
  cases i with
  | createObj token obj =>
    simp only [ControlState.next, createTenant] at hnext
    split at hnext
    next =>
      obtain ⟨hc, hv⟩ := create_spec h hnext
      exact ⟨⟨fun _ => trivial, fun _ => hc⟩, hv⟩
    next => cases hnext
  | updateObj token obj => exact updateTenant_spec h hnext
  | setTenantQuotaExceeded token name quotaExceeded =>
    simp only [ControlState.next] at hnext
    split at hnext
    next =>
      obtain rfl := Option.some.inj hnext
      obtain ⟨hc, hv⟩ := hbegin (.setQuota name quotaExceeded) (by simp)
      exact ⟨⟨fun _ => trivial, fun _ => hc⟩, hv⟩
    next => cases hnext
  | addTenantCredits token name quotaExceeded =>
    simp only [ControlState.next] at hnext
    split at hnext
    next =>
      obtain rfl := Option.some.inj hnext
      obtain ⟨hc, hv⟩ := hbegin (.credit name quotaExceeded) (by simp)
      exact ⟨⟨fun _ => trivial, fun _ => hc⟩, hv⟩
    next => cases hnext
  | onboardTenant name =>
    obtain ⟨hc, hv⟩ := create_spec h hnext
    exact ⟨⟨fun _ => trivial, fun _ => hc⟩, hv⟩
  | onboardCredit name quotaExceeded =>
    obtain rfl := Option.some.inj hnext
    obtain ⟨hc, hv⟩ := hbegin (.credit name quotaExceeded) (by simp)
    exact ⟨⟨fun _ => trivial, fun _ => hc⟩, hv⟩
  | run i lag =>
    obtain ⟨p, hp, hnext⟩ := Option.bind_eq_some_iff.mp hnext
    obtain ⟨⟨s₁, more⟩, hstep, hnext⟩ := Option.bind_eq_some_iff.mp hnext
    obtain rfl := Option.some.inj hnext
    obtain ⟨hc, hv, hfresh, hpending⟩ := step_spec h (List.mem_of_getElem? hp) hstep
    have horderly : s.Orderly (.run i lag) ↔ _ :=
      ⟨fun h => h p hp, fun h p' hp' => Option.some.inj (hp.symm.trans hp') ▸ h⟩
    refine ⟨Iff.trans ⟨fun hc' => ⟨hc'.spec, hc'.quota⟩, fun hc' => ⟨hc'.spec, hc'.quota⟩⟩ (hc.trans horderly.symm), ?_⟩
    refine hv.requests fun n b r hr => ?_
    rcases List.mem_append.mp hr with hr | hr
    · rw [Option.mem_toList.mp hr] at hfresh
      exact .inr hfresh
    · rw [hpending]
      exact .inl (List.mem_of_mem_eraseIdx hr)
  | fail i =>
    obtain rfl := Option.some.inj hnext
    exact ⟨⟨fun _ => trivial, fun _ => ⟨h.controlled.spec, h.controlled.quota⟩⟩,
      h.versions.requests fun n b r hr => .inl (List.mem_of_mem_eraseIdx hr)⟩

/-- **Limits and quota are the operator's** in every run whose steps leave them alone; and
the next step keeps them so exactly if it does. -/
theorem controlled_iff_orderly (h : Reach ControlState.next Started Orderly s) :
    s.Controlled ∧ ∀ i s', s.next i = some s' → (s'.Controlled ↔ s.Orderly i) := by
  have hinv : Inv s := h.invariant (fun _ => Inv.started) fun _ _ _ hinv hok hnext =>
    ⟨(hinv.next_iff hnext).1.mpr hok, (hinv.next_iff hnext).2⟩
  exact ⟨hinv.controlled, fun _ _ hnext => (hinv.next_iff hnext).1⟩

/-! ## Two runs -/

instance : ∀ p, Decidable (s.KeepsLimits p)
  | .creditWrite _ _ _ => inferInstanceAs (Decidable (∀ _ ∈ _, _))
  | .setQuota _ _ | .setQuotaWrite _ _ _ | .credit _ _ => .isTrue trivial

instance : ∀ i, Decidable (s.Orderly i)
  | .updateObj _ _ => inferInstanceAs (Decidable (_ → ∀ _ ∈ _, _ ∧ _))
  | .run _ _ => inferInstanceAs (Decidable (∀ _ ∈ _, s.KeepsLimits _))
  | .createObj _ _ | .setTenantQuotaExceeded _ _ _ | .addTenantCredits _ _ _ | .onboardTenant _
  | .onboardCredit _ _ | .fail _ => .isTrue trivial

/-- A token of the operator. -/
def operator : AccessToken := { username := "inferx_admin", roles := ∅ }

/-- A token of the admin of the tenant `acme`. -/
def acmeAdmin : AccessToken := .new "ann" ["/tenant/admin/acme"] [] 0

/-- The operator raises the limits of a tenant, and sets its quota; and a credit lifts it. -/
def operated : List ControlInput :=
  [.onboardTenant "acme",
    .updateObj operator { name := "acme", object := { spec := { resourceLimit := { maxGpu := 8 } } } },
    .setTenantQuotaExceeded operator "acme" true, .run 0 0, .run 0 0,
    .addTenantCredits operator "acme" false, .run 0 0, .run 0 0]

theorem controlled_operated : ∃ s : ControlState, s.Controlled ∧ s.quotaFrom "acme" = false ∧
    (s.granted "acme").resourceLimit.maxGpu = 8 := by
  have hrun : ((exec ControlState.next Orderly {} operated).map fun s =>
      (s.quotaFrom "acme", (s.granted "acme").resourceLimit.maxGpu)) = some (false, 8) := by decide +kernel
  obtain ⟨s, hs, heq⟩ := Option.map_eq_some_iff.mp hrun
  exact ⟨s, (controlled_iff_orderly (Reach.of_exec _ _ (.init rfl) hs)).1, congrArg Prod.fst heq, congrArg Prod.snd heq⟩

/-- The admin of a tenant exempts it from its quota. -/
theorem tenant_admin_exempts : ∃ s : ControlState,
    Reach ControlState.next Started (fun _ _ => True) s ∧ ¬ s.Controlled := by
  have hrun : ((exec ControlState.next (fun _ _ => True) {} [.onboardTenant "acme",
      .updateObj acmeAdmin { name := "acme", object := { spec := { quotaExempt := true } } }]).map fun s =>
        (s.tenants["acme"]?.map fun t => t.object.spec.quotaExempt, (s.granted "acme").quotaExempt)) =
      some (some true, false) := by decide +kernel
  obtain ⟨s, hs, heq⟩ := Option.map_eq_some_iff.mp hrun
  obtain ⟨hstored, hgranted⟩ := Prod.ext_iff.mp heq
  obtain ⟨t, ht, hexempt⟩ := Option.map_eq_some_iff.mp hstored
  refine ⟨s, Reach.of_exec _ _ (.init rfl) hs, fun h => ?_⟩
  have hspec := congrArg TenantSpec.quotaExempt (h.spec "acme" t ht)
  exact absurd (hexempt.symm.trans (hspec.trans hgranted)) (by decide)

end ControlState

end Inferx.Gateway.TenantControl
