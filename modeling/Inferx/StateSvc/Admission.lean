import Inferx.Error
import Inferx.Objects
import Inferx.Lib.Proc
import Inferx.Metastore.Objects

/-!
# The requests of the state service

The state service creates, updates and deletes the objects that etcd keeps. Each
request is admitted by a check that depends on the type of the object and reads
the managers of tenants, namespaces and functions; then the object is written;
and for a function its status is written after it. A request that fails between
the two writes leaves the first one behind.

The managers are taken as up to date, so they are read off the store. A JSON
value is of an arbitrary type `V`, and a `Codec` tells how it is read and
written. Keys are the ones below the path prefix of the store.
-/

namespace Inferx.StateSvc

open Metastore Proc

/-! ## Objects -/

/-- The limits of a tenant. -/
structure ResourceLimit where
  /-- functions it may have -/
  maxFuncCnt : ℕ := 10
  /-- may its functions keep standby parts in memory? -/
  allocMemStandby : Bool := false
  /-- greatest `minReplica` -/
  minReplicaCap : ℕ := 0
  /-- greatest `maxReplica` -/
  maxReplica : ℕ := 2
  /-- greatest `standbyPerNode` -/
  maxStandby : ℕ := 1
  /-- greatest `queueLen` -/
  maxQueueLen : ℕ := 100
  deriving DecidableEq, Repr

/-- A tenant, as far as the checks read it. -/
structure TenantObject where
  /-- its limits -/
  resourceLimit : ResourceLimit := {}
  deriving DecidableEq, Repr

/-- A function policy, as far as the checks read it. -/
structure FuncPolicySpec where
  /-- pods to keep -/
  minReplica : ℕ := 0
  /-- pods to allow -/
  maxReplica : ℕ := 1
  /-- standby pods on each node -/
  standbyPerNode : ℕ := 1
  /-- requests to queue -/
  queueLen : ℕ := 100
  deriving DecidableEq, Repr

/-- A function policy as it is requested. -/
structure PartialFuncPolicySpec where
  /-- pods to keep -/
  minReplica : Option ℕ := none
  /-- pods to allow -/
  maxReplica : Option ℕ := none
  /-- standby pods on each node -/
  standbyPerNode : Option ℕ := none
  /-- requests to queue -/
  queueLen : Option ℕ := none
  deriving DecidableEq, Repr

/-- A policy given in place or by reference. -/
inductive ObjRef where
  /-- in place -/
  | obj (p : FuncPolicySpec)
  /-- by reference -/
  | link (l : ObjLink)
  deriving DecidableEq, Repr

/-- A function, as far as the checks read it. -/
structure FuncObject where
  /-- its version -/
  version : ℤ := 0
  /-- where its standby parts go -/
  standby : Standby := {}
  /-- its policy -/
  policy : ObjRef := .obj {}
  deriving DecidableEq, Repr

/-- The status of a function. -/
structure FunctionStatusDef where
  /-- the version it is about -/
  version : ℤ
  /-- is the function published? -/
  published : Bool
  /-- does the function still accept work? -/
  state : FuncState := .normal
  /-- failed snapshots so far -/
  snapshotingFailureCnt : ℕ := 0
  /-- failed resumes so far -/
  resumingFailureCnt : ℕ := 0
  deriving DecidableEq, Repr

/-- How JSON values are read and written. -/
structure Codec (V : Type) where
  /-- read a tenant -/
  tenant : V → Option TenantObject
  /-- read a namespace, which has nothing the checks read -/
  nameSpace : V → Option Unit
  /-- read a function -/
  func : V → Option FuncObject
  /-- read a policy -/
  policy : V → Option FuncPolicySpec
  /-- read a policy as it is requested -/
  partialPolicy : V → Option PartialFuncPolicySpec
  /-- write a policy -/
  ofPolicy : FuncPolicySpec → V
  /-- write a status -/
  ofStatus : FunctionStatusDef → V

/-- `Tenant::KEY`. -/
def tenantKEY : String := "tenant"

/-- `Namespace::KEY`. -/
def namespaceKEY : String := "namespace"

/-- `Function::KEY`. -/
def functionKEY : String := "function"

/-- `FunctionStatus::KEY`. -/
def funcstatusKEY : String := "funcstatus"

/-- `FuncPolicy::KEY`. -/
def funcpolicyKEY : String := "funcpolicy"

/-- `SYSTEM_TENANT`. -/
def systemTenant : String := "system"

/-- `SYSTEM_NAMESPACE`. -/
def systemNamespace : String := "system"

/-- `VIRTUAL_ENDPOINTS_NAMESPACE`. -/
def virtualEndpointsNamespace : String := "endpoints"

/-- The types etcd has a cache store for. -/
def etcdObjects : List String :=
  ["node_info", namespaceKEY, functionKEY, funcstatusKEY, tenantKEY, funcpolicyKEY, "scheduler"]

/-- The types whose cache stores are fed by the node agents. -/
def aggregatedObjects : List String := ["node", "pod", "snapshot"]

/-- `PartialFuncPolicySpec::Normalize`. -/
def PartialFuncPolicySpec.normalize (p : PartialFuncPolicySpec) (nameSpace : String) : FuncPolicySpec where
  minReplica := p.minReplica.getD 0
  maxReplica := p.maxReplica.getD 1
  standbyPerNode := p.standbyPerNode.getD (if nameSpace = virtualEndpointsNamespace then 0 else 1)
  queueLen := p.queueLen.getD 100

/-! ## The store -/

variable {V : Type}

/-- `DataObject::StoreKey`. -/
def storeKey (objType key : String) : String := s!"{objType}/{key}"

/-- The key of an object of the given names. -/
def objKey (tenant nameSpace name : String) : String := s!"{tenant}/{nameSpace}/{name}"

/-- `EtcdStore::PrepareKey`: a slash in front is dropped. The keys it refuses have
no slash or nothing else, so no store key is one of them. -/
def prepareKey (key : String) : String :=
  if key.toList.head? = some '/' then String.ofList key.toList.tail else key

/-- etcd: the objects with the revision of their last write, and the last
revision. -/
structure Etcd (V : Type) where
  /-- the objects -/
  kvs : BTreeMap String (DataObject V) := ∅
  /-- the last revision -/
  revision : ℤ := 1

/-- The places where a request panics. -/
inductive SvcPanic where
  /-- a deletion that expects a revision finds no object -/
  | deleteMissing
  deriving DecidableEq, Repr

/-- How an operation of etcd fails. -/
inductive Failure where
  /-- it has not been applied -/
  | refused (e : Error)
  /-- it has been applied, and its answer is lost -/
  | lost (e : Error)
  deriving DecidableEq

/-- What a request takes from outside: how the etcd operations fail, if they do,
whether the wait for a revision ends in time, and what the cache stores hold. -/
structure SvcEnv where
  /-- the failure of the write of the object -/
  storeError : Option Failure := none
  /-- the failure of the operations on the status -/
  statusError : Option Failure := none
  /-- the cache store has reached the revision a deletion names -/
  revReached : Bool := true
  /-- `cacheStore`: the objects in memory, by store key -/
  cached : String → Bool := fun _ => true

/-- A request on etcd. -/
abbrev SvcM (V : Type) : Type → Type := Proc Error SvcPanic (Etcd V)

/-- A computation that may fail. -/
def check {α : Type} (x : Except Error α) : SvcM V α :=
  match x with
  | .ok a => pure a
  | .error e => throw e

/-- An etcd operation fails, or goes on. Where its answer is lost the server has run it, and
nothing that it says reaches the caller. -/
def etcdOp {α : Type} (fails : Option Failure) (x : SvcM V α) : SvcM V α :=
  match fails with
  | none => x
  | some (.refused e) => throw e
  | some (.lost e) => fun s =>
    match x s with
    | .ok _ t => .err e t
    | .err _ t => .err e t
    | .panic _ => .err e s

namespace Etcd

/-- Write an object: it gets the next revision. -/
def put (s : Etcd V) (key : String) (obj : DataObject V) : Etcd V where
  kvs := s.kvs.insert key
    { obj with channelRev := s.revision + 1, revision := s.revision + 1, srcEpoch := 0 }
  revision := s.revision + 1

/-- Delete an object. -/
def del (s : Etcd V) (key : String) : Etcd V where
  kvs := s.kvs.erase key
  revision := s.revision + 1

end Etcd

/-- `EtcdStore::Create`. -/
def storeCreate (fails : Option Failure) (obj : DataObject V) : SvcM V Unit :=
  etcdOp fails do
    let s ← get
    let key := prepareKey (storeKey obj.objType obj.key)
    if s.kvs.contains key then throw (.newKeyExistsErr key 0)
    else modify (·.put key obj)

/-- `EtcdStore::Update`: a revision that is not positive is not compared. -/
def storeUpdate (fails : Option Failure) (expectedRev : ℤ) (obj : DataObject V) : SvcM V Unit :=
  etcdOp fails do
    let s ← get
    let key := prepareKey (storeKey obj.objType obj.key)
    if 0 < expectedRev ∧ s.kvs[key]?.map DataObject.revision ≠ some expectedRev then
      throw (.updateRevNotMatchErr expectedRev s.revision)
    else modify (·.put key obj)

/-- `EtcdStore::Delete`: revision 0 is not compared. -/
def storeDelete (fails : Option Failure) (key : String) (expectedRev : ℤ) : SvcM V Unit :=
  etcdOp fails do
    let s ← get
    let key := prepareKey key
    if expectedRev = 0 ∨ s.kvs[key]?.map DataObject.revision = some expectedRev then
      modify (·.del key)
    else
      match s.kvs[key]? with
      | none => crash .deleteMissing
      | some o => throw (.deleteRevNotMatchErr expectedRev o.revision)

/-! ## The managers -/

namespace Etcd

/-- `DataObjectMgr::Contains` of the manager for a type. -/
def has (s : Etcd V) (objType tenant nameSpace name : String) : Bool :=
  s.kvs[storeKey objType (objKey tenant nameSpace name)]?.any fun o => o.objType == objType

/-- `tenantMgr.Get`. -/
def getTenant (codec : Codec V) (s : Etcd V) (tenant : String) : Except Error TenantObject :=
  match s.kvs[storeKey tenantKEY (objKey systemTenant systemNamespace tenant)]?.filter
      (fun o => o.objType == tenantKEY) |>.bind (fun o => codec.tenant o.object) with
  | none => .error (.notExist s!"DataObjectMgr::get {objKey systemTenant systemNamespace tenant}")
  | some t => .ok t

/-- `funcMgr.GetObjectsByPrefix` for a tenant, as a count: the keys that start
with the tenant are next to each other. -/
def countByPrefix (s : Etcd V) (tenant : String) : ℕ :=
  let start := if tenant.isEmpty then "" else s!"{tenant}/"
  BTreeMap.count (fun _ o => o.objType == functionKEY && start.toList.isPrefixOf o.key.toList) s.kvs

end Etcd

/-! ## The checks -/

/-- `StateSvc::RejectVirtualEndpointsNamespace`. -/
def rejectVirtualEndpointsNamespace (tenant nameSpace : String) : Except Error Unit :=
  if tenant ≠ systemTenant ∧ nameSpace = virtualEndpointsNamespace then
    .error (.commonError (s!"namespace {virtualEndpointsNamespace} is reserved for virtual endpoints; " ++
      "only FuncPolicy objects are allowed there"))
  else .ok ()

/-- `StateSvc::ValidateEndpointsFuncPolicy`. -/
def validateEndpointsFuncPolicy (nameSpace : String) (p : FuncPolicySpec) : Except Error Unit :=
  if nameSpace ≠ virtualEndpointsNamespace then .ok ()
  else if 0 < p.minReplica then
    .error (.commonError ("min_replica is not supported for endpoints FuncPolicy; " ++
      "standby is controlled by the platform function"))
  else if 0 < p.standbyPerNode then
    .error (.commonError ("standby_per_node is not supported for endpoints FuncPolicy; " ++
      "standby is controlled by the platform function"))
  else .ok ()

/-- `StateSvc::ValidateTenantFuncPolicyLimit`. -/
def validateTenantFuncPolicyLimit (limit : ResourceLimit) (p : FuncPolicySpec) : Except Error Unit :=
  if limit.minReplicaCap < p.minReplica then
    .error (.commonError s!"policy minReplica {p.minReplica} exceed limit {limit.minReplicaCap}")
  else if limit.maxReplica < p.maxReplica then
    .error (.commonError s!"policy maxReplica {p.maxReplica} exceed limit {limit.maxReplica}")
  else if limit.maxStandby < p.standbyPerNode then
    .error (.commonError s!"policy standbyPerNode {p.standbyPerNode} exceed limit {limit.maxStandby}")
  else if limit.maxQueueLen < p.queueLen then
    .error (.commonError s!"policy QueueLen {p.queueLen} exceed limit {limit.maxQueueLen}")
  else .ok ()

/-- Is some part of the standby kept in memory? -/
def usesMem (standby : Standby) : Bool :=
  standby.gpuMem == .mem || standby.pageableMem == .mem || standby.pinndMem == .mem

/-- Read a value of an object. -/
def parse {α : Type} (x : Option α) : Except Error α :=
  match x with
  | none => .error (.serdeJsonError "")
  | some a => .ok a

namespace Etcd

variable (codec : Codec V) (s : Etcd V)

/-- `StateSvc::ContainersNamespace`. -/
def containersNamespace (tenant nameSpace : String) : Except Error Unit :=
  if !s.has tenantKEY systemTenant systemNamespace tenant then
    .error (.notExist s!"StateSvc has no tenant {tenant}")
  else if !s.has namespaceKEY tenant systemNamespace nameSpace then
    .error (.notExist s!"StateSvc has no namespace {tenant}/{nameSpace}")
  else .ok ()

/-- `StateSvc::FuncPolicyCheck`. -/
def funcPolicyCheck (tenant : String) (p : FuncPolicySpec) : Except Error Unit := do
  let t ← getTenant codec s tenant
  validateTenantFuncPolicyLimit t.resourceLimit p

/-- The check of a function's policy. -/
def policyRefCheck (tenant : String) : ObjRef → Except Error Unit
  | .link _ => .ok ()
  | .obj p => s.funcPolicyCheck codec tenant p

/-- `StateSvc::CreateTenantCheck`. -/
def createTenantCheck (obj : DataObject V) : Except Error Unit := do
  let _ ← parse (codec.tenant obj.object)
  if obj.tenant ≠ systemTenant ∨ obj.nameSpace ≠ systemNamespace then
    .error (.notExist s!"tenant must be created in tenant {systemTenant}  and namespace {systemNamespace}")
  else if s.has tenantKEY systemTenant systemNamespace obj.name then
    .error (.exist s!"StateSvc has tenant {obj.name}")
  else .ok ()

/-- `StateSvc::CreateNamespaceCheck`. -/
def createNamespaceCheck (obj : DataObject V) : Except Error Unit := do
  let _ ← parse (codec.nameSpace obj.object)
  rejectVirtualEndpointsNamespace obj.tenant obj.name
  if !s.has tenantKEY systemTenant systemNamespace obj.tenant then
    .error (.notExist s!"StateSvc has no tenant {obj.tenant}")
  else if obj.nameSpace ≠ systemNamespace then
    .error (.notExist
      s!"namespace must be created in tenant {obj.tenant}  and namespace {systemNamespace}")
  else if s.has namespaceKEY obj.tenant obj.nameSpace obj.name then
    .error (.exist s!"StateSvc exists namespace {obj.key}")
  else .ok ()

/-- `StateSvc::CreateFuncCheck`. -/
def createFuncCheck (obj : DataObject V) : Except Error Unit := do
  let func ← parse (codec.func obj.object)
  rejectVirtualEndpointsNamespace obj.tenant obj.nameSpace
  s.containersNamespace obj.tenant obj.nameSpace
  let tenant ← getTenant codec s obj.tenant
  let limit := tenant.resourceLimit
  let funccnt := s.countByPrefix obj.tenant
  if s.has functionKEY obj.tenant obj.nameSpace obj.name then
    .error (.exist s!"StateSvc exists func {obj.key}")
  else if limit.maxFuncCnt ≤ funccnt then
    .error (.notExist s!"Func count {funccnt} exceed tenant limit {limit.maxFuncCnt}")
  else if !limit.allocMemStandby && usesMem func.standby then
    .error (.notExist "Standby is not allowed in tenant allocMemStandby==false")
  else s.policyRefCheck codec obj.tenant func.policy

/-- `StateSvc::CreateFuncPolicyCheck`. -/
def createFuncPolicyCheck (obj : DataObject V) : Except Error Unit := do
  let p ← parse (codec.policy obj.object)
  validateEndpointsFuncPolicy obj.nameSpace p
  s.funcPolicyCheck codec obj.tenant p

/-- `StateSvc::CreateObjCheck`. -/
def createObjCheck (obj : DataObject V) : Except Error Unit :=
  if obj.objType = tenantKEY then s.createTenantCheck codec obj
  else if obj.objType = namespaceKEY then s.createNamespaceCheck codec obj
  else if obj.objType = functionKEY then s.createFuncCheck codec obj
  else if obj.objType = funcpolicyKEY then s.createFuncPolicyCheck codec obj
  else .ok ()

/-- `StateSvc::UpdateTenantCheck`. -/
def updateTenantCheck (obj : DataObject V) : Except Error Unit := do
  let _ ← parse (codec.tenant obj.object)
  if obj.tenant ≠ systemTenant ∨ obj.nameSpace ≠ systemNamespace then
    .error (.commonError s!"tenant must be in tenant {systemTenant} and namespace {systemNamespace}")
  else if !s.has tenantKEY systemTenant systemNamespace obj.name then
    .error (.notExist s!"StateSvc doesn't exist tenant {obj.name}")
  else .ok ()

/-- `StateSvc::UpdateFuncCheck`. -/
def updateFuncCheck (obj : DataObject V) : Except Error Unit := do
  let func ← parse (codec.func obj.object)
  rejectVirtualEndpointsNamespace obj.tenant obj.nameSpace
  s.containersNamespace obj.tenant obj.nameSpace
  if !s.has functionKEY obj.tenant obj.nameSpace obj.name then
    .error (.notExist s!"StateSvc doesn't exist func {obj.key}")
  else s.policyRefCheck codec obj.tenant func.policy

/-- The check of an update of a namespace. -/
def updateNamespaceCheck (obj : DataObject V) : Except Error Unit := do
  let _ ← parse (codec.nameSpace obj.object)
  rejectVirtualEndpointsNamespace obj.tenant obj.name

/-- `StateSvc::UpdateObjCheck`. -/
def updateObjCheck (obj : DataObject V) : Except Error Unit :=
  if obj.objType = namespaceKEY then updateNamespaceCheck codec obj
  else if obj.objType = tenantKEY then s.updateTenantCheck codec obj
  else if obj.objType = funcstatusKEY then .ok ()
  else if obj.objType = functionKEY then s.updateFuncCheck codec obj
  else if obj.objType = funcpolicyKEY then s.createFuncPolicyCheck codec obj
  else .error (.commonError s!"{obj.objType} is not allowed update")

/-- `StateSvc::DeleteFuncCheck`. -/
def deleteFuncCheck (tenant nameSpace name : String) : Except Error Unit := do
  s.containersNamespace tenant nameSpace
  if !s.has functionKEY tenant nameSpace name then
    .error (.notExist s!"StateSvc doesn't exist func {tenant}/{nameSpace}/{name}")
  else .ok ()

/-- `StateSvc::DeleteObjCheck`, which no request runs. -/
def deleteObjCheck (objType tenant nameSpace name : String) : Except Error Unit :=
  if objType = functionKEY then s.deleteFuncCheck tenant nameSpace name
  else if objType = funcpolicyKEY then .ok ()
  else .error (.commonError s!"{objType} is not allowed delete")

end Etcd

/-! ## The status of a function -/

/-- `StateSvc::DefaultFunctionPublished`: functions of the platform's shared
namespace start unpublished. -/
def defaultFunctionPublished (tenant nameSpace : String) : Bool :=
  !(tenant == "inferx" && nameSpace == "endpoint")

/-- The status a function starts with. -/
def initialStatus (codec : Codec V) (obj : DataObject V) (func : FuncObject) : DataObject V where
  objType := funcstatusKEY
  tenant := obj.tenant
  nameSpace := obj.nameSpace
  name := obj.name
  object := codec.ofStatus
    { version := func.version, published := defaultFunctionPublished obj.tenant obj.nameSpace }

/-- `StateSvc::CreateFuncStatus`. -/
def createFuncStatus (codec : Codec V) (fails : Option Failure) (obj : DataObject V) : SvcM V Unit := do
  if obj.objType = functionKEY then
    let func ← check (parse (codec.func obj.object))
    storeCreate fails (initialStatus codec obj func)
  else return ()

/-- The attempts of `StateSvc::UpdateFuncStatus` that are left: a conflict is tried
again. -/
def updateFuncStatusLoop (fails : Option Failure) (status : DataObject V) : ℕ → SvcM V Unit
  | 0 => return ()
  | n + 1 => do
    let s ← get
    let expectedRev := (s.kvs[prepareKey (storeKey status.objType status.key)]?.map DataObject.revision).getD 0
    match ← attempt (storeUpdate fails expectedRev status) with
    | .ok () => return ()
    | .error (.updateRevNotMatchErr e a) =>
      if n = 0 then throw (.updateRevNotMatchErr e a) else updateFuncStatusLoop fails status n
    | .error e => throw e

/-- `StateSvc::UpdateFuncStatus`. -/
def updateFuncStatus (codec : Codec V) (fails : Option Failure) (obj : DataObject V) : SvcM V Unit := do
  if obj.objType = functionKEY then
    let func ← check (parse (codec.func obj.object))
    updateFuncStatusLoop fails (initialStatus codec obj func) 3
  else return ()

/-- `StateSvc::DeleteFuncStatus`. -/
def deleteFuncStatus (fails : Option Failure) (objType tenant nameSpace name : String) : SvcM V Unit :=
  if objType = functionKEY then
    storeDelete fails (storeKey funcstatusKEY (objKey tenant nameSpace name)) 0
  else return ()

/-! ## The requests -/

/-- `NormalizeFuncPolicyDataObject`, for policies. -/
def normalizeFuncPolicy (codec : Codec V) (obj : DataObject V) : Except Error (DataObject V) :=
  if obj.objType = funcpolicyKEY then do
    let p ← parse (codec.partialPolicy obj.object)
    return { obj with object := codec.ofPolicy (p.normalize obj.nameSpace) }
  else .ok obj

/-- `StateSvc::create`. -/
def create (codec : Codec V) (env : SvcEnv) (obj : DataObject V) : SvcM V Unit := do
  let obj ← check (normalizeFuncPolicy codec obj)
  let s ← get
  check (s.createObjCheck codec obj)
  storeCreate env.storeError obj
  createFuncStatus codec env.statusError obj

/-- `StateSvc::update`. -/
def update (codec : Codec V) (env : SvcEnv) (expectRev : ℤ) (obj : DataObject V) : SvcM V Unit := do
  let obj ← check (normalizeFuncPolicy codec obj)
  let s ← get
  check (s.updateObjCheck codec obj)
  storeUpdate env.storeError expectRev obj
  updateFuncStatus codec env.statusError obj

/-- `CacheStore::Get` as a deletion uses it: revision -1 reads etcd, which the stores fed by
node agents do not have, and any other is waited for and looked up in memory. -/
def cacherGet (env : SvcEnv) (s : Etcd V) (objType tenant nameSpace name : String) (revision : ℤ) :
    Except Error Bool :=
  let key := storeKey objType (objKey tenant nameSpace name)
  if revision = -1 then .ok (decide (objType ∉ aggregatedObjects) && s.kvs.contains (prepareKey key))
  else if env.revReached then .ok (env.cached key)
  else .error (.timeout 3000)

/-- `StateSvc::delete`. -/
def delete (env : SvcEnv) (objType tenant nameSpace name : String) (expectRev : ℤ) : SvcM V Unit := do
  if objType ∈ etcdObjects ∨ objType ∈ aggregatedObjects then
    let s ← get
    let key := storeKey objType (objKey tenant nameSpace name)
    if ← check (cacherGet env s objType tenant nameSpace name expectRev) then
      storeDelete env.storeError key expectRev
      deleteFuncStatus env.statusError objType tenant nameSpace name
    else throw (.commonError s!"delete object {key} Fail not exist")
  else throw (.commonError s!"statesvc doesn't support obj type {objType}")

/-- A request. -/
inductive Request (V : Type) where
  /-- create an object -/
  | create (obj : DataObject V)
  /-- update an object, at a revision -/
  | update (expectRev : ℤ) (obj : DataObject V)
  /-- delete an object, at a revision -/
  | delete (objType tenant nameSpace name : String) (expectRev : ℤ)

/-- Run a request. -/
def Request.run (codec : Codec V) (env : SvcEnv) : Request V → SvcM V Unit
  | .create obj => StateSvc.create codec env obj
  | .update expectRev obj => StateSvc.update codec env expectRev obj
  | .delete objType tenant nameSpace name expectRev =>
    StateSvc.delete env objType tenant nameSpace name expectRev

/-- The store after a request, whether it was answered with an error or not. -/
def Etcd.next (codec : Codec V) (s : Etcd V) (c : SvcEnv × Request V) : Option (Etcd V) :=
  (c.2.run codec c.1 s).state?

end Inferx.StateSvc
