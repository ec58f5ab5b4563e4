import Inferx.Resource

/-!
# The objects the scheduler watches

Pods, functions, nodes, snapshots, policies and tenants, with the fields the
scheduler reads, and the requests of the gateways. Names are strings as in the
source; a function is known by `tenant/namespace/name/version` and a pod by its
function's key followed by its id. Addresses of a node are taken as parsed.
-/

namespace Inferx

/-! ## Policies -/

/-- The scheduling part of a function policy. -/
structure FuncPolicySpec where
  /-- pods to keep on the plain NVIDIA runtime -/
  nvidiaReplica : ℕ := 0
  /-- resumed pods to keep -/
  minReplica : ℕ := 0
  /-- resumed pods to allow -/
  maxReplica : ℕ := 1
  /-- standby pods on each node -/
  standbyPerNode : ℕ := 1
  deriving DecidableEq, Repr

/-- Overrides for functions of the platform's shared namespace. -/
structure FuncPolicySchedulerDefaults where
  /-- overrides `minReplica` -/
  minReplica : Option ℕ := none
  /-- overrides `maxReplica` -/
  maxReplica : Option ℕ := none
  /-- overrides `standbyPerNode` -/
  standbyPerNode : Option ℕ := none
  deriving DecidableEq, Repr

/-- Apply the overrides. -/
def FuncPolicySchedulerDefaults.applyTo (d : FuncPolicySchedulerDefaults)
    (policy : FuncPolicySpec) : FuncPolicySpec :=
  { policy with
    minReplica := d.minReplica.getD policy.minReplica
    maxReplica := d.maxReplica.getD policy.maxReplica
    standbyPerNode := d.standbyPerNode.getD policy.standbyPerNode }

/-- A reference to another object of the same tenant. -/
structure ObjLink where
  /-- the type of the object -/
  objType : String
  /-- its namespace -/
  nameSpace : String
  /-- its name -/
  name : String
  deriving DecidableEq, Repr

/-- The store key of the linked object. -/
def ObjLink.key (l : ObjLink) (tenant : String) : String :=
  s!"{tenant}/{l.nameSpace}/{l.name}"

/-- A policy given in place or by reference. -/
inductive ObjRef where
  /-- in place -/
  | obj (p : FuncPolicySpec)
  /-- by reference -/
  | link (l : ObjLink)
  deriving DecidableEq, Repr

/-! ## Snapshots -/

/-- Where a part of a standby pod is kept. -/
inductive StandbyType where
  | file | mem | blob
  deriving DecidableEq, Repr

/-- Where the parts of a standby pod are kept. -/
structure Standby where
  /-- GPU memory -/
  gpuMem : StandbyType := .file
  /-- pageable memory -/
  pageableMem : StandbyType := .file
  /-- pinned memory -/
  pinndMem : StandbyType := .file
  deriving DecidableEq, Repr

/-- Some part is kept in the blob store. -/
def Standby.needblob (s : Standby) : Bool :=
  s.gpuMem == .blob || s.pageableMem == .blob || s.pinndMem == .blob

/-- The sizes of a snapshot, in bytes. -/
structure SnapshotInfo where
  /-- pinned host memory -/
  hostMemSize : UInt64 := 0
  /-- process checkpoint -/
  processCheckpointSize : UInt64 := 0
  /-- where the parts are kept -/
  standby : Standby := {}
  deriving DecidableEq, Repr

/-- Whole gigabytes holding `size` bytes, in MB; `u64` arithmetic. -/
def roundUpMb (size : UInt64) : Except Fault UInt64 :=
  if 2 ^ 64 ≤ size.toNat + 2 ^ 30 then .error .overflow
  else .ok (UInt64.ofNat ((size.toNat + 2 ^ 30 - 1) / 2 ^ 30 * 1024))

namespace SnapshotInfo

/-- Cache memory of a standby pod. -/
def standyCacheMemory (i : SnapshotInfo) : Except Fault UInt64 :=
  if i.standby.pinndMem = .mem then roundUpMb i.hostMemSize else .ok 0

/-- Cache memory of a ready pod. -/
def readyCacheMemory (i : SnapshotInfo) : Except Fault UInt64 := roundUpMb i.hostMemSize

/-- Memory of a standby pod. -/
def standbyMemory (i : SnapshotInfo) : Except Fault UInt64 :=
  if i.standby.pageableMem = .mem then roundUpMb i.processCheckpointSize else .ok 0

end SnapshotInfo

/-- How far a snapshot is loaded. -/
inductive SnapshotState where
  | available | loading | ready
  deriving DecidableEq, Repr

/-- A snapshot of a function on a node. -/
structure ContainerSnapshot where
  /-- the function -/
  funckey : String
  /-- the node -/
  nodename : String
  /-- its state -/
  state : SnapshotState := .available
  /-- its sizes -/
  info : SnapshotInfo := {}
  deriving DecidableEq, Repr

/-- What a standby pod of the snapshot occupies: memory and cache only. -/
def ContainerSnapshot.standbyResource (c : ContainerSnapshot) : Except Fault Resources := do
  let memory ← c.info.standbyMemory
  let cacheMemory ← c.info.standyCacheMemory
  return { memory, cacheMemory }

/-- A snapshot object of the store. -/
structure FuncSnapshot where
  /-- epoch of the reporting node -/
  srcEpoch : ℤ
  /-- the snapshot -/
  object : ContainerSnapshot
  deriving DecidableEq, Repr

/-! ## Functions -/

/-- Does the function still accept work? -/
inductive FuncState where
  | normal | fail
  deriving DecidableEq, Repr

/-- The key of a function. -/
def funcObjectKey (tenant nameSpace funcname : String) (revision : ℤ) : String :=
  s!"{tenant}/{nameSpace}/{funcname}/{revision}"

/-- The key of a pod. -/
def funcPodKey (tenant nameSpace funcname : String) (revision : ℤ) (id : String) : String :=
  s!"{tenant}/{nameSpace}/{funcname}/{revision}/{id}"

/-- A function. -/
structure Function where
  /-- its tenant -/
  tenant : String
  /-- its namespace -/
  nameSpace : String
  /-- its name -/
  name : String
  /-- its version -/
  version : ℤ
  /-- what it asks for -/
  resources : Resources := {}
  /-- where its standby parts go -/
  standby : Standby := {}
  /-- its policy -/
  policy : ObjRef := .obj {}
  /-- its recorded state -/
  state : FuncState := .normal
  deriving DecidableEq, Repr

namespace Function

/-- The key of the function. -/
def id (f : Function) : String := funcObjectKey f.tenant f.nameSpace f.name f.version

/-- What a snapshot pod asks for: all contexts of its GPUs, and room to cache
the GPU memory when that is kept in memory. -/
def snapshotResource (f : Function) (contextCnt : UInt64) : Except Fault Resources :=
  let gpu := { f.resources.gpu with contextCount := contextCnt }
  if f.standby.gpuMem = .mem then
    let cached := f.resources.gpu.vRam.toNat * f.resources.gpu.gpuCount.toNat
    if 2 ^ 64 ≤ cached then .error .overflow
    else .ok { f.resources with memory := max f.resources.memory (UInt64.ofNat cached), gpu }
  else .ok { f.resources with gpu }

/-- What a running pod asks for. -/
def runningResource (f : Function) : Resources :=
  { f.resources with gpu := { f.resources.gpu with contextCount := 1 } }

end Function

/-- The separately stored status of a function. -/
structure FunctionStatus where
  /-- its tenant -/
  tenant : String
  /-- its namespace -/
  nameSpace : String
  /-- its name -/
  name : String
  /-- the version it is about -/
  version : ℤ
  /-- does the function still accept work? -/
  state : FuncState := .normal
  /-- failed snapshots so far -/
  snapshotingFailureCnt : ℕ := 0
  deriving DecidableEq, Repr

/-- The key of the function the status is about. -/
def FunctionStatus.id (f : FunctionStatus) : String :=
  funcObjectKey f.tenant f.nameSpace f.name f.version

/-! ## Pods -/

/-- What a pod was created for. -/
inductive CreatePodType where
  | normal | snapshot | restore
  deriving DecidableEq, Repr

/-- The container runtime of a pod. -/
inductive Runtime where
  | inferX | nvidia
  deriving DecidableEq, Repr

/-- The state of a pod as its node agent reports it. -/
inductive PodState where
  | init | pullingImage | creating | created | loading | ready | terminating | terminated
  | failed | cleanup | deleted | snapshoted | restoring | standby | resuming | resumeDone
  | memHibernated | snapshoting | loadingTimeout
  deriving DecidableEq, Repr

/-- States in which no standby pod is started beside the pod. -/
def PodState.blockStandby : PodState → Bool
  | .restoring | .creating | .resuming => true
  | _ => false

/-- A pod as its node agent reports it. -/
structure FuncPod where
  /-- its tenant -/
  tenant : String
  /-- its namespace -/
  nameSpace : String
  /-- name of its function -/
  funcname : String
  /-- version of its function -/
  fprevision : ℤ
  /-- its id within the function -/
  id : String
  /-- epoch of the reporting node -/
  srcEpoch : ℤ := 0
  /-- policy of its function, as created -/
  policy : ObjRef := .obj {}
  /-- its node -/
  nodename : String
  /-- its runtime -/
  runtime : Runtime := .inferX
  /-- its address -/
  ipAddr : UInt32 := 0
  /-- what it was created for -/
  createType : CreatePodType := .normal
  /-- address of its host -/
  hostIp : String := ""
  /-- port on its host -/
  hostPort : ℕ := 0
  /-- what it asked for -/
  reqResources : Resources := {}
  /-- what it occupies -/
  allocResources : NodeResources := {}
  /-- its state -/
  state : PodState := .init
  deriving DecidableEq

namespace FuncPod

/-- The key of the pod. -/
def podKey (p : FuncPod) : String :=
  funcPodKey p.tenant p.nameSpace p.funcname p.fprevision p.id

/-- The key of its function. -/
def funcKey (p : FuncPod) : String :=
  funcObjectKey p.tenant p.nameSpace p.funcname p.fprevision

/-- Does it run on the plain NVIDIA runtime? -/
def nvidiaRuntime (p : FuncPod) : Bool := p.runtime == .nvidia

end FuncPod

/-! ## Nodes, tenants, peers -/

/-- How far the agent of a node is up. -/
inductive NAState where
  | nodeProxyAvailable | nodeAgentConnected | nodeAgentReady
  deriving DecidableEq, Repr

/-- A node as it is reported. -/
structure Node where
  /-- its name -/
  name : String
  /-- its epoch -/
  nodeEpoch : ℤ := 0
  /-- its address -/
  nodeIp : UInt32 := 0
  /-- its pod network -/
  cidr : UInt32 := 0
  /-- its port for pod traffic -/
  tsotSvcPort : ℕ := 0
  /-- its resources -/
  resources : NodeResources := {}
  /-- does it have a blob store? -/
  blobStoreEnable : Bool := false
  /-- how far its agent is up -/
  state : NAState := .nodeProxyAvailable
  deriving DecidableEq

/-- A tenant's limit as the scheduler reads it. -/
structure Tenant where
  /-- its name -/
  name : String
  /-- GPUs it may use at a time -/
  maxGpu : UInt64 := 2
  deriving DecidableEq, Repr

/-- Where the pods of one pod network are reached. -/
structure Peer where
  /-- address of the host -/
  hostIp : UInt32
  /-- its port -/
  port : ℕ
  deriving DecidableEq, Repr

/-! ## Requests and answers -/

/-- A gateway asks for a pod of a function. -/
structure LeaseWorkerReq where
  /-- tenant of the function -/
  tenant : String
  /-- namespace of the function -/
  nameSpace : String
  /-- name of the function -/
  funcname : String
  /-- version of the function -/
  fprevision : ℤ
  /-- the gateway -/
  gatewayId : ℤ
  /-- the tenant the pod is used for, or empty -/
  consumerTenant : String := ""
  deriving DecidableEq, Repr

/-- The answer to a lease request; an empty error means success. -/
structure LeaseWorkerResp where
  /-- the error, or empty -/
  error : String := ""
  /-- id of the pod -/
  id : String := ""
  /-- address of the pod -/
  ipaddr : UInt32 := 0
  /-- was the pod warm? -/
  keepalive : Bool := false
  /-- address of its host -/
  hostipaddr : UInt32 := 0
  /-- port of its host -/
  hostport : ℕ := 0
  /-- is it on the host network? -/
  hostnetwork : Bool := false
  deriving DecidableEq, Repr

/-- A gateway names a pod. -/
structure WorkerId where
  /-- tenant of the function -/
  tenant : String
  /-- namespace of the function -/
  nameSpace : String
  /-- name of the function -/
  funcname : String
  /-- version of the function -/
  fprevision : ℤ
  /-- id of the pod -/
  id : String
  deriving DecidableEq, Repr

/-- The key of the named pod. -/
def WorkerId.podKey (w : WorkerId) : String :=
  funcPodKey w.tenant w.nameSpace w.funcname w.fprevision w.id

/-- A gateway connects, with the pods it believes it holds. -/
structure ConnectReq where
  /-- the gateway -/
  gatewayId : ℤ
  /-- its pods -/
  workers : List WorkerId
  deriving DecidableEq, Repr

/-- A gateway gives a pod back. -/
structure ReturnWorkerReq where
  /-- the pod -/
  worker : WorkerId
  /-- the pod failed -/
  failworker : Bool
  deriving DecidableEq, Repr

/-- How a kill request went. -/
inductive KillPodStatus where
  | ok | notFound | invalidState | internal
  deriving DecidableEq, Repr

end Inferx
