import Inferx.Scheduler.State

/-!
# Building blocks of the handlers

The small operations the handlers are written with: the shared cells of the
worker pods, the idle pool, the terminating marks, the pending-snapshot marks,
policies, tasks, and the records of a node and of a function. Operations that
cannot fail are functions on the state; the others are procedures.
-/

namespace Inferx

open Proc

namespace SchedulerHandler

/-! ## Worker cells -/

/-- The worker state of a pod. -/
def stateOf (s : SchedulerHandler) (w : WorkerPod) : WorkerPodState := (s.workers w.ref).state

/-- The tenant a pod is used for, when that is not its own. -/
def consumerOf (s : SchedulerHandler) (w : WorkerPod) : Option String :=
  (s.workers w.ref).consumerTenant

/-- Write the cell of a pod. -/
def setCell (s : SchedulerHandler) (w : WorkerPod) (c : WorkerCell) : SchedulerHandler :=
  { s with workers := Function.update s.workers w.ref c }

/-- `WorkerPod::SetState`. -/
def setState (s : SchedulerHandler) (w : WorkerPod) (state : WorkerPodState) :
    SchedulerHandler :=
  s.setCell w { s.workers w.ref with state }

/-- Write the consumer tenant of a pod. -/
def setConsumer (s : SchedulerHandler) (w : WorkerPod) (tenant : Option String) :
    SchedulerHandler :=
  s.setCell w { s.workers w.ref with consumerTenant := tenant }

/-- `WorkerPod::SetIdle`: it clears the consumer tenant as well. -/
def setIdle (s : SchedulerHandler) (w : WorkerPod) : SchedulerHandler :=
  s.setCell w { state := .idle, consumerTenant := none }

/-- The state left by `WorkerPod::New`: a fresh cell, set from the pod state. -/
def withNewWorker (s : SchedulerHandler) (pod : FuncPod) : SchedulerHandler :=
  { s with
    workers := Function.update s.workers s.nextWorker (WorkerCell.new pod.state)
    nextWorker := s.nextWorker + 1 }

/-! ## The idle pool and the marks -/

/-- Put a pod into the idle pool. -/
def putIdle (s : SchedulerHandler) (podKey : String) : SchedulerHandler :=
  { s with idlePods := s.idlePods.put podKey }

/-- Take a pod out of the idle pool. -/
def popIdle (s : SchedulerHandler) (podKey : String) : SchedulerHandler :=
  { s with idlePods := s.idlePods.pop podKey }

/-- Mark a pod terminating. -/
def markTerminating (env : Env) (s : SchedulerHandler) (w : WorkerPod) : SchedulerHandler :=
  { s.setState w .terminating with
    terminatingPods := s.terminatingPods.insert w.pod.podKey { since := env.now } }

/-- Record that a snapshot is being made. -/
def addPendingSnapshot (s : SchedulerHandler) (funcid nodename : String) : SchedulerHandler :=
  { s with
    pendingsnapshots :=
      s.pendingsnapshots.insert funcid (insert nodename (s.pendingsnapshots[funcid]?.getD ∅)) }

/-- Forget that a snapshot is being made. -/
def removePendingSnapshot (s : SchedulerHandler) (funcid nodename : String) :
    SchedulerHandler :=
  match s.pendingsnapshots[funcid]? with
  | none => s
  | some nodes =>
    { s with
      pendingsnapshots :=
        if nodes.erase nodename = ∅ then s.pendingsnapshots.erase funcid
        else s.pendingsnapshots.insert funcid (nodes.erase nodename) }

/-- Record how scheduling a snapshot went. -/
def setSnapshotStatus (s : SchedulerHandler) (funcId nodename : String)
    (state : SnapshotScheduleState) : SchedulerHandler :=
  { s with snapshotSched := (s.snapshotSched.set funcId nodename state).2 }

/-- Append to what the handler sends. -/
def emit (s : SchedulerHandler) (e : Effect) : SchedulerHandler := { s with out := s.out ++ [e] }

/-- Change the record of a node. -/
def modifyNode (s : SchedulerHandler) (nodename : String) (f : NodeStatus → NodeStatus) :
    SchedulerHandler :=
  { s with nodes := s.nodes.modify nodename f }

/-- Change the record of a function. -/
def modifyFunc (s : SchedulerHandler) (funcKey : String) (f : FuncStatus → FuncStatus) :
    SchedulerHandler :=
  { s with funcs := s.funcs.modify funcKey f }

/-- Queue a task for later. -/
def scheduleDelayedTask (env : Env) (s : SchedulerHandler) (delayMs : ℕ) (task : SchedTask) :
    SchedulerHandler :=
  { s with delayedTasks := s.delayedTasks ++ [{ due := env.now + delayMs, task }] }

/-! ## Lookups -/

/-- The pods of a function, in key order. -/
def getFuncPodsByKey (s : SchedulerHandler) (fpkey : String) : List WorkerPod :=
  match s.funcs[fpkey]? with
  | none => []
  | some fpStatus => fpStatus.pods.toList.map Prod.snd

/-- Is the agent of the node up? -/
def isNodeReady (s : SchedulerHandler) (nodename : String) : Bool :=
  match s.nodes[nodename]? with
  | none => false
  | some ns => ns.state == .nodeAgentReady

/-- The replicas of a function. -/
def readyPodCount (s : SchedulerHandler) (funcname : String) : ℕ :=
  ((s.getFuncPodsByKey funcname).filter fun w => (s.stateOf w).isResumed).length

/-- The pods of a function on the plain NVIDIA runtime. -/
def nvidiaRuntimePodCount (s : SchedulerHandler) (funcname : String) : ℕ :=
  ((s.getFuncPodsByKey funcname).filter fun w => w.pod.nvidiaRuntime).length

/-- The peer that serves an address: the pod networks are `/20`. -/
def lookforPeer (s : SchedulerHandler) (ip : UInt32) : Except Error Peer :=
  match s.peers[ip &&& 0xfffff000]? with
  | none => .error (.peerNotExist "PeerMgr::LookforPeer peer doesn't exist")
  | some peer => .ok peer

/-- A policy given in place, or looked up; the default when there is none. -/
def resolveReferencedFuncPolicy (s : SchedulerHandler) (tenant : String) (p : ObjRef) :
    FuncPolicySpec :=
  match p with
  | .obj p => p
  | .link l => if l.objType = "funcpolicy" then (s.funcpolicy[l.key tenant]?).getD {} else {}

/-- Is it one of the platform's shared functions? -/
def isPlatformSharedFunc (tenant nameSpace : String) : Bool :=
  tenant == "inferx" && nameSpace == "endpoint"

/-- The policy of a function: a stored one of the same name comes first. -/
def funcPolicy (s : SchedulerHandler) (tenant nameSpace name : String) (p : ObjRef) :
    FuncPolicySpec :=
  match s.funcpolicy[s!"{tenant}/{nameSpace}/{name}"]? with
  | some p => p
  | none =>
    let policy := s.resolveReferencedFuncPolicy tenant p
    if isPlatformSharedFunc tenant nameSpace then
      s.config.inferxEndpointFuncDefaultPolicy.applyTo policy
    else policy

/-- The policy of a function object. -/
def policyOf (s : SchedulerHandler) (f : Function) : FuncPolicySpec :=
  s.funcPolicy f.tenant f.nameSpace f.name f.policy

/-- Does the pod count against the tenant's GPU limit? -/
def countsFor (s : SchedulerHandler) (tenant : String) (w : WorkerPod) : Bool :=
  (match s.stateOf w with
    | .working _ | .resuming => true
    | _ => false) && (s.consumerOf w).getD w.pod.tenant == tenant

/-- The GPUs that count against the tenant's limit. -/
def tenantActiveGpu (s : SchedulerHandler) (tenant : String) : ℕ :=
  s.pods.total fun _ w =>
    if s.countsFor tenant w then w.pod.reqResources.gpu.gpuCount.toNat else 0

/-- Tenants without a limit. -/
def tenantIsGpuCapExempt (tenant : String) : Bool := tenant == "inferx" || tenant == "public"

/-- The limit of a tenant; two GPUs when it is unknown. -/
def tenantGpuLimit (s : SchedulerHandler) (tenant : String) : UInt64 :=
  match s.tenants[tenant]? with
  | some t => t.maxGpu
  | none => 2

end SchedulerHandler

/-- The tenant a lease request counts for. -/
def LeaseWorkerReq.effectiveTenant (req : LeaseWorkerReq) : String :=
  if req.consumerTenant.isEmpty then req.tenant else req.consumerTenant

/-- The consumer tenant as it is recorded. -/
def LeaseWorkerReq.consumer (req : LeaseWorkerReq) : Option String :=
  if req.consumerTenant.isEmpty then none else some req.consumerTenant

/-- States in which a snapshot pod has finished. -/
def isSnapshotPodFinished : PodState → Bool
  | .snapshoted | .terminating | .terminated | .cleanup | .deleted => true
  | _ => false

/-! ## Procedures -/

/-- A computation that may panic. -/
def liftFault {α : Type} (x : Except Fault α) : SchedM α := lift (x.mapError .fault)

/-- `WorkerPod::New`. -/
def newWorkerPod (pod : FuncPod) : SchedM WorkerPod := fun s =>
  .ok ⟨s.nextWorker, pod⟩ (s.withNewWorker pod)

/-- `WorkerPod::SetWorking`: not from standby, resuming or terminating. -/
def setWorking (w : WorkerPod) (gatewayId : ℤ) : SchedM Unit := do
  let s ← get
  match s.stateOf w with
  | .terminating => crash .setWorkingTerminating
  | .resuming | .standby => crash .setWorkingResuming
  | _ => modify (·.setState w (.working gatewayId))

/-- Queue a task; the channel holds two thousand. -/
def addTask (task : SchedTask) : SchedM Unit := do
  let s ← get
  if s.taskQueue.length < 2000 then modify fun s => { s with taskQueue := s.taskQueue ++ [task] }
  else crash .taskQueueFull

/-- Queue the creation of a snapshot, unless the policy wants no standby. -/
def addSnapshotTask (env : Env) (nodename funcId : String) : SchedM Unit := do
  let s ← get
  match s.funcs[funcId]? with
  | none => crash .snapshotTaskFuncMissing
  | some f =>
    if (s.policyOf f.func).standbyPerNode = 0 then return ()
    else modify (·.scheduleDelayedTask env 1000 (.snapshotTask funcId nodename))

/-- Ask the node agent to terminate a pod. -/
def stopWorker (pod : FuncPod) : SchedM Unit := do
  let s ← get
  match s.nodes[pod.nodename]? with
  | none => throw (.commonError s!"Node {pod.nodename} not found")
  | some _ => modify (·.emit (.stopWorker pod.podKey))

/-! ## Node records -/

namespace NodeStatus

/-- The record of a new node: its pods are charged. -/
def new (env : Env) (node : Node) (total : NodeResources) (pods : BTreeMap String WorkerPod) :
    Except Fault NodeStatus := do
  let available ← pods.toList.foldlM (fun available p => available.sub p.2.pod.allocResources) total
  return { node, total, available, pods, createTime := env.now, state := node.state }

/-- Hold a reservation. -/
def addPendingPod (ns : NodeStatus) (pendingPod : PendingPod) : NodeStatus :=
  { ns with pendingPods := ns.pendingPods.insert pendingPod.podKey pendingPod }

/-- A pod is reported: it takes over its reservation, or is charged now. -/
def addPod (ns : NodeStatus) (w : WorkerPod) : Except Fault NodeStatus :=
  let podKey := w.pod.podKey
  match ns.pendingPods[podKey]? with
  | none => do
    let available ← ns.available.sub w.pod.allocResources
    return { ns with available, pods := ns.pods.insert podKey w }
  | some _ =>
    .ok { ns with
      pendingPods := ns.pendingPods.erase podKey
      pods := ns.pods.insert podKey w }

/-- A pod changes: its reservation ends when a resume has finished. -/
def updatePod (ns : NodeStatus) (w oldPod : WorkerPod) : Except Panic NodeStatus :=
  let podKey := w.pod.podKey
  let pendingPods :=
    if oldPod.pod.state = .resuming ∧ w.pod.state = .ready then ns.pendingPods.erase podKey
    else ns.pendingPods
  if ns.pods.contains podKey then
    .ok { ns with pendingPods, pods := ns.pods.insert podKey w }
  else .error .nodeUpdatePodMissing

/-- Give resources back. -/
def freeResource (ns : NodeStatus) (free : NodeResources) : Except Fault NodeStatus := do
  let available ← ns.available.add free
  return { ns with available }

/-- A pod is gone: its resources are freed if the node knew it. -/
def removePod (ns : NodeStatus) (podKey : String) (resources : NodeResources) :
    Except Fault NodeStatus :=
  let ns' := { ns with
    pendingPods := ns.pendingPods.erase podKey
    pods := ns.pods.erase podKey
    stoppingPods := ns.stoppingPods.erase podKey }
  if ns.pendingPods.contains podKey || ns.pods.contains podKey then ns'.freeResource resources
  else .ok ns'

/-- Mark a pod as being stopped. -/
def addStoppingPod (ns : NodeStatus) (podKey : String) : NodeStatus :=
  { ns with stoppingPods := insert podKey ns.stoppingPods }

/-- A pod is no longer being stopped. -/
def removeStoppingPod (ns : NodeStatus) (podKey : String) : NodeStatus :=
  { ns with stoppingPods := ns.stoppingPods.erase podKey }

end NodeStatus

/-! ## Function records -/

namespace FuncStatus

/-- Hold a reservation. -/
def addPendingPod (fs : FuncStatus) (pendingPod : PendingPod) : FuncStatus :=
  { fs with pendingPods := fs.pendingPods.insert pendingPod.podKey pendingPod }

/-- A pod is reported. -/
def addPod (fs : FuncStatus) (w : WorkerPod) : FuncStatus :=
  { fs with
    pendingPods := fs.pendingPods.erase w.pod.podKey
    pods := fs.pods.insert w.pod.podKey w }

/-- A pod is gone. -/
def removePod (fs : FuncStatus) (podKey : String) : FuncStatus :=
  { fs with
    pods := fs.pods.erase podKey
    pendingPods := fs.pendingPods.erase podKey
    stoppingPods := fs.stoppingPods.erase podKey }

/-- Mark a pod as being stopped. -/
def addStoppingPod (fs : FuncStatus) (podKey : String) : FuncStatus :=
  { fs with stoppingPods := insert podKey fs.stoppingPods }

/-- A pod is no longer being stopped. -/
def removeStoppingPod (fs : FuncStatus) (podKey : String) : FuncStatus :=
  { fs with stoppingPods := fs.stoppingPods.erase podKey }

/-- Queue a lease request. -/
def pushLeaseWorkerReq (env : Env) (fs : FuncStatus) (req : LeaseWorkerReq) (tx : ℕ) :
    FuncStatus :=
  { fs with leaseWorkerReqs := fs.leaseWorkerReqs ++ [{ req, time := env.now, tx }] }

/-- Drop the requests at the front that have waited too long. -/
def reconcileStuckLeaseRequests (env : Env) (fs : FuncStatus) (timeoutMs : ℕ) : FuncStatus :=
  { fs with
    leaseWorkerReqs :=
      fs.leaseWorkerReqs.dropWhile fun q => q.time ≤ env.now && timeoutMs < env.now - q.time }

end FuncStatus

end Inferx
