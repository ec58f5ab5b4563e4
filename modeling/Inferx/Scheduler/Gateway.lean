import Inferx.Scheduler.Resume
import Inferx.Text

/-!
# Requests

The handlers of the gateways' messages (connect, lease, return, refresh), of the
kill request, of the gateway timeout, and the clean-up of pods and snapshots of
functions that are gone.

An answer goes to a channel whose receiver may have been dropped. Where the
source unwraps the result of the send, a dropped receiver is a panic; where it
ignores the result, the answer is lost.
-/

namespace Inferx

open Proc

/-! ## Answers -/

/-- Send a lease answer and unwrap the result. -/
def sendLease (env : Env) (tx : ℕ) (req : LeaseWorkerReq) (podKey : Option String)
    (resp : LeaseWorkerResp) : SchedM Unit :=
  if env.alive tx then modify (·.emit (.leaseResp tx req podKey resp)) else crash .sendFailed

/-- Send an answer if somebody still waits for it. -/
def sendIfAlive (env : Env) (tx : ℕ) (e : Effect) : SchedM Unit :=
  if env.alive tx then modify (·.emit e) else return ()

/-- Send an answer and unwrap the result. -/
def sendChecked (env : Env) (tx : ℕ) (e : Effect) : SchedM Unit :=
  if env.alive tx then modify (·.emit e) else crash .sendFailed

/-! ## Leases -/

/-- The answer that hands out a pod on the host network. -/
def hostLeaseResp (pod : FuncPod) (ip : UInt32) : LeaseWorkerResp :=
  { id := pod.id
    ipaddr := ip
    keepalive := true
    hostipaddr := ip
    hostport := pod.hostPort
    hostnetwork := pod.nvidiaRuntime }

/-- The answer that hands out a pod behind a peer. -/
def peerLeaseResp (pod : FuncPod) (peer : Peer) (keepalive : Bool) : LeaseWorkerResp :=
  { id := pod.id
    ipaddr := pod.ipAddr
    keepalive
    hostipaddr := peer.hostIp
    hostport := peer.port
    hostnetwork := pod.nvidiaRuntime }

/-- Answer a lease request with a pod that is already marked as leased. -/
def answerLease (env : Env) (req : LeaseWorkerReq) (tx : ℕ) (pod : FuncPod) : SchedM Unit := do
  let s ← get
  if pod.runtime == .inferX then
    match s.lookforPeer pod.ipAddr with
    | .error e => throw e
    | .ok peer => sendLease env tx req (some pod.podKey) (peerLeaseResp pod peer true)
  else
    match parseIpv4 pod.hostIp with
    | none => crash .hostIp
    | some ip => sendLease env tx req (some pod.podKey) (hostLeaseResp pod ip)

/-- Lease an idle pod: mark it, take it out of the pool, answer. -/
def leaseIdle (env : Env) (req : LeaseWorkerReq) (tx : ℕ) (worker : WorkerPod) : SchedM Unit := do
  setWorking worker req.gatewayId
  modify (·.setConsumer worker req.consumer)
  popIdleChecked worker.pod.podKey
  answerLease env req tx worker.pod

/-- Refuse a lease request. -/
def refuseLease (env : Env) (req : LeaseWorkerReq) (tx : ℕ) (error : String) : SchedM Unit :=
  sendLease env tx req none { error }

/-- Queue a lease request at its function. -/
def pushLeaseWorkerReq (env : Env) (fpKey : String) (req : LeaseWorkerReq) (tx : ℕ) :
    SchedM Unit := do
  let s ← get
  match s.funcs[fpKey]? with
  | none => throw (.notExist s!"CreateWorker can't find funcpcakge with id {fpKey}")
  | some _ => modify (·.modifyFunc fpKey (·.pushLeaseWorkerReq env req tx))

/-- Resume a pod for a lease request, and queue the request. -/
def leaseResuming (env : Env) (req : LeaseWorkerReq) (tx : ℕ) (funcname : String) :
    SchedM Unit := do
  match ← attempt (resumePod env funcname (some req.effectiveTenant)) with
  | .error _ => refuseLease env req tx "Failed to resume pod"
  | .ok _ => pushLeaseWorkerReq env funcname req tx

namespace SchedulerHandler

/-- Would a lease take the tenant over its limit? -/
def exceedsGpuLimit (s : SchedulerHandler) (tenant : String) (reqGpuCount : UInt64) : Bool :=
  !tenantIsGpuCapExempt tenant &&
    decide ((s.tenantGpuLimit tenant).toNat <
      min (s.tenantActiveGpu tenant + reqGpuCount.toNat) (2 ^ 64 - 1))

/-- The first idle pod of a function, in key order. -/
def idlePodOf (s : SchedulerHandler) (funcname : String) : Option WorkerPod :=
  (s.getFuncPodsByKey funcname).find? fun w => w.pod.state == .ready && (s.stateOf w).isIdle

end SchedulerHandler

/-- The key of the function a lease request names. -/
def LeaseWorkerReq.funcKey (req : LeaseWorkerReq) : String :=
  funcObjectKey req.tenant req.nameSpace req.funcname req.fprevision

/-- Lease a pod of a known function. -/
def leaseFrom (env : Env) (req : LeaseWorkerReq) (tx : ℕ) (func : Function) : SchedM Unit := do
  let s ← get
  let funcname := req.funcKey
  match s.idlePodOf funcname with
  | some worker => leaseIdle env req tx worker
  | none =>
    if (s.policyOf func).maxReplica ≤ s.readyPodCount funcname then
      let error := s!"ProcessLeaseWorkerReq can't create pod for func {funcname} as reach " ++
        s!"max_replica limitation {(s.policyOf func).maxReplica} ready pod count " ++
        s!"{s.readyPodCount funcname}"
      refuseLease env req tx error
      throw (.notExist error)
    else leaseResuming env req tx funcname

/-- A gateway asks for a pod. -/
def processLeaseWorkerReq (env : Env) (req : LeaseWorkerReq) (tx : ℕ) : SchedM Unit := do
  let s ← get
  match s.funcs[req.funcKey]? with
  | none =>
    let error := s!"ProcessLeaseWorkerReq can't find func with id {req.funcKey}"
    refuseLease env req tx error
    throw (.notExist error)
  | some fpStatus =>
    let tenant := req.effectiveTenant
    let gpuCount := fpStatus.func.runningResource.gpu.gpuCount
    if !SchedulerHandler.tenantIsGpuCapExempt tenant
        && decide (2 ^ 64 ≤ s.tenantActiveGpu tenant) then
      crash (.fault .overflow)
    else if s.exceedsGpuLimit tenant gpuCount then
      refuseLease env req tx
        (s!"ProcessLeaseWorkerReq tenant {tenant} exceed max_gpu limit {s.tenantGpuLimit tenant} " ++
          s!"active {s.tenantActiveGpu tenant} requested {gpuCount}")
    else leaseFrom env req tx fpStatus.func

/-! ## Returns, kills -/

/-- Take a pod back from a gateway, or stop it when it failed. -/
def takeBack (env : Env) (failworker : Bool) (worker : WorkerPod) : SchedM Unit := do
  let s ← get
  if s.stateOf worker == .terminating then return ()
  else if failworker then
    modify (SchedulerHandler.markTerminating env · worker)
    ignore (stopWorker worker.pod)
  else modify fun s => (s.setIdle worker).putIdle worker.pod.podKey

/-- A gateway gives a pod back. -/
def processReturnWorkerReq (env : Env) (req : ReturnWorkerReq) (tx : ℕ) : SchedM Unit := do
  let s ← get
  match s.pods[req.worker.podKey]? with
  | none => sendChecked env tx (.returnResp tx s!"pod {req.worker.podKey} doesn't exist")
  | some worker =>
    takeBack env req.failworker worker
    sendChecked env tx (.returnResp tx "")

/-- Stop a pod that is not idle on request. -/
def killBusy (env : Env) (worker : WorkerPod) : SchedM KillPodStatus := do
  match ← attempt (stopWorker worker.pod) with
  | .ok _ =>
    modify (SchedulerHandler.markTerminating env · worker)
    return .ok
  | .error _ => return .internal

/-- Stop a pod on request; the idle pool gets it back when that fails. -/
def killWorker (env : Env) (worker : WorkerPod) : SchedM KillPodStatus := do
  let s ← get
  match s.stateOf worker with
  | .idle =>
    modify (·.popIdle worker.pod.podKey)
    match ← attempt (stopWorker worker.pod) with
    | .ok _ =>
      modify (SchedulerHandler.markTerminating env · worker)
      return .ok
    | .error _ =>
      modify (·.putIdle worker.pod.podKey)
      return .internal
  | .standby | .working _ => killBusy env worker
  | _ => return .invalidState

/-- A kill request. -/
def processKillPod (env : Env) (req : WorkerId) (tx : ℕ) : SchedM Unit := do
  let s ← get
  match s.pods[req.podKey]? with
  | none => sendIfAlive env tx (.killResp tx .notFound)
  | some worker =>
    let status ← killWorker env worker
    sendIfAlive env tx (.killResp tx status)

/-! ## Gateways -/

namespace SchedulerHandler

/-- A gateway reports that it is alive. -/
def processRefreshGateway (env : Env) (s : SchedulerHandler) (gatewayId : ℤ) : SchedulerHandler :=
  { s with gateways := s.gateways.insert gatewayId env.now }

/-- The pods a connecting gateway names and that exist, or `none` if one of
them is used otherwise. -/
def connectPods (s : SchedulerHandler) (gatewayId : ℤ) : List WorkerId → Option (List WorkerPod)
  | [] => some []
  | w :: rest =>
    match s.pods[w.podKey]? with
    | none => connectPods s gatewayId rest
    | some pod =>
      if s.stateOf pod = .idle ∨ s.stateOf pod = .working gatewayId then
        (connectPods s gatewayId rest).map (pod :: ·)
      else none

/-- The gateways that have not been heard of for more than four seconds. -/
def timeoutGateways (env : Env) (s : SchedulerHandler) : List ℤ :=
  (s.gateways.toList.filter fun p => 4000 < env.now - p.2).map Prod.fst

/-- Take a pod back from a gateway that is gone. -/
def releaseTimedOut (gateways : List ℤ) (s : SchedulerHandler) (worker : WorkerPod) :
    SchedulerHandler :=
  match s.stateOf worker with
  | .working gatewayId =>
    if gatewayId ∈ gateways then (s.setIdle worker).putIdle worker.pod.podKey else s
  | _ => s

/-- Drop the gateways that are gone and take their pods back. -/
def processGatewayTimeout (env : Env) (s : SchedulerHandler) : SchedulerHandler :=
  let gateways := s.timeoutGateways env
  (s.pods.toList.map Prod.snd).foldl (releaseTimedOut gateways)
    { s with gateways := gateways.foldl (fun m g => m.erase g) s.gateways }

/-- Drop the lease requests that have waited too long. -/
def reconcileAllStuckLeaseRequests (env : Env) (s : SchedulerHandler) (timeoutMs : ℕ) :
    SchedulerHandler :=
  { s with funcs := s.funcs.map fun _ fs => fs.reconcileStuckLeaseRequests env timeoutMs }

end SchedulerHandler

/-- A gateway connects and takes over the pods it names; returns whether it was
let in. -/
def processConnectReq (env : Env) (req : ConnectReq) (tx : ℕ) : SchedM Bool := do
  let s ← get
  if !s.listDone then
    sendIfAlive env tx (.connectResp tx "Scheduler still initializing, please retry")
    return false
  else
    match s.connectPods req.gatewayId req.workers with
    | none =>
      sendChecked env tx (.connectResp tx "ProcessConnectReq the leasing worker has been reassigned")
      return false
    | some pods =>
      each (fun pod => do
        setWorking pod req.gatewayId
        modify (·.popIdle pod.pod.podKey)) pods
      sendIfAlive env tx (.connectResp tx "")
      return true

/-- End the warm-up: start scheduling. -/
def completeWarmupAfterConnect (env : Env) : SchedM Unit := do
  let s ← get
  if s.warmupComplete then return ()
  else
    modify fun s => { s with warmupComplete := true }
    refreshScheduling env
    initSnapshotTask env

/-- End the warm-up when no gateway has connected for five seconds. -/
def checkAndCompleteWarmup (env : Env) : SchedM Unit := do
  let s ← get
  match s.warmupStartTime with
  | some startTime =>
    if !s.warmupComplete && decide (5000 < env.now - startTime) then
      completeWarmupAfterConnect env
    else return ()
  | none => return ()

/-! ## Functions that are gone -/

namespace SchedulerHandler

/-- The tracked pods from the function's first possible key on, up to the first
one of another function. -/
def podsByFunckey (s : SchedulerHandler) (funckey : String) : List WorkerPod :=
  ((s.pods.toList.dropWhile fun p => p.1 < funckey ++ "/").map Prod.snd).takeWhile fun w =>
    w.pod.funcKey == funckey

/-- Does the function have a pod? -/
def hasPod (s : SchedulerHandler) (funckey : String) : Bool := !(s.podsByFunckey funckey).isEmpty

end SchedulerHandler

/-- Stop all pods of a function; returns whether there were none. -/
def removePodsByFunckey (env : Env) (funckey : String) : SchedM Bool := do
  let s ← get
  let pods := s.podsByFunckey funckey
  each (fun p => do
    match ← attempt (stopWorker p.pod) with
    | .error _ => return ()
    | .ok _ => modify (SchedulerHandler.markTerminating env · p)) pods
  return pods.isEmpty

/-- Ask a node to remove a snapshot, unless it has been asked. -/
def removeSnapshotFromNode (nodename funckey : String) : SchedM Unit := do
  let s ← get
  let pendingKey := s!"{funckey}:{nodename}"
  if pendingKey ∈ s.pendingSnapshotRemovals then return ()
  else
    match s.nodes[nodename]? with
    | none => throw (.commonError s!"Node {nodename} not found")
    | some _ =>
      modify fun s =>
        { s with pendingSnapshotRemovals := insert pendingKey s.pendingSnapshotRemovals }.emit
          (.removeSnapshot funckey nodename)

/-- Remove the snapshots of a function from all nodes. -/
def removeSnapshotByFunckey (funckey : String) : SchedM Unit := do
  let s ← get
  match s.snapshots[funckey]? with
  | none => return ()
  | some snapshot =>
    each (fun nodename => ignore (removeSnapshotFromNode nodename funckey)) snapshot.keys

/-- A function goes: stop its pods, or remove its snapshots. -/
def processRemoveFunc (env : Env) (spec : Function) : SchedM Unit := do
  let hasPod ← removePodsByFunckey env spec.id
  if hasPod then return () else removeSnapshotByFunckey spec.id

/-- Remove the snapshots of functions that are gone and have no pods. -/
def cleanSnapshots : SchedM Unit := do
  let s ← get
  let gone := s.snapshots.keys.filter fun funckey =>
    !s.funcs.contains funckey && !s.hasPod funckey
  each (fun funckey => ignore (removeSnapshotByFunckey funckey)) gone

/-- Stop the pods of functions that are gone. -/
def cleanPods (env : Env) : SchedM Unit := do
  let s ← get
  let gone := sortedNames
    (((s.pods.toList.map fun p => p.2.pod.funcKey)).filter fun funckey =>
      !s.funcs.contains funckey)
  each (fun funckey => ignore (removePodsByFunckey env funckey)) gone

end Inferx
