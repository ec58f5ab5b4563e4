import Inferx.Scheduler.Search

/-!
# Resuming and starting pods

The four operations that make the scheduler's own pods: resume a standby pod,
create a snapshot pod, a pod on the plain NVIDIA runtime, or a standby pod.
All reserve the resources before the RPC goes out and leave the evicted pods
charged until their deletion is reported, so what a node has available can be
negative for a while. The RPCs themselves appear in `out`; how they end comes
back as a message.
-/

namespace Inferx

open Proc

/-- Take a pod out of the idle pool, asserting that it is there. -/
def popIdleChecked (podKey : String) : SchedM Unit := do
  let s ← get
  if podKey ∈ s.idlePods then modify (·.popIdle podKey) else crash .idlePodMissing

/-- The record of a node, unwrapped. -/
def getNode (nodename : String) : SchedM NodeStatus := do
  let s ← get
  match s.nodes[nodename]? with
  | none => crash (.fault .nodeMissing)
  | some ns => return ns

namespace SchedulerHandler

/-- Mark the evicted pods as being stopped, on the node and in their functions. -/
def addStoppingPods (s : SchedulerHandler) (nodename : String) (terminateWorkers : List WorkerPod) :
    SchedulerHandler :=
  terminateWorkers.foldl (fun s w => s.modifyFunc w.pod.funcKey (·.addStoppingPod w.pod.podKey))
    (s.modifyNode nodename fun ns =>
      terminateWorkers.foldl (fun ns w => ns.addStoppingPod w.pod.podKey) ns)

/-- Mark pods terminating. -/
def markAllTerminating (env : Env) (s : SchedulerHandler) (workers : List WorkerPod) :
    SchedulerHandler :=
  workers.foldl (markTerminating env) s

end SchedulerHandler

/-- Take resources of a node; what is left may go negative. -/
def reserve (nodename : String) (resources : NodeResources) : SchedM Unit := do
  let ns ← getNode nodename
  let available ← liftFault (ns.available.sub resources)
  modify (·.modifyNode nodename fun ns => { ns with available })

/-- Give resources back to a node. -/
def freeNodeResource (nodename : String) (resources : NodeResources) : SchedM Unit := do
  let s ← get
  match s.nodes[nodename]? with
  | none => return ()
  | some ns =>
    let ns ← liftFault (ns.freeResource resources)
    modify fun s => { s with nodes := s.nodes.insert nodename ns }

/-- Allocate on a copy of a node's resources: only the result is kept. -/
def allocFrom (nr : NodeResources) (req : Resources) (createSnapshot : Bool) :
    SchedM NodeResources := do
  match ← liftFault (nr.alloc req createSnapshot) with
  | (.error e, _) => throw e
  | (.ok resources, _) => return resources

/-- `NodeStatus::AllocResource`: allocate on the node itself. -/
def allocOnNode (nodename : String) (req : Resources) (createSnapshot : Bool) :
    SchedM NodeResources := do
  let ns ← getNode nodename
  let (res, available) ← liftFault (ns.available.alloc req createSnapshot)
  modify (·.modifyNode nodename fun ns => { ns with available })
  match res with
  | .error e => throw e
  | .ok resources => return resources

/-- Send the create RPC of a new pod; returns the id of the pod. -/
def startWorker (env : Env) (func : Function) (allocResources : NodeResources)
    (createType : CreatePodType) (terminatePods : List WorkerPod) (nodename : String) :
    SchedM ℕ := do
  let s ← get
  if env.uidOk then
    let id := s.lastUid + 1
    let rpc : StartRpc :=
      { funcid := func.id
        nodename
        podkey := funcPodKey func.tenant func.nameSpace func.name func.version (toString id)
        createType
        resources := allocResources
        terminated := terminatePods.map fun w => w.pod.podKey }
    modify fun s => { s with lastUid := id }.emit (.startWorker rpc)
    return id
  else throw (.commonError "UID")

/-- The reservation of a new pod. -/
def newPendingPod (env : Env) (func : Function) (nodename funcId : String) (id : ℕ)
    (resources : NodeResources) : PendingPod :=
  { nodeName := nodename
    podKey := funcPodKey func.tenant func.nameSpace func.name func.version (toString id)
    funcId
    allocResources := resources
    schedulingTime := env.now }

/-- Evict idle pods: out of the pool and terminating. -/
def evictIdle (env : Env) (terminateWorkers : List WorkerPod) : SchedM Unit :=
  each (fun w => do
    popIdleChecked w.pod.podKey
    modify (SchedulerHandler.markTerminating env · w)) terminateWorkers

/-! ## Resume -/

namespace SchedulerHandler

/-- The keys of the functions from `fpKey` on that start with it. -/
def funcKeysFrom (s : SchedulerHandler) (fpKey : String) : List String :=
  (s.funcs.keys.dropWhile fun key => key < fpKey).takeWhile fun key =>
    fpKey.toList.isPrefixOf key.toList

end SchedulerHandler

/-- The function a resume is about. -/
def resolveFunc (fpKey : String) : SchedM Function := do
  let s ← get
  match s.funcKeysFrom fpKey with
  | [] => throw (.notExist s!"GetFunc {fpKey}")
  | [key] =>
    match s.funcs[key]? with
    | none => throw (.notExist s!"CreateWorker can't find funcpcakge with id {fpKey}")
    | some fpStatus => return fpStatus.func
  | _ => throw (.commonError s!"CreateWorker get multiple func for {fpKey}")

/-- The consumer tenant a resume records. -/
def resumeConsumer (consumerTenant : Option String) : Option String :=
  consumerTenant.filter fun tenant => !tenant.isEmpty

/-- Resume a standby pod of a function: evict, reserve, send the RPC. -/
def resumePod (env : Env) (fpKey : String) (consumerTenant : Option String) : SchedM Unit := do
  let fp ← resolveFunc fpKey
  let (pod, terminateWorkers, nodeResource) ← getBestResumeWorker fp
  let nodename := pod.pod.nodename
  let s ← get
  let readyResource ← liftFault (s.readyResource fp.runningResource fpKey nodename)
  let nodeResource ← liftFault (nodeResource.add pod.pod.allocResources)
  let resources ← allocFrom nodeResource readyResource false
  let _ ← getNode nodename
  each (fun w => popIdleChecked w.pod.podKey) terminateWorkers
  modify fun s => s.setCell pod
    { state := .resuming, consumerTenant := resumeConsumer consumerTenant }
  modify (SchedulerHandler.markAllTerminating env · terminateWorkers)
  modify (·.addStoppingPods nodename terminateWorkers)
  reserve nodename resources
  let podKey := funcPodKey fp.tenant fp.nameSpace fp.name fp.version pod.pod.id
  modify (·.modifyNode nodename (·.addPendingPod
    { nodeName := nodename
      podKey
      funcId := fp.id
      allocResources := resources
      schedulingTime := env.now }))
  modify (·.emit (.resumeWorker
    { podKey := pod.pod.podKey
      nodename
      resources
      terminated := terminateWorkers.map fun w => w.pod.podKey }))

/-! ## Create -/

/-- Reserve what a new pod needs on a node, after evicting idle pods. -/
def reserveEvicting (env : Env) (func : Function) (nodename : String)
    (terminateWorkers : List WorkerPod) (nodeResources : NodeResources) :
    SchedM NodeResources := do
  evictIdle env terminateWorkers
  let ns ← getNode nodename
  modify (·.addStoppingPods nodename terminateWorkers)
  let snapshotResource ← liftFault (func.snapshotResource (asU64 ns.node.resources.maxContextCnt))
  let resources ← allocFrom nodeResources snapshotResource true
  reserve nodename resources
  return resources

/-- Create a pod of a function on the plain NVIDIA runtime. -/
def createOneNividaPod (env : Env) (funcId : String) : SchedM Unit := do
  let s ← get
  match s.funcs[funcId]? with
  | none => throw (.notExist s!"CreateWorker can't find funcpcakge with id {funcId}")
  | some fpStatus =>
    let func := fpStatus.func
    let (nodename, terminateWorkers, nodeResources) ← getBestNvidiaRuntimeNode func
    let resources ← reserveEvicting env func nodename terminateWorkers nodeResources
    let id ← startWorker env func resources .normal terminateWorkers nodename
    modify (·.modifyNode nodename
      (·.addPendingPod (newPendingPod env func nodename funcId id resources)))

/-- The idle pods to evict for a snapshot, and what the node would then have. -/
def snapshotEvictions (env : Env) (funcId nodename : String) (available : NodeResources)
    (reqResource : Resources) : SchedM (List WorkerPod × NodeResources) := do
  let state ← liftFault (available.canAlloc reqResource true)
  if state.ok then return ([], available)
  else
    match ← attempt (tryFreeResources nodename funcId available reqResource true) with
    | .ok plan => return plan
    | .error (.schedulerNoEnoughResource msg) =>
      modify (·.setSnapshotStatus funcId nodename (.waiting "Resource is busy"))
      addSnapshotTask env nodename funcId
      throw (.schedulerNoEnoughResource msg)
    | .error e => throw e

/-- Send the create RPC of a snapshot pod and track it. -/
def startSnapshotWorker (env : Env) (func : Function) (funcId nodename : String)
    (terminateWorkers : List WorkerPod) (resources : NodeResources) : SchedM Unit := do
  match ← attempt (startWorker env func resources .snapshot terminateWorkers nodename) with
  | .error e =>
    modify (·.setSnapshotStatus funcId nodename (.scheduleFail "snapshoting sched fail"))
    addSnapshotTask env nodename funcId
    throw e
  | .ok id =>
    modify (·.setSnapshotStatus funcId nodename .scheduled)
    let pendingPod := newPendingPod env func nodename funcId id resources
    modify fun s =>
      ((s.modifyNode nodename (·.addPendingPod pendingPod)).modifyFunc funcId
        (·.addPendingPod pendingPod)).addPendingSnapshot funcId nodename

/-- Create a snapshot of the function on the node, once the checks have passed. -/
def createSnapshotOnNode (env : Env) (func : Function) (funcId nodename : String)
    (ns : NodeStatus) : SchedM Unit := do
  let reqResource ← liftFault (func.snapshotResource (asU64 ns.node.resources.maxContextCnt))
  let state ← liftFault (ns.total.canAlloc reqResource true)
  if !state.ok then
    modify (·.setSnapshotStatus funcId nodename (.cannot "has no enough resource to run"))
    throw (.schedulerNoEnoughResource
      s!"Node {nodename} has no enough resource to run {funcId}")
  else
    let (terminateWorkers, nodeResources) ←
      snapshotEvictions env funcId nodename ns.available reqResource
    let resources ← reserveEvicting env func nodename terminateWorkers nodeResources
    startSnapshotWorker env func funcId nodename terminateWorkers resources

/-- Create a snapshot of a function on a node, unless there is one or it is
being made. -/
def tryCreateSnapshotOnNode (env : Env) (funcId nodename : String) : SchedM Unit := do
  let s ← get
  if (s.snapshots[funcId]?.any (·.contains nodename))
      || (s.pendingsnapshots[funcId]?.any fun m => decide (nodename ∈ m)) then
    return ()
  else
    match s.funcs[funcId]?, s.nodes[nodename]? with
    | some fpStatus, some ns =>
      if s.funcstatus[funcId]?.any fun status => status.state == .fail then return ()
      else if !ns.node.blobStoreEnable && fpStatus.func.standby.needblob then
        modify (·.setSnapshotStatus funcId nodename (.cannot "NodAgent doesn't support blob"))
        throw (.schedulerNoEnoughResource "NodAgent doesn't support blob")
      else if !s.isNodeReady nodename then
        addSnapshotTask env nodename funcId
        throw (.schedulerNoEnoughResource "NodAgent node ready")
      else createSnapshotOnNode env fpStatus.func funcId nodename ns
    | _, _ => return ()

/-! ## Standby pods -/

namespace SchedulerHandler

/-- The pods on a node. -/
def podsOnNode (s : SchedulerHandler) (nodename : String) : List WorkerPod :=
  (s.pods.toList.map Prod.snd).filter fun w => w.pod.nodename == nodename

/-- The standby pods of a function on a node, counting those about to be. -/
def standbyCount (s : SchedulerHandler) (nodename funcId : String) : ℕ :=
  ((s.podsOnNode nodename).filter fun w => w.pod.funcKey == funcId &&
    (w.pod.state == .standby || w.pod.state == .pullingImage)).length

/-- The functions with a loaded snapshot on the node, with their policy. -/
def standbyFuncs (s : SchedulerHandler) (nodename : String) : List (String × FuncPolicySpec) :=
  s.snapshots.toList.filterMap fun p => do
    let snapshot ← p.2[nodename]?
    let fs ← s.funcs[p.1]?
    if snapshot.state = .ready then some (p.1, s.policyOf fs.func) else none

/-- The standby pods of a function on a node that are one too many. -/
def excessStandbyPods (s : SchedulerHandler) (nodename : String) (p : String × FuncPolicySpec) :
    List WorkerPod :=
  ((s.podsOnNode nodename).filter fun w =>
      w.pod.funcKey == p.1 && w.pod.state == .standby).take
    (s.standbyCount nodename p.1 - p.2.standbyPerNode)

end SchedulerHandler

/-- Create a standby pod of a function on a node. -/
def createStandbyPod (env : Env) (funcId nodename : String) : SchedM Unit := do
  let s ← get
  match s.funcs[funcId]? with
  | none => return ()
  | some f =>
    let standbyResource ← liftFault (s.standyResource funcId nodename)
    let allocResources ← allocOnNode nodename standbyResource false
    match ← attempt (startWorker env f.func allocResources .restore [] nodename) with
    | .error e =>
      freeNodeResource nodename allocResources
      throw e
    | .ok id =>
      let pendingPod := newPendingPod env f.func nodename funcId id allocResources
      modify fun s =>
        (s.modifyNode nodename (·.addPendingPod pendingPod)).modifyFunc funcId
          (·.addPendingPod pendingPod)

/-- Bring the standby pods of a node to the numbers the policies want: stop the
excess ones, then create one of the missing ones. -/
def tryAdjustStandbyPodsOnNode (env : Env) (nodename : String) : SchedM Unit := do
  let s ← get
  match s.nodes[nodename]? with
  | none => return ()
  | some ns =>
    modify (·.scheduleDelayedTask env 1000 (.standbyTask nodename))
    if !ns.pendingPods.isEmpty || !s.isNodeReady nodename
        || (s.podsOnNode nodename).any fun w => w.pod.state.blockStandby then
      return ()
    else
      let funcs := s.standbyFuncs nodename
      each (fun w => ignore (stopWorker w.pod)) (funcs.flatMap (s.excessStandbyPods nodename))
      let needStandby := (funcs.filter fun p =>
        s.standbyCount nodename p.1 < p.2.standbyPerNode).map Prod.fst
      match env.shuffle needStandby with
      | [] => return ()
      | funcId :: _ => createStandbyPod env funcId nodename

/-! ## Prewarming -/

/-- Create a pod on the plain NVIDIA runtime if the policy wants more of them. -/
def addNvidiaReplica (env : Env) (funcid : String) (policy : FuncPolicySpec) : SchedM Unit := do
  let s ← get
  if s.nvidiaRuntimePodCount funcid < policy.nvidiaReplica then
    ignore (createOneNividaPod env funcid)
  else return ()

/-- Prewarm one pod of a function if its policy wants more; returns whether one
was resumed. -/
def processAddFunc (env : Env) (funcid : String) : SchedM Bool := do
  let s ← get
  if s.funcPods.contains funcid then return false
  else
    match s.funcs[funcid]? with
    | none => return false
    | some fpStatus =>
      if fpStatus.func.state == .fail then return false
      else
        let policy := s.policyOf fpStatus.func
        addNvidiaReplica env funcid policy
        let s ← get
        if s.readyPodCount funcid < policy.minReplica then
          match ← attempt (resumePod env funcid none) with
          | .error _ => return false
          | .ok _ => return true
        else return false

/-- Go through functions until one has been prewarmed. -/
def prewarm (env : Env) : List String → SchedM Unit
  | [] => return ()
  | fpId :: rest => do
    if ← processAddFunc env fpId then return () else prewarm env rest

/-- Prewarm in a random order of the functions. -/
def refreshScheduling (env : Env) : SchedM Unit := do
  let s ← get
  prewarm env (env.shuffle s.funcs.keys)

/-- Queue the snapshots that are missing. -/
def initSnapshotTask (env : Env) : SchedM Unit := do
  let s ← get
  each (fun funcId => each (fun nodename =>
      if (s.snapshots[funcId]?.any (·.contains nodename))
          || (s.pendingsnapshots[funcId]?.any fun m => decide (nodename ∈ m)) then return ()
      else addSnapshotTask env nodename funcId) s.nodes.keys) s.funcs.keys

/-- Run a queued task. -/
def processTask (env : Env) : SchedTask → SchedM Unit
  | .addNode nodename => modify (·.scheduleDelayedTask env 3000 (.delayedInitNode nodename))
  | .delayedInitNode nodename => do
    let s ← get
    each (addSnapshotTask env nodename) s.funcs.keys
    modify (·.scheduleDelayedTask env 1000 (.standbyTask nodename))
  | .addFunc funcId => do
    let s ← get
    each (fun nodename => addSnapshotTask env nodename funcId) s.nodes.keys
  | .snapshotTask funcId nodename => ignore (tryCreateSnapshotOnNode env funcId nodename)
  | .nvidiaPodTask funcId => ignore (createOneNividaPod env funcId)
  | .standbyTask nodename => ignore (tryAdjustStandbyPodsOnNode env nodename)
  | .refreshSnapshot | .removeSnapshotFromNode _ _ => return ()

end Inferx
