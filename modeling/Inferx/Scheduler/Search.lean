import Inferx.Scheduler.Basic

/-!
# Finding room for a pod

Where a function's next pod can run, and which idle pods have to go for it.
`findNode4Pod` first looks for a candidate node with enough free resources; if
there is none it goes through the idle pods, least recently used first, adds
what each one occupies to a copy of its node's free resources, and stops as
soon as one node has enough. `tryFreeResources` does the same for one node.

Nothing is charged here. The only change is that keys of the idle pool without
a tracked pod are dropped from the pool.
-/

namespace Inferx

open Proc

/-- What a node is searched for. -/
inductive FindNodeType where
  | resume | nvidiaRuntimePod
  deriving DecidableEq, Repr

/-- The names of a list, sorted and without repetition. -/
def sortedNames (names : List String) : List String :=
  (names.foldl (fun m n => m.insert n ()) (∅ : BTreeMap String Unit)).keys

namespace SchedulerHandler

/-! ## Resources of a function on a node -/

/-- The snapshot of a function on a node, unwrapped. -/
def snapshotOf (s : SchedulerHandler) (funcId nodename : String) :
    Except Fault ContainerSnapshot :=
  match s.snapshots[funcId]? with
  | none => .error .snapshotMissing
  | some snapshots =>
    match snapshots[nodename]? with
    | none => .error .snapshotMissing
    | some snapshot => .ok snapshot

/-- What a standby pod occupies. -/
def standyResource (s : SchedulerHandler) (funcId nodename : String) : Except Fault Resources := do
  let snapshot ← s.snapshotOf funcId nodename
  snapshot.standbyResource

/-- What a resumed pod occupies. -/
def readyResource (s : SchedulerHandler) (funcResource : Resources) (funcId nodename : String) :
    Except Fault Resources := do
  let snapshot ← s.snapshotOf funcId nodename
  let cacheMemory ← snapshot.info.readyCacheMemory
  let gpu := { funcResource.gpu with contextCount := 1 }
  if 0 < funcResource.readyMemory then
    return { funcResource with cacheMemory, memory := funcResource.readyMemory, gpu }
  else if funcResource.memory < cacheMemory then .error .overflow
  else return { funcResource with cacheMemory, memory := funcResource.memory - cacheMemory, gpu }

/-- What a resume needs beyond what the standby pod occupies. -/
def reqResumeResource (s : SchedulerHandler) (funcResource : Resources)
    (funcId nodename : String) : Except Fault Resources := do
  let extra ← s.readyResource funcResource funcId nodename
  let standby ← s.standyResource funcId nodename
  return { extra with
    memory := if standby.memory < extra.memory then extra.memory - standby.memory else 0
    cacheMemory :=
      if standby.cacheMemory < extra.cacheMemory then extra.cacheMemory - standby.cacheMemory
      else 0 }

/-- What `findNode4Pod` asks of a node with the resources `nr`. -/
def reqOn (s : SchedulerHandler) (func : Function) (findnodeType : FindNodeType)
    (nr : NodeResources) (nodename : String) : Except Fault Resources :=
  match findnodeType with
  | .resume => s.reqResumeResource func.runningResource func.id nodename
  | .nvidiaRuntimePod => func.snapshotResource (asU64 nr.maxContextCnt)

/-! ## The search -/

/-- May the pod be evicted after those of `workids`? Its function must keep
more than its minimum of replicas. -/
def verifyMinReplicaPolicy (s : SchedulerHandler) (pod : WorkerPod) (workids : List WorkerPod) :
    Except Fault Bool :=
  let evictfuncname := pod.pod.funcKey
  let totalevictcnt := (workids.filter fun w => w.pod.funcKey == evictfuncname).length
  let policy := s.funcPolicy pod.pod.tenant pod.pod.nameSpace pod.pod.funcname pod.pod.policy
  if s.readyPodCount evictfuncname < totalevictcnt then .error .overflow
  else .ok (policy.minReplica < s.readyPodCount evictfuncname - totalevictcnt)

/-- Does the node hold a standby pod of the function that is not being resumed? -/
def hasStandbyPod (node : NodeStatus) (funcId : String) : Bool :=
  node.pods.toList.any fun p =>
    p.2.pod.state == .standby && p.2.pod.funcKey == funcId && !node.pendingPods.contains p.1

/-- What would be free on a node, and the idle pods that would have to go. -/
structure EvictionPlan where
  /-- free after the evictions -/
  nr : NodeResources
  /-- the pods to evict -/
  workids : List WorkerPod

/-- The first pass: stop at a candidate that fits as it is, collect the others. -/
def scanNodes (s : SchedulerHandler) (func : Function) (findnodeType : FindNodeType) :
    List String → BTreeMap String EvictionPlan →
      Except Fault ((String × NodeResources) ⊕ BTreeMap String EvictionPlan)
  | [], plans => .ok (.inr plans)
  | nodename :: rest, plans =>
    match s.nodes[nodename]? with
    | none => .error .nodeMissing
    | some node =>
      if findnodeType == .resume && !hasStandbyPod node func.id then
        scanNodes s func findnodeType rest plans
      else do
        let req ← s.reqOn func findnodeType node.available nodename
        let state ← node.available.canAlloc req (findnodeType != .resume)
        if state.ok then return .inl (nodename, node.available)
        else scanNodes s func findnodeType rest (plans.insert nodename ⟨node.available, []⟩)

/-- The second pass, over the idle pods: returns the keys without a pod that
were met, and the node that has been found. -/
def scanIdle (s : SchedulerHandler) (func : Function) (findnodeType : FindNodeType) :
    List String → BTreeMap String EvictionPlan →
      Except Fault (List String × Option (String × EvictionPlan))
  | [], _ => .ok ([], none)
  | podKey :: rest, plans =>
    match s.pods[podKey]? with
    | none => do
      let (missWorkers, found) ← scanIdle s func findnodeType rest plans
      return (podKey :: missWorkers, found)
    | some pod =>
      if pod.pod.funcKey == func.id then scanIdle s func findnodeType rest plans
      else
        match plans[pod.pod.nodename]? with
        | none => scanIdle s func findnodeType rest plans
        | some plan => do
          if ← s.verifyMinReplicaPolicy pod plan.workids then
            let nr ← plan.nr.add pod.pod.allocResources
            let req ← s.reqOn func findnodeType nr pod.pod.nodename
            let state ← nr.canAlloc req (findnodeType != .resume)
            let plan' : EvictionPlan := ⟨nr, plan.workids ++ [pod]⟩
            if state.ok then return ([], some (pod.pod.nodename, plan'))
            else scanIdle s func findnodeType rest (plans.insert pod.pod.nodename plan')
          else scanIdle s func findnodeType rest plans

/-- The pass of `tryFreeResources` over the idle pods. -/
def scanFree (s : SchedulerHandler) (nodename : String) (reqResource : Resources)
    (createSnapshot : Bool) :
    List String → List WorkerPod → NodeResources →
      Except Fault (List String × List WorkerPod × NodeResources)
  | [], workids, available => .ok ([], workids, available)
  | podKey :: rest, workids, available =>
    match s.pods[podKey]? with
    | none => do
      let (missWorkers, plan) ←
        scanFree s nodename reqResource createSnapshot rest workids available
      return (podKey :: missWorkers, plan)
    | some pod =>
      if pod.pod.nodename != nodename || pod.pod.nvidiaRuntime then
        scanFree s nodename reqResource createSnapshot rest workids available
      else do
        if ← s.verifyMinReplicaPolicy pod workids then
          let available ← available.add pod.pod.allocResources
          let state ← available.canAlloc reqResource createSnapshot
          if state.ok then return ([], workids ++ [pod], available)
          else scanFree s nodename reqResource createSnapshot rest (workids ++ [pod]) available
        else scanFree s nodename reqResource createSnapshot rest workids available

/-- Drop keys from the idle pool. -/
def popMissing (s : SchedulerHandler) (missWorkers : List String) : SchedulerHandler :=
  missWorkers.foldl popIdle s

end SchedulerHandler

/-! ## The procedures -/

/-- Find a node for a pod of the function; returns the node, the idle pods to
evict and what the node would then have. -/
def findNode4Pod (func : Function) (findnodeType : FindNodeType) (candidateNodes : List String) :
    SchedM (String × List WorkerPod × NodeResources) := do
  let s ← get
  match ← liftFault (s.scanNodes func findnodeType candidateNodes ∅) with
  | .inl (nodename, nr) => return (nodename, [], nr)
  | .inr plans =>
    let (missWorkers, found) ← liftFault (s.scanIdle func findnodeType s.idlePods.oldestFirst plans)
    modify (·.popMissing missWorkers)
    match found with
    | none =>
      throw (.schedulerNoEnoughResource
        s!"can't find enough resource for {func.tenant}/{func.nameSpace}/{func.name}")
    | some (nodename, plan) => return (nodename, plan.workids, plan.nr)

/-- Evict idle pods of one node until a request fits; returns the pods and
what the node would then have. -/
def tryFreeResources (nodename funcId : String) (available : NodeResources)
    (reqResource : Resources) (createSnapshot : Bool) :
    SchedM (List WorkerPod × NodeResources) := do
  let s ← get
  let (missWorkers, workids, available) ←
    liftFault (s.scanFree nodename reqResource createSnapshot s.idlePods.oldestFirst [] available)
  modify (·.popMissing missWorkers)
  let state ← liftFault (available.canAlloc reqResource createSnapshot)
  if state.ok then return (workids, available)
  else
    throw (.schedulerNoEnoughResource
      s!"Node {nodename} has no enough free resource to run {funcId}")

/-- A node for a pod of the function on the plain NVIDIA runtime. -/
def getBestNvidiaRuntimeNode (fp : Function) :
    SchedM (String × List WorkerPod × NodeResources) := do
  let s ← get
  let nodes := (s.nodes.toList.filter fun p => p.2.state == .nodeAgentReady).map Prod.fst
  if nodes.isEmpty then
    throw (.schedulerErr s!"No resource for nvidia runtime for func {fp.id}")
  else findNode4Pod fp .nvidiaRuntimePod nodes

/-- A standby pod of the function to resume, with the pods to evict for it. -/
def getBestResumeWorker (fp : Function) :
    SchedM (WorkerPod × List WorkerPod × NodeResources) := do
  let s ← get
  let pods := s.getFuncPodsByKey fp.id
  if pods.isEmpty then
    throw (.schedulerNoEnoughResource s!"no standby worker for function {fp.id}")
  else
    let nodes := sortedNames
      ((pods.filter fun p => p.pod.state == .standby && s.isNodeReady p.pod.nodename).map
        fun p => p.pod.nodename)
    if nodes.isEmpty then
      throw (.schedulerErr
        s!"No standy pod for func {fp.id}, likely it is just restarted, please retry")
    else
      let (nodename, terminateWorkers, nodeResource) ← findNode4Pod fp .resume nodes
      match pods.find? fun w =>
          w.pod.state == .standby && s.stateOf w == .standby && w.pod.nodename == nodename with
      | none => throw (.schedulerNoEnoughResource s!"no standby worker for function {fp.id}")
      | some worker => return (worker, terminateWorkers, nodeResource)

end Inferx
