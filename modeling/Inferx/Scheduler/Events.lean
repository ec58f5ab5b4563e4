import Inferx.Scheduler.Billing
import Inferx.Scheduler.Completion

/-!
# Store events

The handlers of the store's events about pods, functions, nodes and snapshots.

A pod is tracked in `pods`, and with its node and its function; while these are
not known yet it is parked in `nodePods` and `funcPods`. Every report of a pod
makes a new worker pod that takes the place of the old one in all maps. A node
is cleaned out when it comes back with another epoch, and reconciled when its
agent restarts.
-/

namespace Inferx

open Proc

/-! ## Added pods -/

namespace SchedulerHandler

/-- Park a pod whose node is not known. -/
def parkNodePod (s : SchedulerHandler) (w : WorkerPod) : SchedulerHandler :=
  { s with nodePods := s.nodePods.setInner w.pod.nodename w.pod.podKey w }

/-- Park a pod whose function is not known. -/
def parkFuncPod (s : SchedulerHandler) (w : WorkerPod) : SchedulerHandler :=
  { s with funcPods := s.funcPods.setInner w.pod.funcKey w.pod.podKey w }

/-- A ready pod starts in the idle pool. -/
def enlistIdle (s : SchedulerHandler) (w : WorkerPod) : SchedulerHandler :=
  if (s.stateOf w).isIdle && w.pod.state == .ready then (s.setIdle w).putIdle w.pod.podKey
  else s

/-- Give a new pod to its function. -/
def addPodToFunc (s : SchedulerHandler) (w : WorkerPod) : SchedulerHandler :=
  match s.funcs[w.pod.funcKey]? with
  | none => s.parkFuncPod w
  | some _ => s.modifyFunc w.pod.funcKey (·.addPod w)

end SchedulerHandler

/-- Track a new pod. -/
def trackNew (w : WorkerPod) : SchedM Unit := do
  let s ← get
  match s.pods[w.pod.podKey]? with
  | some _ => crash .addPodExists
  | none => modify fun s => { s with pods := s.pods.insert w.pod.podKey w }

/-- A snapshot pod that is still at work: mark the snapshot and start billing. -/
def noteSnapshotPod (env : Env) (pod : FuncPod) : SchedM Unit := do
  if pod.createType == .snapshot && pod.state != .failed then
    modify (·.addPendingSnapshot pod.funcKey pod.nodename)
    if isSnapshotPodFinished pod.state then return () else startSnapshotPodBilling env pod
  else return ()

/-- Give a new pod to its node. -/
def addPodToNode (w : WorkerPod) : SchedM Unit := do
  let s ← get
  match s.nodes[w.pod.nodename]? with
  | none => modify (·.parkNodePod w)
  | some ns =>
    let ns ← liftFault (ns.addPod w)
    modify fun s => { s with nodes := s.nodes.insert w.pod.nodename ns }

/-- A pod is added. -/
def addPod (env : Env) (pod : FuncPod) : SchedM Unit := do
  let w ← newWorkerPod pod
  trackNew w
  noteSnapshotPod env pod
  modify (·.enlistIdle w)
  addPodToNode w
  modify (·.addPodToFunc w)

/-! ## Modified pods -/

namespace SchedulerHandler

/-- A leased pod stays leased when it is reported again. -/
def keepLease (s : SchedulerHandler) (oldPod w : WorkerPod) : SchedulerHandler :=
  match s.stateOf oldPod with
  | .working _ => s.setCell w (s.workers oldPod.ref)
  | _ => s

/-- Set a function's queue of lease requests. -/
def setLeaseQueue (s : SchedulerHandler) (funcKey : String) (queue : List QueuedLease) :
    SchedulerHandler :=
  s.modifyFunc funcKey fun fs => { fs with leaseWorkerReqs := queue }

end SchedulerHandler

/-- Track the new report of a pod in place of the old one. -/
def retrack (w : WorkerPod) : SchedM WorkerPod := do
  let s ← get
  match s.pods[w.pod.podKey]? with
  | none => crash .updatePodMissing
  | some oldPod =>
    modify fun s => { s with pods := s.pods.insert w.pod.podKey w }
    return oldPod

/-- The resources of a node after a pod on it changed: a standby pod that is
being resumed gives its standby amount back. -/
def releaseStandby (ns : NodeStatus) (w oldPod : WorkerPod) : Except Fault NodeStatus :=
  if oldPod.pod.state = .standby ∧ w.pod.state = .resuming then
    ns.freeResource oldPod.pod.allocResources
  else .ok ns

/-- Replace a pod on its node. -/
def updatePodOnNode (w oldPod : WorkerPod) : SchedM Unit := do
  let s ← get
  match s.nodes[w.pod.nodename]? with
  | none => modify (·.parkNodePod w)
  | some ns =>
    let ns ← lift (ns.updatePod w oldPod)
    let ns ← liftFault (releaseStandby ns w oldPod)
    modify fun s => { s with nodes := s.nodes.insert w.pod.nodename ns }

/-- Hand a queued lease request the pod that just became ready. -/
def grantQueued (w : WorkerPod) (q : QueuedLease) (peer : Peer) : SchedM Unit := do
  modify (·.emit (.leaseResp q.tx q.req (some w.pod.podKey) (peerLeaseResp w.pod peer false)))
  setWorking w q.req.gatewayId
  modify (·.setConsumer w q.req.consumer)

/-- Serve the queue of a function with a pod that just became ready: the first
request that is still waited for gets it. Returns whether the pod is left over. -/
def serveLeaseQueue (env : Env) (w : WorkerPod) (funcKey : String) :
    List QueuedLease → SchedM Bool
  | [] => do
    modify (·.setIdle w)
    return true
  | q :: rest => do
    modify (·.setLeaseQueue funcKey rest)
    if env.now < q.time then crash .clockBehind
    else
      let s ← get
      match s.lookforPeer w.pod.ipAddr with
      | .error e => throw e
      | .ok peer =>
        if env.alive q.tx then
          grantQueued w q peer
          return false
        else serveLeaseQueue env w funcKey rest

/-- `FuncStatus::UpdatePod`: replace the pod, and serve the queue if it is ready. -/
def updatePodOfFunc (env : Env) (w : WorkerPod) (fs : FuncStatus) : SchedM Bool := do
  if !fs.pods.contains w.pod.podKey then crash .funcUpdatePodMissing
  else
    modify (·.modifyFunc w.pod.funcKey fun fs => { fs with pods := fs.pods.insert w.pod.podKey w })
    let s ← get
    if w.pod.state == .ready && (s.stateOf w).isIdle then
      serveLeaseQueue env w w.pod.funcKey fs.leaseWorkerReqs
    else return false

/-- Replace a pod of its function; returns whether it goes to the idle pool. -/
def updatePodInFunc (env : Env) (w : WorkerPod) : SchedM Bool := do
  let s ← get
  match s.funcs[w.pod.funcKey]? with
  | none =>
    modify (·.parkFuncPod w)
    return false
  | some fs => updatePodOfFunc env w fs

/-- A pod is modified. -/
def updatePod (env : Env) (pod : FuncPod) : SchedM Unit := do
  let w ← newWorkerPod pod
  let oldPod ← retrack w
  modify (·.keepLease oldPod w)
  updatePodOnNode w oldPod
  let addToIdle ← updatePodInFunc env w
  modify fun s => if addToIdle then s.putIdle pod.podKey else s

/-! ## Deleted pods -/

namespace SchedulerHandler

/-- Forget the terminating mark and the billing session of a deleted pod. -/
def closePod (env : Env) (s : SchedulerHandler) (pod : FuncPod) : SchedulerHandler :=
  let s := { s with terminatingPods := s.terminatingPods.erase pod.podKey }
  if pod.createType = .snapshot then s.endSnapshotPodBilling env pod.podKey else s

end SchedulerHandler

/-- Forget a pod. -/
def untrack (podKey : String) : SchedM Unit := do
  let s ← get
  match s.pods[podKey]? with
  | none => crash .removePodMissing
  | some _ => modify fun s => { s with pods := s.pods.erase podKey }

/-- The status of a function after one more failed snapshot. -/
def FunctionStatus.withFailure (status : FunctionStatus) : FunctionStatus :=
  { status with
    snapshotingFailureCnt := status.snapshotingFailureCnt + 1
    state := if 3 ≤ status.snapshotingFailureCnt + 1 then .fail else status.state }

/-- A failed snapshot pod is deleted: retry, and count the failure. -/
def noteFailedPod (env : Env) (pod : FuncPod) : SchedM Unit := do
  let s ← get
  match s.funcs[pod.funcKey]?, s.funcstatus[pod.funcKey]? with
  | some _, some status =>
    if pod.state = .failed ∧ pod.createType = .snapshot then
      addSnapshotTask env pod.nodename pod.funcKey
      if env.statusUpdateOk then modify (·.emit (.updateFuncStatus status.withFailure))
      else crash .funcStatusUpdate
    else return ()
  | _, _ => return ()

/-- A snapshot pod is deleted before it has finished: retry, unless there is a
snapshot, and drop the mark. -/
def requeueSnapshot (env : Env) (pod : FuncPod) : SchedM Unit := do
  if pod.createType == .snapshot && !isSnapshotPodFinished pod.state then
    let s ← get
    if s.snapshots[pod.funcKey]?.any (·.contains pod.nodename) then
      modify (·.removePendingSnapshot pod.funcKey pod.nodename)
    else
      addSnapshotTask env pod.nodename pod.funcKey
      modify (·.removePendingSnapshot pod.funcKey pod.nodename)
  else return ()

/-- Take a deleted pod off its node and free what it reports. -/
def removePodFromNode (pod : FuncPod) : SchedM Unit := do
  let s ← get
  match s.nodes[pod.nodename]? with
  | none => return ()
  | some ns =>
    let ns ← liftFault (ns.removePod pod.podKey pod.allocResources)
    modify fun s => { s with nodes := s.nodes.insert pod.nodename ns }

/-- A pod is deleted. -/
def removePod (env : Env) (pod : FuncPod) : SchedM Unit := do
  modify (SchedulerHandler.closePod env · pod)
  untrack pod.podKey
  noteFailedPod env pod
  requeueSnapshot env pod
  modify (·.popIdle pod.podKey)
  removePodFromNode pod
  modify (·.modifyFunc pod.funcKey (·.removePod pod.podKey))

/-! ## Functions -/

/-- A function is added: it takes its parked pods. -/
def addFunc (spec : Function) : SchedM Unit := do
  let s ← get
  if s.funcs.contains spec.id then throw (.exist s!"FuncMgr::add {spec.id}")
  else
    modify fun s => { s with
      funcPods := s.funcPods.erase spec.id
      funcs := s.funcs.insert spec.id { func := spec, pods := s.funcPods[spec.id]?.getD ∅ } }

/-- A function is removed. -/
def removeFunc (env : Env) (spec : Function) : SchedM Unit := do
  let s ← get
  if s.funcs.contains spec.id then
    modify fun s => { s with
      funcs := s.funcs.erase spec.id
      funcPods := s.funcPods.erase spec.id
      funcstatus := s.funcstatus.erase spec.id
      pendingsnapshots := s.pendingsnapshots.erase spec.id }
    modify (SchedulerHandler.endStandbyBilling env · spec.id)
  else throw (.notExist s!"FuncMgr::Remove {spec.id}")

/-! ## Nodes -/

namespace SchedulerHandler

/-- Forget all pending snapshots on a node. -/
def removePendingSnapshotsOn (s : SchedulerHandler) (nodename : String) : SchedulerHandler :=
  s.pendingsnapshots.keys.foldl (fun s funcId => s.removePendingSnapshot funcId nodename) s

/-- Drop what the functions track of the reservations and stops of a node. -/
def cleanFuncStatusForNode (s : SchedulerHandler) (nodename : String) : SchedulerHandler :=
  match s.nodes[nodename]? with
  | none => s
  | some ns =>
    let s := ns.pendingPods.toList.foldl (fun s p => s.dropFuncPending p.2.funcId p.1) s
    ns.pods.toList.foldl (fun s p =>
      if p.1 ∈ ns.stoppingPods then s.modifyFunc p.2.pod.funcKey (·.removeStoppingPod p.1) else s) s

/-- The pods of a node that do not survive a restart of its agent. -/
def transientPods (ns : NodeStatus) : List String :=
  (ns.pods.toList.filter fun p => p.2.pod.state != .standby && p.2.pod.state != .ready).map
    Prod.fst

/-- Erase keys from a map. -/
def eraseAll {V : Type} (keys : List String) (m : BTreeMap String V) : BTreeMap String V :=
  keys.foldl (fun m k => m.erase k) m

/-- Drop pods from all maps except the one of their node. -/
def dropPods (s : SchedulerHandler) (nodename : String) (keys : List String) : SchedulerHandler :=
  { s with
    funcs := s.funcs.map fun _ fs =>
      { fs with
        pendingPods := eraseAll keys fs.pendingPods
        stoppingPods := keys.foldl (fun m k => m.erase k) fs.stoppingPods
        pods := eraseAll keys fs.pods }
    pods := eraseAll keys s.pods
    nodePods := s.nodePods.modify nodename (eraseAll keys)
    funcPods := s.funcPods.map fun _ pods => eraseAll keys pods }

end SchedulerHandler

/-- A node is added: it takes its parked pods. -/
def addNode (env : Env) (node : Node) : SchedM Unit := do
  let s ← get
  if s.nodes.contains node.name then throw (.exist s!"NodeMgr::add {node.name}")
  else
    let ns ← liftFault (NodeStatus.new env node node.resources (s.nodePods[node.name]?.getD ∅))
    modify fun s => { s with
      nodePods := s.nodePods.erase node.name
      nodes := s.nodes.insert node.name ns }
    addTask (.addNode node.name)

/-- A node is reported again. -/
def updateNode (node : Node) : SchedM Unit := do
  let s ← get
  if s.nodes.contains node.name then
    modify (·.modifyNode node.name fun ns => { ns with node, state := node.state })
  else throw (.notExist s!"NodeMgr::UpdateNode {node.name}")

/-- Set the worker state of a pod that survived a restart of the node agent. -/
def syncWorker (w : WorkerPod) : SchedM Unit := do
  let s ← get
  match w.pod.state with
  | .ready =>
    match s.stateOf w with
    | .working _ => return ()
    | _ => modify fun s => (s.setState w .idle).putIdle w.pod.podKey
  | .standby => modify (·.setState w .standby)
  | _ => crash .reconcileState

/-- The agent of a node has restarted: keep its stable pods, drop everything
else, and count the resources anew. -/
def reconcileNodeAfterNodeAgentRestart (nodename : String) (node : Node) : SchedM Unit := do
  let s ← get
  match s.nodes[nodename]? with
  | none => return ()
  | some ns =>
    let podsToRemove := SchedulerHandler.transientPods ns
    let pods := SchedulerHandler.eraseAll podsToRemove ns.pods
    modify (·.dropPods nodename podsToRemove)
    let available ← liftFault
      (pods.toList.foldlM (fun available p => available.sub p.2.pod.allocResources) node.resources)
    modify (·.modifyNode nodename fun ns =>
      { ns with pods, pendingPods := ∅, stoppingPods := ∅, total := node.resources, available })
    each (fun p => syncWorker p.2) pods.toList
    modify (·.removePendingSnapshotsOn nodename)

/-- A node is removed. -/
def removeNode (node : Node) : SchedM Unit := do
  let s ← get
  if s.nodes.contains node.name then
    modify (·.cleanFuncStatusForNode node.name)
    modify (·.removePendingSnapshotsOn node.name)
    modify fun s => { s with nodes := s.nodes.erase node.name }
  else throw (.notExist s!"NodeMgr::Remove {node.name}")

namespace SchedulerHandler

/-- The pods a node holds. -/
def podsOfNode (s : SchedulerHandler) (nodename : String) : BTreeMap String WorkerPod :=
  match s.nodes[nodename]? with
  | none => ∅
  | some ns => ns.pods

/-- Forget the snapshots on a node, and everything recorded about them. -/
def forgetSnapshotsOn (s : SchedulerHandler) (nodename : String) : SchedulerHandler :=
  let s := { s with
    snapshots := s.snapshots.keys.foldl (fun m funcId => m.removeInner funcId nodename) s.snapshots }
  let s := s.removePendingSnapshotsOn nodename
  { s with
    pendingSnapshotRemovals := s.pendingSnapshotRemovals.filter fun key =>
      ¬ (s!":{nodename}".toList <:+ key.toList)
    snapshotSched := s.snapshotSched.removeById2 nodename }

end SchedulerHandler

/-- Delete pods, as their deletion would be reported. -/
def removePods (env : Env) (pods : BTreeMap String WorkerPod) : SchedM Unit :=
  each (fun p => ignore (removePod env p.2.pod)) pods.toList

/-- Everything of a node goes. -/
def cleanNode (env : Env) (nodename : String) : SchedM Unit := do
  let s ← get
  modify fun s => { s with nodePods := s.nodePods.erase nodename }
  removePods env (s.nodePods[nodename]?.getD ∅)
  modify (·.cleanFuncStatusForNode nodename)
  let s ← get
  removePods env (s.podsOfNode nodename)
  modify (·.forgetSnapshotsOn nodename)
  let s ← get
  match s.nodes[nodename]? with
  | none => return ()
  | some ns => ignore (removeNode ns.node)

/-- A node shows up with an epoch: clean it out when the epoch is new. -/
def checkNodeEpoch (env : Env) (nodename : String) (nodeEpoch : ℤ) : SchedM Unit := do
  let s ← get
  match s.nodeEpoch[nodename]? with
  | none => modify fun s => { s with nodeEpoch := s.nodeEpoch.insert nodename nodeEpoch }
  | some oldEpoch =>
    if oldEpoch = nodeEpoch then return ()
    else
      cleanNode env nodename
      modify fun s => { s with nodeEpoch := s.nodeEpoch.insert nodename nodeEpoch }

/-! ## Snapshots -/

/-- A snapshot is added. -/
def addSnapshot (env : Env) (snapshot : FuncSnapshot) : SchedM Unit := do
  let object := snapshot.object
  modify (·.removePendingSnapshot object.funckey object.nodename)
  modify fun s =>
    { s with snapshots := s.snapshots.setInner object.funckey object.nodename object }
  if object.state = .ready then startStandbyBilling env object.funckey else return ()

/-- A snapshot is modified. -/
def updateSnapshot (env : Env) (snapshot : FuncSnapshot) : SchedM Unit := do
  let s ← get
  let object := snapshot.object
  if s.snapshots.contains object.funckey then
    modify fun s =>
      { s with snapshots := s.snapshots.setInner object.funckey object.nodename object }
    if object.state = .ready then startStandbyBilling env object.funckey else return ()
  else return ()

namespace SchedulerHandler

/-- A snapshot is removed. -/
def removeSnapshot (s : SchedulerHandler) (snapshot : FuncSnapshot) : SchedulerHandler :=
  { s with
    snapshots := s.snapshots.modify snapshot.object.funckey (·.erase snapshot.object.nodename) }

end SchedulerHandler

end Inferx
