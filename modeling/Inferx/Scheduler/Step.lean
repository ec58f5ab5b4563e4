import Mathlib.Data.List.Sort
import Inferx.Scheduler.Events

/-!
# One turn of the main loop

`processOnce` dispatches what the main loop has received: a message, a store
event, a tick of one of its timers, or a queued task. The loop ignores the error
a turn ends with, so a turn takes a state to the next one unless it panics.
-/

namespace Inferx

open Proc

/-- The messages of gateways and RPC tasks. -/
inductive WorkerHandlerMsg where
  | connectScheduler (req : ConnectReq) (tx : ℕ)
  | leaseWorker (req : LeaseWorkerReq) (tx : ℕ)
  | returnWorker (req : ReturnWorkerReq) (tx : ℕ)
  | killPod (req : WorkerId) (tx : ℕ)
  | refreshGateway (gatewayId : ℤ)
  | cleanupDuplicateSnapshot (rpc : StartRpc)
  | resumeWorkerComplete (rpc : ResumeRpc) (result : Option Error)
  | startWorkerComplete (rpc : StartRpc) (result : Option Error)
  | removeSnapshotComplete (funckey nodename : String) (ok : Bool)
  | stopWorkerComplete (podKey : String) (ok : Bool)

/-- The lists the store announces at the start. -/
inductive ListType where
  | func | funcStatus | funcPod | node | snapshot | funcpolicy
  deriving DecidableEq, Repr

/-- The events of the store. A change of a function carries the old object. -/
inductive DeltaEvent where
  | funcAdded (func : Function)
  | funcModified (oldspec spec : Function)
  | funcDeleted (spec : Function)
  | funcStatusSet (status : FunctionStatus)
  | funcStatusDeleted (status : FunctionStatus)
  | nodeAdded (node : Node)
  | nodeModified (node : Node)
  | nodeDeleted (node : Node)
  | podAdded (pod : FuncPod)
  | podModified (pod : FuncPod)
  | podDeleted (pod : FuncPod)
  | snapshotAdded (snapshot : FuncSnapshot)
  | snapshotModified (snapshot : FuncSnapshot)
  | snapshotDeleted (snapshot : FuncSnapshot)
  | policySet (key : String) (policy : FuncPolicySpec)
  | policyDeleted (key : String)
  | tenantSet (tenant : Tenant)
  | tenantDeleted (name : String)
  | initDone (listType : ListType)

/-- What the main loop waits for. -/
inductive Input where
  /-- a message -/
  | msg (m : WorkerHandlerMsg)
  /-- a store event -/
  | event (e : DeltaEvent)
  /-- the timer of the delayed tasks -/
  | delayTick
  /-- the timer of the snapshot billing -/
  | billingTick
  /-- the timer of the standby billing -/
  | standbyTick
  /-- the main timer -/
  | tick
  /-- a queued task is due -/
  | task

/-! ## The branches -/

/-- Move the delayed tasks that are due to the task queue, earliest first. -/
def drainDueDelayedTasks (env : Env) : SchedM Unit := do
  let s ← get
  let due := s.delayedTasks.filter fun t => t.due ≤ env.now
  modify fun s => { s with delayedTasks := s.delayedTasks.filter fun t => ¬ t.due ≤ env.now }
  each (fun t => addTask t.task) (due.insertionSort fun a b => a.due ≤ b.due)

/-- An initial list is complete. -/
def listDone (env : Env) (listType : ListType) : SchedM Unit := do
  modify fun s =>
    match listType with
    | .func => { s with funcListDone := true }
    | .funcStatus => { s with funcstatusListDone := true }
    | .funcPod => { s with funcPodListDone := true }
    | .node => { s with nodeListDone := true }
    | .snapshot => { s with snapshotListDone := true }
    | .funcpolicy => { s with funcpolicyDone := true }
  let s ← get
  if s.nodeListDone && s.funcListDone && s.funcstatusListDone && s.funcPodListDone
      && s.snapshotListDone && s.funcpolicyDone then
    modify fun s => { s with listDone := true }
    recoverStandbyBilling env
    modify fun s => { s with warmupStartTime := some env.now, warmupComplete := false }
  else return ()

/-- `PeerMgr::AddPeer`, where an error is a panic. -/
def addPeer (node : Node) : SchedM Unit := do
  let s ← get
  if s.peers.contains node.cidr then crash .peerExists
  else
    modify fun s =>
      { s with peers := s.peers.insert node.cidr ⟨node.nodeIp, node.tsotSvcPort⟩ }

/-- `PeerMgr::RemovePeer`, unwrapped. -/
def removePeer (node : Node) : SchedM Unit := do
  let s ← get
  if s.peers.contains node.cidr then modify fun s => { s with peers := s.peers.erase node.cidr }
  else crash .peerMissing

/-- Prewarm a new function and queue its snapshots. -/
def startFunc (env : Env) (fpId : String) : SchedM Unit := do
  let _ ← processAddFunc env fpId
  addTask (.addFunc fpId)

/-- A node is modified: reconcile it when its agent has just become ready. -/
def processNodeModified (node : Node) : SchedM Unit := do
  let s ← get
  updateNode node
  if s.nodes[node.name]?.any (fun ns => ns.state == .nodeAgentConnected)
      && node.state == .nodeAgentReady then
    reconcileNodeAfterNodeAgentRestart node.name node
  else return ()

/-- The dispatch of the messages. -/
def processMsg (env : Env) : WorkerHandlerMsg → SchedM Unit
  | .connectScheduler req tx => do
    if ← processConnectReq env req tx then completeWarmupAfterConnect env else return ()
  | .leaseWorker req tx => processLeaseWorkerReq env req tx
  | .returnWorker req tx => processReturnWorkerReq env req tx
  | .killPod req tx => processKillPod env req tx
  | .refreshGateway gatewayId => modify (SchedulerHandler.processRefreshGateway env · gatewayId)
  | .cleanupDuplicateSnapshot rpc => processCleanupDuplicateSnapshot rpc
  | .resumeWorkerComplete rpc result => processResumeWorkerComplete env rpc result
  | .startWorkerComplete rpc result => processStartWorkerComplete env rpc result
  | .removeSnapshotComplete funckey nodename ok =>
    modify (·.processRemoveSnapshotComplete funckey nodename ok)
  | .stopWorkerComplete podKey ok => modify (·.processStopWorkerComplete podKey ok)

/-- The dispatch of the store events. -/
def processEvent (env : Env) : DeltaEvent → SchedM Unit
  | .funcAdded func => do
    addFunc func
    let s ← get
    if s.listDone && s.warmupComplete then startFunc env func.id else return ()
  | .funcModified oldspec spec => do
    processRemoveFunc env oldspec
    removeFunc env oldspec
    addFunc spec
    let s ← get
    if s.listDone then startFunc env spec.id else return ()
  | .funcDeleted spec => do
    processRemoveFunc env spec
    removeFunc env spec
  | .funcStatusSet status =>
    modify fun s => { s with funcstatus := s.funcstatus.insert status.id status }
  | .funcStatusDeleted status =>
    modify fun s => { s with funcstatus := s.funcstatus.erase status.id }
  | .nodeAdded node => do
    checkNodeEpoch env node.name node.nodeEpoch
    addPeer node
    addNode env node
  | .nodeModified node => processNodeModified node
  | .nodeDeleted node => do
    removePeer node
    removeNode node
  | .podAdded pod => do
    checkNodeEpoch env pod.nodename pod.srcEpoch
    addPod env pod
  | .podModified pod => updatePod env pod
  | .podDeleted pod => removePod env pod
  | .snapshotAdded snapshot => do
    checkNodeEpoch env snapshot.object.nodename snapshot.srcEpoch
    addSnapshot env snapshot
  | .snapshotModified snapshot => updateSnapshot env snapshot
  | .snapshotDeleted snapshot => modify (·.removeSnapshot snapshot)
  | .policySet key policy => modify fun s => { s with funcpolicy := s.funcpolicy.insert key policy }
  | .policyDeleted key => modify fun s => { s with funcpolicy := s.funcpolicy.erase key }
  | .tenantSet tenant => modify fun s => { s with tenants := s.tenants.insert tenant.name tenant }
  | .tenantDeleted name => modify fun s => { s with tenants := s.tenants.erase name }
  | .initDone listType => listDone env listType

/-- The periodic work once the warm-up is over. -/
def processTick (env : Env) : SchedM Unit := do
  let s ← get
  if s.listDone then
    checkAndCompleteWarmup env
    let s ← get
    if s.warmupComplete then
      refreshScheduling env
      cleanPods env
      cleanSnapshots
      modify (SchedulerHandler.processGatewayTimeout env)
      modify (SchedulerHandler.reconcileAllStuckLeaseRequests env · 30000)
    else return ()
  else return ()

/-- Run the oldest queued task. -/
def processNextTask (env : Env) : SchedM Unit := do
  let s ← get
  match s.taskQueue with
  | [] => return ()
  | task :: rest =>
    modify fun s => { s with taskQueue := rest }
    processTask env task

/-- One turn of the main loop. -/
def processOnce (env : Env) : Input → SchedM Unit
  | .msg m => processMsg env m
  | .event e => processEvent env e
  | .delayTick => drainDueDelayedTasks env
  | .billingTick => modify (SchedulerHandler.emitPeriodicBillingTicks env)
  | .standbyTick => modify (SchedulerHandler.emitPeriodicStandbyTicks env)
  | .tick => processTick env
  | .task => processNextTask env

/-- A turn on its own: what it sends is all that is in `out` afterwards. -/
def turn (env : Env) (input : Input) (s : SchedulerHandler) :
    Outcome Error Panic SchedulerHandler Unit :=
  processOnce env input { s with out := [] }

end Inferx
