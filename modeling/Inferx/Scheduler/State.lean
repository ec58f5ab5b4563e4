import Mathlib.Data.Finset.Insert
import Mathlib.Logic.Function.Basic
import Inferx.Lib.Lru
import Inferx.Lib.Proc
import Inferx.Objects
import Inferx.Scheduler.BiIndex

/-!
# The state of the scheduler

`SchedulerHandler` with its maps, as one record. A `WorkerPod` is a shared,
reference-counted cell in the source: the global pod map, the maps of its node
and of its function hold the same cell, and a change of the worker state shows
through all of them. Here the handle carries the reference `ref` together with
the immutable pod object, and the mutable part lives in `workers`, indexed by
reference. Each `WorkerPod::New` takes a fresh reference.

Handlers are procedures on this state (`SchedM`); `Env` is what a handler takes
from outside while it runs: the clock, which response channels still have a
receiver, whether an id could be drawn, the random shuffles. What a handler
sends, answers and RPCs, is appended to `out`.
-/

namespace Inferx

/-! ## Worker pods -/

/-- The scheduler's own view of a pod. -/
inductive WorkerPodState where
  /-- not usable yet -/
  | init
  /-- a standby that can be resumed -/
  | standby
  /-- being resumed -/
  | resuming
  /-- ready and not leased -/
  | idle
  /-- leased by a gateway -/
  | working (gatewayId : ℤ)
  /-- about to go -/
  | terminating
  deriving DecidableEq, Repr

namespace WorkerPodState

/-- Not leased. -/
def isIdle : WorkerPodState → Bool
  | idle => true
  | _ => false

/-- Counts as a replica. -/
def isResumed : WorkerPodState → Bool
  | idle | working _ | resuming => true
  | _ => false

end WorkerPodState

/-- The mutable part of a worker pod. -/
structure WorkerCell where
  /-- the worker state -/
  state : WorkerPodState := .init
  /-- the tenant it is used for, when that is not its own -/
  consumerTenant : Option String := none
  deriving DecidableEq, Repr

/-- The cell of a freshly built worker pod: its state follows from the
reported pod state. -/
def WorkerCell.new (state : PodState) : WorkerCell :=
  match state with
  | .ready => { state := .idle }
  | .standby => { state := .standby }
  | .resuming => { state := .resuming }
  | _ => {}

/-- A handle on a worker pod. -/
structure WorkerPod where
  /-- the shared cell -/
  ref : ℕ
  /-- the pod object -/
  pod : FuncPod
  deriving DecidableEq

/-! ## Per-node and per-function records -/

/-- A reservation whose pod has not been reported yet, or whose resume has not
finished. -/
structure PendingPod where
  /-- the node -/
  nodeName : String
  /-- the pod -/
  podKey : String
  /-- the function -/
  funcId : String
  /-- what is reserved -/
  allocResources : NodeResources
  /-- when -/
  schedulingTime : ℕ := 0
  deriving DecidableEq

/-- What the scheduler knows of a node. -/
structure NodeStatus where
  /-- the node as reported -/
  node : Node
  /-- its capacity -/
  total : NodeResources
  /-- what is left of it -/
  available : NodeResources
  /-- open reservations -/
  pendingPods : BTreeMap String PendingPod := ∅
  /-- the pods on it -/
  pods : BTreeMap String WorkerPod := ∅
  /-- pods on it that are being stopped -/
  stoppingPods : Finset String := ∅
  /-- when it was added -/
  createTime : ℕ := 0
  /-- how far its agent is up -/
  state : NAState
  deriving DecidableEq

/-- A lease request waiting for a pod, with the channel its answer goes to. -/
structure QueuedLease where
  /-- the request -/
  req : LeaseWorkerReq
  /-- when it was queued -/
  time : ℕ
  /-- the response channel -/
  tx : ℕ
  deriving DecidableEq, Repr

/-- What the scheduler knows of a function. -/
structure FuncStatus where
  /-- the function -/
  func : Function
  /-- its pods -/
  pods : BTreeMap String WorkerPod := ∅
  /-- its open reservations -/
  pendingPods : BTreeMap String PendingPod := ∅
  /-- its pods that are being stopped -/
  stoppingPods : Finset String := ∅
  /-- waiting lease requests, oldest first -/
  leaseWorkerReqs : List QueuedLease := []
  deriving DecidableEq

/-! ## Tasks, effects -/

/-- Work the scheduler queues for itself. -/
inductive SchedTask where
  | refreshSnapshot
  | removeSnapshotFromNode (nodeName funckey : String)
  | snapshotTask (funcId nodename : String)
  | nvidiaPodTask (funcId : String)
  | standbyTask (nodename : String)
  | addNode (nodename : String)
  | addFunc (funcId : String)
  | delayedInitNode (nodename : String)
  deriving DecidableEq, Repr

/-- A task and the time it becomes due. -/
structure TimedTask where
  /-- due time -/
  due : ℕ
  /-- the task -/
  task : SchedTask
  deriving DecidableEq, Repr

/-- How scheduling a snapshot went. -/
inductive SnapshotScheduleState where
  | init | done | scheduled
  | scheduleFail (detail : String)
  | cannot (detail : String)
  | waiting (detail : String)
  deriving DecidableEq, Repr

/-- Since when a pod is terminating, and how often stopping it failed. -/
structure TerminatingMeta where
  /-- since when -/
  since : ℕ
  /-- failed attempts -/
  stuckRetryCount : ℕ := 0
  deriving DecidableEq, Repr

/-- An open billing session. -/
structure BillingSession where
  /-- its id -/
  sessionId : ℕ
  /-- when it was opened -/
  startTime : ℕ
  /-- up to when it has been billed -/
  lastTickTime : ℕ
  /-- the billed function -/
  funckey : String
  /-- number of GPUs -/
  gpuCount : ℤ
  /-- MB of video memory -/
  vramMb : ℤ
  deriving DecidableEq, Repr

/-- The position of a tick in its session. -/
inductive TickType where
  | start | periodic | final
  deriving DecidableEq, Repr

/-- What a tick bills. -/
inductive UsageType where
  | snapshot | standby
  deriving DecidableEq, Repr

/-- One billed interval. -/
structure UsageTick where
  /-- the session -/
  session : BillingSession
  /-- when it was emitted -/
  tickTime : ℕ
  /-- the billed milliseconds -/
  intervalMs : ℕ
  /-- its position -/
  tickType : TickType
  /-- what it bills -/
  usageType : UsageType
  deriving DecidableEq, Repr

/-- A `ResumePod` RPC as its completion will report it. -/
structure ResumeRpc where
  /-- the resumed pod -/
  podKey : String
  /-- its node -/
  nodename : String
  /-- what was reserved -/
  resources : NodeResources
  /-- the pods it evicts -/
  terminated : List String
  deriving DecidableEq

/-- A `CreateFuncPod` RPC as its completion will report it. -/
structure StartRpc where
  /-- the function -/
  funcid : String
  /-- the node -/
  nodename : String
  /-- the new pod -/
  podkey : String
  /-- what the pod is for -/
  createType : CreatePodType
  /-- what was reserved -/
  resources : NodeResources
  /-- the pods it evicts -/
  terminated : List String
  deriving DecidableEq

/-- What a handler sends. -/
inductive Effect where
  /-- a lease answer that reached its gateway; `podKey` is the pod it hands out -/
  | leaseResp (tx : ℕ) (req : LeaseWorkerReq) (podKey : Option String) (resp : LeaseWorkerResp)
  /-- a connect answer -/
  | connectResp (tx : ℕ) (error : String)
  /-- a return answer -/
  | returnResp (tx : ℕ) (error : String)
  /-- a kill answer -/
  | killResp (tx : ℕ) (status : KillPodStatus)
  /-- a resume RPC -/
  | resumeWorker (rpc : ResumeRpc)
  /-- a create RPC -/
  | startWorker (rpc : StartRpc)
  /-- a terminate RPC -/
  | stopWorker (podKey : String)
  /-- a remove-snapshot RPC -/
  | removeSnapshot (funckey nodename : String)
  /-- an update of a function status in the store -/
  | updateFuncStatus (status : FunctionStatus)
  /-- a billing tick -/
  | usageTick (tick : UsageTick)
  deriving DecidableEq

/-! ## The handler -/

/-- Settings of the scheduler. -/
structure SchedulerConfig where
  /-- bill snapshot creation -/
  enableSnapshotBilling : Bool := false
  /-- policy overrides of the platform's shared functions -/
  inferxEndpointFuncDefaultPolicy : FuncPolicySchedulerDefaults := {}
  deriving DecidableEq, Repr

/-- The scheduler's state. -/
structure SchedulerHandler where
  /-- node to epoch -/
  nodeEpoch : BTreeMap String ℤ := ∅
  /-- all pods -/
  pods : BTreeMap String WorkerPod := ∅
  /-- gateway to time of its last refresh -/
  gateways : BTreeMap ℤ ℕ := ∅
  /-- the nodes -/
  nodes : BTreeMap String NodeStatus := ∅
  /-- pods whose node is not known yet -/
  nodePods : BTreeMap String (BTreeMap String WorkerPod) := ∅
  /-- the functions -/
  funcs : BTreeMap String FuncStatus := ∅
  /-- stored status of the functions -/
  funcstatus : BTreeMap String FunctionStatus := ∅
  /-- the tenants -/
  tenants : BTreeMap String Tenant := ∅
  /-- function to node to snapshot -/
  snapshots : BTreeMap String (BTreeMap String ContainerSnapshot) := ∅
  /-- function to nodes where a snapshot is being made -/
  pendingsnapshots : BTreeMap String (Finset String) := ∅
  /-- the idle pods -/
  idlePods : LruCache String := .unbounded
  /-- the pods marked terminating -/
  terminatingPods : BTreeMap String TerminatingMeta := ∅
  /-- pods whose function is not known yet -/
  funcPods : BTreeMap String (BTreeMap String WorkerPod) := ∅
  /-- how scheduling each snapshot went -/
  snapshotSched : BiIndex SnapshotScheduleState := {}
  /-- the stored policies -/
  funcpolicy : BTreeMap String FuncPolicySpec := ∅
  /-- initial lists -/
  nodeListDone : Bool := false
  /-- initial lists -/
  funcListDone : Bool := false
  /-- initial lists -/
  funcstatusListDone : Bool := false
  /-- initial lists -/
  funcPodListDone : Bool := false
  /-- initial lists -/
  snapshotListDone : Bool := false
  /-- initial lists -/
  funcpolicyDone : Bool := false
  /-- all initial lists are in -/
  listDone : Bool := false
  /-- start of the warm-up -/
  warmupStartTime : Option ℕ := none
  /-- the warm-up is over -/
  warmupComplete : Bool := false
  /-- tasks to run, oldest first -/
  taskQueue : List SchedTask := []
  /-- tasks to run later -/
  delayedTasks : List TimedTask := []
  /-- remove-snapshot RPCs in flight, as `funckey:nodename` -/
  pendingSnapshotRemovals : Finset String := ∅
  /-- open snapshot billing sessions, by pod -/
  snapshotBillingSessions : BTreeMap String BillingSession := ∅
  /-- open standby billing sessions, by function -/
  standbyBillingSessions : BTreeMap String BillingSession := ∅
  /-- settings -/
  config : SchedulerConfig := {}
  /-- the known peers, by pod network -/
  peers : BTreeMap UInt32 Peer := ∅
  /-- the shared cells of the worker pods -/
  workers : ℕ → WorkerCell := fun _ => {}
  /-- the next free cell -/
  nextWorker : ℕ := 0
  /-- the last id drawn for a pod -/
  lastUid : ℕ := 0
  /-- the last id drawn for a billing session -/
  lastSession : ℕ := 0
  /-- what the running handler has sent, oldest first -/
  out : List Effect := []

/-- What a handler takes from outside while it runs. -/
structure Env where
  /-- the clock, in milliseconds -/
  now : ℕ := 0
  /-- does the response channel still have a receiver? -/
  alive : ℕ → Bool := fun _ => true
  /-- can an id be drawn? -/
  uidOk : Bool := true
  /-- does the store accept a function status within three attempts? -/
  statusUpdateOk : Bool := true
  /-- the random shuffle -/
  shuffle : List String → List String := fun l => l
  /-- a shuffle is a permutation -/
  shuffle_perm : ∀ l, (shuffle l).Perm l := by exact fun l => List.Perm.refl l

/-- A handler of the scheduler. -/
abbrev SchedM (α : Type) : Type := Proc Error Panic SchedulerHandler α

end Inferx
