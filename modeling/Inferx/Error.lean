import Mathlib.Data.String.Basic

/-!
# Errors and panics

`Error` holds the constructors of the common error type that the modelled code
builds or inspects; `Panic` names the places where it asserts, unwraps or
declares a branch unreachable, with the panics of pure computations, `Fault`,
as one case. The service ships as a debug build, so integer
overflow is one of them.
-/

namespace Inferx

/-- Which of the five checks of a resource request passed. -/
structure AllocState where
  /-- enough cpu -/
  cpu : Bool
  /-- enough memory -/
  memory : Bool
  /-- enough cache memory -/
  cacheMem : Bool
  /-- the GPU type fits -/
  gpuType : Bool
  /-- enough GPUs with room -/
  gpu : Bool
  deriving DecidableEq, Repr

/-- All checks passed. -/
def AllocState.ok (a : AllocState) : Bool :=
  a.cpu && a.memory && a.cacheMem && a.gpuType && a.gpu

/-- The gRPC status codes. -/
inductive StatusCode where
  | ok | cancelled | unknown | invalidArgument | deadlineExceeded | notFound | alreadyExists
  | permissionDenied | resourceExhausted | failedPrecondition | aborted | outOfRange
  | unimplemented | internal | unavailable | dataLoss | unauthenticated
  deriving DecidableEq, Repr

/-- The errors the modelled services and their helpers return. -/
inductive Error where
  /-- a free-text error -/
  | commonError (msg : String)
  /-- something is not there -/
  | notExist (msg : String)
  /-- something is there already -/
  | exist (msg : String)
  /-- no peer for an address -/
  | peerNotExist (msg : String)
  /-- the scheduler refuses -/
  | schedulerErr (msg : String)
  /-- no node has the resources -/
  | schedulerNoEnoughResource (msg : String)
  /-- an allocation failed its checks -/
  | scheduleFail (state : AllocState)
  /-- an RPC answered with a status -/
  | tonicStatus (code : StatusCode)
  /-- an RPC failed in transport; the text is its debug form -/
  | tonicTransportErr (text : String)
  /-- a key that should be new is there -/
  | newKeyExistsErr (key : String) (rv : Int)
  /-- an update expects another revision -/
  | updateRevNotMatchErr (expectRv actualRv : Int)
  /-- a deletion expects another revision -/
  | deleteRevNotMatchErr (expectRv actualRv : Int)
  /-- an operation of etcd failed -/
  | etcdError (text : String)
  /-- waited too long -/
  | timeout (ms : Nat)
  /-- a JSON value does not have the expected shape -/
  | serdeJsonError (text : String)
  deriving DecidableEq, Repr

/-- The panics of computations that only read. -/
inductive Fault where
  /-- integer overflow or underflow -/
  | overflow
  /-- division by a zero slot size -/
  | divideByZero
  /-- `GPUResourceMap::Add` is given a negative amount -/
  | gpuAddNegative
  /-- `GPUResourceMap::Add` frees more slots than the node has -/
  | gpuAddOverTotal
  /-- `GPUResourceMap::Sub` with another slot size -/
  | gpuSubSlotSize
  /-- `GPUResourceMap::Sub` is given a negative amount -/
  | gpuSubNegative
  /-- `GPUResourceMap::Sub` of a GPU the node does not have -/
  | gpuSubMissing
  /-- `GPUResourceMap::Alloc` of no slots -/
  | gpuAllocNoSlots
  /-- `GPUResourceMap::Alloc` of a GPU the node does not have -/
  | gpuAllocMissing
  /-- `NodeResources::Add` with another GPU type -/
  | gpuTypeMismatch
  /-- a snapshot lookup is unwrapped and there is none -/
  | snapshotMissing
  /-- a node lookup is unwrapped and there is none -/
  | nodeMissing
  deriving DecidableEq, Repr

/-- The places where the modelled code panics. -/
inductive Panic where
  /-- a computation panics -/
  | fault (f : Fault)
  /-- `AddPod` of a tracked pod -/
  | addPodExists
  /-- `UpdatePod` of an untracked pod -/
  | updatePodMissing
  /-- `NodeStatus::UpdatePod` of a pod the node does not hold -/
  | nodeUpdatePodMissing
  /-- `FuncStatus::UpdatePod` of a pod the function does not hold -/
  | funcUpdatePodMissing
  /-- `RemovePod` of an untracked pod -/
  | removePodMissing
  /-- `AddSnapshotTask` for an unknown function -/
  | snapshotTaskFuncMissing
  /-- a pod chosen from the idle pool is not in it -/
  | idlePodMissing
  /-- `SetWorking` on a terminating pod -/
  | setWorkingTerminating
  /-- `SetWorking` on a standby or resuming pod -/
  | setWorkingResuming
  /-- a host address does not parse -/
  | hostIp
  /-- a response is sent to a dropped receiver and the result unwrapped -/
  | sendFailed
  /-- `ResumeWorker` failed and may have been executed -/
  | resumeNotSafe
  /-- the pod of a failed resume is not tracked -/
  | resumePodMissing
  /-- `StartWorker` failed and may have been executed -/
  | startNotSafe
  /-- a surviving pod is neither standby nor ready in a reconciliation -/
  | reconcileState
  /-- the function status update was refused three times -/
  | funcStatusUpdate
  /-- the task channel is full -/
  | taskQueueFull
  /-- the clock is behind the time a lease request was queued -/
  | clockBehind
  /-- the pod network of a new node already has a peer -/
  | peerExists
  /-- the pod network of a removed node has no peer -/
  | peerMissing
  deriving DecidableEq, Repr

end Inferx
