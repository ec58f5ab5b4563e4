import Inferx.Scheduler.Gateway

/-!
# Completions

How the RPCs end. A failed RPC is rolled back only if it is certain that it
never reached the node agent (`isSafeToRestore`); any other failure of a resume
or a start is a panic. The roll-back gives the reserved resources back and puts
the evicted pods back into the idle pool.
-/

namespace Inferx

open Proc

/-- `str::contains`. -/
def containsText (text pattern : String) : Bool := decide (pattern.toList <:+: text.toList)

/-- Is it certain that a failed RPC has not been executed? -/
def isSafeToRestore : Error → Bool
  | .tonicTransportErr text =>
    containsText text "Connection refused" || containsText text "ConnectionRefused"
      || containsText text "dns error" || containsText text "failed to lookup"
      || containsText text "No route to host" || containsText text "Network unreachable"
  | .tonicStatus code => code == .unavailable || code == .unimplemented
  | .commonError msg =>
    containsText msg "Connection refused" || containsText msg "ConnectionRefused"
  | _ => false

namespace SchedulerHandler

/-- Put one evicted pod back into the idle pool, if it is still being stopped. -/
def restoreTerminated (s : SchedulerHandler) (podKey : String) : SchedulerHandler :=
  match s.pods[podKey]? with
  | none => s
  | some worker =>
    match s.nodes[worker.pod.nodename]? with
    | none => s
    | some ns =>
      if podKey ∈ ns.stoppingPods then
        (((s.modifyNode worker.pod.nodename (·.removeStoppingPod podKey)).setState worker
          .idle).putIdle podKey).modifyFunc worker.pod.funcKey (·.removeStoppingPod podKey)
      else s

/-- Drop a reservation of a function. -/
def dropFuncPending (s : SchedulerHandler) (funcid podKey : String) : SchedulerHandler :=
  s.modifyFunc funcid fun fs => { fs with pendingPods := fs.pendingPods.erase podKey }

/-- Drop a reservation of a node. -/
def dropNodePending (s : SchedulerHandler) (nodename podKey : String) : SchedulerHandler :=
  s.modifyNode nodename fun ns => { ns with pendingPods := ns.pendingPods.erase podKey }

/-- Take the oldest lease request off a function's queue. -/
def popLeaseWorkerReq (s : SchedulerHandler) (funcid : String) : SchedulerHandler :=
  s.modifyFunc funcid fun fs => { fs with leaseWorkerReqs := fs.leaseWorkerReqs.tail }

end SchedulerHandler

/-- The oldest lease request of a function fails, if there is one. -/
def failOneLease (env : Env) (funcid : String) : SchedM Unit := do
  let s ← get
  match s.funcs[funcid]? with
  | none => return ()
  | some fs =>
    match fs.leaseWorkerReqs with
    | [] => return ()
    | q :: _ =>
      modify (·.popLeaseWorkerReq funcid)
      sendIfAlive env q.tx (.leaseResp q.tx q.req none
        { error := "Resume RPC failed (safe to restore). Gateway should retry." })

/-- The resume of a pod is rolled back: it is a standby pod again. -/
def restoreStandby (env : Env) (podKey : String) : SchedM Unit := do
  let s ← get
  match s.pods[podKey]? with
  | none => crash .resumePodMissing
  | some worker =>
    modify (·.setState worker .standby)
    modify (·.dropFuncPending worker.pod.funcKey podKey)
    failOneLease env worker.pod.funcKey

/-- A resume RPC has ended; `none` is success. -/
def processResumeWorkerComplete (env : Env) (rpc : ResumeRpc) (result : Option Error) :
    SchedM Unit := do
  match result with
  | none => return ()
  | some e =>
    if isSafeToRestore e then
      freeNodeResource rpc.nodename rpc.resources
      modify (·.dropNodePending rpc.nodename rpc.podKey)
      restoreStandby env rpc.podKey
      modify (rpc.terminated.foldl SchedulerHandler.restoreTerminated ·)
    else crash .resumeNotSafe

/-- A create RPC has ended; `none` is success. -/
def processStartWorkerComplete (env : Env) (rpc : StartRpc) (result : Option Error) :
    SchedM Unit := do
  match result with
  | none => return ()
  | some e =>
    if isSafeToRestore e then
      modify (·.dropNodePending rpc.nodename rpc.podkey)
      freeNodeResource rpc.nodename rpc.resources
      modify (·.dropFuncPending rpc.funcid rpc.podkey)
      modify fun s =>
        if rpc.createType = .snapshot then s.removePendingSnapshot rpc.funcid rpc.nodename else s
      modify (rpc.terminated.foldl SchedulerHandler.restoreTerminated ·)
      if rpc.createType = .snapshot then addSnapshotTask env rpc.nodename rpc.funcid
      else return ()
    else crash .startNotSafe

/-- Put one evicted pod back into the idle pool and allocate for it again. -/
def restoreDuplicate (podKey : String) : SchedM Unit := do
  let s ← get
  match s.pods[podKey]? with
  | none => return ()
  | some pod =>
    modify fun s =>
      ((s.modifyNode pod.pod.nodename (·.removeStoppingPod podKey)).modifyFunc pod.pod.funcKey
        (·.removeStoppingPod podKey)).putIdle podKey
    match s.nodes[pod.pod.nodename]? with
    | none => return ()
    | some _ => ignore (allocOnNode pod.pod.nodename pod.pod.reqResources false)

/-- The node already has the snapshot: undo the creation. -/
def processCleanupDuplicateSnapshot (rpc : StartRpc) : SchedM Unit := do
  modify (·.removePendingSnapshot rpc.funcid rpc.nodename)
  modify (·.dropNodePending rpc.nodename rpc.podkey)
  freeNodeResource rpc.nodename rpc.resources
  modify (·.dropFuncPending rpc.funcid rpc.podkey)
  each restoreDuplicate rpc.terminated

namespace SchedulerHandler

/-- A terminate RPC has ended: count the failures. -/
def processStopWorkerComplete (s : SchedulerHandler) (podKey : String) (ok : Bool) :
    SchedulerHandler :=
  { s with
    terminatingPods := s.terminatingPods.modify podKey fun m =>
      { m with stuckRetryCount := if ok then 0 else m.stuckRetryCount + 1 } }

/-- A remove-snapshot RPC has ended. -/
def processRemoveSnapshotComplete (s : SchedulerHandler) (funckey nodename : String) (ok : Bool) :
    SchedulerHandler :=
  let s := { s with
    pendingSnapshotRemovals := s.pendingSnapshotRemovals.erase s!"{funckey}:{nodename}" }
  if ok then { s with snapshots := s.snapshots.removeInner funckey nodename } else s

end SchedulerHandler

end Inferx
