import Mathlib.Algebra.BigOperators.Group.List.Basic
import Mathlib.Algebra.Ring.Nat
import Mathlib.Logic.Function.Basic

/-!
# Workers and their billing ticks

A `FuncWorker` leases a pod, serves requests with it, and is finished by a close, by
idling too long or by failures. Its GPU time is billed by ticks: one when the lease
starts, one every minute from whichever loop the worker is in, and one for the rest
when it is finished. What the ticks say of the GPUs is looked up once, when the
lease starts, in a cache of pods that another stream fills.

`LeaseBilled` is what the ticks of a lease should amount to. Times are in
nanoseconds, of one clock.
-/

namespace Inferx.Gateway.FuncWorker

/-! ## Data -/

/-- One millisecond. -/
def milli : ℕ := 1000000

/-- `as i32`. -/
def asI32 (x : UInt64) : ℤ := Int.bmod x.toNat (2 ^ 32)

/-- `as i64`. -/
def asI64 (x : UInt64) : ℤ := Int.bmod x.toNat (2 ^ 64)

/-- What is read of a pod. -/
structure FuncPod where
  nodename : String
  gpuType : String
  gpuCount : UInt64
  /-- megabytes -/
  vRam : UInt64
  /-- bytes -/
  totalVRam : UInt64
  deriving DecidableEq

/-- `GpuTrackingInfo`. -/
structure GpuTrackingInfo where
  nodename : String := ""
  gpuType : String := ""
  gpuCount : ℤ := 0
  vramMb : ℤ := 0
  totalVramMb : ℤ := 0
  leaseStart : Option ℕ := none
  isColdstart : Bool := false
  sessionId : Option String := none
  lastTickTime : Option ℕ := none

/-- `tick_type`. -/
inductive TickType where
  | start
  | periodic
  | final
  deriving DecidableEq

/-- `UsageTick`. -/
structure UsageTick where
  sessionId : String
  tenant : String
  callerTenant : Option String
  nameSpace : String
  funcname : String
  fprevision : ℤ
  nodename : String
  podId : ℤ
  gatewayId : ℤ
  gpuType : String
  gpuCount : ℤ
  vramMb : ℤ
  totalVramMb : ℤ
  tickTime : ℕ
  intervalMs : ℕ
  tickType : TickType
  usageType : String := "request"
  isColdstart : Bool

/-- When the interval of a tick begins. -/
def UsageTick.since (t : UsageTick) : ℕ := t.tickTime - t.intervalMs * milli

/-- Who the worker is. -/
structure Ident where
  tenant : String
  nameSpace : String
  funcname : String
  physicalTenant : String
  physicalNamespace : String
  physicalFuncname : String
  fprevision : ℤ
  gatewayId : ℤ

/-- `FuncWorkerState`. -/
inductive FuncWorkerState where
  | init
  | idle
  | processing
  | finish
  deriving DecidableEq

/-- Where `Process` is. -/
inductive Pc where
  /-- waits for the lease -/
  | leasing
  /-- at the head of the loop -/
  | top
  /-- in one of the two loops of an idle worker -/
  | idle (scaleIn : Bool)
  /-- connects the requests it has taken, with their callers -/
  | serve (reqs : List (Option String))
  /-- in one of the two selects of a busy worker -/
  | select (room : Bool)
  /-- takes the other requests that are done -/
  | drain
  /-- has returned -/
  | stopped
  deriving DecidableEq

/-- A worker. -/
structure Worker where
  ident : Ident
  pc : Pc := .leasing
  state : FuncWorkerState := .init
  id : ℤ := -1
  info : GpuTrackingInfo := {}
  /-- `billingContext.caller_tenant` -/
  callerTenant : Option String := none
  ongoingReqCnt : ℕ := 0
  failCount : ℕ := 0
  now : ℕ := 0
  /-- the pods in the cache of the gateway, by name -/
  pods : String → Option FuncPod := fun _ => none
  /-- the ticks that were emitted -/
  ticks : List UsageTick := []
  /-- the pod that was leased -/
  leased : Option FuncPod := none
  /-- when the lease started -/
  leasedAt : Option ℕ := none
  /-- when the worker was finished -/
  finishedAt : Option ℕ := none

namespace Worker

variable (w : Worker)

/-! ## Ticks -/

/-- A tick of this worker, now. -/
def tickOf (sessionId : String) (tickType : TickType) (intervalMs : ℕ) : UsageTick where
  sessionId := sessionId
  tenant := w.ident.tenant
  callerTenant := w.callerTenant
  nameSpace := w.ident.nameSpace
  funcname := w.ident.funcname
  fprevision := w.ident.fprevision
  nodename := w.info.nodename
  podId := w.id
  gatewayId := w.ident.gatewayId
  gpuType := w.info.gpuType
  gpuCount := w.info.gpuCount
  vramMb := w.info.vramMb
  totalVramMb := w.info.totalVramMb
  tickTime := w.now
  intervalMs := intervalMs
  tickType := tickType
  isColdstart := w.info.isColdstart

def insertStartBillingTick : Worker :=
  match w.info.sessionId with
  | none => w
  | some sessionId =>
    if w.info.gpuCount = 0 then w
    else { w with ticks := w.ticks ++ [w.tickOf sessionId .start 0] }

def insertBillingTick : Worker :=
  match w.info.sessionId, w.info.lastTickTime with
  | some sessionId, some lastTick =>
    if w.info.gpuCount = 0 then w
    else
      { w with
        ticks := w.ticks ++ [w.tickOf sessionId .periodic ((w.now - lastTick) / milli)]
        info := { w.info with lastTickTime := some w.now, isColdstart := false } }
  | _, _ => w

def insertFinalBillingTick : Worker :=
  match w.info.sessionId, w.info.lastTickTime with
  | some sessionId, some lastTick =>
    if w.info.gpuCount = 0 then w
    -- nothing is billed for less than 100 ms
    else if (w.now - lastTick) / milli < 100 then w
    else
      { w with
        ticks := w.ticks ++ [w.tickOf sessionId .final ((w.now - lastTick) / milli)]
        info := { w.info with sessionId := none, lastTickTime := none } }
  | _, _ => w

/-! ## `Process` -/

/-- The name of a pod in the cache. -/
def podName (id : ℤ) : String :=
  w.ident.physicalTenant ++ "/" ++ w.ident.physicalNamespace ++ "/" ++ w.ident.physicalFuncname ++ "/" ++
    toString w.ident.fprevision ++ "/" ++ toString id

/-- What is tracked of the pod that was leased. -/
def trackingInfo (id : ℤ) (keepalive : Bool) (sessionId : String) : GpuTrackingInfo :=
  let info : GpuTrackingInfo :=
    { leaseStart := some w.now, isColdstart := !keepalive, sessionId := some sessionId
      lastTickTime := some w.now }
  match w.pods (w.podName id) with
  | some pod =>
    { info with
      nodename := pod.nodename
      gpuType := pod.gpuType
      gpuCount := asI32 pod.gpuCount
      vramMb := asI64 pod.vRam
      totalVramMb := asI64 (pod.totalVRam / 1024 / 1024) }
  -- pod not found in cache
  | none => info

/-- The lease is answered, with the pod `pod`. -/
def leaseAnswer (id : ℤ) (keepalive : Bool) (sessionId : String) (pod : FuncPod) : Worker :=
  let w' := insertStartBillingTick { w with id := id, info := w.trackingInfo id keepalive sessionId }
  { w' with pc := .top, state := .processing, leased := some pod, leasedAt := some w.now }

/-- `FinishWorker`, and `Process` returns. -/
def finishWorker : Worker :=
  { w.insertFinalBillingTick with state := .finish, pc := .stopped, finishedAt := some w.now }

/-- `HandleReturn`: the fourth failure in a row finishes the worker. -/
def handleReturn (fail : Bool) : Worker :=
  let w' := { w with ongoingReqCnt := w.ongoingReqCnt - 1 }
  if fail && w.failCount == 3 then { w' with failCount := w.failCount + 1 }.finishWorker
  else
    { w' with
      failCount := if fail then w.failCount + 1 else 0
      state := if w.ongoingReqCnt = 1 then .idle else w.state
      pc := .drain }

end Worker

/-- What can happen. -/
inductive Input where
  /-- the cache of pods changes -/
  | podEvent (name : String) (pod : Option FuncPod)
  /-- time passes -/
  | clock (d : ℕ)
  /-- the lease fails -/
  | leaseFails
  /-- the lease is answered -/
  | leaseAnswer (id : ℤ) (keepalive : Bool) (sessionId : String) (pod : FuncPod)
  /-- the head of the loop: is it the last worker, how many requests at a time, and which are taken -/
  | loop (scaleIn : Bool) (parallelLevel : ℕ) (reqs : List (Option String))
  /-- the next request is connected, or fails to be -/
  | connect (ok : Bool)
  /-- the requests that were taken are connected -/
  | served (parallelLevel : ℕ)
  /-- `closeNotify` -/
  | close
  /-- `NeedLastWorker` or `WaitReq` -/
  | needed
  /-- the worker has been idle for `keepaliveTime` -/
  | idleTimeout
  /-- `billing_tick_interval` -/
  | billingTick
  /-- a request is done -/
  | requestDone (fail : Bool)
  /-- no other request is done -/
  | drained

namespace Worker

variable (w : Worker)

/-- One input. -/
def next : Input → Option Worker
  | .podEvent name pod => some { w with pods := Function.update w.pods name pod }
  | .clock d => some { w with now := w.now + d }
  | .leaseFails => if w.pc = .leasing then some { w with pc := .stopped } else none
  | .leaseAnswer id keepalive sessionId pod =>
    if w.pc = .leasing then some (w.leaseAnswer id keepalive sessionId pod) else none
  | .loop scaleIn parallelLevel reqs =>
    if w.pc = .top then
      match w.state with
      | .idle => some { w with pc := .idle scaleIn }
      | .processing =>
        -- a level that was lowered below the count makes the difference fail, and nothing goes on
        if reqs.length + w.ongoingReqCnt ≤ parallelLevel then
          some { w with pc := .serve reqs, ongoingReqCnt := w.ongoingReqCnt + reqs.length }
        else none
      | _ => none
    else none
  | .connect ok =>
    match w.pc with
    | .serve (caller :: reqs) =>
      if ok then some { w with callerTenant := caller, pc := .serve reqs }
      else some { w with callerTenant := caller }.finishWorker
    | _ => none
  | .served parallelLevel =>
    if w.pc = .serve [] then
      if w.ongoingReqCnt = 0 then some { w with state := .idle, pc := .top }
      else some { w with pc := .select (decide (w.ongoingReqCnt < parallelLevel)) }
    else none
  | .close =>
    match w.pc with
    | .idle _ => some w.finishWorker
    | .select _ => some w.finishWorker
    | _ => none
  | .needed =>
    match w.pc with
    | .idle _ => some { w with state := .processing, pc := .top }
    | .select true => some { w with pc := .top }
    | _ => none
  | .idleTimeout =>
    match w.pc with
    | .idle _ => some w.finishWorker
    | _ => none
  | .billingTick =>
    match w.pc with
    | .idle _ => some w.insertBillingTick
    | .select _ => some { w.insertBillingTick with pc := .top }
    | _ => none
  | .requestDone fail =>
    match w.pc with
    | .select _ => if 0 < w.ongoingReqCnt then some (w.handleReturn fail) else none
    | .drain => if 0 < w.ongoingReqCnt then some (w.handleReturn fail) else none
    | _ => none
  | .drained => if w.pc = .drain then some { w with pc := .top } else none

/-! ## The specification -/

/-- The milliseconds that are billed. -/
def billedMs : ℕ := (w.ticks.map UsageTick.intervalMs).sum

/-- **Leased GPU time is billed.** -/
structure Billed (pod : FuncPod) : Prop where
  /-- each tick is for the GPUs of the pod -/
  gpus : ∀ t ∈ w.ticks, t.gpuCount = pod.gpuCount.toNat
  /-- no time is billed twice -/
  disjoint : w.ticks.Pairwise fun a b => a.tickTime ≤ b.since
  /-- nothing is billed that was not leased, and nothing but little is left out -/
  total : ∀ start finish, w.leasedAt = some start → w.finishedAt = some finish →
    start + w.billedMs * milli ≤ finish ∧
      finish ≤ start + w.billedMs * milli + 100 * milli + w.ticks.length * milli
  /-- the final tick is the last one -/
  final : w.ticks.Pairwise fun a _ => a.tickType ≠ .final

/-- A pod with GPUs that was leased is billed. -/
def LeaseBilled : Prop := ∀ pod, w.leased = some pod → 0 < pod.gpuCount → w.Billed pod

/-- When the lease of a pod with GPUs is answered the cache has the pod, and its GPUs fit into an
`i32`. -/
def Visible : Input → Prop
  | .leaseAnswer id _ _ pod => 0 < pod.gpuCount →
    (w.pods (w.podName id)).map FuncPod.gpuCount = some pod.gpuCount ∧ pod.gpuCount.toNat < 2 ^ 31
  | _ => True

/-- A worker that has just been made. -/
def Fresh : Prop := ∃ ident now pods, w = { ident := ident, now := now, pods := pods }

end Worker

end Inferx.Gateway.FuncWorker
