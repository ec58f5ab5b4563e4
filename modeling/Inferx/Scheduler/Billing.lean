import Inferx.Scheduler.Basic
import Inferx.Text

/-!
# Billing sessions

Two kinds of sessions are kept beside the pods. A snapshot session bills a
snapshot pod from its arrival to its removal and is kept by pod; a standby
session bills a function as long as one of its snapshots is loaded and is kept
by function. Opening a session emits a start tick, closing it a final tick for
the time since the last one, and the main loop emits periodic ticks between.
-/

namespace Inferx

open Proc

/-- Open a session for a snapshot pod that uses GPUs. -/
def startSnapshotPodBilling (env : Env) (pod : FuncPod) : SchedM Unit := do
  let s ← get
  let gpuCount := asI32 pod.reqResources.gpu.gpuCount
  let gpus := pod.allocResources.gpus
  if !s.config.enableSnapshotBilling then return ()
  else if 2 ^ 64 ≤ gpus.totalSlotCnt.toNat * gpus.slotSize.toNat then crash (.fault .overflow)
  else if gpuCount = 0 then return ()
  else
    let session : BillingSession :=
      { sessionId := s.lastSession + 1
        startTime := env.now
        lastTickTime := env.now
        funckey := pod.funcKey
        gpuCount
        vramMb := asI64 pod.reqResources.gpu.vRam }
    modify fun s => { s with
      lastSession := s.lastSession + 1
      out := s.out ++ [.usageTick ⟨session, env.now, 0, .start, .snapshot⟩]
      snapshotBillingSessions := s.snapshotBillingSessions.insert pod.podKey session }

namespace SchedulerHandler

/-- Close the session of a snapshot pod, if there is one. -/
def endSnapshotPodBilling (env : Env) (s : SchedulerHandler) (podKey : String) :
    SchedulerHandler :=
  if !s.config.enableSnapshotBilling then s
  else
    match s.snapshotBillingSessions[podKey]? with
    | none => s
    | some session =>
      { s with
        snapshotBillingSessions := s.snapshotBillingSessions.erase podKey
        out := s.out ++
          [.usageTick ⟨session, env.now, env.now - session.lastTickTime, .final, .snapshot⟩] }

/-- Close the session of a function, if there is one. -/
def endStandbyBilling (env : Env) (s : SchedulerHandler) (funckey : String) : SchedulerHandler :=
  match s.standbyBillingSessions[funckey]? with
  | none => s
  | some session =>
    { s with
      standbyBillingSessions := s.standbyBillingSessions.erase funckey
      out := s.out ++
        [.usageTick ⟨session, env.now, env.now - session.lastTickTime, .final, .standby⟩] }

/-- The periodic ticks of a set of sessions: one for each with time to bill. -/
def periodicTicks (env : Env) (usage : UsageType) (sessions : BTreeMap String BillingSession) :
    List Effect :=
  (sessions.toList.filter fun p => 0 < env.now - p.2.lastTickTime).map fun p =>
    .usageTick ⟨p.2, env.now, env.now - p.2.lastTickTime, .periodic, usage⟩

/-- The sessions after their periodic ticks. -/
def tickSessions (env : Env) (sessions : BTreeMap String BillingSession) :
    BTreeMap String BillingSession :=
  sessions.map fun _ session =>
    if 0 < env.now - session.lastTickTime then { session with lastTickTime := env.now }
    else session

/-- Bill all open snapshot sessions up to now. -/
def emitPeriodicBillingTicks (env : Env) (s : SchedulerHandler) : SchedulerHandler :=
  if !s.config.enableSnapshotBilling then s
  else
    { s with
      out := s.out ++ periodicTicks env .snapshot s.snapshotBillingSessions
      snapshotBillingSessions := tickSessions env s.snapshotBillingSessions }

/-- Bill all open standby sessions up to now. -/
def emitPeriodicStandbyTicks (env : Env) (s : SchedulerHandler) : SchedulerHandler :=
  { s with
    out := s.out ++ periodicTicks env .standby s.standbyBillingSessions
    standbyBillingSessions := tickSessions env s.standbyBillingSessions }

end SchedulerHandler

/-- Does a key have the four parts of a function key, the last a number? -/
def isFuncKey (funckey : String) : Bool :=
  match funckey.toList.splitOn '/' with
  | _ :: _ :: _ :: revision :: _ => (parseI64 revision).isSome
  | _ => false

/-- Open a session for a function, unless it has one. -/
def startStandbyBilling (env : Env) (funckey : String) : SchedM Unit := do
  let s ← get
  if s.standbyBillingSessions.contains funckey then return ()
  else
    match s.funcs[funckey]? with
    | none => return ()
    | some fs =>
      let gpu := fs.func.resources.gpu
      let gpuCount := asI32 gpu.gpuCount
      let vramMb := asI64 gpu.vRam
      if gpuCount = 0 then return ()
      else if gpuCount * vramMb < -(2 ^ 63) ∨ 2 ^ 63 ≤ gpuCount * vramMb then
        crash (.fault .overflow)
      else if isFuncKey funckey then
        let session : BillingSession :=
          { sessionId := s.lastSession + 1
            startTime := env.now
            lastTickTime := env.now
            funckey
            gpuCount
            vramMb }
        modify fun s => { s with
          lastSession := s.lastSession + 1
          out := s.out ++ [.usageTick ⟨session, env.now, 0, .start, .standby⟩]
          standbyBillingSessions := s.standbyBillingSessions.insert funckey session }
      else return ()

/-- Open a session for every function with a loaded snapshot. -/
def recoverStandbyBilling (env : Env) : SchedM Unit := do
  let s ← get
  let loaded := s.snapshots.toList.filter fun p =>
    p.2.toList.any fun q => q.2.state == .ready
  each (startStandbyBilling env) (loaded.map Prod.fst)

end Inferx
