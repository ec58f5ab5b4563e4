import Inferx.Lib.Runs
import Inferx.Scheduler.Epochs

/-!
# What a handler does to the pods

A turn of the main loop runs one handler, or, when its main timer has fired,
several of them one after the other (`processOnce_eq`). The results about runs
are about the handlers one by one, so that they also speak of the states in the
middle of a turn.

`Handler.acts` collects what each handler does to which pods, `Handler.IndexOk`
when it keeps the index sound, `Handler.FullOk` and `Handler.CoherentOk` when it
keeps it full and coherent, and `Handler.Panics` the panics that the pod maps and the idle pool can cause.
`run_evolves` puts the specifications of all handlers together under these
names; every invariant of the pods is an induction over runs with this theorem
as its step.
-/

namespace Inferx

open Proc SchedulerHandler

/-! ## Handlers -/

/-- The handlers of the main loop. -/
inductive Handler where
  /-- a message -/
  | msg (m : WorkerHandlerMsg)
  /-- a store event -/
  | event (e : DeltaEvent)
  /-- the oldest queued task -/
  | task
  /-- the delayed tasks that are due -/
  | delayTick
  /-- the periodic snapshot billing -/
  | billingTick
  /-- the periodic standby billing -/
  | standbyTick
  /-- the end of the warm-up -/
  | warmup
  /-- the periodic prewarming -/
  | refresh
  /-- the pods of functions that are gone -/
  | cleanPods
  /-- the snapshots of functions that are gone -/
  | cleanSnapshots
  /-- the gateways that are gone -/
  | gatewayTimeout
  /-- the lease requests that have waited too long -/
  | stuckLeases

/-- Run a handler. -/
def Handler.run (env : Env) : Handler → SchedM Unit
  | .msg m => processMsg env m
  | .event e => processEvent env e
  | .task => processNextTask env
  | .delayTick => drainDueDelayedTasks env
  | .billingTick => modify (SchedulerHandler.emitPeriodicBillingTicks env)
  | .standbyTick => modify (SchedulerHandler.emitPeriodicStandbyTicks env)
  | .warmup => checkAndCompleteWarmup env
  | .refresh => refreshScheduling env
  | .cleanPods => Inferx.cleanPods env
  | .cleanSnapshots => Inferx.cleanSnapshots
  | .gatewayTimeout => modify (SchedulerHandler.processGatewayTimeout env)
  | .stuckLeases => modify (SchedulerHandler.reconcileAllStuckLeaseRequests env · 30000)

/-- **Turns are handlers.** A turn of the main loop runs some handlers one after
the other. -/
theorem processOnce_eq (env : Env) (input : Input) (s : SchedulerHandler) :
    ∃ hs : List Handler, processOnce env input s = each (Handler.run env) hs s := by
  have hone : ∀ h : Handler, h.run env s = each (Handler.run env) [h] s := by
    intro h
    unfold each each
    rw [bind_run]
    rcases h.run env s with ⟨a, t⟩ | ⟨e, t⟩ | p
    · rfl
    · rfl
    · rfl
  cases input with
  | msg m => exact ⟨[.msg m], hone (.msg m)⟩
  | event e => exact ⟨[.event e], hone (.event e)⟩
  | delayTick => exact ⟨[.delayTick], hone .delayTick⟩
  | billingTick => exact ⟨[.billingTick], hone .billingTick⟩
  | standbyTick => exact ⟨[.standbyTick], hone .standbyTick⟩
  | task => exact ⟨[.task], hone .task⟩
  | tick =>
    show ∃ hs, processTick env s = _
    unfold processTick
    rw [bind_ok (show (get : SchedM SchedulerHandler) s = .ok s s from rfl)]
    split
    next =>
      rcases hwarm : checkAndCompleteWarmup env s with ⟨a, t⟩ | ⟨e, t⟩ | p
      · rw [bind_ok hwarm, bind_ok (show (get : SchedM SchedulerHandler) t = .ok t t from rfl)]
        split
        next =>
          refine ⟨[.warmup, .refresh, .cleanPods, .cleanSnapshots, .gatewayTimeout, .stuckLeases], ?_⟩
          unfold each
          rw [bind_ok (show Handler.run env .warmup s = .ok a t from hwarm)]
          rfl
        next =>
          refine ⟨[.warmup], ?_⟩
          unfold each
          rw [bind_ok (show Handler.run env .warmup s = .ok a t from hwarm)]
          rfl
      · refine ⟨[.warmup], ?_⟩
        unfold each
        rw [bind_err hwarm, bind_err (show Handler.run env .warmup s = .err e t from hwarm)]
      · refine ⟨[.warmup], ?_⟩
        unfold each
        rw [bind_panic hwarm, bind_panic (show Handler.run env .warmup s = .panic p from hwarm)]
    next => exact ⟨[], rfl⟩

/-! ## What handlers may do -/

/-- Has the RPC failed without having been executed? -/
def Undoes (result : Option Error) : Prop := ∃ e, result = some e ∧ isSafeToRestore e = true

/-- Does the report of a node say that its agent has just restarted? -/
def Restarted (s : SchedulerHandler) (node : Node) : Prop :=
  (∃ ns, s.nodes[node.name]? = some ns ∧ ns.state = .nodeAgentConnected) ∧
    node.state = .nodeAgentReady

/-- Neither a node nor a function that leaves may hold pods. -/
def HoldsNone (F : Filing String String WorkerPod) (p : String) : Prop :=
  ∀ m, F.known p = some m → ∀ k : String, m[k]? = none

/-- What a handler does to the pods. -/
def Handler.acts (env : Env) (s : SchedulerHandler) : Handler → String → Act → Prop
  | .msg (.connectScheduler req _), k, act =>
    Prewarms act ∨ ConnectOf req.gatewayId (req.workers.map WorkerId.podKey) k act
  | .msg (.leaseWorker req _), k, act => LeaseOf s req k act
  | .msg (.returnWorker req _), k, act => ReturnOf req.worker.podKey req.failworker k act
  | .msg (.killPod req _), k, act => KillOf s req.podKey k act
  | .msg (.cleanupDuplicateSnapshot rpc), k, act => RelistOf rpc.terminated k act
  | .msg (.resumeWorkerComplete rpc result), k, act => Undoes result ∧ ResumeUndone s rpc k act
  | .msg (.startWorkerComplete rpc result), k, act => Undoes result ∧ RestoreOf s rpc.terminated k act
  | .event (.funcAdded _), _, act => Prewarms act
  | .event (.funcModified oldspec _), k, act => Prewarms act ∨ StopOf s.index (· = oldspec.id) k act
  | .event (.funcDeleted spec), k, act => StopOf s.index (· = spec.id) k act
  | .event (.nodeAdded node), k, act =>
    NewEpoch s node.name node.nodeEpoch ∧ CleanOf s node.name k act
  | .event (.nodeModified node), k, act => Restarted s node ∧ ReconcileOf s node.name k act
  | .event (.podAdded pod), k, act =>
    NewEpoch s pod.nodename pod.srcEpoch ∧ CleanOf s pod.nodename k act ∨
      k = pod.podKey ∧ act = .added pod
  | .event (.podModified pod), k, act => k = pod.podKey ∧ ModifiedOf s env pod act
  | .event (.podDeleted pod), k, act => k = pod.podKey ∧ act = .removed
  | .event (.snapshotAdded snapshot), k, act =>
    NewEpoch s snapshot.object.nodename snapshot.srcEpoch ∧ CleanOf s snapshot.object.nodename k act
  | .task, _, act => MakesRoom act
  | .warmup, _, act => Prewarms act
  | .refresh, _, act => Prewarms act
  | .cleanPods, k, act => StopOf s.index (UnknownFunc s) k act
  | .gatewayTimeout, k, act => TimeoutOf (s.timeoutGateways env) k act
  | _, _, _ => False

/-- A report of a pod names the node and the function it was reported with
before. -/
def Handler.HomeOk (s : SchedulerHandler) : Handler → Prop
  | .event (.podModified pod) => s.index.SameHome pod
  | .event (.podDeleted pod) => s.index.SameHome pod
  | _ => True

/-- Functions and nodes that arrive find none but tracked pods parked for them,
and so does a new epoch. -/
def Handler.ArrivalOk (s : SchedulerHandler) : Handler → Prop
  | .event (.funcAdded func) => s.index.FuncArrivable func.id
  | .event (.funcModified _ spec) => s.index.FuncArrivable spec.id
  | .event (.nodeAdded node) => s.index.NodeArrivable node.name
  | .event (.podAdded pod) =>
    NewEpoch s pod.nodename pod.srcEpoch → s.index.NodeArrivable pod.nodename
  | .event (.snapshotAdded snapshot) =>
    NewEpoch s snapshot.object.nodename snapshot.srcEpoch →
      s.index.NodeArrivable snapshot.object.nodename
  | _ => True

/-- The handler keeps the index sound. -/
def Handler.IndexOk (s : SchedulerHandler) (h : Handler) : Prop := h.HomeOk s ∧ h.ArrivalOk s

/-- The tracked pods of the function that arrives are those that are parked for
it, unless it is known. -/
def FuncReturns (s : SchedulerHandler) (f : String) : Prop :=
  s.byFunc.known f = none → s.index.FuncAwaited f

/-- The tracked pods of the node that arrives are those that are parked for it,
unless it is known; with a new epoch it has none. -/
def NodeReturns (s : SchedulerHandler) (n : String) (epoch : ℤ) : Prop :=
  (NewEpoch s n epoch → ∀ (k : String) (w : WorkerPod), s.pods[k]? = some w → w.pod.nodename ≠ n) ∧
    (¬ NewEpoch s n epoch → s.byNode.known n = none → s.index.NodeAwaited n)

/-- Functions and nodes that arrive find all their tracked pods parked for them,
and a node with a new epoch has none. -/
def Handler.FullOk (s : SchedulerHandler) : Handler → Prop
  | .event (.funcAdded func) => FuncReturns s func.id
  | .event (.funcModified oldspec spec) =>
    (spec.id = oldspec.id →
      ∀ (k : String) (w : WorkerPod), s.pods[k]? = some w → w.pod.funcKey ≠ spec.id) ∧
    (spec.id ≠ oldspec.id → FuncReturns s spec.id)
  | .event (.nodeAdded node) => NodeReturns s node.name node.nodeEpoch
  | _ => True

/-- The handler keeps the index coherent: functions and nodes leave when they
hold no pod, a pod is not deleted while it is parked, and a node does not get a
new epoch while a pod of it is parked for its function. -/
def Handler.CoherentOk (s : SchedulerHandler) : Handler → Prop
  | .event (.funcModified oldspec _) => HoldsNone s.byFunc oldspec.id
  | .event (.funcDeleted spec) => HoldsNone s.byFunc spec.id
  | .event (.nodeAdded node) => NewEpoch s node.name node.nodeEpoch → NoneFuncParked s node.name
  | .event (.nodeDeleted node) => HoldsNone s.byNode node.name
  | .event (.podAdded pod) =>
    NewEpoch s pod.nodename pod.srcEpoch → NoneFuncParked s pod.nodename
  | .event (.podDeleted pod) => s.index.Unparked pod
  | .event (.snapshotAdded snapshot) =>
    NewEpoch s snapshot.object.nodename snapshot.srcEpoch →
      NoneFuncParked s snapshot.object.nodename
  | _ => True

/-- The panics of a handler. -/
def Handler.Panics (s : SchedulerHandler) : Handler → Panic → Prop
  | .msg (.leaseWorker _ _), p => LeasePanics s p
  | .event (.podAdded pod), p => Calm p ∨ p = .addPodExists ∧ (s.pods[pod.podKey]?).isSome
  | .event (.podModified pod), p => ReportPanics s pod p
  | .event (.podDeleted pod), p => Calm p ∨ p = .removePodMissing ∧ s.pods[pod.podKey]? = none
  | _, p => Calm p

/-! ## Evolution -/

/-- The index stays sound, full if `D` and coherent if `C`; every slot only goes through
acts that `A` allows for its key, and only pods that `A` allows to hand out are
handed out. -/
structure Evolves (C D : Prop) (A : String → Act → Prop) (s t : SchedulerHandler) : Prop where
  /-- the index is sound -/
  sound : t.index.Sound
  /-- the index is full if it was -/
  full : D → s.index.Full → t.index.Full
  /-- the index is coherent if it was -/
  coherent : C → s.index.Coherent → t.index.Coherent
  /-- what has been handed out -/
  grants : ∀ p ∈ t.grants, p ∈ s.grants ∨ HandsOut A p
  /-- every slot has taken an allowed path -/
  path : ∀ k, Path (A k) (s.slot k) (t.slot k)

namespace Evolves

variable {C D : Prop} {A B : String → Act → Prop} {s t u : SchedulerHandler}

theorem mono (h : Evolves C D A s t) (hAB : ∀ k act, A k act → B k act) : Evolves C D B s t :=
  ⟨h.sound, h.full, h.coherent, fun p hp => (h.grants p hp).imp_right (HandsOut.mono hAB),
    fun k => (h.path k).mono (hAB k)⟩

theorem trans (h₁ : Evolves C D A s t) (h₂ : Evolves C D A t u) : Evolves C D A s u :=
  ⟨h₂.sound, fun hD hs => h₂.full hD (h₁.full hD hs), fun hC hs => h₂.coherent hC (h₁.coherent hC hs),
    fun p hp => (h₂.grants p hp).elim (h₁.grants p) Or.inr, fun k => (h₁.path k).trans (h₂.path k)⟩

theorem of_lives (hs : s.index.Sound) (h : Lives A s t) : Evolves C D A s t :=
  ⟨h.sound _ _ hs, fun _ hf => h.index ▸ hf, fun _ hc => h.index ▸ hc, h.grants, h.path⟩

theorem of_life (hs : s.index.Sound) (h : t.life = s.life) : Evolves C D A s t :=
  of_lives hs (Lives.of_life h)

theorem of_eq (hs : s.index.Sound) (h : t = s) : Evolves C D A s t := of_life hs (h ▸ rfl)

/-- Only the index changes. -/
theorem of_index {ix : PodIndex} (hlife : t.life = (ix, s.grants, s.slot)) (hs : ix.Sound)
    (hf : D → s.index.Full → ix.Full) (hc : C → s.index.Coherent → ix.Coherent) : Evolves C D A s t := by
  obtain ⟨hindex, hgrants, hslot⟩ := life_eq.mp hlife
  refine ⟨hindex ▸ hs, fun hD h => hindex ▸ hf hD h, fun hC h => hindex ▸ hc hC h, fun p hp => Or.inl (hgrants ▸ hp), fun k => ?_⟩
  rw [hslot]
  exact Path.refl _ _

theorem of_emptied {n : String} (h : Emptied n s t) (hC : C → NoneFuncParked s n)
    (hA : ∀ k act, CleanOf s n k act → A k act) : Evolves C D A s t :=
  ⟨h.sound, fun _ hf => h.full hf, fun h' hc => h.coherent hc (hC h'), fun _ hp => Or.inl (h.grants ▸ hp),
    fun k => (h.path k).mono (hA k)⟩

theorem of_reconciled {n : String} (hs : s.index.Sound) (h : Reconciled n s t)
    (hA : ∀ k act, ReconcileOf s n k act → A k act) : Evolves C D A s t := by
  obtain ⟨keys, hdiscard, -⟩ := h.index
  exact ⟨hdiscard.sound hs, fun _ hf => hdiscard.full hf, fun _ hc => hdiscard.coherent hc, fun p hp => Or.inl (h.grants p hp),
    fun k => (h.path k).mono (hA k)⟩

end Evolves

/-- A procedure from the state `s` on. -/
abbrev EvolvesFrom {α : Type} (C D : Prop) (A : String → Act → Prop) (N : Panic → Prop)
    (s : SchedulerHandler) (x : SchedM α) : Prop :=
  x.wp (fun _ t => Evolves C D A s t) (fun _ t => Evolves C D A s t) N s

namespace EvolvesFrom

variable {α β : Type} {C D : Prop} {A : String → Act → Prop} {N : Panic → Prop}
  {s : SchedulerHandler} {x : SchedM α} {f : α → SchedM β}

theorem of_wp (hs : s.index.Sound) (h : x.wp (fun _ t => Lives A s t) (fun _ t => Lives A s t) N s) :
    EvolvesFrom C D A N s x :=
  wp_mono h (fun _ _ h => .of_lives hs h) (fun _ _ h => .of_lives hs h) fun _ hp => hp

theorem of_moves (hs : s.index.Sound) (h : MovesPods A x) : EvolvesFrom C D A Calm s x :=
  of_wp hs (h s hs)

theorem of_quiet (hs : s.index.Sound) (h : Quiet x) : EvolvesFrom C D A Calm s x :=
  of_moves hs h.movesPods

/-- The rest of a body evolves on from where its start ended. -/
theorem bind (hx : x.wp (fun a t => Evolves C D A s t ∧ EvolvesFrom C D A N t (f a))
    (fun _ t => Evolves C D A s t) N s) : EvolvesFrom C D A N s (x >>= f) := by
  unfold EvolvesFrom
  rw [wp_bind]
  refine wp_mono hx (fun a t ht => ?_) (fun _ _ h => h) fun _ h => h
  exact wp_mono ht.2 (fun _ _ hu => ht.1.trans hu) (fun _ _ hu => ht.1.trans hu) fun _ h => h

end EvolvesFrom

/-! ## Messages -/

theorem processMsg_evolves (env : Env) (m : WorkerHandlerMsg) {s : SchedulerHandler}
    (hs : s.index.Sound) :
    EvolvesFrom True True ((Handler.msg m).acts env s) ((Handler.msg m).Panics s) s (processMsg env m) := by
  cases m with
  | connectScheduler req tx =>
    refine EvolvesFrom.of_moves hs (MovesPods.bind ((processConnectReq_moves env req tx).mono
      fun _ _ => Or.inr) fun b => ?_)
    split
    next => exact (completeWarmupAfterConnect_prewarms env).mono fun _ _ => Or.inl
    next => exact (Moves.pure ()).movesFrom
  | leaseWorker req tx => exact EvolvesFrom.of_wp hs (processLeaseWorkerReq_spec env req tx hs)
  | returnWorker req tx => exact EvolvesFrom.of_moves hs (processReturnWorkerReq_moves env req tx)
  | killPod req tx => exact EvolvesFrom.of_wp hs (processKillPod_spec env req tx hs)
  | refreshGateway g => exact Evolves.of_life hs rfl
  | cleanupDuplicateSnapshot rpc =>
    exact EvolvesFrom.of_moves hs (processCleanupDuplicateSnapshot_moves rpc)
  | resumeWorkerComplete rpc result =>
    rcases result with _ | e
    · exact Evolves.of_life hs rfl
    · by_cases he : isSafeToRestore e = true
      · refine EvolvesFrom.of_wp hs (wp_mono (processResumeWorkerComplete_spec env rpc (some e) hs)
          (fun _ _ h => ?_) (fun _ _ h => ?_) fun _ h => h)
        · exact h.mono fun _ _ h => ⟨⟨e, rfl, he⟩, h⟩
        · exact h.mono fun _ _ h => ⟨⟨e, rfl, he⟩, h⟩
      · unfold EvolvesFrom processMsg processResumeWorkerComplete
        dsimp only
        rw [if_neg he, wp_crash]
        simp [Handler.Panics, Calm]
  | startWorkerComplete rpc result =>
    rcases result with _ | e
    · exact Evolves.of_life hs rfl
    · by_cases he : isSafeToRestore e = true
      · refine EvolvesFrom.of_wp hs (wp_mono (processStartWorkerComplete_spec env rpc (some e) hs)
          (fun _ _ h => ?_) (fun _ _ h => ?_) fun _ h => h)
        · exact h.mono fun _ _ h => ⟨⟨e, rfl, he⟩, h⟩
        · exact h.mono fun _ _ h => ⟨⟨e, rfl, he⟩, h⟩
      · unfold EvolvesFrom processMsg processStartWorkerComplete
        dsimp only
        rw [if_neg he, wp_crash]
        simp [Handler.Panics, Calm]
  | removeSnapshotComplete f n ok =>
    exact Evolves.of_life hs (life_processRemoveSnapshotComplete f n ok)
  | stopWorkerComplete k ok => exact Evolves.of_life hs rfl

/-! ## Events -/

section Events

variable {C D : Prop} {A : String → Act → Prop} {s : SchedulerHandler}

theorem addFunc_evolves (func : Function) (hs : s.index.Sound)
    (hpark : s.index.FuncArrivable func.id) (hD : D → FuncReturns s func.id) :
    EvolvesFrom C D A Calm s (addFunc func) := by
  refine wp_mono (addFunc_spec func s) (fun _ t ht => ?_) (fun _ t ht => ?_) fun _ h => h.elim
  · exact .of_index ht.2 (hs.enterFunc hpark) (fun h hf => hf.enterFunc (hD h ht.1)) fun _ hc => hc.enterFunc ht.1
  · exact .of_eq hs ht

theorem removeFunc_evolves (env : Env) (func : Function) (hs : s.index.Sound)
    (hC : C → HoldsNone s.byFunc func.id) :
    (removeFunc env func).wp
      (fun _ t => Evolves C D A s t ∧ t.index = s.index.leaveFunc func.id)
      (fun _ t => Evolves C D A s t) Calm s := by
  refine wp_mono (removeFunc_spec env func s) (fun _ t ht => ⟨?_, congrArg Prod.fst ht.2⟩)
    (fun _ t ht => .of_eq hs ht) fun _ h => h.elim
  refine .of_index ht.2 (hs.leaveFunc _) (fun _ hf => hf.leaveFunc _) fun h hc =>
    hc.leaveFunc hs ht.1 fun k => ?_
  obtain ⟨m, hm⟩ := Option.isSome_iff_exists.mp ht.1
  rw [show s.index.byFunc.entry func.id k = m[k]? from Filing.entry_of_known hm]
  exact hC h m hm k

/-- The pods of a function that leaves are stopped, and held where they were. -/
theorem processRemoveFunc_evolves (env : Env) (func : Function) (hs : s.index.Sound)
    (hA : ∀ k act, StopOf s.index (· = func.id) k act → A k act) :
    (processRemoveFunc env func).wp (fun _ t => Evolves C D A s t ∧ t.index = s.index)
      (fun _ t => Evolves C D A s t) Calm s := by
  refine wp_mono (processRemoveFunc_spec env func hs) (fun _ t ht => ?_) (fun _ t ht => ?_)
    fun _ h => h
  · exact ⟨.of_lives hs (ht.mono hA), ht.index⟩
  · exact .of_lives hs (ht.mono hA)

theorem addNode_evolves (env : Env) (node : Node) (hs : s.index.Sound)
    (hpark : s.index.NodeArrivable node.name)
    (hD : D → s.byNode.known node.name = none → s.index.NodeAwaited node.name) :
    EvolvesFrom C D A Calm s (addNode env node) := by
  refine wp_mono (addNode_spec env node s) (fun _ t ht => ?_) (fun _ t ht => ?_) fun _ h => h
  · exact .of_index ht.2 (hs.enterNode hpark) (fun h hf => hf.enterNode (hD h ht.1)) fun _ hc => hc.enterNode ht.1
  · exact .of_eq hs ht

theorem removeNode_evolves (node : Node) (hs : s.index.Sound)
    (hC : C → HoldsNone s.byNode node.name) : EvolvesFrom C D A Calm s (removeNode node) := by
  refine wp_mono (removeNode_spec node s) (fun _ t ht => ?_) (fun _ t ht => ?_) fun _ h => h.elim
  · refine .of_index ht.2 (hs.leaveNode _) (fun _ hf => hf.leaveNode _) fun h hc => hc.leaveNode hs ht.1 fun k => ?_
    obtain ⟨m, hm⟩ := Option.isSome_iff_exists.mp ht.1
    rw [show s.index.byNode.entry node.name k = m[k]? from Filing.entry_of_known hm]
    exact hC h m hm k
  · exact .of_eq hs ht.1

/-- The epoch is checked before the rest of an event is dealt with. -/
theorem checkNodeEpoch_evolves (env : Env) (n : String) (epoch : ℤ) (hs : s.index.Sound)
    (hpark : NewEpoch s n epoch → s.index.NodeArrivable n)
    (hC : C → NewEpoch s n epoch → NoneFuncParked s n)
    (hA : ∀ k act, NewEpoch s n epoch ∧ CleanOf s n k act → A k act) :
    (checkNodeEpoch env n epoch).wp
      (fun _ t => Evolves C D A s t ∧
        (¬ NewEpoch s n epoch ∧ t.life = s.life ∨ NewEpoch s n epoch ∧ Emptied n s t))
      (fun _ t => Evolves C D A s t) Calm s := by
  refine wp_mono (checkNodeEpoch_spec env n epoch hs hpark) (fun _ t ht => ⟨?_, ht⟩)
    (fun _ _ h => h.elim) fun _ h => h
  rcases ht with ⟨-, hlife⟩ | ⟨hnew, hempty⟩
  · exact .of_life hs hlife
  · exact .of_emptied hempty (fun h => hC h hnew) fun k act h => hA k act ⟨hnew, h⟩

/-- What the epoch check leaves to a node that then arrives. -/
theorem arrives_after_check {n : String} {epoch : ℤ} {t : SchedulerHandler}
    (h : ¬ NewEpoch s n epoch ∧ t.life = s.life ∨ NewEpoch s n epoch ∧ Emptied n s t) :
    (s.index.NodeArrivable n → t.index.NodeArrivable n) ∧
      (NodeReturns s n epoch → t.byNode.known n = none → t.index.NodeAwaited n) := by
  rcases h with ⟨hold, hlife⟩ | ⟨hnew, hempty⟩
  · have hindex : t.index = s.index := index_of_life hlife
    have hbyNode : t.byNode = s.byNode := congrArg PodIndex.byNode hindex
    rw [hindex, hbyNode]
    exact ⟨fun h => h, fun h => h.2 hold⟩
  · refine ⟨fun _ k w hw => ?_, fun h _ k w hw hn => ?_⟩
    · rw [hempty.unparked] at hw
      cases hw
    · exact absurd hn (h.1 hnew k w (hempty.sub k w hw))

theorem track_evolves {pod : FuncPod} {t : SchedulerHandler} (hs : s.index.Sound)
    (hnone : s.pods[pod.podKey]? = none) (hA : A pod.podKey (.added pod))
    (hlife : t.life = (s.index.track (s.nextPod pod), s.grants,
      Function.update s.slot pod.podKey (addedSlot s pod))) : Evolves C D A s t := by
  obtain ⟨hindex, hgrants, hslot⟩ := life_eq.mp hlife
  have hhome : s.index.SameHome pod := fun w hw => absurd (hnone.symm.trans hw) nofun
  refine ⟨hindex ▸ hs.track rfl hhome, fun _ hf => hindex ▸ hf.track _, fun _ hc => hindex ▸ hc.track hhome,
    fun p hp => Or.inl (hgrants ▸ hp), fun k => ?_⟩
  rw [hslot, Function.update_apply]
  split
  next hk =>
    subst hk
    refine Path.single hA ?_
    unfold addedSlot
    rw [slot_of_untracked hnone]
    exact .added
  next => exact Path.refl _ _

theorem untrack_evolves {pod : FuncPod} {t : SchedulerHandler} (hs : s.index.Sound)
    (hsome : (s.pods[pod.podKey]?).isSome) (hhome : s.index.SameHome pod)
    (hC : C → s.index.Unparked pod) (hA : A pod.podKey .removed)
    (hlife : t.life = (s.index.untrack pod, s.grants,
      Function.update s.slot pod.podKey ⟨none, false⟩)) : Evolves C D A s t := by
  obtain ⟨hindex, hgrants, hslot⟩ := life_eq.mp hlife
  refine ⟨hindex ▸ hs.untrack hhome, fun _ hf => hindex ▸ hf.untrack _, fun h hc => hindex ▸ hc.untrack (hC h) hhome,
    fun p hp => Or.inl (hgrants ▸ hp), fun k => ?_⟩
  rw [hslot, Function.update_apply]
  split
  next hk =>
    subst hk
    obtain ⟨w, hw⟩ := Option.isSome_iff_exists.mp hsome
    refine Path.single hA ?_
    rw [slot_of_tracked hw]
    exact .removed
  next => exact Path.refl _ _

theorem reported_evolves {env : Env} {pod : FuncPod} {t : SchedulerHandler} (hs : s.index.Sound)
    (hhome : s.index.SameHome pod) (h : Reported env pod s t) :
    Evolves C D (fun k act => k = pod.podKey ∧ ModifiedOf s env pod act) s t := by
  refine ⟨h.index ▸ hs.track rfl hhome, fun _ hf => h.index ▸ hf.track _, fun _ hc => h.index ▸ hc.track hhome, fun p hp => ?_,
    fun k => ?_⟩
  · refine (h.grants p hp).imp_right fun hgrant => Or.inr ?_
    obtain ⟨hk, t, ht⟩ := hgrant
    exact ⟨pod, t, hk, ht⟩
  · by_cases hk : k = pod.podKey
    · subst hk
      obtain ⟨act, hact, hstep⟩ := h.act
      exact Path.single ⟨rfl, hact⟩ hstep
    · rw [h.others k hk]
      exact Path.refl _ _

end Events

theorem restarted_of_any {s : SchedulerHandler} {node : Node}
    (h : (s.nodes[node.name]?.any (fun ns => ns.state == .nodeAgentConnected)
      && node.state == .nodeAgentReady) = true) : Restarted s node := by
  rw [Bool.and_eq_true, beq_iff_eq] at h
  refine ⟨?_, h.2⟩
  rcases hn : s.nodes[node.name]? with _ | ns
  · rw [hn] at h
    cases h.1
  · rw [hn, Option.any_some, beq_iff_eq] at h
    exact ⟨ns, rfl, h.1⟩

theorem processEvent_evolves (env : Env) (e : DeltaEvent) {s : SchedulerHandler}
    (hs : s.index.Sound) (hok : (Handler.event e).IndexOk s) :
    EvolvesFrom ((Handler.event e).CoherentOk s) ((Handler.event e).FullOk s) ((Handler.event e).acts env s)
      ((Handler.event e).Panics s) s (processEvent env e) := by
  cases e with
  | funcAdded func =>
    refine EvolvesFrom.bind (wp_mono (addFunc_evolves func hs hok.2 fun h => h) (fun _ t ht => ⟨ht, ?_⟩)
      (fun _ _ h => h) fun _ h => h)
    refine EvolvesFrom.of_moves ht.sound (MovesPods.bind Moves.get.movesFrom fun u => ?_)
    split
    next => exact startFunc_prewarms env func.id
    next => exact (Moves.pure ()).movesFrom
  | funcModified oldspec spec =>
    refine EvolvesFrom.bind (wp_mono (processRemoveFunc_evolves env oldspec hs fun _ _ => Or.inr)
      (fun _ t ht => ⟨ht.1, ?_⟩) (fun _ _ h => h) fun _ h => h)
    have hbyFunc : t.byFunc = s.byFunc := congrArg PodIndex.byFunc ht.2
    refine EvolvesFrom.bind (wp_mono (removeFunc_evolves env oldspec ht.1.sound fun h => hbyFunc ▸ h)
      (fun _ u hu => ⟨hu.1, ?_⟩) (fun _ _ h => h) fun _ h => h)
    have hindex : u.index = s.index.leaveFunc oldspec.id := ht.2 ▸ hu.2
    have hpark : u.index.FuncArrivable spec.id := hindex ▸ hok.2.leaveFunc
    have hreturns : (Handler.event (.funcModified oldspec spec)).FullOk s → FuncReturns u spec.id := by
      intro h hunknown
      by_cases heq : spec.id = oldspec.id
      · intro k w hw hf
        rw [hindex] at hw
        exact absurd hf (h.1 heq k w hw)
      · rw [hindex]
        refine (h.2 heq ?_).leaveFunc heq
        have hbyFunc : u.byFunc = s.byFunc.close oldspec.id := congrArg PodIndex.byFunc hindex
        rw [hbyFunc] at hunknown
        exact (Function.update_of_ne heq _ _).symm.trans hunknown
    refine EvolvesFrom.bind (wp_mono (addFunc_evolves spec hu.1.sound hpark hreturns) (fun _ v hv => ⟨hv, ?_⟩)
      (fun _ _ h => h) fun _ h => h)
    refine EvolvesFrom.of_moves hv.sound (MovesPods.bind Moves.get.movesFrom fun x => ?_)
    split
    next => exact (startFunc_prewarms env spec.id).mono fun _ _ => Or.inl
    next => exact (Moves.pure ()).movesFrom
  | funcDeleted spec =>
    refine EvolvesFrom.bind (wp_mono (processRemoveFunc_evolves env spec hs fun _ _ h => h)
      (fun _ t ht => ⟨ht.1, ?_⟩) (fun _ _ h => h) fun _ h => h)
    have hbyFunc : t.byFunc = s.byFunc := congrArg PodIndex.byFunc ht.2
    exact wp_mono (removeFunc_evolves env spec ht.1.sound fun h => hbyFunc ▸ h) (fun _ _ h => h.1)
      (fun _ _ h => h) fun _ h => h
  | funcStatusSet status => exact Evolves.of_life hs rfl
  | funcStatusDeleted status => exact Evolves.of_life hs rfl
  | nodeAdded node =>
    refine EvolvesFrom.bind (wp_mono (checkNodeEpoch_evolves env node.name node.nodeEpoch hs
      (fun _ => hok.2) (fun h => h) fun _ _ h => h) (fun _ t ht => ⟨ht.1, ?_⟩) (fun _ _ h => h)
      fun _ h => h)
    obtain ⟨hpark, hreturns⟩ := arrives_after_check ht.2
    refine EvolvesFrom.bind (wp_mono (quiet_addPeer node t) (fun _ u hu => ?_)
      (fun _ _ h => .of_life ht.1.sound h) fun _ h => h)
    have hindex : u.index = t.index := index_of_life hu
    have hbyNode : u.byNode = t.byNode := congrArg PodIndex.byNode hindex
    refine ⟨.of_life ht.1.sound hu, addNode_evolves env node (hindex ▸ ht.1.sound)
      (hindex ▸ hpark hok.2) fun h => ?_⟩
    rw [hindex, hbyNode]
    exact hreturns h
  | nodeModified node =>
    show EvolvesFrom _ _ _ Calm s (processNodeModified node)
    unfold EvolvesFrom processNodeModified
    rw [wp_bind, wp_get]
    refine EvolvesFrom.bind (wp_mono (updateNode_spec node hs) (fun _ t ht => ?_)
      (fun _ t ht => .of_eq hs ht) fun _ h => h.elim)
    have hevolves := Evolves.of_life (C := True) (D := True) (A := fun k act =>
      Restarted s node ∧ ReconcileOf s node.name k act) hs ht
    refine ⟨hevolves, ?_⟩
    split
    next hrestart =>
      have hrestarted : Restarted s node := restarted_of_any hrestart
      refine wp_mono (reconcileNodeAfterNodeAgentRestart_spec node.name node hevolves.sound)
        (fun _ u hu => ?_) (fun _ _ h => h.elim) fun _ h => h
      refine .of_reconciled hevolves.sound hu fun k act h => ⟨hrestarted, h.1, ?_⟩
      obtain ⟨w, hw, hn⟩ := h.2
      exact ⟨w, pods_of_index (index_of_life ht) ▸ hw, hn⟩
    next => exact Evolves.of_eq hevolves.sound rfl
  | nodeDeleted node =>
    refine EvolvesFrom.bind (wp_mono (quiet_removePeer node s) (fun _ t ht => ?_)
      (fun _ t ht => .of_life hs ht) fun _ h => h)
    have hevolves := Evolves.of_life (C := HoldsNone s.byNode node.name) (D := True)
      (A := fun _ _ => False) hs ht
    refine ⟨hevolves, removeNode_evolves node hevolves.sound fun h => ?_⟩
    have hbyNode : t.byNode = s.byNode := congrArg PodIndex.byNode (index_of_life ht)
    exact hbyNode ▸ h
  | podAdded pod =>
    refine EvolvesFrom.bind (wp_mono (checkNodeEpoch_evolves env pod.nodename pod.srcEpoch hs
      hok.2 (fun h => h) fun _ _ h => Or.inl h) (fun _ t ht => ⟨ht.1, ?_⟩) (fun _ _ h => h)
      fun _ h => Or.inl h)
    refine wp_mono (addPod_spec env pod ht.1.sound.toKeyed) (fun _ u hu => ?_) (fun _ _ h => h.elim)
      fun p hp => hp.imp_right fun h => ⟨h.1, ?_⟩
    · exact track_evolves ht.1.sound hu.1 (Or.inr ⟨rfl, rfl⟩) hu.2
    · obtain ⟨w, hw⟩ := Option.isSome_iff_exists.mp h.2
      rcases ht.2 with ⟨-, hlife⟩ | ⟨-, hempty⟩
      · rw [← pods_of_index (index_of_life hlife)]
        exact h.2
      · rw [hempty.sub _ w hw]
        rfl
  | podModified pod =>
    refine wp_mono (updatePod_spec env pod hs.toKeyed) (fun _ t ht => ?_) (fun _ t ht => ?_)
      fun _ h => h
    · exact reported_evolves hs hok.1 ht
    · exact reported_evolves hs hok.1 ht
  | podDeleted pod =>
    refine wp_mono (removePod_spec env pod) (fun _ t ht => ?_) (fun _ _ h => h.elim) fun _ h => h
    exact untrack_evolves hs ht.1 hok.1 (fun h => h) ⟨rfl, rfl⟩ ht.2
  | snapshotAdded snapshot =>
    refine EvolvesFrom.bind (wp_mono (checkNodeEpoch_evolves env _ _ hs hok.2 (fun h => h)
      fun _ _ h => h) (fun _ t ht => ⟨ht.1, ?_⟩) (fun _ _ h => h) fun _ h => h)
    exact EvolvesFrom.of_quiet ht.1.sound (quiet_addSnapshot env snapshot)
  | snapshotModified snapshot => exact EvolvesFrom.of_quiet hs (quiet_updateSnapshot env snapshot)
  | snapshotDeleted snapshot => exact Evolves.of_life hs rfl
  | policySet key policy => exact Evolves.of_life hs rfl
  | policyDeleted key => exact Evolves.of_life hs rfl
  | tenantSet tenant => exact Evolves.of_life hs rfl
  | tenantDeleted name => exact Evolves.of_life hs rfl
  | initDone listType => exact EvolvesFrom.of_quiet hs (quiet_listDone env listType)

/-! ## All handlers -/

/-- **What a handler does.** From a sound index, every handler takes the pods
through its own acts only and panics for its own reasons only. -/
theorem run_evolves (env : Env) (h : Handler) {s : SchedulerHandler} (hs : s.index.Sound)
    (hok : h.IndexOk s) :
    EvolvesFrom (h.CoherentOk s) (h.FullOk s) (h.acts env s) (h.Panics s) s (h.run env) := by
  cases h with
  | msg m => exact processMsg_evolves env m hs
  | event e => exact processEvent_evolves env e hs hok
  | task =>
    refine EvolvesFrom.of_moves hs (MovesPods.bind Moves.get.movesFrom fun t => ?_)
    rcases t.taskQueue with _ | ⟨task, rest⟩
    · exact (Moves.pure ()).movesFrom
    · exact MovesPods.bind (Quiet.movesPods (Quiet.modify fun _ => rfl)) fun _ =>
        processTask_room env task
  | delayTick => exact EvolvesFrom.of_quiet hs (quiet_drainDueDelayedTasks env)
  | billingTick => exact Evolves.of_life hs (life_emitPeriodicBillingTicks env)
  | standbyTick => exact Evolves.of_life hs (life_emitPeriodicStandbyTicks env)
  | warmup => exact EvolvesFrom.of_moves hs (checkAndCompleteWarmup_prewarms env)
  | refresh => exact EvolvesFrom.of_moves hs (refreshScheduling_prewarms env)
  | cleanPods => exact EvolvesFrom.of_wp hs (cleanPods_spec env hs)
  | cleanSnapshots => exact EvolvesFrom.of_quiet hs quiet_cleanSnapshots
  | gatewayTimeout => exact Evolves.of_lives hs (lives_processGatewayTimeout env hs)
  | stuckLeases => exact Evolves.of_life hs (life_reconcileAllStuckLeaseRequests env 30000)

/-! ## Calls -/

/-- A call of a handler, with what it takes from outside. -/
abbrev Call : Type := Env × Handler

namespace SchedulerHandler

/-- Call a handler: what it sends is all that is in `out` afterwards. -/
def call (s : SchedulerHandler) (c : Call) : Outcome Error Panic SchedulerHandler Unit :=
  c.2.run c.1 { s with out := [] }

/-- The state after a call, unless it panics. -/
def next (s : SchedulerHandler) (c : Call) : Option SchedulerHandler := (s.call c).state?

/-- The state after some calls, unless one of them panics. -/
def calls (s : SchedulerHandler) (l : List Call) : Option SchedulerHandler := l.foldlM next s

variable {s t : SchedulerHandler} {c : Call}

/-- The conditions do not depend on what has been sent before. -/
theorem call_evolves (hs : s.index.Sound) (hok : c.2.IndexOk s) :
    EvolvesFrom (c.2.CoherentOk s) (c.2.FullOk s) (c.2.acts c.1 s) (c.2.Panics s) { s with out := [] }
      (c.2.run c.1) := by
  obtain ⟨env, h⟩ := c
  exact run_evolves env h (s := { s with out := [] }) hs hok

theorem next_evolves (hs : s.index.Sound) (hok : c.2.IndexOk s) (h : s.next c = some t) :
    Evolves (c.2.CoherentOk s) (c.2.FullOk s) (c.2.acts c.1 s) { s with out := [] } t :=
  wp_state (call_evolves hs hok) h

theorem next_sound (hs : s.index.Sound) (hok : c.2.IndexOk s) (h : s.next c = some t) :
    t.index.Sound := (next_evolves hs hok h).sound

theorem next_coherent (hs : s.index.Sound) (hok : c.2.IndexOk s) (hcok : c.2.CoherentOk s)
    (h : s.next c = some t) (hc : s.index.Coherent) : t.index.Coherent :=
  (next_evolves hs hok h).coherent hcok hc

theorem next_full (hs : s.index.Sound) (hok : c.2.IndexOk s) (hfok : c.2.FullOk s)
    (h : s.next c = some t) (hf : s.index.Full) : t.index.Full := (next_evolves hs hok h).full hfok hf

theorem next_path (hs : s.index.Sound) (hok : c.2.IndexOk s) (h : s.next c = some t) (k : String) :
    Path (c.2.acts c.1 s k) (s.slot k) (t.slot k) := (next_evolves hs hok h).path k

theorem call_panics (hs : s.index.Sound) (hok : c.2.IndexOk s) {p : Panic}
    (h : (s.call c).panic? = some p) : c.2.Panics s p := wp_panic (call_evolves hs hok) h

end SchedulerHandler

/-- A scheduler that has just started. -/
structure Fresh (s : SchedulerHandler) : Prop where
  /-- no pods -/
  pods : s.pods = ∅
  /-- no nodes -/
  nodes : s.nodes = ∅
  /-- no pods parked for a node -/
  nodePods : s.nodePods = ∅
  /-- no functions -/
  funcs : s.funcs = ∅
  /-- no pods parked for a function -/
  funcPods : s.funcPods = ∅
  /-- no idle pods -/
  idlePods : s.idlePods = .unbounded

/-- The state of a new scheduler after some calls. -/
def after (l : List Call) : SchedulerHandler := (calls {} l).getD {}

theorem fresh_new : Fresh {} := ⟨rfl, rfl, rfl, rfl, rfl, rfl⟩

theorem calls_eq_after {l : List Call} (h : (calls {} l).isSome) : calls {} l = some (after l) := by
  obtain ⟨t, ht⟩ := Option.isSome_iff_exists.mp h
  unfold after
  rw [ht, Option.getD_some]

theorem next_after {l : List Call} {c : Call} (h : (calls {} (l ++ [c])).isSome) :
    (after l).next c = some (after (l ++ [c])) :=
  next_getD_foldlM (f := next) h

end Inferx
