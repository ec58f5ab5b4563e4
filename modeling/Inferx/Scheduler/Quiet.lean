import Inferx.Scheduler.Life

/-!
# Procedures that leave the pods alone

Bookkeeping of nodes, functions, snapshots, tasks and billing. None of it
changes a slot, the index, or hands out a pod; each procedure here is `Quiet`,
and handlers compose these facts without looking at what the procedures do.
-/

namespace Inferx

open Proc

namespace SchedulerHandler

variable {s : SchedulerHandler}

theorem grants_emit {e : Effect} (he : e.handsOut = none) : (s.emit e).grants = s.grants := by
  unfold emit grants
  rw [List.filterMap_append]
  simp [he]

theorem life_emit {e : Effect} (he : e.handsOut = none) : (s.emit e).life = s.life :=
  life_congr rfl rfl rfl (grants_emit he)

theorem life_modifyNode {n : String} {g : NodeStatus → NodeStatus}
    (hg : ∀ ns, (g ns).home = ns.home) : (s.modifyNode n g).life = s.life :=
  life_congr (index_modifyNode hg) rfl rfl rfl

theorem life_modifyFunc {f : String} {g : FuncStatus → FuncStatus}
    (hg : ∀ fs, (g fs).pods = fs.pods) : (s.modifyFunc f g).life = s.life :=
  life_congr (index_modifyFunc hg) rfl rfl rfl

theorem life_insertNode {n : String} {ns ns' : NodeStatus} (hn : s.nodes[n]? = some ns)
    (hhome : ns'.home = ns.home) :
    ({ s with nodes := s.nodes.insert n ns' } : SchedulerHandler).life = s.life :=
  life_congr (index_insertNode hn hhome) rfl rfl rfl

/-- A step that keeps the life of the pods, repeated along a list, keeps it. -/
theorem life_foldl {α : Type} {g : SchedulerHandler → α → SchedulerHandler}
    (hg : ∀ s a, (g s a).life = s.life) (l : List α) (s : SchedulerHandler) :
    (l.foldl g s).life = s.life := by
  induction l generalizing s with
  | nil => rfl
  | cons a l ih => rw [List.foldl_cons, ih, hg]

theorem life_removePendingSnapshot (f n : String) : (s.removePendingSnapshot f n).life = s.life := by
  unfold removePendingSnapshot
  rcases s.pendingsnapshots[f]? with _ | nodes
  · rfl
  · rfl

theorem life_removePendingSnapshotsOn (n : String) :
    (s.removePendingSnapshotsOn n).life = s.life :=
  life_foldl (fun _ _ => life_removePendingSnapshot _ n) _ s

theorem addStoppingPods_foldl_home (ws : List WorkerPod) (ns : NodeStatus) :
    (ws.foldl (fun ns w => ns.addStoppingPod w.pod.podKey) ns).home = ns.home := by
  induction ws generalizing ns with
  | nil => rfl
  | cons w ws ih =>
    rw [List.foldl_cons, ih]
    rfl

theorem life_addStoppingPods (n : String) (ws : List WorkerPod) :
    (s.addStoppingPods n ws).life = s.life := by
  unfold addStoppingPods
  rw [life_foldl]
  · exact life_modifyNode fun ns => addStoppingPods_foldl_home ws ns
  · exact fun _ _ => life_modifyFunc fun _ => rfl

theorem life_endSnapshotPodBilling (env : Env) (k : String) :
    (s.endSnapshotPodBilling env k).life = s.life := by
  unfold endSnapshotPodBilling
  split
  next => rfl
  next =>
    split
    next => rfl
    next => exact life_congr rfl rfl rfl (by simp [grants, Effect.handsOut])

theorem life_endStandbyBilling (env : Env) (f : String) :
    (s.endStandbyBilling env f).life = s.life := by
  unfold endStandbyBilling
  split
  next => rfl
  next => exact life_congr rfl rfl rfl (by simp [grants, Effect.handsOut])

theorem periodicTicks_handsOut (env : Env) (u : UsageType) (m : BTreeMap String BillingSession) :
    (periodicTicks env u m).filterMap Effect.handsOut = [] := by
  unfold periodicTicks
  rw [List.filterMap_map, List.filterMap_eq_nil_iff]
  intro p _
  rfl

theorem life_emitPeriodicBillingTicks (env : Env) :
    (s.emitPeriodicBillingTicks env).life = s.life := by
  unfold emitPeriodicBillingTicks
  split
  next => rfl
  next => exact life_congr rfl rfl rfl (by simp [grants, periodicTicks_handsOut])

theorem life_emitPeriodicStandbyTicks (env : Env) :
    (s.emitPeriodicStandbyTicks env).life = s.life :=
  life_congr rfl rfl rfl (by simp [emitPeriodicStandbyTicks, grants, periodicTicks_handsOut])

theorem life_closePod (env : Env) (pod : FuncPod) : (s.closePod env pod).life = s.life := by
  unfold closePod
  split
  next => exact life_endSnapshotPodBilling env _
  next => rfl

theorem life_cleanFuncStatusForNode (n : String) :
    (s.cleanFuncStatusForNode n).life = s.life := by
  unfold cleanFuncStatusForNode
  split
  next => rfl
  next =>
    rw [life_foldl, life_foldl]
    · exact fun _ _ => life_modifyFunc fun _ => rfl
    · intro s p
      split
      next => exact life_modifyFunc fun _ => rfl
      next => rfl

theorem life_forgetSnapshotsOn (n : String) : (s.forgetSnapshotsOn n).life = s.life :=
  life_removePendingSnapshotsOn n

theorem life_reconcileAllStuckLeaseRequests (env : Env) (t : ℕ) :
    (s.reconcileAllStuckLeaseRequests env t).life = s.life := by
  refine life_congr (index_congr rfl (fun _ => rfl) (fun f => ?_) rfl rfl rfl) rfl rfl rfl
  unfold reconcileAllStuckLeaseRequests
  rw [Std.ExtTreeMap.getElem?_map, Option.map_map]
  rfl

theorem life_processRemoveSnapshotComplete (f n : String) (ok : Bool) :
    (s.processRemoveSnapshotComplete f n ok).life = s.life := by
  unfold processRemoveSnapshotComplete
  split
  next => rfl
  next => rfl

end SchedulerHandler

open SchedulerHandler

/-! ## Procedures -/

theorem Quiet.modify {g : SchedulerHandler → SchedulerHandler} (h : ∀ s, (g s).life = s.life) :
    Quiet (Proc.modify g) := Moves.modify h

theorem quiet_liftFault {α : Type} (x : Except Fault α) : Quiet (liftFault x) := by
  refine Moves.lift fun p hp => ?_
  rcases x with f | a
  · obtain rfl := Except.error.inj hp
    exact calm_fault f
  · cases hp

theorem wp_liftFault {α : Type} {x : Except Fault α} {Q : α → SchedulerHandler → Prop}
    {E : Error → SchedulerHandler → Prop} {N : Panic → Prop} {s : SchedulerHandler} :
    (liftFault x).wp Q E N s ↔ (∀ a, x = .ok a → Q a s) ∧ ∀ f, x = .error f → N (.fault f) := by
  unfold liftFault
  rw [wp_lift]
  rcases x with f | a
  · simp [Except.mapError]
  · simp [Except.mapError]

theorem quiet_addTask (task : SchedTask) : Quiet (addTask task) := by
  refine Moves.bind Moves.get fun s => ?_
  split
  next => exact Quiet.modify fun _ => rfl
  next => exact Moves.crash (by simp [Calm])

theorem quiet_addSnapshotTask (env : Env) (n f : String) : Quiet (addSnapshotTask env n f) := by
  refine Moves.bind Moves.get fun s => ?_
  rcases s.funcs[f]? with _ | fs
  · exact Moves.crash (by simp [Calm])
  · by_cases h : (s.policyOf fs.func).standbyPerNode = 0
    · simp only [h, if_true]
      exact Moves.pure ()
    · simp only [h, if_false]
      exact Quiet.modify fun _ => rfl

theorem quiet_stopWorker (pod : FuncPod) : Quiet (stopWorker pod) := by
  refine Moves.bind Moves.get fun s => ?_
  rcases s.nodes[pod.nodename]? with _ | ns
  · exact Moves.throw _
  · exact Quiet.modify fun _ => life_emit rfl

theorem quiet_getNode (n : String) : Quiet (getNode n) := by
  refine Moves.bind Moves.get fun s => ?_
  rcases s.nodes[n]? with _ | ns
  · exact Moves.crash (calm_fault _)
  · exact Moves.pure ns

/-- Reserving fails by a panic only. -/
theorem reserve_spec (n : String) (r : NodeResources) (s : SchedulerHandler) :
    (reserve n r).wp (fun _ s' => s'.life = s.life) (fun _ _ => False) Calm s := by
  unfold reserve getNode
  simp only [wp_bind, wp_get]
  rcases s.nodes[n]? with _ | ns
  · exact calm_fault _
  · refine wp_liftFault.mpr ⟨fun a _ => ?_, fun f _ => calm_fault f⟩
    exact life_modifyNode fun _ => rfl

theorem quiet_reserve (n : String) (r : NodeResources) : Quiet (reserve n r) := fun s =>
  wp_mono (reserve_spec n r s) (fun _ _ h => h) (fun _ _ h => h.elim) fun _ h => h

theorem freeResource_home {ns ns' : NodeStatus} {r : NodeResources}
    (h : ns.freeResource r = .ok ns') : ns'.home = ns.home := by
  obtain ⟨a, -, ha⟩ := Except.bind_eq_ok.mp h
  rw [← Except.ok.inj ha]
  rfl

theorem quiet_freeNodeResource (n : String) (r : NodeResources) :
    Quiet (freeNodeResource n r) := by
  refine Moves.get_bind fun s => ?_
  rcases hn : s.nodes[n]? with _ | ns
  · rfl
  · rw [wp_bind]
    refine wp_liftFault.mpr ⟨fun ns' hns' => ?_, fun f _ => calm_fault f⟩
    exact life_insertNode hn (freeResource_home hns')

theorem quiet_allocFrom (nr : NodeResources) (req : Resources) (b : Bool) :
    Quiet (allocFrom nr req b) := by
  refine Moves.bind (quiet_liftFault _) fun r => ?_
  rcases r with ⟨e | r, nr'⟩
  · exact Moves.throw e
  · exact Moves.pure r

theorem quiet_allocOnNode (n : String) (req : Resources) (b : Bool) :
    Quiet (allocOnNode n req b) := by
  refine Moves.bind (quiet_getNode n) fun _ => Moves.bind (quiet_liftFault _) fun r => ?_
  refine Moves.bind (Quiet.modify fun _ => life_modifyNode fun _ => rfl) fun _ => ?_
  rcases r with ⟨e | r, nr'⟩
  · exact Moves.throw e
  · exact Moves.pure r

theorem quiet_startWorker (env : Env) (func : Function) (r : NodeResources) (t : CreatePodType)
    (ws : List WorkerPod) (n : String) : Quiet (startWorker env func r t ws n) := by
  refine Moves.bind Moves.get fun s => ?_
  split
  next => exact Moves.bind (Quiet.modify fun _ => life_emit rfl) fun _ => Moves.pure _
  next => exact Moves.throw _

theorem quiet_sendIfAlive (env : Env) (tx : ℕ) {e : Effect} (he : e.handsOut = none) :
    Quiet (sendIfAlive env tx e) := by
  unfold sendIfAlive
  split
  next => exact Quiet.modify fun _ => life_emit he
  next => exact Moves.pure ()

theorem quiet_sendChecked (env : Env) (tx : ℕ) {e : Effect} (he : e.handsOut = none) :
    Quiet (sendChecked env tx e) := by
  unfold sendChecked
  split
  next => exact Quiet.modify fun _ => life_emit he
  next => exact Moves.crash (by simp [Calm])

theorem quiet_refuseLease (env : Env) (req : LeaseWorkerReq) (tx : ℕ) (error : String) :
    Quiet (refuseLease env req tx error) := by
  unfold refuseLease sendLease
  split
  next => exact Quiet.modify fun _ => life_emit rfl
  next => exact Moves.crash (by simp [Calm])

theorem quiet_pushLeaseWorkerReq (env : Env) (f : String) (req : LeaseWorkerReq) (tx : ℕ) :
    Quiet (pushLeaseWorkerReq env f req tx) := by
  refine Moves.bind Moves.get fun s => ?_
  rcases s.funcs[f]? with _ | fs
  · exact Moves.throw _
  · exact Quiet.modify fun _ => life_modifyFunc fun _ => rfl

theorem quiet_initSnapshotTask (env : Env) : Quiet (initSnapshotTask env) := by
  refine Moves.bind Moves.get fun s => Moves.each fun f _ => Moves.each fun n _ => ?_
  split
  next => exact Moves.pure ()
  next => exact quiet_addSnapshotTask env n f

theorem quiet_removeSnapshotFromNode (n f : String) : Quiet (removeSnapshotFromNode n f) := by
  refine Moves.bind Moves.get fun s => ?_
  by_cases h : s!"{f}:{n}" ∈ s.pendingSnapshotRemovals
  · simp only [h, if_true]
    exact Moves.pure ()
  · simp only [h, if_false]
    rcases s.nodes[n]? with _ | ns
    · exact Moves.throw _
    · exact Quiet.modify fun _ => life_emit rfl

theorem quiet_removeSnapshotByFunckey (f : String) : Quiet (removeSnapshotByFunckey f) := by
  refine Moves.bind Moves.get fun s => ?_
  rcases s.snapshots[f]? with _ | m
  · exact Moves.pure ()
  · exact Moves.each fun n _ => Moves.ignore (quiet_removeSnapshotFromNode n f)

theorem quiet_cleanSnapshots : Quiet cleanSnapshots :=
  Moves.bind Moves.get fun _ =>
    Moves.each fun f _ => Moves.ignore (quiet_removeSnapshotByFunckey f)

theorem quiet_failOneLease (env : Env) (f : String) : Quiet (failOneLease env f) := by
  refine Moves.bind Moves.get fun s => ?_
  rcases s.funcs[f]? with _ | fs
  · exact Moves.pure ()
  · rcases hq : fs.leaseWorkerReqs with _ | ⟨q, rest⟩
    · simp only [hq]
      exact Moves.pure ()
    · simp only [hq]
      refine Moves.bind (Quiet.modify fun _ => life_modifyFunc fun _ => rfl) fun _ => ?_
      exact quiet_sendIfAlive env q.tx rfl

/-! ## Billing, snapshots, lists -/

theorem quiet_startSnapshotPodBilling (env : Env) (pod : FuncPod) :
    Quiet (startSnapshotPodBilling env pod) := by
  refine Moves.bind Moves.get fun s => ?_
  dsimp only
  split
  next => exact Moves.pure ()
  next =>
    split
    next => exact Moves.crash (calm_fault _)
    next =>
      split
      next => exact Moves.pure ()
      next =>
        refine Quiet.modify fun _ => life_congr rfl rfl rfl ?_
        simp [grants, Effect.handsOut]

theorem quiet_startStandbyBilling (env : Env) (f : String) : Quiet (startStandbyBilling env f) := by
  refine Moves.bind Moves.get fun s => ?_
  split
  next => exact Moves.pure ()
  next =>
    rcases s.funcs[f]? with _ | fs
    · exact Moves.pure ()
    · simp only
      split
      next => exact Moves.pure ()
      next =>
        split
        next => exact Moves.crash (calm_fault _)
        next =>
          split
          next =>
            refine Quiet.modify fun _ => life_congr rfl rfl rfl ?_
            simp [grants, Effect.handsOut]
          next => exact Moves.pure ()

theorem quiet_recoverStandbyBilling (env : Env) : Quiet (recoverStandbyBilling env) :=
  Moves.bind Moves.get fun _ => Moves.each fun f _ => quiet_startStandbyBilling env f

theorem quiet_listDone (env : Env) (l : ListType) : Quiet (listDone env l) := by
  refine Moves.bind (Quiet.modify fun s => by cases l <;> rfl) fun _ => ?_
  refine Moves.bind Moves.get fun s => ?_
  split
  next =>
    refine Moves.bind (Quiet.modify fun _ => rfl) fun _ => ?_
    exact Moves.bind (quiet_recoverStandbyBilling env) fun _ => Quiet.modify fun _ => rfl
  next => exact Moves.pure ()

theorem quiet_addSnapshot (env : Env) (x : FuncSnapshot) : Quiet (addSnapshot env x) := by
  refine Moves.bind (Quiet.modify fun _ => life_removePendingSnapshot _ _) fun _ => ?_
  refine Moves.bind (Quiet.modify fun _ => rfl) fun _ => ?_
  split
  next => exact quiet_startStandbyBilling env _
  next => exact Moves.pure ()

theorem quiet_updateSnapshot (env : Env) (x : FuncSnapshot) : Quiet (updateSnapshot env x) := by
  refine Moves.bind Moves.get fun s => ?_
  dsimp only
  split
  next =>
    refine Moves.bind (Quiet.modify fun _ => rfl) fun _ => ?_
    split
    next => exact quiet_startStandbyBilling env _
    next => exact Moves.pure ()
  next => exact Moves.pure ()

theorem quiet_drainDueDelayedTasks (env : Env) : Quiet (drainDueDelayedTasks env) := by
  refine Moves.bind Moves.get fun s => Moves.bind (Quiet.modify fun _ => rfl) fun _ => ?_
  exact Moves.each fun t _ => quiet_addTask t.task

theorem quiet_addPeer (node : Node) : Quiet (addPeer node) := by
  refine Moves.bind Moves.get fun s => ?_
  split
  next => exact Moves.crash (by simp [Calm])
  next => exact Quiet.modify fun _ => rfl

theorem quiet_removePeer (node : Node) : Quiet (removePeer node) := by
  refine Moves.bind Moves.get fun s => ?_
  split
  next => exact Quiet.modify fun _ => rfl
  next => exact Moves.crash (by simp [Calm])

/-- A node that is reported again keeps its name. -/
theorem updateNode_spec (node : Node) {s : SchedulerHandler} (hs : s.index.Sound) :
    (updateNode node).wp (fun _ s' => s'.life = s.life) (fun _ s' => s' = s) (fun _ => False) s := by
  unfold updateNode
  rw [wp_bind, wp_get]
  split
  next h =>
    rw [Std.ExtTreeMap.contains_eq_isSome_getElem?] at h
    obtain ⟨ns, hns⟩ := Option.isSome_iff_exists.mp h
    have hname : ns.node.name = node.name := by
      refine hs.named node.name ns.node.name ?_
      show s.nodes[node.name]?.map _ = some ns.node.name
      rw [hns, Option.map_some]
    refine life_congr (index_congr rfl (fun m => ?_) (fun _ => rfl) rfl rfl rfl) rfl rfl rfl
    show (s.nodes.modify node.name _)[m]?.map NodeStatus.home = _
    rw [BTreeMap.get_modify]
    split
    next hm =>
      rw [hm, hns, Option.map_some, Option.map_some, Option.map_some]
      exact congrArg (fun x => some (x, ns.pods)) hname.symm
    next => rfl
  next => rfl

/-! ## What a pod event does beside moving the pod -/

theorem quiet_noteSnapshotPod (env : Env) (pod : FuncPod) : Quiet (noteSnapshotPod env pod) := by
  unfold noteSnapshotPod
  split
  next =>
    refine Moves.bind (Quiet.modify fun _ => rfl) fun _ => ?_
    split
    next => exact Moves.pure ()
    next => exact quiet_startSnapshotPodBilling env pod
  next => exact Moves.pure ()

theorem quiet_noteFailedPod (env : Env) (pod : FuncPod) : Quiet (noteFailedPod env pod) := by
  refine Moves.bind Moves.get fun s => ?_
  rcases s.funcs[pod.funcKey]? with _ | fs
  · exact Moves.pure ()
  · rcases s.funcstatus[pod.funcKey]? with _ | status
    · exact Moves.pure ()
    · simp only
      split
      next =>
        refine Moves.bind (quiet_addSnapshotTask env _ _) fun _ => ?_
        split
        next => exact Quiet.modify fun _ => life_emit rfl
        next => exact Moves.crash (by simp [Calm])
      next => exact Moves.pure ()

theorem quiet_requeueSnapshot (env : Env) (pod : FuncPod) : Quiet (requeueSnapshot env pod) := by
  unfold requeueSnapshot
  split
  next =>
    refine Moves.bind Moves.get fun s => ?_
    split
    next => exact Quiet.modify fun _ => life_removePendingSnapshot _ _
    next =>
      refine Moves.bind (quiet_addSnapshotTask env _ _) fun _ => ?_
      exact Quiet.modify fun _ => life_removePendingSnapshot _ _
  next => exact Moves.pure ()

end Inferx
