import Inferx.Lib.Keys
import Inferx.Lib.Runs
import Inferx.Lib.Strs
import Inferx.Scheduler.Booked
import Inferx.Scheduler.Coherence

/-!
# Removals of snapshots

The snapshots of a function that is gone are removed from the nodes, after its
pods: a pod is resumed from a snapshot. Two handlers ask for removals. The main
timer does so for functions that are unknown and have no pod. An event that
takes a function away stops its pods or removes its snapshots, whichever
`removePodsByFunckey` says; its answer means the opposite of what the caller
reads from it, so the snapshots go exactly when there are pods.

A removal in flight is marked in `pendingSnapshotRemovals` until it has been
answered, so that it is not asked for twice. A node that comes back with a new
epoch loses its marks, although the removals may still be in flight.
-/

namespace Inferx

open Proc SchedulerHandler

/-! ## The pods of a function -/

/-- No pod of the function is tracked. -/
def NoPodsOf (s : SchedulerHandler) (f : String) : Prop :=
  ∀ (k : String) (w : WorkerPod), s.pods[k]? = some w → w.pod.funcKey ≠ f

/-- The names of a pod do not contain the separator of keys. -/
structure FuncPod.Plain (pod : FuncPod) : Prop where
  /-- its tenant -/
  tenant : '/' ∉ pod.tenant.toList
  /-- its namespace -/
  nameSpace : '/' ∉ pod.nameSpace.toList
  /-- its function -/
  funcname : '/' ∉ pod.funcname.toList

instance (pod : FuncPod) : Decidable pod.Plain :=
  decidable_of_iff ('/' ∉ pod.tenant.toList ∧ '/' ∉ pod.nameSpace.toList ∧ '/' ∉ pod.funcname.toList)
    ⟨fun h => ⟨h.1, h.2.1, h.2.2⟩, fun h => ⟨h.1, h.2, h.3⟩⟩

/-- Pods are tracked under their keys, and these can be taken apart. -/
def PlainPods (s : SchedulerHandler) : Prop :=
  ∀ (k : String) (w : WorkerPod), s.pods[k]? = some w → w.pod.podKey = k ∧ w.pod.Plain

theorem toList_podKey (p : FuncPod) : p.podKey.toList = p.tenant.toList ++ '/' ::
    (p.nameSpace.toList ++ '/' :: (p.funcname.toList ++ '/' ::
      ((toString p.fprevision).toList ++ '/' :: p.id.toList))) := by
  simp [FuncPod.podKey, funcPodKey]
  rfl

theorem toList_funcKey (p : FuncPod) : (p.funcKey ++ "/").toList = p.tenant.toList ++ '/' ::
    (p.nameSpace.toList ++ '/' :: (p.funcname.toList ++ '/' ::
      ((toString p.fprevision).toList ++ '/' :: []))) := by
  simp [FuncPod.funcKey, funcObjectKey]
  rfl

/-- A key that starts with the key of a function is the key of one of its pods. -/
theorem funcKey_eq_of_prefix {p q : FuncPod} (hp : p.Plain) (hq : q.Plain)
    (h : (p.funcKey ++ "/").toList <+: q.podKey.toList) : q.funcKey = p.funcKey := by
  rw [toList_funcKey, toList_podKey] at h
  obtain ⟨htenant, h⟩ := List.part_of_prefix hp.tenant hq.tenant h
  obtain ⟨hspace, h⟩ := List.part_of_prefix hp.nameSpace hq.nameSpace h
  obtain ⟨hname, h⟩ := List.part_of_prefix hp.funcname hq.funcname h
  obtain ⟨hrevision, -⟩ :=
    List.part_of_prefix (Strs.not_mem_toString (by decide)) (Strs.not_mem_toString (by decide)) h
  have hrevision' := String.toList_inj.mp hrevision
  unfold FuncPod.funcKey funcObjectKey
  rw [String.toList_inj.mp htenant, String.toList_inj.mp hspace, String.toList_inj.mp hname]
  show _ ++ toString q.fprevision = _ ++ toString p.fprevision
  rw [hrevision']

theorem toList_podKey_append (p : FuncPod) :
    p.podKey.toList = (p.funcKey ++ "/").toList ++ p.id.toList := by
  rw [toList_podKey, toList_funcKey]
  simp

/-- **The scan for pods is exact.** The scan starts at the first key the function
can have and stops at the first pod of another one. -/
theorem noPodsOf_of_hasPod {s : SchedulerHandler} (hs : PlainPods s) {f : String}
    (h : s.hasPod f = false) : NoPodsOf s f := by
  rintro k w hw rfl
  obtain ⟨hkey, hplain⟩ := hs k w hw
  have hsorted : s.pods.toList.Pairwise fun a b => a.1 < b.1 :=
    Std.ExtTreeMap.ordered_keys_toList.imp fun h => compare_lt_iff_lt.mp h
  have hstart : ¬ k < w.pod.funcKey ++ "/" := by
    rw [← hkey, String.lt_iff, toList_podKey_append]
    exact Strs.not_append_lt _ _
  -- The pod itself is in what the scan looks at.
  have hmem : (k, w) ∈ s.pods.toList.dropWhile fun p => decide (p.1 < w.pod.funcKey ++ "/") := by
    have hmem : (k, w) ∈ s.pods.toList := BTreeMap.mem_toList.mpr hw
    rw [← List.takeWhile_append_dropWhile (p := fun p : String × WorkerPod =>
      decide (p.1 < w.pod.funcKey ++ "/")) (l := s.pods.toList)] at hmem
    refine (List.mem_append.mp hmem).resolve_left fun htake => hstart ?_
    have hall := List.all_eq_true.mp (List.all_takeWhile (l := _) (p := _)) (k, w) htake
    simpa using hall
  unfold hasPod podsByFunckey at h
  rcases hdrop : s.pods.toList.dropWhile (fun p => decide (p.1 < w.pod.funcKey ++ "/")) with
    _ | ⟨⟨k', v⟩, rest⟩
  · rw [hdrop] at hmem
    cases hmem
  · have hhead : (k', v) ∈ s.pods.toList.dropWhile fun p => decide (p.1 < w.pod.funcKey ++ "/") := by
      rw [hdrop]
      exact List.mem_cons_self ..
    have hv : (k', v) ∈ s.pods.toList := (List.dropWhile_sublist _).subset hhead
    obtain ⟨hkey', hplain'⟩ := hs k' v (BTreeMap.mem_toList.mp hv)
    have hfirst : ¬ k' < w.pod.funcKey ++ "/" := by
      have hhead := List.head?_dropWhile_not (fun p : String × WorkerPod =>
        decide (p.1 < w.pod.funcKey ++ "/")) s.pods.toList
      rw [hdrop] at hhead
      simpa using hhead
    -- What comes first is not behind the pod, so its key starts as the pod's does.
    have hbefore : ¬ k < k' := by
      rw [hdrop] at hmem
      rcases List.mem_cons.mp hmem with heq | hrest
      · rw [(Prod.mk.inj heq).1]
        exact lt_irrefl k'
      · have hpair := hsorted.sublist (List.dropWhile_sublist fun p : String × WorkerPod =>
          decide (p.1 < w.pod.funcKey ++ "/"))
        rw [hdrop] at hpair
        exact lt_asymm ((List.pairwise_cons.mp hpair).1 (k, w) hrest)
    have hprefix : (w.pod.funcKey ++ "/").toList <+: v.pod.podKey.toList := by
      rw [hkey']
      refine List.prefix_of_between (b := w.pod.id.toList) ?_ ?_
      · rw [← String.lt_iff]
        exact hfirst
      · rw [← toList_podKey_append, ← String.lt_iff, hkey]
        exact hbefore
    have hsame := funcKey_eq_of_prefix hplain hplain' hprefix
    rw [hdrop] at h
    simp [hsame] at h

/-! ## Tracked pods -/

/-- The tracked pods after a step were tracked before, or have just been
reported. -/
def PodsFrom (r : Option FuncPod) (s t : SchedulerHandler) : Prop :=
  ∀ (k : String) (w : WorkerPod), t.pods[k]? = some w →
    s.pods[k]? = some w ∨ ∃ pod ∈ r, w.pod = pod ∧ k = pod.podKey

instance (r : Option FuncPod) : IsPreorder SchedulerHandler (PodsFrom r) where
  refl _ _ _ h := Or.inl h
  trans _ _ _ h₁ h₂ k w h := (h₂ k w h).elim (h₁ k w) Or.inr

theorem PodsFrom.of_pods {r : Option FuncPod} {s t : SchedulerHandler} (h : t.pods = s.pods) :
    PodsFrom r s t := by
  intro k w hw
  rw [h] at hw
  exact Or.inl hw

/-- The procedure tracks no pods but the reported one. -/
abbrev Tracks {α : Type} (r : Option FuncPod) (x : SchedM α) : Prop :=
  Moves (PodsFrom r) (fun _ => True) x

theorem Framed.tracks {α : Type} {x : SchedM α} (h : Framed x) (r : Option FuncPod) : Tracks r x :=
  Moves.mono h (fun _ _ h => .of_pods (congrArg Prod.snd h)) fun _ _ => trivial

theorem podsFrom_insert {pod : FuncPod} {s : SchedulerHandler} {w : WorkerPod} (hw : w.pod = pod) :
    PodsFrom (some pod) s { s with pods := s.pods.insert w.pod.podKey w } := by
  intro k v hv
  replace hv : (s.pods.insert w.pod.podKey w)[k]? = some v := hv
  rw [BTreeMap.get_insert] at hv
  split at hv
  next hk =>
    obtain rfl := Option.some.inj hv
    refine Or.inr ⟨pod, rfl, hw, ?_⟩
    rw [hk, hw]
  next => exact Or.inl hv

theorem tracks_addPod (env : Env) (pod : FuncPod) : Tracks (some pod) (addPod env pod) := by
  have htail : ∀ w : WorkerPod, w.pod = pod → Tracks (some pod) (do
      trackNew w
      noteSnapshotPod env pod
      Proc.modify (·.enlistIdle w)
      addPodToNode w
      Proc.modify (·.addPodToFunc w)) := by
    intro w hw
    refine Moves.bind ?_ fun _ => Framed.tracks (Moves.bind (framed_noteSnapshotPod env pod) fun _ =>
      Moves.bind (Framed.modify fun _ => catalog_enlistIdle w) fun _ =>
        Moves.bind (framed_addPodToNode w) fun _ => Framed.modify fun _ => catalog_addPodToFunc w) _
    refine Moves.bind Moves.get fun s => ?_
    split
    next => exact Moves.crash trivial
    next => exact Moves.modify fun _ => podsFrom_insert hw
  intro s
  exact MovesFrom.wp_bind_of (x := newWorkerPod pod) ⟨.of_pods rfl, htail ⟨s.nextWorker, pod⟩ rfl _⟩

theorem tracks_updatePod (env : Env) (pod : FuncPod) : Tracks (some pod) (updatePod env pod) := by
  have htail : ∀ w : WorkerPod, w.pod = pod → Tracks (some pod) (do
      let oldPod ← retrack w
      Proc.modify (·.keepLease oldPod w)
      updatePodOnNode w oldPod
      let addToIdle ← updatePodInFunc env w
      Proc.modify fun s => if addToIdle then s.putIdle pod.podKey else s) := by
    intro w hw
    refine Moves.bind ?_ fun old => Framed.tracks (Moves.bind
      (Framed.modify fun _ => catalog_keepLease old w) fun _ =>
        Moves.bind (framed_updatePodOnNode w old) fun _ =>
          Moves.bind (framed_updatePodInFunc env w) fun b => Framed.modify fun s => ?_) _
    · refine Moves.bind Moves.get fun s => ?_
      split
      next => exact Moves.crash trivial
      next => exact Moves.bind (Moves.modify fun _ => podsFrom_insert hw) fun _ => Moves.pure _
    · split
      next => rfl
      next => rfl
  intro s
  exact MovesFrom.wp_bind_of (x := newWorkerPod pod) ⟨.of_pods rfl, htail ⟨s.nextWorker, pod⟩ rfl _⟩

theorem tracks_removePod (env : Env) (pod : FuncPod) : Tracks none (removePod env pod) := by
  refine Moves.bind (Framed.tracks (Framed.modify fun _ => catalog_closePod env pod) _) fun _ => ?_
  refine Moves.bind ?_ fun _ => Moves.bind ((framed_noteFailedPod env pod).tracks _) fun _ => ?_
  · refine Moves.bind Moves.get fun s => ?_
    split
    next => exact Moves.crash trivial
    next =>
      refine Moves.modify fun s k w hw => Or.inl ?_
      exact (BTreeMap.get_erase_eq_some.mp hw).2
  · refine Moves.bind ?_ fun _ => Moves.bind (Moves.modify fun _ => .of_pods rfl) fun _ => ?_
    · exact fun s => wp_mono (requeueSnapshot_books env pod s)
        (fun _ _ h => .of_pods (congrArg Prod.snd h)) (fun _ _ h => .of_pods (congrArg Prod.snd h))
        fun _ _ => trivial
    · refine Moves.bind (Moves.bind Moves.get fun s => ?_) fun _ => Moves.modify fun _ => .of_pods rfl
      split
      next => exact Moves.pure ()
      next =>
        refine Moves.bind ((framed_liftFault _).tracks _) fun _ => ?_
        exact Moves.modify fun _ => .of_pods rfl

theorem tracks_removePods (env : Env) (pods : BTreeMap String WorkerPod) :
    Tracks none (removePods env pods) :=
  Moves.each fun p _ => Moves.ignore (tracks_removePod env p.2.pod)

theorem forgetSnapshotsOn_pods {s : SchedulerHandler} (n : String) :
    (s.forgetSnapshotsOn n).pods = s.pods :=
  congrArg Prod.snd (catalog_removePendingSnapshotsOn (s := { s with snapshots := _ }) n)

theorem tracks_cleanNode (env : Env) (n : String) : Tracks none (cleanNode env n) := by
  refine Moves.bind Moves.get fun s => Moves.bind (Moves.modify fun _ => .of_pods rfl) fun _ => ?_
  refine Moves.bind (tracks_removePods env _) fun _ => ?_
  refine Moves.bind (Framed.tracks (Framed.modify fun _ => catalog_cleanFuncStatusForNode n) _) fun _ => ?_
  refine Moves.bind Moves.get fun s => Moves.bind (tracks_removePods env _) fun _ => ?_
  refine Moves.bind (Moves.modify fun _ => .of_pods (forgetSnapshotsOn_pods n)) fun _ => ?_
  refine Moves.bind Moves.get fun s => ?_
  split
  next => exact Moves.pure ()
  next ns _ => exact Moves.ignore ((framed_removeNode ns.node).tracks _)

theorem tracks_checkNodeEpoch (env : Env) (n : String) (epoch : ℤ) :
    Tracks none (checkNodeEpoch env n epoch) := by
  refine Moves.bind Moves.get fun s => ?_
  split
  next => exact Moves.modify fun _ => .of_pods rfl
  next =>
    split
    next => exact Moves.pure ()
    next => exact Moves.bind (tracks_cleanNode env n) fun _ => Moves.modify fun _ => .of_pods rfl

theorem tracks_reconcile (n : String) (node : Node) :
    Tracks none (reconcileNodeAfterNodeAgentRestart n node) := by
  refine Moves.bind Moves.get fun s => ?_
  split
  next => exact Moves.pure ()
  next =>
    refine Moves.bind (Moves.modify fun s k w hw => Or.inl ?_) fun _ => ?_
    · replace hw : (eraseAll _ s.pods)[k]? = some w := hw
      rw [get_eraseAll] at hw
      split at hw
      next => cases hw
      next => exact hw
    · refine Framed.tracks (Moves.bind (framed_liftFault _) fun _ => ?_) _
      refine Moves.bind (Framed.modify fun _ => rfl) fun _ => ?_
      refine Moves.bind (Moves.each fun p _ => framed_syncWorker p.2) fun _ => ?_
      exact Framed.modify fun _ => catalog_removePendingSnapshotsOn _

/-- The pod a handler takes from the store. -/
def Handler.reports : Handler → Option FuncPod
  | .event (.podAdded pod) => some pod
  | .event (.podModified pod) => some pod
  | _ => none

theorem PodsFrom.mono {r r' : Option FuncPod} {s t : SchedulerHandler} (h : PodsFrom r s t)
    (hr : ∀ pod ∈ r, pod ∈ r') : PodsFrom r' s t := fun k w hw =>
  (h k w hw).imp_right fun ⟨pod, hpod, heq⟩ => ⟨pod, hr pod hpod, heq⟩

theorem tracks_addTask (task : SchedTask) : Tracks none (addTask task) := by
  refine Moves.bind Moves.get fun s => ?_
  split
  next => exact Moves.modify fun _ => .of_pods rfl
  next => exact Moves.crash trivial

theorem tracks_addFunc (spec : Function) : Tracks none (addFunc spec) := by
  refine Moves.bind Moves.get fun s => ?_
  split
  next => exact Moves.throw _
  next => exact Moves.modify fun _ => .of_pods rfl

theorem tracks_startFunc (env : Env) (f : String) : Tracks none (startFunc env f) :=
  Moves.bind ((framed_processAddFunc env f).tracks _) fun _ => tracks_addTask _

theorem tracks_removeFunc (env : Env) (spec : Function) : Tracks none (removeFunc env spec) := by
  refine Moves.bind Moves.get fun s => ?_
  split
  next =>
    refine Moves.bind (Moves.modify fun _ => .of_pods rfl) fun _ => Moves.modify fun s => .of_pods ?_
    unfold endStandbyBilling
    split
    next => rfl
    next => rfl
  next => exact Moves.throw _

theorem tracks_processMsg (env : Env) (m : WorkerHandlerMsg) : Tracks none (processMsg env m) := by
  cases m with
  | connectScheduler req tx =>
    refine Framed.tracks (Moves.bind (framed_processConnectReq env req tx) fun b => ?_) _
    split
    next => exact framed_completeWarmupAfterConnect env
    next => exact Moves.pure ()
  | leaseWorker req tx => exact (framed_processLeaseWorkerReq env req tx).tracks _
  | returnWorker req tx => exact (framed_processReturnWorkerReq env req tx).tracks _
  | killPod req tx => exact (framed_processKillPod env req tx).tracks _
  | refreshGateway g => exact Moves.modify fun _ => .of_pods rfl
  | cleanupDuplicateSnapshot rpc => exact (framed_processCleanupDuplicateSnapshot rpc).tracks _
  | resumeWorkerComplete rpc result =>
    exact (framed_processResumeWorkerComplete env rpc result).tracks _
  | startWorkerComplete rpc result =>
    exact fun s => wp_mono (framed_processStartWorkerComplete env rpc result)
      (fun _ _ h => .of_pods (congrArg Prod.snd h)) (fun _ _ h => .of_pods (congrArg Prod.snd h))
      fun _ _ => trivial
  | removeSnapshotComplete f n ok =>
    refine Moves.modify fun s => .of_pods ?_
    unfold processRemoveSnapshotComplete
    dsimp only
    split
    next => rfl
    next => rfl
  | stopWorkerComplete k ok => exact Moves.modify fun _ => .of_pods rfl

theorem Removes.tracks {α : Type} {x : SchedM α} (h : Moves Removes Tame x) : Tracks none x :=
  Moves.mono h (fun _ _ h => .of_pods h.pods) fun _ _ => trivial

theorem Opens.tracks {α : Type} {x : SchedM α} (h : Moves Opens Tame x) : Tracks none x :=
  Moves.mono h (fun _ _ h => .of_pods h.pods) fun _ _ => trivial

theorem tracks_addSnapshot (env : Env) (x : FuncSnapshot) : Tracks none (addSnapshot env x) := by
  refine Moves.bind (Framed.tracks (Framed.modify fun _ => catalog_removePendingSnapshot _ _) _)
    fun _ => Moves.bind (Moves.modify fun _ => .of_pods rfl) fun _ => ?_
  split
  next => exact Opens.tracks (opens_startStandbyBilling env _)
  next => exact Moves.pure ()

theorem tracks_updateSnapshot (env : Env) (x : FuncSnapshot) : Tracks none (updateSnapshot env x) := by
  refine Moves.bind Moves.get fun s => ?_
  dsimp only
  split
  next =>
    refine Moves.bind (Moves.modify fun _ => .of_pods rfl) fun _ => ?_
    split
    next => exact Opens.tracks (opens_startStandbyBilling env _)
    next => exact Moves.pure ()
  next => exact Moves.pure ()

theorem tracks_processEvent (env : Env) (e : DeltaEvent) :
    Tracks (Handler.event e).reports (processEvent env e) := by
  have hnone : ∀ {α : Type} {x : SchedM α} {r : Option FuncPod}, Tracks none x → Tracks r x :=
    fun h => Moves.mono h (fun _ _ h => h.mono fun _ h => (nomatch h)) fun _ h => h
  cases e with
  | funcAdded func =>
    refine Moves.bind (tracks_addFunc func) fun _ => Moves.bind Moves.get fun s => ?_
    split
    next => exact tracks_startFunc env _
    next => exact Moves.pure ()
  | funcModified old spec =>
    refine Moves.bind (Removes.tracks (removes_processRemoveFunc env old)) fun _ => ?_
    refine Moves.bind (tracks_removeFunc env old) fun _ => ?_
    refine Moves.bind (tracks_addFunc spec) fun _ => Moves.bind Moves.get fun s => ?_
    split
    next => exact tracks_startFunc env _
    next => exact Moves.pure ()
  | funcDeleted spec =>
    exact Moves.bind (Removes.tracks (removes_processRemoveFunc env spec)) fun _ =>
      tracks_removeFunc env spec
  | nodeAdded node =>
    refine Moves.bind (tracks_checkNodeEpoch env _ _) fun _ => Framed.tracks ?_ _
    exact Moves.bind (framed_addPeer node) fun _ => framed_addNode env node
  | nodeModified node =>
    refine Moves.bind Moves.get fun s => Moves.bind ((framed_updateNode node).tracks _) fun _ => ?_
    split
    next => exact tracks_reconcile _ node
    next => exact Moves.pure ()
  | nodeDeleted node =>
    exact Framed.tracks (Moves.bind (framed_removePeer node) fun _ => framed_removeNode node) _
  | podAdded pod =>
    exact Moves.bind (hnone (tracks_checkNodeEpoch env _ _)) fun _ => tracks_addPod env pod
  | podModified pod => exact tracks_updatePod env pod
  | podDeleted pod => exact tracks_removePod env pod
  | snapshotAdded snapshot =>
    exact Moves.bind (tracks_checkNodeEpoch env _ _) fun _ => tracks_addSnapshot env snapshot
  | snapshotModified snapshot => exact tracks_updateSnapshot env snapshot
  | initDone l => exact Opens.tracks (opens_listDone env l)
  | _ => exact Moves.modify fun _ => .of_pods rfl

theorem run_tracks (env : Env) (h : Handler) : Tracks h.reports (h.run env) := by
  cases h with
  | msg m => exact tracks_processMsg env m
  | event e => exact tracks_processEvent env e
  | task =>
    refine Moves.bind Moves.get fun s => ?_
    split
    next => exact Moves.pure ()
    next =>
      refine Moves.bind (Moves.modify fun _ => .of_pods rfl) fun _ s => ?_
      exact wp_mono (creates_processTask env _) (fun _ _ h => .of_pods h.pods)
        (fun _ _ h => .of_pods h.pods) fun _ _ => trivial
  | delayTick =>
    refine Moves.bind Moves.get fun s => Moves.bind (Moves.modify fun _ => .of_pods rfl) fun _ => ?_
    exact Moves.each fun t _ => tracks_addTask t.task
  | billingTick =>
    refine Moves.modify fun s => .of_pods ?_
    unfold emitPeriodicBillingTicks
    split
    next => rfl
    next => rfl
  | standbyTick => exact Moves.modify fun _ => .of_pods rfl
  | warmup => exact (framed_checkAndCompleteWarmup env).tracks _
  | refresh => exact (framed_refreshScheduling env).tracks _
  | cleanPods => exact (framed_cleanPods env).tracks _
  | cleanSnapshots => exact Removes.tracks removes_cleanSnapshots
  | gatewayTimeout =>
    exact Framed.tracks (Framed.modify fun _ => catalog_processGatewayTimeout env) _
  | stuckLeases =>
    exact Framed.tracks (Framed.modify fun _ => catalog_reconcileAllStuckLeaseRequests env 30000) _

/-! ## Asking for removals -/

/-- A removal as it is marked. -/
def removalKey (p : String × String) : String := s!"{p.1}:{p.2}"

/-- Removals have been asked for, of functions of `F` and each marked once. -/
structure Asks (F : String → Prop) (s t : SchedulerHandler) : Prop where
  /-- no pod has come or gone -/
  pods : t.pods = s.pods
  /-- what has been asked for -/
  asked : ∃ l, t.books.removed = s.books.removed ++ l ∧
    t.books.removals = s.books.removals ∪ (l.map removalKey).toFinset ∧
    (∀ p ∈ l, F p.1 ∧ removalKey p ∉ s.books.removals) ∧ (l.map removalKey).Nodup

theorem Asks.of_catalog {F : String → Prop} {s t : SchedulerHandler} (h : t.catalog = s.catalog) :
    Asks F s t := by
  have hbooks := books_of_catalog h
  refine ⟨congrArg Prod.snd h, [], ?_, ?_, fun _ h => (nomatch h), List.nodup_nil⟩
  · rw [hbooks, List.append_nil]
  · rw [hbooks]
    simp

instance (F : String → Prop) : IsPreorder SchedulerHandler (Asks F) where
  refl _ := .of_catalog rfl
  trans s t u h₁ h₂ := by
    obtain ⟨l₁, hremoved₁, hremovals₁, hall₁, hnodup₁⟩ := h₁.asked
    obtain ⟨l₂, hremoved₂, hremovals₂, hall₂, hnodup₂⟩ := h₂.asked
    refine ⟨h₂.pods.trans h₁.pods, l₁ ++ l₂, ?_, ?_, fun p hp => ?_, ?_⟩
    · rw [hremoved₂, hremoved₁, List.append_assoc]
    · rw [hremovals₂, hremovals₁, List.map_append, List.toFinset_append, Finset.union_assoc]
    · rcases List.mem_append.mp hp with hp | hp
      · exact hall₁ p hp
      · obtain ⟨hF, hfresh⟩ := hall₂ p hp
        rw [hremovals₁, Finset.mem_union, not_or] at hfresh
        exact ⟨hF, hfresh.1⟩
    · rw [List.map_append]
      refine List.nodup_append.mpr ⟨hnodup₁, hnodup₂, fun a ha b hb hab => ?_⟩
      obtain ⟨p, hp, rfl⟩ := List.mem_map.mp hb
      obtain ⟨-, hfresh⟩ := hall₂ p hp
      rw [hremovals₁, Finset.mem_union, not_or, List.mem_toFinset] at hfresh
      exact hfresh.2 (hab ▸ ha)

theorem asks_removeSnapshotFromNode {F : String → Prop} {f : String} (hf : F f) (n : String) :
    Moves (Asks F) (fun _ => True) (removeSnapshotFromNode n f) := by
  refine Moves.get_bind fun s => ?_
  dsimp only
  split
  next => exact Std.Refl.refl s
  next hfresh =>
    split
    next => exact Std.Refl.refl s
    next =>
      refine ⟨rfl, [(f, n)], ?_, ?_, fun p hp => ?_, List.nodup_singleton _⟩
      · simp [books, emit, Effect.removes]
      · show insert s!"{f}:{n}" s.pendingSnapshotRemovals = _
        rw [Finset.union_comm]
        rfl
      · obtain rfl := List.mem_singleton.mp hp
        exact ⟨hf, hfresh⟩

theorem asks_removeSnapshotByFunckey {F : String → Prop} {f : String} (hf : F f) :
    Moves (Asks F) (fun _ => True) (removeSnapshotByFunckey f) := by
  refine Moves.bind Moves.get fun s => ?_
  split
  next => exact Moves.pure ()
  next => exact Moves.each fun n _ => Moves.ignore (asks_removeSnapshotFromNode hf n)

/-- The main timer asks for removals of functions without pods. -/
theorem asks_cleanSnapshots {s : SchedulerHandler} (hs : PlainPods s) :
    cleanSnapshots.wp (fun _ t => Asks (NoPodsOf s) s t) (fun _ t => Asks (NoPodsOf s) s t)
      (fun _ => True) s := by
  unfold cleanSnapshots
  rw [wp_bind, wp_get]
  refine Moves.each (R := Asks (NoPodsOf s)) (fun f hf => Moves.ignore (asks_removeSnapshotByFunckey ?_)) s
  have hgone := (List.mem_filter.mp hf).2
  rw [Bool.and_eq_true, Bool.not_eq_true', Bool.not_eq_true'] at hgone
  exact noPodsOf_of_hasPod hs hgone.2

theorem podsByFunckey_eq_nil {s : SchedulerHandler} {f : String} (h : NoPodsOf s f) :
    s.podsByFunckey f = [] := by
  refine List.eq_nil_iff_forall_not_mem.mpr fun w hw => ?_
  unfold podsByFunckey at hw
  have hfunc := List.all_eq_true.mp (List.all_takeWhile (l := _) (p := _)) w hw
  obtain ⟨⟨k, v⟩, hkv, rfl⟩ := List.mem_map.mp ((List.takeWhile_sublist _).subset hw)
  have htracked := BTreeMap.mem_toList.mp ((List.dropWhile_sublist _).subset hkv)
  exact h k v htracked (by simpa using hfunc)

/-- A function without pods, or without snapshots, goes without asking for
removals. -/
theorem processRemoveFunc_quiet (env : Env) (spec : Function) {s : SchedulerHandler}
    (h : NoPodsOf s spec.id ∨ s.snapshots[spec.id]? = none) :
    (processRemoveFunc env spec).wp (fun _ t => t.catalog = s.catalog)
      (fun _ t => t.catalog = s.catalog) (fun _ => True) s := by
  unfold processRemoveFunc
  rw [wp_bind]
  rcases h with h | h
  · unfold removePodsByFunckey
    rw [wp_bind, wp_get, podsByFunckey_eq_nil h]
    rfl
  · refine wp_mono (framed_removePodsByFunckey env spec.id s) (fun b t ht => ?_) (fun _ _ h => h)
      fun _ _ => trivial
    split
    next => exact ht
    next =>
      unfold removeSnapshotByFunckey
      rw [wp_bind, wp_get]
      have hsnapshots : t.snapshots = s.snapshots := congrArg Books.snapshots (books_of_catalog ht)
      rw [hsnapshots, h]
      exact ht

/-! ## What a handler asks for -/

/-- The removals a handler asks for: each is marked, has not been marked in
`base`, and is of a function without pods. -/
structure Issues (base : Finset String) (s t : SchedulerHandler) : Prop where
  /-- the marks -/
  marks : t.books.removals = base ∪ (t.books.removed.map removalKey).toFinset
  /-- they are new -/
  fresh : ∀ p ∈ t.books.removed, removalKey p ∉ base
  /-- no removal is asked for twice -/
  nodup : (t.books.removed.map removalKey).Nodup
  /-- the functions have no pods -/
  alone : ∀ p ∈ t.books.removed, NoPodsOf s p.1

theorem Issues.of_none {base : Finset String} {s t : SchedulerHandler} (hremoved : t.books.removed = [])
    (hmarks : t.books.removals = base) : Issues base s t := by
  refine ⟨?_, fun p hp => ?_, ?_, fun p hp => ?_⟩
  · rw [hmarks, hremoved]
    simp
  · rw [hremoved] at hp
    cases hp
  · rw [hremoved]
    exact List.nodup_nil
  · rw [hremoved] at hp
    cases hp

theorem Issues.of_asks {s t : SchedulerHandler} (hs : s.books.removed = [])
    (h : Asks (NoPodsOf s) s t) : Issues s.books.removals s t := by
  obtain ⟨l, hremoved, hremovals, hall, hnodup⟩ := h.asked
  rw [hs, List.nil_append] at hremoved
  refine ⟨?_, fun p hp => ?_, ?_, fun p hp => ?_⟩
  · rw [hremovals, hremoved]
  · rw [hremoved] at hp
    exact (hall p hp).2
  · rw [hremoved]
    exact hnodup
  · rw [hremoved] at hp
    exact (hall p hp).1

/-- The procedure does not ask for removals and keeps the marks. -/
abbrev Silent {α : Type} (s : SchedulerHandler) (x : SchedM α) : Prop :=
  x.wp (fun _ t => t.books.removed = s.books.removed ∧ t.books.removals = s.books.removals)
    (fun _ t => t.books.removed = s.books.removed ∧ t.books.removals = s.books.removals)
    (fun _ => True) s

theorem Booked.silent {α : Type} {x : SchedM α} (h : Booked x) (s : SchedulerHandler) : Silent s x :=
  wp_mono (h s) (fun _ t ht => by rw [ht]; exact ⟨rfl, rfl⟩) (fun _ t ht => by rw [ht]; exact ⟨rfl, rfl⟩)
    fun _ _ => trivial

theorem Framed.silent {α : Type} {x : SchedM α} (h : Framed x) (s : SchedulerHandler) : Silent s x :=
  Booked.silent (Framed.booked h) s

theorem Opens.silent {α : Type} {x : SchedM α} (h : Moves Opens Tame x) (s : SchedulerHandler) :
    Silent s x :=
  wp_mono (h s) (fun _ t ht => by rw [ht.books]; exact ⟨rfl, rfl⟩)
    (fun _ t ht => by rw [ht.books]; exact ⟨rfl, rfl⟩) fun _ _ => trivial

theorem Queues.silent {α : Type} {F : String → Prop} {x : SchedM α} (h : Moves (Queues F) Tame x)
    (s : SchedulerHandler) : Silent s x :=
  wp_mono (h s) (fun _ t ht => by rw [ht.books]; exact ⟨rfl, rfl⟩)
    (fun _ t ht => by rw [ht.books]; exact ⟨rfl, rfl⟩) fun _ _ => trivial

theorem Silent.bind {α β : Type} {s : SchedulerHandler} {x : SchedM α} {g : α → SchedM β}
    (hx : Silent s x) (hg : ∀ a t, Silent t (g a)) : Silent s (x >>= g) := by
  rw [Silent, wp_bind]
  refine wp_mono hx (fun a t ht => ?_) (fun _ _ h => h) fun _ h => h
  exact wp_mono (hg a t) (fun _ u hu => ⟨hu.1.trans ht.1, hu.2.trans ht.2⟩)
    (fun _ u hu => ⟨hu.1.trans ht.1, hu.2.trans ht.2⟩) fun _ h => h

theorem silent_addFunc (spec : Function) (s : SchedulerHandler) : Silent s (addFunc spec) :=
  wp_mono (addFunc_books spec s) (fun _ t ht => by rw [ht.2]; exact ⟨rfl, rfl⟩)
    (fun _ t ht => by rw [ht.2]; exact ⟨rfl, rfl⟩) fun _ h => h.elim

theorem silent_removeFunc (env : Env) (spec : Function) (s : SchedulerHandler) :
    Silent s (removeFunc env spec) :=
  wp_mono (removeFunc_books env spec s) (fun _ t ht => by rw [ht]; exact ⟨rfl, rfl⟩)
    (fun _ t ht => by rw [ht]; exact ⟨rfl, rfl⟩) fun _ h => h.elim

theorem silent_processRemoveFunc (env : Env) (spec : Function) {s : SchedulerHandler}
    (h : NoPodsOf s spec.id ∨ s.snapshots[spec.id]? = none) : Silent s (processRemoveFunc env spec) :=
  wp_mono (processRemoveFunc_quiet env spec h)
    (fun _ t ht => by rw [books_of_catalog ht]; exact ⟨rfl, rfl⟩)
    (fun _ t ht => by rw [books_of_catalog ht]; exact ⟨rfl, rfl⟩) fun _ h => h

theorem silent_setSnapshots (env : Env) {s : SchedulerHandler} {b : Prop} [Decidable b] {f : String}
    {g : SchedulerHandler → BTreeMap String (BTreeMap String ContainerSnapshot)} :
    Silent s (do
      Proc.modify fun s => { s with snapshots := g s }
      if b then startStandbyBilling env f else return () : SchedM Unit) := by
  refine Silent.bind (x := Proc.modify _) ⟨rfl, rfl⟩ fun _ t => ?_
  split
  next => exact Opens.silent (opens_startStandbyBilling env f) t
  next => exact ⟨rfl, rfl⟩

/-- The marks of a handler's start that it keeps. -/
def Handler.marksKept (s : SchedulerHandler) : Handler → Finset String
  | .msg (.removeSnapshotComplete f n _) => s.books.removals.erase (removalKey (f, n))
  | .event (.nodeAdded node) => kept node.name node.nodeEpoch
  | .event (.podAdded pod) => kept pod.nodename pod.srcEpoch
  | .event (.snapshotAdded snapshot) => kept snapshot.object.nodename snapshot.srcEpoch
  | _ => s.books.removals
where
  kept (n : String) (epoch : ℤ) : Finset String :=
    if NewEpoch s n epoch then s.books.removals.filter fun key => ¬ RemovalOn n key
    else s.books.removals

theorem Handler.marksKept_out (s : SchedulerHandler) (h : Handler) :
    h.marksKept { s with out := [] } = h.marksKept s := by
  cases h with
  | msg m => cases m <;> rfl
  | event e => cases e <;> rfl
  | _ => rfl

/-- A function goes when it has no pods, or no snapshots. -/
def Handler.RemoveOk (s : SchedulerHandler) : Handler → Prop
  | .event (.funcModified oldspec _) => NoPodsOf s oldspec.id ∨ s.snapshots[oldspec.id]? = none
  | .event (.funcDeleted spec) => NoPodsOf s spec.id ∨ s.snapshots[spec.id]? = none
  | _ => True

/-- A handler that asks for nothing. -/
theorem Issues.of_silent {s : SchedulerHandler} {x : SchedM Unit} (hs : s.books.removed = [])
    (hx : Silent s x) : x.wp (fun _ t => Issues s.books.removals s t)
      (fun _ t => Issues s.books.removals s t) (fun _ => True) s :=
  wp_mono hx (fun _ _ ht => .of_none (ht.1.trans hs) ht.2) (fun _ _ ht => .of_none (ht.1.trans hs) ht.2)
    fun _ h => h

theorem Issues.of_epoch {env : Env} {n : String} {epoch : ℤ} {s : SchedulerHandler}
    {g : Unit → SchedM Unit} (hs : s.books.removed = []) (hg : ∀ t, Silent t (g ())) :
    (checkNodeEpoch env n epoch >>= g).wp (fun _ t => Issues (Handler.marksKept.kept s n epoch) s t)
      (fun _ t => Issues (Handler.marksKept.kept s n epoch) s t) (fun _ => True) s := by
  rw [wp_bind]
  refine wp_mono (checkNodeEpoch_books env n epoch s) (fun _ t ht => ?_) (fun _ _ h => h.elim)
    fun _ _ => trivial
  have hst : t.books.removed = [] ∧ t.books.removals = Handler.marksKept.kept s n epoch := by
    unfold Handler.marksKept.kept
    rcases ht with ⟨hold, ht⟩ | ⟨hnew, ht⟩
    · rw [if_neg hold, ht]
      exact ⟨hs, rfl⟩
    · rw [if_pos hnew, ht.removed, ht.removals]
      exact ⟨hs, rfl⟩
  exact wp_mono (hg t) (fun _ u hu => .of_none (hu.1.trans hst.1) (hu.2.trans hst.2))
    (fun _ u hu => .of_none (hu.1.trans hst.1) (hu.2.trans hst.2)) fun _ h => h

theorem silent_addSnapshot (env : Env) (x : FuncSnapshot) (s : SchedulerHandler) :
    Silent s (addSnapshot env x) := by
  refine Silent.bind (Framed.silent (Framed.modify fun _ => catalog_removePendingSnapshot _ _) s)
    fun _ t => ?_
  exact silent_setSnapshots env

theorem silent_updateSnapshot (env : Env) (x : FuncSnapshot) (s : SchedulerHandler) :
    Silent s (updateSnapshot env x) := by
  refine Silent.bind (Framed.silent Moves.get s) fun u t => ?_
  dsimp only
  split
  next => exact silent_setSnapshots env
  next => exact ⟨rfl, rfl⟩

theorem processMsg_issues (env : Env) (m : WorkerHandlerMsg) {s : SchedulerHandler}
    (hs : s.books.removed = []) :
    (processMsg env m).wp (fun _ t => Issues ((Handler.msg m).marksKept s) s t)
      (fun _ t => Issues ((Handler.msg m).marksKept s) s t) (fun _ => True) s := by
  cases m with
  | connectScheduler req tx =>
    refine Issues.of_silent hs (Framed.silent (Moves.bind (framed_processConnectReq env req tx)
      fun b => ?_) s)
    split
    next => exact framed_completeWarmupAfterConnect env
    next => exact Moves.pure ()
  | leaseWorker req tx =>
    exact Issues.of_silent hs ((framed_processLeaseWorkerReq env req tx).silent s)
  | returnWorker req tx =>
    exact Issues.of_silent hs ((framed_processReturnWorkerReq env req tx).silent s)
  | killPod req tx => exact Issues.of_silent hs ((framed_processKillPod env req tx).silent s)
  | refreshGateway g => exact Issues.of_none hs rfl
  | cleanupDuplicateSnapshot rpc =>
    exact Issues.of_silent hs ((framed_processCleanupDuplicateSnapshot rpc).silent s)
  | resumeWorkerComplete rpc result =>
    exact Issues.of_silent hs ((framed_processResumeWorkerComplete env rpc result).silent s)
  | startWorkerComplete rpc result =>
    refine Issues.of_silent hs (wp_mono (framed_processStartWorkerComplete env rpc result)
      (fun _ t ht => ?_) (fun _ t ht => ?_) fun _ _ => trivial)
    · rw [books_of_catalog ht]
      exact ⟨rfl, rfl⟩
    · rw [books_of_catalog ht]
      exact ⟨rfl, rfl⟩
  | removeSnapshotComplete f n ok =>
    show Issues _ s (s.processRemoveSnapshotComplete f n ok)
    unfold processRemoveSnapshotComplete
    dsimp only
    split
    next => exact Issues.of_none hs rfl
    next => exact Issues.of_none hs rfl
  | stopWorkerComplete k ok => exact Issues.of_none hs rfl

theorem processEvent_issues (env : Env) (e : DeltaEvent) {s : SchedulerHandler}
    (hs : s.books.removed = []) (hok : (Handler.event e).RemoveOk s) :
    (processEvent env e).wp (fun _ t => Issues ((Handler.event e).marksKept s) s t)
      (fun _ t => Issues ((Handler.event e).marksKept s) s t) (fun _ => True) s := by
  have hstart : ∀ (f : String) (b : SchedulerHandler → Bool) (t : SchedulerHandler), Silent t (do
      let s ← Proc.get
      if b s then startFunc env f else return () : SchedM Unit) := by
    intro f b t
    refine Silent.bind (Framed.silent Moves.get t) fun u v => ?_
    split
    next => exact Queues.silent (startFunc_queues env f) v
    next => exact ⟨rfl, rfl⟩
  cases e with
  | funcAdded func =>
    exact Issues.of_silent hs (Silent.bind (silent_addFunc func s) fun _ t =>
      hstart func.id (fun s => s.listDone && s.warmupComplete) t)
  | funcModified old spec =>
    refine Issues.of_silent hs (Silent.bind (silent_processRemoveFunc env old hok) fun _ t => ?_)
    refine Silent.bind (silent_removeFunc env old t) fun _ u => ?_
    exact Silent.bind (silent_addFunc spec u) fun _ v => hstart spec.id (fun s => s.listDone) v
  | funcDeleted spec =>
    exact Issues.of_silent hs (Silent.bind (silent_processRemoveFunc env spec hok) fun _ t =>
      silent_removeFunc env spec t)
  | nodeAdded node =>
    exact Issues.of_epoch hs fun t => Framed.silent (Moves.bind (framed_addPeer node) fun _ =>
      framed_addNode env node) t
  | nodeModified node => exact Issues.of_silent hs ((booked_processNodeModified node).silent s)
  | nodeDeleted node =>
    exact Issues.of_silent hs (Framed.silent (Moves.bind (framed_removePeer node) fun _ =>
      framed_removeNode node) s)
  | podAdded pod => exact Issues.of_epoch hs fun t => (booked_addPod env pod).silent t
  | podModified pod => exact Issues.of_silent hs ((booked_updatePod env pod).silent s)
  | podDeleted pod =>
    refine Issues.of_silent hs (wp_mono (removePod_books env pod "" s) (fun _ t ht => ?_)
      (fun _ t ht => ?_) fun _ _ => trivial)
    · rw [ht.books]
      exact ⟨rfl, rfl⟩
    · rw [ht.books]
      exact ⟨rfl, rfl⟩
  | snapshotAdded snapshot => exact Issues.of_epoch hs fun t => silent_addSnapshot env snapshot t
  | snapshotModified snapshot => exact Issues.of_silent hs (silent_updateSnapshot env snapshot s)
  | initDone l => exact Issues.of_silent hs (Opens.silent (opens_listDone env l) s)
  | _ => exact Issues.of_none hs rfl

/-- **What a handler asks for.** -/
theorem run_issues (env : Env) (h : Handler) {s : SchedulerHandler} (hs : s.books.removed = [])
    (hplain : PlainPods s) (hok : h.RemoveOk s) :
    (h.run env).wp (fun _ t => Issues (h.marksKept s) s t) (fun _ t => Issues (h.marksKept s) s t)
      (fun _ => True) s := by
  cases h with
  | msg m => exact processMsg_issues env m hs
  | event e => exact processEvent_issues env e hs hok
  | task =>
    show (processNextTask env).wp _ _ _ s
    unfold processNextTask
    rw [wp_bind, wp_get]
    split
    next => exact Issues.of_none hs rfl
    next task rest _ =>
      rw [wp_bind, wp_modify]
      have hcreates : ∀ t, Creates { s with taskQueue := rest } t → Issues s.books.removals s t := by
        intro t ht
        obtain ⟨l, hl, -⟩ := ht.books
        refine Issues.of_none ?_ ?_
        · rw [hl]
          exact hs
        · rw [hl]
          rfl
      exact wp_mono (creates_processTask env task) (fun _ t => hcreates t) (fun _ t => hcreates t)
        fun _ _ => trivial
  | delayTick => exact Issues.of_silent hs (Queues.silent (drainDueDelayedTasks_queues env) s)
  | billingTick =>
    refine Issues.of_silent hs (Framed.silent (Framed.modify fun s => ?_) s)
    unfold emitPeriodicBillingTicks periodicTicks
    split
    next => rfl
    next => simp [catalog, books, List.filterMap_map, Function.comp_def, Effect.removes, Effect.creates]
  | standbyTick =>
    refine Issues.of_none (t := s.emitPeriodicStandbyTicks env) ?_ rfl
    unfold emitPeriodicStandbyTicks periodicTicks
    replace hs : s.out.filterMap Effect.removes = [] := hs
    simp [books, List.filterMap_map, Function.comp_def, Effect.removes, hs]
  | warmup => exact Issues.of_silent hs ((framed_checkAndCompleteWarmup env).silent s)
  | refresh => exact Issues.of_silent hs ((framed_refreshScheduling env).silent s)
  | cleanPods => exact Issues.of_silent hs ((framed_cleanPods env).silent s)
  | cleanSnapshots =>
    exact wp_mono (asks_cleanSnapshots hplain) (fun _ _ h => .of_asks hs h) (fun _ _ h => .of_asks hs h)
      fun _ h => h
  | gatewayTimeout =>
    exact Issues.of_silent hs (Framed.silent (Framed.modify fun _ =>
      catalog_processGatewayTimeout env) s)
  | stuckLeases =>
    exact Issues.of_silent hs (Framed.silent (Framed.modify fun _ =>
      catalog_reconcileAllStuckLeaseRequests env 30000) s)

/-! ## Runs -/

/-- The scheduler, and the removals that have not been answered yet. -/
structure Removing where
  /-- the scheduler -/
  sched : SchedulerHandler
  /-- the removals in flight, by function and node -/
  flights : List (String × String) := []

namespace Removing

/-- The removals that are left when a handler has taken its message. -/
def left (x : Removing) : Handler → List (String × String)
  | .msg (.removeSnapshotComplete f n _) => x.flights.erase (f, n)
  | _ => x.flights

/-- A call of a handler. -/
def next (x : Removing) (c : Call) : Option Removing :=
  (x.sched.next c).map fun t => ⟨t, x.left c.2 ++ t.books.removed⟩

/-- A scheduler that has just started. -/
structure Start (x : Removing) : Prop where
  /-- no pods -/
  pods : x.sched.pods = ∅
  /-- no removals in flight -/
  flights : x.flights = []

/-- The node of an event whose epoch is checked, with the epoch. -/
def shows : Handler → Option (String × ℤ)
  | .event (.nodeAdded node) => some (node.name, node.nodeEpoch)
  | .event (.podAdded pod) => some (pod.nodename, pod.srcEpoch)
  | .event (.snapshotAdded snapshot) => some (snapshot.object.nodename, snapshot.srcEpoch)
  | _ => none

/-- When are snapshots removed after the pods, and once? -/
structure Ok (x : Removing) (c : Call) : Prop where
  /-- a function goes when it has no pods, or no snapshots -/
  remove : c.2.RemoveOk x.sched
  /-- a completion answers a removal -/
  answer : ∀ f n ok, c.2 = .msg (.removeSnapshotComplete f n ok) → (f, n) ∈ x.flights
  /-- a node comes back when no removal on it is in flight -/
  epoch : ∀ q ∈ shows c.2, NewEpoch x.sched q.1 q.2 → ∀ p ∈ x.flights, ¬ RemovalOn q.1 (removalKey p)
  /-- the names of a reported pod contain no separator -/
  plain : ∀ pod ∈ c.2.reports, pod.Plain

/-- What holds in every state. -/
structure Inv (x : Removing) : Prop where
  /-- the pods can be found by their keys -/
  plain : PlainPods x.sched
  /-- the removals in flight are marked -/
  marked : ∀ p ∈ x.flights, removalKey p ∈ x.sched.books.removals
  /-- each of them once -/
  nodup : (x.flights.map removalKey).Nodup

variable {x y : Removing} {c : Call} {t : SchedulerHandler}

theorem issues_next (hx : x.Inv) (hok : x.Ok c) (h : x.sched.next c = some t) :
    Issues (c.2.marksKept x.sched) x.sched t := by
  have hremove : c.2.RemoveOk { x.sched with out := [] } := hok.remove
  have hissues : Issues (c.2.marksKept { x.sched with out := [] }) { x.sched with out := [] } t :=
    wp_state (I := fun t => Issues (c.2.marksKept { x.sched with out := [] })
      { x.sched with out := [] } t)
      (run_issues c.1 c.2 (s := { x.sched with out := [] }) rfl hx.plain hremove) h
  -- What a turn forgets when it starts are the effects of the turn before.
  rw [Handler.marksKept_out] at hissues
  exact ⟨hissues.marks, hissues.fresh, hissues.nodup, hissues.alone⟩

theorem kept_of_shows {n : String} {epoch : ℤ} {p : String × String} (hx : x.Inv) (hok : x.Ok c)
    (hshows : shows c.2 = some (n, epoch)) (hp : p ∈ x.flights) :
    removalKey p ∈ Handler.marksKept.kept x.sched n epoch := by
  unfold Handler.marksKept.kept
  split
  next hnew => exact Finset.mem_filter.mpr ⟨hx.marked p hp, hok.epoch (n, epoch) hshows hnew p hp⟩
  next => exact hx.marked p hp

/-- The removals that stay in flight stay marked. -/
theorem marked_left (hx : x.Inv) (hok : x.Ok c) {p : String × String} (hp : p ∈ x.left c.2) :
    removalKey p ∈ c.2.marksKept x.sched := by
  obtain ⟨env, h⟩ := c
  cases h with
  | msg m =>
    cases m with
    | removeSnapshotComplete f n ok =>
      have hmem : (f, n) ∈ x.flights := hok.answer f n ok rfl
      replace hp : p ∈ x.flights.erase (f, n) := hp
      refine Finset.mem_erase.mpr ⟨fun heq => ?_, hx.marked p (List.mem_of_mem_erase hp)⟩
      -- The marks are distinct, so the other removals have other marks.
      have hperm := (List.perm_cons_erase hmem).map removalKey
      have hnodup := hperm.nodup_iff.mp hx.nodup
      rw [List.map_cons, List.nodup_cons] at hnodup
      exact hnodup.1 (heq ▸ List.mem_map_of_mem hp)
    | _ => exact hx.marked p hp
  | event e =>
    cases e with
    | nodeAdded node => exact kept_of_shows hx hok rfl hp
    | podAdded pod => exact kept_of_shows hx hok rfl hp
    | snapshotAdded snapshot => exact kept_of_shows hx hok rfl hp
    | _ => exact hx.marked p hp
  | _ => exact hx.marked p hp

theorem left_sublist (x : Removing) (h : Handler) : (x.left h).Sublist x.flights := by
  unfold left
  split
  next => exact List.erase_sublist
  next => exact List.Sublist.refl _

theorem Inv.next (hx : x.Inv) (hok : x.Ok c) (h : x.next c = some y) : y.Inv := by
  obtain ⟨t, ht, rfl⟩ := Option.map_eq_some_iff.mp h
  have hissues := issues_next hx hok ht
  have hpods : PodsFrom c.2.reports { x.sched with out := [] } t := (run_tracks c.1 c.2).state ht
  refine ⟨fun k w hw => ?_, fun p hp => ?_, ?_⟩
  · rcases hpods k w hw with hw | ⟨pod, hpod, hwpod, hk⟩
    · exact hx.plain k w hw
    · rw [hwpod]
      exact ⟨hk.symm, hok.plain pod hpod⟩
  · rw [hissues.marks, Finset.mem_union]
    rcases List.mem_append.mp hp with hp | hp
    · exact Or.inl (marked_left hx hok hp)
    · exact Or.inr (List.mem_toFinset.mpr (List.mem_map_of_mem hp))
  · rw [List.map_append]
    refine List.nodup_append.mpr ⟨hx.nodup.sublist ((left_sublist x c.2).map _), hissues.nodup,
      fun a ha b hb hab => ?_⟩
    obtain ⟨p, hp, rfl⟩ := List.mem_map.mp ha
    obtain ⟨q, hq, rfl⟩ := List.mem_map.mp hb
    exact hissues.fresh q hq (hab ▸ marked_left hx hok hp)

/-- **Snapshots are removed after the pods.** In every run whose handlers keep to
`Ok`, a removal is asked for only when no pod of the function is tracked, and no
removal is in flight twice. -/
theorem removals_after_pods (h : Reach next Start Ok x) : x.flights.Nodup ∧
    ∀ c t, x.Ok c → x.sched.next c = some t → ∀ p ∈ t.books.removed, NoPodsOf x.sched p.1 := by
  have hx : x.Inv := by
    refine h.invariant (fun x hx => ⟨fun k w hw => ?_, fun p hp => ?_, ?_⟩)
      fun x c y hx hok hnext => hx.next hok hnext
    · rw [hx.pods] at hw
      simp at hw
    · rw [hx.flights] at hp
      cases hp
    · rw [hx.flights]
      exact List.nodup_nil
  exact ⟨List.Nodup.of_map _ hx.nodup, fun c t hok ht => (issues_next hx hok ht).alone⟩

theorem next_after {l : List Call} {flights : List (String × String)}
    (h : (calls {} (l ++ [c])).isSome) :
    (⟨after l, flights⟩ : Removing).next c = some ⟨after (l ++ [c]),
      (⟨after l, flights⟩ : Removing).left c.2 ++ (after (l ++ [c])).books.removed⟩ := by
  unfold next
  rw [Inferx.next_after h]
  rfl

theorem start_new : Start { sched := {} } := ⟨rfl, rfl⟩

theorem plain_of_reports_none (h : c.2.reports = none) : ∀ pod ∈ c.2.reports, pod.Plain := by
  rw [h]
  simp

end Removing

namespace Sample

/-- A snapshot is loaded on a node, and its function is not known. -/
def orphan : List Call := [event (.nodeAdded node), event (.snapshotAdded readySnapshot)]

/-- The timer looks for snapshots nobody needs. -/
def cleanSnapshots : Call := ({}, .cleanSnapshots)

/-- A pod of the function is resumed from the snapshot. -/
def resumed : List Call :=
  [event (.nodeAdded node), event (.funcAdded func), event (.podAdded (pod "1" .ready)),
    event (.snapshotAdded readySnapshot)]

end Sample

/-- The snapshot of an unknown function is removed: no pod needs it. -/
theorem orphan_removed_alone :
    (Sample.func.id, "n") ∈ (after (Sample.orphan ++ [Sample.cleanSnapshots])).books.removed ∧
    NoPodsOf (after Sample.orphan) Sample.func.id := by
  have hremoved : (Sample.func.id, "n") ∈
      (after (Sample.orphan ++ [Sample.cleanSnapshots])).books.removed := by
    decide +kernel
  -- The snapshot shows the epoch the node has.
  have hepoch : ∀ (l : List (String × String)),
      ∀ q ∈ Removing.shows (.event (.snapshotAdded Sample.readySnapshot)),
      NewEpoch (after [Sample.event (.nodeAdded Sample.node)]) q.1 q.2 →
      ∀ p ∈ l, ¬ RemovalOn q.1 (removalKey p) := by
    intro l q hq hnew
    obtain rfl := Option.mem_some_iff.mp hq
    exact absurd hnew (by decide +kernel)
  have hreach : ∃ flights, Reach Removing.next Removing.Start Removing.Ok
      ⟨after Sample.orphan, flights⟩ := by
    refine ⟨_, .step (c := Sample.event (.snapshotAdded Sample.readySnapshot))
      (.step (c := Sample.event (.nodeAdded Sample.node)) (.init Removing.start_new) ?_
        (Removing.next_after (l := []) ?_)) ?_ (Removing.next_after (l := [_]) ?_)⟩
    · exact ⟨trivial, nofun, fun _ _ _ p hp => absurd hp List.not_mem_nil,
        Removing.plain_of_reports_none rfl⟩
    · decide +kernel
    · exact ⟨trivial, nofun, hepoch _, Removing.plain_of_reports_none rfl⟩
    · decide +kernel
  obtain ⟨flights, hreach⟩ := hreach
  have hnext : (after Sample.orphan).next Sample.cleanSnapshots =
      some (after (Sample.orphan ++ [Sample.cleanSnapshots])) :=
    next_after (by decide +kernel)
  refine ⟨hremoved, (Removing.removals_after_pods hreach).2 Sample.cleanSnapshots _ ?_ hnext _
    hremoved⟩
  exact ⟨trivial, nofun, nofun, Removing.plain_of_reports_none rfl⟩

/-- A function that is deleted while a pod of it runs loses its snapshot. -/
theorem snapshot_removed_under_pod : ¬ ∀ (l : List Call) (c : Call) (s t : SchedulerHandler),
    calls {} l = some s → s.next c = some t → ∀ p ∈ t.books.removed, NoPodsOf s p.1 := by
  intro h
  have halone := h Sample.resumed (Sample.event (.funcDeleted Sample.func)) _ _
    (calls_eq_after (by decide +kernel)) (next_after (by decide +kernel)) (Sample.func.id, "n")
    (by decide +kernel)
  have hpod : ((after Sample.resumed).pods[(Sample.pod "1" .ready).podKey]?.map
      fun w => w.pod.funcKey) = some Sample.func.id := by
    decide +kernel
  obtain ⟨w, hw, hkey⟩ := Option.map_eq_some_iff.mp hpod
  exact halone _ w hw hkey

end Inferx
