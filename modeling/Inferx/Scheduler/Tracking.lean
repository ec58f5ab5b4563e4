import Inferx.Scheduler.Clearing

/-!
# Pod events move pods

What the three pod events do to the index and to the slots: a first report adds
the pod, a further report replaces its worker pod, a deletion takes it away. The
equations are about `life`, the index together with the slots and what has been
handed out; the panics are listed with what has to be the case for them.
-/

namespace Inferx

open Proc SchedulerHandler

/-! ## Filing -/

namespace SchedulerHandler

variable {s : SchedulerHandler} {w : WorkerPod}

/-- The pods by node after the record of one node has been replaced. -/
theorem known_insertNode {n m : String} {ns' : NodeStatus} (hm : m ≠ n) :
    ({ s with nodes := s.nodes.insert n ns' } : SchedulerHandler).byNode.known m =
      s.byNode.known m :=
  congrArg (Option.map NodeStatus.pods) (BTreeMap.get_insert_of_ne hm)

theorem known_insertNode_self {n : String} {ns' : NodeStatus} :
    ({ s with nodes := s.nodes.insert n ns' } : SchedulerHandler).byNode.known n = some ns'.pods :=
  congrArg (Option.map NodeStatus.pods) (BTreeMap.get_insert_self s.nodes n ns')

/-- The pods by function after the record of one function has been changed. -/
theorem known_modifyFunc {f m : String} {g : FuncStatus → FuncStatus} (hm : m ≠ f) :
    (s.modifyFunc f g).byFunc.known m = s.byFunc.known m :=
  congrArg (Option.map FuncStatus.pods) (BTreeMap.get_modify_of_ne hm)

theorem known_modifyFunc_self {f : String} {g : FuncStatus → FuncStatus} :
    (s.modifyFunc f g).byFunc.known f = s.funcs[f]?.map fun fs => (g fs).pods := by
  show (s.funcs.modify f g)[f]?.map (·.pods) = _
  rw [BTreeMap.get_modify_self, Option.map_map]
  rfl

theorem byNode_insertNode {n k : String} {ns ns' : NodeStatus} (hn : s.nodes[n]? = some ns)
    (hpods : ns'.pods = ns.pods.insert k w) :
    ({ s with nodes := s.nodes.insert n ns' } : SchedulerHandler).byNode = s.byNode.file n k w := by
  refine Filing.eq_file_of_known (known_node hn) rfl ?_ fun m hm => known_insertNode hm
  rw [known_insertNode_self, hpods]

theorem byNode_parkNodePod (hn : s.nodes[w.pod.nodename]? = none) :
    (s.parkNodePod w).byNode = s.byNode.file w.node w.pod.podKey w := by
  rw [Filing.file_of_unknown (p := w.node) (unknown_node hn)]
  rfl

theorem byFunc_modifyFunc_insert {f k : String} {fs : FuncStatus} {g : FuncStatus → FuncStatus}
    (hf : s.funcs[f]? = some fs) (hg : (g fs).pods = fs.pods.insert k w) :
    (s.modifyFunc f g).byFunc = s.byFunc.file f k w := by
  refine Filing.eq_file_of_known (known_func hf) rfl ?_ fun m hm => known_modifyFunc hm
  rw [known_modifyFunc_self, hf, Option.map_some, hg]

theorem byFunc_parkFuncPod (hf : s.funcs[w.pod.funcKey]? = none) :
    (s.parkFuncPod w).byFunc = s.byFunc.file w.func w.pod.podKey w := by
  rw [Filing.file_of_unknown (p := w.func) (unknown_func hf)]
  rfl

theorem byNode_insertNode_erase {n k : String} {ns ns' : NodeStatus} (hn : s.nodes[n]? = some ns)
    (hpods : ns'.pods = ns.pods.erase k) :
    ({ s with nodes := s.nodes.insert n ns' } : SchedulerHandler).byNode = s.byNode.unfile n k := by
  refine Filing.eq_unfile rfl ?_ fun m hm => known_insertNode hm
  rw [known_insertNode_self, known_node hn, hpods, Option.map_some]

theorem byFunc_modifyFunc_erase {f k : String} {g : FuncStatus → FuncStatus}
    (hg : ∀ fs, (g fs).pods = fs.pods.erase k) :
    (s.modifyFunc f g).byFunc = s.byFunc.unfile f k := by
  refine Filing.eq_unfile rfl ?_ fun m hm => known_modifyFunc hm
  rw [known_modifyFunc_self]
  show _ = (s.funcs[f]?.map (·.pods)).map _
  rw [Option.map_map]
  exact congrArg (fun h => s.funcs[f]?.map h) (funext fun fs => hg fs)

/-! ## Slots -/

/-- A new cell is not the cell of any tracked pod. -/
theorem slot_withNewWorker (hs : s.index.Keyed) (pod : FuncPod) :
    (s.withNewWorker pod).slot = s.slot := by
  funext k
  unfold slot withNewWorker
  rcases hv : s.pods[k]? with _ | v
  · simp
  · have hne : v.ref ≠ s.nextWorker := Nat.ne_of_lt (hs.ref_lt k v hv)
    simp [hne]

/-- The slots after the tracked pod with a key has been replaced. -/
theorem slot_insertPod (k : String) :
    ({ s with pods := s.pods.insert k w } : SchedulerHandler).slot =
      Function.update s.slot k ⟨some (w.pod, s.workers w.ref), (s.slot k).idle⟩ := by
  funext a
  unfold slot
  rw [Function.update_apply]
  split
  next ha => simp [ha]
  next ha => simp [BTreeMap.get_insert, ha]

theorem slot_erasePod (k : String) :
    ({ s with pods := s.pods.erase k } : SchedulerHandler).slot =
      Function.update s.slot k ⟨none, (s.slot k).idle⟩ := by
  funext a
  unfold slot
  rw [Function.update_apply]
  split
  next ha => simp [ha]
  next ha => simp [BTreeMap.get_erase, ha]

end SchedulerHandler

/-! ## Procedures that do not fail -/

theorem addSnapshotTask_infallible (env : Env) (n f : String) :
    Infallible (addSnapshotTask env n f) := by
  refine Infallible.bind Infallible.get fun s => ?_
  rcases s.funcs[f]? with _ | fs
  · exact Infallible.crash _
  · dsimp only
    split
    next => exact Infallible.pure ()
    next => exact Infallible.modify _

theorem startSnapshotPodBilling_infallible (env : Env) (pod : FuncPod) :
    Infallible (startSnapshotPodBilling env pod) := by
  refine Infallible.bind Infallible.get fun s => ?_
  dsimp only
  split
  next => exact Infallible.pure ()
  next =>
    split
    next => exact Infallible.crash _
    next =>
      split
      next => exact Infallible.pure ()
      next => exact Infallible.modify _

theorem noteSnapshotPod_infallible (env : Env) (pod : FuncPod) :
    Infallible (noteSnapshotPod env pod) := by
  unfold noteSnapshotPod
  split
  next =>
    refine Infallible.bind (Infallible.modify _) fun _ => ?_
    split
    next => exact Infallible.pure ()
    next => exact startSnapshotPodBilling_infallible env pod
  next => exact Infallible.pure ()

theorem noteFailedPod_infallible (env : Env) (pod : FuncPod) :
    Infallible (noteFailedPod env pod) := by
  refine Infallible.bind Infallible.get fun s => ?_
  rcases s.funcs[pod.funcKey]? with _ | fs
  · exact Infallible.pure ()
  · rcases s.funcstatus[pod.funcKey]? with _ | status
    · exact Infallible.pure ()
    · dsimp only
      split
      next =>
        refine Infallible.bind (addSnapshotTask_infallible env _ _) fun _ => ?_
        split
        next => exact Infallible.modify _
        next => exact Infallible.crash _
      next => exact Infallible.pure ()

theorem requeueSnapshot_infallible (env : Env) (pod : FuncPod) :
    Infallible (requeueSnapshot env pod) := by
  unfold requeueSnapshot
  split
  next =>
    refine Infallible.bind Infallible.get fun s => ?_
    split
    next => exact Infallible.modify _
    next => exact Infallible.bind (addSnapshotTask_infallible env _ _) fun _ => Infallible.modify _
  next => exact Infallible.pure ()

/-! ## Added pods -/

namespace SchedulerHandler

/-- The worker pod of the next report. -/
def nextPod (s : SchedulerHandler) (pod : FuncPod) : WorkerPod := ⟨s.nextWorker, pod⟩

/-- The state once the report of a pod is tracked, and before its node and its
function have it. -/
def withPod (s : SchedulerHandler) (pod : FuncPod) : SchedulerHandler :=
  { s.withNewWorker pod with pods := s.pods.insert pod.podKey (s.nextPod pod) }

variable {s : SchedulerHandler} {pod : FuncPod}

theorem get_withPod : (s.withPod pod).pods[pod.podKey]? = some (s.nextPod pod) :=
  BTreeMap.get_insert_self ..

theorem cell_withPod : (s.withPod pod).workers (s.nextPod pod).ref = WorkerCell.new pod.state :=
  Function.update_self ..

theorem keyed_withPod (hs : s.index.Keyed) : (s.withPod pod).index.Keyed := by
  have h := hs.track (w := s.nextPod pod) rfl
  exact ⟨h.key, h.ref_lt, h.ref_inj⟩

theorem slot_withPod (hs : s.index.Keyed) : (s.withPod pod).slot = Function.update s.slot pod.podKey
    ⟨some (pod, WorkerCell.new pod.state), (s.slot pod.podKey).idle⟩ := by
  have h := slot_insertPod (s := s.withNewWorker pod) (w := s.nextPod pod) pod.podKey
  rw [slot_withNewWorker hs] at h
  rw [← cell_withPod (s := s)]
  exact h

theorem index_withPod : (s.withPod pod).index = s.index.insertPod (s.nextPod pod) := rfl

end SchedulerHandler

theorem life_parkNodePod {w : WorkerPod} {s : SchedulerHandler}
    (hn : s.nodes[w.pod.nodename]? = none) :
    (s.parkNodePod w).life = (s.index.fileNode w, s.grants, s.slot) := by
  refine life_eq.mpr ⟨?_, rfl, rfl⟩
  unfold PodIndex.fileNode index
  rw [← byNode_parkNodePod hn]
  rfl

theorem names_insertNode {s : SchedulerHandler} {n : String} {ns ns' : NodeStatus}
    (hn : s.nodes[n]? = some ns) (hname : ns'.node.name = ns.node.name) :
    ({ s with nodes := s.nodes.insert n ns' } : SchedulerHandler).index.names = s.index.names := by
  funext m
  show (s.nodes.insert n ns')[m]?.map _ = s.nodes[m]?.map fun ns => ns.node.name
  rw [BTreeMap.get_insert]
  split
  next hm => rw [hm, hn, Option.map_some, Option.map_some, hname]
  next => rfl

theorem life_insertNode_file {w : WorkerPod} {s : SchedulerHandler} {ns ns' : NodeStatus}
    (hn : s.nodes[w.pod.nodename]? = some ns)
    (hhome : ns'.home = (ns.node.name, ns.pods.insert w.pod.podKey w)) :
    ({ s with nodes := s.nodes.insert w.pod.nodename ns' } : SchedulerHandler).life =
      (s.index.fileNode w, s.grants, s.slot) := by
  obtain ⟨hname, hpods⟩ := Prod.mk.inj hhome
  refine life_eq.mpr ⟨PodIndex.ext rfl ?_ rfl (names_insertNode hn hname) rfl, rfl, rfl⟩
  exact byNode_insertNode hn hpods

theorem life_parkFuncPod {w : WorkerPod} {s : SchedulerHandler}
    (hf : s.funcs[w.pod.funcKey]? = none) :
    (s.parkFuncPod w).life = (s.index.fileFunc w, s.grants, s.slot) := by
  refine life_eq.mpr ⟨?_, rfl, rfl⟩
  unfold PodIndex.fileFunc index
  rw [← byFunc_parkFuncPod hf]
  rfl

theorem life_modifyFunc_file {w : WorkerPod} {s : SchedulerHandler} {fs : FuncStatus}
    {g : FuncStatus → FuncStatus} (hf : s.funcs[w.pod.funcKey]? = some fs)
    (hg : (g fs).pods = fs.pods.insert w.pod.podKey w) :
    (s.modifyFunc w.pod.funcKey g).life = (s.index.fileFunc w, s.grants, s.slot) := by
  refine life_eq.mpr ⟨?_, rfl, rfl⟩
  unfold PodIndex.fileFunc index
  rw [show s.byFunc.file w.func w.pod.podKey w = _ from (byFunc_modifyFunc_insert hf hg).symm]
  rfl

theorem addPodToNode_spec (w : WorkerPod) (s : SchedulerHandler) :
    (addPodToNode w).wp (fun _ s' => s'.life = (s.index.fileNode w, s.grants, s.slot))
      (fun _ _ => False) Calm s := by
  unfold addPodToNode
  rw [wp_bind, wp_get]
  rcases hn : s.nodes[w.pod.nodename]? with _ | ns
  · exact life_parkNodePod hn
  · rw [wp_bind]
    refine wp_liftFault.mpr ⟨fun ns' hns' => ?_, fun f _ => calm_fault f⟩
    refine life_insertNode_file hn ?_
    unfold NodeStatus.addPod at hns'
    dsimp only at hns'
    split at hns'
    next =>
      obtain ⟨a, -, ha⟩ := Except.bind_eq_ok.mp hns'
      rw [← Except.ok.inj ha]
      rfl
    next =>
      rw [← Except.ok.inj hns']
      rfl

theorem life_addPodToFunc (w : WorkerPod) (s : SchedulerHandler) :
    (s.addPodToFunc w).life = (s.index.fileFunc w, s.grants, s.slot) := by
  unfold addPodToFunc
  rcases hf : s.funcs[w.pod.funcKey]? with _ | fs
  · exact life_parkFuncPod hf
  · exact life_modifyFunc_file hf rfl

/-- What a first report leaves behind. -/
def addedSlot (s : SchedulerHandler) (pod : FuncPod) : Slot :=
  ⟨some (pod, WorkerCell.new pod.state), (s.slot pod.podKey).idle || pod.state == .ready⟩

theorem life_enlistIdle {w : WorkerPod} {s : SchedulerHandler} (hs : s.index.Keyed)
    (hw : s.pods[w.pod.podKey]? = some w) (hcell : s.workers w.ref = WorkerCell.new w.pod.state) :
    (s.enlistIdle w).life = (s.index, s.grants, Function.update s.slot w.pod.podKey
      ⟨some (w.pod, WorkerCell.new w.pod.state),
        (s.slot w.pod.podKey).idle || w.pod.state == .ready⟩) := by
  have hslot := slot_of_tracked hw
  rw [hcell] at hslot
  unfold enlistIdle
  split
  next h =>
    have hready : w.pod.state = .ready := by simpa using (Bool.and_eq_true_iff.mp h).2
    show (_, _, _) = (_, _, _)
    refine congrArg (fun x => (_, _, x)) (funext fun k => ?_)
    rw [slot_setIdle_putIdle hs hw, Function.update_apply]
    split
    next => rw [hready, beq_self_eq_true, Bool.or_true]; rfl
    next => rfl
  next h =>
    show (_, _, _) = (_, _, _)
    refine congrArg (fun x => (_, _, x)) (funext fun k => ?_)
    rw [Function.update_apply]
    split
    next hk =>
      have hready : (w.pod.state == .ready) = false := by
        rw [beq_eq_false_iff_ne]
        intro hr
        rw [stateOf, hcell, hr] at h
        exact h rfl
      rw [hready, Bool.or_false, hk, hslot]
    next => rfl

theorem addPod_spec (env : Env) (pod : FuncPod) {s : SchedulerHandler} (hs : s.index.Keyed) :
    (addPod env pod).wp
      (fun _ s' => s.pods[pod.podKey]? = none ∧
        s'.life = (s.index.track (s.nextPod pod), s.grants,
          Function.update s.slot pod.podKey (addedSlot s pod)))
      (fun _ _ => False)
      (fun p => Calm p ∨ p = .addPodExists ∧ (s.pods[pod.podKey]?).isSome) s := by
  unfold addPod
  rw [wp_bind]
  show Proc.wp _ _ _ _ (s.withNewWorker pod)
  unfold trackNew
  rw [wp_bind, wp_bind, wp_get]
  have hpods : (s.withNewWorker pod).pods = s.pods := rfl
  rw [hpods]
  rcases hk : s.pods[pod.podKey]? with _ | v
  · dsimp only
    rw [wp_modify, wp_bind]
    refine wp_mono ((noteSnapshotPod_infallible env pod).wp_of_moves
      (quiet_noteSnapshotPod env pod) (s.withPod pod)) (fun _ s₁ h₁ => ?_) (fun _ _ h => h.elim)
      fun _ h => Or.inl h
    have hindex₁ : s₁.index = (s.withPod pod).index := index_of_life h₁
    have hw₁ : s₁.pods[pod.podKey]? = some (s.nextPod pod) := by
      rw [pods_of_index hindex₁]
      exact get_withPod
    have hslot₁ := (slot_of_life h₁).trans (slot_withPod hs)
    have hcell₁ : s₁.workers (s.nextPod pod).ref = WorkerCell.new pod.state := by
      have h := congrFun hslot₁ pod.podKey
      rw [slot_of_tracked hw₁, Function.update_self] at h
      exact congrArg Prod.snd (Option.some.inj (congrArg Slot.entry h))
    obtain ⟨hindex₂, hgrants₂, hslot₂⟩ :=
      life_eq.mp (life_enlistIdle (w := s.nextPod pod) (hindex₁ ▸ keyed_withPod hs) hw₁ hcell₁)
    rw [wp_bind, wp_modify, wp_bind]
    refine wp_mono (addPodToNode_spec (s.nextPod pod) (s₁.enlistIdle (s.nextPod pod)))
      (fun _ s₃ h₃ => ?_) (fun _ _ h => h) fun _ h => Or.inl h
    obtain ⟨hindex₃, hgrants₃, hslot₃⟩ := life_eq.mp h₃
    rw [wp_modify]
    refine ⟨rfl, ?_⟩
    have hgrants₁ : s₁.grants = s.grants := congrArg (fun l => l.2.1) h₁
    rw [life_addPodToFunc, hindex₃, hindex₂, hindex₁, hgrants₃, hgrants₂, hgrants₁, hslot₃, hslot₂,
      hslot₁, index_withPod]
    show (_, _, Function.update (Function.update s.slot pod.podKey _) pod.podKey
      ⟨_, (Function.update s.slot pod.podKey _ pod.podKey).idle || _⟩) = _
    rw [Function.update_idem, Function.update_self]
    rfl
  · exact Or.inr ⟨rfl, rfl⟩

/-! ## Modified pods -/

/-- The first lease request that is still waited for. -/
def firstAlive (env : Env) (queue : List QueuedLease) : Option QueuedLease :=
  queue.find? fun q => env.alive q.tx

/-- Writing the cell of a tracked pod, as an equation for all slots. -/
theorem life_setCell {s : SchedulerHandler} {w : WorkerPod} {c : WorkerCell} (hs : s.index.Keyed)
    (hw : s.pods[w.pod.podKey]? = some w) :
    (s.setCell w c).life = (s.index, s.grants,
      Function.update s.slot w.pod.podKey ⟨some (w.pod, c), (s.slot w.pod.podKey).idle⟩) := by
  refine life_eq.mpr ⟨rfl, rfl, funext fun k => ?_⟩
  rw [Function.update_apply]
  split
  next hk => rw [hk, slot_setCell_self hw]
  next hk => exact slot_setCell_of_ne hs hw hk

/-- What serving the queue with a pod that is idle can lead to: nobody waits for
it, and it is left over; or the first request that is waited for gets it. -/
def Served (env : Env) (queue : List QueuedLease) (w : WorkerPod) (s : SchedulerHandler)
    (left : Bool) (s' : SchedulerHandler) : Prop :=
  (left = true ∧ firstAlive env queue = none ∧
    s'.life = (s.index, s.grants, Function.update s.slot w.pod.podKey
      ⟨some (w.pod, ⟨.idle, none⟩), (s.slot w.pod.podKey).idle⟩)) ∨
  (left = false ∧ ∃ q, firstAlive env queue = some q ∧
    s'.life = (s.index, s.grants ++ [(w.pod.podKey, q.req.gatewayId)],
      Function.update s.slot w.pod.podKey
        ⟨some (w.pod, ⟨.working q.req.gatewayId, q.req.consumer⟩), (s.slot w.pod.podKey).idle⟩))

theorem Served.of_life {env : Env} {queue queue' : List QueuedLease} {w : WorkerPod}
    {s t s' : SchedulerHandler} {left : Bool} (h : Served env queue w t left s')
    (hlife : t.life = s.life) (hqueue : firstAlive env queue = firstAlive env queue') :
    Served env queue' w s left s' := by
  obtain ⟨hindex, hgrants, hslot⟩ := life_eq.mp hlife
  unfold Served at h ⊢
  rw [hindex, hgrants, hslot, hqueue] at h
  exact h

theorem grantQueued_spec {w : WorkerPod} {q : QueuedLease} {peer : Peer} {s : SchedulerHandler}
    {Q : Unit → SchedulerHandler → Prop} {E : Error → SchedulerHandler → Prop} {N : Panic → Prop}
    (hs : s.index.Keyed) (hw : s.pods[w.pod.podKey]? = some w) (hidle : s.stateOf w = .idle)
    (h : ∀ s', s'.life = (s.index, s.grants ++ [(w.pod.podKey, q.req.gatewayId)],
      Function.update s.slot w.pod.podKey
        ⟨some (w.pod, ⟨.working q.req.gatewayId, q.req.consumer⟩), (s.slot w.pod.podKey).idle⟩) →
      Q () s') :
    (grantQueued w q peer).wp Q E N s := by
  unfold grantQueued
  rw [wp_bind, wp_modify, wp_bind]
  refine (wp_setWorking (s := s.emit _) (Or.inl hidle)).mpr ?_
  rw [wp_modify]
  refine h _ ?_
  rw [setConsumer_setState]
  refine (life_setCell (s := s.emit _) hs hw).trans (Prod.ext rfl (Prod.ext ?_ rfl))
  exact grants_emit_some (handsOut_leaseResp q.tx q.req _ _ rfl)

theorem serveLeaseQueue_spec (env : Env) (w : WorkerPod) (f : String) (queue : List QueuedLease)
    {s : SchedulerHandler} (hs : s.index.Keyed) (hw : s.pods[w.pod.podKey]? = some w)
    (hidle : s.stateOf w = .idle) :
    (serveLeaseQueue env w f queue).wp (Served env queue w s)
      (fun _ s' => queue ≠ [] ∧ (s.lookforPeer w.pod.ipAddr).isOk = false ∧ s'.life = s.life)
      Calm s := by
  induction queue generalizing s with
  | nil =>
    unfold serveLeaseQueue
    rw [wp_bind, wp_modify]
    exact Or.inl ⟨rfl, rfl, life_setCell hs hw⟩
  | cons q queue ih =>
    unfold serveLeaseQueue
    rw [wp_bind, wp_modify]
    have hlife : (s.setLeaseQueue f queue).life = s.life := life_modifyFunc fun _ => rfl
    have hs₁ : (s.setLeaseQueue f queue).index.Keyed := index_of_life hlife ▸ hs
    split
    next => simp [Calm]
    next =>
      rw [wp_bind, wp_get]
      have hpeer : (s.setLeaseQueue f queue).lookforPeer w.pod.ipAddr =
          s.lookforPeer w.pod.ipAddr := rfl
      rw [hpeer]
      rcases hp : s.lookforPeer w.pod.ipAddr with e | peer
      · exact ⟨List.cons_ne_nil _ _, rfl, hlife⟩
      · dsimp only
        by_cases halive : env.alive q.tx = true
        · have hfirst : firstAlive env (q :: queue) = some q := by simp [firstAlive, halive]
          rw [if_pos halive, wp_bind]
          refine grantQueued_spec hs₁ hw hidle fun s' hs' => ?_
          exact Served.of_life (Or.inr ⟨rfl, q, hfirst, hs'⟩) hlife rfl
        · have hfirst : firstAlive env queue = firstAlive env (q :: queue) := by
            simp [firstAlive, halive]
          rw [if_neg halive]
          refine wp_mono (ih hs₁ hw hidle) (fun left s' h => h.of_life hlife hfirst)
            (fun _ s' h => ?_) fun _ h => h
          have hno := h.2.1
          rw [hpeer, hp] at hno
          cases hno

/-- The waiting lease requests of a function. -/
def SchedulerHandler.queueOf (s : SchedulerHandler) (f : String) : List QueuedLease :=
  match s.funcs[f]? with
  | none => []
  | some fs => fs.leaseWorkerReqs

/-- What a further report of a pod can do to it. A ready pod that is not leased
is left as it is only if its function is not known, or the peer lookup failed
for a waiting request. -/
def ModifiedOf (s : SchedulerHandler) (env : Env) (pod : FuncPod) : Act → Prop
  | .rebuilt p => p = pod ∧ (pod.state = .ready →
      (∃ w g, s.pods[pod.podKey]? = some w ∧ s.stateOf w = .working g) ∨
      UnknownFunc s pod.funcKey ∨
      (s.lookforPeer pod.ipAddr).isOk = false ∧ s.queueOf pod.funcKey ≠ [])
  | .settled p => p = pod ∧ firstAlive env (s.queueOf pod.funcKey) = none
  | .granted p g t => p = pod ∧ ∃ q, firstAlive env (s.queueOf pod.funcKey) = some q ∧
      g = q.req.gatewayId ∧ t = q.req.consumer
  | _ => False

/-- The state after a further report of a pod. -/
structure Reported (env : Env) (pod : FuncPod) (s s' : SchedulerHandler) : Prop where
  /-- the pod was tracked -/
  tracked : (s.pods[pod.podKey]?).isSome
  /-- the new worker pod is held in place of the old one -/
  index : s'.index = s.index.track (s.nextPod pod)
  /-- what happened to the pod -/
  act : ∃ act, ModifiedOf s env pod act ∧ Slot.Step act (s.slot pod.podKey) (s'.slot pod.podKey)
  /-- no other pod has changed -/
  others : ∀ k, k ≠ pod.podKey → s'.slot k = s.slot k
  /-- what has been handed out -/
  grants : ∀ p ∈ s'.grants, p ∈ s.grants ∨
    p.1 = pod.podKey ∧ ∃ t, ModifiedOf s env pod (.granted pod p.2 t)

/-- The panics of a further report. -/
def ReportPanics (s : SchedulerHandler) (pod : FuncPod) (p : Panic) : Prop :=
  Calm p ∨ p = .updatePodMissing ∧ s.pods[pod.podKey]? = none ∨
    p = .nodeUpdatePodMissing ∧
      (∃ m, s.byNode.known pod.nodename = some m ∧ m.contains pod.podKey = false) ∨
    p = .funcUpdatePodMissing ∧
      (∃ m, s.byFunc.known pod.funcKey = some m ∧ m.contains pod.podKey = false)

theorem life_keepLease {s : SchedulerHandler} {pod : FuncPod} {old : WorkerPod}
    (hs : s.index.Keyed) (hold : s.pods[pod.podKey]? = some old) :
    ((s.withPod pod).keepLease old (s.nextPod pod)).life =
      (s.index.insertPod (s.nextPod pod), s.grants, Function.update s.slot pod.podKey
        ⟨some (pod, (s.workers old.ref).rebuild pod), (s.slot pod.podKey).idle⟩) := by
  have hne : old.ref ≠ s.nextWorker := Nat.ne_of_lt (hs.ref_lt _ _ hold)
  have hcell : (s.withPod pod).workers old.ref = s.workers old.ref := Function.update_of_ne hne _ _
  by_cases hworking : ∃ g, (s.workers old.ref).state = .working g
  · obtain ⟨g, hg⟩ := hworking
    have hkeep : (s.withPod pod).keepLease old (s.nextPod pod) =
        (s.withPod pod).setCell (s.nextPod pod) (s.workers old.ref) := by
      unfold keepLease
      rw [stateOf, hcell, hg]
    rw [hkeep, WorkerCell.rebuild_working hg]
    refine (life_setCell (w := s.nextPod pod) (keyed_withPod hs) get_withPod).trans ?_
    show (_, _, Function.update (s.withPod pod).slot pod.podKey
      ⟨_, ((s.withPod pod).slot pod.podKey).idle⟩) = _
    rw [slot_withPod hs, Function.update_idem, Function.update_self]
    rfl
  · have hother : ∀ g, (s.workers old.ref).state ≠ .working g := fun g hg => hworking ⟨g, hg⟩
    have hkeep : (s.withPod pod).keepLease old (s.nextPod pod) = s.withPod pod := by
      unfold keepLease
      rw [stateOf, hcell]
      split
      next g hg => exact absurd hg (hother g)
      next => rfl
    rw [hkeep, WorkerCell.rebuild_other hother]
    exact life_eq.mpr ⟨rfl, rfl, slot_withPod hs⟩

theorem updatePodOnNode_spec (w old : WorkerPod) (s : SchedulerHandler) :
    (updatePodOnNode w old).wp (fun _ s' => s'.life = (s.index.fileNode w, s.grants, s.slot) ∧
        s'.funcs = s.funcs ∧ s'.peers = s.peers) (fun _ _ => False)
      (fun p => Calm p ∨ p = .nodeUpdatePodMissing ∧
        ∃ m, s.byNode.known w.pod.nodename = some m ∧ m.contains w.pod.podKey = false) s := by
  unfold updatePodOnNode
  rw [wp_bind, wp_get]
  rcases hn : s.nodes[w.pod.nodename]? with _ | ns
  · exact ⟨life_parkNodePod hn, rfl, rfl⟩
  · rw [wp_bind]
    refine (wp_lift _).mpr ⟨fun ns₁ hns₁ => ?_, fun p hp => ?_⟩
    · rw [wp_bind]
      refine wp_liftFault.mpr ⟨fun ns₂ hns₂ => ?_, fun f _ => Or.inl (calm_fault f)⟩
      refine ⟨life_insertNode_file hn ?_, rfl, rfl⟩
      have hhome₁ : ns₁.home = (ns.node.name, ns.pods.insert w.pod.podKey w) := by
        unfold NodeStatus.updatePod at hns₁
        dsimp only at hns₁
        split at hns₁
        next =>
          rw [← Except.ok.inj hns₁]
          rfl
        next => cases hns₁
      unfold releaseStandby at hns₂
      split at hns₂
      next => rw [freeResource_home hns₂, hhome₁]
      next => rw [← Except.ok.inj hns₂, hhome₁]
    · unfold NodeStatus.updatePod at hp
      dsimp only at hp
      split at hp
      next => cases hp
      next hmem =>
        exact Or.inr ⟨(Except.error.inj hp).symm, ns.pods, known_node hn,
          Bool.eq_false_iff.mpr hmem⟩

/-- The function takes the new worker pod, and its queue is served if the pod is
ready and idle. -/
theorem updatePodInFunc_spec (env : Env) (w : WorkerPod) {s : SchedulerHandler}
    (hs : s.index.Keyed) (hw : s.pods[w.pod.podKey]? = some w) :
    (updatePodInFunc env w).wp
      (fun left s' =>
        (left = false ∧ s'.life = (s.index.fileFunc w, s.grants, s.slot) ∧
          (w.pod.state = .ready → s.stateOf w = .idle → UnknownFunc s w.pod.funcKey)) ∨
        (w.pod.state = .ready ∧ s.stateOf w = .idle ∧
          ∃ t, t.life = (s.index.fileFunc w, s.grants, s.slot) ∧
            Served env (s.queueOf w.pod.funcKey) w t left s'))
      (fun _ s' => s'.life = (s.index.fileFunc w, s.grants, s.slot) ∧
        (s.lookforPeer w.pod.ipAddr).isOk = false ∧ s.queueOf w.pod.funcKey ≠ [])
      (fun p => Calm p ∨ p = .funcUpdatePodMissing ∧
        ∃ m, s.byFunc.known w.pod.funcKey = some m ∧ m.contains w.pod.podKey = false) s := by
  unfold updatePodInFunc
  rw [wp_bind, wp_get]
  rcases hf : s.funcs[w.pod.funcKey]? with _ | fs
  · refine Or.inl ⟨rfl, life_parkFuncPod hf, fun _ _ => ?_⟩
    rw [UnknownFunc, Std.ExtTreeMap.contains_eq_isSome_getElem?, hf]
    rfl
  · dsimp only
    unfold updatePodOfFunc
    split
    next hmem =>
      exact Or.inr ⟨rfl, fs.pods, known_func hf, by simpa using hmem⟩
    next =>
      rw [wp_bind, wp_modify, wp_bind, wp_get]
      have hqueue : s.queueOf w.pod.funcKey = fs.leaseWorkerReqs := by
        unfold queueOf
        rw [hf]
      have hlife := life_modifyFunc_file (w := w)
        (g := fun fs => { fs with pods := fs.pods.insert w.pod.podKey w }) hf rfl
      split
      next h =>
        obtain ⟨hready, hidle⟩ := Bool.and_eq_true_iff.mp h
        have hidle' : s.stateOf w = .idle := isIdle_iff.mp hidle
        have hkeyed := (life_eq.mp hlife).1
        refine wp_mono (serveLeaseQueue_spec env w w.pod.funcKey fs.leaseWorkerReqs
          (s := s.modifyFunc _ _) ⟨hs.key, hs.ref_lt, hs.ref_inj⟩ hw hidle') (fun left s' hserved => ?_)
          (fun _ s' herr => ?_) fun _ hp => Or.inl hp
        · rw [hqueue]
          exact Or.inr ⟨beq_iff_eq.mp hready, hidle', _, hlife, hserved⟩
        · rw [hqueue]
          exact ⟨herr.2.2.trans hlife, herr.2.1, herr.1⟩
      next h =>
        refine Or.inl ⟨rfl, hlife, fun hready hidle => ?_⟩
        rw [hready] at h
        have hidle' : (s.stateOf w).isIdle = true := isIdle_iff.mpr hidle
        exact absurd (Bool.and_eq_true_iff.mpr ⟨rfl, hidle'⟩) h

/-- Putting a key into the pool, as an equation for all slots. -/
theorem slot_putIdle {s : SchedulerHandler} (k : String) :
    (s.putIdle k).slot = Function.update s.slot k ⟨(s.slot k).entry, true⟩ := by
  funext a
  rw [Function.update_apply]
  split
  next ha => rw [ha, slot_putIdle_self]
  next ha => exact slot_putIdle_of_ne ha

/-- The states a further report of a pod goes through have the report's index. -/
theorem Reported.of_life {env : Env} {pod : FuncPod} {s s' : SchedulerHandler} {a : Act}
    {x : Slot} {g : List (String × ℤ)} (htracked : (s.pods[pod.podKey]?).isSome)
    (hlife : s'.life = (s.index.track (s.nextPod pod), s.grants ++ g,
      Function.update s.slot pod.podKey x))
    (hact : ModifiedOf s env pod a) (hstep : Slot.Step a (s.slot pod.podKey) x)
    (hg : ∀ p ∈ g, p.1 = pod.podKey ∧ ∃ t, ModifiedOf s env pod (.granted pod p.2 t)) :
    Reported env pod s s' := by
  obtain ⟨hindex, hgrants, hslot⟩ := life_eq.mp hlife
  refine ⟨htracked, hindex, ⟨a, hact, ?_⟩, fun k hk => ?_, fun p hp => ?_⟩
  · rw [hslot, Function.update_self]
    exact hstep
  · rw [hslot, Function.update_of_ne hk]
  · rw [hgrants] at hp
    exact (List.mem_append.mp hp).imp_right (hg p)

/-- The report of a pod is tracked and held by its node: what is known before its
function takes it. -/
structure Filed (pod : FuncPod) (old : WorkerPod) (s s₂ : SchedulerHandler) : Prop where
  /-- the worker pod it replaces -/
  replaces : s.pods[pod.podKey]? = some old
  /-- the index -/
  index : s₂.index = (s.index.insertPod (s.nextPod pod)).fileNode (s.nextPod pod)
  /-- nothing has been handed out -/
  grants : s₂.grants = s.grants
  /-- the slots -/
  slot : s₂.slot = Function.update s.slot pod.podKey
    ⟨some (pod, (s.workers old.ref).rebuild pod), (s.slot pod.podKey).idle⟩
  /-- the functions are as they were -/
  funcs : s₂.funcs = s.funcs
  /-- the peers are as they were -/
  peers : s₂.peers = s.peers

namespace Filed

variable {pod : FuncPod} {old : WorkerPod} {s s₂ : SchedulerHandler} {env : Env}

theorem tracked (h : Filed pod old s s₂) : (s.pods[pod.podKey]?).isSome := by
  rw [h.replaces]
  rfl

theorem slot_old (h : Filed pod old s s₂) :
    s.slot pod.podKey = ⟨some (old.pod, s.workers old.ref), (s.slot pod.podKey).idle⟩ := by
  rw [slot_of_tracked h.replaces]

theorem keyed (h : Filed pod old s s₂) (hs : s.index.Keyed) : s₂.index.Keyed := by
  rw [h.index]
  have ht := hs.track (w := s.nextPod pod) rfl
  exact ⟨ht.key, ht.ref_lt, ht.ref_inj⟩

theorem get (h : Filed pod old s s₂) : s₂.pods[pod.podKey]? = some (s.nextPod pod) := by
  show s₂.index.pods[pod.podKey]? = some (s.nextPod pod)
  rw [h.index]
  exact BTreeMap.get_insert_self ..

theorem stateOf (h : Filed pod old s s₂) :
    s₂.stateOf (s.nextPod pod) = ((s.workers old.ref).rebuild pod).state := by
  have hslot := congrFun h.slot pod.podKey
  rw [slot_of_tracked h.get, Function.update_self] at hslot
  exact congrArg (fun e : FuncPod × WorkerCell => e.2.state)
    (Option.some.inj (congrArg Slot.entry hslot))

theorem queueOf (h : Filed pod old s s₂) (f : String) : s₂.queueOf f = s.queueOf f := by
  unfold SchedulerHandler.queueOf
  rw [h.funcs]

theorem lookforPeer (h : Filed pod old s s₂) (ip : UInt32) :
    s₂.lookforPeer ip = s.lookforPeer ip := by
  unfold SchedulerHandler.lookforPeer
  rw [h.peers]

/-- The function takes the pod and nothing else happens. -/
theorem plain (h : Filed pod old s s₂) {s₃ : SchedulerHandler}
    (hlife : s₃.life = (s₂.index.fileFunc (s.nextPod pod), s₂.grants, s₂.slot))
    (hready : pod.state = .ready → s₂.stateOf (s.nextPod pod) = .idle →
      UnknownFunc s pod.funcKey ∨
        (s.lookforPeer pod.ipAddr).isOk = false ∧ s.queueOf pod.funcKey ≠ []) :
    Reported env pod s s₃ := by
  rw [h.index, h.grants, h.slot] at hlife
  refine Reported.of_life (g := []) (a := .rebuilt pod)
    (x := ⟨some (pod, (s.workers old.ref).rebuild pod), (s.slot pod.podKey).idle⟩) h.tracked ?_
    ⟨rfl, fun hr => ?_⟩ ?_ fun _ hp => (nomatch hp)
  · rw [hlife, List.append_nil]
    rfl
  · by_cases hworking : ∃ g, (s.workers old.ref).state = .working g
    · obtain ⟨g, hg⟩ := hworking
      exact Or.inl ⟨old, g, h.replaces, hg⟩
    · refine Or.inr (hready hr ?_)
      rw [h.stateOf, WorkerCell.rebuild_other fun g hg => hworking ⟨g, hg⟩, hr]
      rfl
  · rw [h.slot_old]
    exact .rebuilt

/-- The function takes the pod and its queue is served. -/
theorem served (h : Filed pod old s s₂) {t s₃ : SchedulerHandler} {left : Bool}
    (hready : pod.state = .ready) (hidle : s₂.stateOf (s.nextPod pod) = .idle)
    (hlife : t.life = (s₂.index.fileFunc (s.nextPod pod), s₂.grants, s₂.slot))
    (hserved : Served env (s.queueOf pod.funcKey) (s.nextPod pod) t left s₃) :
    Reported env pod s (if left then s₃.putIdle pod.podKey else s₃) := by
  obtain ⟨hindex, hgrants, hslot⟩ := life_eq.mp hlife
  rw [h.index] at hindex
  rw [h.grants] at hgrants
  rw [h.slot] at hslot
  rw [h.stateOf] at hidle
  unfold Served at hserved
  rw [hindex, hgrants, hslot] at hserved
  rcases hserved with ⟨rfl, hnone, hlife₃⟩ | ⟨rfl, q, hq, hlife₃⟩
  · -- nobody waits for the pod
    obtain ⟨hindex₃, hgrants₃, hslot₃⟩ := life_eq.mp hlife₃
    have hslot₄ : (s₃.putIdle pod.podKey).slot =
        Function.update s.slot pod.podKey ⟨some (pod, ⟨.idle, none⟩), true⟩ := by
      have hkey : s₃.slot pod.podKey = ⟨some (pod, ⟨.idle, none⟩), (s.slot pod.podKey).idle⟩ := by
        rw [hslot₃]
        show Function.update (Function.update s.slot pod.podKey _) pod.podKey
          ⟨_, (Function.update s.slot pod.podKey _ pod.podKey).idle⟩ pod.podKey = _
        rw [Function.update_self, Function.update_self]
        rfl
      rw [slot_putIdle, hkey, hslot₃]
      show Function.update (Function.update (Function.update s.slot pod.podKey _) pod.podKey _)
        pod.podKey _ = _
      rw [Function.update_idem, Function.update_idem]
    refine Reported.of_life (g := []) (a := .settled pod) h.tracked
      (life_eq.mpr ⟨hindex₃, ?_, hslot₄⟩) ⟨rfl, hnone⟩ ?_ fun _ hp => (nomatch hp)
    · rw [List.append_nil]
      exact hgrants₃
    · rw [h.slot_old]
      exact .settled hidle hready
  · -- the first one that waits gets it
    have hgranted : ModifiedOf s env pod (.granted pod q.req.gatewayId q.req.consumer) :=
      ⟨rfl, q, hq, rfl, rfl⟩
    refine Reported.of_life (g := [(pod.podKey, q.req.gatewayId)])
      (x := ⟨some (pod, ⟨.working q.req.gatewayId, q.req.consumer⟩), (s.slot pod.podKey).idle⟩)
      h.tracked (hlife₃.trans ?_) hgranted ?_ fun p hp => ?_
    · show (_, _, Function.update (Function.update s.slot pod.podKey _) pod.podKey
        ⟨_, (Function.update s.slot pod.podKey _ pod.podKey).idle⟩) = _
      rw [Function.update_idem, Function.update_self]
      rfl
    · rw [h.slot_old]
      exact .granted hidle hready
    · rw [List.mem_singleton.mp hp]
      exact ⟨rfl, q.req.consumer, hgranted⟩

end Filed

/-- A report is filed with the node before its function takes it. -/
theorem wp_updatePod {env : Env} {pod : FuncPod} {s : SchedulerHandler}
    {Q : Unit → SchedulerHandler → Prop} {E : Error → SchedulerHandler → Prop} {N : Panic → Prop}
    (hs : s.index.Keyed) (hmissing : s.pods[pod.podKey]? = none → N .updatePodMissing)
    (hnode : ∀ p, (Calm p ∨ p = .nodeUpdatePodMissing ∧
      ∃ m, s.byNode.known pod.nodename = some m ∧ m.contains pod.podKey = false) → N p)
    (hfiled : ∀ old s₂, Filed pod old s s₂ →
      (updatePodInFunc env (s.nextPod pod)).wp
        (fun addToIdle t => Q () (if addToIdle then t.putIdle pod.podKey else t)) E N s₂) :
    (updatePod env pod).wp Q E N s := by
  unfold updatePod
  rw [wp_bind]
  show Proc.wp _ _ _ _ (s.withNewWorker pod)
  unfold retrack
  rw [wp_bind, wp_bind, wp_get]
  have hpods : (s.withNewWorker pod).pods = s.pods := rfl
  rw [hpods]
  rcases hold : s.pods[pod.podKey]? with _ | old
  · exact hmissing hold
  · dsimp only
    rw [wp_bind, wp_modify, wp_pure, wp_bind, wp_modify, wp_bind]
    let s₁ : SchedulerHandler := (s.withPod pod).keepLease old (s.nextPod pod)
    obtain ⟨hindex₁, hgrants₁, hslot₁⟩ := life_eq.mp (life_keepLease hs hold)
    have hfuncs₁ : s₁.funcs = s.funcs ∧ s₁.peers = s.peers := by
      unfold s₁ keepLease
      split
      next => exact ⟨rfl, rfl⟩
      next => exact ⟨rfl, rfl⟩
    refine wp_mono (updatePodOnNode_spec (s.nextPod pod) old s₁) (fun _ s₂ h₂ => ?_)
      (fun _ _ h => h.elim) fun p hp => ?_
    · obtain ⟨hlife₂, hfuncs₂, hpeers₂⟩ := h₂
      obtain ⟨hindex₂, hgrants₂, hslot₂⟩ := life_eq.mp hlife₂
      rw [wp_bind]
      refine wp_mono (hfiled old s₂ ⟨hold, hindex₁ ▸ hindex₂, hgrants₂.trans hgrants₁,
        hslot₂.trans hslot₁, hfuncs₂.trans hfuncs₁.1, hpeers₂.trans hfuncs₁.2⟩)
        (fun left s₃ h₃ => ?_) (fun _ _ h => h) fun _ h => h
      rw [wp_modify]
      exact h₃
    · refine hnode p (hp.imp_right fun hp => ?_)
      obtain ⟨rfl, m, hm, hmem⟩ := hp
      have hbyNode : s₁.index.byNode = s.index.byNode :=
        (congrArg PodIndex.byNode hindex₁ : s₁.index.byNode = (s.index.insertPod _).byNode)
      refine ⟨rfl, m, ?_, hmem⟩
      show s.index.byNode.known pod.nodename = some m
      rw [← hbyNode]
      exact hm

theorem updatePod_spec (env : Env) (pod : FuncPod) {s : SchedulerHandler} (hs : s.index.Keyed) :
    (updatePod env pod).wp (fun _ s' => Reported env pod s s') (fun _ s' => Reported env pod s s')
      (ReportPanics s pod) s := by
  refine wp_updatePod hs (fun hold => Or.inr (Or.inl ⟨rfl, hold⟩))
    (fun p hp => hp.imp_right fun hp => Or.inr (Or.inl hp)) fun old s₂ hfiled => ?_
  refine wp_mono (updatePodInFunc_spec env (s.nextPod pod) (hfiled.keyed hs) hfiled.get)
    (fun left s₃ h₃ => ?_) (fun _ s₃ h₃ => ?_) fun p hp => ?_
  · rcases h₃ with ⟨rfl, hlife₃, hready⟩ | ⟨hready, hidle, t, hlife, hserved⟩
    · refine hfiled.plain hlife₃ fun hr hi => Or.inl ?_
      have hunknown : UnknownFunc s₂ pod.funcKey := hready hr hi
      rw [UnknownFunc, hfiled.funcs] at hunknown
      exact hunknown
    · have hqueue : s₂.queueOf (s.nextPod pod).pod.funcKey = s.queueOf pod.funcKey :=
        hfiled.queueOf pod.funcKey
      rw [hqueue] at hserved
      exact hfiled.served hready hidle hlife hserved
  · refine hfiled.plain h₃.1 fun _ _ => Or.inr ⟨?_, ?_⟩
    · rw [← hfiled.lookforPeer]
      exact h₃.2.1
    · rw [← hfiled.queueOf]
      exact h₃.2.2
  · refine hp.imp_right fun hp => Or.inr (Or.inr ?_)
    obtain ⟨rfl, m, hm, hmem⟩ := hp
    refine ⟨rfl, m, ?_, hmem⟩
    unfold byFunc at hm ⊢
    rw [hfiled.funcs] at hm
    exact hm

/-! ## Deleted pods -/

theorem removePodFromNode_spec (pod : FuncPod) (s : SchedulerHandler) :
    (removePodFromNode pod).wp (fun _ s' => s'.life = (s.index.unfileNode pod, s.grants, s.slot))
      (fun _ _ => False) Calm s := by
  unfold removePodFromNode
  rw [wp_bind, wp_get]
  rcases hn : s.nodes[pod.nodename]? with _ | ns
  · refine life_eq.mpr ⟨?_, rfl, rfl⟩
    unfold PodIndex.unfileNode
    rw [show s.index.byNode.unfile _ _ = s.index.byNode from
      Filing.unfile_of_unknown (unknown_node hn)]
  · rw [wp_bind]
    refine wp_liftFault.mpr ⟨fun ns' hns' => ?_, fun f _ => calm_fault f⟩
    have hhome : ns'.home = (ns.node.name, ns.pods.erase pod.podKey) := by
      unfold NodeStatus.removePod at hns'
      dsimp only at hns'
      split at hns'
      next => exact freeResource_home hns'
      next =>
        rw [← Except.ok.inj hns']
        rfl
    obtain ⟨hname, hpods⟩ := Prod.mk.inj hhome
    refine life_eq.mpr ⟨PodIndex.ext rfl ?_ rfl (names_insertNode hn hname) rfl, rfl, rfl⟩
    exact byNode_insertNode_erase hn hpods

theorem life_untrack {s : SchedulerHandler} (pod : FuncPod) :
    ({ s with pods := s.pods.erase pod.podKey } : SchedulerHandler).life =
      (s.index.erasePod pod, s.grants,
        Function.update s.slot pod.podKey ⟨none, (s.slot pod.podKey).idle⟩) :=
  life_eq.mpr ⟨rfl, rfl, slot_erasePod pod.podKey⟩

theorem slot_popIdle_update {s : SchedulerHandler} (k : String) :
    (s.popIdle k).slot = Function.update s.slot k (s.slot k).unlisted := by
  funext a
  rw [Function.update_apply]
  split
  next ha => rw [ha, slot_popIdle_self, Slot.unlisted]
  next ha => exact slot_popIdle_of_ne ha

theorem life_modifyFunc_unfile {s : SchedulerHandler} (pod : FuncPod) :
    (s.modifyFunc pod.funcKey (·.removePod pod.podKey)).life =
      (s.index.unfileFunc pod, s.grants, s.slot) := by
  refine life_eq.mpr ⟨?_, rfl, rfl⟩
  unfold PodIndex.unfileFunc index
  dsimp only
  rw [← byFunc_modifyFunc_erase (g := (·.removePod pod.podKey)) fun _ => rfl]
  rfl

theorem removePod_spec (env : Env) (pod : FuncPod) {s : SchedulerHandler} :
    (removePod env pod).wp
      (fun _ s' => (s.pods[pod.podKey]?).isSome ∧
        s'.life = (s.index.untrack pod, s.grants, Function.update s.slot pod.podKey ⟨none, false⟩))
      (fun _ _ => False)
      (fun p => Calm p ∨ p = .removePodMissing ∧ s.pods[pod.podKey]? = none) s := by
  unfold removePod
  rw [wp_bind, wp_modify, wp_bind]
  have hlife₁ := life_closePod (s := s) env pod
  have hpods₁ : (s.closePod env pod).pods = s.pods := pods_of_index (index_of_life hlife₁)
  unfold untrack
  rw [wp_bind, wp_get, hpods₁]
  rcases hk : s.pods[pod.podKey]? with _ | w
  · exact Or.inr ⟨rfl, rfl⟩
  · dsimp only
    rw [wp_modify, wp_bind]
    refine wp_mono ((noteFailedPod_infallible env pod).wp_of_moves (quiet_noteFailedPod env pod) _)
      (fun _ s₂ h₂ => ?_) (fun _ _ h => h) fun _ h => Or.inl h
    rw [wp_bind]
    refine wp_mono ((requeueSnapshot_infallible env pod).wp_of_moves
      (quiet_requeueSnapshot env pod) _) (fun _ s₃ h₃ => ?_) (fun _ _ h => h) fun _ h => Or.inl h
    have hlife₃ : s₃.life = (s.index.erasePod pod, s.grants,
        Function.update s.slot pod.podKey ⟨none, (s.slot pod.podKey).idle⟩) := by
      obtain ⟨hindex, hgrants, hslot⟩ := life_eq.mp hlife₁
      have h := (h₃.trans h₂).trans (life_untrack (s := s.closePod env pod) pod)
      rw [hindex, hgrants, hslot] at h
      exact h
    obtain ⟨hindex₃, hgrants₃, hslot₃⟩ := life_eq.mp hlife₃
    rw [wp_bind, wp_modify, wp_bind]
    refine wp_mono (removePodFromNode_spec pod (s₃.popIdle pod.podKey)) (fun _ s₄ h₄ => ?_)
      (fun _ _ h => h) fun _ h => Or.inl h
    obtain ⟨hindex₄, hgrants₄, hslot₄⟩ := life_eq.mp h₄
    rw [wp_modify]
    refine ⟨rfl, (life_modifyFunc_unfile pod).trans ?_⟩
    rw [hindex₄, hgrants₄, hslot₄, index_popIdle, hindex₃, slot_popIdle_update, hslot₃,
      Function.update_self, Function.update_idem]
    refine Prod.ext rfl (Prod.ext hgrants₃ rfl)

end Inferx
