import Inferx.Lib.Nested
import Inferx.Scheduler.Epochs
import Inferx.Scheduler.Frame

/-!
# The books and the store events

What the store events do to the books. Pods and nodes come and go without a
change of them, except that a node that comes back with a new epoch loses its
snapshots and its removals in flight (`Forgets`). The events of functions and
snapshots write them, one entry at a time.

The deletion of a snapshot pod that has not finished queues its snapshot again.
This is the one place where a pod event can panic over an unknown function, and
`RequeueOk` says when it does not.
-/

namespace Inferx

open Proc SchedulerHandler

/-! ## Added and modified pods -/

theorem booked_newWorkerPod (pod : FuncPod) : Framed (newWorkerPod pod) := fun _ => rfl

theorem framed_startSnapshotPodBilling (env : Env) (pod : FuncPod) :
    Framed (startSnapshotPodBilling env pod) := by
  refine Moves.bind Moves.get fun s => ?_
  dsimp only
  split
  next => exact Moves.pure ()
  next =>
    split
    next => exact Moves.crash (tame_fault _)
    next =>
      split
      next => exact Moves.pure ()
      next =>
        refine Framed.modify fun s => ?_
        simp [catalog, books, Effect.removes, Effect.creates]

theorem framed_noteSnapshotPod (env : Env) (pod : FuncPod) : Framed (noteSnapshotPod env pod) := by
  unfold noteSnapshotPod
  split
  next =>
    refine Moves.bind (Framed.modify fun _ => rfl) fun _ => ?_
    split
    next => exact Moves.pure ()
    next => exact framed_startSnapshotPodBilling env pod
  next => exact Moves.pure ()

theorem framed_addPodToNode (w : WorkerPod) : Framed (addPodToNode w) := by
  refine Moves.bind Moves.get fun s => ?_
  split
  next => exact Framed.modify fun _ => rfl
  next => exact Moves.bind (framed_liftFault _) fun _ => Framed.modify fun _ => rfl

theorem catalog_addPodToFunc {s : SchedulerHandler} (w : WorkerPod) :
    (s.addPodToFunc w).catalog = s.catalog := by
  unfold addPodToFunc
  split
  next => rfl
  next => exact catalog_modifyFunc fun _ => rfl

theorem catalog_enlistIdle {s : SchedulerHandler} (w : WorkerPod) :
    (s.enlistIdle w).catalog = s.catalog := by
  unfold enlistIdle
  split
  next => rfl
  next => rfl

theorem booked_addPod (env : Env) (pod : FuncPod) : Booked (addPod env pod) := by
  refine Moves.bind (booked_newWorkerPod pod).booked fun w => Moves.bind ?_ fun _ => ?_
  · refine Moves.bind Moves.get fun s => ?_
    split
    next => exact Moves.crash (by simp [Tame])
    next => exact Moves.modify fun _ => rfl
  · refine Framed.booked (Moves.bind (framed_noteSnapshotPod env pod) fun _ => ?_)
    refine Moves.bind (Framed.modify fun _ => catalog_enlistIdle w) fun _ => ?_
    refine Moves.bind (framed_addPodToNode w) fun _ => ?_
    exact Framed.modify fun _ => catalog_addPodToFunc w

theorem framed_updatePodOnNode (w old : WorkerPod) : Framed (updatePodOnNode w old) := by
  refine Moves.bind Moves.get fun s => ?_
  split
  next => exact Framed.modify fun _ => rfl
  next ns _ =>
    refine Moves.bind (Moves.lift fun p hp => ?_) fun _ => ?_
    · unfold NodeStatus.updatePod at hp
      dsimp only at hp
      split at hp
      next => cases hp
      next =>
        obtain rfl := Except.error.inj hp
        simp [Tame]
    · exact Moves.bind (framed_liftFault _) fun _ => Framed.modify fun _ => rfl

theorem framed_serveLeaseQueue (env : Env) (w : WorkerPod) (f : String) (queue : List QueuedLease) :
    Framed (serveLeaseQueue env w f queue) := by
  induction queue with
  | nil => exact Moves.bind (Framed.modify fun _ => rfl) fun _ => Moves.pure _
  | cons q rest ih =>
    refine Moves.bind (Framed.modify fun _ => catalog_modifyFunc fun _ => rfl) fun _ => ?_
    split
    next => exact Moves.crash (by simp [Tame])
    next =>
      refine Moves.bind Moves.get fun s => ?_
      split
      next => exact Moves.throw _
      next =>
        split
        next =>
          refine Moves.bind (Moves.bind (Framed.modify fun _ => catalog_emit ⟨rfl, rfl⟩) fun _ => ?_)
            fun _ => Moves.pure _
          exact Moves.bind (framed_setWorking w _) fun _ => Framed.modify fun _ => rfl
        next => exact ih

theorem framed_updatePodInFunc (env : Env) (w : WorkerPod) : Framed (updatePodInFunc env w) := by
  refine Moves.bind Moves.get fun s => ?_
  split
  next => exact Moves.bind (Framed.modify fun _ => rfl) fun _ => Moves.pure _
  next fs _ =>
    unfold updatePodOfFunc
    split
    next => exact Moves.crash (by simp [Tame])
    next =>
      refine Moves.bind (Framed.modify fun _ => catalog_modifyFunc fun _ => rfl) fun _ => ?_
      refine Moves.bind Moves.get fun s => ?_
      split
      next => exact framed_serveLeaseQueue env w _ _
      next => exact Moves.pure _

theorem catalog_keepLease {s : SchedulerHandler} (old w : WorkerPod) :
    (s.keepLease old w).catalog = s.catalog := by
  unfold keepLease
  split
  next => rfl
  next => rfl

theorem booked_updatePod (env : Env) (pod : FuncPod) : Booked (updatePod env pod) := by
  refine Moves.bind (booked_newWorkerPod pod).booked fun w => Moves.bind ?_ fun old => ?_
  · refine Moves.bind Moves.get fun s => ?_
    split
    next => exact Moves.crash (by simp [Tame])
    next => exact Moves.bind (Moves.modify fun _ => rfl) fun _ => Moves.pure _
  · refine Framed.booked (Moves.bind (Framed.modify fun _ => catalog_keepLease old w) fun _ => ?_)
    refine Moves.bind (framed_updatePodOnNode w old) fun _ => ?_
    refine Moves.bind (framed_updatePodInFunc env w) fun b => Framed.modify fun s => ?_
    split
    next => rfl
    next => rfl

/-! ## Deleted pods -/

/-- Is the snapshot of a deleted pod queued again? -/
def Requeues (s : SchedulerHandler) (pod : FuncPod) : Prop :=
  pod.createType = .snapshot ∧ isSnapshotPodFinished pod.state = false ∧
    s.books.snapshots[pod.funcKey]?.any (·.contains pod.nodename) = false

/-- It is queued only for a known function. -/
def RequeueOk (s : SchedulerHandler) (pod : FuncPod) : Prop := Requeues s pod → s.Knows pod.funcKey

theorem RequeueOk.congr {s t : SchedulerHandler} {pod : FuncPod} (h : t.books = s.books)
    (hs : RequeueOk s pod) : RequeueOk t pod := by
  unfold RequeueOk Requeues Knows at hs ⊢
  rw [h]
  exact hs

theorem requeueSnapshot_books (env : Env) (pod : FuncPod) (s : SchedulerHandler) :
    (requeueSnapshot env pod).wp (fun _ t => t.catalog = s.catalog) (fun _ t => t.catalog = s.catalog)
      (fun p => RequeueOk s pod → Tame p) s := by
  unfold requeueSnapshot
  split
  next hpod =>
    rw [Bool.and_eq_true, beq_iff_eq, Bool.not_eq_true'] at hpod
    rw [wp_bind, wp_get]
    split
    next => exact catalog_removePendingSnapshot _ _
    next hnone =>
      rw [wp_bind]
      by_cases hknown : s.Knows pod.funcKey
      · refine wp_mono (framed_addSnapshotTask env _ _ s hknown) (fun _ t ht => ?_) (fun _ _ h => h)
          fun _ hp _ => hp
        exact (catalog_removePendingSnapshot _ _).trans ht
      · have hunknown : s.funcs[pod.funcKey]? = none := by
          rwa [knows_iff, Option.isSome_iff_ne_none, not_not] at hknown
        unfold addSnapshotTask
        rw [wp_bind, wp_get, hunknown]
        exact fun hok => absurd (hok ⟨hpod.1, hpod.2, Bool.eq_false_iff.mpr hnone⟩) hknown
  next => rfl

theorem framed_noteFailedPod (env : Env) (pod : FuncPod) : Framed (noteFailedPod env pod) := by
  refine Moves.get_bind fun s => ?_
  split
  next fs status hfs hstatus =>
    split
    next =>
      have hs : s.Knows pod.funcKey := knows_iff.mpr (Option.isSome_iff_exists.mpr ⟨fs, hfs⟩)
      refine FramedFor.bind (framed_addSnapshotTask env _ _) (fun _ => ?_) s hs
      split
      next => exact Moves.movesFrom (Framed.modify fun _ => catalog_emit ⟨rfl, rfl⟩)
      next => exact Moves.movesFrom (Moves.crash (by simp [Tame]))
    next => rfl
  next => rfl

/-- The books stay, and the pods of a node become fewer. -/
structure Sheds (n : String) (s t : SchedulerHandler) : Prop where
  /-- the books are the same -/
  books : t.books = s.books
  /-- the node has got no pod -/
  pods : ∀ (k : String) (w : WorkerPod), (t.podsOfNode n)[k]? = some w → (s.podsOfNode n)[k]? = some w

instance (n : String) : IsPreorder SchedulerHandler (Sheds n) where
  refl _ := ⟨rfl, fun _ _ h => h⟩
  trans _ _ _ h₁ h₂ := ⟨h₂.books.trans h₁.books, fun k w h => h₁.pods k w (h₂.pods k w h)⟩

theorem addSnapshotTask_nodes (env : Env) (n f : String) :
    Fixes (fun s => s.nodes) (addSnapshotTask env n f) := by
  refine Moves.bind Moves.get fun s => ?_
  split
  next => exact Moves.crash trivial
  next =>
    split
    next => exact Moves.pure ()
    next => exact Moves.modify fun _ => rfl

theorem noteFailedPod_nodes (env : Env) (pod : FuncPod) :
    Fixes (fun s => s.nodes) (noteFailedPod env pod) := by
  refine Moves.bind Moves.get fun s => ?_
  split
  next =>
    split
    next =>
      refine Moves.bind (addSnapshotTask_nodes env _ _) fun _ => ?_
      split
      next => exact Moves.modify fun _ => rfl
      next => exact Moves.crash trivial
    next => exact Moves.pure ()
  next => exact Moves.pure ()

theorem removePendingSnapshot_nodes {s : SchedulerHandler} (f n : String) :
    (s.removePendingSnapshot f n).nodes = s.nodes := by
  unfold removePendingSnapshot
  split
  next => rfl
  next => rfl

theorem requeueSnapshot_nodes (env : Env) (pod : FuncPod) :
    Fixes (fun s => s.nodes) (requeueSnapshot env pod) := by
  unfold requeueSnapshot
  split
  next =>
    refine Moves.bind Moves.get fun s => ?_
    split
    next => exact Moves.modify fun _ => removePendingSnapshot_nodes _ _
    next =>
      refine Moves.bind (addSnapshotTask_nodes env _ _) fun _ => ?_
      exact Moves.modify fun _ => removePendingSnapshot_nodes _ _
  next => exact Moves.pure ()

theorem closePod_nodes {s : SchedulerHandler} (env : Env) (pod : FuncPod) :
    (s.closePod env pod).nodes = s.nodes := by
  unfold closePod
  dsimp only
  split
  next =>
    unfold endSnapshotPodBilling
    split
    next => rfl
    next =>
      split
      next => rfl
      next => rfl
  next => rfl

theorem Sheds.of_nodes {n : String} {s t : SchedulerHandler} (hbooks : t.books = s.books)
    (hnodes : t.nodes = s.nodes) : Sheds n s t := by
  refine ⟨hbooks, fun k w hw => ?_⟩
  unfold podsOfNode at hw ⊢
  rw [← hnodes]
  exact hw

theorem podsOfNode_insert {s : SchedulerHandler} {n m : String} {ns : NodeStatus} :
    ({ s with nodes := s.nodes.insert m ns } : SchedulerHandler).podsOfNode n =
      if n = m then ns.pods else s.podsOfNode n := by
  unfold podsOfNode
  rw [BTreeMap.get_insert]
  split
  next h =>
    split at h
    next => cases h
    next hn => rw [if_neg hn, h]
  next ns' h =>
    split at h
    next hn =>
      rw [if_pos hn]
      exact congrArg NodeStatus.pods (Option.some.inj h).symm
    next hn => rw [if_neg hn, h]

theorem removePod_pods {ns ns' : NodeStatus} {k : String} {r : NodeResources}
    (h : ns.removePod k r = .ok ns') : ns'.pods = ns.pods.erase k := by
  unfold NodeStatus.removePod at h
  dsimp only at h
  split at h
  next =>
    obtain ⟨a, -, ha⟩ := Except.bind_eq_ok.mp h
    rw [← Except.ok.inj ha]
  next => rw [← Except.ok.inj h]

theorem removePodFromNode_sheds (n : String) (pod : FuncPod) :
    Moves (Sheds n) Tame (removePodFromNode pod) := by
  refine Moves.get_bind fun s => ?_
  split
  next => exact Std.Refl.refl s
  next ns hns =>
    rw [wp_bind]
    refine wp_liftFault.mpr ⟨fun ns' hns' => ?_, fun f _ => tame_fault f⟩
    refine ⟨rfl, fun k w hw => ?_⟩
    replace hw : (SchedulerHandler.podsOfNode
      { s with nodes := s.nodes.insert pod.nodename ns' } n)[k]? = some w := hw
    rw [podsOfNode_insert] at hw
    split at hw
    next hn =>
      rw [removePod_pods hns'] at hw
      have hk := (BTreeMap.get_erase_eq_some.mp hw).2
      unfold podsOfNode
      rw [hn, hns]
      exact hk
    next => exact hw

theorem removePod_books (env : Env) (pod : FuncPod) (n : String) (s : SchedulerHandler) :
    (removePod env pod).wp (fun _ t => Sheds n s t) (fun _ t => Sheds n s t)
      (fun p => RequeueOk s pod → Tame p) s := by
  have hback : ∀ {t : SchedulerHandler} {p : Panic}, t.books = s.books →
      (RequeueOk t pod → Tame p) → RequeueOk s pod → Tame p := fun h hp hok => hp (hok.congr h)
  have hbind : ∀ {α β : Type} {x : SchedM α} {g : α → SchedM β} {t : SchedulerHandler},
      Sheds n s t → x.wp (fun _ u => Sheds n t u) (fun _ u => Sheds n t u)
        (fun p => RequeueOk t pod → Tame p) t →
      (∀ a u, Sheds n s u → (g a).wp (fun _ v => Sheds n s v) (fun _ v => Sheds n s v)
        (fun p => RequeueOk s pod → Tame p) u) →
      (x >>= g).wp (fun _ v => Sheds n s v) (fun _ v => Sheds n s v)
        (fun p => RequeueOk s pod → Tame p) t := by
    intro α β x g t hst hx hg
    rw [wp_bind]
    exact wp_mono hx (fun a u hu => hg a u (IsTrans.trans _ _ _ hst hu))
      (fun _ u hu => IsTrans.trans _ _ _ hst hu) fun _ hp => hback hst.books hp
  unfold removePod
  refine hbind (Std.Refl.refl s) (x := Proc.modify (SchedulerHandler.closePod env · pod))
    (Sheds.of_nodes (books_of_catalog (catalog_closePod env pod)) (closePod_nodes env pod))
    fun _ s₁ h₁ => ?_
  refine hbind h₁ ?_ fun _ s₂ h₂ => ?_
  · unfold untrack
    rw [wp_bind, wp_get]
    split
    next => exact fun _ => by simp [Tame]
    next => exact Sheds.of_nodes rfl rfl
  refine hbind h₂ (wp_mono (wp_and (framed_noteFailedPod env pod s₂) (noteFailedPod_nodes env pod s₂))
    (fun _ t ht => .of_nodes (books_of_catalog ht.1) ht.2)
    (fun _ t ht => .of_nodes (books_of_catalog ht.1) ht.2) fun _ hp _ => hp.1) fun _ s₃ h₃ => ?_
  refine hbind h₃ (wp_mono (wp_and (requeueSnapshot_books env pod s₃) (requeueSnapshot_nodes env pod s₃))
    (fun _ t ht => .of_nodes (books_of_catalog ht.1) ht.2)
    (fun _ t ht => .of_nodes (books_of_catalog ht.1) ht.2) fun _ hp => hp.1) fun _ s₄ h₄ => ?_
  refine hbind h₄ (x := Proc.modify (·.popIdle pod.podKey)) (Sheds.of_nodes rfl rfl) fun _ s₅ h₅ => ?_
  refine hbind h₅ (wp_mono (removePodFromNode_sheds n pod s₅) (fun _ _ h => h) (fun _ _ h => h)
    fun _ hp _ => hp) fun _ s₆ h₆ => ?_
  refine IsTrans.trans _ _ _ h₆ (Sheds.of_nodes ?_ rfl)
  exact books_of_catalog (catalog_modifyFunc fun _ => rfl)

/-- Deleting pods: none of them may be queued again for an unknown function. -/
theorem removePods_books (env : Env) (pods : BTreeMap String WorkerPod) (n : String)
    (s : SchedulerHandler) :
    (removePods env pods).wp (fun _ t => Sheds n s t) (fun _ t => Sheds n s t)
      (fun p => (∀ (k : String) (w : WorkerPod), pods[k]? = some w → RequeueOk s w.pod) → Tame p) s := by
  have hloop : ∀ (l : List (String × WorkerPod)) (t : SchedulerHandler), Sheds n s t →
      (each (fun p => ignore (removePod env p.2.pod)) l).wp (fun _ u => Sheds n s u)
        (fun _ u => Sheds n s u) (fun p => (∀ q ∈ l, RequeueOk s q.2.pod) → Tame p) t := by
    intro l
    induction l with
    | nil => exact fun t ht => ht
    | cons q l ih =>
      intro t ht
      unfold Proc.each
      rw [wp_bind, wp_ignore]
      have hrest : ∀ u, Sheds n t u → (each (fun p => ignore (removePod env p.2.pod)) l).wp
          (fun _ u => Sheds n s u) (fun _ u => Sheds n s u)
          (fun p => (∀ q' ∈ q :: l, RequeueOk s q'.2.pod) → Tame p) u := by
        intro u hu
        refine wp_mono (ih u (IsTrans.trans _ _ _ ht hu)) (fun _ _ h => h) (fun _ _ h => h)
          fun _ hp hall => hp fun q' hq' => hall q' (List.mem_cons_of_mem _ hq')
      refine wp_mono (removePod_books env q.2.pod n t) (fun _ u hu => hrest u hu)
        (fun _ u hu => hrest u hu) fun p hp hall => hp ?_
      exact (hall q (List.mem_cons_self ..)).congr ht.books
  unfold removePods
  refine wp_mono (hloop pods.toList s (Std.Refl.refl s)) (fun _ _ h => h) (fun _ _ h => h)
    fun p hp hall => hp fun q hq => ?_
  exact hall q.1 q.2 (BTreeMap.mem_toList.mp hq)

/-! ## Nodes -/

theorem framed_addNode (env : Env) (node : Node) : Framed (addNode env node) := by
  refine Moves.bind Moves.get fun s => ?_
  split
  next => exact Moves.throw _
  next =>
    refine Moves.bind (framed_liftFault _) fun _ => Moves.bind (Framed.modify fun _ => rfl) fun _ => ?_
    exact framed_addTask rfl

theorem framed_updateNode (node : Node) : Framed (updateNode node) := by
  refine Moves.bind Moves.get fun s => ?_
  split
  next => exact Framed.modify fun _ => rfl
  next => exact Moves.throw _

theorem framed_addPeer (node : Node) : Framed (addPeer node) := by
  refine Moves.bind Moves.get fun s => ?_
  split
  next => exact Moves.crash (by simp [Tame])
  next => exact Framed.modify fun _ => rfl

theorem framed_removePeer (node : Node) : Framed (removePeer node) := by
  refine Moves.bind Moves.get fun s => ?_
  split
  next => exact Framed.modify fun _ => rfl
  next => exact Moves.crash (by simp [Tame])

theorem catalog_removePendingSnapshotsOn {s : SchedulerHandler} (n : String) :
    (s.removePendingSnapshotsOn n).catalog = s.catalog :=
  catalog_foldl (fun _ _ => catalog_removePendingSnapshot _ _) _

theorem catalog_cleanFuncStatusForNode {s : SchedulerHandler} (n : String) :
    (s.cleanFuncStatusForNode n).catalog = s.catalog := by
  unfold cleanFuncStatusForNode
  split
  next => rfl
  next ns _ =>
    dsimp only
    refine (catalog_foldl (fun s p => ?_) _).trans (catalog_foldl (fun s p => ?_) _)
    · split
      next => exact catalog_modifyFunc fun _ => rfl
      next => rfl
    · exact catalog_modifyFunc fun _ => rfl

theorem cleanFuncStatusForNode_nodes {s : SchedulerHandler} (n : String) :
    (s.cleanFuncStatusForNode n).nodes = s.nodes := by
  have hfold : ∀ {α : Type} {g : SchedulerHandler → α → SchedulerHandler}
      (_ : ∀ s a, (g s a).nodes = s.nodes) (l : List α) (s : SchedulerHandler),
      (l.foldl g s).nodes = s.nodes := by
    intro α g hg l
    induction l with
    | nil => exact fun s => rfl
    | cons a l ih => exact fun s => (ih (g s a)).trans (hg s a)
  unfold cleanFuncStatusForNode
  split
  next => rfl
  next ns _ =>
    dsimp only
    refine (hfold (fun s p => ?_) _ _).trans (hfold (fun s p => ?_) _ _)
    · split
      next => rfl
      next => rfl
    · rfl

theorem framed_removeNode (node : Node) : Framed (removeNode node) := by
  refine Moves.bind Moves.get fun s => ?_
  split
  next =>
    refine Moves.bind (Framed.modify fun _ => catalog_cleanFuncStatusForNode _) fun _ => ?_
    refine Moves.bind (Framed.modify fun _ => catalog_removePendingSnapshotsOn _) fun _ => ?_
    exact Framed.modify fun _ => rfl
  next => exact Moves.throw _

theorem books_dropPods {s : SchedulerHandler} (n : String) (keys : List String) :
    (s.dropPods n keys).books = s.books := by
  have hfuncs : (s.dropPods n keys).books.funcs = s.books.funcs := by
    funext f
    show (s.funcs.map _)[f]?.map FuncStatus.func = s.funcs[f]?.map FuncStatus.func
    rw [Std.ExtTreeMap.getElem?_map, Option.map_map]
    rfl
  show Books.mk (s.dropPods n keys).books.funcs _ _ _ _ _ _ = s.books
  rw [hfuncs]
  rfl

theorem framed_syncWorker (w : WorkerPod) : Framed (syncWorker w) := by
  refine Moves.bind Moves.get fun s => ?_
  split
  next =>
    split
    next => exact Moves.pure ()
    next => exact Framed.modify fun _ => rfl
  next => exact Framed.modify fun _ => rfl
  next => exact Moves.crash (by simp [Tame])

theorem booked_reconcile (n : String) (node : Node) :
    Booked (reconcileNodeAfterNodeAgentRestart n node) := by
  refine Moves.bind Moves.get fun s => ?_
  split
  next => exact Moves.pure ()
  next =>
    refine Moves.bind (Moves.modify fun _ => books_dropPods _ _) fun _ => ?_
    refine Framed.booked (Moves.bind (framed_liftFault _) fun _ => ?_)
    refine Moves.bind (Framed.modify fun _ => rfl) fun _ => ?_
    refine Moves.bind (Moves.each fun p _ => framed_syncWorker p.2) fun _ => ?_
    exact Framed.modify fun _ => catalog_removePendingSnapshotsOn _

theorem booked_processNodeModified (node : Node) : Booked (processNodeModified node) := by
  refine Moves.bind Moves.get fun s => Moves.bind (framed_updateNode node).booked fun _ => ?_
  split
  next => exact booked_reconcile _ node
  next => exact Moves.pure ()

/-! ## New epochs -/

/-- Is a removal about a node? -/
def RemovalOn (n key : String) : Prop := s!":{n}".toList <:+ key.toList

instance (n key : String) : Decidable (RemovalOn n key) :=
  inferInstanceAs (Decidable (_ <:+ _))

/-- The node has been cleaned out: its snapshots and removals are forgotten. -/
structure Forgets (n : String) (s t : SchedulerHandler) : Prop where
  /-- the functions stay -/
  funcs : t.books.funcs = s.books.funcs
  /-- the sessions stay -/
  sessions : t.books.sessions = s.books.sessions
  /-- nothing has been removed -/
  removed : t.books.removed = s.books.removed
  /-- nothing has been created -/
  created : t.books.created = s.books.created
  /-- nothing has been queued -/
  added : t.books.added = s.books.added
  /-- the snapshots of the node go -/
  snapshots : ∀ f m, t.books.snapshots.getInner f m =
    if m = n then none else s.books.snapshots.getInner f m
  /-- the removals of the node go -/
  removals : t.books.removals = s.books.removals.filter fun key => ¬ RemovalOn n key

/-- The pods of a node can be deleted without queueing a snapshot of an unknown
function. -/
def CleanOk (s : SchedulerHandler) (n : String) : Prop :=
  (∀ (k : String) (w : WorkerPod), (s.nodePods[n]?.getD ∅)[k]? = some w → RequeueOk s w.pod) ∧
    ∀ (k : String) (w : WorkerPod), (s.podsOfNode n)[k]? = some w → RequeueOk s w.pod

theorem forgets_forgetSnapshotsOn {s : SchedulerHandler} (n : String) :
    Forgets n s (s.forgetSnapshotsOn n) := by
  let s₁ : SchedulerHandler := { s with
    snapshots := s.snapshots.keys.foldl (fun m funcId => m.removeInner funcId n) s.snapshots }
  let s₂ := s₁.removePendingSnapshotsOn n
  have hbooks : s₂.books = s₁.books := books_of_catalog (catalog_removePendingSnapshotsOn n)
  have hremovals : (s.forgetSnapshotsOn n).books.removals =
      s₂.books.removals.filter fun key => ¬ RemovalOn n key := rfl
  have hsnapshots : (s.forgetSnapshotsOn n).books.snapshots = s₂.books.snapshots := rfl
  have hfuncs : (s.forgetSnapshotsOn n).books.funcs = s₂.books.funcs := rfl
  have hsessions : (s.forgetSnapshotsOn n).books.sessions = s₂.books.sessions := rfl
  have hremoved : (s.forgetSnapshotsOn n).books.removed = s₂.books.removed := rfl
  have hcreated : (s.forgetSnapshotsOn n).books.created = s₂.books.created := rfl
  have hadded : (s.forgetSnapshotsOn n).books.added = s₂.books.added := rfl
  rw [hbooks] at hremovals hsnapshots hfuncs hsessions hremoved hcreated hadded
  refine ⟨hfuncs, hsessions, hremoved, hcreated, hadded, fun f m => ?_, hremovals⟩
  rw [hsnapshots]
  show (s.snapshots.keys.foldl (fun m funcId => m.removeInner funcId n) s.snapshots).getInner f m = _
  rw [BTreeMap.getInner_removeInner_keys]
  by_cases hf : f ∈ s.snapshots.keys
  · simp only [hf, true_and]
    rfl
  · have hnone : s.snapshots.getInner f m = none := by
      have hget : s.snapshots[f]? = none := by
        rw [Std.ExtTreeMap.mem_keys] at hf
        exact Std.ExtTreeMap.getElem?_eq_none hf
      unfold BTreeMap.getInner
      rw [hget, Option.bind_none]
    show _ = if m = n then none else s.snapshots.getInner f m
    rw [hnone]
    simp

theorem Forgets.of_books {n : String} {s t u v : SchedulerHandler} (h : Forgets n t u)
    (hs : t.books = s.books) (hv : v.books = u.books) : Forgets n s v := by
  obtain ⟨h₁, h₂, h₃, h₄, h₅, h₆, h₇⟩ := h
  rw [← hv, hs] at h₁ h₂ h₃ h₄ h₅ h₇
  refine ⟨h₁, h₂, h₃, h₄, h₅, fun f m => ?_, h₇⟩
  rw [hv, h₆, hs]

/-- **Cleaning a node** forgets its snapshots and removals and leaves the rest of
the books. -/
theorem cleanNode_books (env : Env) (n : String) (s : SchedulerHandler) :
    (cleanNode env n).wp (fun _ t => Forgets n s t) (fun _ _ => False)
      (fun p => CleanOk s n → Tame p) s := by
  unfold cleanNode
  rw [wp_bind, wp_get, wp_bind, wp_modify]
  let s₁ : SchedulerHandler := { s with nodePods := s.nodePods.erase n }
  have h₁ : Sheds n s s₁ := .of_nodes rfl rfl
  have hinfallible : ∀ pods : BTreeMap String WorkerPod, Infallible (removePods env pods) := by
    intro pods
    unfold removePods
    generalize pods.toList = l
    induction l with
    | nil => exact Infallible.pure ()
    | cons q l ih =>
      refine Infallible.bind (fun s => ?_) fun _ => ih
      rw [wp_ignore]
      unfold wp
      split
      next => trivial
      next => trivial
      next => trivial
  rw [wp_bind]
  refine wp_mono (wp_and (removePods_books env (s.nodePods[n]?.getD ∅) n s₁) (hinfallible _ s₁))
    (fun _ s₂ h₂ => ?_) (fun _ _ h => h.2) fun p hp hok => hp.1 fun k w hw => (hok.1 k w hw).congr rfl
  replace h₂ : Sheds n s s₂ := IsTrans.trans _ _ _ h₁ h₂.1
  rw [wp_bind, wp_modify, wp_bind, wp_get, wp_bind]
  have h₃ : Sheds n s (s₂.cleanFuncStatusForNode n) := IsTrans.trans _ _ _ h₂
    (.of_nodes (books_of_catalog (catalog_cleanFuncStatusForNode n)) (cleanFuncStatusForNode_nodes n))
  refine wp_mono (wp_and (removePods_books env _ n _) (hinfallible _ _)) (fun _ s₄ h₄ => ?_)
    (fun _ _ h => h.2) fun p hp hok => hp.1 fun k w hw => ?_
  · replace h₄ : Sheds n s s₄ := IsTrans.trans _ _ _ h₃ h₄.1
    rw [wp_bind, wp_modify, wp_bind, wp_get]
    have h₅ := (forgets_forgetSnapshotsOn (s := s₄) n).of_books h₄.books rfl
    split
    next => exact h₅
    next ns _ =>
      have hleft : ∀ t : SchedulerHandler, t.catalog = (s₄.forgetSnapshotsOn n).catalog →
          Forgets n s t := fun t ht =>
        (forgets_forgetSnapshotsOn (s := s₄) n).of_books h₄.books (books_of_catalog ht)
      rw [wp_ignore]
      exact wp_mono (framed_removeNode ns.node _) (fun _ t => hleft t) (fun _ t => hleft t)
        fun p hp _ => hp
  · exact (hok.2 k w (h₃.pods k w hw)).congr h₃.books

/-- **Checking the epoch** changes the books only when the epoch is new. -/
theorem checkNodeEpoch_books (env : Env) (n : String) (epoch : ℤ) (s : SchedulerHandler) :
    (checkNodeEpoch env n epoch).wp
      (fun _ t => ¬ NewEpoch s n epoch ∧ t.books = s.books ∨ NewEpoch s n epoch ∧ Forgets n s t)
      (fun _ _ => False) (fun p => (NewEpoch s n epoch → CleanOk s n) → Tame p) s := by
  unfold checkNodeEpoch
  rw [wp_bind, wp_get]
  split
  next hnone =>
    refine Or.inl ⟨?_, rfl⟩
    rintro ⟨old, hold, -⟩
    rw [hnone] at hold
    cases hold
  next old hold =>
    split
    next heq =>
      refine Or.inl ⟨?_, rfl⟩
      rintro ⟨old', hold', hne⟩
      rw [hold] at hold'
      exact hne ((Option.some.inj hold').symm.trans heq)
    next hne =>
      have hnew : NewEpoch s n epoch := ⟨old, hold, hne⟩
      rw [wp_bind]
      refine wp_mono (cleanNode_books env n s) (fun _ t ht => ?_) (fun _ _ h => h)
        fun p hp hok => hp (hok hnew)
      exact Or.inr ⟨hnew, ht.of_books rfl rfl⟩

/-! ## Functions -/

theorem books_setFunc {s : SchedulerHandler} {f : String} {fs : FuncStatus}
    {funcPods : BTreeMap String (BTreeMap String WorkerPod)} :
    ({ s with funcPods, funcs := s.funcs.insert f fs } : SchedulerHandler).books =
      { s.books with funcs := Function.update s.books.funcs f (some fs.func) } := by
  have hfuncs : (fun a => (s.funcs.insert f fs)[a]?.map FuncStatus.func) =
      Function.update s.books.funcs f (some fs.func) := by
    funext a
    rw [Function.update_apply, BTreeMap.get_insert]
    split
    next => rfl
    next => rfl
  show Books.mk (fun a => (s.funcs.insert f fs)[a]?.map FuncStatus.func) _ _ _ _ _ _ = _
  rw [hfuncs]
  rfl

/-- A function that is added is known afterwards. -/
theorem addFunc_books (spec : Function) (s : SchedulerHandler) :
    (addFunc spec).wp
      (fun _ t => ¬ s.Knows spec.id ∧
        t.books = { s.books with funcs := Function.update s.books.funcs spec.id (some spec) })
      (fun _ t => s.Knows spec.id ∧ t = s) (fun _ => False) s := by
  unfold addFunc
  rw [wp_bind, wp_get]
  split
  next h =>
    refine ⟨?_, rfl⟩
    rw [knows_iff, ← Std.ExtTreeMap.contains_eq_isSome_getElem?]
    exact h
  next h =>
    refine ⟨?_, books_setFunc⟩
    rw [knows_iff, ← Std.ExtTreeMap.contains_eq_isSome_getElem?]
    exact h

theorem books_endStandbyBilling {s : SchedulerHandler} (env : Env) (f : String) :
    (s.endStandbyBilling env f).books = { s.books with sessions := s.books.sessions.erase f } := by
  unfold endStandbyBilling
  split
  next hnone =>
    rw [show s.books.sessions.erase f = s.books.sessions from BTreeMap.erase_eq_self hnone]
  next => simp [books, Effect.removes, Effect.creates]

/-- A function that is removed takes its session with it. -/
theorem removeFunc_books (env : Env) (spec : Function) (s : SchedulerHandler) :
    (removeFunc env spec).wp
      (fun _ t => t.books = { s.books with
        funcs := Function.update s.books.funcs spec.id none
        sessions := s.books.sessions.erase spec.id })
      (fun _ t => t = s) (fun _ => False) s := by
  have hfuncs : (fun a => (s.funcs.erase spec.id)[a]?.map FuncStatus.func) =
      Function.update s.books.funcs spec.id none := by
    funext a
    rw [Function.update_apply, BTreeMap.get_erase]
    split
    next => rfl
    next => rfl
  unfold removeFunc
  rw [wp_bind, wp_get]
  split
  next =>
    rw [wp_bind, wp_modify]
    refine (books_endStandbyBilling env spec.id).trans ?_
    rw [← hfuncs]
    rfl
  next => rfl

/-- The functions whose snapshots are to be queued after a procedure were there
before, or are among `F`; nothing else in the books has changed. -/
structure Queues (F : String → Prop) (s t : SchedulerHandler) : Prop where
  /-- nothing else has changed -/
  books : t.books = { s.books with added := t.books.added }
  /-- only `F` has been added -/
  added : ∀ f ∈ t.books.added, f ∈ s.books.added ∨ F f

theorem Queues.of_books {F : String → Prop} {s t : SchedulerHandler} (h : t.books = s.books) :
    Queues F s t := by
  refine ⟨?_, fun f hf => Or.inl ?_⟩
  · rw [h]
  · rwa [h] at hf

instance (F : String → Prop) : IsPreorder SchedulerHandler (Queues F) where
  refl _ := .of_books rfl
  trans s t u h₁ h₂ := by
    refine ⟨?_, fun f hf => ?_⟩
    · rw [h₂.books, h₁.books]
    · rcases h₂.added f hf with hf | hf
      · exact h₁.added f hf
      · exact Or.inr hf

theorem mem_added {s : SchedulerHandler} {f : String} : f ∈ s.books.added ↔
    ∃ task ∈ s.taskQueue ++ s.delayedTasks.map TimedTask.task, task.added = some f :=
  List.mem_filterMap

theorem queues_addTask {F : String → Prop} {task : SchedTask} (h : ∀ f, task.added = some f → F f) :
    Moves (Queues F) Tame (addTask task) := by
  refine Moves.bind Moves.get fun s => ?_
  split
  next =>
    refine Moves.modify fun s => ⟨rfl, fun f hf => ?_⟩
    obtain ⟨task', htask', hadds⟩ := mem_added.mp hf
    simp only [List.append_assoc, List.mem_append, List.mem_singleton] at htask'
    rcases htask' with htask' | rfl | htask'
    · exact Or.inl (mem_added.mpr ⟨task', List.mem_append_left _ htask', hadds⟩)
    · exact Or.inr (h f hadds)
    · exact Or.inl (mem_added.mpr ⟨task', List.mem_append_right _ htask', hadds⟩)
  next => exact Moves.crash (by simp [Tame])

theorem startFunc_queues (env : Env) (f : String) : Moves (Queues (· = f)) Tame (startFunc env f) := by
  refine Moves.bind ?_ fun _ => queues_addTask fun g hg => (Option.some.inj hg).symm
  exact Moves.mono (framed_processAddFunc env f) (fun _ _ h => .of_books (books_of_catalog h)) fun _ h => h

theorem drainDueDelayedTasks_queues (env : Env) :
    Moves (Queues fun _ => False) Tame (drainDueDelayedTasks env) := by
  refine Moves.get_bind fun s => ?_
  -- Each task that is put into the queue has been a delayed one.
  have hmem : ∀ t ∈ (s.delayedTasks.filter fun t => t.due ≤ env.now).insertionSort
      fun a b => a.due ≤ b.due, t ∈ s.delayedTasks := fun t ht =>
    List.mem_of_mem_filter ((List.perm_insertionSort _ _).mem_iff.mp ht)
  have hmoves := Moves.bind (x := (Proc.modify fun s : SchedulerHandler => { s with
      delayedTasks := s.delayedTasks.filter fun t => ¬ t.due ≤ env.now } : SchedM Unit))
    (R := Queues (· ∈ s.books.added)) (N := Tame) (Moves.modify fun s => ⟨rfl, fun f hf => Or.inl ?_⟩)
    fun _ => Moves.each (g := fun t : TimedTask => addTask t.task) (l := _) fun t ht =>
      queues_addTask fun f hf => mem_added.mpr ⟨t.task, List.mem_append_right _
        (List.mem_map.mpr ⟨t, hmem t ht, rfl⟩), hf⟩
  · have hweak : ∀ t, Queues (· ∈ s.books.added) s t → Queues (fun _ => False) s t := fun t ht =>
      ⟨ht.books, fun f hf => Or.inl ((ht.added f hf).elim (fun h => h) fun h => h)⟩
    exact wp_mono (hmoves s) (fun _ => hweak) (fun _ => hweak) fun _ hp => hp
  · obtain ⟨task, htask, hf⟩ := mem_added.mp hf
    refine mem_added.mpr ⟨task, ?_, hf⟩
    rcases List.mem_append.mp htask with htask | htask
    · exact List.mem_append_left _ htask
    · obtain ⟨t, ht, rfl⟩ := List.mem_map.mp htask
      exact List.mem_append_right _ (List.mem_map.mpr ⟨t, List.mem_of_mem_filter ht, rfl⟩)

/-! ## Removals -/

/-- Asking for removals changes the removals only. -/
structure Removes (s t : SchedulerHandler) : Prop where
  /-- the functions stay -/
  funcs : t.books.funcs = s.books.funcs
  /-- the snapshots stay -/
  snapshots : t.books.snapshots = s.books.snapshots
  /-- the sessions stay -/
  sessions : t.books.sessions = s.books.sessions
  /-- nothing has been created -/
  created : t.books.created = s.books.created
  /-- nothing has been queued -/
  added : t.books.added = s.books.added
  /-- the tracked pods stay -/
  pods : t.pods = s.pods

instance : IsPreorder SchedulerHandler Removes where
  refl _ := ⟨rfl, rfl, rfl, rfl, rfl, rfl⟩
  trans _ _ _ h₁ h₂ := ⟨h₂.funcs.trans h₁.funcs, h₂.snapshots.trans h₁.snapshots,
    h₂.sessions.trans h₁.sessions, h₂.created.trans h₁.created, h₂.added.trans h₁.added,
    h₂.pods.trans h₁.pods⟩

theorem Removes.of_catalog {s t : SchedulerHandler} (h : t.catalog = s.catalog) : Removes s t := by
  have hbooks := books_of_catalog h
  refine ⟨?_, ?_, ?_, ?_, ?_, congrArg Prod.snd h⟩
  · rw [hbooks]
  · rw [hbooks]
  · rw [hbooks]
  · rw [hbooks]
  · rw [hbooks]

theorem removes_removeSnapshotFromNode (n f : String) :
    Moves Removes Tame (removeSnapshotFromNode n f) := by
  refine Moves.bind Moves.get fun s => ?_
  dsimp only
  split
  next => exact Moves.pure ()
  next =>
    split
    next => exact Moves.throw _
    next =>
      refine Moves.modify fun s => ⟨rfl, rfl, rfl, ?_, rfl, rfl⟩
      simp [books, emit, Effect.creates]

theorem removes_removeSnapshotByFunckey (f : String) : Moves Removes Tame (removeSnapshotByFunckey f) := by
  refine Moves.bind Moves.get fun s => ?_
  split
  next => exact Moves.pure ()
  next => exact Moves.each fun n _ => Moves.ignore (removes_removeSnapshotFromNode n f)

theorem removes_cleanSnapshots : Moves Removes Tame cleanSnapshots :=
  Moves.bind Moves.get fun _ => Moves.each fun f _ => Moves.ignore (removes_removeSnapshotByFunckey f)

theorem removes_processRemoveFunc (env : Env) (spec : Function) :
    Moves Removes Tame (processRemoveFunc env spec) := by
  refine Moves.bind ?_ fun b => ?_
  · exact Moves.mono (framed_removePodsByFunckey env spec.id) (fun _ _ => Removes.of_catalog) fun _ h => h
  · split
    next => exact Moves.pure ()
    next => exact removes_removeSnapshotByFunckey spec.id

/-! ## Sessions -/

/-- Opening sessions changes the sessions only. -/
structure Opens (s t : SchedulerHandler) : Prop where
  /-- nothing else has changed -/
  books : t.books = { s.books with sessions := t.books.sessions }
  /-- the tracked pods stay -/
  pods : t.pods = s.pods

theorem Opens.of_catalog {s t : SchedulerHandler} (h : t.catalog = s.catalog) : Opens s t := by
  refine ⟨?_, congrArg Prod.snd h⟩
  rw [books_of_catalog h]

instance : IsPreorder SchedulerHandler Opens where
  refl _ := .of_catalog rfl
  trans s t u h₁ h₂ := by
    refine ⟨?_, h₂.pods.trans h₁.pods⟩
    rw [h₂.books, h₁.books]

theorem opens_startStandbyBilling (env : Env) (f : String) :
    Moves Opens Tame (startStandbyBilling env f) := by
  refine Moves.bind Moves.get fun s => ?_
  split
  next => exact Moves.pure ()
  next =>
    split
    next => exact Moves.pure ()
    next =>
      simp only
      split
      next => exact Moves.pure ()
      next =>
        split
        next => exact Moves.crash (tame_fault _)
        next =>
          split
          next =>
            refine Moves.modify fun s => ⟨?_, rfl⟩
            simp [books, Effect.removes, Effect.creates]
          next => exact Moves.pure ()

theorem opens_recoverStandbyBilling (env : Env) : Moves Opens Tame (recoverStandbyBilling env) :=
  Moves.bind Moves.get fun _ => Moves.each fun f _ => opens_startStandbyBilling env f

theorem opens_listDone (env : Env) (l : ListType) : Moves Opens Tame (listDone env l) := by
  refine Moves.bind (Moves.modify fun s => .of_catalog ?_) fun _ => Moves.bind Moves.get fun s => ?_
  · cases l <;> rfl
  · split
    next =>
      refine Moves.bind (Moves.modify fun _ => .of_catalog rfl) fun _ => ?_
      exact Moves.bind (opens_recoverStandbyBilling env) fun _ => Moves.modify fun _ => .of_catalog rfl
    next => exact Moves.pure ()

end Inferx
