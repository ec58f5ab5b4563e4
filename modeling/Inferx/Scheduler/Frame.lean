import Inferx.Scheduler.Quiet
import Inferx.Scheduler.Step

/-!
# What most procedures leave alone

The scheduler keeps books that only a few of its procedures write: the
functions it knows, the snapshots, the standby sessions, the removals of
snapshots it has asked for, the snapshot pods it has created, and the functions
whose snapshots are still to be queued. `Framed` says of a procedure that it
leaves these and the tracked pods as they are, and that it does not queue a
snapshot of a function that is unknown, which is the panic
`snapshotTaskFuncMissing`. `FramedFor f` says it for the states that know `f`.
-/

namespace Inferx

open Proc SchedulerHandler

/-! ## The books -/

/-- A removal of a snapshot that is asked for. -/
def Effect.removes : Effect → Option (String × String)
  | .removeSnapshot funckey nodename => some (funckey, nodename)
  | _ => none

/-- A snapshot pod that is created. -/
def Effect.creates : Effect → Option StartRpc
  | .startWorker rpc => if rpc.createType = .snapshot then some rpc else none
  | _ => none

/-- The effect is neither. -/
def Effect.Plain (e : Effect) : Prop := e.removes = none ∧ e.creates = none

/-- The function whose snapshots a task queues. -/
def SchedTask.added : SchedTask → Option String
  | .addFunc funcId => some funcId
  | _ => none

/-- The part of the state few procedures write. -/
structure Books where
  /-- the known functions -/
  funcs : String → Option Function
  /-- the snapshots -/
  snapshots : BTreeMap String (BTreeMap String ContainerSnapshot)
  /-- the standby sessions -/
  sessions : BTreeMap String BillingSession
  /-- the removals in flight -/
  removals : Finset String
  /-- the removals the running handler has asked for -/
  removed : List (String × String)
  /-- the snapshot pods the running handler has created -/
  created : List StartRpc
  /-- the functions whose snapshots are still to be queued -/
  added : List String

namespace SchedulerHandler

/-- The books of a state. -/
def books (s : SchedulerHandler) : Books where
  funcs f := s.funcs[f]?.map FuncStatus.func
  snapshots := s.snapshots
  sessions := s.standbyBillingSessions
  removals := s.pendingSnapshotRemovals
  removed := s.out.filterMap Effect.removes
  created := s.out.filterMap Effect.creates
  added := (s.taskQueue ++ s.delayedTasks.map TimedTask.task).filterMap SchedTask.added

/-- The books and the tracked pods. -/
def catalog (s : SchedulerHandler) : Books × BTreeMap String WorkerPod := (s.books, s.pods)

/-- Is the function known? -/
def Knows (s : SchedulerHandler) (f : String) : Prop := (s.books.funcs f).isSome = true

variable {s s' : SchedulerHandler}

theorem knows_iff {f : String} : s.Knows f ↔ (s.funcs[f]?).isSome = true := by
  unfold Knows books
  rw [Option.isSome_map]

theorem Knows.congr {f : String} (h : s'.books = s.books) (hs : s.Knows f) : s'.Knows f := by
  unfold Knows
  rw [h]
  exact hs

theorem books_of_catalog (h : s'.catalog = s.catalog) : s'.books = s.books := congrArg Prod.fst h

theorem catalog_emit {e : Effect} (he : e.Plain) : (s.emit e).catalog = s.catalog := by
  simp [catalog, books, emit, he.1, he.2]

theorem catalog_scheduleDelayedTask (env : Env) (d : ℕ) {task : SchedTask} (ht : task.added = none) :
    (s.scheduleDelayedTask env d task).catalog = s.catalog := by
  simp [catalog, books, scheduleDelayedTask, ht]

theorem catalog_modifyFunc {f : String} {g : FuncStatus → FuncStatus}
    (hg : ∀ fs, (g fs).func = fs.func) : (s.modifyFunc f g).catalog = s.catalog := by
  have hfuncs : ∀ a : String, (s.modifyFunc f g).funcs[a]?.map FuncStatus.func =
      s.funcs[a]?.map FuncStatus.func := by
    intro a
    show (s.funcs.modify f g)[a]?.map FuncStatus.func = _
    rw [BTreeMap.get_modify]
    split
    next ha => rw [ha, Option.map_map, show FuncStatus.func ∘ g = FuncStatus.func from funext hg]
    next => rfl
  have hbooks : (s.modifyFunc f g).books.funcs = s.books.funcs := funext hfuncs
  unfold catalog
  refine Prod.ext ?_ rfl
  show Books.mk (s.modifyFunc f g).books.funcs _ _ _ _ _ _ = Books.mk s.books.funcs _ _ _ _ _ _
  rw [hbooks]
  rfl

theorem catalog_foldl {α : Type} {g : SchedulerHandler → α → SchedulerHandler}
    (hg : ∀ s a, (g s a).catalog = s.catalog) (l : List α) :
    (l.foldl g s).catalog = s.catalog := by
  induction l generalizing s with
  | nil => rfl
  | cons a l ih => exact (ih (s := g s a)).trans (hg s a)

theorem catalog_removePendingSnapshot (f n : String) :
    (s.removePendingSnapshot f n).catalog = s.catalog := by
  unfold removePendingSnapshot
  split
  next => rfl
  next => rfl

theorem catalog_addStoppingPods (n : String) (ws : List WorkerPod) :
    (s.addStoppingPods n ws).catalog = s.catalog :=
  catalog_foldl (s := s.modifyNode n _)
    (g := fun s (w : WorkerPod) => s.modifyFunc w.pod.funcKey (·.addStoppingPod w.pod.podKey))
    (fun _ _ => catalog_modifyFunc fun _ => rfl) ws

theorem catalog_restoreTerminated (k : String) : (s.restoreTerminated k).catalog = s.catalog := by
  unfold restoreTerminated
  split
  next => rfl
  next =>
    split
    next => rfl
    next =>
      split
      next => exact catalog_modifyFunc fun _ => rfl
      next => rfl

theorem catalog_endSnapshotPodBilling (env : Env) (k : String) :
    (s.endSnapshotPodBilling env k).catalog = s.catalog := by
  unfold endSnapshotPodBilling
  split
  next => rfl
  next =>
    split
    next => rfl
    next => simp [catalog, books, Effect.removes, Effect.creates]

theorem catalog_closePod (env : Env) (pod : FuncPod) : (s.closePod env pod).catalog = s.catalog := by
  unfold closePod
  dsimp only
  split
  next => exact catalog_endSnapshotPodBilling env _
  next => rfl

end SchedulerHandler

/-! ## Framed procedures -/

/-- Not the panic over a snapshot of an unknown function. -/
def Tame (p : Panic) : Prop := p ≠ .snapshotTaskFuncMissing

/-- The procedure leaves the books and the tracked pods alone. -/
abbrev Framed {α : Type} (x : SchedM α) : Prop :=
  Moves (fun s s' => s'.catalog = s.catalog) Tame x

/-- The procedure leaves the books alone. -/
abbrev Booked {α : Type} (x : SchedM α) : Prop := Moves (fun s s' => s'.books = s.books) Tame x

/-- The procedure leaves the books and the tracked pods alone when `f` is known. -/
abbrev FramedFor {α : Type} (f : String) (x : SchedM α) : Prop :=
  MovesFrom (fun s => s.Knows f) (fun s s' => s'.catalog = s.catalog) Tame x

theorem tame_fault (f : Fault) : Tame (.fault f) := by simp [Tame]

theorem Framed.booked {α : Type} {x : SchedM α} (h : Framed x) : Booked x :=
  Moves.mono h (fun _ _ => books_of_catalog) fun _ hp => hp

theorem Framed.modify {g : SchedulerHandler → SchedulerHandler} (h : ∀ s, (g s).catalog = s.catalog) :
    Framed (Proc.modify g) := Moves.modify h

theorem FramedFor.bind {α β : Type} {f : String} {x : SchedM α} {g : α → SchedM β}
    (hx : FramedFor f x) (hg : ∀ a, FramedFor f (g a)) : FramedFor f (x >>= g) :=
  MovesFrom.bind (fun _ _ hs h => hs.congr (books_of_catalog h)) hx hg

theorem framed_liftFault {α : Type} (x : Except Fault α) : Framed (liftFault x) := by
  refine Moves.lift fun p hp => ?_
  rcases x with f | a
  · obtain rfl := Except.error.inj hp
    exact tame_fault f
  · cases hp

theorem framed_addTask {task : SchedTask} (ht : task.added = none) : Framed (addTask task) := by
  refine Moves.bind Moves.get fun s => ?_
  split
  next =>
    refine Framed.modify fun s => ?_
    simp [catalog, books, ht]
  next => exact Moves.crash (by simp [Tame])

theorem framed_addSnapshotTask (env : Env) (n f : String) : FramedFor f (addSnapshotTask env n f) := by
  intro s hs
  obtain ⟨fs, hfs⟩ := Option.isSome_iff_exists.mp (knows_iff.mp hs)
  unfold addSnapshotTask
  rw [wp_bind, wp_get]
  rw [hfs]
  dsimp only
  split
  next => rfl
  next => exact catalog_scheduleDelayedTask env 1000 rfl

theorem framed_stopWorker (pod : FuncPod) : Framed (stopWorker pod) := by
  refine Moves.bind Moves.get fun s => ?_
  rcases s.nodes[pod.nodename]? with _ | ns
  · exact Moves.throw _
  · exact Framed.modify fun _ => catalog_emit ⟨rfl, rfl⟩

theorem framed_getNode (n : String) : Framed (getNode n) := by
  refine Moves.bind Moves.get fun s => ?_
  rcases s.nodes[n]? with _ | ns
  · exact Moves.crash (tame_fault _)
  · exact Moves.pure ns

theorem framed_reserve (n : String) (r : NodeResources) : Framed (reserve n r) := by
  refine Moves.bind (framed_getNode n) fun _ => Moves.bind (framed_liftFault _) fun _ => ?_
  exact Framed.modify fun _ => rfl

theorem framed_freeNodeResource (n : String) (r : NodeResources) : Framed (freeNodeResource n r) := by
  refine Moves.bind Moves.get fun s => ?_
  rcases s.nodes[n]? with _ | ns
  · exact Moves.pure ()
  · exact Moves.bind (framed_liftFault _) fun _ => Framed.modify fun _ => rfl

theorem framed_allocFrom (nr : NodeResources) (req : Resources) (b : Bool) :
    Framed (allocFrom nr req b) := by
  refine Moves.bind (framed_liftFault _) fun r => ?_
  rcases r with ⟨e | r, nr'⟩
  · exact Moves.throw e
  · exact Moves.pure r

theorem framed_allocOnNode (n : String) (req : Resources) (b : Bool) :
    Framed (allocOnNode n req b) := by
  refine Moves.bind (framed_getNode n) fun _ => Moves.bind (framed_liftFault _) fun r => ?_
  refine Moves.bind (Framed.modify fun _ => rfl) fun _ => ?_
  rcases r with ⟨e | r, nr'⟩
  · exact Moves.throw e
  · exact Moves.pure r

theorem framed_startWorker (env : Env) (func : Function) (r : NodeResources) {t : CreatePodType}
    (ht : t ≠ .snapshot) (ws : List WorkerPod) (n : String) :
    Framed (startWorker env func r t ws n) := by
  refine Moves.bind Moves.get fun s => ?_
  split
  next =>
    refine Moves.bind (Framed.modify fun s => ?_) fun _ => Moves.pure _
    exact catalog_emit (s := { s with lastUid := _ }) ⟨rfl, if_neg ht⟩
  next => exact Moves.throw _

theorem framed_popIdleChecked (k : String) : Framed (popIdleChecked k) := by
  refine Moves.bind Moves.get fun s => ?_
  split
  next => exact Framed.modify fun _ => rfl
  next => exact Moves.crash (by simp [Tame])

theorem framed_evictIdle (env : Env) (ws : List WorkerPod) : Framed (evictIdle env ws) :=
  Moves.each fun _ _ => Moves.bind (framed_popIdleChecked _) fun _ => Framed.modify fun _ => rfl

theorem framed_setWorking (w : WorkerPod) (g : ℤ) : Framed (setWorking w g) := by
  refine Moves.bind Moves.get fun s => ?_
  split
  next => exact Moves.crash (by simp [Tame])
  next => exact Moves.crash (by simp [Tame])
  next => exact Moves.crash (by simp [Tame])
  next => exact Framed.modify fun _ => rfl

/-! ## Searches, resumes, creations -/

theorem catalog_popMissing {s : SchedulerHandler} (l : List String) :
    (s.popMissing l).catalog = s.catalog := catalog_foldl (g := popIdle) (fun _ _ => rfl) l

theorem framed_findNode4Pod (func : Function) (t : FindNodeType) (ns : List String) :
    Framed (findNode4Pod func t ns) := by
  refine Moves.bind Moves.get fun s => Moves.bind (framed_liftFault _) fun r => ?_
  rcases r with ⟨n, nr⟩ | plans
  · exact Moves.pure _
  · refine Moves.bind (framed_liftFault _) fun r => ?_
    rcases r with ⟨miss, found⟩
    refine Moves.bind (Framed.modify fun _ => catalog_popMissing miss) fun _ => ?_
    rcases found with _ | ⟨n, plan⟩
    · exact Moves.throw _
    · exact Moves.pure _

theorem framed_tryFreeResources (n f : String) (nr : NodeResources) (req : Resources) (b : Bool) :
    Framed (tryFreeResources n f nr req b) := by
  refine Moves.bind Moves.get fun s => Moves.bind (framed_liftFault _) fun r => ?_
  rcases r with ⟨miss, ws, nr'⟩
  refine Moves.bind (Framed.modify fun _ => catalog_popMissing miss) fun _ => ?_
  refine Moves.bind (framed_liftFault _) fun st => ?_
  split
  next => exact Moves.pure _
  next => exact Moves.throw _

theorem framed_getBestNvidiaRuntimeNode (fp : Function) : Framed (getBestNvidiaRuntimeNode fp) := by
  refine Moves.bind Moves.get fun s => ?_
  dsimp only
  split
  next => exact Moves.throw _
  next => exact framed_findNode4Pod fp _ _

theorem framed_getBestResumeWorker (fp : Function) : Framed (getBestResumeWorker fp) := by
  refine Moves.bind Moves.get fun s => ?_
  dsimp only
  split
  next => exact Moves.throw _
  next =>
    split
    next => exact Moves.throw _
    next =>
      refine Moves.bind (framed_findNode4Pod fp _ _) fun r => ?_
      rcases r with ⟨n, ws, nr⟩
      dsimp only
      split
      next => exact Moves.throw _
      next => exact Moves.pure _

theorem framed_resolveFunc (f : String) : Framed (resolveFunc f) := by
  refine Moves.bind Moves.get fun s => ?_
  split
  next => exact Moves.throw _
  next =>
    split
    next => exact Moves.throw _
    next => exact Moves.pure _
  next => exact Moves.throw _

theorem catalog_markAllTerminating {s : SchedulerHandler} (env : Env) (ws : List WorkerPod) :
    (s.markAllTerminating env ws).catalog = s.catalog :=
  catalog_foldl (g := markTerminating env) (fun _ _ => rfl) ws

theorem framed_resumePod (env : Env) (f : String) (tenant : Option String) :
    Framed (resumePod env f tenant) := by
  refine Moves.bind (framed_resolveFunc f) fun fp => ?_
  refine Moves.bind (framed_getBestResumeWorker fp) fun r => ?_
  rcases r with ⟨pod, ws, nr⟩
  refine Moves.bind Moves.get fun s => Moves.bind (framed_liftFault _) fun _ => ?_
  refine Moves.bind (framed_liftFault _) fun _ => Moves.bind (framed_allocFrom _ _ _) fun _ => ?_
  refine Moves.bind (framed_getNode _) fun _ => ?_
  refine Moves.bind (Moves.each fun w _ => framed_popIdleChecked _) fun _ => ?_
  refine Moves.bind (Framed.modify fun _ => rfl) fun _ => ?_
  refine Moves.bind (Framed.modify fun _ => catalog_markAllTerminating env ws) fun _ => ?_
  refine Moves.bind (Framed.modify fun _ => catalog_addStoppingPods _ ws) fun _ => ?_
  refine Moves.bind (framed_reserve _ _) fun _ => Moves.bind (Framed.modify fun _ => rfl) fun _ => ?_
  exact Framed.modify fun _ => catalog_emit ⟨rfl, rfl⟩

theorem framed_reserveEvicting (env : Env) (func : Function) (n : String) (ws : List WorkerPod)
    (nr : NodeResources) : Framed (reserveEvicting env func n ws nr) := by
  refine Moves.bind (framed_evictIdle env ws) fun _ => Moves.bind (framed_getNode n) fun _ => ?_
  refine Moves.bind (Framed.modify fun _ => catalog_addStoppingPods n ws) fun _ => ?_
  refine Moves.bind (framed_liftFault _) fun _ => Moves.bind (framed_allocFrom _ _ _) fun _ => ?_
  exact Moves.bind (framed_reserve _ _) fun _ => Moves.pure _

theorem framed_createOneNividaPod (env : Env) (f : String) : Framed (createOneNividaPod env f) := by
  refine Moves.bind Moves.get fun s => ?_
  rcases s.funcs[f]? with _ | fs
  · exact Moves.throw _
  · refine Moves.bind (framed_getBestNvidiaRuntimeNode _) fun r => ?_
    rcases r with ⟨n, ws, nr⟩
    refine Moves.bind (framed_reserveEvicting env _ _ _ _) fun _ => ?_
    exact Moves.bind (framed_startWorker env _ _ (by decide) _ _) fun _ => Framed.modify fun _ => rfl

theorem framed_snapshotEvictions (env : Env) (f n : String) (nr : NodeResources) (req : Resources) :
    FramedFor f (snapshotEvictions env f n nr req) := by
  refine FramedFor.bind (framed_liftFault _).movesFrom fun st => ?_
  split
  next => exact (Moves.pure _).movesFrom
  next =>
    refine FramedFor.bind (Moves.attempt (framed_tryFreeResources n f nr req true)).movesFrom fun r => ?_
    split
    next => exact (Moves.pure _).movesFrom
    next =>
      refine FramedFor.bind (Framed.modify fun _ => rfl).movesFrom fun _ => ?_
      exact FramedFor.bind (framed_addSnapshotTask env n f) fun _ => (Moves.throw _).movesFrom
    next => exact (Moves.throw _).movesFrom

/-- The books have grown by snapshot pods of known functions only. -/
structure Creates (s t : SchedulerHandler) : Prop where
  /-- no pod has come or gone -/
  pods : t.pods = s.pods
  /-- only created pods have been added -/
  books : ∃ l, t.books = { s.books with created := s.books.created ++ l } ∧
    ∀ rpc ∈ l, ∃ f func, s.books.funcs f = some func ∧ rpc.funcid = func.id

theorem Creates.of_catalog {s t : SchedulerHandler} (h : t.catalog = s.catalog) : Creates s t where
  pods := congrArg Prod.snd h
  books := by
    refine ⟨[], ?_, fun _ h => (nomatch h)⟩
    rw [List.append_nil]
    exact books_of_catalog h

theorem Creates.funcs {s t : SchedulerHandler} (h : Creates s t) : t.books.funcs = s.books.funcs := by
  obtain ⟨l, hl, -⟩ := h.books
  rw [hl]

instance : IsPreorder SchedulerHandler Creates where
  refl _ := .of_catalog rfl
  trans s t u h₁ h₂ := by
    obtain ⟨l₁, hl₁, hall₁⟩ := h₁.books
    obtain ⟨l₂, hl₂, hall₂⟩ := h₂.books
    refine ⟨h₂.pods.trans h₁.pods, l₁ ++ l₂, ?_, fun rpc hrpc => ?_⟩
    · rw [hl₂, hl₁, List.append_assoc]
    · rcases List.mem_append.mp hrpc with hrpc | hrpc
      · exact hall₁ rpc hrpc
      · rw [← h₁.funcs]
        exact hall₂ rpc hrpc

/-- The procedure creates snapshot pods of known functions only, given that `f`
is known as `func`. -/
abbrev CreatesFor {α : Type} (f : String) (func : Function) (x : SchedM α) : Prop :=
  MovesFrom (fun s => s.books.funcs f = some func) Creates Tame x

theorem CreatesFor.bind {α β : Type} {f : String} {func : Function} {x : SchedM α} {g : α → SchedM β}
    (hx : CreatesFor f func x) (hg : ∀ a, CreatesFor f func (g a)) : CreatesFor f func (x >>= g) :=
  MovesFrom.bind (fun s t (hs : s.books.funcs f = some func) (h : Creates s t) => h.funcs ▸ hs) hx hg

theorem FramedFor.creates {α : Type} {f : String} {func : Function} {x : SchedM α}
    (h : FramedFor f x) : CreatesFor f func x :=
  MovesFrom.mono h (fun s (hs : s.books.funcs f = some func) => by
    show (s.books.funcs f).isSome = true
    rw [hs]
    rfl) (fun _ _ => Creates.of_catalog) fun _ hp => hp

theorem Framed.creates {α : Type} {f : String} {func : Function} {x : SchedM α} (h : Framed x) :
    CreatesFor f func x := FramedFor.creates h.movesFrom

theorem creates_emit {s : SchedulerHandler} {f : String} (func : Function) {rpc : StartRpc}
    (hs : s.books.funcs f = some func) (hrpc : rpc.createType = .snapshot) (hid : rpc.funcid = func.id) :
    Creates s (s.emit (.startWorker rpc)) := by
  refine ⟨rfl, [rpc], ?_, fun r hr => ⟨f, func, hs, ?_⟩⟩
  · simp [books, emit, Effect.removes, Effect.creates, hrpc]
  · rw [List.mem_singleton.mp hr]
    exact hid

theorem creates_startWorker (env : Env) (func : Function) (f : String) (r : NodeResources)
    (ws : List WorkerPod) (n : String) :
    CreatesFor f func (startWorker env func r .snapshot ws n) := by
  intro s hs
  unfold startWorker
  rw [wp_bind, wp_get]
  split
  next =>
    refine IsTrans.trans (r := Creates) s { s with lastUid := s.lastUid + 1 } _ (.of_catalog rfl) ?_
    apply creates_emit (s := { s with lastUid := s.lastUid + 1 }) (f := f) func
    · exact hs
    · rfl
    · rfl
  next => exact .of_catalog rfl

theorem creates_startSnapshotWorker (env : Env) (func : Function) (f n : String) (ws : List WorkerPod)
    (r : NodeResources) : CreatesFor f func (startSnapshotWorker env func f n ws r) := by
  refine CreatesFor.bind (MovesFrom.attempt (creates_startWorker env func f r ws n)) fun res => ?_
  split
  next =>
    refine CreatesFor.bind (Framed.creates (Framed.modify fun _ => rfl)) fun _ => ?_
    exact CreatesFor.bind (framed_addSnapshotTask env n f).creates fun _ => Framed.creates (Moves.throw _)
  next =>
    refine CreatesFor.bind (Framed.creates (Framed.modify fun _ => rfl)) fun _ => ?_
    refine Framed.creates (Framed.modify fun s => ?_)
    exact (catalog_modifyFunc (s := s.modifyNode n _) (g := (·.addPendingPod _)) fun _ => rfl).trans rfl

theorem creates_createSnapshotOnNode (env : Env) (func : Function) (f n : String) (ns : NodeStatus) :
    CreatesFor f func (createSnapshotOnNode env func f n ns) := by
  refine CreatesFor.bind (framed_liftFault _).creates fun req => ?_
  refine CreatesFor.bind (framed_liftFault _).creates fun st => ?_
  split
  next =>
    refine CreatesFor.bind (Framed.creates (Framed.modify fun _ => rfl)) fun _ => ?_
    exact Framed.creates (Moves.throw _)
  next =>
    refine CreatesFor.bind (framed_snapshotEvictions env f n _ req).creates fun r => ?_
    rcases r with ⟨ws, nr⟩
    refine CreatesFor.bind (framed_reserveEvicting env func n ws nr).creates fun _ => ?_
    exact creates_startSnapshotWorker env func f n ws _

/-- A snapshot is only made of a known function. -/
theorem creates_tryCreateSnapshotOnNode (env : Env) (f n : String) :
    Moves Creates Tame (tryCreateSnapshotOnNode env f n) := by
  refine Moves.get_bind fun s => ?_
  have hrefl : Creates s s := .of_catalog rfl
  split
  next => exact hrefl
  next =>
    split
    next fs ns hfs hns =>
      have hs : s.books.funcs f = some fs.func := congrArg (Option.map FuncStatus.func) hfs
      split
      next => exact hrefl
      next =>
        split
        next => exact .of_catalog rfl
        next =>
          split
          next =>
            exact CreatesFor.bind (framed_addSnapshotTask env n f).creates
              (fun _ => Framed.creates (Moves.throw _)) s hs
          next => exact creates_createSnapshotOnNode env fs.func f n ns s hs
    next => exact hrefl

theorem framed_createStandbyPod (env : Env) (f n : String) : Framed (createStandbyPod env f n) := by
  refine Moves.bind Moves.get fun s => ?_
  rcases s.funcs[f]? with _ | fs
  · exact Moves.pure ()
  · refine Moves.bind (framed_liftFault _) fun _ => Moves.bind (framed_allocOnNode _ _ _) fun _ => ?_
    refine Moves.bind (Moves.attempt (framed_startWorker env _ _ (by decide) _ _)) fun r => ?_
    split
    next => exact Moves.bind (framed_freeNodeResource _ _) fun _ => Moves.throw _
    next => exact Framed.modify fun s => catalog_modifyFunc (s := s.modifyNode n _) fun _ => rfl

theorem framed_tryAdjustStandbyPodsOnNode (env : Env) (n : String) :
    Framed (tryAdjustStandbyPodsOnNode env n) := by
  refine Moves.bind Moves.get fun s => ?_
  rcases s.nodes[n]? with _ | ns
  · exact Moves.pure ()
  · refine Moves.bind (Framed.modify fun _ => catalog_scheduleDelayedTask env 1000 rfl) fun _ => ?_
    split
    next => exact Moves.pure ()
    next =>
      refine Moves.bind (Moves.each fun w _ => Moves.ignore (framed_stopWorker _)) fun _ => ?_
      dsimp only
      split
      next => exact Moves.pure ()
      next => exact framed_createStandbyPod env _ n

/-! ## Prewarming and tasks -/

theorem framed_processAddFunc (env : Env) (f : String) : Framed (processAddFunc env f) := by
  refine Moves.bind Moves.get fun s => ?_
  split
  next => exact Moves.pure _
  next =>
    rcases s.funcs[f]? with _ | fs
    · exact Moves.pure _
    · simp only
      split
      next => exact Moves.pure _
      next =>
        refine Moves.bind ?_ fun _ => ?_
        · refine Moves.bind Moves.get fun s => ?_
          split
          next => exact Moves.ignore (framed_createOneNividaPod env f)
          next => exact Moves.pure ()
        · refine Moves.bind Moves.get fun s => ?_
          split
          next =>
            refine Moves.bind (Moves.attempt (framed_resumePod env f none)) fun r => ?_
            split
            next => exact Moves.pure _
            next => exact Moves.pure _
          next => exact Moves.pure _

theorem framed_prewarm (env : Env) (l : List String) : Framed (prewarm env l) := by
  induction l with
  | nil => exact Moves.pure ()
  | cons f l ih =>
    refine Moves.bind (framed_processAddFunc env f) fun b => ?_
    split
    next => exact Moves.pure ()
    next => exact ih

theorem framed_refreshScheduling (env : Env) : Framed (refreshScheduling env) :=
  Moves.bind Moves.get fun _ => framed_prewarm env _

/-- The functions a state names are known to it. -/
theorem knows_of_mem_keys {s : SchedulerHandler} {f : String} (h : f ∈ s.funcs.keys) : s.Knows f := by
  rw [knows_iff, ← Std.ExtTreeMap.contains_eq_isSome_getElem?]
  exact Std.ExtTreeMap.contains_iff_mem.mpr (Std.ExtTreeMap.mem_keys.mp h)

/-- A loop over functions, each of which is known when the loop starts. -/
theorem framed_each_known {s : SchedulerHandler} {g : String → SchedM Unit} {l : List String}
    (hl : ∀ f ∈ l, s.Knows f) (hg : ∀ f, FramedFor f (g f)) :
    (Proc.each g l).wp (fun _ s' => s'.catalog = s.catalog) (fun _ s' => s'.catalog = s.catalog) Tame
      s := by
  induction l generalizing s with
  | nil => rfl
  | cons f l ih =>
    refine MovesFrom.wp_bind_of (R := fun s s' : SchedulerHandler => s'.catalog = s.catalog) ?_
    refine wp_mono (hg f s (hl f (List.mem_cons_self ..))) (fun _ t ht => ⟨ht, ih fun a ha => ?_⟩)
      (fun _ _ h => h) fun _ h => h
    exact (hl a (List.mem_cons_of_mem _ ha)).congr (books_of_catalog ht)

theorem framed_initSnapshotTask (env : Env) : Framed (initSnapshotTask env) := by
  refine Moves.get_bind fun s => framed_each_known (fun f hf => knows_of_mem_keys hf) fun f => ?_
  refine MovesFrom.each (fun _ _ hs h => hs.congr (books_of_catalog h)) fun n _ => ?_
  split
  next => exact (Moves.pure ()).movesFrom
  next => exact framed_addSnapshotTask env n f

/-- Does the task name a function that is still known, if it goes to the nodes? -/
def SchedTask.Known (s : SchedulerHandler) : SchedTask → Prop
  | .addFunc funcId => s.nodes.keys ≠ [] → s.Knows funcId
  | _ => True

theorem creates_processTask (env : Env) (task : SchedTask) {s : SchedulerHandler} :
    (processTask env task).wp (fun _ s' => Creates s s') (fun _ s' => Creates s s')
      (fun p => task.Known s → Tame p) s := by
  have hlift : ∀ {x : SchedM Unit}, Framed x → x.wp (fun _ s' => Creates s s')
      (fun _ s' => Creates s s') (fun p => task.Known s → Tame p) s := fun hx =>
    wp_mono (hx s) (fun _ _ => Creates.of_catalog) (fun _ _ => Creates.of_catalog) fun _ hp _ => hp
  cases task with
  | addNode n => exact hlift (Framed.modify fun _ => catalog_scheduleDelayedTask env 3000 rfl)
  | delayedInitNode n =>
    refine hlift (Moves.get_bind fun s => ?_)
    refine MovesFrom.wp_bind_of (R := fun s s' : SchedulerHandler => s'.catalog = s.catalog) ?_
    refine wp_mono (framed_each_known (fun f hf => knows_of_mem_keys hf) fun f =>
      framed_addSnapshotTask env n f) (fun _ t ht => ⟨ht, ?_⟩) (fun _ _ h => h) fun _ h => h
    exact catalog_scheduleDelayedTask env 1000 rfl
  | addFunc f =>
    show (Proc.get >>= fun s : SchedulerHandler =>
      each (fun n => addSnapshotTask env n f) s.nodes.keys).wp _ _ _ s
    rw [wp_bind, wp_get]
    rcases hkeys : s.nodes.keys with _ | ⟨n, rest⟩
    · exact .of_catalog rfl
    · have hne : s.nodes.keys ≠ [] := by
        rw [hkeys]
        exact List.cons_ne_nil _ _
      by_cases hknown : s.Knows f
      · refine wp_mono (MovesFrom.each (P := fun s => s.Knows f)
          (fun _ _ hs h => hs.congr (books_of_catalog h))
          (fun n _ => framed_addSnapshotTask env n f) s hknown) (fun _ _ => Creates.of_catalog)
          (fun _ _ => Creates.of_catalog) fun _ hp _ => hp
      · have hnone : s.funcs[f]? = none := by
          rwa [knows_iff, Option.isSome_iff_ne_none, not_not] at hknown
        unfold Proc.each addSnapshotTask
        rw [wp_bind, wp_bind, wp_get, hnone]
        exact fun hcond => absurd (hcond hne) hknown
  | snapshotTask f n =>
    exact wp_mono (Moves.ignore (creates_tryCreateSnapshotOnNode env f n) s) (fun _ _ h => h)
      (fun _ _ h => h) fun _ hp _ => hp
  | nvidiaPodTask f => exact hlift (Moves.ignore (framed_createOneNividaPod env f))
  | standbyTask n => exact hlift (Moves.ignore (framed_tryAdjustStandbyPodsOnNode env n))
  | refreshSnapshot => exact .of_catalog rfl
  | removeSnapshotFromNode n f => exact .of_catalog rfl

/-! ## Requests -/

theorem framed_sendIfAlive (env : Env) (tx : ℕ) {e : Effect} (he : e.Plain) :
    Framed (sendIfAlive env tx e) := by
  unfold sendIfAlive
  split
  next => exact Framed.modify fun _ => catalog_emit he
  next => exact Moves.pure ()

theorem framed_sendChecked (env : Env) (tx : ℕ) {e : Effect} (he : e.Plain) :
    Framed (sendChecked env tx e) := by
  unfold sendChecked
  split
  next => exact Framed.modify fun _ => catalog_emit he
  next => exact Moves.crash (by simp [Tame])

theorem framed_sendLease (env : Env) (tx : ℕ) (req : LeaseWorkerReq) (k : Option String)
    (resp : LeaseWorkerResp) : Framed (sendLease env tx req k resp) := by
  unfold sendLease
  split
  next => exact Framed.modify fun _ => catalog_emit ⟨rfl, rfl⟩
  next => exact Moves.crash (by simp [Tame])

theorem framed_answerLease (env : Env) (req : LeaseWorkerReq) (tx : ℕ) (pod : FuncPod) :
    Framed (answerLease env req tx pod) := by
  refine Moves.bind Moves.get fun s => ?_
  split
  next =>
    split
    next => exact Moves.throw _
    next => exact framed_sendLease env tx req _ _
  next =>
    split
    next => exact Moves.crash (by simp [Tame])
    next => exact framed_sendLease env tx req _ _

theorem framed_leaseIdle (env : Env) (req : LeaseWorkerReq) (tx : ℕ) (w : WorkerPod) :
    Framed (leaseIdle env req tx w) := by
  refine Moves.bind (framed_setWorking w _) fun _ => Moves.bind (Framed.modify fun _ => rfl) fun _ => ?_
  exact Moves.bind (framed_popIdleChecked _) fun _ => framed_answerLease env req tx w.pod

theorem framed_pushLeaseWorkerReq (env : Env) (f : String) (req : LeaseWorkerReq) (tx : ℕ) :
    Framed (pushLeaseWorkerReq env f req tx) := by
  refine Moves.bind Moves.get fun s => ?_
  rcases s.funcs[f]? with _ | fs
  · exact Moves.throw _
  · exact Framed.modify fun _ => catalog_modifyFunc fun _ => rfl

theorem framed_leaseResuming (env : Env) (req : LeaseWorkerReq) (tx : ℕ) (f : String) :
    Framed (leaseResuming env req tx f) := by
  refine Moves.bind (Moves.attempt (framed_resumePod env f _)) fun r => ?_
  split
  next => exact framed_sendLease env tx req _ _
  next => exact framed_pushLeaseWorkerReq env f req tx

theorem framed_processLeaseWorkerReq (env : Env) (req : LeaseWorkerReq) (tx : ℕ) :
    Framed (processLeaseWorkerReq env req tx) := by
  refine Moves.bind Moves.get fun s => ?_
  rcases s.funcs[req.funcKey]? with _ | fs
  · exact Moves.bind (framed_sendLease env tx req _ _) fun _ => Moves.throw _
  · simp only
    split
    next => exact Moves.crash (tame_fault _)
    next =>
      split
      next => exact framed_sendLease env tx req _ _
      next =>
        refine Moves.bind Moves.get fun s => ?_
        simp only
        split
        next => exact framed_leaseIdle env req tx _
        next =>
          split
          next => exact Moves.bind (framed_sendLease env tx req _ _) fun _ => Moves.throw _
          next => exact framed_leaseResuming env req tx _

theorem framed_processReturnWorkerReq (env : Env) (req : ReturnWorkerReq) (tx : ℕ) :
    Framed (processReturnWorkerReq env req tx) := by
  refine Moves.bind Moves.get fun s => ?_
  split
  next => exact framed_sendChecked env tx ⟨rfl, rfl⟩
  next w _ =>
    refine Moves.bind ?_ fun _ => framed_sendChecked env tx ⟨rfl, rfl⟩
    refine Moves.bind Moves.get fun s => ?_
    split
    next => exact Moves.pure ()
    next =>
      split
      next =>
        exact Moves.bind (Framed.modify fun _ => rfl) fun _ => Moves.ignore (framed_stopWorker w.pod)
      next => exact Framed.modify fun _ => rfl

theorem framed_killBusy (env : Env) (w : WorkerPod) : Framed (killBusy env w) := by
  refine Moves.bind (Moves.attempt (framed_stopWorker w.pod)) fun r => ?_
  split
  next => exact Moves.bind (Framed.modify fun _ => rfl) fun _ => Moves.pure _
  next => exact Moves.pure _

theorem framed_killWorker (env : Env) (w : WorkerPod) : Framed (killWorker env w) := by
  refine Moves.bind Moves.get fun s => ?_
  split
  next =>
    refine Moves.bind (Framed.modify fun _ => rfl) fun _ => ?_
    refine Moves.bind (Moves.attempt (framed_stopWorker w.pod)) fun r => ?_
    split
    next => exact Moves.bind (Framed.modify fun _ => rfl) fun _ => Moves.pure _
    next => exact Moves.bind (Framed.modify fun _ => rfl) fun _ => Moves.pure _
  next => exact framed_killBusy env w
  next => exact framed_killBusy env w
  next => exact Moves.pure _

theorem framed_processKillPod (env : Env) (req : WorkerId) (tx : ℕ) :
    Framed (processKillPod env req tx) := by
  refine Moves.bind Moves.get fun s => ?_
  split
  next => exact framed_sendIfAlive env tx ⟨rfl, rfl⟩
  next => exact Moves.bind (framed_killWorker env _) fun _ => framed_sendIfAlive env tx ⟨rfl, rfl⟩

theorem framed_processConnectReq (env : Env) (req : ConnectReq) (tx : ℕ) :
    Framed (processConnectReq env req tx) := by
  refine Moves.bind Moves.get fun s => ?_
  split
  next => exact Moves.bind (framed_sendIfAlive env tx ⟨rfl, rfl⟩) fun _ => Moves.pure _
  next =>
    split
    next => exact Moves.bind (framed_sendChecked env tx ⟨rfl, rfl⟩) fun _ => Moves.pure _
    next =>
      refine Moves.bind (Moves.each fun w _ => ?_) fun _ =>
        Moves.bind (framed_sendIfAlive env tx ⟨rfl, rfl⟩) fun _ => Moves.pure _
      exact Moves.bind (framed_setWorking w _) fun _ => Framed.modify fun _ => rfl

theorem framed_completeWarmupAfterConnect (env : Env) : Framed (completeWarmupAfterConnect env) := by
  refine Moves.bind Moves.get fun s => ?_
  split
  next => exact Moves.pure ()
  next =>
    refine Moves.bind (Framed.modify fun _ => rfl) fun _ => ?_
    exact Moves.bind (framed_refreshScheduling env) fun _ => framed_initSnapshotTask env

theorem framed_checkAndCompleteWarmup (env : Env) : Framed (checkAndCompleteWarmup env) := by
  refine Moves.bind Moves.get fun s => ?_
  split
  next =>
    split
    next => exact framed_completeWarmupAfterConnect env
    next => exact Moves.pure ()
  next => exact Moves.pure ()

theorem framed_removePodsByFunckey (env : Env) (f : String) : Framed (removePodsByFunckey env f) := by
  refine Moves.bind Moves.get fun s => ?_
  refine Moves.bind (Moves.each fun w _ => ?_) fun _ => Moves.pure _
  refine Moves.bind (Moves.attempt (framed_stopWorker _)) fun r => ?_
  split
  next => exact Moves.pure ()
  next => exact Framed.modify fun _ => rfl

theorem framed_cleanPods (env : Env) : Framed (cleanPods env) :=
  Moves.bind Moves.get fun _ => Moves.each fun f _ => Moves.ignore (framed_removePodsByFunckey env f)

theorem catalog_processGatewayTimeout {s : SchedulerHandler} (env : Env) :
    (s.processGatewayTimeout env).catalog = s.catalog := by
  unfold processGatewayTimeout
  refine catalog_foldl (fun s w => ?_) _
  unfold releaseTimedOut
  split
  next =>
    split
    next => rfl
    next => rfl
  next => rfl

theorem catalog_reconcileAllStuckLeaseRequests {s : SchedulerHandler} (env : Env) (t : ℕ) :
    (s.reconcileAllStuckLeaseRequests env t).catalog = s.catalog := by
  have hfuncs : (s.reconcileAllStuckLeaseRequests env t).books.funcs = s.books.funcs := by
    funext f
    show (s.funcs.map _)[f]?.map FuncStatus.func = s.funcs[f]?.map FuncStatus.func
    rw [Std.ExtTreeMap.getElem?_map, Option.map_map]
    rfl
  refine Prod.ext ?_ rfl
  show Books.mk (s.reconcileAllStuckLeaseRequests env t).books.funcs _ _ _ _ _ _ = s.books
  rw [hfuncs]
  rfl

/-! ## Completions -/

theorem framed_failOneLease (env : Env) (f : String) : Framed (failOneLease env f) := by
  refine Moves.bind Moves.get fun s => ?_
  split
  next => exact Moves.pure ()
  next =>
    split
    next => exact Moves.pure ()
    next =>
      refine Moves.bind (Framed.modify fun _ => catalog_modifyFunc fun _ => rfl) fun _ => ?_
      exact framed_sendIfAlive env _ ⟨rfl, rfl⟩

theorem framed_processResumeWorkerComplete (env : Env) (rpc : ResumeRpc) (result : Option Error) :
    Framed (processResumeWorkerComplete env rpc result) := by
  unfold processResumeWorkerComplete
  split
  next => exact Moves.pure ()
  next =>
    split
    next =>
      refine Moves.bind (framed_freeNodeResource _ _) fun _ => ?_
      refine Moves.bind (Framed.modify fun _ => rfl) fun _ => Moves.bind ?_ fun _ => ?_
      · refine Moves.bind Moves.get fun s => ?_
        split
        next => exact Moves.crash (by simp [Tame])
        next =>
          refine Moves.bind (Framed.modify fun _ => rfl) fun _ => ?_
          refine Moves.bind (Framed.modify fun _ => catalog_modifyFunc fun _ => rfl) fun _ => ?_
          exact framed_failOneLease env _
      · exact Framed.modify fun _ => catalog_foldl (fun _ _ => catalog_restoreTerminated _) _
    next => exact Moves.crash (by simp [Tame])

/-- A failed start of a snapshot pod is queued again for its function. -/
def Restarts (rpc : StartRpc) (result : Option Error) : Prop :=
  rpc.createType = .snapshot ∧ ∃ e, result = some e ∧ isSafeToRestore e = true

theorem framed_processStartWorkerComplete (env : Env) (rpc : StartRpc) (result : Option Error)
    {s : SchedulerHandler} :
    (processStartWorkerComplete env rpc result).wp (fun _ s' => s'.catalog = s.catalog)
      (fun _ s' => s'.catalog = s.catalog) (fun p => (Restarts rpc result → s.Knows rpc.funcid) → Tame p)
      s := by
  unfold processStartWorkerComplete
  split
  next => rfl
  next e =>
    split
    next hsafe =>
      -- Everything up to the last step is framed whether the function is known or not.
      have hundo : Framed (do
          Proc.modify (·.dropNodePending rpc.nodename rpc.podkey)
          freeNodeResource rpc.nodename rpc.resources
          Proc.modify (·.dropFuncPending rpc.funcid rpc.podkey)
          Proc.modify fun s =>
            if rpc.createType = .snapshot then s.removePendingSnapshot rpc.funcid rpc.nodename else s
          Proc.modify (rpc.terminated.foldl SchedulerHandler.restoreTerminated ·) : SchedM Unit) := by
        refine Moves.bind (Framed.modify fun _ => rfl) fun _ => ?_
        refine Moves.bind (framed_freeNodeResource _ _) fun _ => ?_
        refine Moves.bind (Framed.modify fun _ => catalog_modifyFunc fun _ => rfl) fun _ => ?_
        refine Moves.bind (Framed.modify fun s => ?_) fun _ => ?_
        · split
          next => exact catalog_removePendingSnapshot _ _
          next => rfl
        · exact Framed.modify fun _ => catalog_foldl (fun _ _ => catalog_restoreTerminated _) _
      have hrest : ∀ t : SchedulerHandler, t.catalog = s.catalog →
          (if rpc.createType = .snapshot then addSnapshotTask env rpc.nodename rpc.funcid
            else return ()).wp (fun _ s' => s'.catalog = s.catalog)
            (fun _ s' => s'.catalog = s.catalog)
            (fun p => (Restarts rpc (some e) → s.Knows rpc.funcid) → Tame p) t := by
        intro t ht
        split
        next hcreate =>
          by_cases hknown : t.Knows rpc.funcid
          · refine wp_mono (framed_addSnapshotTask env _ _ t hknown) (fun _ u hu => hu.trans ht)
              (fun _ u hu => hu.trans ht) fun _ hp _ => hp
          · rw [knows_iff, Option.isSome_iff_ne_none, not_not] at hknown
            unfold addSnapshotTask
            rw [wp_bind, wp_get, hknown]
            refine fun hcond => absurd (hcond ⟨hcreate, e, rfl, hsafe⟩) fun hs => ?_
            have hs' := knows_iff.mp (hs.congr (books_of_catalog ht))
            rw [hknown] at hs'
            cases hs'
        next => exact ht
      have hall := wp_mono (hundo s) (fun _ t ht => hrest t ht) (fun _ _ h => h)
        fun p (hp : Tame p) (_ : Restarts rpc (some e) → s.Knows rpc.funcid) => hp
      simp only [wp_bind] at hall ⊢
      exact hall
    next => exact fun _ => by simp [Tame]

theorem framed_processCleanupDuplicateSnapshot (rpc : StartRpc) :
    Framed (processCleanupDuplicateSnapshot rpc) := by
  refine Moves.bind (Framed.modify fun _ => catalog_removePendingSnapshot _ _) fun _ => ?_
  refine Moves.bind (Framed.modify fun _ => rfl) fun _ => ?_
  refine Moves.bind (framed_freeNodeResource _ _) fun _ => ?_
  refine Moves.bind (Framed.modify fun _ => catalog_modifyFunc fun _ => rfl) fun _ => ?_
  refine Moves.each fun k _ => Moves.bind Moves.get fun s => ?_
  split
  next => exact Moves.pure ()
  next w _ =>
    refine Moves.bind (Framed.modify fun s => ?_) fun _ => ?_
    · exact (catalog_modifyFunc (s := s.modifyNode w.pod.nodename _) (g := (·.removeStoppingPod k))
        fun _ => rfl).trans rfl
    · split
      next => exact Moves.pure ()
      next => exact Moves.ignore (framed_allocOnNode _ _ _)

end Inferx
