import Inferx.Lib.Runs
import Inferx.Scheduler.Booked
import Inferx.Scheduler.Coherence

/-!
# Snapshot tasks and the functions they name

A snapshot is queued for a function by its id, in a task that may wait in the
queue, in the completion of an RPC, and when the pod that was to make it is
deleted. `AddSnapshotTask` takes it for granted that the function is still
known, and panics when it is not.

In a run, a task and an RPC name a known function as long as no function is
removed before the tasks that add it have run and its RPCs have ended. That
leaves the pods: a snapshot pod that goes before it has finished has to go
before its function.
-/

namespace Inferx

open Proc SchedulerHandler

/-! ## What a handler does to the functions named -/

/-- The known functions stay, no function is newly to be added, and what is
created is created for a known one. -/
structure Names (s t : SchedulerHandler) : Prop where
  /-- the functions stay -/
  funcs : t.books.funcs = s.books.funcs
  /-- no new tasks -/
  added : ∀ f ∈ t.books.added, f ∈ s.books.added
  /-- what has been created -/
  created : ∀ rpc ∈ t.books.created,
    rpc ∈ s.books.created ∨ ∃ f func, s.books.funcs f = some func ∧ rpc.funcid = func.id

instance : IsPreorder SchedulerHandler Names where
  refl _ := ⟨rfl, fun _ h => h, fun _ h => Or.inl h⟩
  trans s t u h₁ h₂ := by
    refine ⟨h₂.funcs.trans h₁.funcs, fun f hf => h₁.added f (h₂.added f hf), fun rpc hrpc => ?_⟩
    rcases h₂.created rpc hrpc with hrpc | ⟨f, func, hf, hid⟩
    · exact h₁.created rpc hrpc
    · exact Or.inr ⟨f, func, h₁.funcs ▸ hf, hid⟩

namespace Names

variable {s t : SchedulerHandler}

theorem of_books (h : t.books = s.books) : Names s t := by
  refine ⟨?_, fun f hf => ?_, fun rpc hrpc => Or.inl ?_⟩
  · rw [h]
  · rwa [h] at hf
  · rwa [h] at hrpc

theorem of_creates (h : Creates s t) : Names s t := by
  obtain ⟨l, hl, hall⟩ := h.books
  refine ⟨h.funcs, fun f hf => ?_, fun rpc hrpc => ?_⟩
  · rwa [hl] at hf
  · rw [hl] at hrpc
    rcases List.mem_append.mp hrpc with hrpc | hrpc
    · exact Or.inl hrpc
    · exact Or.inr (hall rpc hrpc)

theorem of_forgets {n : String} (h : Forgets n s t) : Names s t := by
  refine ⟨h.funcs, fun f hf => ?_, fun rpc hrpc => Or.inl ?_⟩
  · rwa [h.added] at hf
  · rwa [h.created] at hrpc

theorem of_removes (h : Removes s t) : Names s t := by
  refine ⟨h.funcs, fun f hf => ?_, fun rpc hrpc => Or.inl ?_⟩
  · rwa [h.added] at hf
  · rwa [h.created] at hrpc

theorem of_opens (h : Opens s t) : Names s t := by
  refine ⟨?_, fun f hf => ?_, fun rpc hrpc => Or.inl ?_⟩
  · rw [h.books]
  · rwa [h.books] at hf
  · rwa [h.books] at hrpc

theorem of_queues (h : Queues (fun _ => False) s t) : Names s t := by
  refine ⟨?_, fun f hf => (h.added f hf).resolve_right id, fun rpc hrpc => Or.inl ?_⟩
  · rw [h.books]
  · rwa [h.books] at hrpc

theorem knows (h : Names s t) {f : String} (hf : s.Knows f) : t.Knows f := by
  unfold Knows
  rw [h.funcs]
  exact hf

end Names

/-- When does a handler not name an unknown function? The functions themselves
are the subject of `FuncOk`. -/
def Handler.NameOk (s : SchedulerHandler) : Handler → Prop
  | .msg (.startWorkerComplete rpc result) => Restarts rpc result → s.Knows rpc.funcid
  | .event (.nodeAdded node) => NewEpoch s node.name node.nodeEpoch → CleanOk s node.name
  | .event (.podAdded pod) => NewEpoch s pod.nodename pod.srcEpoch → CleanOk s pod.nodename
  | .event (.snapshotAdded snapshot) =>
    NewEpoch s snapshot.object.nodename snapshot.srcEpoch → CleanOk s snapshot.object.nodename
  | .event (.podDeleted pod) => RequeueOk s pod
  | .task => ∀ task ∈ s.taskQueue.head?, task.Known s
  | _ => True

/-- Does the handler add or remove a function? -/
def Handler.changesFuncs : Handler → Bool
  | .event (.funcAdded _) => true
  | .event (.funcModified _ _) => true
  | .event (.funcDeleted _) => true
  | _ => false

/-- A procedure that names known functions only, unless its condition fails. -/
abbrev NamesFrom {α : Type} (ok : Prop) (s : SchedulerHandler) (x : SchedM α) : Prop :=
  x.wp (fun _ t => Names s t) (fun _ t => Names s t) (fun p => ok → Tame p) s

theorem Framed.namesFrom {α : Type} {x : SchedM α} (h : Framed x) (ok : Prop) (s : SchedulerHandler) :
    NamesFrom ok s x :=
  wp_mono (h s) (fun _ _ h => .of_books (books_of_catalog h))
    (fun _ _ h => .of_books (books_of_catalog h)) fun _ hp _ => hp

theorem Booked.namesFrom {α : Type} {x : SchedM α} (h : Booked x) (ok : Prop) (s : SchedulerHandler) :
    NamesFrom ok s x :=
  wp_mono (h s) (fun _ _ => .of_books) (fun _ _ => .of_books) fun _ hp _ => hp

theorem NamesFrom.of_moves {α : Type} {x : SchedM α} {R : SchedulerHandler → SchedulerHandler → Prop}
    (h : Moves R Tame x) (hR : ∀ s t, R s t → Names s t) (ok : Prop) (s : SchedulerHandler) :
    NamesFrom ok s x :=
  wp_mono (h s) (fun _ t => hR s t) (fun _ t => hR s t) fun _ hp _ => hp

/-- After the epoch has been checked, the rest of an event does not touch the
books. -/
theorem namesFrom_epoch {env : Env} {n : String} {epoch : ℤ} {s : SchedulerHandler}
    {g : Unit → SchedM Unit} (hg : ∀ t, NamesFrom True t (g ())) :
    NamesFrom (NewEpoch s n epoch → CleanOk s n) s (checkNodeEpoch env n epoch >>= g) := by
  rw [NamesFrom, wp_bind]
  refine wp_mono (checkNodeEpoch_books env n epoch s) (fun _ t ht => ?_) (fun _ _ h => h.elim)
    fun p hp => hp
  have hst : Names s t := by
    rcases ht with ⟨-, h⟩ | ⟨-, h⟩
    · exact .of_books h
    · exact .of_forgets h
  refine wp_mono (hg t) (fun _ u hu => IsTrans.trans _ _ _ hst hu)
    (fun _ u hu => IsTrans.trans _ _ _ hst hu) fun p hp _ => hp trivial

theorem namesFrom_addSnapshot (env : Env) (x : FuncSnapshot) (s : SchedulerHandler) :
    NamesFrom True s (addSnapshot env x) := by
  refine NamesFrom.of_moves (R := Names) ?_ (fun _ _ h => h) True s
  refine Moves.bind (Moves.modify fun s => ?_) fun _ => ?_
  · exact .of_books (books_of_catalog (catalog_removePendingSnapshot _ _))
  · refine Moves.bind (Moves.modify fun s => ⟨rfl, fun _ h => h, fun _ h => Or.inl h⟩) fun _ => ?_
    split
    next => exact Moves.mono (opens_startStandbyBilling env _) (fun _ _ => .of_opens) fun _ h => h
    next => exact Moves.pure ()

theorem namesFrom_updateSnapshot (env : Env) (x : FuncSnapshot) (s : SchedulerHandler) :
    NamesFrom True s (updateSnapshot env x) := by
  refine NamesFrom.of_moves (R := Names) ?_ (fun _ _ h => h) True s
  refine Moves.bind Moves.get fun s => ?_
  dsimp only
  split
  next =>
    refine Moves.bind (Moves.modify fun s => ⟨rfl, fun _ h => h, fun _ h => Or.inl h⟩) fun _ => ?_
    split
    next => exact Moves.mono (opens_startStandbyBilling env _) (fun _ _ => .of_opens) fun _ h => h
    next => exact Moves.pure ()
  next => exact Moves.pure ()

theorem namesFrom_processMsg (env : Env) (m : WorkerHandlerMsg) (s : SchedulerHandler) :
    NamesFrom ((Handler.msg m).NameOk s) s (processMsg env m) := by
  cases m with
  | connectScheduler req tx =>
    refine Framed.namesFrom (Moves.bind (framed_processConnectReq env req tx) fun b => ?_) _ s
    split
    next => exact framed_completeWarmupAfterConnect env
    next => exact Moves.pure ()
  | leaseWorker req tx => exact (framed_processLeaseWorkerReq env req tx).namesFrom _ s
  | returnWorker req tx => exact (framed_processReturnWorkerReq env req tx).namesFrom _ s
  | killPod req tx => exact (framed_processKillPod env req tx).namesFrom _ s
  | refreshGateway g =>
    exact Framed.namesFrom (Framed.modify (g := (processRefreshGateway env · g)) fun _ => rfl) _ s
  | cleanupDuplicateSnapshot rpc =>
    exact (framed_processCleanupDuplicateSnapshot rpc).namesFrom _ s
  | resumeWorkerComplete rpc result =>
    exact (framed_processResumeWorkerComplete env rpc result).namesFrom _ s
  | startWorkerComplete rpc result =>
    exact wp_mono (framed_processStartWorkerComplete env rpc result)
      (fun _ _ h => .of_books (books_of_catalog h)) (fun _ _ h => .of_books (books_of_catalog h))
      fun _ hp => hp
  | removeSnapshotComplete f n ok =>
    refine NamesFrom.of_moves (R := Names) (Moves.modify fun s => ?_) (fun _ _ h => h) _ s
    unfold processRemoveSnapshotComplete
    dsimp only
    split
    next => exact ⟨rfl, fun _ h => h, fun _ h => Or.inl h⟩
    next => exact ⟨rfl, fun _ h => h, fun _ h => Or.inl h⟩
  | stopWorkerComplete k ok =>
    exact Framed.namesFrom (Framed.modify (g := (·.processStopWorkerComplete k ok)) fun _ => rfl) _ s

theorem namesFrom_processEvent (env : Env) (e : DeltaEvent) (s : SchedulerHandler)
    (he : (Handler.event e).changesFuncs = false) :
    NamesFrom ((Handler.event e).NameOk s) s (processEvent env e) := by
  have hkeep : ∀ {g : SchedulerHandler → SchedulerHandler} (ok : Prop), (∀ s, Names s (g s)) →
      NamesFrom ok s (Proc.modify g) := fun ok h =>
    NamesFrom.of_moves (R := Names) (Moves.modify h) (fun _ _ h => h) ok s
  cases e with
  | funcAdded func => cases he
  | funcModified old spec => cases he
  | funcDeleted spec => cases he
  | nodeAdded node =>
    refine namesFrom_epoch fun t => Framed.namesFrom ?_ True t
    exact Moves.bind (framed_addPeer node) fun _ => framed_addNode env node
  | nodeModified node => exact (booked_processNodeModified node).namesFrom _ s
  | nodeDeleted node =>
    exact Framed.namesFrom (Moves.bind (framed_removePeer node) fun _ => framed_removeNode node) _ s
  | podAdded pod => exact namesFrom_epoch fun t => (booked_addPod env pod).namesFrom True t
  | podModified pod => exact (booked_updatePod env pod).namesFrom _ s
  | podDeleted pod =>
    exact wp_mono (removePod_books env pod "" s) (fun _ _ h => .of_books h.books)
      (fun _ _ h => .of_books h.books) fun _ hp => hp
  | snapshotAdded snapshot => exact namesFrom_epoch fun t => namesFrom_addSnapshot env snapshot t
  | snapshotModified snapshot =>
    exact wp_mono (namesFrom_updateSnapshot env snapshot s) (fun _ _ h => h) (fun _ _ h => h)
      fun _ hp _ => hp trivial
  | snapshotDeleted snapshot => exact hkeep _ fun s => ⟨rfl, fun _ h => h, fun _ h => Or.inl h⟩
  | initDone l => exact NamesFrom.of_moves (opens_listDone env l) (fun _ _ => .of_opens) _ s
  | _ => exact hkeep _ fun s => ⟨rfl, fun _ h => h, fun _ h => Or.inl h⟩

/-- A task leaves the queue before it runs. -/
theorem namesFrom_processNextTask (env : Env) (s : SchedulerHandler) :
    NamesFrom (Handler.task.NameOk s) s (processNextTask env) := by
  unfold processNextTask
  rw [NamesFrom, wp_bind, wp_get]
  split
  next => exact Std.Refl.refl s
  next task rest hqueue =>
    rw [wp_bind, wp_modify]
    have hpop : Names s { s with taskQueue := rest } := by
      refine ⟨rfl, fun f hf => ?_, fun _ h => Or.inl h⟩
      obtain ⟨task', htask', hadds⟩ := mem_added.mp hf
      refine mem_added.mpr ⟨task', ?_, hadds⟩
      rw [hqueue]
      exact List.mem_cons_of_mem _ htask'
    refine wp_mono (creates_processTask env task) (fun _ t ht => ?_) (fun _ t ht => ?_) fun p hp hok => ?_
    · exact IsTrans.trans _ _ _ hpop (.of_creates ht)
    · exact IsTrans.trans _ _ _ hpop (.of_creates ht)
    · have hhead : task ∈ s.taskQueue.head? := by
        rw [hqueue]
        rfl
      have hknown := hok task hhead
      refine hp ?_
      cases task with
      | addFunc f => exact hknown
      | _ => trivial

/-- **Handlers and the functions they name.** -/
theorem run_namesFrom (env : Env) (h : Handler) (s : SchedulerHandler) (hh : h.changesFuncs = false) :
    NamesFrom (h.NameOk s) s (h.run env) := by
  cases h with
  | msg m => exact namesFrom_processMsg env m s
  | event e => exact namesFrom_processEvent env e s hh
  | task => exact namesFrom_processNextTask env s
  | delayTick => exact NamesFrom.of_moves (drainDueDelayedTasks_queues env) (fun _ _ => .of_queues) _ s
  | billingTick =>
    refine Framed.namesFrom (Framed.modify fun s => ?_) _ s
    unfold emitPeriodicBillingTicks periodicTicks
    split
    next => rfl
    next => simp [catalog, books, List.filterMap_map, Function.comp_def, Effect.removes, Effect.creates]
  | standbyTick =>
    refine NamesFrom.of_moves (R := Names) (Moves.modify (g := emitPeriodicStandbyTicks env)
      fun s => ⟨rfl, fun _ h => h, fun rpc hrpc => ?_⟩) (fun _ _ h => h) _ s
    unfold emitPeriodicStandbyTicks periodicTicks at hrpc
    simp [books, List.filterMap_map, Function.comp_def, Effect.creates] at hrpc
    exact Or.inl (List.mem_filterMap.mpr hrpc)
  | warmup => exact (framed_checkAndCompleteWarmup env).namesFrom _ s
  | refresh => exact (framed_refreshScheduling env).namesFrom _ s
  | cleanPods => exact (framed_cleanPods env).namesFrom _ s
  | cleanSnapshots => exact NamesFrom.of_moves removes_cleanSnapshots (fun _ _ => .of_removes) _ s
  | gatewayTimeout =>
    exact Framed.namesFrom (Framed.modify fun _ => catalog_processGatewayTimeout env) _ s
  | stuckLeases =>
    exact Framed.namesFrom (Framed.modify fun _ => catalog_reconcileAllStuckLeaseRequests env 30000) _ s

/-! ## The functions themselves -/

/-- The functions that tasks and RPCs name are known, except those in `E`. -/
structure Named (E : String → Prop) (s : SchedulerHandler) (starts : List StartRpc) : Prop where
  /-- functions are known under their id -/
  keyed : ∀ f func, s.books.funcs f = some func → func.id = f
  /-- the functions of the tasks -/
  added : ∀ f ∈ s.books.added, s.Knows f ∨ E f
  /-- the functions of the RPCs in flight -/
  starts : ∀ rpc ∈ starts, s.Knows rpc.funcid ∨ E rpc.funcid
  /-- the functions of the RPCs that are going out -/
  created : ∀ rpc ∈ s.books.created, s.Knows rpc.funcid ∨ E rpc.funcid

namespace Named

variable {E F : String → Prop} {s t : SchedulerHandler} {starts : List StartRpc}

theorem weaken (h : Named E s starts) (hEF : ∀ f, E f → s.Knows f ∨ F f) : Named F s starts where
  keyed := h.keyed
  added f hf := (h.added f hf).elim Or.inl (hEF f)
  starts rpc hrpc := (h.starts rpc hrpc).elim Or.inl (hEF _)
  created rpc hrpc := (h.created rpc hrpc).elim Or.inl (hEF _)

theorem names (h : Named E s starts) (ht : Names s t) : Named E t starts where
  keyed f func hf := h.keyed f func (ht.funcs ▸ hf)
  added f hf := (h.added f (ht.added f hf)).imp_left ht.knows
  starts rpc hrpc := (h.starts rpc hrpc).imp_left ht.knows
  created rpc hrpc := by
    rcases ht.created rpc hrpc with hrpc | ⟨f, func, hf, hid⟩
    · exact (h.created rpc hrpc).imp_left ht.knows
    · refine Or.inl (ht.knows ?_)
      rw [hid, h.keyed f func hf]
      unfold Knows
      rw [hf]
      rfl

theorem queues {f : String} (h : Named E s starts) (hf : s.Knows f) (ht : Queues (· = f) s t) :
    Named E t starts := by
  have hfuncs : t.books.funcs = s.books.funcs := by rw [ht.books]
  have hknows : ∀ {g : String}, s.Knows g → t.Knows g := fun hg => by
    unfold Knows
    rw [hfuncs]
    exact hg
  refine ⟨fun g func hg => h.keyed g func (hfuncs ▸ hg), fun g hg => ?_, fun rpc hrpc => ?_,
    fun rpc hrpc => ?_⟩
  · rcases ht.added g hg with hg | rfl
    · exact (h.added g hg).imp_left hknows
    · exact Or.inl (hknows hf)
  · exact (h.starts rpc hrpc).imp_left hknows
  · rw [ht.books] at hrpc
    exact (h.created rpc hrpc).imp_left hknows

theorem addFunc {spec : Function} (h : Named E s starts)
    (ht : t.books = { s.books with funcs := Function.update s.books.funcs spec.id (some spec) }) :
    Named E t starts ∧ t.Knows spec.id := by
  have hself : t.Knows spec.id := by
    unfold Knows
    rw [ht]
    simp
  have hknows : ∀ {g : String}, s.Knows g → t.Knows g := by
    intro g hg
    unfold Knows
    rw [ht]
    dsimp only
    rw [Function.update_apply]
    split
    next => rfl
    next => exact hg
  refine ⟨⟨fun g func hg => ?_, fun g hg => ?_, fun rpc hrpc => ?_, fun rpc hrpc => ?_⟩, hself⟩
  · rw [ht] at hg
    dsimp only at hg
    rw [Function.update_apply] at hg
    split at hg
    next hspec =>
      obtain rfl := Option.some.inj hg
      exact hspec.symm
    next => exact h.keyed g func hg
  · rw [ht] at hg
    exact (h.added g hg).imp_left hknows
  · exact (h.starts rpc hrpc).imp_left hknows
  · rw [ht] at hrpc
    exact (h.created rpc hrpc).imp_left hknows

theorem removeFunc {f : String} {sessions : BTreeMap String BillingSession}
    (h : Named E s starts)
    (ht : t.books = { s.books with funcs := Function.update s.books.funcs f none, sessions }) :
    Named (fun g => E g ∨ g = f) t starts := by
  have hknows : ∀ {g : String}, s.Knows g ∨ E g → t.Knows g ∨ E g ∨ g = f := by
    intro g hg
    by_cases hgf : g = f
    · exact Or.inr (Or.inr hgf)
    · rcases hg with hg | hg
      · refine Or.inl ?_
        unfold Knows
        rw [ht]
        dsimp only
        rw [Function.update_of_ne hgf]
        exact hg
      · exact Or.inr (Or.inl hg)
  refine ⟨fun g func hg => ?_, fun g hg => ?_, fun rpc hrpc => hknows (h.starts rpc hrpc), fun rpc hrpc => ?_⟩
  · rw [ht] at hg
    dsimp only at hg
    rw [Function.update_apply] at hg
    split at hg
    next => cases hg
    next => exact h.keyed g func hg
  · rw [ht] at hg
    exact hknows (h.added g hg)
  · rw [ht] at hrpc
    exact hknows (h.created rpc hrpc)

end Named

/-- No task and no RPC names the function. -/
def Unnamed (s : SchedulerHandler) (starts : List StartRpc) (f : String) : Prop :=
  f ∉ s.books.added ∧ ∀ rpc ∈ starts, rpc.funcid ≠ f

/-- A function is removed when nothing names it, unless it is known again at
once. -/
def Handler.FuncOk (s : SchedulerHandler) (starts : List StartRpc) : Handler → Prop
  | .event (.funcModified oldspec spec) => oldspec.id ≠ spec.id → Unnamed s starts oldspec.id
  | .event (.funcDeleted spec) => Unnamed s starts spec.id
  | _ => True

/-- All is named, and nothing is going out. -/
abbrev Settled (s : SchedulerHandler) (starts : List StartRpc) : Prop :=
  Named (fun _ => False) s starts

theorem Unnamed.removes {s t : SchedulerHandler} {starts : List StartRpc} {f : String}
    (h : Unnamed s starts f) (ht : Removes s t) : Unnamed t starts f :=
  ⟨ht.added ▸ h.1, h.2⟩

/-- A function that nothing names can go: nothing becomes unknown. -/
theorem Named.remove_unnamed {s t : SchedulerHandler} {starts : List StartRpc} {f : String}
    {sessions : BTreeMap String BillingSession} (h : Settled s starts)
    (hcreated : s.books.created = []) (hok : Unnamed s starts f)
    (ht : t.books = { s.books with funcs := Function.update s.books.funcs f none, sessions }) :
    Settled t starts := by
  have hgone := h.removeFunc ht
  refine ⟨hgone.keyed, fun g hg => ?_, fun rpc hrpc => ?_, fun rpc hrpc => ?_⟩
  · refine (hgone.added g hg).imp_right fun hg' => hok.1 ?_
    rw [ht] at hg
    rw [← hg'.resolve_left fun h => h]
    exact hg
  · exact (hgone.starts rpc hrpc).imp_right fun hg' => hok.2 rpc hrpc (hg'.resolve_left fun h => h)
  · rw [ht] at hrpc
    replace hrpc : rpc ∈ s.books.created := hrpc
    rw [hcreated] at hrpc
    cases hrpc

/-- What a step of a function event leads to. -/
abbrev Settles (starts : List StartRpc) (s : SchedulerHandler) (x : SchedM Unit) : Prop :=
  x.wp (fun _ t => Settled t starts) (fun _ t => Settled t starts) Tame s

theorem settles_startFunc (env : Env) {f : String} {s : SchedulerHandler} {starts : List StartRpc}
    (h : Settled s starts) (hf : s.Knows f) : Settles starts s (startFunc env f) :=
  wp_mono (startFunc_queues env f s) (fun _ _ ht => h.queues hf ht) (fun _ _ ht => h.queues hf ht)
    fun _ hp => hp

theorem settles_funcAdded (env : Env) (func : Function) {s : SchedulerHandler}
    {starts : List StartRpc} (h : Settled s starts) :
    Settles starts s (processEvent env (.funcAdded func)) := by
  show (Inferx.addFunc func >>= fun _ => _).wp _ _ _ s
  rw [wp_bind]
  refine wp_mono (addFunc_books func s) (fun _ t ht => ?_) (fun _ t ht => ht.2.symm ▸ h)
    fun _ hp => hp.elim
  obtain ⟨hsettled, hknown⟩ := h.addFunc ht.2
  rw [wp_bind, wp_get]
  split
  next => exact settles_startFunc env hsettled hknown
  next => exact hsettled

theorem settles_funcModified (env : Env) (oldspec spec : Function) {s : SchedulerHandler}
    {starts : List StartRpc} (h : Settled s starts) (hcreated : s.books.created = [])
    (hok : (Handler.event (.funcModified oldspec spec)).FuncOk s starts) :
    Settles starts s (processEvent env (.funcModified oldspec spec)) := by
  show (processRemoveFunc env oldspec >>= fun _ => Inferx.removeFunc env oldspec >>= fun _ =>
    Inferx.addFunc spec >>= fun _ => _).wp _ _ _ s
  rw [wp_bind]
  refine wp_mono (removes_processRemoveFunc env oldspec s) (fun _ s₁ h₁ => ?_)
    (fun _ s₁ h₁ => h.names (.of_removes h₁)) fun _ hp => hp
  have hnamed₁ := h.names (.of_removes h₁)
  rw [wp_bind]
  refine wp_mono (removeFunc_books env oldspec s₁) (fun _ s₂ h₂ => ?_) (fun _ s₂ h₂ => ?_)
    fun _ hp => hp.elim
  · have hnamed₂ : Named (fun g => oldspec.id = spec.id ∧ g = oldspec.id) s₂ starts := by
      by_cases hid : oldspec.id = spec.id
      · exact (hnamed₁.removeFunc h₂).weaken fun g hg => Or.inr ⟨hid, hg.resolve_left fun h => h⟩
      · exact (hnamed₁.remove_unnamed (h₁.created.trans hcreated) ((hok hid).removes h₁) h₂).weaken
          fun _ hg => hg.elim
    rw [wp_bind]
    refine wp_mono (addFunc_books spec s₂) (fun _ s₃ h₃ => ?_) (fun _ s₃ h₃ => ?_) fun _ hp => hp.elim
    · obtain ⟨hnamed₃, hknown⟩ := hnamed₂.addFunc h₃.2
      have hsettled : Settled s₃ starts := hnamed₃.weaken fun g hg => by
        obtain ⟨hid, rfl⟩ := hg
        rw [hid]
        exact Or.inl hknown
      rw [wp_bind, wp_get]
      split
      next => exact settles_startFunc env hsettled hknown
      next => exact hsettled
    · obtain ⟨hknown, rfl⟩ := h₃
      exact hnamed₂.weaken fun g hg => by
        obtain ⟨hid, rfl⟩ := hg
        rw [hid]
        exact Or.inl hknown
  · rw [h₂]
    exact hnamed₁

theorem settles_funcDeleted (env : Env) (spec : Function) {s : SchedulerHandler}
    {starts : List StartRpc} (h : Settled s starts) (hcreated : s.books.created = [])
    (hok : Unnamed s starts spec.id) : Settles starts s (processEvent env (.funcDeleted spec)) := by
  show (processRemoveFunc env spec >>= fun _ => Inferx.removeFunc env spec).wp _ _ _ s
  rw [wp_bind]
  refine wp_mono (removes_processRemoveFunc env spec s) (fun _ s₁ h₁ => ?_)
    (fun _ s₁ h₁ => h.names (.of_removes h₁)) fun _ hp => hp
  have hnamed₁ := h.names (.of_removes h₁)
  refine wp_mono (removeFunc_books env spec s₁) (fun _ s₂ h₂ => ?_) (fun _ s₂ h₂ => h₂.symm ▸ hnamed₁)
    fun _ hp => hp.elim
  exact hnamed₁.remove_unnamed (h₁.created.trans hcreated) (hok.removes h₁) h₂

/-! ## Runs -/

/-- The scheduler, and the creations of snapshot pods that have not been answered
yet. -/
structure Tasking where
  /-- the scheduler -/
  sched : SchedulerHandler
  /-- the RPCs in flight -/
  starts : List StartRpc := []

namespace Tasking

/-- The RPCs that are left when a handler has taken its message. -/
def left (x : Tasking) : Handler → List StartRpc
  | .msg (.startWorkerComplete rpc _) => x.starts.erase rpc
  | _ => x.starts

/-- A call of a handler. -/
def next (x : Tasking) (c : Call) : Option Tasking :=
  (x.sched.next c).map fun t => ⟨t, x.left c.2 ++ t.books.created⟩

/-- A scheduler that has just started. -/
structure Start (x : Tasking) : Prop where
  /-- no functions -/
  funcs : x.sched.funcs = ∅
  /-- no tasks -/
  taskQueue : x.sched.taskQueue = []
  /-- no tasks for later -/
  delayedTasks : x.sched.delayedTasks = []
  /-- no RPCs -/
  starts : x.starts = []
  /-- nothing has been sent -/
  out : x.sched.out = []

/-- When does a handler name known functions only? A completion answers an RPC, a
node or a pod goes before its functions, and a function goes after what names it. -/
def Ok (x : Tasking) (c : Call) : Prop :=
  match c.2 with
  | .msg (.startWorkerComplete rpc result) => Restarts rpc result → rpc ∈ x.starts
  | .task => True
  | h => h.NameOk x.sched ∧ h.FuncOk x.sched x.starts

variable {x y : Tasking} {c : Call}

theorem Ok.funcOk (h : x.Ok c) : c.2.FuncOk x.sched x.starts := by
  obtain ⟨env, h'⟩ := c
  cases h' with
  | msg m => trivial
  | task => trivial
  | _ => exact h.2

theorem Ok.nameOk (h : x.Ok c) (hx : Settled x.sched x.starts) : c.2.NameOk x.sched := by
  obtain ⟨env, h'⟩ := c
  cases h' with
  | msg m =>
    cases m with
    | startWorkerComplete rpc result =>
      exact fun hrestarts => (hx.starts rpc (h hrestarts)).resolve_right fun h => h
    | _ => trivial
  | task =>
    intro task htask
    cases task with
    | addFunc f =>
      refine fun _ => (hx.added f (mem_added.mpr ⟨.addFunc f, ?_, rfl⟩)).resolve_right fun h => h
      exact List.mem_append_left _ (List.mem_of_mem_head? htask)
    | _ => trivial
  | _ => exact h.1

/-- The state a handler starts from: nothing has been sent. -/
theorem Settled.start (hx : Settled x.sched x.starts) :
    Settled { x.sched with out := [] } x.starts where
  keyed := hx.keyed
  added := hx.added
  starts := hx.starts
  created _ h := (nomatch h)

/-- **The step.** A handler that keeps to `Ok` leaves all functions named, and
does not panic over an unknown one. -/
theorem settled_call (hx : Settled x.sched x.starts) (hok : x.Ok c) :
    (c.2.run c.1).wp (fun _ t => Settled t x.starts) (fun _ t => Settled t x.starts) Tame
      { x.sched with out := [] } := by
  have hstart := Settled.start hx
  have hfunc := hok.funcOk
  have hname := hok.nameOk hx
  obtain ⟨env, h⟩ := c
  by_cases hchanges : h.changesFuncs = false
  · refine wp_mono (run_namesFrom env h { x.sched with out := [] } hchanges)
      (fun _ t ht => hstart.names ht) (fun _ t ht => hstart.names ht) fun p hp => hp ?_
    cases h with
    | msg m =>
      cases m with
      | startWorkerComplete rpc result => exact hname
      | _ => trivial
    | event e =>
      cases e with
      | nodeAdded node => exact hname
      | podAdded pod => exact hname
      | snapshotAdded snapshot => exact hname
      | podDeleted pod => exact hname
      | _ => trivial
    | task => exact hname
    | _ => trivial
  · cases h with
    | event e =>
      cases e with
      | funcAdded func => exact settles_funcAdded env func hstart
      | funcModified oldspec spec => exact settles_funcModified env oldspec spec hstart rfl hfunc
      | funcDeleted spec => exact settles_funcDeleted env spec hstart rfl hfunc
      | _ => exact absurd rfl hchanges
    | _ => exact absurd rfl hchanges

theorem settled_next (hx : Settled x.sched x.starts) (hok : x.Ok c) (h : x.next c = some y) :
    Settled y.sched y.starts := by
  obtain ⟨t, ht, rfl⟩ := Option.map_eq_some_iff.mp h
  have hsettled : Settled t x.starts :=
    wp_state (I := fun t => Settled t x.starts) (settled_call hx hok) ht
  refine ⟨hsettled.keyed, hsettled.added, fun rpc hrpc => ?_, hsettled.created⟩
  rcases List.mem_append.mp hrpc with hrpc | hrpc
  · refine hsettled.starts rpc ?_
    unfold left at hrpc
    split at hrpc
    next => exact List.mem_of_mem_erase hrpc
    next => exact hrpc
  · exact hsettled.created rpc hrpc

/-- **Snapshots are queued for known functions.** In every run whose handlers
keep to `Ok`, no handler queues a snapshot of a function that is unknown. -/
theorem no_unknown_snapshotTask (h : Reach next Start Ok x) (hok : x.Ok c) :
    (x.sched.call c).panic? ≠ some .snapshotTaskFuncMissing := by
  have hx : Settled x.sched x.starts := by
    refine h.invariant (I := fun x => Settled x.sched x.starts) (fun x hx => ?_)
      fun x c y hx hok hnext => settled_next hx hok hnext
    have hfuncs : ∀ f, x.sched.books.funcs f = none := by
      intro f
      show x.sched.funcs[f]?.map FuncStatus.func = none
      rw [hx.funcs]
      simp
    refine ⟨fun f func hf => ?_, fun f hf => ?_, fun rpc hrpc => ?_, fun rpc hrpc => ?_⟩
    · rw [hfuncs] at hf
      cases hf
    · obtain ⟨task, htask, -⟩ := mem_added.mp hf
      rw [hx.taskQueue, hx.delayedTasks] at htask
      cases htask
    · rw [hx.starts] at hrpc
      cases hrpc
    · replace hrpc : rpc ∈ x.sched.out.filterMap Effect.creates := hrpc
      rw [hx.out] at hrpc
      cases hrpc
  exact fun hp => wp_panic (settled_call hx hok) hp rfl

theorem next_after {l : List Call} {starts : List StartRpc} (h : (calls {} (l ++ [c])).isSome) :
    (⟨after l, starts⟩ : Tasking).next c = some ⟨after (l ++ [c]),
      (⟨after l, starts⟩ : Tasking).left c.2 ++ (after (l ++ [c])).books.created⟩ := by
  unfold next
  rw [Inferx.next_after h]
  rfl

theorem start_new : Start { sched := {} } := ⟨rfl, rfl, rfl, rfl, rfl⟩

end Tasking

namespace Sample

/-- A pod that makes a snapshot of the function. -/
def snapshotPod (state : PodState) : FuncPod := { pod "1" state with createType := .snapshot }

/-- The node and the function arrive, and a snapshot pod is reported. -/
def snapshoting : List Call :=
  [event (.nodeAdded node), event (.funcAdded func), event (.podAdded (snapshotPod .loading))]

end Sample

/-- A snapshot pod fails while its function is known. -/
theorem snapshotPod_fails_quietly :
    ((after Sample.snapshoting).call
      (Sample.event (.podDeleted (Sample.snapshotPod .failed)))).panic? ≠
        some .snapshotTaskFuncMissing := by
  have hreach : ∃ starts, Reach Tasking.next Tasking.Start Tasking.Ok
      ⟨after Sample.snapshoting, starts⟩ := by
    refine ⟨_, .step (c := Sample.event (.podAdded (Sample.snapshotPod .loading)))
      (.step (c := Sample.event (.funcAdded Sample.func))
        (.step (c := Sample.event (.nodeAdded Sample.node)) (.init Tasking.start_new) ?_
          (Tasking.next_after (l := []) ?_)) ⟨trivial, trivial⟩
        (Tasking.next_after (l := [_]) ?_)) ?_ (Tasking.next_after (l := [_, _]) ?_)⟩
    · exact ⟨fun hnew => absurd hnew (by decide +kernel), trivial⟩
    · decide +kernel
    · decide +kernel
    · exact ⟨fun hnew => absurd hnew (by decide +kernel), trivial⟩
    · decide +kernel
  obtain ⟨starts, hreach⟩ := hreach
  have hknown : (after Sample.snapshoting).Knows (Sample.snapshotPod .failed).funcKey := by
    show (_ : Bool) = true
    decide +kernel
  exact Tasking.no_unknown_snapshotTask hreach ⟨fun _ => hknown, trivial⟩

/-- A function is deleted while a pod makes a snapshot of it, and the pod then
fails. -/
theorem snapshotPod_fails_after_function : ¬ ∀ (l : List Call) (s : SchedulerHandler) (c : Call),
    calls {} l = some s → (s.call c).panic? ≠ some .snapshotTaskFuncMissing := by
  intro h
  refine h (Sample.snapshoting ++ [Sample.event (.funcDeleted Sample.func)]) _
    (Sample.event (.podDeleted (Sample.snapshotPod .failed)))
    (calls_eq_after (by decide +kernel)) ?_
  decide +kernel

end Inferx
