import Inferx.Scheduler.Releasing
import Inferx.Scheduler.SnapshotTasks

/-!
# Snapshot marks and what backs them

A mark in `pendingsnapshots` keeps the scheduler from starting a second snapshot of a function
on a node. It should rest on a tracked snapshot pod or on a reservation, so that it goes when
they do. The handlers keep it so as long as none of them lets go of the last thing a mark rests
on without lifting the mark.
-/

namespace Inferx

open Proc SchedulerHandler

/-! ## What a handler lets go -/

/-- The reservations that a handler may end. -/
def Handler.Ends (s : SchedulerHandler) : Handler → String → String → Prop
  | .msg (.cleanupDuplicateSnapshot rpc), n, k => n = rpc.nodename ∧ k = rpc.podkey
  | .msg (.resumeWorkerComplete rpc result), n, k => Undoes result ∧ n = rpc.nodename ∧ k = rpc.podKey
  | .msg (.startWorkerComplete rpc result), n, k => Undoes result ∧ n = rpc.nodename ∧ k = rpc.podkey
  | .event (.nodeAdded node), n, _ => NewEpoch s node.name node.nodeEpoch ∧ n = node.name
  | .event (.nodeModified node), n, _ => Restarted s node ∧ n = node.name
  | .event (.nodeDeleted node), n, _ => (s.nodes[node.name]?).isSome ∧ n = node.name
  | .event (.podAdded pod), n, k =>
    NewEpoch s pod.nodename pod.srcEpoch ∧ n = pod.nodename ∨ n = pod.nodename ∧ k = pod.podKey
  -- the reservation of a resume ends when the pod is ready
  | .event (.podModified pod), n, k => n = pod.nodename ∧ k = pod.podKey ∧ pod.state = .ready ∧
    ∃ w, s.pods[k]? = some w ∧ w.pod.state = .resuming
  | .event (.podDeleted pod), n, k => n = pod.nodename ∧ k = pod.podKey
  | .event (.snapshotAdded snapshot), n, _ =>
    NewEpoch s snapshot.object.nodename snapshot.srcEpoch ∧ n = snapshot.object.nodename
  | _, _, _ => False

/-- The marks that a handler lifts. -/
def Handler.Lifts (s : SchedulerHandler) : Handler → String → String → Prop
  | .msg (.cleanupDuplicateSnapshot rpc), f, n => f = rpc.funcid ∧ n = rpc.nodename
  | .msg (.startWorkerComplete rpc result), f, n =>
    Undoes result ∧ rpc.createType = .snapshot ∧ f = rpc.funcid ∧ n = rpc.nodename
  | .event (.nodeAdded node), _, n => NewEpoch s node.name node.nodeEpoch ∧ n = node.name
  | .event (.nodeModified node), _, n => Restarted s node ∧ n = node.name
  | .event (.nodeDeleted node), _, n => (s.nodes[node.name]?).isSome ∧ n = node.name
  | .event (.podAdded pod), _, n => NewEpoch s pod.nodename pod.srcEpoch ∧ n = pod.nodename
  -- a snapshot pod that has not finished
  | .event (.podDeleted pod), f, n => pod.Requeued ∧ f = pod.funcKey ∧ n = pod.nodename
  | .event (.snapshotAdded snapshot), _, n =>
    NewEpoch s snapshot.object.nodename snapshot.srcEpoch ∧ n = snapshot.object.nodename
  | _, _, _ => False

/-- The marks that a handler may make for a pod that is reported. -/
def Handler.Makes : Handler → String → String → Prop
  | .event (.podAdded pod), f, n =>
    pod.createType = .snapshot ∧ f = pod.funcKey ∧ n = pod.nodename
  | _, _, _ => False

/-- The functions that arrive have plain names. -/
def Handler.PlainFuncs : Handler → Prop
  | .event (.funcAdded func) => func.Plain
  | .event (.funcModified _ spec) => spec.Plain
  | _ => True

/-- First reservations end and marks are lifted, then some may be made. -/
def Released (h : Handler) (s t : SchedulerHandler) : Prop :=
  ∃ u, Thins (h.Ends s) h.Makes s u ∧
    (∀ f n, h.Lifts s f n → SnapshotPending u f n → h.Makes f n) ∧ Grown u t

section Release

variable {s t : SchedulerHandler} {h : Handler} {env : Env}

theorem Released.of_thins (ht : Thins (h.Ends s) h.Makes s t)
    (hlifts : ∀ f n, h.Lifts s f n → SnapshotPending t f n → h.Makes f n) : Released h s t :=
  ⟨t, ht, hlifts, .of_ledger rfl⟩

/-- A body that only thins, of a handler that lifts nothing. -/
theorem released_of_thinning {x : SchedM Unit} (hx : Thinning (h.Ends s) h.Makes x)
    (hlifts : ∀ f n, ¬ h.Lifts s f n) :
    x.wp (fun _ t => Released h s t) (fun _ t => Released h s t) (fun _ => True) s :=
  wp_mono (hx s) (fun _ _ ht => .of_thins ht fun f n h => absurd h (hlifts f n))
    (fun _ _ ht => .of_thins ht fun f n h => absurd h (hlifts f n)) fun _ h => h

/-- A body that thins first and grows then. -/
theorem released_bind {x : SchedM Unit} {y : Unit → SchedM Unit} (hx : Thinning (h.Ends s) h.Makes x)
    (hlifts : ∀ f n, ¬ h.Lifts s f n) (hy : Growing (y ())) :
    (x >>= y).wp (fun _ t => Released h s t) (fun _ t => Released h s t) (fun _ => True) s := by
  have hgrown : ∀ {u t}, Thins (h.Ends s) h.Makes s u → Grown u t → Released h s t := fun hu ht =>
    ⟨_, hu, fun f n h => absurd h (hlifts f n), ht⟩
  rw [wp_bind]
  refine wp_mono (hx s) (fun _ u hu => ?_) (fun _ _ hu => hgrown hu (.of_ledger rfl)) fun _ h => h
  exact wp_mono (hy u) (fun _ _ ht => hgrown hu ht) (fun _ _ ht => hgrown hu ht) fun _ h => h

/-- A body that starts with a check of the epoch. -/
theorem released_epoch {n : String} {epoch : ℤ} {x : Unit → SchedM Unit} (hs : s.index.Sound)
    (hpark : NewEpoch s n epoch → s.index.NodeArrivable n)
    (hends : ∀ k, NewEpoch s n epoch → h.Ends s n k)
    (hlifts : ∀ f m, h.Lifts s f m → NewEpoch s n epoch ∧ m = n)
    (hx : Thinning (h.Ends s) h.Makes (x ())) :
    (checkNodeEpoch env n epoch >>= x).wp (fun _ t => Released h s t) (fun _ t => Released h s t)
      (fun _ => True) s := by
  rw [wp_bind]
  refine wp_mono (checkNodeEpoch_thins (A := h.Makes) env n epoch hs hpark) (fun _ u hu => ?_)
    (fun _ _ h => h.elim) fun _ h => h
  have hchecked : Thins (h.Ends s) h.Makes s u := hu.1.mono
    (fun m k hm => by
      obtain ⟨hnew, rfl⟩ := hm
      exact hends k hnew) fun _ _ h => h
  have hend : ∀ t, Thins (h.Ends s) h.Makes u t → Released h s t := fun t ht =>
    .of_thins (IsTrans.trans _ _ _ hchecked ht) fun f m hl hmark => by
      obtain ⟨hnew, rfl⟩ := hlifts f m hl
      exact (ht.marks f _ hmark).resolve_left (hu.2 hnew f)
  exact wp_mono (hx u) (fun _ t ht => hend t ht) (fun _ t ht => hend t ht) fun _ h => h

theorem growing_startFunc (env : Env) (f : String) : Growing (startFunc env f) :=
  Moves.bind (growing_processAddFunc env f) fun _ => growing_addTask _

/-- **The events.** -/
theorem processEvent_released (env : Env) (e : DeltaEvent) (hs : s.index.Sound)
    (hok : (Handler.event e).IndexOk s) (hplain : (Handler.event e).PlainFuncs) :
    (processEvent env e).wp (fun _ t => Released (.event e) s t) (fun _ t => Released (.event e) s t)
      (fun _ => True) s := by
  cases e with
  | funcAdded func =>
    refine released_bind (thinning_addFunc hplain) (fun _ _ => id) (Moves.bind Moves.get fun t => ?_)
    split
    next => exact growing_startFunc env _
    next => exact Moves.pure ()
  | funcModified oldspec spec =>
    have hthin : Thinning ((Handler.event (.funcModified oldspec spec)).Ends s)
        (Handler.event (.funcModified oldspec spec)).Makes (do
          processRemoveFunc env oldspec
          removeFunc env oldspec
          addFunc spec) :=
      Moves.bind (thinning_processRemoveFunc env oldspec) fun _ =>
        Moves.bind (thinning_removeFunc env oldspec) fun _ => thinning_addFunc hplain
    have hgrow : Growing (do
        let t ← get
        if t.listDone then startFunc env spec.id else return ()) := by
      refine Moves.bind Moves.get fun t => ?_
      split
      next => exact growing_startFunc env _
      next => exact Moves.pure ()
    have hall := released_bind (y := fun _ => do
      let t ← get
      if t.listDone then startFunc env spec.id else return ()) hthin (fun _ _ => id) hgrow
    simp only [wp_bind] at hall
    simp only [processEvent, wp_bind]
    exact hall
  | funcDeleted spec =>
    exact released_of_thinning (Moves.bind (thinning_processRemoveFunc env spec) fun _ =>
      thinning_removeFunc env spec) fun _ _ => id
  | nodeAdded node =>
    exact released_epoch hs (fun _ => hok.2) (fun _ hnew => ⟨hnew, rfl⟩) (fun _ _ h => h)
      (Moves.bind (thinning_addPeer node) fun _ => thinning_addNode env node)
  | nodeModified node =>
    refine wp_mono (processNodeModified_thins node s)
      (fun _ t ht => .of_thins ht.1 fun f n hlifts hmark => ?_)
      (fun _ t ht => .of_thins ht.1 fun f n hlifts _ => absurd hlifts.1 ht.2) fun _ h => h
    obtain ⟨hr, rfl⟩ := hlifts
    exact absurd hmark (ht.2 hr f)
  | nodeDeleted node =>
    have hpeer : (removePeer node).wp (fun _ u => u.register = s.register ∧ u.nodes = s.nodes)
        (fun _ _ => False) (fun _ => True) s := by
      simp only [removePeer]
      rw [wp_bind, wp_get]
      split
      next => exact ⟨rfl, rfl⟩
      next => trivial
    simp only [processEvent]
    rw [wp_bind]
    refine wp_mono hpeer (fun _ u hu => ?_) (fun _ _ h => h.elim) fun _ h => h
    have hstart : Thins ((Handler.event (.nodeDeleted node)).Ends s)
        (Handler.event (.nodeDeleted node)).Makes s u := .of_register hu.1
    refine wp_mono (removeNode_thins (A := fun _ _ => False) node u) (fun _ t ht => ?_) (fun _ t ht => ?_)
      fun _ h => h
    · rw [hu.2] at ht
      refine .of_thins (IsTrans.trans _ _ _ hstart (ht.2.1.mono (fun m _ hm => ⟨ht.1, hm⟩)
        fun _ _ h => h.elim)) fun f n hlifts hmark => ?_
      obtain ⟨-, rfl⟩ := hlifts
      exact absurd hmark (ht.2.2 f)
    · rw [hu.2] at ht
      rw [ht.2]
      refine .of_thins hstart fun f n hlifts _ => ?_
      have hknown := hlifts.1
      rw [ht.1] at hknown
      cases hknown
  | podAdded pod =>
    exact released_epoch hs hok.2 (fun _ hnew => Or.inl ⟨hnew, rfl⟩) (fun _ _ h => h)
      (thinning_addPod env (Or.inr ⟨rfl, rfl⟩) fun htype => ⟨htype, rfl, rfl⟩)
  | podModified pod =>
    exact wp_mono (updatePod_thins env fun w hw hstate hready => ⟨rfl, rfl, hready, w, hw, hstate⟩)
      (fun _ _ ht => .of_thins ht fun _ _ h => h.elim) (fun _ _ ht => .of_thins ht fun _ _ h => h.elim)
      fun _ h => h
  | podDeleted pod =>
    have hend : ∀ t, (Thins ((Handler.event (.podDeleted pod)).Ends s) (fun _ _ => False) s t ∧
        (pod.Requeued → ¬ SnapshotPending t pod.funcKey pod.nodename)) →
        Released (.event (.podDeleted pod)) s t := fun t ht =>
      .of_thins ht.1 fun f n hlifts hmark => by
        obtain ⟨hpod, rfl, rfl⟩ := hlifts
        exact ht.2 hpod hmark
    exact wp_mono (removePod_thins env ⟨rfl, rfl⟩ s) (fun _ t ht => hend t ht)
      (fun _ t ht => hend t ht) fun _ h => h
  | snapshotAdded snapshot =>
    exact released_epoch hs hok.2 (fun _ hnew => ⟨hnew, rfl⟩) (fun _ _ h => h)
      (thinning_addSnapshot env snapshot)
  | snapshotModified snapshot =>
    exact released_of_thinning (thinning_updateSnapshot env snapshot) fun _ _ => id
  | initDone listType => exact released_of_thinning (thinning_listDone env listType) fun _ _ => id
  | _ => exact released_of_thinning (Thinning.modify fun _ => rfl) fun _ _ => id

/-- The answers. -/
theorem released_of_answer {x : SchedM Unit} {P : SchedulerHandler → Prop}
    (hx : x.wp (fun _ t => Thins (h.Ends s) (fun _ _ => False) s t ∧ P t)
      (fun _ t => Thins (h.Ends s) (fun _ _ => False) s t ∧ P t) (fun _ => True) s)
    (hlifts : ∀ f n t, P t → h.Lifts s f n → ¬ SnapshotPending t f n) :
    x.wp (fun _ t => Released h s t) (fun _ t => Released h s t) (fun _ => True) s := by
  have hend : ∀ t, Thins (h.Ends s) (fun _ _ => False) s t ∧ P t → Released h s t := fun t ht =>
    .of_thins (ht.1.mono (fun _ _ h => h) fun _ _ h => h.elim) fun f n hl hmark =>
      absurd hmark (hlifts f n t ht.2 hl)
  exact wp_mono hx (fun _ t ht => hend t ht) (fun _ t ht => hend t ht) fun _ h => h

/-- **One call.** -/
theorem run_released (env : Env) (h : Handler) (hs : s.index.Sound) (hok : h.IndexOk s)
    (hplain : h.PlainFuncs) :
    (h.run env).wp (fun _ t => Released h s t) (fun _ t => Released h s t) (fun _ => True) s := by
  have hgrown : ∀ h : Handler, h.Forgetless → (∀ f n, ¬ h.Lifts s f n) →
      (h.run env).wp (fun _ t => Released h s t) (fun _ t => Released h s t) (fun _ => True) s :=
    fun h hh hlifts => wp_mono (growing_run env h hh s)
      (fun _ t ht => ⟨s, .of_register rfl, fun f n hl => absurd hl (hlifts f n), ht⟩)
      (fun _ t ht => ⟨s, .of_register rfl, fun f n hl => absurd hl (hlifts f n), ht⟩) fun _ h => h
  cases h with
  | event e => exact processEvent_released env e hs hok hplain
  | msg m =>
    cases m with
    | cleanupDuplicateSnapshot rpc =>
      refine released_of_answer (processCleanupDuplicateSnapshot_thins rpc ⟨rfl, rfl⟩ s) ?_
      rintro f n t ht ⟨rfl, rfl⟩
      exact ht
    | resumeWorkerComplete rpc result =>
      exact released_of_thinning (thinning_processResumeWorkerComplete env rpc result
        fun h => ⟨h, rfl, rfl⟩) fun _ _ => id
    | startWorkerComplete rpc result =>
      refine released_of_answer (processStartWorkerComplete_thins env rpc result
        (fun h => ⟨h, rfl, rfl⟩) s) ?_
      rintro f n t ht ⟨hundoes, htype, rfl, rfl⟩
      exact ht hundoes htype
    | _ => exact hgrown _ trivial fun _ _ => id
  | _ => exact hgrown _ trivial fun _ _ => id

end Release

/-! ## The pods -/

/-- The act changes the pod of a slot, or drops it. -/
def Act.Replaces : Act → Prop
  | .rebuilt _ | .granted _ _ _ | .settled _ | .removed | .dropped => True
  | _ => False

theorem Slot.Step.entry_pod {act : Act} {a b : Slot} (h : Slot.Step act a b) (hact : ¬ act.Replaces)
    {pod : FuncPod} {c : WorkerCell} (ha : a.entry = some (pod, c)) : ∃ c, b.entry = some (pod, c) := by
  cases h with
  | rebuilt => exact absurd trivial hact
  | granted => exact absurd trivial hact
  | settled => exact absurd trivial hact
  | removed => exact absurd trivial hact
  | dropped => exact absurd trivial hact
  | dropMissing => cases ha
  | added => cases ha
  | relist => exact ⟨c, ha⟩
  | _ =>
    obtain ⟨rfl, rfl⟩ := Prod.mk.inj (Option.some.inj ha)
    exact ⟨_, rfl⟩

/-- The tracked pods that a handler may drop, or change. -/
def Handler.Untracks (s : SchedulerHandler) : Handler → String → FuncPod → Prop
  | .event (.nodeAdded node), _, p => NewEpoch s node.name node.nodeEpoch ∧ p.nodename = node.name
  | .event (.nodeModified node), _, p => Restarted s node ∧ p.nodename = node.name
  | .event (.podAdded pod), _, p =>
    NewEpoch s pod.nodename pod.srcEpoch ∧ p.nodename = pod.nodename
  | .event (.podModified pod), k, _ => k = pod.podKey
  | .event (.podDeleted pod), k, _ => k = pod.podKey
  | .event (.snapshotAdded snapshot), _, p =>
    NewEpoch s snapshot.object.nodename snapshot.srcEpoch ∧ p.nodename = snapshot.object.nodename
  | _, _, _ => False

theorem MakesRoom.not_replaces {act : Act} (h : MakesRoom act) : ¬ act.Replaces := by
  rcases h with rfl | rfl
  · exact id
  · exact id

theorem Prewarms.not_replaces {act : Act} (h : Prewarms act) : ¬ act.Replaces := by
  rcases h with h | rfl
  · exact h.not_replaces
  · exact id

/-- Other pods stay what they are. -/
theorem Handler.acts_not_replaces {env : Env} {s : SchedulerHandler} {h : Handler} {k : String}
    {w : WorkerPod} (hw : s.pods[k]? = some w) (hstays : ¬ h.Untracks s k w.pod) {act : Act}
    (hact : h.acts env s k act) : ¬ act.Replaces := by
  have hnode : ∀ {n : String}, (∃ v, s.pods[k]? = some v ∧ v.pod.nodename = n) → w.pod.nodename = n := by
    rintro n ⟨v, hv, hn⟩
    rw [Option.some.inj (hw.symm.trans hv)]
    exact hn
  cases h with
  | msg m =>
    cases m with
    | connectScheduler req tx =>
      rcases hact with h | ⟨rfl, -⟩
      · exact h.not_replaces
      · exact id
    | leaseWorker req tx =>
      rcases hact with h | rfl | ⟨rfl, -⟩
      · exact h.not_replaces
      · exact id
      · exact id
    | returnWorker req tx =>
      rw [hact.2]
      split
      next => exact id
      next => exact id
    | killPod req tx =>
      obtain ⟨-, v, -, ⟨rfl, -⟩ | ⟨rfl, -⟩ | ⟨rfl, -⟩⟩ := hact
      · exact id
      · exact id
      · exact id
    | cleanupDuplicateSnapshot rpc =>
      rw [hact.1]
      exact id
    | resumeWorkerComplete rpc result =>
      obtain ⟨-, ⟨-, rfl⟩ | ⟨rfl, -⟩⟩ := hact
      · exact id
      · exact id
    | startWorkerComplete rpc result =>
      rw [hact.2.1]
      exact id
    | _ => exact hact.elim
  | event e =>
    cases e with
    | funcAdded func => exact Prewarms.not_replaces hact
    | funcModified oldspec spec =>
      rcases hact with h | ⟨rfl, -⟩
      · exact h.not_replaces
      · exact id
    | funcDeleted spec =>
      rw [hact.1]
      exact id
    | nodeAdded node => exact absurd ⟨hact.1, hnode hact.2.2⟩ hstays
    | nodeModified node => exact absurd ⟨hact.1, hnode hact.2.2⟩ hstays
    | podAdded pod =>
      rcases hact with hact | ⟨-, rfl⟩
      · exact absurd ⟨hact.1, hnode hact.2.2⟩ hstays
      · exact id
    | podModified pod => exact absurd hact.1 hstays
    | podDeleted pod => exact absurd hact.1 hstays
    | snapshotAdded snapshot => exact absurd ⟨hact.1, hnode hact.2.2⟩ hstays
    | _ => exact hact.elim
  | task => exact MakesRoom.not_replaces hact
  | warmup => exact Prewarms.not_replaces hact
  | refresh => exact Prewarms.not_replaces hact
  | cleanPods =>
    rw [hact.1]
    exact id
  | gatewayTimeout =>
    obtain ⟨g, -, rfl⟩ := hact
    exact id
  | _ => exact hact.elim

/-- The pod of a report that is taken in. -/
def Handler.reported : Handler → Option FuncPod
  | .event (.podAdded pod) => some pod
  | .event (.podModified pod) => some pod
  | _ => none

section Pods

variable {s t : SchedulerHandler} {c : Call} {k : String} {w : WorkerPod} {pod : FuncPod}

/-- A pod that is not let go stays tracked. -/
theorem pods_kept (hs : s.index.Sound) (hok : c.2.IndexOk s) (h : s.next c = some t)
    (hw : s.pods[k]? = some w) (hstays : ¬ c.2.Untracks s k w.pod) :
    ∃ v, t.pods[k]? = some v ∧ v.pod = w.pod := by
  have hkept := (next_path hs hok h k).invariant (I := fun a => ∃ x, a.entry = some (w.pod, x))
    (fun act a b hact hstep ha => by
      obtain ⟨x, hx⟩ := ha
      exact hstep.entry_pod (Handler.acts_not_replaces hw hstays hact) hx)
    ⟨_, by rw [slot_of_tracked hw]⟩
  obtain ⟨x, hx⟩ := hkept
  obtain ⟨v, hv, heq⟩ := Option.map_eq_some_iff.mp hx
  exact ⟨v, hv, (Prod.mk.inj heq).1⟩

/-- The pod of a report is tracked. -/
theorem reported_tracked (hs : s.index.Sound) (hok : c.2.IndexOk s) (h : s.next c = some t)
    (hreported : c.2.reported = some pod) : ∃ v, t.pods[pod.podKey]? = some v ∧ v.pod = pod := by
  have htrack : ∀ {u : SchedulerHandler}, t.index = u.index.track (u.nextPod pod) →
      ∃ v, t.pods[pod.podKey]? = some v ∧ v.pod = pod := fun {u} hindex => by
    refine ⟨u.nextPod pod, ?_, rfl⟩
    rw [show t.pods = u.pods.insert pod.podKey (u.nextPod pod) from congrArg PodIndex.pods hindex]
    exact BTreeMap.get_insert_self ..
  obtain ⟨env, hd⟩ := c
  cases hd with
  | event e =>
    cases e with
    | podAdded new =>
      obtain rfl := Option.some.inj hreported
      have hrun : (processEvent env (.podAdded new)).wp
          (fun _ t => ∃ u : SchedulerHandler, t.index = u.index.track (u.nextPod new))
          (fun _ t => ∃ u : SchedulerHandler, t.index = u.index.track (u.nextPod new)) (fun _ => True)
          { s with out := [] } := by
        simp only [processEvent]
        rw [wp_bind]
        refine wp_mono (checkNodeEpoch_spec env new.nodename new.srcEpoch (s := { s with out := [] }) hs
          hok.2) (fun _ u hu => ?_) (fun _ _ h => h.elim) fun _ _ => trivial
        have hkeyed : u.index.Keyed := by
          rcases hu with ⟨-, hlife⟩ | ⟨-, hempty⟩
          · rw [index_of_life hlife]
            exact hs.toKeyed
          · exact hempty.sound.toKeyed
        exact wp_mono (addPod_spec env new hkeyed) (fun _ v hv => ⟨u, (life_eq.mp hv.2).1⟩)
          (fun _ _ h => h.elim) fun _ _ => trivial
      obtain ⟨u, hu⟩ := wp_state hrun h
      exact htrack hu
    | podModified new =>
      obtain rfl := Option.some.inj hreported
      exact htrack (wp_state (updatePod_spec env new (s := { s with out := [] }) hs.toKeyed) h).index
    | _ => cases hreported
  | _ => cases hreported

end Pods

/-! ## The marks -/

/-- The pod makes a snapshot of the function on the node. -/
def FuncPod.Backs (pod : FuncPod) (f n : String) : Prop :=
  pod.createType = .snapshot ∧ pod.funcKey = f ∧ pod.nodename = n

namespace SchedulerHandler

/-- A tracked snapshot pod of the function on the node with `P`, or a reservation of the node
for the function with `Q`. -/
def BackedBy (s : SchedulerHandler) (P : String → FuncPod → Prop) (Q : String → Prop) (f n : String) :
    Prop :=
  (∃ (k : String) (w : WorkerPod), s.pods[k]? = some w ∧ w.pod.Backs f n ∧ P k w.pod) ∨
    ∃ k p, s.pendingAt n k = some p ∧ p.funcId = f ∧ Q k

/-- Every mark rests on a tracked snapshot pod or on a reservation. -/
def MarksBacked (s : SchedulerHandler) : Prop :=
  ∀ f n, SnapshotPending s f n →
    (∃ (k : String) (w : WorkerPod), s.pods[k]? = some w ∧ w.pod.Backs f n) ∨
      ∃ k p, s.pendingAt n k = some p ∧ p.funcId = f

theorem marksBacked_iff {s : SchedulerHandler} : s.MarksBacked ↔
    ∀ f n, SnapshotPending s f n → s.BackedBy (fun _ _ => True) (fun _ => True) f n := by
  simp only [MarksBacked, BackedBy, and_true]

end SchedulerHandler

/-- The handler lets go of something that backs a mark. -/
def Handler.Uncovers (s : SchedulerHandler) (h : Handler) (f n : String) : Prop :=
  s.BackedBy (h.Untracks s) (h.Ends s n) f n

/-- Something else backs it, or the pod that is reported does. -/
def Handler.Covers (s : SchedulerHandler) (h : Handler) (f n : String) : Prop :=
  s.BackedBy (fun k p => ¬ h.Untracks s k p) (fun k => ¬ h.Ends s n k) f n ∨
    ∃ pod, h.reported = some pod ∧ pod.Backs f n

/-- The handler does not let go of the last thing a mark rests on, unless it lifts the mark. -/
def MarksOk (s : SchedulerHandler) (c : Call) : Prop :=
  c.2.IndexOk s ∧ c.2.PlainFuncs ∧ ∀ f n, SnapshotPending s f n → ¬ c.2.Lifts s f n →
    c.2.Uncovers s f n → c.2.Covers s f n

/-- What a run keeps. -/
structure MarksInv (s : SchedulerHandler) : Prop where
  /-- the index is sound -/
  sound : s.index.Sound
  /-- the functions are known under their names -/
  funcs : s.FuncsOk
  /-- a reservation has the key of a pod of its function -/
  keyed : ∀ n k p, s.pendingAt n k = some p → KeyOf k p.funcId ∧ PlainKey p.funcId
  /-- the marks are backed -/
  backed : ∀ f n, SnapshotPending s f n → s.BackedBy (fun _ _ => True) (fun _ => True) f n

/-- A scheduler that has just started. -/
structure Unmarked (s : SchedulerHandler) : Prop where
  /-- nothing is known -/
  fresh : Fresh s
  /-- nothing is marked -/
  marks : s.pendingsnapshots = ∅

section Marks

variable {s t u : SchedulerHandler} {c : Call} {f n : String}

/-- What has been sent before does not matter. -/
theorem Released.of_quiet {h : Handler} (ht : Released h { s with out := [] } t) : Released h s t := by
  have hends : h.Ends { s with out := [] } = h.Ends s := by
    cases h with
    | msg m => cases m <;> rfl
    | event e => cases e <;> rfl
    | _ => rfl
  have hlifts : h.Lifts { s with out := [] } = h.Lifts s := by
    cases h with
    | msg m => cases m <;> rfl
    | event e => cases e <;> rfl
    | _ => rfl
  have hstart : Thins (h.Ends s) h.Makes s { s with out := [] } := .of_register rfl
  rw [Released, hends, hlifts] at ht
  obtain ⟨u, hthin, hgone, hgrown⟩ := ht
  exact ⟨u, IsTrans.trans _ _ _ hstart hthin, hgone, hgrown⟩

theorem next_released (hs : s.index.Sound) (hok : c.2.IndexOk s) (hplain : c.2.PlainFuncs)
    (h : s.next c = some t) : Released c.2 s t :=
  .of_quiet (wp_state (run_released c.1 c.2 (s := { s with out := [] }) hs hok hplain) h)

theorem Unmarked.inv (h : Unmarked s) : MarksInv s where
  sound := h.fresh.sound
  funcs f fs hfs := by
    rw [h.fresh.funcs] at hfs
    simp at hfs
  keyed n k p hp := by
    simp [pendingAt, h.fresh.nodes] at hp
  backed f n hmark := by
    obtain ⟨nodes, hnodes, -⟩ := hmark
    rw [h.marks] at hnodes
    simp at hnodes

/-- What backed a mark before and is not let go backs it still. -/
theorem MarksInv.covered (hs : MarksInv s) (hok : c.2.IndexOk s) (h : s.next c = some t)
    (hthin : Thins (c.2.Ends s) c.2.Makes s u) (hgrows : Grows u t) (hcovers : c.2.Covers s f n) :
    t.BackedBy (fun _ _ => True) (fun _ => True) f n := by
  rcases hcovers with (⟨k, w, hw, hbacks, hstays⟩ | ⟨k, p, hp, hf, hstays⟩) | ⟨pod, hreported, hbacks⟩
  · obtain ⟨v, hv, hpod⟩ := pods_kept hs.sound hok h hw hstays
    exact Or.inl ⟨k, v, hv, hpod ▸ hbacks, trivial⟩
  · have hpu := (hthin.kept n k p hp).resolve_right hstays
    obtain ⟨q, hq⟩ := Option.isSome_iff_exists.mp (hgrows.kept n k (by rw [hpu]; rfl))
    refine Or.inr ⟨k, q, hq, ?_, trivial⟩
    rcases hgrows.new n k q hq with hsame | ⟨hkey, hplain⟩
    · rw [Option.some.inj (hsame.symm.trans hpu), hf]
    · -- a reservation that took its place is for the same function
      obtain ⟨hkey', hplain'⟩ := hs.keyed n k p hp
      rw [hkey.unique hkey' hplain hplain', hf]
  · obtain ⟨v, hv, hpod⟩ := reported_tracked hs.sound hok h hreported
    exact Or.inl ⟨pod.podKey, v, hv, hpod ▸ hbacks, trivial⟩

/-- **The step.** -/
theorem MarksInv.next (hs : MarksInv s) (hok : MarksOk s c) (h : s.next c = some t) : MarksInv t := by
  obtain ⟨hindex, hplain, hcovers⟩ := hok
  obtain ⟨u, hthin, hlifts, hgrown⟩ := next_released hs.sound hindex hplain h
  have hfuncs := hthin.funcsOk hs.funcs
  have hgrows := hgrown hfuncs
  have hmakes : ∀ f n, c.2.Makes f n → c.2.Covers s f n := by
    intro f n hmakes
    obtain ⟨env, hd⟩ := c
    cases hd with
    | event e =>
      cases e with
      | podAdded pod => exact Or.inr ⟨pod, rfl, hmakes.1, hmakes.2.1.symm, hmakes.2.2.symm⟩
      | _ => exact hmakes.elim
    | _ => exact hmakes.elim
  refine ⟨next_sound hs.sound hindex h, hfuncs.congr hgrows.funcs, fun n k p hp => ?_, fun f n hmark => ?_⟩
  · exact (hgrows.new n k p hp).elim (fun hp => hs.keyed n k p (hthin.sub n k p hp)) id
  · rcases hgrows.marks f n hmark with hmark | ⟨k, p, hp, hf, -⟩
    · refine hs.covered hindex h hthin hgrows ?_
      by_cases hnew : c.2.Makes f n
      · exact hmakes f n hnew
      · have hold := (hthin.marks f n hmark).resolve_right hnew
        have hlifted : ¬ c.2.Lifts s f n := fun hl => hnew (hlifts f n hl hmark)
        by_cases huncovers : c.2.Uncovers s f n
        · exact hcovers f n hold hlifted huncovers
        · -- what backs the mark is not let go
          refine Or.inl ?_
          rcases hs.backed f n hold with ⟨k, w, hw, hbacks, -⟩ | ⟨k, p, hp, hf, -⟩
          · exact Or.inl ⟨k, w, hw, hbacks, fun h => huncovers (Or.inl ⟨k, w, hw, hbacks, h⟩)⟩
          · exact Or.inr ⟨k, p, hp, hf, fun h => huncovers (Or.inr ⟨k, p, hp, hf, h⟩)⟩
    · exact Or.inr ⟨k, p, hp, hf, trivial⟩

/-- **No mark is left over** in every run whose calls let go of the last thing a mark rests on
only when they lift the mark. -/
theorem marksBacked_of_reach (h : Reach next Unmarked MarksOk s) : s.MarksBacked := by
  have hinv : MarksInv s :=
    h.invariant (I := MarksInv) (fun _ hs => hs.inv) fun _ _ _ hs hok hnext => hs.next hok hnext
  exact marksBacked_iff.mpr hinv.backed

end Marks

namespace Sample

/-- The snapshot pod is deleted. -/
def snapshotPodDeleted (state : PodState) : List Call :=
  snapshoting ++ [event (.podDeleted (snapshotPod state))]

end Sample

/-- The mark of a snapshot pod that is at work. -/
theorem marksBacked_after_snapshotPod :
    SnapshotPending (after Sample.snapshoting) "t/s/f/1" "n" ∧ (after Sample.snapshoting).MarksBacked := by
  have hnone : ∀ {s : SchedulerHandler} {f n : String}, s.pendingsnapshots.isEmpty = true →
      ¬ SnapshotPending s f n := fun hempty hmark => by
    obtain ⟨nodes, hnodes, -⟩ := hmark
    rw [get_of_isEmpty hempty] at hnodes
    cases hnodes
  have hmark : ((after Sample.snapshoting).pendingsnapshots["t/s/f/1"]?.any (· = {"n"})) = true := by
    decide +kernel
  refine ⟨?_, marksBacked_of_reach ?_⟩
  · obtain ⟨nodes, hnodes, hmem⟩ := (Option.any_eq_true _ _).mp hmark
    refine ⟨nodes, hnodes, ?_⟩
    rw [of_decide_eq_true hmem]
    exact Finset.mem_singleton_self _
  · have h₁ : Reach next Unmarked MarksOk (after [Sample.event (.nodeAdded Sample.node)]) := by
      refine .step (c := Sample.event (.nodeAdded Sample.node)) (.init ⟨fresh_new, rfl⟩)
        ⟨⟨trivial, ?_⟩, trivial, fun f n hmark => absurd hmark (hnone (by decide +kernel))⟩
        (next_after (l := []) (by decide +kernel))
      show PodIndex.NodeArrivable _ _
      decide +kernel
    have h₂ : Reach next Unmarked MarksOk (after [Sample.event (.nodeAdded Sample.node),
        Sample.event (.funcAdded Sample.func)]) := by
      refine .step (c := Sample.event (.funcAdded Sample.func)) h₁
        ⟨⟨trivial, ?_⟩, ⟨by decide, by decide, by decide⟩,
          fun f n hmark => absurd hmark (hnone (by decide +kernel))⟩
        (next_after (l := [_]) (by decide +kernel))
      show PodIndex.FuncArrivable _ _
      decide +kernel
    refine .step (c := Sample.event (.podAdded (Sample.snapshotPod .loading))) h₂
      ⟨⟨trivial, fun hnew => ?_⟩, trivial, fun f n hmark => absurd hmark (hnone (by decide +kernel))⟩
      (next_after (l := [_, _]) (by decide +kernel))
    exact absurd hnew (by decide +kernel)

/-- A snapshot pod that is stopped before it has made the snapshot leaves its mark. -/
theorem stopped_snapshotPod_leaves_mark :
    ¬ ∀ (l : List Call) (s : SchedulerHandler), calls {} l = some s → s.MarksBacked := by
  intro h
  have hbacked := h (Sample.snapshotPodDeleted .terminated) _ (calls_eq_after (by decide +kernel))
  generalize hs : after (Sample.snapshotPodDeleted .terminated) = s at hbacked
  have hmark : (s.pendingsnapshots["t/s/f/1"]?.any (· = {"n"})) = true := by
    rw [← hs]
    decide +kernel
  have hpods : s.pods.isEmpty = true := by
    rw [← hs]
    decide +kernel
  have hpending : (s.nodes["n"]?.all (·.pendingPods.isEmpty)) = true := by
    rw [← hs]
    decide +kernel
  obtain ⟨nodes, hnodes, hmem⟩ := (Option.any_eq_true _ _).mp hmark
  have hmarked : SnapshotPending s "t/s/f/1" "n" := by
    refine ⟨nodes, hnodes, ?_⟩
    rw [of_decide_eq_true hmem]
    exact Finset.mem_singleton_self _
  rcases hbacked "t/s/f/1" "n" hmarked with ⟨k, w, hw, -⟩ | ⟨k, p, hp, -⟩
  · rw [get_of_isEmpty hpods] at hw
    cases hw
  · obtain ⟨ns, hns, hp⟩ := Option.bind_eq_some_iff.mp hp
    rw [hns, Option.all_some] at hpending
    rw [get_of_isEmpty hpending] at hp
    cases hp

end Inferx
