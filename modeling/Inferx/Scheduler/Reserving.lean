import Inferx.Scheduler.Rollback
import Inferx.Scheduler.SnapshotRemoval

/-!
# Reservations and snapshot marks

A mark in `pendingsnapshots` says that a snapshot of a function is being made on
a node. It rests on a tracked snapshot pod, or on a reservation that the node
holds for the function. Most procedures change neither the tracked pods nor a
mark, and only add reservations: `Grown` says this of two states.

A reservation is held under the key of its pod. A new one may take the place of
an old one with the same key, and is then for the same function, because the key
of a pod starts with the key of its function. This rests on the names of the
functions: a tenant, a namespace or a name with a slash in it could make two
functions share a key.
-/

namespace Inferx

open Proc SchedulerHandler

/-! ## Keys -/

/-- The key is one of a pod of the function. -/
def KeyOf (k f : String) : Prop := ∃ u : List Char, k.toList = f.toList ++ '/' :: u

/-- The function's names have no slash in them. -/
structure Function.Plain (func : Function) : Prop where
  /-- the tenant -/
  tenant : '/' ∉ func.tenant.toList
  /-- the namespace -/
  nameSpace : '/' ∉ func.nameSpace.toList
  /-- the name -/
  name : '/' ∉ func.name.toList

/-- The key of a function with plain names. -/
def PlainKey (f : String) : Prop := ∃ func : Function, func.Plain ∧ func.id = f

theorem toList_id (func : Function) : func.id.toList = func.tenant.toList ++ '/' ::
    (func.nameSpace.toList ++ '/' :: (func.name.toList ++ '/' :: (toString func.version).toList)) := by
  simp [Function.id, funcObjectKey]
  rfl

theorem keyOf_funcPodKey (func : Function) (id : String) :
    KeyOf (funcPodKey func.tenant func.nameSpace func.name func.version id) func.id := by
  refine ⟨id.toList, ?_⟩
  rw [toList_id]
  simp [funcPodKey]
  rfl

/-- A key belongs to one function only. -/
theorem KeyOf.unique {k f f' : String} (h : KeyOf k f) (h' : KeyOf k f') (hf : PlainKey f)
    (hf' : PlainKey f') : f = f' := by
  obtain ⟨u, hu⟩ := h
  obtain ⟨u', hu'⟩ := h'
  obtain ⟨func, hplain, rfl⟩ := hf
  obtain ⟨func', hplain', rfl⟩ := hf'
  have heq := hu.symm.trans hu'
  rw [toList_id, toList_id] at heq
  simp only [List.append_assoc, List.cons_append] at heq
  obtain ⟨htenant, hrest⟩ := List.part_of_prefix hplain.tenant hplain'.tenant (by rw [heq])
  obtain ⟨hspace, hrest⟩ := List.part_of_prefix hplain.nameSpace hplain'.nameSpace hrest
  obtain ⟨hname, hrest⟩ := List.part_of_prefix hplain.name hplain'.name hrest
  obtain ⟨hversion, -⟩ :=
    List.part_of_prefix (Strs.not_mem_toString (by decide)) (Strs.not_mem_toString (by decide)) hrest
  refine String.toList_inj.mp ?_
  rw [toList_id, toList_id, htenant, hspace, hname, hversion]

/-! ## The ledger -/

namespace SchedulerHandler

/-- The reservation a node holds under a key. -/
def pendingAt (s : SchedulerHandler) (n k : String) : Option PendingPod :=
  s.nodes[n]?.bind fun ns => ns.pendingPods[k]?

/-- The tracked pods, the known functions, the reservations and the marks. -/
def ledger (s : SchedulerHandler) : BTreeMap String WorkerPod × (String → Option Function) ×
    (String → Option (BTreeMap String PendingPod)) × BTreeMap String (Finset String) :=
  (s.pods, fun f => s.funcs[f]?.map FuncStatus.func, fun n => s.nodes[n]?.map NodeStatus.pendingPods,
    s.pendingsnapshots)

/-- The functions are known under their own keys, and have plain names. -/
def FuncsOk (s : SchedulerHandler) : Prop :=
  ∀ (f : String) (fs : FuncStatus), s.funcs[f]? = some fs → fs.func.Plain ∧ fs.func.id = f

variable {s t : SchedulerHandler}

theorem pendingAt_eq (n k : String) : s.pendingAt n k =
    (s.ledger.2.2.1 n).bind fun m => m[k]? := by
  show _ = (s.nodes[n]?.map NodeStatus.pendingPods).bind _
  unfold pendingAt
  rcases s.nodes[n]? with _ | ns
  · rfl
  · rfl

theorem pendingAt_congr (h : t.ledger = s.ledger) (n k : String) : t.pendingAt n k = s.pendingAt n k := by
  rw [pendingAt_eq, pendingAt_eq, h]

theorem FuncsOk.congr (h : t.ledger.2.1 = s.ledger.2.1) (hs : s.FuncsOk) : t.FuncsOk := by
  intro f fs hfs
  have hget : t.ledger.2.1 f = some fs.func := by
    show t.funcs[f]?.map FuncStatus.func = some fs.func
    rw [hfs]
    rfl
  rw [h] at hget
  obtain ⟨fs', hfs', heq⟩ := Option.map_eq_some_iff.mp hget
  rw [← heq]
  exact hs f fs' hfs'

theorem ledger_modifyNode {n : String} {g : NodeStatus → NodeStatus}
    (hg : ∀ ns, (g ns).pendingPods = ns.pendingPods) : (s.modifyNode n g).ledger = s.ledger := by
  have hnodes : ∀ a : String, (s.nodes.modify n g)[a]?.map NodeStatus.pendingPods =
      s.nodes[a]?.map NodeStatus.pendingPods := by
    intro a
    rw [BTreeMap.get_modify]
    split
    next ha =>
      rw [Option.map_map, show NodeStatus.pendingPods ∘ g = NodeStatus.pendingPods from funext hg]
    next => rfl
  unfold ledger
  exact Prod.ext rfl (Prod.ext rfl (Prod.ext (funext hnodes) rfl))

theorem ledger_modifyFunc {f : String} {g : FuncStatus → FuncStatus}
    (hg : ∀ fs, (g fs).func = fs.func) : (s.modifyFunc f g).ledger = s.ledger := by
  have hfuncs : ∀ a : String, (s.funcs.modify f g)[a]?.map FuncStatus.func =
      s.funcs[a]?.map FuncStatus.func := by
    intro a
    rw [BTreeMap.get_modify]
    split
    next ha => rw [Option.map_map, show FuncStatus.func ∘ g = FuncStatus.func from funext hg]
    next => rfl
  unfold ledger
  exact Prod.ext rfl (Prod.ext (funext hfuncs) rfl)

theorem ledger_insertNode {n : String} {ns ns' : NodeStatus} (hn : s.nodes[n]? = some ns)
    (h : ns'.pendingPods = ns.pendingPods) : ({ s with nodes := s.nodes.insert n ns' }).ledger = s.ledger := by
  have hnodes : ∀ a : String, (s.nodes.insert n ns')[a]?.map NodeStatus.pendingPods =
      s.nodes[a]?.map NodeStatus.pendingPods := by
    intro a
    rw [BTreeMap.get_insert]
    split
    next ha =>
      rw [ha, hn, Option.map_some, Option.map_some, h]
    next => rfl
  unfold ledger
  exact Prod.ext rfl (Prod.ext rfl (Prod.ext (funext hnodes) rfl))

theorem ledger_foldl {α : Type} {g : SchedulerHandler → α → SchedulerHandler}
    (hg : ∀ s a, (g s a).ledger = s.ledger) (l : List α) : (l.foldl g s).ledger = s.ledger := by
  induction l generalizing s with
  | nil => rfl
  | cons a l ih => exact (ih (s := g s a)).trans (hg s a)

theorem ledger_addStoppingPods (n : String) (ws : List WorkerPod) :
    (s.addStoppingPods n ws).ledger = s.ledger := by
  have hnode : ∀ (l : List WorkerPod) (ns : NodeStatus),
      (l.foldl (fun ns (w : WorkerPod) => ns.addStoppingPod w.pod.podKey) ns).pendingPods =
        ns.pendingPods := by
    intro l
    induction l with
    | nil => exact fun ns => rfl
    | cons w l ih => exact fun ns => ih _
  exact (ledger_foldl (s := s.modifyNode n _)
    (g := fun s (w : WorkerPod) => s.modifyFunc w.pod.funcKey (·.addStoppingPod w.pod.podKey))
    (fun _ _ => ledger_modifyFunc fun _ => rfl) ws).trans (ledger_modifyNode (hnode ws))

end SchedulerHandler

/-! ## Growing -/

/-- The tracked pods and the known functions stay, reservations stay or make room
for new ones, and new marks have a reservation. -/
structure Grows (s t : SchedulerHandler) : Prop where
  /-- the tracked pods -/
  pods : t.pods = s.pods
  /-- the known functions -/
  funcs : t.ledger.2.1 = s.ledger.2.1
  /-- no node is forgotten -/
  nodes : ∀ n : String, (s.nodes[n]?).isSome → (t.nodes[n]?).isSome
  /-- no key is given up -/
  kept : ∀ n k, (s.pendingAt n k).isSome → (t.pendingAt n k).isSome
  /-- new reservations have the key of a pod of their function -/
  new : ∀ n k p, t.pendingAt n k = some p →
    s.pendingAt n k = some p ∨ KeyOf k p.funcId ∧ PlainKey p.funcId
  /-- new marks -/
  marks : ∀ f n, SnapshotPending t f n → SnapshotPending s f n ∨
    ∃ k p, t.pendingAt n k = some p ∧ p.funcId = f ∧ KeyOf k f ∧ PlainKey f

/-- Growing, as long as the functions are as they should be. -/
def Grown (s t : SchedulerHandler) : Prop := s.FuncsOk → Grows s t

theorem Grows.of_ledger {s t : SchedulerHandler} (h : t.ledger = s.ledger) : Grows s t where
  pods := congrArg Prod.fst h
  funcs := congrArg (fun l => l.2.1) h
  nodes n hn := by
    have hpending : t.nodes[n]?.map NodeStatus.pendingPods = s.nodes[n]?.map NodeStatus.pendingPods :=
      congrFun (congrArg (fun l => l.2.2.1) h) n
    rw [← Option.isSome_map (f := NodeStatus.pendingPods), hpending, Option.isSome_map]
    exact hn
  kept n k hk := by rwa [pendingAt_congr h]
  new n k p hp := Or.inl (by rwa [pendingAt_congr h] at hp)
  marks f n hmark := by
    have hmarks : t.pendingsnapshots = s.pendingsnapshots := congrArg (fun l => l.2.2.2) h
    unfold SnapshotPending at hmark ⊢
    rw [hmarks] at hmark
    exact Or.inl hmark

theorem Grows.trans {s t u : SchedulerHandler} (h : Grows s t) (h' : Grows t u) : Grows s u where
  pods := h'.pods.trans h.pods
  funcs := h'.funcs.trans h.funcs
  nodes n hn := h'.nodes n (h.nodes n hn)
  kept n k hk := h'.kept n k (h.kept n k hk)
  new n k p hp := by
    rcases h'.new n k p hp with hp | hnew
    · exact h.new n k p hp
    · exact Or.inr hnew
  marks f n hmark := by
    rcases h'.marks f n hmark with hmark | hnew
    · rcases h.marks f n hmark with hmark | ⟨k, p, hp, hf, hkey, hplain⟩
      · exact Or.inl hmark
      · -- a reservation that took its place is for the same function
        obtain ⟨q, hq⟩ := Option.isSome_iff_exists.mp (h'.kept n k (by rw [hp]; rfl))
        refine Or.inr ⟨k, q, hq, ?_, hkey, hplain⟩
        rcases h'.new n k q hq with hq' | ⟨hkey', hplain'⟩
        · rw [Option.some.inj (hq'.symm.trans hp), hf]
        · exact hkey'.unique hkey hplain' hplain
    · exact Or.inr hnew

instance : IsPreorder SchedulerHandler Grown where
  refl _ _ := .of_ledger rfl
  trans _ _ _ h h' hok := (h hok).trans (h' (hok.congr (h hok).funcs))

theorem Grown.of_ledger {s t : SchedulerHandler} (h : t.ledger = s.ledger) : Grown s t :=
  fun _ => .of_ledger h

/-- The procedure only lets the ledger grow. -/
abbrev Growing {α : Type} (x : SchedM α) : Prop := Moves Grown (fun _ => True) x

theorem Growing.modify {g : SchedulerHandler → SchedulerHandler} (h : ∀ s, (g s).ledger = s.ledger) :
    Growing (Proc.modify g) := Moves.modify fun s => .of_ledger (h s)

/-- Where the functions are not as they should be there is nothing to show. -/
theorem growing_of_funcsOk {α : Type} {x : SchedM α} {s : SchedulerHandler}
    (h : s.FuncsOk → x.wp (fun _ t => Grown s t) (fun _ t => Grown s t) (fun _ => True) s) :
    x.wp (fun _ t => Grown s t) (fun _ t => Grown s t) (fun _ => True) s := by
  by_cases hok : s.FuncsOk
  · exact h hok
  · unfold wp
    rcases x s with ⟨a, t⟩ | ⟨e, t⟩ | p
    · exact fun h => absurd h hok
    · exact fun h => absurd h hok
    · trivial

/-- A node holds one more reservation. -/
theorem grown_addPendingPod {s : SchedulerHandler} {n : String} {p : PendingPod}
    (hkey : KeyOf p.podKey p.funcId) (hplain : PlainKey p.funcId) :
    Grows s (s.modifyNode n (·.addPendingPod p)) := by
  have hat : ∀ m k, (s.modifyNode n (·.addPendingPod p)).pendingAt m k =
      if m = n ∧ k = p.podKey ∧ (s.nodes[n]?).isSome then some p else s.pendingAt m k := by
    intro m k
    unfold pendingAt
    show ((s.nodes.modify n (·.addPendingPod p))[m]?).bind _ = _
    rw [BTreeMap.get_modify]
    by_cases hm : m = n
    · subst hm
      rw [if_pos rfl]
      rcases hn : s.nodes[m]? with _ | ns
      · simp
      · simp only [Option.map_some, Option.bind_some, NodeStatus.addPendingPod, true_and,
          Option.isSome_some, and_true]
        exact BTreeMap.get_insert ..
    · rw [if_neg hm, if_neg fun h => hm h.1]
  refine ⟨rfl, rfl, fun m hm => ?_, fun m k hk => ?_, fun m k q hq => ?_, fun f m hmark => Or.inl hmark⟩
  · show ((s.nodes.modify n (·.addPendingPod p))[m]?).isSome = true
    rw [BTreeMap.get_modify]
    split
    next => rwa [Option.isSome_map]
    next => exact hm
  · rw [hat]
    split
    next => rfl
    next => exact hk
  · rw [hat] at hq
    split at hq
    next h =>
      obtain rfl := Option.some.inj hq
      rw [h.2.1]
      exact Or.inr ⟨hkey, hplain⟩
    next => exact Or.inl hq

/-! ## Procedures that leave the ledger alone -/

theorem growing_liftFault {α : Type} (x : Except Fault α) : Growing (liftFault x) := by
  exact Moves.lift fun _ _ => trivial

theorem growing_stopWorker (pod : FuncPod) : Growing (stopWorker pod) := by
  refine Moves.bind Moves.get fun s => ?_
  rcases s.nodes[pod.nodename]? with _ | ns
  · exact Moves.throw _
  · exact Growing.modify fun _ => rfl

theorem growing_getNode (n : String) : Growing (getNode n) := by
  refine Moves.bind Moves.get fun s => ?_
  rcases s.nodes[n]? with _ | ns
  · exact Moves.crash trivial
  · exact Moves.pure ns

theorem freeResource_pendingPods {ns ns' : NodeStatus} {r : NodeResources}
    (h : ns.freeResource r = .ok ns') : ns'.pendingPods = ns.pendingPods := by
  unfold NodeStatus.freeResource at h
  obtain ⟨available, -, h⟩ := Except.bind_eq_ok.mp h
  obtain rfl := Except.ok.inj h
  rfl

theorem wp_fault {α : Type} {x : Except Fault α} {Q : α → SchedulerHandler → Prop}
    {E : Error → SchedulerHandler → Prop} {s : SchedulerHandler} (h : ∀ a, x = .ok a → Q a s) :
    (liftFault x).wp Q E (fun _ => True) s := by
  refine (wp_lift _).mpr ⟨fun a ha => h a ?_, fun _ _ => trivial⟩
  rcases x with f | b
  · cases ha
  · obtain rfl := Except.ok.inj ha
    rfl

theorem growing_freeNodeResource (n : String) (r : NodeResources) : Growing (freeNodeResource n r) := by
  refine Moves.get_bind fun s => ?_
  rcases hn : s.nodes[n]? with _ | ns
  · exact Grown.of_ledger rfl
  · dsimp only
    rw [wp_bind]
    refine wp_fault fun ns' hfree => ?_
    exact Grown.of_ledger (ledger_insertNode hn (freeResource_pendingPods hfree))

theorem growing_reserve (n : String) (r : NodeResources) : Growing (reserve n r) := by
  refine Moves.bind (growing_getNode n) fun _ => Moves.bind (growing_liftFault _) fun _ => ?_
  exact Growing.modify fun _ => ledger_modifyNode fun _ => rfl

theorem growing_allocOnNode (n : String) (req : Resources) (b : Bool) :
    Growing (allocOnNode n req b) := by
  refine Moves.bind (growing_getNode n) fun _ => Moves.bind (growing_liftFault _) fun r => ?_
  refine Moves.bind (Growing.modify fun _ => ledger_modifyNode fun _ => rfl) fun _ => ?_
  rcases r with ⟨e | r, nr'⟩
  · exact Moves.throw e
  · exact Moves.pure r

theorem growing_addTask (task : SchedTask) : Growing (addTask task) := by
  refine Moves.bind Moves.get fun s => ?_
  split
  next => exact Growing.modify fun _ => rfl
  next => exact Moves.crash trivial

theorem growing_addSnapshotTask (env : Env) (n f : String) : Growing (addSnapshotTask env n f) := by
  refine Moves.bind Moves.get fun s => ?_
  split
  next => exact Moves.crash trivial
  next =>
    split
    next => exact Moves.pure ()
    next => exact Growing.modify fun _ => rfl

theorem growing_startWorker (env : Env) (func : Function) (r : NodeResources) (t : CreatePodType)
    (ws : List WorkerPod) (n : String) : Growing (startWorker env func r t ws n) := by
  refine Moves.bind Moves.get fun s => ?_
  split
  next => exact Moves.bind (Growing.modify fun _ => rfl) fun _ => Moves.pure _
  next => exact Moves.throw _

theorem growing_allocFrom (nr : NodeResources) (req : Resources) (b : Bool) :
    Growing (allocFrom nr req b) := by
  refine Moves.bind (growing_liftFault _) fun r => ?_
  rcases r with ⟨e | r, nr'⟩
  · exact Moves.throw e
  · exact Moves.pure r

theorem growing_popIdleChecked (k : String) : Growing (popIdleChecked k) := by
  refine Moves.bind Moves.get fun s => ?_
  split
  next => exact Growing.modify fun _ => rfl
  next => exact Moves.crash trivial

theorem growing_evictIdle (env : Env) (ws : List WorkerPod) : Growing (evictIdle env ws) :=
  Moves.each fun _ _ => Moves.bind (growing_popIdleChecked _) fun _ => Growing.modify fun _ => rfl

theorem growing_setWorking (w : WorkerPod) (g : ℤ) : Growing (setWorking w g) := by
  refine Moves.bind Moves.get fun s => ?_
  split
  next => exact Moves.crash trivial
  next => exact Moves.crash trivial
  next => exact Moves.crash trivial
  next => exact Growing.modify fun _ => rfl

theorem ledger_popMissing {s : SchedulerHandler} (l : List String) :
    (s.popMissing l).ledger = s.ledger := ledger_foldl (g := popIdle) (fun _ _ => rfl) l

theorem growing_findNode4Pod (func : Function) (t : FindNodeType) (ns : List String) :
    Growing (findNode4Pod func t ns) := by
  refine Moves.bind Moves.get fun s => Moves.bind (growing_liftFault _) fun r => ?_
  rcases r with ⟨n, nr⟩ | plans
  · exact Moves.pure _
  · refine Moves.bind (growing_liftFault _) fun r => ?_
    rcases r with ⟨miss, found⟩
    refine Moves.bind (Growing.modify fun _ => ledger_popMissing miss) fun _ => ?_
    rcases found with _ | ⟨n, plan⟩
    · exact Moves.throw _
    · exact Moves.pure _

theorem growing_tryFreeResources (n f : String) (nr : NodeResources) (req : Resources) (b : Bool) :
    Growing (tryFreeResources n f nr req b) := by
  refine Moves.bind Moves.get fun s => Moves.bind (growing_liftFault _) fun r => ?_
  rcases r with ⟨miss, ws, nr'⟩
  refine Moves.bind (Growing.modify fun _ => ledger_popMissing miss) fun _ => ?_
  refine Moves.bind (growing_liftFault _) fun st => ?_
  split
  next => exact Moves.pure _
  next => exact Moves.throw _

theorem growing_getBestNvidiaRuntimeNode (fp : Function) : Growing (getBestNvidiaRuntimeNode fp) := by
  refine Moves.bind Moves.get fun s => ?_
  dsimp only
  split
  next => exact Moves.throw _
  next => exact growing_findNode4Pod fp _ _

theorem growing_getBestResumeWorker (fp : Function) : Growing (getBestResumeWorker fp) := by
  refine Moves.bind Moves.get fun s => ?_
  dsimp only
  split
  next => exact Moves.throw _
  next =>
    split
    next => exact Moves.throw _
    next =>
      refine Moves.bind (growing_findNode4Pod fp _ _) fun r => ?_
      rcases r with ⟨n, ws, nr⟩
      dsimp only
      split
      next => exact Moves.throw _
      next => exact Moves.pure _

theorem ledger_markAllTerminating {s : SchedulerHandler} (env : Env) (ws : List WorkerPod) :
    (s.markAllTerminating env ws).ledger = s.ledger :=
  ledger_foldl (g := markTerminating env) (fun _ _ => rfl) ws

theorem growing_reserveEvicting (env : Env) (func : Function) (n : String) (ws : List WorkerPod)
    (nr : NodeResources) : Growing (reserveEvicting env func n ws nr) := by
  refine Moves.bind (growing_evictIdle env ws) fun _ => Moves.bind (growing_getNode n) fun _ => ?_
  refine Moves.bind (Growing.modify fun _ => ledger_addStoppingPods n ws) fun _ => ?_
  refine Moves.bind (growing_liftFault _) fun _ => Moves.bind (growing_allocFrom _ _ _) fun _ => ?_
  exact Moves.bind (growing_reserve _ _) fun _ => Moves.pure _

/-! ## Resumes and creations -/

theorem growing_resumeRest (env : Env) (f : String) (tenant : Option String) {fp : Function}
    (hplain : PlainKey fp.id) : Growing (do
      let (pod, terminateWorkers, nodeResource) ← getBestResumeWorker fp
      let nodename := pod.pod.nodename
      let s ← Proc.get
      let readyResource ← liftFault (s.readyResource fp.runningResource f nodename)
      let nodeResource ← liftFault (nodeResource.add pod.pod.allocResources)
      let resources ← allocFrom nodeResource readyResource false
      let _ ← getNode nodename
      each (fun w => popIdleChecked w.pod.podKey) terminateWorkers
      Proc.modify fun s => s.setCell pod
        { state := .resuming, consumerTenant := resumeConsumer tenant }
      Proc.modify (SchedulerHandler.markAllTerminating env · terminateWorkers)
      Proc.modify (·.addStoppingPods nodename terminateWorkers)
      reserve nodename resources
      let podKey := funcPodKey fp.tenant fp.nameSpace fp.name fp.version pod.pod.id
      Proc.modify (·.modifyNode nodename (·.addPendingPod
        { nodeName := nodename
          podKey
          funcId := fp.id
          allocResources := resources
          schedulingTime := env.now }))
      Proc.modify (·.emit (.resumeWorker
        { podKey := pod.pod.podKey
          nodename
          resources
          terminated := terminateWorkers.map fun w => w.pod.podKey }))) := by
  refine Moves.bind (growing_getBestResumeWorker fp) fun r => ?_
  rcases r with ⟨pod, ws, nr⟩
  refine Moves.bind Moves.get fun s => Moves.bind (growing_liftFault _) fun _ => ?_
  refine Moves.bind (growing_liftFault _) fun _ => Moves.bind (growing_allocFrom _ _ _) fun _ => ?_
  refine Moves.bind (growing_getNode _) fun _ => ?_
  refine Moves.bind (Moves.each fun w _ => growing_popIdleChecked _) fun _ => ?_
  refine Moves.bind (Growing.modify fun _ => rfl) fun _ => ?_
  refine Moves.bind (Growing.modify fun _ => ledger_markAllTerminating env ws) fun _ => ?_
  refine Moves.bind (Growing.modify fun _ => ledger_addStoppingPods _ ws) fun _ => ?_
  refine Moves.bind (growing_reserve _ _) fun _ => ?_
  refine Moves.bind (Moves.modify fun _ _ => grown_addPendingPod (keyOf_funcPodKey fp _) hplain) fun _ => ?_
  exact Growing.modify fun _ => rfl

theorem growing_resumePod (env : Env) (f : String) (tenant : Option String) :
    Growing (resumePod env f tenant) := by
  intro s
  refine growing_of_funcsOk fun hok => ?_
  unfold resumePod
  rw [wp_bind]
  refine wp_mono (resolveFunc_spec f) (fun fp t h => ?_) (fun _ t h => ?_) fun _ _ => trivial
  · obtain ⟨rfl, key, fs, -, hfs, rfl⟩ := h
    obtain ⟨hplain, hid⟩ := hok key fs hfs
    exact growing_resumeRest env f tenant ⟨fs.func, hplain, rfl⟩ t
  · rw [h]
    exact Grown.of_ledger rfl

/-- A new reservation for a function that is known under its key. -/
theorem keyOf_newPendingPod {s : SchedulerHandler} {f : String} {fs : FuncStatus} (hok : s.FuncsOk)
    (hf : s.funcs[f]? = some fs) (env : Env) (n : String) (id : ℕ) (r : NodeResources) :
    KeyOf (newPendingPod env fs.func n f id r).podKey (newPendingPod env fs.func n f id r).funcId ∧
      PlainKey (newPendingPod env fs.func n f id r).funcId := by
  obtain ⟨hplain, hid⟩ := hok f fs hf
  refine ⟨?_, fs.func, hplain, hid⟩
  show KeyOf (funcPodKey fs.func.tenant fs.func.nameSpace fs.func.name fs.func.version (toString id)) f
  rw [← hid]
  exact keyOf_funcPodKey fs.func _

theorem growing_createOneNividaPod (env : Env) (f : String) : Growing (createOneNividaPod env f) := by
  refine Moves.get_bind fun s => growing_of_funcsOk fun hok => ?_
  rcases hf : s.funcs[f]? with _ | fs
  · exact Grown.of_ledger rfl
  · refine Moves.bind (growing_getBestNvidiaRuntimeNode _) (fun r => ?_) s
    rcases r with ⟨n, ws, nr⟩
    refine Moves.bind (growing_reserveEvicting env _ _ _ _) fun r => ?_
    refine Moves.bind (growing_startWorker env _ _ _ _ _) fun id => Moves.modify fun _ _ => ?_
    obtain ⟨hkey, hplain⟩ := keyOf_newPendingPod hok hf env n id r
    exact grown_addPendingPod hkey hplain

theorem growing_snapshotEvictions (env : Env) (f n : String) (nr : NodeResources) (req : Resources) :
    Growing (snapshotEvictions env f n nr req) := by
  refine Moves.bind (growing_liftFault _) fun st => ?_
  split
  next => exact Moves.pure _
  next =>
    refine Moves.bind (Moves.attempt (growing_tryFreeResources n f nr req true)) fun r => ?_
    split
    next => exact Moves.pure _
    next =>
      refine Moves.bind (Growing.modify fun _ => rfl) fun _ => ?_
      exact Moves.bind (growing_addSnapshotTask env n f) fun _ => Moves.throw _
    next => exact Moves.throw _

/-- A reservation with its mark. -/
theorem grown_markSnapshot {s : SchedulerHandler} {n : String} {ns : NodeStatus} {p : PendingPod}
    (hn : s.nodes[n]? = some ns) (hkey : KeyOf p.podKey p.funcId) (hplain : PlainKey p.funcId) :
    Grows s (((s.modifyNode n (·.addPendingPod p)).modifyFunc p.funcId
      (·.addPendingPod p)).addPendingSnapshot p.funcId n) := by
  have hgrown := grown_addPendingPod (s := s) (n := n) hkey hplain
  have hfunc : Grows (s.modifyNode n (·.addPendingPod p))
      ((s.modifyNode n (·.addPendingPod p)).modifyFunc p.funcId (·.addPendingPod p)) :=
    .of_ledger (ledger_modifyFunc fun _ => rfl)
  have hboth := hgrown.trans hfunc
  refine ⟨hboth.pods, hboth.funcs, hboth.nodes, hboth.kept, hboth.new, fun f m hmark => ?_⟩
  obtain ⟨nodes, hnodes, hmem⟩ := hmark
  replace hnodes : (s.pendingsnapshots.insert p.funcId
    (insert n (s.pendingsnapshots[p.funcId]?.getD ∅)))[f]? = some nodes := hnodes
  rw [BTreeMap.get_insert] at hnodes
  split at hnodes
  next hf =>
    obtain rfl := Option.some.inj hnodes
    rcases Finset.mem_insert.mp hmem with rfl | hmem
    · refine Or.inr ⟨p.podKey, p, ?_, hf.symm, ?_, ?_⟩
      · show ((s.nodes.modify m (·.addPendingPod p))[m]?).bind _ = some p
        rw [BTreeMap.get_modify_self, hn]
        exact BTreeMap.get_insert_self ..
      · rw [hf]
        exact hkey
      · rw [hf]
        exact hplain
    · left
      rcases hp : s.pendingsnapshots[p.funcId]? with _ | nodes
      · rw [hp] at hmem
        exact absurd hmem (Finset.notMem_empty m)
      · rw [hp] at hmem
        exact ⟨nodes, by rw [hf, hp], hmem⟩
  next => exact Or.inl ⟨nodes, hnodes, hmem⟩

/-- The functions are as they should be, and the node is known. -/
def NodeKnown (n : String) (s : SchedulerHandler) : Prop := s.FuncsOk ∧ (s.nodes[n]?).isSome = true

/-- Growing where the node is known. -/
abbrev GrowingOn {α : Type} (n : String) (x : SchedM α) : Prop :=
  MovesFrom (NodeKnown n) Grown (fun _ => True) x

theorem GrowingOn.bind {α β : Type} {n : String} {x : SchedM α} {g : α → SchedM β}
    (hx : GrowingOn n x) (hg : ∀ a, GrowingOn n (g a)) : GrowingOn n (x >>= g) :=
  MovesFrom.bind (fun _ _ hs h => ⟨hs.1.congr (h hs.1).funcs, (h hs.1).nodes n hs.2⟩) hx hg

theorem GrowingOn.modify {n : String} {g : SchedulerHandler → SchedulerHandler}
    (h : ∀ s, (g s).ledger = s.ledger) : GrowingOn n (Proc.modify g) := (Growing.modify h).movesFrom

theorem growing_startSnapshotWorker (env : Env) {func : Function} {f n : String} (ws : List WorkerPod)
    (r : NodeResources) (hkey : ∀ id, KeyOf (newPendingPod env func n f id r).podKey f)
    (hplain : PlainKey f) : GrowingOn n (startSnapshotWorker env func f n ws r) := by
  refine GrowingOn.bind (Moves.attempt (growing_startWorker env func r _ ws n)).movesFrom fun res => ?_
  split
  next =>
    refine GrowingOn.bind (GrowingOn.modify fun _ => rfl) fun _ => ?_
    exact GrowingOn.bind (growing_addSnapshotTask env n f).movesFrom fun _ => (Moves.throw _).movesFrom
  next id =>
    refine GrowingOn.bind (GrowingOn.modify fun _ => rfl) fun _ s hs _ => ?_
    obtain ⟨ns, hns⟩ := Option.isSome_iff_exists.mp hs.2
    exact grown_markSnapshot (p := newPendingPod env func n f id r) hns (hkey id) hplain

theorem growing_createSnapshotOnNode (env : Env) {func : Function} {f n : String} (ns : NodeStatus)
    (hkey : ∀ id r, KeyOf (newPendingPod env func n f id r).podKey f) (hplain : PlainKey f) :
    GrowingOn n (createSnapshotOnNode env func f n ns) := by
  refine GrowingOn.bind (growing_liftFault _).movesFrom fun req => ?_
  refine GrowingOn.bind (growing_liftFault _).movesFrom fun st => ?_
  split
  next =>
    exact GrowingOn.bind (GrowingOn.modify fun _ => rfl) fun _ => (Moves.throw _).movesFrom
  next =>
    refine GrowingOn.bind (growing_snapshotEvictions env f n _ req).movesFrom fun r => ?_
    rcases r with ⟨ws, nr⟩
    refine GrowingOn.bind (growing_reserveEvicting env func n ws nr).movesFrom fun r => ?_
    exact growing_startSnapshotWorker env ws r (fun id => hkey id r) hplain

theorem growing_tryCreateSnapshotOnNode (env : Env) (f n : String) :
    Growing (tryCreateSnapshotOnNode env f n) := by
  refine Moves.get_bind fun s => growing_of_funcsOk fun hok => ?_
  have hrefl : Grown s s := .of_ledger rfl
  split
  next => exact hrefl
  next =>
    split
    next fs ns hfs hns =>
      split
      next => exact hrefl
      next =>
        split
        next => exact .of_ledger rfl
        next =>
          split
          next => exact Moves.bind (growing_addSnapshotTask env n f) (fun _ => Moves.throw _) s
          next =>
            refine growing_createSnapshotOnNode env ns (fun id r => ?_) ?_ s ⟨hok, by rw [hns]; rfl⟩
            · exact (keyOf_newPendingPod hok hfs env n id r).1
            · exact ⟨fs.func, hok f fs hfs⟩
    next => exact hrefl

theorem growing_createStandbyPod (env : Env) (f n : String) : Growing (createStandbyPod env f n) := by
  refine Moves.get_bind fun s => growing_of_funcsOk fun hok => ?_
  rcases hf : s.funcs[f]? with _ | fs
  · exact Grown.of_ledger rfl
  · refine Moves.bind (growing_liftFault _) (fun _ => Moves.bind (growing_allocOnNode _ _ _) fun r => ?_) s
    refine Moves.bind (Moves.attempt (growing_startWorker env _ _ _ _ _)) fun res => ?_
    split
    next => exact Moves.bind (growing_freeNodeResource _ _) fun _ => Moves.throw _
    next id =>
      refine Moves.modify fun t _ => ?_
      obtain ⟨hkey, hplain⟩ := keyOf_newPendingPod hok hf env n id r
      exact (grown_addPendingPod hkey hplain).trans (.of_ledger (ledger_modifyFunc fun _ => rfl))

theorem growing_tryAdjustStandbyPodsOnNode (env : Env) (n : String) :
    Growing (tryAdjustStandbyPodsOnNode env n) := by
  refine Moves.bind Moves.get fun s => ?_
  rcases s.nodes[n]? with _ | ns
  · exact Moves.pure ()
  · refine Moves.bind (Growing.modify fun _ => rfl) fun _ => ?_
    split
    next => exact Moves.pure ()
    next =>
      refine Moves.bind (Moves.each fun w _ => Moves.ignore (growing_stopWorker _)) fun _ => ?_
      dsimp only
      split
      next => exact Moves.pure ()
      next => exact growing_createStandbyPod env _ n

theorem growing_processAddFunc (env : Env) (f : String) : Growing (processAddFunc env f) := by
  refine Moves.bind Moves.get fun s => ?_
  split
  next => exact Moves.pure _
  next =>
    rcases s.funcs[f]? with _ | fs
    · exact Moves.pure _
    · simp only
      split
      next => exact Moves.pure _
      next =>
        refine Moves.bind ?_ fun _ => ?_
        · refine Moves.bind Moves.get fun s => ?_
          split
          next => exact Moves.ignore (growing_createOneNividaPod env f)
          next => exact Moves.pure ()
        · refine Moves.bind Moves.get fun s => ?_
          split
          next =>
            refine Moves.bind (Moves.attempt (growing_resumePod env f none)) fun r => ?_
            split
            next => exact Moves.pure _
            next => exact Moves.pure _
          next => exact Moves.pure _

theorem growing_prewarm (env : Env) (l : List String) : Growing (prewarm env l) := by
  induction l with
  | nil => exact Moves.pure ()
  | cons f l ih =>
    refine Moves.bind (growing_processAddFunc env f) fun b => ?_
    split
    next => exact Moves.pure ()
    next => exact ih

theorem growing_refreshScheduling (env : Env) : Growing (refreshScheduling env) :=
  Moves.bind Moves.get fun _ => growing_prewarm env _

theorem growing_initSnapshotTask (env : Env) : Growing (initSnapshotTask env) := by
  refine Moves.bind Moves.get fun s => Moves.each fun f _ => Moves.each fun n _ => ?_
  split
  next => exact Moves.pure ()
  next => exact growing_addSnapshotTask env n f

theorem growing_processTask (env : Env) (task : SchedTask) : Growing (processTask env task) := by
  cases task with
  | addNode n => exact Growing.modify fun _ => rfl
  | delayedInitNode n =>
    refine Moves.bind Moves.get fun s => ?_
    exact Moves.bind (Moves.each fun f _ => growing_addSnapshotTask env n f) fun _ =>
      Growing.modify fun _ => rfl
  | addFunc f => exact Moves.bind Moves.get fun s => Moves.each fun n _ => growing_addSnapshotTask env n f
  | snapshotTask f n => exact Moves.ignore (growing_tryCreateSnapshotOnNode env f n)
  | nvidiaPodTask f => exact Moves.ignore (growing_createOneNividaPod env f)
  | standbyTask n => exact Moves.ignore (growing_tryAdjustStandbyPodsOnNode env n)
  | refreshSnapshot => exact Moves.pure ()
  | removeSnapshotFromNode n f => exact Moves.pure ()

/-! ## Requests -/

theorem growing_sendIfAlive (env : Env) (tx : ℕ) (e : Effect) :
    Growing (sendIfAlive env tx e) := by
  unfold sendIfAlive
  split
  next => exact Growing.modify fun _ => rfl
  next => exact Moves.pure ()

theorem growing_sendChecked (env : Env) (tx : ℕ) (e : Effect) :
    Growing (sendChecked env tx e) := by
  unfold sendChecked
  split
  next => exact Growing.modify fun _ => rfl
  next => exact Moves.crash trivial

theorem growing_sendLease (env : Env) (tx : ℕ) (req : LeaseWorkerReq) (k : Option String)
    (resp : LeaseWorkerResp) : Growing (sendLease env tx req k resp) := by
  unfold sendLease
  split
  next => exact Growing.modify fun _ => rfl
  next => exact Moves.crash trivial

theorem growing_answerLease (env : Env) (req : LeaseWorkerReq) (tx : ℕ) (pod : FuncPod) :
    Growing (answerLease env req tx pod) := by
  refine Moves.bind Moves.get fun s => ?_
  split
  next =>
    split
    next => exact Moves.throw _
    next => exact growing_sendLease env tx req _ _
  next =>
    split
    next => exact Moves.crash trivial
    next => exact growing_sendLease env tx req _ _

theorem growing_leaseIdle (env : Env) (req : LeaseWorkerReq) (tx : ℕ) (w : WorkerPod) :
    Growing (leaseIdle env req tx w) := by
  refine Moves.bind (growing_setWorking w _) fun _ => Moves.bind (Growing.modify fun _ => rfl) fun _ => ?_
  exact Moves.bind (growing_popIdleChecked _) fun _ => growing_answerLease env req tx w.pod

theorem growing_pushLeaseWorkerReq (env : Env) (f : String) (req : LeaseWorkerReq) (tx : ℕ) :
    Growing (pushLeaseWorkerReq env f req tx) := by
  refine Moves.bind Moves.get fun s => ?_
  rcases s.funcs[f]? with _ | fs
  · exact Moves.throw _
  · exact Growing.modify fun _ => ledger_modifyFunc fun _ => rfl

theorem growing_leaseResuming (env : Env) (req : LeaseWorkerReq) (tx : ℕ) (f : String) :
    Growing (leaseResuming env req tx f) := by
  refine Moves.bind (Moves.attempt (growing_resumePod env f _)) fun r => ?_
  split
  next => exact growing_sendLease env tx req _ _
  next => exact growing_pushLeaseWorkerReq env f req tx

theorem growing_processLeaseWorkerReq (env : Env) (req : LeaseWorkerReq) (tx : ℕ) :
    Growing (processLeaseWorkerReq env req tx) := by
  refine Moves.bind Moves.get fun s => ?_
  rcases s.funcs[req.funcKey]? with _ | fs
  · exact Moves.bind (growing_sendLease env tx req _ _) fun _ => Moves.throw _
  · simp only
    split
    next => exact Moves.crash trivial
    next =>
      split
      next => exact growing_sendLease env tx req _ _
      next =>
        refine Moves.bind Moves.get fun s => ?_
        simp only
        split
        next => exact growing_leaseIdle env req tx _
        next =>
          split
          next => exact Moves.bind (growing_sendLease env tx req _ _) fun _ => Moves.throw _
          next => exact growing_leaseResuming env req tx _

theorem growing_processReturnWorkerReq (env : Env) (req : ReturnWorkerReq) (tx : ℕ) :
    Growing (processReturnWorkerReq env req tx) := by
  refine Moves.bind Moves.get fun s => ?_
  split
  next => exact growing_sendChecked env tx _
  next w _ =>
    refine Moves.bind ?_ fun _ => growing_sendChecked env tx _
    refine Moves.bind Moves.get fun s => ?_
    split
    next => exact Moves.pure ()
    next =>
      split
      next =>
        exact Moves.bind (Growing.modify fun _ => rfl) fun _ => Moves.ignore (growing_stopWorker w.pod)
      next => exact Growing.modify fun _ => rfl

theorem growing_killBusy (env : Env) (w : WorkerPod) : Growing (killBusy env w) := by
  refine Moves.bind (Moves.attempt (growing_stopWorker w.pod)) fun r => ?_
  split
  next => exact Moves.bind (Growing.modify fun _ => rfl) fun _ => Moves.pure _
  next => exact Moves.pure _

theorem growing_killWorker (env : Env) (w : WorkerPod) : Growing (killWorker env w) := by
  refine Moves.bind Moves.get fun s => ?_
  split
  next =>
    refine Moves.bind (Growing.modify fun _ => rfl) fun _ => ?_
    refine Moves.bind (Moves.attempt (growing_stopWorker w.pod)) fun r => ?_
    split
    next => exact Moves.bind (Growing.modify fun _ => rfl) fun _ => Moves.pure _
    next => exact Moves.bind (Growing.modify fun _ => rfl) fun _ => Moves.pure _
  next => exact growing_killBusy env w
  next => exact growing_killBusy env w
  next => exact Moves.pure _

theorem growing_processKillPod (env : Env) (req : WorkerId) (tx : ℕ) :
    Growing (processKillPod env req tx) := by
  refine Moves.bind Moves.get fun s => ?_
  split
  next => exact growing_sendIfAlive env tx _
  next => exact Moves.bind (growing_killWorker env _) fun _ => growing_sendIfAlive env tx _

theorem growing_processConnectReq (env : Env) (req : ConnectReq) (tx : ℕ) :
    Growing (processConnectReq env req tx) := by
  refine Moves.bind Moves.get fun s => ?_
  split
  next => exact Moves.bind (growing_sendIfAlive env tx _) fun _ => Moves.pure _
  next =>
    split
    next => exact Moves.bind (growing_sendChecked env tx _) fun _ => Moves.pure _
    next =>
      refine Moves.bind (Moves.each fun w _ => ?_) fun _ =>
        Moves.bind (growing_sendIfAlive env tx _) fun _ => Moves.pure _
      exact Moves.bind (growing_setWorking w _) fun _ => Growing.modify fun _ => rfl

theorem growing_completeWarmupAfterConnect (env : Env) : Growing (completeWarmupAfterConnect env) := by
  refine Moves.bind Moves.get fun s => ?_
  split
  next => exact Moves.pure ()
  next =>
    refine Moves.bind (Growing.modify fun _ => rfl) fun _ => ?_
    exact Moves.bind (growing_refreshScheduling env) fun _ => growing_initSnapshotTask env

theorem growing_checkAndCompleteWarmup (env : Env) : Growing (checkAndCompleteWarmup env) := by
  refine Moves.bind Moves.get fun s => ?_
  split
  next =>
    split
    next => exact growing_completeWarmupAfterConnect env
    next => exact Moves.pure ()
  next => exact Moves.pure ()

theorem growing_removePodsByFunckey (env : Env) (f : String) : Growing (removePodsByFunckey env f) := by
  refine Moves.bind Moves.get fun s => ?_
  refine Moves.bind (Moves.each fun w _ => ?_) fun _ => Moves.pure _
  refine Moves.bind (Moves.attempt (growing_stopWorker _)) fun r => ?_
  split
  next => exact Moves.pure ()
  next => exact Growing.modify fun _ => rfl

theorem growing_cleanPods (env : Env) : Growing (cleanPods env) :=
  Moves.bind Moves.get fun _ => Moves.each fun f _ => Moves.ignore (growing_removePodsByFunckey env f)

theorem ledger_processGatewayTimeout {s : SchedulerHandler} (env : Env) :
    (s.processGatewayTimeout env).ledger = s.ledger := by
  unfold processGatewayTimeout
  refine ledger_foldl (fun s w => ?_) _
  unfold releaseTimedOut
  split
  next =>
    split
    next => rfl
    next => rfl
  next => rfl

theorem growing_cleanSnapshots : Growing cleanSnapshots := by
  refine Moves.bind Moves.get fun s => Moves.each fun f _ => Moves.ignore ?_
  refine Moves.bind Moves.get fun t => ?_
  split
  next => exact Moves.pure ()
  next =>
    refine Moves.each fun n _ => Moves.ignore ?_
    refine Moves.bind Moves.get fun u => ?_
    dsimp only
    split
    next => exact Moves.pure ()
    next =>
      split
      next => exact Moves.throw _
      next => exact Growing.modify fun _ => rfl

theorem growing_drainDueDelayedTasks (env : Env) : Growing (drainDueDelayedTasks env) := by
  refine Moves.bind Moves.get fun s => Moves.bind (Growing.modify fun _ => rfl) fun _ => ?_
  exact Moves.each fun t _ => growing_addTask t.task

theorem growing_processNextTask (env : Env) : Growing (processNextTask env) := by
  refine Moves.bind Moves.get fun s => ?_
  split
  next => exact Moves.pure ()
  next task _ _ => exact Moves.bind (Growing.modify fun _ => rfl) fun _ => growing_processTask env task

theorem ledger_reconcileAllStuckLeaseRequests {s : SchedulerHandler} (env : Env) (timeoutMs : ℕ) :
    (s.reconcileAllStuckLeaseRequests env timeoutMs).ledger = s.ledger := by
  have hfuncs : ∀ f : String, (s.reconcileAllStuckLeaseRequests env timeoutMs).ledger.2.1 f =
      s.ledger.2.1 f := by
    intro f
    show (s.funcs.map _)[f]?.map FuncStatus.func = s.funcs[f]?.map FuncStatus.func
    rw [Std.ExtTreeMap.getElem?_map, Option.map_map]
    rfl
  exact Prod.ext rfl (Prod.ext (funext hfuncs) rfl)

/-! ## Handlers -/

/-- The handlers that forget nothing: all but the store events and what the answer to a resume,
to a creation or about a duplicate does. -/
def Handler.Forgetless : Handler → Prop
  | .event _ => False
  | .msg (.cleanupDuplicateSnapshot _) => False
  | .msg (.resumeWorkerComplete _ _) => False
  | .msg (.startWorkerComplete _ _) => False
  | _ => True

/-- **Most handlers only let the ledger grow.** -/
theorem growing_run (env : Env) (h : Handler) (hh : h.Forgetless) : Growing (h.run env) := by
  cases h with
  | event e => exact hh.elim
  | task => exact growing_processNextTask env
  | delayTick => exact growing_drainDueDelayedTasks env
  | billingTick =>
    refine Growing.modify fun s => ?_
    unfold emitPeriodicBillingTicks
    split <;> rfl
  | standbyTick => exact Growing.modify fun _ => rfl
  | warmup => exact growing_checkAndCompleteWarmup env
  | refresh => exact growing_refreshScheduling env
  | cleanPods => exact growing_cleanPods env
  | cleanSnapshots => exact growing_cleanSnapshots
  | gatewayTimeout => exact Growing.modify fun _ => ledger_processGatewayTimeout env
  | stuckLeases => exact Growing.modify fun _ => ledger_reconcileAllStuckLeaseRequests env 30000
  | msg m =>
    cases m with
    | connectScheduler req tx =>
      refine Moves.bind (growing_processConnectReq env req tx) fun admitted => ?_
      split
      next => exact growing_completeWarmupAfterConnect env
      next => exact Moves.pure ()
    | leaseWorker req tx => exact growing_processLeaseWorkerReq env req tx
    | returnWorker req tx => exact growing_processReturnWorkerReq env req tx
    | killPod req tx => exact growing_processKillPod env req tx
    | refreshGateway gatewayId => exact Growing.modify fun _ => rfl
    | cleanupDuplicateSnapshot rpc => exact hh.elim
    | resumeWorkerComplete rpc result => exact hh.elim
    | startWorkerComplete rpc result => exact hh.elim
    | removeSnapshotComplete funckey nodename ok =>
      refine Growing.modify fun s => ?_
      unfold processRemoveSnapshotComplete
      split <;> rfl
    | stopWorkerComplete podKey ok => exact Growing.modify fun _ => rfl

namespace SchedulerHandler

end SchedulerHandler

end Inferx
