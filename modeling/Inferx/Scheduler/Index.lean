import Inferx.Lib.Filing
import Inferx.Scheduler.Step

/-!
# The index of the pods

Where the scheduler holds the pods: in `pods`, filed under their node, and
filed under their function. `index` is this part of the state, and
`PodIndex.Sound` says that nodes and functions hold nothing but tracked pods:
then a worker pod found with a node or a function is *the* tracked one, and
writing its cell is writing the state of that pod and of no other.
`PodIndex.Coherent` says more: that no other pod is parked either, and that no
tracked pod is missing.

Most operations leave the index alone. That is recorded here for the building
blocks, as equations `(op s).index = s.index`.
-/

namespace Inferx

/-- Where the pods are held. -/
@[ext] structure PodIndex where
  /-- all pods -/
  pods : BTreeMap String WorkerPod
  /-- the pods by node -/
  byNode : Filing String String WorkerPod
  /-- the pods by function -/
  byFunc : Filing String String WorkerPod
  /-- the names in the records of the nodes -/
  names : String → Option String
  /-- the next free cell -/
  nextWorker : ℕ

/-- The node of a pod. -/
def WorkerPod.node (w : WorkerPod) : String := w.pod.nodename

/-- The function of a pod. -/
def WorkerPod.func (w : WorkerPod) : String := w.pod.funcKey

namespace PodIndex

/-- Pods are tracked under their own key and have cells of their own. -/
structure Keyed (ix : PodIndex) : Prop where
  /-- a pod is tracked under its key -/
  key : ∀ (k : String) (w : WorkerPod), ix.pods[k]? = some w → w.pod.podKey = k
  /-- its cell has been handed out -/
  ref_lt : ∀ (k : String) (w : WorkerPod), ix.pods[k]? = some w → w.ref < ix.nextWorker
  /-- no two pods share a cell -/
  ref_inj : ∀ (k k' : String) (w w' : WorkerPod), ix.pods[k]? = some w → ix.pods[k']? = some w' →
    w.ref = w'.ref → k = k'

/-- Nodes and functions hold nothing but tracked pods. -/
structure Sound (ix : PodIndex) : Prop extends Keyed ix where
  /-- a node is recorded under its name -/
  named : ∀ n m, ix.names n = some m → m = n
  /-- nothing is parked for a known node -/
  node_tidy : ix.byNode.Tidy
  /-- nothing is parked for a known function -/
  func_tidy : ix.byFunc.Tidy
  /-- nodes hold tracked pods -/
  node : ix.byNode.Held ix.pods WorkerPod.node
  /-- functions hold tracked pods -/
  func : ix.byFunc.Held ix.pods WorkerPod.func

/-- The nodes and functions that are known hold all tracked pods of theirs. -/
structure Full (ix : PodIndex) : Prop where
  /-- known nodes hold all their pods -/
  node : ix.byNode.Full ix.pods WorkerPod.node
  /-- known functions hold all their pods -/
  func : ix.byFunc.Full ix.pods WorkerPod.func

/-- Every tracked pod is held by its node and its function, or parked for them,
and no other pod is. -/
structure Coherent (ix : PodIndex) : Prop where
  /-- tracked pods are held by nodes or parked for them, and no others -/
  node_sound : ix.byNode.Sound ix.pods WorkerPod.node
  /-- tracked pods are held by functions or parked for them, and no others -/
  func_sound : ix.byFunc.Sound ix.pods WorkerPod.func
  /-- nodes hold all tracked pods -/
  node : ix.byNode.Complete ix.pods WorkerPod.node
  /-- functions hold all tracked pods -/
  func : ix.byFunc.Complete ix.pods WorkerPod.func

/-! ## Operations -/

/-- Enter a new worker pod. -/
def insertPod (ix : PodIndex) (w : WorkerPod) : PodIndex :=
  { ix with pods := ix.pods.insert w.pod.podKey w, nextWorker := ix.nextWorker + 1 }

/-- File a worker pod with its node. -/
def fileNode (ix : PodIndex) (w : WorkerPod) : PodIndex :=
  { ix with byNode := ix.byNode.file w.node w.pod.podKey w }

/-- File a worker pod with its function. -/
def fileFunc (ix : PodIndex) (w : WorkerPod) : PodIndex :=
  { ix with byFunc := ix.byFunc.file w.func w.pod.podKey w }

/-- Hold a new worker pod, in place of an old one with its key. -/
def track (ix : PodIndex) (w : WorkerPod) : PodIndex := ((ix.insertPod w).fileNode w).fileFunc w

/-- Drop a pod. -/
def erasePod (ix : PodIndex) (pod : FuncPod) : PodIndex :=
  { ix with pods := ix.pods.erase pod.podKey }

/-- Take a pod from its node; where it is parked it stays. -/
def unfileNode (ix : PodIndex) (pod : FuncPod) : PodIndex :=
  { ix with byNode := ix.byNode.unfile pod.nodename pod.podKey }

/-- Take a pod from its function; where it is parked it stays. -/
def unfileFunc (ix : PodIndex) (pod : FuncPod) : PodIndex :=
  { ix with byFunc := ix.byFunc.unfile pod.funcKey pod.podKey }

/-- Forget a pod; where it is parked it stays. -/
def untrack (ix : PodIndex) (pod : FuncPod) : PodIndex :=
  ((ix.erasePod pod).unfileNode pod).unfileFunc pod

/-- The pod is not parked, neither for its node nor for its function. -/
structure Unparked (ix : PodIndex) (pod : FuncPod) : Prop where
  /-- not for its node -/
  node : ix.byNode.known pod.nodename = none →
    ix.byNode.parked.getInner pod.nodename pod.podKey = none
  /-- not for its function -/
  func : ix.byFunc.known pod.funcKey = none →
    ix.byFunc.parked.getInner pod.funcKey pod.podKey = none

/-- A tracked pod with the key of `pod` has its node and its function. -/
def SameHome (ix : PodIndex) (pod : FuncPod) : Prop :=
  ∀ w, ix.pods[pod.podKey]? = some w → w.pod.nodename = pod.nodename ∧ w.pod.funcKey = pod.funcKey

instance (ix : PodIndex) (pod : FuncPod) : Decidable (ix.SameHome pod) :=
  decidable_of_iff ((ix.pods[pod.podKey]?.all fun w =>
    w.pod.nodename = pod.nodename ∧ w.pod.funcKey = pod.funcKey) = true) (by
      unfold SameHome
      rcases ix.pods[pod.podKey]? with _ | w
      · simp
      · simp)

variable {ix : PodIndex}

theorem Keyed.track (h : ix.Keyed) {w : WorkerPod} (href : w.ref = ix.nextWorker) :
    (ix.track w).Keyed where
  key k v hv := by
    replace hv := (BTreeMap.get_insert ..).symm.trans hv
    split at hv
    next hk =>
      rw [hk, ← Option.some.inj hv]
    next => exact h.key k v hv
  ref_lt k v hv := by
    replace hv := (BTreeMap.get_insert ..).symm.trans hv
    show v.ref < ix.nextWorker + 1
    split at hv
    next =>
      rw [← Option.some.inj hv, href]
      exact Nat.lt_succ_self _
    next => exact Nat.lt_succ_of_lt (h.ref_lt k v hv)
  ref_inj k k' v v' hv hv' heq := by
    replace hv := (BTreeMap.get_insert ..).symm.trans hv
    replace hv' := (BTreeMap.get_insert ..).symm.trans hv'
    split at hv
    next hk =>
      split at hv'
      next hk' => rw [hk, hk']
      next =>
        have hlt := h.ref_lt k' v' hv'
        rw [← Option.some.inj hv, href] at heq
        exact absurd heq.symm (Nat.ne_of_lt hlt)
    next =>
      split at hv'
      next =>
        have hlt := h.ref_lt k v hv
        rw [← Option.some.inj hv', href] at heq
        exact absurd heq (Nat.ne_of_lt hlt)
      next => exact h.ref_inj k k' v v' hv hv' heq

theorem Keyed.untrack (h : ix.Keyed) (pod : FuncPod) : (ix.untrack pod).Keyed where
  key k v hv := h.key k v (BTreeMap.get_erase_eq_some.mp hv).2
  ref_lt k v hv := h.ref_lt k v (BTreeMap.get_erase_eq_some.mp hv).2
  ref_inj k k' v v' hv hv' :=
    h.ref_inj k k' v v' (BTreeMap.get_erase_eq_some.mp hv).2 (BTreeMap.get_erase_eq_some.mp hv').2

theorem Sound.track (h : ix.Sound) {w : WorkerPod} (href : w.ref = ix.nextWorker)
    (hhome : ix.SameHome w.pod) : (ix.track w).Sound where
  toKeyed := h.toKeyed.track href
  named := h.named
  node_tidy := h.node_tidy.file
  func_tidy := h.func_tidy.file
  node := h.node.file fun v hv => (hhome v hv).1
  func := h.func.file fun v hv => (hhome v hv).2

theorem Coherent.track (h : ix.Coherent) {w : WorkerPod} (hhome : ix.SameHome w.pod) :
    (ix.track w).Coherent where
  node_sound := h.node_sound.file fun v hv => (hhome v hv).1
  func_sound := h.func_sound.file fun v hv => (hhome v hv).2
  node := h.node.file
  func := h.func.file

theorem Full.track (h : ix.Full) (w : WorkerPod) : (ix.track w).Full where
  node := h.node.file
  func := h.func.file

theorem Full.untrack (h : ix.Full) (pod : FuncPod) : (ix.untrack pod).Full where
  node := h.node.unfile
  func := h.func.unfile

theorem Sound.untrack (h : ix.Sound) {pod : FuncPod} (hhome : ix.SameHome pod) :
    (ix.untrack pod).Sound where
  toKeyed := h.toKeyed.untrack pod
  named := h.named
  node_tidy := h.node_tidy.unfile
  func_tidy := h.func_tidy.unfile
  node := h.node.unfile fun v hv => (hhome v hv).1
  func := h.func.unfile fun v hv => (hhome v hv).2

theorem Coherent.untrack (h : ix.Coherent) {pod : FuncPod} (hpark : ix.Unparked pod)
    (hhome : ix.SameHome pod) : (ix.untrack pod).Coherent where
  node_sound := h.node_sound.unfile hpark.node fun v hv => (hhome v hv).1
  func_sound := h.func_sound.unfile hpark.func fun v hv => (hhome v hv).2
  node := h.node.unfile
  func := h.func.unfile

/-! ## Parents -/

/-- A function enters. -/
def enterFunc (ix : PodIndex) (f : String) : PodIndex := { ix with byFunc := ix.byFunc.enter f }

/-- A function leaves. -/
def leaveFunc (ix : PodIndex) (f : String) : PodIndex := { ix with byFunc := ix.byFunc.close f }

/-- A node enters. -/
def enterNode (ix : PodIndex) (n : String) : PodIndex :=
  { ix with byNode := ix.byNode.enter n, names := Function.update ix.names n (some n) }

/-- A node leaves. -/
def leaveNode (ix : PodIndex) (n : String) : PodIndex :=
  { ix with byNode := ix.byNode.leave n, names := Function.update ix.names n none }

/-- What is parked for a node is dropped. -/
def unparkNode (ix : PodIndex) (n : String) : PodIndex := { ix with byNode := ix.byNode.unpark n }

/-- What is parked for the function is tracked. -/
def FuncArrivable (ix : PodIndex) (f : String) : Prop :=
  ∀ k w, ix.byFunc.parked.getInner f k = some w → ix.pods[k]? = some w ∧ w.func = f

/-- What is parked for the node is tracked. -/
def NodeArrivable (ix : PodIndex) (n : String) : Prop :=
  ∀ k w, ix.byNode.parked.getInner n k = some w → ix.pods[k]? = some w ∧ w.node = n

theorem forall_getInner_iff {parked : BTreeMap String (BTreeMap String WorkerPod)} {p : String}
    {P : String → WorkerPod → Prop} :
    (∀ q ∈ (parked[p]?.getD ∅).toList, P q.1 q.2) ↔
      ∀ k w, parked.getInner p k = some w → P k w := by
  constructor
  · intro h k w hw
    rw [← BTreeMap.get_getD] at hw
    exact h (k, w) (BTreeMap.mem_toList.mpr hw)
  · rintro h ⟨k, w⟩ hq
    refine h k w ?_
    rw [← BTreeMap.get_getD]
    exact BTreeMap.mem_toList.mp hq

instance (ix : PodIndex) (f : String) : Decidable (ix.FuncArrivable f) :=
  decidable_of_iff (∀ q ∈ (ix.byFunc.parked[f]?.getD ∅).toList,
    ix.pods[q.1]? = some q.2 ∧ q.2.func = f)
    (forall_getInner_iff (P := fun k w => ix.pods[k]? = some w ∧ w.func = f))

instance (ix : PodIndex) (n : String) : Decidable (ix.NodeArrivable n) :=
  decidable_of_iff (∀ q ∈ (ix.byNode.parked[n]?.getD ∅).toList,
    ix.pods[q.1]? = some q.2 ∧ q.2.node = n)
    (forall_getInner_iff (P := fun k w => ix.pods[k]? = some w ∧ w.node = n))

/-- All tracked pods of the function are parked for it. -/
def FuncAwaited (ix : PodIndex) (f : String) : Prop :=
  ∀ (k : String) (w : WorkerPod), ix.pods[k]? = some w → w.func = f →
    ix.byFunc.parked.getInner f k = some w

/-- All tracked pods of the node are parked for it. -/
def NodeAwaited (ix : PodIndex) (n : String) : Prop :=
  ∀ (k : String) (w : WorkerPod), ix.pods[k]? = some w → w.node = n →
    ix.byNode.parked.getInner n k = some w

theorem FuncArrivable.leaveFunc {f g : String} (h : ix.FuncArrivable g) :
    (ix.leaveFunc f).FuncArrivable g := by
  intro k w hw
  replace hw : BTreeMap.getInner (ix.byFunc.parked.erase f) g k = some w := hw
  rw [BTreeMap.getInner_erase] at hw
  split at hw
  next => cases hw
  next => exact h k w hw

theorem FuncAwaited.leaveFunc {f g : String} (h : ix.FuncAwaited g) (hne : g ≠ f) :
    (ix.leaveFunc f).FuncAwaited g := by
  intro k w hw hg
  show BTreeMap.getInner (ix.byFunc.parked.erase f) g k = some w
  rw [BTreeMap.getInner_erase, if_neg hne]
  exact h k w hw hg

theorem Full.enterFunc (h : ix.Full) {f : String} (hf : ix.FuncAwaited f) :
    (ix.enterFunc f).Full := { h with func := h.func.enter hf }

theorem Full.enterNode (h : ix.Full) {n : String} (hn : ix.NodeAwaited n) :
    (ix.enterNode n).Full := { h with node := h.node.enter hn }

theorem Full.leaveFunc (h : ix.Full) (f : String) : (ix.leaveFunc f).Full :=
  { h with func := h.func.close }

theorem Full.leaveNode (h : ix.Full) (n : String) : (ix.leaveNode n).Full :=
  { h with node := h.node.leave }

theorem Sound.enterFunc (h : ix.Sound) {f : String} (hf : ix.FuncArrivable f) :
    (ix.enterFunc f).Sound :=
  { h with func_tidy := h.func_tidy.enter, func := h.func.enter hf }

theorem Coherent.enterFunc (h : ix.Coherent) {f : String} (hf : ix.byFunc.known f = none) :
    (ix.enterFunc f).Coherent :=
  { h with
    func_sound := h.func_sound.congr fun _ _ => Filing.entry_enter hf
    func := h.func.congr fun _ _ => Filing.entry_enter hf }

theorem Sound.enterNode (h : ix.Sound) {n : String} (hn : ix.NodeArrivable n) :
    (ix.enterNode n).Sound :=
  { h with
    named := fun m m' hm => by
      unfold PodIndex.enterNode at hm
      dsimp only at hm
      rw [Function.update_apply] at hm
      split at hm
      next hmn => rw [hmn, Option.some.inj hm]
      next => exact h.named m m' hm
    node_tidy := h.node_tidy.enter
    node := h.node.enter hn }

theorem Coherent.enterNode (h : ix.Coherent) {n : String} (hn : ix.byNode.known n = none) :
    (ix.enterNode n).Coherent :=
  { h with
    node_sound := h.node_sound.congr fun _ _ => Filing.entry_enter hn
    node := h.node.congr fun _ _ => Filing.entry_enter hn }

theorem Sound.leaveFunc (h : ix.Sound) (f : String) : (ix.leaveFunc f).Sound :=
  { h with func_tidy := h.func_tidy.close, func := h.func.close }

theorem Coherent.leaveFunc (h : ix.Coherent) (hs : ix.Sound) {f : String}
    (hf : (ix.byFunc.known f).isSome) (hempty : ∀ k, ix.byFunc.entry f k = none) :
    (ix.leaveFunc f).Coherent :=
  { h with
    func_sound := h.func_sound.close hs.func_tidy hf
    func := h.func.close hs.func_tidy hf hempty }

theorem Sound.leaveNode (h : ix.Sound) (n : String) : (ix.leaveNode n).Sound :=
  { h with
    named := fun m m' hm => by
      unfold PodIndex.leaveNode at hm
      dsimp only at hm
      rw [Function.update_apply] at hm
      split at hm
      next => cases hm
      next => exact h.named m m' hm
    node_tidy := h.node_tidy.leave
    node := h.node.leave }

theorem Coherent.leaveNode (h : ix.Coherent) (hs : ix.Sound) {n : String}
    (hn : (ix.byNode.known n).isSome) (hempty : ∀ k, ix.byNode.entry n k = none) :
    (ix.leaveNode n).Coherent :=
  { h with
    node_sound := h.node_sound.leave hs.node_tidy hn
    node := h.node.leave hs.node_tidy hn hempty }

theorem Sound.unparkNode (h : ix.Sound) (n : String) : (ix.unparkNode n).Sound :=
  { h with node_tidy := h.node_tidy.unpark, node := h.node.unpark }

/-- The pods with keys in `keys` have gone from everywhere they are held. -/
structure Discarded (keys : List String) (ix ix' : PodIndex) : Prop where
  /-- they are not tracked -/
  pods : ∀ a : String, ix'.pods[a]? = if a ∈ keys then none else ix.pods[a]?
  /-- the nodes are as they were -/
  names : ix'.names = ix.names
  /-- no cell has been handed out -/
  nextWorker : ix'.nextWorker = ix.nextWorker
  /-- no known node holds them -/
  node : ∀ q m', ix'.byNode.known q = some m' → ∃ m, ix.byNode.known q = some m ∧
    ∀ a : String, m'[a]? = if a ∈ keys then none else m[a]?
  /-- no known function holds them -/
  func : ∀ q m', ix'.byFunc.known q = some m' → ∃ m, ix.byFunc.known q = some m ∧
    ∀ a : String, m'[a]? = if a ∈ keys then none else m[a]?
  /-- nothing is parked for a known node -/
  node_tidy : ix'.byNode.Tidy
  /-- nothing is parked for a known function -/
  func_tidy : ix'.byFunc.Tidy
  /-- in a coherent index they have no entries left with nodes -/
  node_entry : ix.Coherent → ∀ q a,
    ix'.byNode.entry q a = if a ∈ keys then none else ix.byNode.entry q a
  /-- they have no entries left with functions -/
  func_entry : ∀ q a, ix'.byFunc.entry q a = if a ∈ keys then none else ix.byFunc.entry q a

namespace Discarded

variable {keys : List String} {ix' : PodIndex}

theorem get (h : Discarded keys ix ix') {k : String} {w : WorkerPod} (hw : ix'.pods[k]? = some w) :
    ix.pods[k]? = some w := by
  rw [h.pods] at hw
  split at hw
  next => cases hw
  next => exact hw

theorem sound (h : Discarded keys ix ix') (hs : ix.Sound) : ix'.Sound where
  key k w hw := hs.key k w (h.get hw)
  ref_lt k w hw := h.nextWorker ▸ hs.ref_lt k w (h.get hw)
  ref_inj k k' w w' hw hw' := hs.ref_inj k k' w w' (h.get hw) (h.get hw')
  named := h.names ▸ hs.named
  node_tidy := h.node_tidy
  func_tidy := h.func_tidy
  node := hs.node.discard h.node h.pods
  func := hs.func.discard h.func h.pods

theorem full (h : Discarded keys ix ix') (hf : ix.Full) : ix'.Full where
  node := hf.node.discard h.node h.pods
  func := hf.func.discard h.func h.pods

theorem coherent (h : Discarded keys ix ix') (hc : ix.Coherent) : ix'.Coherent where
  node_sound := hc.node_sound.discard (h.node_entry hc) h.pods
  func_sound := hc.func_sound.discard h.func_entry h.pods
  node := hc.node.discard (h.node_entry hc) h.pods
  func := hc.func.discard h.func_entry h.pods

end Discarded

end PodIndex

/-- What the index keeps of the record of a node. -/
def NodeStatus.home (ns : NodeStatus) : String × BTreeMap String WorkerPod := (ns.node.name, ns.pods)

namespace SchedulerHandler

/-- The pods by node. -/
def byNode (s : SchedulerHandler) : Filing String String WorkerPod where
  known n := s.nodes[n]?.map (·.pods)
  parked := s.nodePods

/-- The pods by function. -/
def byFunc (s : SchedulerHandler) : Filing String String WorkerPod where
  known f := s.funcs[f]?.map (·.pods)
  parked := s.funcPods

/-- Where the pods are held. -/
def index (s : SchedulerHandler) : PodIndex where
  pods := s.pods
  byNode := s.byNode
  byFunc := s.byFunc
  names n := s.nodes[n]?.map fun ns => ns.node.name
  nextWorker := s.nextWorker

theorem known_node {s : SchedulerHandler} {n : String} {ns : NodeStatus}
    (hn : s.nodes[n]? = some ns) : s.byNode.known n = some ns.pods :=
  congrArg (Option.map NodeStatus.pods) hn

theorem unknown_node {s : SchedulerHandler} {n : String} (hn : s.nodes[n]? = none) :
    s.byNode.known n = none := congrArg (Option.map NodeStatus.pods) hn

theorem known_func {s : SchedulerHandler} {f : String} {fs : FuncStatus}
    (hf : s.funcs[f]? = some fs) : s.byFunc.known f = some fs.pods :=
  congrArg (Option.map FuncStatus.pods) hf

theorem unknown_func {s : SchedulerHandler} {f : String} (hf : s.funcs[f]? = none) :
    s.byFunc.known f = none := congrArg (Option.map FuncStatus.pods) hf

theorem pods_of_index {s s' : SchedulerHandler} (h : s'.index = s.index) : s'.pods = s.pods :=
  congrArg PodIndex.pods h

/-- The index only depends on five fields, and of the nodes on their homes. -/
theorem index_congr {s s' : SchedulerHandler} (hpods : s'.pods = s.pods)
    (hnodes : ∀ n : String, s'.nodes[n]?.map NodeStatus.home = s.nodes[n]?.map NodeStatus.home)
    (hfuncs : ∀ f : String, s'.funcs[f]?.map FuncStatus.pods = s.funcs[f]?.map FuncStatus.pods)
    (hnodePods : s'.nodePods = s.nodePods) (hfuncPods : s'.funcPods = s.funcPods)
    (hnext : s'.nextWorker = s.nextWorker) : s'.index = s.index := by
  have hknown : ∀ n : String, s'.nodes[n]?.map NodeStatus.pods = s.nodes[n]?.map NodeStatus.pods := by
    intro n
    have h := congrArg (Option.map Prod.snd) (hnodes n)
    rw [Option.map_map, Option.map_map] at h
    exact h
  have hnames : ∀ n : String, s'.nodes[n]?.map (fun ns => ns.node.name) =
      s.nodes[n]?.map fun ns => ns.node.name := by
    intro n
    have h := congrArg (Option.map Prod.fst) (hnodes n)
    rw [Option.map_map, Option.map_map] at h
    exact h
  unfold index byNode byFunc
  rw [hpods, funext hknown, funext hnames, funext hfuncs, hnodePods, hfuncPods, hnext]

variable (s : SchedulerHandler)

@[simp] theorem index_setCell (w : WorkerPod) (c : WorkerCell) :
    (s.setCell w c).index = s.index := rfl

@[simp] theorem index_setState (w : WorkerPod) (state : WorkerPodState) :
    (s.setState w state).index = s.index := rfl

@[simp] theorem index_setConsumer (w : WorkerPod) (t : Option String) :
    (s.setConsumer w t).index = s.index := rfl

@[simp] theorem index_setIdle (w : WorkerPod) : (s.setIdle w).index = s.index := rfl

@[simp] theorem index_putIdle (k : String) : (s.putIdle k).index = s.index := rfl

@[simp] theorem index_popIdle (k : String) : (s.popIdle k).index = s.index := rfl

@[simp] theorem index_markTerminating (env : Env) (w : WorkerPod) :
    (s.markTerminating env w).index = s.index := rfl

@[simp] theorem index_emit (e : Effect) : (s.emit e).index = s.index := rfl

@[simp] theorem index_addPendingSnapshot (f n : String) :
    (s.addPendingSnapshot f n).index = s.index := rfl

@[simp] theorem index_setSnapshotStatus (f n : String) (x : SnapshotScheduleState) :
    (s.setSnapshotStatus f n x).index = s.index := rfl

@[simp] theorem index_scheduleDelayedTask (env : Env) (d : ℕ) (t : SchedTask) :
    (s.scheduleDelayedTask env d t).index = s.index := rfl

@[simp] theorem index_removePendingSnapshot (f n : String) :
    (s.removePendingSnapshot f n).index = s.index := by
  unfold removePendingSnapshot
  rcases s.pendingsnapshots[f]? with _ | nodes
  · rfl
  · rfl

variable {s}

theorem index_modifyNode {n : String} {g : NodeStatus → NodeStatus}
    (hg : ∀ ns, (g ns).home = ns.home) : (s.modifyNode n g).index = s.index := by
  refine index_congr rfl (fun m => ?_) (fun _ => rfl) rfl rfl rfl
  unfold modifyNode
  rw [BTreeMap.get_modify]
  split
  next => rw [Option.map_map, show NodeStatus.home ∘ g = NodeStatus.home from funext hg]
  next => rfl

theorem index_modifyFunc {f : String} {g : FuncStatus → FuncStatus}
    (hg : ∀ fs, (g fs).pods = fs.pods) : (s.modifyFunc f g).index = s.index := by
  refine index_congr rfl (fun _ => rfl) (fun m => ?_) rfl rfl rfl
  unfold modifyFunc
  rw [BTreeMap.get_modify]
  split
  next => rw [Option.map_map, show (·.pods) ∘ g = FuncStatus.pods from funext hg]
  next => rfl

theorem index_insertNode {n : String} {ns ns' : NodeStatus} (hn : s.nodes[n]? = some ns)
    (hhome : ns'.home = ns.home) :
    ({ s with nodes := s.nodes.insert n ns' } : SchedulerHandler).index = s.index := by
  refine index_congr rfl (fun m => ?_) (fun _ => rfl) rfl rfl rfl
  rw [BTreeMap.get_insert]
  split
  next hm => rw [hm, hn, Option.map_some, Option.map_some, hhome]
  next => rfl

/-- A step that keeps the index, repeated along a list, keeps it. -/
theorem index_foldl {α : Type} {g : SchedulerHandler → α → SchedulerHandler}
    (hg : ∀ s a, (g s a).index = s.index) (l : List α) (s : SchedulerHandler) :
    (l.foldl g s).index = s.index := by
  induction l generalizing s with
  | nil => rfl
  | cons a l ih => rw [List.foldl_cons, ih, hg]

end SchedulerHandler

end Inferx
