import Mathlib.Logic.Basic
import Inferx.Lib.Runs
import Inferx.Scheduler.Handlers

/-!
# Coherence of the pod maps

Five maps hold the pods: `pods`, the records of the nodes and of the functions,
and the two maps in which pods are parked until their node or their function is
known. `PodsCoherent` is what these maps promise to each other.

The maps do lose pods: a function or a node that is deleted takes the pods it
holds out of the maps by function or by node, and a deleted pod stays where it
is parked. `podsCoherent_of_reach` is the promise for all runs in which neither
happens.
-/

namespace Inferx

open Proc SchedulerHandler

/-! ## The promise -/

/-- The record of the node holds the pod under the key. -/
def NodeHolds (s : SchedulerHandler) (n k : String) (w : WorkerPod) : Prop :=
  ∃ ns, s.nodes[n]? = some ns ∧ ns.pods[k]? = some w

/-- The record of the function holds the pod under the key. -/
def FuncHolds (s : SchedulerHandler) (f k : String) (w : WorkerPod) : Prop :=
  ∃ fs, s.funcs[f]? = some fs ∧ fs.pods[k]? = some w

/-- Every pod is with its node or parked for it, not both, and with its function
or parked for it, not both, and these maps hold no other pod. -/
structure PodsCoherent (s : SchedulerHandler) : Prop where
  /-- exactly one of the maps by node holds the pod -/
  node : ∀ (k : String) (w : WorkerPod), s.pods[k]? = some w →
    Xor (NodeHolds s w.pod.nodename k w) (s.nodePods.getInner w.pod.nodename k = some w)
  /-- exactly one of the maps by function holds the pod -/
  func : ∀ (k : String) (w : WorkerPod), s.pods[k]? = some w →
    Xor (FuncHolds s w.pod.funcKey k w) (s.funcPods.getInner w.pod.funcKey k = some w)
  /-- the maps by node hold no other pod -/
  node_only : ∀ (n k : String) (w : WorkerPod),
    NodeHolds s n k w ∨ s.nodePods.getInner n k = some w →
    s.pods[k]? = some w ∧ w.pod.nodename = n
  /-- the maps by function hold no other pod -/
  func_only : ∀ (f k : String) (w : WorkerPod),
    FuncHolds s f k w ∨ s.funcPods.getInner f k = some w →
    s.pods[k]? = some w ∧ w.pod.funcKey = f

theorem nodeHolds_iff {s : SchedulerHandler} {n k : String} {w : WorkerPod} :
    NodeHolds s n k w ↔ ∃ m, s.index.byNode.known n = some m ∧ m[k]? = some w := by
  constructor
  · rintro ⟨ns, hn, hw⟩
    exact ⟨ns.pods, known_node hn, hw⟩
  · rintro ⟨m, hm, hw⟩
    obtain ⟨ns, hn, rfl⟩ := Option.map_eq_some_iff.mp hm
    exact ⟨ns, hn, hw⟩

theorem funcHolds_iff {s : SchedulerHandler} {f k : String} {w : WorkerPod} :
    FuncHolds s f k w ↔ ∃ m, s.index.byFunc.known f = some m ∧ m[k]? = some w := by
  constructor
  · rintro ⟨fs, hf, hw⟩
    exact ⟨fs.pods, known_func hf, hw⟩
  · rintro ⟨m, hm, hw⟩
    obtain ⟨fs, hf, rfl⟩ := Option.map_eq_some_iff.mp hm
    exact ⟨fs, hf, hw⟩

section Filing

variable {F : Filing String String WorkerPod} {p k : String} {w : WorkerPod}

/-- In a tidy filing an entry is in exactly one place. -/
theorem xor_of_entry (hF : F.Tidy) (h : F.entry p k = some w) :
    Xor (∃ m, F.known p = some m ∧ m[k]? = some w) (F.parked.getInner p k = some w) := by
  rcases hp : F.known p with _ | m
  · rw [Filing.entry_of_unknown hp] at h
    exact Or.inr ⟨h, fun ⟨_, hm, _⟩ => nomatch hm⟩
  · rw [Filing.entry_of_known hp] at h
    refine Or.inl ⟨⟨m, rfl, h⟩, fun hparked => ?_⟩
    have hnone := hF p k (by rw [hp]; rfl)
    exact absurd (hnone.symm.trans hparked) nofun

/-- In a tidy filing both places are entries. -/
theorem entry_of_or (hF : F.Tidy)
    (h : (∃ m, F.known p = some m ∧ m[k]? = some w) ∨ F.parked.getInner p k = some w) :
    F.entry p k = some w := by
  rcases h with ⟨m, hm, hw⟩ | hw
  · rw [Filing.entry_of_known hm]
    exact hw
  · rcases hp : F.known p with _ | m
    · rw [Filing.entry_of_unknown hp]
      exact hw
    · have hnone := hF p k (by rw [hp]; rfl)
      exact absurd (hnone.symm.trans hw) nofun

end Filing

/-- A coherent index is the promise. -/
theorem podsCoherent_of_index {s : SchedulerHandler} (hs : s.index.Sound) (hc : s.index.Coherent) :
    PodsCoherent s where
  node k w hw := by
    rw [nodeHolds_iff]
    exact xor_of_entry hs.node_tidy (hc.node k w hw)
  func k w hw := by
    rw [funcHolds_iff]
    exact xor_of_entry hs.func_tidy (hc.func k w hw)
  node_only n k w h := by
    rw [nodeHolds_iff] at h
    exact hc.node_sound n k w (entry_of_or hs.node_tidy h)
  func_only f k w h := by
    rw [funcHolds_iff] at h
    exact hc.func_sound f k w (entry_of_or hs.func_tidy h)

/-! ## Runs -/

namespace Fresh

variable {s : SchedulerHandler}

theorem known_node (h : Fresh s) (n : String) : s.index.byNode.known n = none := by
  show s.nodes[n]?.map NodeStatus.pods = none
  rw [h.nodes]
  simp

theorem known_func (h : Fresh s) (f : String) : s.index.byFunc.known f = none := by
  show s.funcs[f]?.map FuncStatus.pods = none
  rw [h.funcs]
  simp

theorem get (h : Fresh s) (k : String) : s.pods[k]? = none := by
  rw [h.pods]
  simp

theorem parked_node (h : Fresh s) (n k : String) : s.index.byNode.parked.getInner n k = none := by
  show s.nodePods.getInner n k = none
  rw [h.nodePods]
  simp [BTreeMap.getInner]

theorem entry_node (h : Fresh s) (n k : String) : s.index.byNode.entry n k = none := by
  rw [Filing.entry_of_unknown (h.known_node n)]
  exact h.parked_node n k

theorem entry_func (h : Fresh s) (f k : String) : s.index.byFunc.entry f k = none := by
  rw [Filing.entry_of_unknown (h.known_func f)]
  show s.funcPods.getInner f k = none
  rw [h.funcPods]
  simp [BTreeMap.getInner]

theorem sound (h : Fresh s) : s.index.Sound where
  key k w hw := absurd ((h.get k).symm.trans hw) nofun
  ref_lt k w hw := absurd ((h.get k).symm.trans hw) nofun
  ref_inj k _ w _ hw := absurd ((h.get k).symm.trans hw) nofun
  named n m hm := by
    replace hm : s.nodes[n]?.map (fun ns => ns.node.name) = some m := hm
    rw [h.nodes] at hm
    simp at hm
  node_tidy n k hn := by
    rw [h.known_node] at hn
    cases hn
  func_tidy f k hf := by
    rw [h.known_func] at hf
    cases hf
  node n m k _ hm := absurd ((h.known_node n).symm.trans hm) nofun
  func f m k _ hm := absurd ((h.known_func f).symm.trans hm) nofun

theorem full (h : Fresh s) : s.index.Full where
  node k _ _ hw := absurd ((h.get k).symm.trans hw) nofun
  func k _ _ hw := absurd ((h.get k).symm.trans hw) nofun

theorem coherent (h : Fresh s) : s.index.Coherent where
  node_sound n k _ hw := absurd ((h.entry_node n k).symm.trans hw) nofun
  func_sound f k _ hw := absurd ((h.entry_func f k).symm.trans hw) nofun
  node k _ hw := absurd ((h.get k).symm.trans hw) nofun
  func k _ hw := absurd ((h.get k).symm.trans hw) nofun

end Fresh

/-- In a coherent index whoever arrives finds tracked pods only. -/
theorem arrivalOk_of_coherent {s : SchedulerHandler} (hs : s.index.Sound) (hc : s.index.Coherent)
    (h : Handler) : h.ArrivalOk s := by
  have hnode : ∀ n, s.index.NodeArrivable n := fun n k w hw =>
    hc.node_sound n k w (entry_of_or hs.node_tidy (Or.inr hw))
  have hfunc : ∀ f, s.index.FuncArrivable f := fun f k w hw =>
    hc.func_sound f k w (entry_of_or hs.func_tidy (Or.inr hw))
  unfold Handler.ArrivalOk
  split
  next => exact hfunc _
  next => exact hfunc _
  next => exact hnode _
  next => exact fun _ => hnode _
  next => exact fun _ => hnode _
  next => trivial

/-- The index is coherent throughout. -/
theorem index_of_reach {s : SchedulerHandler}
    (h : Reach next Fresh (fun s c => c.2.HomeOk s ∧ c.2.CoherentOk s) s) :
    s.index.Sound ∧ s.index.Coherent := by
  refine h.invariant (I := fun s => s.index.Sound ∧ s.index.Coherent)
    (fun s hs => ⟨hs.sound, hs.coherent⟩) ?_
  rintro s c t ⟨hs, hc⟩ ⟨hhome, hcok⟩ hnext
  have hok : c.2.IndexOk s := ⟨hhome, arrivalOk_of_coherent hs hc c.2⟩
  exact ⟨next_sound hs hok hnext, next_coherent hs hok hcok hnext hc⟩

/-- **Coherence of the pod maps.** In every run of handlers in which reports of
pods keep to their node and function, functions and nodes leave when they hold
no pod, and pods are not deleted while they are parked, the maps are coherent. -/
theorem podsCoherent_of_reach {s : SchedulerHandler}
    (h : Reach next Fresh (fun s c => c.2.HomeOk s ∧ c.2.CoherentOk s) s) : PodsCoherent s :=
  podsCoherent_of_index (index_of_reach h).1 (index_of_reach h).2

/-! ## A small cluster -/

namespace Sample

/-- A function. -/
def func : Function where
  tenant := "t"
  nameSpace := "s"
  name := "f"
  version := 1
  resources := { memory := 10, readyMemory := 5, gpu := { gpuCount := 1, vRam := 20 } }

/-- The GPU of the node, with the given number of free slots. -/
def gpus (slots : ℤ) : GPUResourceMap where
  totalSlotCnt := 100
  map := (∅ : BTreeMap ℤ GPUAlloc).insert 0 { contextCnt := 10, slotCnt := slots, ncclCnt := 10 }
  slotSize := 1048576

/-- A node. -/
def node : Node where
  name := "n"
  resources :=
    { nodename := "n", cpu := 100, memory := 1000, cacheMemory := 1000, gpuType := ⟨"A"⟩,
      gpus := gpus 100, maxContextCnt := 2 }
  state := .nodeAgentReady

/-- What a pod occupies. -/
def alloc : NodeResources := { nodename := "n", gpuType := ⟨"A"⟩, memory := 1 }

/-- A pod of the function on the node. -/
def pod (id : String) (state : PodState) : FuncPod where
  tenant := "t"
  nameSpace := "s"
  funcname := "f"
  fprevision := 1
  id := id
  nodename := "n"
  reqResources := func.resources
  allocResources := alloc
  state := state

/-- A loaded snapshot of the function on the node. -/
def readySnapshot : FuncSnapshot where
  srcEpoch := 0
  object := { funckey := func.id, nodename := "n", state := .ready }

/-- A store event. -/
def event (e : DeltaEvent) : Call := ({}, .event e)

/-- A message. -/
def msg (m : WorkerHandlerMsg) : Call := ({}, .msg m)

end Sample

theorem podsCoherent_of_early_pod :
    (calls {} [Sample.event (.podAdded (Sample.pod "1" .standby)),
      Sample.event (.funcAdded Sample.func), Sample.event (.nodeAdded Sample.node)]).isSome ∧
    PodsCoherent (after [Sample.event (.podAdded (Sample.pod "1" .standby)),
      Sample.event (.funcAdded Sample.func), Sample.event (.nodeAdded Sample.node)]) := by
  refine ⟨by decide +kernel, podsCoherent_of_reach ?_⟩
  refine .step (c := Sample.event (.nodeAdded Sample.node)) (.step
    (c := Sample.event (.funcAdded Sample.func)) (.step
    (c := Sample.event (.podAdded (Sample.pod "1" .standby))) (.init fresh_new) ?_
    (next_after (l := []) (by decide +kernel))) ⟨trivial, trivial⟩
    (next_after (l := [_]) (by decide +kernel))) ?_ (next_after (l := [_, _]) (by decide +kernel))
  · refine ⟨trivial, fun hnew => absurd hnew ?_⟩
    decide +kernel
  · refine ⟨trivial, fun hnew => absurd hnew ?_⟩
    decide +kernel

/-! ## The order of the store -/

/-- The objects of the store. -/
inductive StoreKey where
  | func (tenant nameSpace name : String)
  | node (name : String)
  | pod (key : String)
  deriving DecidableEq

/-- What happens to an object. -/
inductive Change where
  | added | modified | deleted
  deriving DecidableEq

/-- The object an event is about, and what has happened to it. -/
def DeltaEvent.change : DeltaEvent → Option (StoreKey × Change)
  | .funcAdded f => some (.func f.tenant f.nameSpace f.name, .added)
  | .funcModified f _ => some (.func f.tenant f.nameSpace f.name, .modified)
  | .funcDeleted f => some (.func f.tenant f.nameSpace f.name, .deleted)
  | .nodeAdded node => some (.node node.name, .added)
  | .nodeModified node => some (.node node.name, .modified)
  | .nodeDeleted node => some (.node node.name, .deleted)
  | .podAdded pod => some (.pod pod.podKey, .added)
  | .podModified pod => some (.pod pod.podKey, .modified)
  | .podDeleted pod => some (.pod pod.podKey, .deleted)
  | _ => none

/-- Any number of modifications, and a deletion at the end. -/
def modifiedThenDeleted : List Change → Bool
  | [] => true
  | [.deleted] => true
  | .modified :: l => modifiedThenDeleted l
  | _ => false

/-- One addition, any number of modifications, and a deletion at the end. -/
def oneLife : List Change → Bool
  | [] => true
  | .added :: l => modifiedThenDeleted l
  | _ => false

/-- The changes of one object. -/
def changesOf (key : StoreKey) (l : List DeltaEvent) : List Change :=
  l.filterMap fun e => e.change.bind fun p => if p.1 = key then some p.2 else none

/-- The events of each object are in order. -/
def WellOrdered (l : List DeltaEvent) : Prop :=
  ∀ e ∈ l, ∀ p ∈ e.change, oneLife (changesOf p.1 l) = true

instance (l : List DeltaEvent) : Decidable (WellOrdered l) :=
  inferInstanceAs (Decidable (∀ e ∈ l, ∀ p ∈ e.change, oneLife (changesOf p.1 l) = true))

/-- A function is deleted while it has a pod. -/
def Sample.funcLeaves : List DeltaEvent :=
  [.nodeAdded node, .funcAdded func, .podAdded (pod "1" .standby), .funcDeleted func]

/-- The pod of a deleted function is still tracked, but no map by function holds
it. -/
theorem funcDeleted_loses_pod : ¬ ∀ (l : List DeltaEvent) (t : SchedulerHandler),
    WellOrdered l → calls {} (l.map Sample.event) = some t → PodsCoherent t := by
  intro h
  have hcoherent := h Sample.funcLeaves _ (by decide +kernel) (calls_eq_after (by decide +kernel))
  have htracked : ((after (Sample.funcLeaves.map Sample.event)).pods["t/s/f/1/1"]?.map
      fun w => w.pod.funcKey) = some "t/s/f/1" := by
    decide +kernel
  obtain ⟨w, hw, hfunc⟩ := Option.map_eq_some_iff.mp htracked
  rcases (hcoherent.func _ w hw).or with ⟨fs, hfs, -⟩ | hparked
  · rw [hfunc] at hfs
    have hnone : ((after (Sample.funcLeaves.map Sample.event)).funcs["t/s/f/1"]?).isNone := by
      decide +kernel
    exact absurd (hfs.symm.trans (Option.isNone_iff_eq_none.mp hnone)) nofun
  · rw [hfunc] at hparked
    have hnone : ((after (Sample.funcLeaves.map Sample.event)).funcPods.getInner "t/s/f/1"
        "t/s/f/1/1").isNone := by
      decide +kernel
    exact absurd (hparked.symm.trans (Option.isNone_iff_eq_none.mp hnone)) nofun

/-! ## Pod events do not panic -/

/-- The panics that a pod map out of step leads to. -/
def PodPanic (p : Panic) : Prop :=
  p = .addPodExists ∨ p = .updatePodMissing ∨ p = .nodeUpdatePodMissing ∨
    p = .funcUpdatePodMissing ∨ p = .removePodMissing

theorem Calm.not_podPanic {p : Panic} (h : Calm p) : ¬ PodPanic p := by
  rintro (hp | hp | hp | hp | hp)
  · exact h.1 hp
  · exact h.2.1 hp
  · exact h.2.2.1 hp
  · exact h.2.2.2.1 hp
  · exact h.2.2.2.2.1 hp

/-- The scheduler, and the pods that are in the store as far as it has been
told. -/
structure Watched where
  /-- the scheduler -/
  sched : SchedulerHandler := {}
  /-- the keys of the pods in the store -/
  store : Finset String := ∅

/-- The pods in the store after an event. -/
def Handler.storeAfter (store : Finset String) : Handler → Finset String
  | .event (.podAdded pod) => insert pod.podKey store
  | .event (.podDeleted pod) => store.erase pod.podKey
  | _ => store

/-- The events of a pod come in store order: it is added when it is not in the
store, and modified and deleted when it is. -/
def Handler.StoreOrder (store : Finset String) : Handler → Prop
  | .event (.podAdded pod) => pod.podKey ∉ store
  | .event (.podModified pod) => pod.podKey ∈ store
  | .event (.podDeleted pod) => pod.podKey ∈ store
  | _ => True

/-- One call. -/
def Watched.next (x : Watched) (c : Call) : Option Watched :=
  (x.sched.next c).map fun t => ⟨t, c.2.storeAfter x.store⟩

/-- No pod is tracked on the node. -/
def NoPodsOn (s : SchedulerHandler) (n : String) : Prop :=
  ∀ (k : String) (w : WorkerPod), s.pods[k]? = some w → w.pod.nodename ≠ n

/-- The scheduler drops no pod on its own: a node gets a new epoch when it has
no pod, and its agent restarts when its pods are standby or ready. -/
def Handler.KeepsPods (s : SchedulerHandler) : Handler → Prop
  | .event (.nodeAdded node) => NewEpoch s node.name node.nodeEpoch → NoPodsOn s node.name
  | .event (.podAdded pod) => NewEpoch s pod.nodename pod.srcEpoch → NoPodsOn s pod.nodename
  | .event (.snapshotAdded snapshot) =>
    NewEpoch s snapshot.object.nodename snapshot.srcEpoch → NoPodsOn s snapshot.object.nodename
  | .event (.nodeModified node) => Restarted s node →
    ∀ (k : String) (w : WorkerPod), s.pods[k]? = some w → w.pod.nodename = node.name →
      w.pod.state = .standby ∨ w.pod.state = .ready
  | _ => True

/-- What a run has to keep to. -/
structure Watched.Ok (x : Watched) (c : Call) : Prop where
  /-- pod events come in store order -/
  order : c.2.StoreOrder x.store
  /-- they keep to the node and the function of the pod -/
  home : c.2.HomeOk x.sched
  /-- nodes and functions that arrive find tracked pods only -/
  arrival : c.2.ArrivalOk x.sched
  /-- and all that are theirs -/
  full : c.2.FullOk x.sched
  /-- no pod is dropped -/
  keeps : c.2.KeepsPods x.sched

/-- Acts that neither begin nor end the tracking of a pod. -/
def Act.Keeps : Act → Prop
  | .added _ | .removed | .dropped => False
  | _ => True

theorem Path.entry_isSome {A : Act → Prop} {a b : Slot} (h : Path A a b)
    (hA : ∀ act, A act → act.Keeps) : b.entry.isSome = a.entry.isSome := by
  refine h.invariant (I := fun x => x.entry.isSome = a.entry.isSome) ?_ rfl
  intro act x y hact hstep hx
  have hkeeps := hA act hact
  cases hstep with
  | added => exact hkeeps.elim
  | removed => exact hkeeps.elim
  | dropped => exact hkeeps.elim
  | _ => exact hx

theorem slot_isSome (s : SchedulerHandler) (k : String) :
    (s.slot k).entry.isSome = (s.pods[k]?).isSome := Option.isSome_map ..

theorem MakesRoom.keeps {act : Act} (h : MakesRoom act) : act.Keeps := by
  rcases h with rfl | rfl
  · trivial
  · trivial

theorem Prewarms.keeps {act : Act} (h : Prewarms act) : act.Keeps := by
  rcases h with h | rfl
  · exact h.keeps
  · trivial

theorem StopOf.keeps {ix : PodIndex} {F : String → Prop} {k : String} {act : Act}
    (h : StopOf ix F k act) : act.Keeps := by
  rw [h.1]
  trivial

/-- A restart that finds standby and ready pods only drops none. -/
theorem Path.entry_isSome_of_reconcile {s : SchedulerHandler} {n k : String} {b : Slot}
    (hpods : ∀ (k : String) (w : WorkerPod), s.pods[k]? = some w → w.pod.nodename = n →
      w.pod.state = .standby ∨ w.pod.state = .ready)
    (h : Path (ReconcileOf s n k) (s.slot k) b) : b.entry.isSome = (s.slot k).entry.isSome := by
  rcases hk : s.pods[k]? with _ | w
  · refine h.entry_isSome fun act hact => ?_
    obtain ⟨w, hw, -⟩ := hact.2
    exact absurd (hk.symm.trans hw) nofun
  · -- the pod object does not change, so its state never allows to drop it
    have hpod : ∃ c, b.entry = some (w.pod, c) := by
      refine h.invariant (I := fun x => ∃ c, x.entry = some (w.pod, c)) ?_
        ⟨s.workers w.ref, ?_⟩
      · rintro act x y ⟨hact, w', hw', hn⟩ hstep ⟨c, hx⟩
        rcases hact with rfl | rfl | rfl
        · obtain rfl := Option.some.inj (hk.symm.trans hw')
          cases hstep with
          | dropped hstandby hready =>
            obtain ⟨rfl, -⟩ := Prod.mk.inj (Option.some.inj hx)
            rcases hpods k w hk hn with hstate | hstate
            · exact absurd hstate hstandby
            · exact absurd hstate hready
        · cases hstep
          obtain ⟨rfl, -⟩ := Prod.mk.inj (Option.some.inj hx)
          exact ⟨_, rfl⟩
        · cases hstep
          obtain ⟨rfl, -⟩ := Prod.mk.inj (Option.some.inj hx)
          exact ⟨_, rfl⟩
      · rw [slot_of_tracked hk]
    obtain ⟨c, hc⟩ := hpod
    rw [hc, slot_of_tracked hk]
    rfl

/-- A handler that is not about a new or a deleted pod, and drops none, tracks
the same pods. -/
theorem tracked_of_next {s t : SchedulerHandler} {c : Call} (hs : s.index.Sound)
    (hok : c.2.IndexOk s) (hkeeps : c.2.KeepsPods s) (hnext : s.next c = some t)
    (hadded : ∀ pod, c.2 ≠ .event (.podAdded pod))
    (hdeleted : ∀ pod, c.2 ≠ .event (.podDeleted pod)) (k : String) :
    (t.pods[k]?).isSome = (s.pods[k]?).isSome := by
  have hpath := next_path hs hok hnext k
  rw [← slot_isSome, ← slot_isSome]
  obtain ⟨env, h⟩ := c
  cases h with
  | msg m =>
    refine hpath.entry_isSome fun act hact => ?_
    cases m with
    | connectScheduler req tx =>
      rcases hact with h | h
      · exact h.keeps
      · rw [h.1]
        trivial
    | leaseWorker req tx =>
      rcases hact with h | rfl | h
      · exact h.keeps
      · trivial
      · rw [h.1]
        trivial
    | returnWorker req tx =>
      rw [hact.2]
      split
      · trivial
      · trivial
    | killPod req tx =>
      obtain ⟨-, w, -, ⟨rfl, -⟩ | ⟨rfl, -⟩ | ⟨rfl, -⟩⟩ := hact
      · trivial
      · trivial
      · trivial
    | cleanupDuplicateSnapshot rpc =>
      rw [hact.1]
      trivial
    | resumeWorkerComplete rpc result =>
      rcases hact.2 with h | h
      · rw [h.2]
        trivial
      · rw [h.1]
        trivial
    | startWorkerComplete rpc result =>
      rw [hact.2.1]
      trivial
    | refreshGateway => exact hact.elim
    | removeSnapshotComplete => exact hact.elim
    | stopWorkerComplete => exact hact.elim
  | event e =>
    cases e with
    | podAdded pod => exact absurd rfl (hadded pod)
    | podDeleted pod => exact absurd rfl (hdeleted pod)
    | nodeModified node =>
      by_cases hrestart : Restarted s node
      · refine Path.entry_isSome_of_reconcile (hkeeps hrestart) (hpath.mono fun act hact => ?_)
        exact hact.2
      · exact hpath.entry_isSome fun act hact => absurd hact.1 hrestart
    | funcAdded func => exact hpath.entry_isSome fun act hact => Prewarms.keeps hact
    | funcModified oldspec spec =>
      exact hpath.entry_isSome fun act hact => hact.elim Prewarms.keeps StopOf.keeps
    | funcDeleted spec =>
      exact hpath.entry_isSome fun act (hact : StopOf s.index (· = spec.id) k act) => hact.keeps
    | nodeAdded node =>
      refine hpath.entry_isSome fun act hact => ?_
      obtain ⟨hnew, -, w, hw, hn⟩ := hact
      exact absurd hn (hkeeps hnew k w hw)
    | snapshotAdded snapshot =>
      refine hpath.entry_isSome fun act hact => ?_
      obtain ⟨hnew, -, w, hw, hn⟩ := hact
      exact absurd hn (hkeeps hnew k w hw)
    | podModified pod =>
      refine hpath.entry_isSome fun act hact => ?_
      obtain ⟨-, hact⟩ := hact
      cases act with
      | rebuilt => trivial
      | granted => trivial
      | settled => trivial
      | _ => exact hact.elim
    | _ => exact hpath.entry_isSome fun act hact => hact.elim
  | task => exact hpath.entry_isSome fun act hact => MakesRoom.keeps hact
  | warmup => exact hpath.entry_isSome fun act hact => Prewarms.keeps hact
  | refresh => exact hpath.entry_isSome fun act hact => Prewarms.keeps hact
  | cleanPods =>
    exact hpath.entry_isSome fun act (hact : StopOf s.index (UnknownFunc s) k act) => hact.keeps
  | gatewayTimeout =>
    refine hpath.entry_isSome fun act hact => ?_
    obtain ⟨g, -, rfl⟩ := hact
    trivial
  | _ => exact hpath.entry_isSome fun act hact => hact.elim

/-- A pod that has been added is tracked, and no other has come or gone. -/
theorem tracked_of_podAdded {s t : SchedulerHandler} {env : Env} {pod : FuncPod} (hs : s.index.Sound)
    (hok : (Handler.event (.podAdded pod)).IndexOk s)
    (hkeeps : (Handler.event (.podAdded pod)).KeepsPods s)
    (hnext : s.next (env, .event (.podAdded pod)) = some t) (k : String) :
    (t.pods[k]?).isSome ↔ k = pod.podKey ∨ (s.pods[k]?).isSome := by
  have hwp : ((Handler.event (.podAdded pod)).run env).wp
      (fun _ t => ∀ k, (t.slot k).entry.isSome ↔ k = pod.podKey ∨ (s.slot k).entry.isSome)
      (fun _ _ => False) (fun _ => True) { s with out := [] } := by
    show (checkNodeEpoch env pod.nodename pod.srcEpoch >>= fun _ => addPod env pod).wp _ _ _ _
    rw [wp_bind]
    refine wp_mono (checkNodeEpoch_spec env pod.nodename pod.srcEpoch
      (s := { s with out := [] }) hs hok.2) (fun _ u hu => ?_) (fun _ _ h => h) fun _ _ => trivial
    have hslot : ∀ k, (u.slot k).entry.isSome = (s.slot k).entry.isSome ∧ u.index.Keyed := by
      intro k
      rcases hu with ⟨-, hlife⟩ | ⟨hnew, hempty⟩
      · rw [slot_of_life hlife]
        exact ⟨rfl, (index_of_life hlife).symm ▸ hs.toKeyed⟩
      · refine ⟨(hempty.path k).entry_isSome fun act hact => ?_, hempty.sound.toKeyed⟩
        obtain ⟨-, w, hw, hn⟩ := hact
        exact absurd hn (hkeeps hnew k w hw)
    refine wp_mono (addPod_spec env pod (hslot "").2) (fun _ v hv k => ?_) (fun _ _ h => h)
      fun _ _ => trivial
    obtain ⟨-, -, hslotv⟩ := life_eq.mp hv.2
    rw [hslotv, Function.update_apply]
    split
    next hk => simp [hk, addedSlot]
    next hk => rw [(hslot k).1, or_iff_right hk]
  have hall := wp_state (I := fun t => ∀ k, (t.slot k).entry.isSome ↔
    k = pod.podKey ∨ (s.slot k).entry.isSome) (wp_mono hwp (fun _ _ h => h) (fun _ _ h => h.elim)
    fun _ h => h) hnext
  rw [← slot_isSome, ← slot_isSome]
  exact hall k

/-- A pod that has been deleted is not tracked, and no other has come or gone. -/
theorem tracked_of_podDeleted {s t : SchedulerHandler} {env : Env} {pod : FuncPod}
    (hnext : s.next (env, .event (.podDeleted pod)) = some t) (k : String) :
    (t.pods[k]?).isSome ↔ k ≠ pod.podKey ∧ (s.pods[k]?).isSome := by
  have hwp : ((Handler.event (.podDeleted pod)).run env).wp
      (fun _ t => t.pods = s.pods.erase pod.podKey) (fun _ _ => False) (fun _ => True)
      { s with out := [] } := by
    refine wp_mono (removePod_spec env pod) (fun _ u hu => ?_) (fun _ _ h => h) fun _ _ => trivial
    exact congrArg (fun l => l.1.pods) hu.2
  have hpods := wp_state (I := fun t => t.pods = s.pods.erase pod.podKey)
    (wp_mono hwp (fun _ _ h => h) (fun _ _ h => h.elim) fun _ h => h) hnext
  rw [hpods, BTreeMap.get_erase]
  split
  next hk => simp [hk]
  next hk => simp [hk]

/-- The index is sound and full, and the tracked pods are those of the store. -/
structure Watched.Inv (x : Watched) : Prop where
  /-- the index is sound -/
  sound : x.sched.index.Sound
  /-- the index is full -/
  full : x.sched.index.Full
  /-- the pods of the store are tracked -/
  tracked : ∀ k, (x.sched.pods[k]?).isSome ↔ k ∈ x.store

theorem Watched.Inv.next {x y : Watched} {c : Call} (hx : x.Inv) (hok : x.Ok c)
    (hnext : x.next c = some y) : y.Inv := by
  obtain ⟨t, ht, rfl⟩ := Option.map_eq_some_iff.mp hnext
  have hindex : c.2.IndexOk x.sched := ⟨hok.home, hok.arrival⟩
  refine ⟨next_sound hx.sound hindex ht, next_full hx.sound hindex hok.full ht hx.full, fun k => ?_⟩
  obtain ⟨env, h⟩ := c
  by_cases hadded : ∃ pod, h = .event (.podAdded pod)
  · obtain ⟨pod, rfl⟩ := hadded
    rw [tracked_of_podAdded hx.sound hindex hok.keeps ht, hx.tracked]
    exact Finset.mem_insert.symm
  · by_cases hdeleted : ∃ pod, h = .event (.podDeleted pod)
    · obtain ⟨pod, rfl⟩ := hdeleted
      rw [tracked_of_podDeleted ht, hx.tracked]
      exact Finset.mem_erase.symm
    · rw [tracked_of_next hx.sound hindex hok.keeps ht (fun pod h => hadded ⟨pod, h⟩)
        fun pod h => hdeleted ⟨pod, h⟩, hx.tracked]
      have hstore : h.storeAfter x.store = x.store := by
        unfold Handler.storeAfter
        split
        next pod => exact absurd ⟨pod, rfl⟩ hadded
        next pod => exact absurd ⟨pod, rfl⟩ hdeleted
        next => rfl
      rw [hstore]

/-- A further report of a tracked pod finds it wherever it looks. -/
theorem not_podPanic_of_report {s : SchedulerHandler} {pod : FuncPod} {p : Panic}
    (hf : s.index.Full) (hhome : s.index.SameHome pod) (htracked : (s.pods[pod.podKey]?).isSome)
    (hp : ReportPanics s pod p) : ¬ PodPanic p := by
  obtain ⟨w, hw⟩ := Option.isSome_iff_exists.mp htracked
  obtain ⟨hnode, hfunc⟩ := hhome w hw
  rcases hp with hcalm | ⟨-, hnone⟩ | ⟨-, m, hm, hmiss⟩ | ⟨-, m, hm, hmiss⟩
  · exact hcalm.not_podPanic
  · exact absurd (hnone.symm.trans hw) nofun
  · have hheld := hf.node _ w m hw (by rw [WorkerPod.node, hnode]; exact hm)
    rw [Std.ExtTreeMap.contains_eq_isSome_getElem?, hheld] at hmiss
    cases hmiss
  · have hheld := hf.func _ w m hw (by rw [WorkerPod.func, hfunc]; exact hm)
    rw [Std.ExtTreeMap.contains_eq_isSome_getElem?, hheld] at hmiss
    cases hmiss

/-- **Pod events do not panic.** In every run that delivers the events of each
pod in store order and in which the scheduler does not drop pods on its own, no
handler panics over the pod maps. -/
theorem no_podPanic {x : Watched} {c : Call} {p : Panic}
    (h : Reach Watched.next (fun x => Fresh x.sched ∧ x.store = ∅) Watched.Ok x) (hc : x.Ok c)
    (hp : (x.sched.call c).panic? = some p) : ¬ PodPanic p := by
  have hx : x.Inv := by
    refine h.invariant ?_ fun x c y hx hok hnext => hx.next hok hnext
    rintro x ⟨hfresh, hstore⟩
    refine ⟨hfresh.sound, hfresh.full, fun k => ?_⟩
    rw [hfresh.get, hstore]
    simp
  have hpanic := call_panics hx.sound ⟨hc.home, hc.arrival⟩ hp
  obtain ⟨env, h⟩ := c
  unfold Handler.Panics at hpanic
  split at hpanic
  next heq =>
    rcases hpanic with hcalm | ⟨rfl, -⟩
    · exact hcalm.not_podPanic
    · simp [PodPanic]
  next pod heq =>
    obtain rfl : h = .event (.podAdded pod) := heq
    rcases hpanic with hcalm | ⟨-, htracked⟩
    · exact hcalm.not_podPanic
    · exact absurd ((hx.tracked _).mp htracked) hc.order
  next pod heq =>
    obtain rfl : h = .event (.podModified pod) := heq
    exact not_podPanic_of_report hx.full hc.home ((hx.tracked _).mpr hc.order) hpanic
  next pod heq =>
    obtain rfl : h = .event (.podDeleted pod) := heq
    rcases hpanic with hcalm | ⟨-, hnone⟩
    · exact hcalm.not_podPanic
    · have htracked := (hx.tracked _).mpr hc.order
      rw [hnone] at htracked
      cases htracked
  next => exact Calm.not_podPanic hpanic

/-! ### Runs of the small cluster -/

/-- A new scheduler and the store after some calls. -/
def Watched.after (l : List Call) : Watched where
  sched := Inferx.after l
  store := l.foldl (fun store c => c.2.storeAfter store) ∅

theorem Watched.next_after {l : List Call} {c : Call} (h : (calls {} (l ++ [c])).isSome) :
    (Watched.after l).next c = some (Watched.after (l ++ [c])) := by
  unfold Watched.next Watched.after
  rw [Inferx.next_after h, List.foldl_append]
  rfl

namespace Sample

/-- The node, with its agent connected but not ready. -/
def startingNode : Node := { node with state := .nodeAgentConnected }

/-- A pod is reported on a node whose agent then restarts. -/
def restart (state : PodState) : List Call :=
  [event (.nodeAdded startingNode), event (.podAdded (pod "1" state)), event (.nodeModified node)]

end Sample

theorem reach_restart {ok : Watched → Call → Prop} (state : PodState)
    (hrun : ((calls {} [Sample.event (.nodeAdded Sample.startingNode)]).isSome ∧
      (calls {} [Sample.event (.nodeAdded Sample.startingNode),
        Sample.event (.podAdded (Sample.pod "1" state))]).isSome) ∧
      (calls {} (Sample.restart state)).isSome)
    (h₁ : ok (Watched.after []) (Sample.event (.nodeAdded Sample.startingNode)))
    (h₂ : ok (Watched.after [Sample.event (.nodeAdded Sample.startingNode)])
      (Sample.event (.podAdded (Sample.pod "1" state))))
    (h₃ : ok (Watched.after [Sample.event (.nodeAdded Sample.startingNode),
      Sample.event (.podAdded (Sample.pod "1" state))]) (Sample.event (.nodeModified Sample.node))) :
    Reach Watched.next (fun x => Fresh x.sched ∧ x.store = ∅) ok
      (Watched.after (Sample.restart state)) :=
  .step (.step (.step (.init ⟨fresh_new, rfl⟩) h₁ (Watched.next_after (l := []) hrun.1.1)) h₂
    (Watched.next_after (l := [_]) hrun.1.2)) h₃ (Watched.next_after (l := [_, _]) hrun.2)

/-- A ready pod survives the restart of its node agent. -/
theorem no_podPanic_after_restart :
    ((Watched.after (Sample.restart .ready)).sched.call
      (Sample.event (.podModified (Sample.pod "1" .ready)))).panic? ≠ some .updatePodMissing := by
  intro hp
  refine no_podPanic (reach_restart .ready (by decide +kernel) ?_ ?_ ?_) ?_ hp (Or.inr (Or.inl rfl))
  · refine ⟨trivial, trivial, fun k w hw => ?_, ⟨fun hnew => ?_, fun _ _ k w hw => ?_⟩, fun hnew => ?_⟩
    · have hnone := fresh_new.parked_node Sample.startingNode.name k
      exact absurd (hnone.symm.trans hw) nofun
    · exact absurd hnew (by decide +kernel)
    · have hnone := fresh_new.get k
      exact absurd (hnone.symm.trans hw) nofun
    · exact absurd hnew (by decide +kernel)
  · refine ⟨Finset.notMem_empty _, trivial, fun hnew => ?_, trivial, fun hnew => ?_⟩
    · exact absurd hnew (by decide +kernel)
    · exact absurd hnew (by decide +kernel)
  · refine ⟨trivial, trivial, trivial, trivial, fun _ k w hw _ => ?_⟩
    have hall : ∀ q ∈ (after [Sample.event (.nodeAdded Sample.startingNode),
        Sample.event (.podAdded (Sample.pod "1" .ready))]).pods.toList,
        q.2.pod.state = .standby ∨ q.2.pod.state = .ready := by
      decide +kernel
    exact hall (k, w) (BTreeMap.mem_toList.mpr hw)
  · have hstored : (Sample.pod "1" .ready).podKey ∈ (Watched.after (Sample.restart .ready)).store := by
      decide +kernel
    have hhome : (Watched.after (Sample.restart .ready)).sched.index.SameHome
        (Sample.pod "1" .ready) := by
      decide +kernel
    exact ⟨hstored, hhome, trivial, trivial, trivial⟩

/-- A pod that is still loading is dropped when its node agent restarts, and the
next report of it panics. -/
theorem podModified_panics_after_restart : ¬ ∀ (x : Watched) (c : Call) (p : Panic),
    Reach Watched.next (fun x => Fresh x.sched ∧ x.store = ∅) (fun x c => c.2.StoreOrder x.store) x →
    c.2.StoreOrder x.store → (x.sched.call c).panic? = some p → ¬ PodPanic p := by
  intro h
  refine h (Watched.after (Sample.restart .loading))
    (Sample.event (.podModified (Sample.pod "1" .ready))) .updatePodMissing
    (reach_restart .loading (by decide +kernel) trivial ?_ trivial) ?_ ?_ (Or.inr (Or.inl rfl))
  · exact Finset.notMem_empty _
  · show (Sample.pod "1" .ready).podKey ∈ (Watched.after (Sample.restart .loading)).store
    decide +kernel
  · decide +kernel

end Inferx
