import Inferx.Scheduler.Tracking

/-!
# Functions and nodes come and go

What the events about functions and nodes do to the index and to the pods. A
parent that enters takes its parked pods; one that leaves takes its pods out of
the index. A restart of a node agent discards the pods of the node that are
neither standby nor ready and sets the others anew; a new epoch of a node deletes
all its pods.
-/

namespace Inferx

open Proc SchedulerHandler

/-! ## Functions -/

theorem addFunc_spec (spec : Function) (s : SchedulerHandler) :
    (addFunc spec).wp
      (fun _ s' => s.byFunc.known spec.id = none ∧
        s'.life = (s.index.enterFunc spec.id, s.grants, s.slot))
      (fun _ s' => s' = s) (fun _ => False) s := by
  unfold addFunc
  rw [wp_bind, wp_get]
  split
  next => rfl
  next h =>
    have hf : s.funcs[spec.id]? = none := by
      rw [Std.ExtTreeMap.contains_eq_isSome_getElem?] at h
      simpa using h
    refine ⟨unknown_func hf, life_eq.mpr ⟨?_, rfl, rfl⟩⟩
    unfold PodIndex.enterFunc index
    congr 1
    refine Filing.ext (funext fun f => ?_) rfl
    show (s.funcs.insert spec.id _)[f]?.map FuncStatus.pods = Function.update s.byFunc.known spec.id _ f
    rw [BTreeMap.get_insert, Function.update_apply]
    split
    next => rfl
    next => rfl

theorem removeFunc_spec (env : Env) (spec : Function) (s : SchedulerHandler) :
    (removeFunc env spec).wp
      (fun _ s' => (s.byFunc.known spec.id).isSome ∧
        s'.life = (s.index.leaveFunc spec.id, s.grants, s.slot))
      (fun _ s' => s' = s) (fun _ => False) s := by
  unfold removeFunc
  rw [wp_bind, wp_get]
  split
  next h =>
    rw [wp_bind, wp_modify, wp_modify]
    refine ⟨?_, (life_endStandbyBilling env spec.id).trans (life_eq.mpr ⟨?_, rfl, rfl⟩)⟩
    · show (s.funcs[spec.id]?.map FuncStatus.pods).isSome
      rw [Option.isSome_map, ← Std.ExtTreeMap.contains_eq_isSome_getElem?]
      exact h
    · unfold PodIndex.leaveFunc index
      congr 1
      refine Filing.ext (funext fun f => ?_) rfl
      show (s.funcs.erase spec.id)[f]?.map FuncStatus.pods = Function.update s.byFunc.known spec.id none f
      rw [BTreeMap.get_erase, Function.update_apply]
      split
      next => rfl
      next => rfl
  next => rfl

/-! ## Nodes -/

theorem addTask_infallible (task : SchedTask) : Infallible (addTask task) := by
  refine Infallible.bind Infallible.get fun s => ?_
  split
  next => exact Infallible.modify _
  next => exact Infallible.crash _

theorem NodeStatus.new_home {env : Env} {node : Node} {total : NodeResources}
    {pods : BTreeMap String WorkerPod} {ns : NodeStatus}
    (h : NodeStatus.new env node total pods = .ok ns) : ns.home = (node.name, pods) := by
  obtain ⟨a, -, ha⟩ := Except.bind_eq_ok.mp h
  rw [← Except.ok.inj ha]
  rfl

theorem addNode_spec (env : Env) (node : Node) (s : SchedulerHandler) :
    (addNode env node).wp
      (fun _ s' => s.byNode.known node.name = none ∧
        s'.life = (s.index.enterNode node.name, s.grants, s.slot))
      (fun _ s' => s' = s) Calm s := by
  unfold addNode
  rw [wp_bind, wp_get]
  split
  next => rfl
  next h =>
    have hn : s.nodes[node.name]? = none := by
      rw [Std.ExtTreeMap.contains_eq_isSome_getElem?] at h
      simpa using h
    rw [wp_bind]
    refine wp_liftFault.mpr ⟨fun ns hns => ?_, fun f _ => calm_fault f⟩
    rw [wp_bind, wp_modify]
    refine wp_mono ((addTask_infallible _).wp_of_moves (quiet_addTask _) _) (fun _ s' h' => ?_)
      (fun _ _ h => h.elim) fun _ h => h
    refine ⟨unknown_node hn, h'.trans (life_eq.mpr ⟨?_, rfl, rfl⟩)⟩
    obtain ⟨hname, hpods⟩ := Prod.mk.inj (NodeStatus.new_home hns)
    refine PodIndex.ext rfl (Filing.ext (funext fun n => ?_) rfl) rfl (funext fun n => ?_) rfl
    · show (s.nodes.insert node.name ns)[n]?.map NodeStatus.pods =
        Function.update s.byNode.known node.name _ n
      rw [BTreeMap.get_insert, Function.update_apply]
      split
      next =>
        rw [Option.map_some, hpods]
        rfl
      next => rfl
    · show (s.nodes.insert node.name ns)[n]?.map (fun ns => ns.node.name) =
        Function.update s.index.names node.name _ n
      rw [BTreeMap.get_insert, Function.update_apply]
      split
      next => rw [Option.map_some, hname]
      next => rfl

theorem removeNode_spec (node : Node) (s : SchedulerHandler) :
    (removeNode node).wp
      (fun _ s' => (s.byNode.known node.name).isSome ∧
        s'.life = (s.index.leaveNode node.name, s.grants, s.slot))
      (fun _ s' => s' = s ∧ s.byNode.known node.name = none) (fun _ => False) s := by
  unfold removeNode
  rw [wp_bind, wp_get]
  split
  next h =>
    rw [wp_bind, wp_modify, wp_bind, wp_modify, wp_modify]
    have hlife : ((s.cleanFuncStatusForNode node.name).removePendingSnapshotsOn node.name).life =
        s.life := (life_removePendingSnapshotsOn _).trans (life_cleanFuncStatusForNode _)
    obtain ⟨hindex, hgrants, hslot⟩ := life_eq.mp hlife
    refine ⟨?_, life_eq.mpr ⟨?_, hgrants, hslot⟩⟩
    · show (s.nodes[node.name]?.map NodeStatus.pods).isSome
      rw [Option.isSome_map, ← Std.ExtTreeMap.contains_eq_isSome_getElem?]
      exact h
    · rw [← hindex]
      refine PodIndex.ext rfl (Filing.ext (funext fun n => ?_) rfl) rfl (funext fun n => ?_) rfl
      · show (Std.ExtTreeMap.erase _ node.name)[n]?.map NodeStatus.pods =
          Function.update (SchedulerHandler.byNode _).known node.name none n
        rw [BTreeMap.get_erase, Function.update_apply]
        split
        next => rfl
        next => rfl
      · show (Std.ExtTreeMap.erase _ node.name)[n]?.map (fun ns : NodeStatus => ns.node.name) =
          Function.update (SchedulerHandler.index _).names node.name none n
        rw [BTreeMap.get_erase, Function.update_apply]
        split
        next => rfl
        next => rfl
  next h =>
    refine ⟨rfl, unknown_node ?_⟩
    rw [Std.ExtTreeMap.contains_eq_isSome_getElem?] at h
    simpa using h

/-! ## Restarts of a node agent -/

section EraseAll

variable {V : Type} (keys : List String)

theorem get_eraseAll (m : BTreeMap String V) (a : String) :
    (eraseAll keys m)[a]? = if a ∈ keys then none else m[a]? := by
  induction keys generalizing m with
  | nil => rfl
  | cons k keys ih =>
    rw [show eraseAll (k :: keys) m = eraseAll keys (m.erase k) from rfl, ih, BTreeMap.get_erase]
    by_cases ha : a ∈ keys
    · rw [if_pos ha, if_pos (List.mem_cons_of_mem k ha)]
    · by_cases hk : a = k
      · rw [if_neg ha, if_pos hk, if_pos (hk ▸ List.mem_cons_self ..)]
      · rw [if_neg ha, if_neg hk, if_neg fun h => (List.mem_cons.mp h).elim hk ha]

theorem getInner_map_eraseAll (m : BTreeMap String (BTreeMap String V)) (q a : String) :
    BTreeMap.getInner (m.map fun _ inner => eraseAll keys inner) q a =
      if a ∈ keys then none else BTreeMap.getInner m q a := by
  unfold BTreeMap.getInner
  rw [Std.ExtTreeMap.getElem?_map]
  rcases m[q]? with _ | inner
  · simp
  · simp [get_eraseAll]

theorem getInner_modify_eraseAll (m : BTreeMap String (BTreeMap String V)) (n q a : String) :
    BTreeMap.getInner (m.modify n (eraseAll keys)) q a =
      if q = n ∧ a ∈ keys then none else BTreeMap.getInner m q a := by
  unfold BTreeMap.getInner
  rw [BTreeMap.get_modify]
  by_cases hq : q = n
  · rcases m[q]? with _ | inner
    · simp
    · simp [hq, get_eraseAll]
  · simp [hq]

end EraseAll

/-- The pods a node holds are the tracked ones, and are on the node. -/
theorem tracked_of_nodePods {s : SchedulerHandler} (hs : s.index.Sound) {n k : String}
    {ns : NodeStatus} {w : WorkerPod} (hn : s.nodes[n]? = some ns) (hw : ns.pods[k]? = some w) :
    s.pods[k]? = some w ∧ w.pod.nodename = n := hs.node n ns.pods k w (known_node hn) hw

theorem mem_transientPods {ns : NodeStatus} {k : String} (h : k ∈ transientPods ns) :
    ∃ w, ns.pods[k]? = some w ∧ w.pod.state ≠ .standby ∧ w.pod.state ≠ .ready := by
  obtain ⟨⟨k', w⟩, hmem, rfl⟩ := List.mem_map.mp h
  obtain ⟨hkw, hstate⟩ := List.mem_filter.mp hmem
  refine ⟨w, BTreeMap.mem_toList.mp hkw, ?_⟩
  simpa using hstate

/-- Acts of a restart of the agent of the node `n`. -/
def ReconcileOf (s : SchedulerHandler) (n k : String) (act : Act) : Prop :=
  (act = .dropped ∨ act = .syncIdle ∨ act = .syncStandby) ∧
    ∃ w, s.pods[k]? = some w ∧ w.pod.nodename = n

/-- The state after a restart of the agent of the node `n`. -/
structure Reconciled (n : String) (s s' : SchedulerHandler) : Prop where
  /-- pods that are neither standby nor ready have gone -/
  index : ∃ keys, s.index.Discarded keys s'.index ∧
    ∀ k ∈ keys, ∃ w, s.pods[k]? = some w ∧ w.pod.nodename = n ∧ w.pod.state ≠ .standby ∧
      w.pod.state ≠ .ready
  /-- nothing has been handed out -/
  grants : ∀ p ∈ s'.grants, p ∈ s.grants
  /-- what happened to the pods -/
  path : ∀ k, Path (ReconcileOf s n k) (s.slot k) (s'.slot k)

/-- Dropping the transient pods, from all maps and from the record of the node. -/
theorem discarded_dropPods {s : SchedulerHandler} (hs : s.index.Sound) {n : String}
    {ns : NodeStatus} (hn : s.nodes[n]? = some ns) {g : NodeStatus → NodeStatus}
    (hg : ∀ x, (g x).home = (x.node.name, eraseAll (transientPods ns) ns.pods)) :
    s.index.Discarded (transientPods ns) ((s.dropPods n (transientPods ns)).modifyNode n g).index := by
  have howner : ∀ (a : String) (v : WorkerPod), s.pods[a]? = some v → a ∈ transientPods ns →
      v.node = n := by
    intro a v hv ha
    obtain ⟨w, hw, -⟩ := mem_transientPods ha
    obtain ⟨hpods, hnode⟩ := tracked_of_nodePods hs hn hw
    rw [Option.some.inj (hv.symm.trans hpods)]
    exact hnode
  have hknown : ∀ q, ((s.dropPods n (transientPods ns)).modifyNode n g).byNode.known q =
      if q = n then some (eraseAll (transientPods ns) ns.pods) else s.byNode.known q := by
    intro q
    show (s.nodes.modify n g)[q]?.map NodeStatus.pods = _
    rw [BTreeMap.get_modify]
    split
    next hq =>
      rw [hq, hn, Option.map_some, Option.map_some]
      exact congrArg some (congrArg Prod.snd (hg ns))
    next => rfl
  have hknownF : ∀ q, ((s.dropPods n (transientPods ns)).modifyNode n g).byFunc.known q =
      (s.byFunc.known q).map (eraseAll (transientPods ns)) := by
    intro q
    show (Std.ExtTreeMap.map _ s.funcs)[q]?.map FuncStatus.pods = (s.funcs[q]?.map _).map _
    rw [Std.ExtTreeMap.getElem?_map, Option.map_map, Option.map_map]
    rfl
  refine ⟨fun a => get_eraseAll _ s.pods a, funext fun q => ?_, rfl, fun q m' hq => ?_,
    fun q m' hq => ?_, fun q a hq => ?_, fun q a hq => ?_, fun hc q a => ?_, fun q a => ?_⟩
  · show (s.nodes.modify n g)[q]?.map _ = s.nodes[q]?.map fun ns => ns.node.name
    rw [BTreeMap.get_modify]
    split
    next =>
      rw [Option.map_map]
      exact congrArg (fun h => s.nodes[q]?.map h) (funext fun x => congrArg Prod.fst (hg x))
    next => rfl
  · -- the pods known nodes hold
    have hq' : ((s.dropPods n (transientPods ns)).modifyNode n g).byNode.known q = some m' := hq
    rw [hknown] at hq'
    split at hq'
    next hqn =>
      obtain rfl := Option.some.inj hq'
      exact ⟨ns.pods, hqn ▸ known_node hn, fun a => get_eraseAll _ ns.pods a⟩
    next hqn =>
      refine ⟨m', hq', fun a => ?_⟩
      split
      next ha =>
        rcases hv : m'[a]? with _ | v
        · rfl
        · obtain ⟨hall, hnode⟩ := hs.node q m' a v hq' hv
          exact absurd (hnode.symm.trans (howner a v hall ha)) hqn
      next => rfl
  · -- the pods known functions hold
    have hq' : ((s.dropPods n (transientPods ns)).modifyNode n g).byFunc.known q = some m' := hq
    rw [hknownF] at hq'
    obtain ⟨m, hm, rfl⟩ := Option.map_eq_some_iff.mp hq'
    exact ⟨m, hm, fun a => get_eraseAll _ m a⟩
  · show BTreeMap.getInner (s.nodePods.modify n _) q a = none
    rw [getInner_modify_eraseAll]
    split
    next => rfl
    next =>
      refine hs.node_tidy q a ?_
      have hq' : (((s.dropPods n (transientPods ns)).modifyNode n g).byNode.known q).isSome := hq
      rw [hknown] at hq'
      split at hq'
      next hqn =>
        rw [hqn, show s.index.byNode.known n = some ns.pods from known_node hn]
        rfl
      next => exact hq'
  · show BTreeMap.getInner (s.funcPods.map _) q a = none
    have hq' : (((s.dropPods n (transientPods ns)).modifyNode n g).byFunc.known q).isSome := hq
    rw [hknownF, Option.isSome_map] at hq'
    have htidy : s.funcPods.getInner q a = none := hs.func_tidy q a hq'
    rw [getInner_map_eraseAll, htidy, ite_self]
  · -- all entries with nodes
    show Filing.entry _ q a = if _ then none else s.byNode.entry q a
    by_cases hqn : q = n
    · refine (Filing.entry_of_known ((hknown q).trans (if_pos hqn))).trans ?_
      rw [get_eraseAll, hqn, Filing.entry_of_known (known_node hn)]
    · have hentry : ((s.dropPods n (transientPods ns)).modifyNode n g).byNode.entry q a =
          s.byNode.entry q a := by
        unfold Filing.entry
        rw [hknown, if_neg hqn]
        rcases s.byNode.known q with _ | m
        · show BTreeMap.getInner (s.nodePods.modify n _) q a = _
          rw [getInner_modify_eraseAll, if_neg fun h => hqn h.1]
          rfl
        · rfl
      refine hentry.trans ?_
      split
      next ha =>
        rcases hv : s.byNode.entry q a with _ | v
        · rfl
        · obtain ⟨hall, hnode⟩ := hc.node_sound q a v hv
          exact absurd (hnode.symm.trans (howner a v hall ha)) hqn
      next => rfl
  · -- all entries with functions
    show Filing.entry _ q a = if _ then none else s.byFunc.entry q a
    unfold Filing.entry
    rw [show (SchedulerHandler.index _).byFunc.known q = _ from hknownF q]
    rcases hq : s.byFunc.known q with _ | m
    · exact getInner_map_eraseAll _ s.funcPods q a
    · exact get_eraseAll _ m a

/-- The slots after pods have been dropped. -/
theorem slot_dropPods {s : SchedulerHandler} {n : String} {keys : List String}
    {g : NodeStatus → NodeStatus} (k : String) :
    ((s.dropPods n keys).modifyNode n g).slot k =
      if k ∈ keys then ⟨none, (s.slot k).idle⟩ else s.slot k := by
  unfold slot
  show Slot.mk ((eraseAll keys s.pods)[k]?.map _) _ = _
  rw [get_eraseAll]
  split
  next => rfl
  next => rfl

/-- A pod that survived a restart is set anew. -/
theorem syncWorker_spec {A : String → Act → Prop} {w : WorkerPod} {s : SchedulerHandler}
    (hs : s.index.Keyed) (hw : s.pods[w.pod.podKey]? = some w) (hidle : A w.pod.podKey .syncIdle)
    (hstandby : A w.pod.podKey .syncStandby) :
    (syncWorker w).wp (fun _ s' => Lives A s s') (fun _ _ => False) Calm s := by
  unfold syncWorker
  rw [wp_bind, wp_get]
  split
  next hready =>
    have hsync : (∀ g, s.stateOf w ≠ .working g) →
        Lives A s ((s.setState w .idle).putIdle w.pod.podKey) := by
      intro hne
      refine Lives.act rfl rfl hidle ?_ fun a ha => ?_
      · rw [slot_putIdle_self, setState, slot_setCell_self hw, slot_of_tracked hw]
        exact .syncIdle hready hne
      · rw [slot_putIdle_of_ne ha]
        exact slot_setCell_of_ne hs hw ha
    split
    next => exact Std.Refl.refl s
    next hne => exact hsync fun g hg => hne g hg
  next hstate =>
    refine Lives.act rfl rfl hstandby ?_ fun a ha => slot_setCell_of_ne hs hw ha
    show Slot.Step _ _ ((s.setCell w _).slot _)
    rw [slot_setCell_self hw, slot_of_tracked hw]
    exact .syncStandby hstate
  next => simp [Calm]

theorem reconcileNodeAfterNodeAgentRestart_spec (n : String) (node : Node) {s : SchedulerHandler}
    (hs : s.index.Sound) :
    (reconcileNodeAfterNodeAgentRestart n node).wp (fun _ s' => Reconciled n s s')
      (fun _ _ => False) Calm s := by
  unfold reconcileNodeAfterNodeAgentRestart
  rw [wp_bind, wp_get]
  rcases hn : s.nodes[n]? with _ | ns
  · refine ⟨⟨[], ⟨fun _ => rfl, rfl, rfl, fun _ m hm => ⟨m, hm, fun _ => rfl⟩,
      fun _ m hm => ⟨m, hm, fun _ => rfl⟩, hs.node_tidy, hs.func_tidy, fun _ _ _ => rfl,
      fun _ _ => rfl⟩,
      fun _ h => (nomatch h)⟩, fun _ h => h, fun k => Path.refl _ _⟩
  · dsimp only
    rw [wp_bind, wp_modify, wp_bind]
    refine wp_liftFault.mpr ⟨fun available _ => ?_, fun f _ => calm_fault f⟩
    rw [wp_bind, wp_modify, wp_bind]
    -- the transient pods have gone
    let s₁ : SchedulerHandler := (s.dropPods n (transientPods ns)).modifyNode n fun x =>
      { x with
        pods := eraseAll (transientPods ns) ns.pods
        pendingPods := ∅
        stoppingPods := ∅
        total := node.resources
        available }
    have hdisc : s.index.Discarded (transientPods ns) s₁.index :=
      discarded_dropPods hs hn fun _ => rfl
    have hs₁ : s₁.index.Sound := hdisc.sound hs
    have hdropped : ∀ k, Path (ReconcileOf s n k) (s.slot k) (s₁.slot k) := by
      intro k
      rw [slot_dropPods]
      split
      next hk =>
        obtain ⟨w, hw, hstandby, hready⟩ := mem_transientPods hk
        obtain ⟨htracked, hnode⟩ := tracked_of_nodePods hs hn hw
        refine Path.single ⟨Or.inl rfl, w, htracked, hnode⟩ ?_
        rw [slot_of_tracked htracked]
        exact .dropped hstandby hready
      next => exact Path.refl _ _
    -- the others are set anew, one by one
    let I : List (String × WorkerPod) → SchedulerHandler → Prop := fun l t =>
      Lives (ReconcileOf s n) s₁ t ∧ ∀ p ∈ l, s₁.pods[p.2.pod.podKey]? = some p.2 ∧
        s.pods[p.2.pod.podKey]? = some p.2 ∧ p.2.pod.nodename = n
    have hsurvive : ∀ p ∈ (eraseAll (transientPods ns) ns.pods).toList,
        s₁.pods[p.2.pod.podKey]? = some p.2 ∧ s.pods[p.2.pod.podKey]? = some p.2 ∧
          p.2.pod.nodename = n := by
      rintro ⟨k, w⟩ hp
      have hget : (eraseAll (transientPods ns) ns.pods)[k]? = some w := BTreeMap.mem_toList.mp hp
      rw [get_eraseAll] at hget
      split at hget
      next => cases hget
      next hk =>
        obtain ⟨htracked, hnode⟩ := tracked_of_nodePods hs hn hget
        rw [show w.pod.podKey = k from hs.key k w htracked]
        refine ⟨?_, htracked, hnode⟩
        show (eraseAll (transientPods ns) s.pods)[k]? = some w
        rw [get_eraseAll, if_neg hk]
        exact htracked
    refine wp_mono (wp_each (I := I) ?_ _ s₁ ⟨Std.Refl.refl s₁, hsurvive⟩) (fun _ s₂ h₂ => ?_)
      (fun _ _ h => h) fun _ h => h
    · rintro ⟨k, w⟩ l t ⟨hlives, hl⟩
      obtain ⟨hw₁, hw, hnode⟩ := hl (k, w) (List.mem_cons_self ..)
      refine wp_mono (syncWorker_spec (A := ReconcileOf s n) (hlives.sound _ _ hs₁).toKeyed
        (by rw [pods_of_index hlives.index]; exact hw₁) ⟨Or.inr (Or.inl rfl), w, hw, hnode⟩
        ⟨Or.inr (Or.inr rfl), w, hw, hnode⟩) (fun _ t' h => ?_) (fun _ _ h => h) fun _ h => h
      exact ⟨IsTrans.trans _ _ _ hlives h, fun p hp => hl p (List.mem_cons_of_mem _ hp)⟩
    · rw [wp_modify]
      obtain ⟨hindex₃, hgrants₃, hslot₃⟩ := life_eq.mp (life_removePendingSnapshotsOn (s := s₂) n)
      refine ⟨⟨transientPods ns, ?_, fun k hk => ?_⟩, fun p hp => ?_, fun k => ?_⟩
      · rw [hindex₃, h₂.1.index]
        exact hdisc
      · obtain ⟨w, hw, hstandby, hready⟩ := mem_transientPods hk
        obtain ⟨htracked, hnode⟩ := tracked_of_nodePods hs hn hw
        exact ⟨w, htracked, hnode, hstandby, hready⟩
      · rw [hgrants₃] at hp
        rcases h₂.1.grants p hp with hp | ⟨t, hact, -⟩ | ⟨pod, t, hact, -⟩
        · exact hp
        · simp at hact
        · simp at hact
      · rw [hslot₃]
        exact (hdropped k).trans (h₂.1.path k)

end Inferx
