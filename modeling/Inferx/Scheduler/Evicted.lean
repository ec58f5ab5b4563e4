import Inferx.Scheduler.IdlePool
import Inferx.Scheduler.Frame

/-!
# Evicting pods and putting them back

An idle pod that is evicted leaves the pool, gets a terminating mark, and is
listed as being stopped by its node and its function. A roll-back takes it off
both lists, makes it idle and puts it back into the pool. `Evicted` and
`Restored` say what the two do to each part of the state.
-/

namespace Inferx

open Proc SchedulerHandler

variable {s s' t u : SchedulerHandler} {n : String} {ws : List WorkerPod}

/-! ## Maps -/

theorem insert_of_modify {V : Type} {m : BTreeMap String V} {k : String} {v : V} (h : m[k]? = some v)
    (g : V → V) : m.modify k g = m.insert k (g v) := by
  refine Std.ExtTreeMap.ext_getElem? fun a => ?_
  rw [BTreeMap.get_modify, BTreeMap.get_insert]
  split
  next heq =>
    subst heq
    rw [h]
    rfl
  next => rfl

theorem insert_insert_self {V : Type} (m : BTreeMap String V) (k : String) (v w : V) :
    (m.insert k v).insert k w = m.insert k w := by
  refine Std.ExtTreeMap.ext_getElem? fun a => ?_
  rw [BTreeMap.get_insert, BTreeMap.get_insert, BTreeMap.get_insert]
  split
  next => rfl
  next => rfl

theorem insert_eq_self {V : Type} {m : BTreeMap String V} {k : String} {v : V} (h : m[k]? = some v) :
    m.insert k v = m := by
  refine Std.ExtTreeMap.ext_getElem? fun a => ?_
  rw [BTreeMap.get_insert]
  split
  next heq => rw [heq, h]
  next => rfl

/-! ## What a normal return leaves -/

/-- Whenever the procedure returns normally, `Q` holds. -/
abbrev Ends {α : Type} (x : SchedM α) (s : SchedulerHandler) (Q : α → SchedulerHandler → Prop) : Prop :=
  x.wp Q (fun _ _ => True) (fun _ => True) s

theorem Ends.ok {α : Type} {x : SchedM α} {s t : SchedulerHandler} {Q : α → SchedulerHandler → Prop}
    {a : α} (h : Ends x s Q) (hx : x s = .ok a t) : Q a t := by
  unfold Ends wp at h
  rw [hx] at h
  exact h

/-- What ends with an error does not return normally. -/
theorem ends_bind_throw {α β : Type} (x : SchedM α) (e : Error) (s : SchedulerHandler)
    (Q : β → SchedulerHandler → Prop) : Ends (x >>= fun _ => (throw e : SchedM β)) s Q := by
  unfold Ends
  rw [wp_bind]
  unfold wp
  split
  next => trivial
  next => trivial
  next => trivial

theorem ends_liftFault {α : Type} {x : Except Fault α} {s : SchedulerHandler}
    {Q : α → SchedulerHandler → Prop} (h : ∀ a, x = .ok a → Q a s) : Ends (liftFault x) s Q :=
  wp_liftFault.mpr ⟨h, fun _ _ => trivial⟩

theorem ends_getNode {n : String} {s : SchedulerHandler} {Q : NodeStatus → SchedulerHandler → Prop}
    (h : ∀ ns, s.nodes[n]? = some ns → Q ns s) : Ends (getNode n) s Q := by
  unfold Ends getNode
  rw [wp_bind, wp_get]
  rcases hn : s.nodes[n]? with _ | ns
  · trivial
  · exact h ns hn

theorem ends_allocFrom (nr : NodeResources) (req : Resources) (c : Bool) (s : SchedulerHandler) :
    Ends (allocFrom nr req c) s fun x t => s = t ∧ ∃ rest, nr.alloc req c = .ok (.ok x, rest) := by
  unfold Ends allocFrom
  rw [wp_bind]
  refine ends_liftFault fun y hy => ?_
  obtain ⟨res, rest⟩ := y
  rcases res with e | x
  · trivial
  · exact ⟨rfl, rest, hy⟩

theorem ends_reserve {n : String} {s : SchedulerHandler} (r : NodeResources) (ns : NodeStatus)
    (hn : s.nodes[n]? = some ns) :
    Ends (reserve n r) s fun _ t => ∃ available, ns.available.sub r = .ok available ∧
      t = s.modifyNode n fun ns => { ns with available } := by
  unfold Ends reserve
  rw [wp_bind]
  refine ends_getNode fun ns' hn' => ?_
  obtain rfl : ns = ns' := Option.some.inj (hn.symm.trans hn')
  rw [wp_bind]
  exact ends_liftFault fun available havailable => ⟨available, havailable, rfl⟩

/-! ## The pods that are evicted -/

/-- The keys of pods. -/
abbrev podKeys (ws : List WorkerPod) : List String := ws.map fun w => w.pod.podKey

theorem podKeys_cons (w : WorkerPod) (ws : List WorkerPod) :
    podKeys (w :: ws) = w.pod.podKey :: podKeys ws := rfl

/-- The keys of the pods of one function. -/
def podKeysOf (ws : List WorkerPod) (f : String) : Finset String :=
  (podKeys (ws.filter fun w => w.pod.funcKey = f)).toFinset

theorem podKeysOf_cons (w : WorkerPod) (ws : List WorkerPod) (f : String) : podKeysOf (w :: ws) f =
    if w.pod.funcKey = f then insert w.pod.podKey (podKeysOf ws f) else podKeysOf ws f := by
  unfold podKeysOf
  rw [List.filter_cons]
  by_cases hf : w.pod.funcKey = f
  · simp [hf]
  · simp [hf]

/-- The terminating marks when `ws` have been marked. -/
def marked (now : ℕ) (ws : List WorkerPod) (m : BTreeMap String TerminatingMeta) :
    BTreeMap String TerminatingMeta :=
  ws.foldl (fun m w => m.insert w.pod.podKey { since := now }) m

theorem popAll_eq (ws : List WorkerPod) (s : SchedulerHandler) : s.popAll ws =
    { s with idlePods := ws.foldl (fun c w => c.pop w.pod.podKey) s.idlePods } := by
  induction ws generalizing s with
  | nil => rfl
  | cons w ws ih =>
    show (s.popIdle w.pod.podKey).popAll ws = _
    rw [ih]
    rfl

theorem mem_popAll {k : String} : k ∈ (s.popAll ws).idlePods ↔ k ∈ s.idlePods ∧ k ∉ podKeys ws := by
  rw [popAll_eq]
  dsimp only
  generalize s.idlePods = c
  induction ws generalizing c with
  | nil => simp
  | cons w ws ih =>
    rw [List.foldl_cons, ih, LruCache.mem_pop]
    simp only [podKeys_cons, List.mem_cons, not_or]
    tauto

theorem ends_evictIdle (env : Env) (ws : List WorkerPod) (s : SchedulerHandler) :
    Ends (evictIdle env ws) s fun _ t => t = (s.popAll ws).markAllTerminating env ws := by
  have hcomm : ∀ (vs : List WorkerPod) (s : SchedulerHandler) (w : WorkerPod),
      (s.markTerminating env w).popAll vs = (s.popAll vs).markTerminating env w := by
    intro vs s w
    rw [popAll_eq, popAll_eq]
    rfl
  induction ws generalizing s with
  | nil => exact rfl
  | cons w ws ih =>
    unfold evictIdle at ih ⊢
    unfold Ends each
    rw [wp_bind, wp_bind]
    by_cases hk : w.pod.podKey ∈ s.idlePods
    · rw [wp_popIdleChecked hk, wp_modify]
      refine wp_mono (ih _) (fun _ t ht => ?_) (fun _ _ h => h) fun _ h => h
      rw [ht, hcomm]
      rfl
    · rw [wp_popIdleChecked_missing hk]
      trivial

/-! ## Evicting -/

theorem markAllTerminating_eq (env : Env) (ws : List WorkerPod) (s : SchedulerHandler) :
    s.markAllTerminating env ws = { s with
      workers := ws.foldl (fun c w => Function.update c w.ref { c w.ref with state := .terminating }) s.workers
      terminatingPods := marked env.now ws s.terminatingPods } := by
  induction ws generalizing s with
  | nil => rfl
  | cons w ws ih =>
    show (s.markTerminating env w).markAllTerminating env ws = _
    rw [ih]
    rfl

/-- Writing one state into the cells of pods. -/
theorem foldl_update_state (x : WorkerPodState) (c : ℕ → WorkerCell) (r : ℕ) :
    ((ws.foldl (fun c w => Function.update c w.ref { c w.ref with state := x }) c) r).state =
      if r ∈ ws.map WorkerPod.ref then x else (c r).state := by
  induction ws generalizing c with
  | nil => rfl
  | cons w ws ih =>
    rw [List.foldl_cons, ih, List.map_cons]
    by_cases hr : r = w.ref
    · subst hr
      simp
    · simp [hr]

theorem foldl_addStoppingPod (ws : List WorkerPod) (ns : NodeStatus) :
    ws.foldl (fun ns w => ns.addStoppingPod w.pod.podKey) ns =
      { ns with stoppingPods := ns.stoppingPods ∪ (podKeys ws).toFinset } := by
  induction ws generalizing ns with
  | nil => simp
  | cons w ws ih =>
    rw [List.foldl_cons, ih]
    simp [NodeStatus.addStoppingPod, Finset.insert_union, Finset.union_insert]

theorem addStoppingPods_eq (n : String) (ws : List WorkerPod) (s : SchedulerHandler) :
    s.addStoppingPods n ws = { s with
      nodes := s.nodes.modify n fun ns =>
        { ns with stoppingPods := ns.stoppingPods ∪ (podKeys ws).toFinset }
      funcs := ws.foldl (fun m w => m.modify w.pod.funcKey (·.addStoppingPod w.pod.podKey)) s.funcs } := by
  have hfuncs : ∀ u : SchedulerHandler,
      ws.foldl (fun s w => s.modifyFunc w.pod.funcKey (·.addStoppingPod w.pod.podKey)) u = { u with
        funcs := ws.foldl (fun m w => m.modify w.pod.funcKey (·.addStoppingPod w.pod.podKey)) u.funcs } := by
    induction ws with
    | nil => exact fun _ => rfl
    | cons w ws ih =>
      intro u
      rw [List.foldl_cons, ih]
      rfl
  unfold addStoppingPods
  rw [hfuncs]
  simp only [foldl_addStoppingPod]
  rfl

/-- The functions list their own pods. -/
theorem get_foldl_addStopping (m : BTreeMap String FuncStatus) (f : String) :
    (ws.foldl (fun m w => m.modify w.pod.funcKey (·.addStoppingPod w.pod.podKey)) m)[f]? =
      m[f]?.map fun fs => { fs with stoppingPods := fs.stoppingPods ∪ podKeysOf ws f } := by
  induction ws generalizing m with
  | nil =>
    show m[f]? = _
    rcases m[f]? with _ | fs
    · rfl
    · simp [podKeysOf]
  | cons w ws ih =>
    rw [List.foldl_cons, ih, BTreeMap.get_modify, podKeysOf_cons]
    by_cases hf : f = w.pod.funcKey
    · rw [if_pos hf, if_pos hf.symm, Option.map_map]
      congr 1
      funext fs
      simp [FuncStatus.addStoppingPod, Finset.insert_union, Finset.union_insert]
    · rw [if_neg hf, if_neg (Ne.symm hf)]

/-- `u` is `s` with the pods `ws` of the node `n` evicted. -/
structure Evicted (s u : SchedulerHandler) (n : String) (ns : NodeStatus) (ws : List WorkerPod) (now : ℕ) :
    Prop where
  /-- the node lists them -/
  nodes : u.nodes = s.nodes.insert n { ns with stoppingPods := ns.stoppingPods ∪ (podKeys ws).toFinset }
  /-- so does the function of each -/
  funcs : ∀ f : String, u.funcs[f]? =
    s.funcs[f]?.map fun fs => { fs with stoppingPods := fs.stoppingPods ∪ podKeysOf ws f }
  /-- they are marked -/
  terminatingPods : u.terminatingPods = marked now ws s.terminatingPods
  /-- and out of the pool -/
  idlePods : ∀ k, k ∈ u.idlePods ↔ k ∈ s.idlePods ∧ k ∉ podKeys ws
  /-- and terminating -/
  states : ∀ r, (u.workers r).state = if r ∈ ws.map WorkerPod.ref then .terminating else (s.workers r).state
  /-- nothing else has changed -/
  rest : (u.pods, u.pendingsnapshots, u.delayedTasks, u.funcpolicy, u.config, u.out, u.lastUid) =
    (s.pods, s.pendingsnapshots, s.delayedTasks, s.funcpolicy, s.config, s.out, s.lastUid)

theorem evicted_of_get (env : Env) {ns : NodeStatus} (hn : s.nodes[n]? = some ns) (ws : List WorkerPod) :
    Evicted s (((s.popAll ws).markAllTerminating env ws).addStoppingPods n ws) n ns ws env.now := by
  have hpool (k : String) : k ∈ (s.popAll ws).idlePods ↔ k ∈ s.idlePods ∧ k ∉ podKeys ws := mem_popAll
  rw [popAll_eq] at hpool ⊢
  rw [addStoppingPods_eq, markAllTerminating_eq]
  exact
    { nodes := insert_of_modify hn _
      funcs := fun f => get_foldl_addStopping s.funcs f
      terminatingPods := rfl
      idlePods := hpool
      states := fun r => foldl_update_state .terminating s.workers r
      rest := rfl }

/-! ## Putting back -/

end Inferx
