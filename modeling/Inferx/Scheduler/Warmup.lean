import Inferx.Lib.Runs
import Inferx.Scheduler.IdlePool
import Inferx.Scheduler.Rollback

/-!
# The warm-up

After a restart the scheduler waits until the gateways have said which pods they
hold, or five seconds: until then an idle pod may be one that a gateway is still
using. No idle pod should be evicted for another one in this time.

The prewarming is held back until the warm-up is over. Lease requests, functions
that are modified and the queued tasks are not: they search for room as always,
and evict. `Spares` is what a handler keeps to when it evicts nothing; a handler
keeps to it when its search for room finds no pod to evict.
-/

namespace Inferx

open Proc SchedulerHandler

/-! ## Sparing the idle pods -/

/-- Between `s` and `t` no pod has been marked terminating, and pods have left the
idle pool only to be leased. The pods of `E` are exempt. -/
structure Spares (E : String → WorkerPod → Prop) (s t : SchedulerHandler) : Prop where
  /-- the pods are the same -/
  pods : t.pods = s.pods
  /-- no pod has been marked terminating -/
  marked : ∀ (k : String) (w : WorkerPod), s.pods[k]? = some w → ¬ E k w →
    t.stateOf w = .terminating → s.stateOf w = .terminating
  /-- leased pods are still leased -/
  leased : ∀ (k : String) (w : WorkerPod) (g : ℤ), s.pods[k]? = some w → ¬ E k w →
    s.stateOf w = .working g → ∃ g', t.stateOf w = .working g'
  /-- pods have left the pool only to be leased -/
  idle : ∀ (k : String) (w : WorkerPod), s.pods[k]? = some w → ¬ E k w → k ∈ s.idlePods →
    k ∈ t.idlePods ∨ ∃ g, t.stateOf w = .working g

instance (E : String → WorkerPod → Prop) : IsPreorder SchedulerHandler (Spares E) where
  refl _ := ⟨rfl, fun _ _ _ _ h => h, fun _ _ g _ _ h => ⟨g, h⟩, fun _ _ _ _ h => Or.inl h⟩
  trans s t u h₁ h₂ := by
    have hpods : ∀ (k : String) (w : WorkerPod), s.pods[k]? = some w → t.pods[k]? = some w := by
      intro k w hw
      rw [h₁.pods]
      exact hw
    refine ⟨h₂.pods.trans h₁.pods, fun k w hw hE h => ?_, fun k w g hw hE h => ?_, fun k w hw hE h => ?_⟩
    · exact h₁.marked k w hw hE (h₂.marked k w (hpods k w hw) hE h)
    · obtain ⟨g', hg'⟩ := h₁.leased k w g hw hE h
      exact h₂.leased k w g' (hpods k w hw) hE hg'
    · rcases h₁.idle k w hw hE h with h | ⟨g, hg⟩
      · exact h₂.idle k w (hpods k w hw) hE h
      · exact Or.inr (h₂.leased k w g (hpods k w hw) hE hg)

namespace Spares

variable {E : String → WorkerPod → Prop} {s t : SchedulerHandler}

/-- Nothing happens to the pods. -/
theorem of_cells (hpods : t.pods = s.pods) (hworkers : t.workers = s.workers)
    (hidle : t.idlePods = s.idlePods) : Spares E s t := by
  have hstate : ∀ w, t.stateOf w = s.stateOf w := by
    intro w
    unfold stateOf
    rw [hworkers]
  refine ⟨hpods, fun _ w _ _ h => ?_, fun _ w g _ _ h => ⟨g, ?_⟩, fun _ _ _ _ h => Or.inl (hidle ▸ h)⟩
  · rw [← hstate]
    exact h
  · rw [hstate]
    exact h

theorem of_life (h : t.life = s.life) : Spares E s t := by
  have hpods : t.pods = s.pods := pods_of_index (index_of_life h)
  have hstate : ∀ (k : String) (w : WorkerPod), s.pods[k]? = some w → t.stateOf w = s.stateOf w := by
    intro k w hw
    refine stateOf_of_entry hw (hpods ▸ hw) ?_
    rw [slot_of_life h]
  refine ⟨hpods, fun k w hw _ h => ?_, fun k w g hw _ h => ⟨g, ?_⟩, fun k w hw _ hk => Or.inl ?_⟩
  · rw [← hstate k w hw]
    exact h
  · rw [hstate k w hw]
    exact h
  · exact (mem_idlePods_of_slot (by rw [slot_of_life h])).mpr hk

/-- A standby pod is resumed. -/
theorem resume {w : WorkerPod} {tenant : Option String} (hw : s.stateOf w = .standby) :
    Spares E s (s.setCell w ⟨.resuming, tenant⟩) := by
  have hother : ∀ v : WorkerPod, v.ref ≠ w.ref →
      (s.setCell w ⟨.resuming, tenant⟩).stateOf v = s.stateOf v := by
    intro v hv
    unfold stateOf setCell
    dsimp only
    rw [Function.update_of_ne hv]
  have hsame : ∀ v : WorkerPod, v.ref = w.ref →
      (s.setCell w ⟨.resuming, tenant⟩).stateOf v = .resuming ∧ s.stateOf v = .standby := by
    intro v hv
    unfold stateOf setCell
    dsimp only
    rw [hv, Function.update_self]
    exact ⟨rfl, hw⟩
  refine ⟨rfl, fun k v _ _ h => ?_, fun k v g _ _ h => ?_, fun _ _ _ _ h => Or.inl h⟩
  · by_cases hv : v.ref = w.ref
    · rw [(hsame v hv).1] at h
      cases h
    · rw [← hother v hv]
      exact h
  · by_cases hv : v.ref = w.ref
    · rw [(hsame v hv).2] at h
      cases h
    · exact ⟨g, (hother v hv).trans h⟩

/-- A pod is leased: it leaves the pool. -/
theorem lease {w : WorkerPod} {c : WorkerCell} {g : ℤ} (hc : c.state = .working g)
    (hE : ∀ k v, s.pods[k]? = some v → k = w.pod.podKey → E k v) :
    Spares E s ((s.setCell w c).popIdle w.pod.podKey) := by
  have hother : ∀ v : WorkerPod, v.ref ≠ w.ref →
      ((s.setCell w c).popIdle w.pod.podKey).stateOf v = s.stateOf v := by
    intro v hv
    unfold stateOf setCell popIdle
    dsimp only
    rw [Function.update_of_ne hv]
  have hsame : ∀ v : WorkerPod, v.ref = w.ref →
      ((s.setCell w c).popIdle w.pod.podKey).stateOf v = .working g := by
    intro v hv
    unfold stateOf setCell popIdle
    dsimp only
    rw [hv, Function.update_self, hc]
  refine ⟨rfl, fun k v _ _ h => ?_, fun k v g' _ _ h => ?_, fun k v hv hexempt h => Or.inl ?_⟩
  · by_cases hv : v.ref = w.ref
    · rw [hsame v hv] at h
      cases h
    · rw [← hother v hv]
      exact h
  · by_cases hv : v.ref = w.ref
    · exact ⟨g, hsame v hv⟩
    · exact ⟨g', (hother v hv).trans h⟩
  · have hk : k ≠ w.pod.podKey := fun hk => hexempt (hE k v hv hk)
    show k ∈ s.idlePods.pop w.pod.podKey
    simp [hk, h]

/-- Keys without a pod are dropped from the pool. -/
theorem popMissing {miss : List String} (hmiss : ∀ k ∈ miss, s.pods[k]? = none) :
    Spares E s (s.popMissing miss) := by
  have hpool : ∀ (l : List String) (u : SchedulerHandler) (k : String), k ∉ l → k ∈ u.idlePods →
      k ∈ (u.popMissing l).idlePods := by
    intro l
    induction l with
    | nil => exact fun u k _ h => h
    | cons a l ih =>
      intro u k hk h
      rw [List.mem_cons, not_or] at hk
      refine ih (u.popIdle a) k hk.2 ?_
      show k ∈ u.idlePods.pop a
      simp [hk.1, h]
  have hrest : ∀ (l : List String) (u : SchedulerHandler),
      (u.popMissing l).pods = u.pods ∧ (u.popMissing l).workers = u.workers := by
    intro l
    induction l with
    | nil => exact fun u => ⟨rfl, rfl⟩
    | cons a l ih => exact fun u => ih (u.popIdle a)
  have hstate : ∀ w, (s.popMissing miss).stateOf w = s.stateOf w := by
    intro w
    unfold stateOf
    rw [(hrest miss s).2]
  refine ⟨(hrest miss s).1, fun _ w _ _ h => ?_, fun _ w g _ _ h => ⟨g, ?_⟩, fun k w hw _ h => ?_⟩
  · rw [← hstate]
    exact h
  · rw [hstate]
    exact h
  · refine Or.inl (hpool miss s k (fun hk => ?_) h)
    rw [hmiss k hk] at hw
    cases hw

end Spares

/-- The procedure spares the idle pods from `s` on. -/
abbrev Spared {α : Type} (E : String → WorkerPod → Prop) (s : SchedulerHandler) (x : SchedM α) : Prop :=
  x.wp (fun _ t => Spares E s t) (fun _ t => Spares E s t) (fun _ => True) s

namespace Spared

variable {α β : Type} {E : String → WorkerPod → Prop} {s : SchedulerHandler} {x : SchedM α} {f : α → SchedM β}

theorem of_quiet (h : Quiet x) (s : SchedulerHandler) : Spared E s x :=
  wp_mono (h s) (fun _ _ => Spares.of_life) (fun _ _ => Spares.of_life) fun _ _ => trivial

theorem bind (hx : x.wp (fun a t => Spares E s t ∧ Spared E t (f a)) (fun _ t => Spares E s t)
    (fun _ => True) s) : Spared E s (x >>= f) := by
  unfold Spared
  rw [wp_bind]
  refine wp_mono hx (fun a t ht => ?_) (fun _ _ h => h) fun _ h => h
  exact wp_mono ht.2 (fun _ _ hu => IsTrans.trans _ _ _ ht.1 hu) (fun _ _ hu => IsTrans.trans _ _ _ ht.1 hu)
    fun _ h => h

theorem bind_of (hx : Spared E s x) (hf : ∀ a t, Spared E t (f a)) : Spared E s (x >>= f) :=
  bind (wp_mono hx (fun a t ht => ⟨ht, hf a t⟩) (fun _ _ h => h) fun _ h => h)

end Spared

/-! ## Searching for room -/

/-- The search for a node with enough idle pods to evict finds none. -/
def NoEviction (s : SchedulerHandler) (func : Function) (ty : FindNodeType) (nodes : List String) : Prop :=
  ∀ plans miss found, s.scanNodes func ty nodes ∅ = .ok (.inr plans) →
    s.scanIdle func ty s.idlePods.oldestFirst plans ≠ .ok (miss, some found)

section Search

variable {E : String → WorkerPod → Prop} {s : SchedulerHandler}

theorem scanIdle_miss {func : Function} {ty : FindNodeType} {l miss : List String}
    {plans : BTreeMap String EvictionPlan} {found : Option (String × EvictionPlan)}
    (h : s.scanIdle func ty l plans = .ok (miss, found)) : ∀ k ∈ miss, s.pods[k]? = none := by
  induction l generalizing plans miss with
  | nil =>
    obtain ⟨rfl, -⟩ := Prod.mk.inj (Except.ok.inj h)
    exact fun _ hk => (nomatch hk)
  | cons k l ih =>
    unfold scanIdle at h
    rcases hk : s.pods[k]? with _ | w
    · rw [hk] at h
      obtain ⟨⟨miss', found'⟩, hrec, h⟩ := Except.bind_eq_ok.mp h
      obtain ⟨rfl, rfl⟩ := Prod.mk.inj (Except.ok.inj h)
      intro a ha
      rcases List.mem_cons.mp ha with rfl | ha
      · exact hk
      · exact ih hrec a ha
    · simp only [hk] at h
      split at h
      next => exact ih h
      next =>
        rcases hn : plans[w.pod.nodename]? with _ | plan
        · rw [hn] at h
          exact ih h
        · simp only [hn] at h
          obtain ⟨allowed, -, h⟩ := Except.bind_eq_ok.mp h
          split at h
          next =>
            obtain ⟨nr, -, h⟩ := Except.bind_eq_ok.mp h
            obtain ⟨req, -, h⟩ := Except.bind_eq_ok.mp h
            obtain ⟨state, -, h⟩ := Except.bind_eq_ok.mp h
            split at h
            next =>
              obtain ⟨rfl, -⟩ := Prod.mk.inj (Except.ok.inj h)
              exact fun _ ha => (nomatch ha)
            next => exact ih h
          next => exact ih h

theorem scanFree_miss {n : String} {req : Resources} {b : Bool} {l miss : List String}
    {ws ws' : List WorkerPod} {available available' : NodeResources}
    (h : s.scanFree n req b l ws available = .ok (miss, ws', available')) :
    ∀ k ∈ miss, s.pods[k]? = none := by
  induction l generalizing ws available miss with
  | nil =>
    obtain ⟨rfl, -⟩ := Prod.mk.inj (Except.ok.inj h)
    exact fun _ hk => (nomatch hk)
  | cons k l ih =>
    unfold scanFree at h
    rcases hk : s.pods[k]? with _ | w
    · rw [hk] at h
      obtain ⟨⟨miss', ws₁, av₁⟩, hrec, h⟩ := Except.bind_eq_ok.mp h
      obtain ⟨rfl, hp⟩ := Prod.mk.inj (Except.ok.inj h)
      obtain ⟨rfl, rfl⟩ := Prod.mk.inj hp
      intro a ha
      rcases List.mem_cons.mp ha with rfl | ha
      · exact hk
      · exact ih hrec a ha
    · simp only [hk] at h
      split at h
      next => exact ih h
      next =>
        obtain ⟨allowed, -, h⟩ := Except.bind_eq_ok.mp h
        split at h
        next =>
          obtain ⟨av, -, h⟩ := Except.bind_eq_ok.mp h
          obtain ⟨state, -, h⟩ := Except.bind_eq_ok.mp h
          split at h
          next =>
            obtain ⟨rfl, -⟩ := Prod.mk.inj (Except.ok.inj h)
            exact fun _ ha => (nomatch ha)
          next => exact ih h
        next => exact ih h

theorem findNode4Pod_spares {func : Function} {ty : FindNodeType} {nodes : List String}
    (h : NoEviction s func ty nodes) :
    (findNode4Pod func ty nodes).wp (fun r t => t = s ∧ r.2.1 = []) (fun _ t => Spares E s t)
      (fun _ => True) s := by
  unfold findNode4Pod
  rw [wp_bind, wp_get, wp_bind]
  refine wp_liftFault.mpr ⟨fun r hr => ?_, fun _ _ => trivial⟩
  rcases r with ⟨n, nr⟩ | plans
  · exact ⟨rfl, rfl⟩
  · dsimp only
    rw [wp_bind]
    refine wp_liftFault.mpr ⟨fun r' hr' => ?_, fun _ _ => trivial⟩
    obtain ⟨miss, found⟩ := r'
    dsimp only
    rw [wp_bind, wp_modify]
    rcases found with _ | found
    · exact Spares.popMissing (scanIdle_miss hr')
    · exact absurd hr' (h plans miss found hr)

/-- A resume of the function finds room without evictions, or none. -/
def ResumeRoom (s : SchedulerHandler) (fpKey : String) : Prop :=
  ∀ key fs, s.funcKeysFrom fpKey = [key] → s.funcs[key]? = some fs →
    NoEviction s fs.func .resume (s.resumeNodes fs.func)

theorem getBestResumeWorker_spares {fp : Function}
    (h : NoEviction s fp .resume (s.resumeNodes fp)) :
    (getBestResumeWorker fp).wp (fun r t => t = s ∧ r.2.1 = [] ∧ s.stateOf r.1 = .standby)
      (fun _ t => Spares E s t) (fun _ => True) s := by
  unfold getBestResumeWorker
  rw [wp_bind, wp_get]
  dsimp only
  split
  next => exact Std.Refl.refl s
  next =>
    split
    next => exact Std.Refl.refl s
    next =>
      rw [wp_bind]
      refine wp_mono (findNode4Pod_spares (E := E) h) ?_ (fun _ _ h => h) fun _ h => h
      rintro ⟨n, ws, nr⟩ t ⟨rfl, hws⟩
      obtain rfl : ws = [] := hws
      dsimp only
      split
      next => exact Std.Refl.refl _
      next w hw =>
        have hfind := List.find?_some hw
        simp only [Bool.and_eq_true, beq_iff_eq] at hfind
        exact ⟨rfl, rfl, hfind.1.2⟩

theorem allocFrom_same (nr : NodeResources) (req : Resources) (b : Bool) (s : SchedulerHandler) :
    (allocFrom nr req b).wp (fun _ t => t = s) (fun _ t => t = s) (fun _ => True) s := by
  unfold allocFrom
  rw [wp_bind]
  refine wp_liftFault.mpr ⟨fun r _ => ?_, fun _ _ => trivial⟩
  rcases r with ⟨e | r, rest⟩
  · rfl
  · rfl

theorem getNode_same (n : String) (s : SchedulerHandler) :
    (getNode n).wp (fun _ t => t = s) (fun _ _ => False) (fun _ => True) s := by
  unfold getNode
  rw [wp_bind, wp_get]
  rcases s.nodes[n]? with _ | ns
  · trivial
  · rfl

theorem resumePod_spares (env : Env) {fpKey : String} (tenant : Option String) (h : ResumeRoom s fpKey) :
    Spared E s (resumePod env fpKey tenant) := by
  unfold resumePod
  refine Spared.bind (wp_mono (resolveFunc_spec fpKey) ?_ (fun _ _ ht => ht.symm ▸ Std.Refl.refl (r := Spares E) s)
    fun _ _ => trivial)
  rintro fp t ⟨rfl, key, fs, hkey, hf, rfl⟩
  refine ⟨Std.Refl.refl _, Spared.bind (wp_mono (getBestResumeWorker_spares (E := E) (h key fs hkey hf)) ?_
    (fun _ _ h => h) fun _ h => h)⟩
  rintro ⟨w, ws, nr⟩ u ⟨rfl, hws, hstandby⟩
  obtain rfl : ws = [] := hws
  refine ⟨Std.Refl.refl _, ?_⟩
  dsimp only
  refine Spared.bind (wp_get.mpr ⟨Std.Refl.refl _, ?_⟩)
  refine Spared.bind (wp_liftFault.mpr ⟨fun ready _ => ⟨Std.Refl.refl _, ?_⟩, fun _ _ => trivial⟩)
  refine Spared.bind (wp_liftFault.mpr ⟨fun nr' _ => ⟨Std.Refl.refl _, ?_⟩, fun _ _ => trivial⟩)
  refine Spared.bind (wp_mono (allocFrom_same nr' ready false _) ?_
    (fun _ _ ht => ht.symm ▸ Std.Refl.refl (r := Spares E) _) fun _ h => h)
  rintro resources v rfl
  refine ⟨Std.Refl.refl _, Spared.bind (wp_mono (getNode_same w.pod.nodename _) ?_ (fun _ _ h => h.elim)
    fun _ h => h)⟩
  rintro ns v rfl
  refine ⟨Std.Refl.refl _, Spared.bind (wp_pure _ |>.mpr ⟨Std.Refl.refl _, ?_⟩)⟩
  refine Spared.bind (wp_modify _ |>.mpr ⟨Spares.resume hstandby, ?_⟩)
  -- What is left changes no pod.
  refine Spared.of_quiet (Moves.bind (Quiet.modify fun _ => rfl) fun _ => ?_) _
  refine Moves.bind (Quiet.modify fun _ => life_addStoppingPods _ _) fun _ => ?_
  refine Moves.bind (quiet_reserve _ _) fun _ => ?_
  refine Moves.bind (Quiet.modify fun _ => life_modifyNode fun _ => rfl) fun _ => ?_
  exact Quiet.modify fun _ => life_emit rfl

theorem quiet_reserveEvicting_nil (env : Env) (func : Function) (n : String) (nr : NodeResources) :
    Quiet (reserveEvicting env func n [] nr) := by
  refine Moves.bind (Moves.pure ()) fun _ => Moves.bind (quiet_getNode n) fun _ => ?_
  refine Moves.bind (Quiet.modify fun _ => life_addStoppingPods n []) fun _ => ?_
  refine Moves.bind (quiet_liftFault _) fun _ => Moves.bind (quiet_allocFrom _ _ _) fun r => ?_
  exact Moves.bind (quiet_reserve n r) fun _ => Moves.pure r

/-- A new pod on the plain NVIDIA runtime finds room without evictions, or none. -/
def NvidiaRoom (s : SchedulerHandler) (funcId : String) : Prop :=
  ∀ fs, s.funcs[funcId]? = some fs → NoEviction s fs.func .nvidiaRuntimePod
    ((s.nodes.toList.filter fun p => p.2.state == .nodeAgentReady).map Prod.fst)

theorem createOneNividaPod_spares (env : Env) {funcId : String} (h : NvidiaRoom s funcId) :
    Spared E s (createOneNividaPod env funcId) := by
  unfold createOneNividaPod
  refine Spared.bind (wp_get.mpr ⟨Std.Refl.refl _, ?_⟩)
  rcases hf : s.funcs[funcId]? with _ | fs
  · exact Std.Refl.refl _
  · refine Spared.bind ?_
    have hsearch : (getBestNvidiaRuntimeNode fs.func).wp (fun r t => t = s ∧ r.2.1 = [])
        (fun _ t => Spares E s t) (fun _ => True) s := by
      unfold getBestNvidiaRuntimeNode
      rw [wp_bind, wp_get]
      dsimp only
      split
      next => exact Std.Refl.refl _
      next => exact findNode4Pod_spares (h fs hf)
    refine wp_mono hsearch ?_ (fun _ _ h => h) fun _ h => h
    rintro ⟨n, ws, nr⟩ t ⟨rfl, hws⟩
    obtain rfl : ws = [] := hws
    refine ⟨Std.Refl.refl _, Spared.of_quiet (Moves.bind (quiet_reserveEvicting_nil env fs.func n nr)
      fun r => Moves.bind (quiet_startWorker env fs.func r .normal [] n) fun _ => ?_) _⟩
    exact Quiet.modify fun _ => life_modifyNode fun _ => rfl

/-- A snapshot of the function finds room on the node without evictions, or none. -/
def SnapshotSpace (s : SchedulerHandler) (f n : String) : Prop :=
  ∀ fs ns req state miss ws available state', s.funcs[f]? = some fs → s.nodes[n]? = some ns →
    fs.func.snapshotResource (asU64 ns.node.resources.maxContextCnt) = .ok req →
    ns.available.canAlloc req true = .ok state → state.ok = false →
    s.scanFree n req true s.idlePods.oldestFirst [] ns.available = .ok (miss, ws, available) →
    available.canAlloc req true = .ok state' → state'.ok = false

theorem tryFreeResources_spares {n f : String} {available : NodeResources} {req : Resources}
    (h : ∀ miss ws available' state, s.scanFree n req true s.idlePods.oldestFirst [] available =
      .ok (miss, ws, available') → available'.canAlloc req true = .ok state → state.ok = false) :
    (tryFreeResources n f available req true).wp (fun _ _ => False) (fun _ t => Spares E s t)
      (fun _ => True) s := by
  unfold tryFreeResources
  rw [wp_bind, wp_get, wp_bind]
  refine wp_liftFault.mpr ⟨fun r hr => ?_, fun _ _ => trivial⟩
  obtain ⟨miss, ws, available'⟩ := r
  dsimp only
  rw [wp_bind, wp_modify, wp_bind]
  refine wp_liftFault.mpr ⟨fun state hstate => ?_, fun _ _ => trivial⟩
  rw [h miss ws available' state hr hstate]
  exact Spares.popMissing (scanFree_miss hr)

theorem snapshotEvictions_spares (env : Env) {f n : String} {available : NodeResources} {req : Resources}
    (h : ∀ miss ws available' state state', available.canAlloc req true = .ok state → state.ok = false →
      s.scanFree n req true s.idlePods.oldestFirst [] available = .ok (miss, ws, available') →
      available'.canAlloc req true = .ok state' → state'.ok = false) :
    (snapshotEvictions env f n available req).wp (fun r t => t = s ∧ r.1 = []) (fun _ t => Spares E s t)
      (fun _ => True) s := by
  unfold snapshotEvictions
  rw [wp_bind]
  refine wp_liftFault.mpr ⟨fun state hstate => ?_, fun _ _ => trivial⟩
  split
  next => exact ⟨rfl, rfl⟩
  next hno =>
    rw [wp_bind, wp_attempt]
    refine wp_mono (tryFreeResources_spares (E := E) (f := f) fun miss ws available' state' hscan hstate' =>
      h miss ws available' state state' hstate (by simpa using hno) hscan hstate') (fun _ _ h => h.elim)
      (fun e t ht => ?_) fun _ h => h
    split
    next h => cases h
    next =>
      rw [wp_bind, wp_modify, wp_bind]
      refine wp_mono (quiet_addSnapshotTask env n f _) (fun _ u hu => ?_) (fun _ u hu => ?_)
        fun _ _ => trivial
      · exact IsTrans.trans _ _ _ ht (Spares.of_life hu)
      · exact IsTrans.trans _ _ _ ht (Spares.of_life hu)
    next => exact ht

theorem tryCreateSnapshotOnNode_spares (env : Env) {f n : String} (h : SnapshotSpace s f n) :
    Spared E s (tryCreateSnapshotOnNode env f n) := by
  unfold tryCreateSnapshotOnNode
  refine Spared.bind (wp_get.mpr ⟨Std.Refl.refl _, ?_⟩)
  split
  next => exact Std.Refl.refl _
  next =>
    split
    next fs ns hf hn =>
      split
      next => exact Std.Refl.refl _
      next =>
        split
        next =>
          refine Spared.of_quiet (Moves.bind (Quiet.modify fun _ => ?_) fun _ => Moves.throw _) _
          rfl
        next =>
          split
          next =>
            exact Spared.of_quiet (Moves.bind (quiet_addSnapshotTask env n f) fun _ => Moves.throw _) _
          next =>
            unfold createSnapshotOnNode
            refine Spared.bind (wp_liftFault.mpr ⟨fun req hreq => ⟨Std.Refl.refl _, ?_⟩, fun _ _ => trivial⟩)
            refine Spared.bind (wp_liftFault.mpr ⟨fun state _ => ⟨Std.Refl.refl _, ?_⟩, fun _ _ => trivial⟩)
            split
            next =>
              refine Spared.of_quiet (Moves.bind (Quiet.modify fun _ => ?_) fun _ => Moves.throw _) _
              rfl
            next =>
              refine Spared.bind (wp_mono (snapshotEvictions_spares (E := E) env
                fun miss ws available' state state' h₁ h₂ h₃ h₄ =>
                  h fs ns req state miss ws available' state' hf hn hreq h₁ h₂ h₃ h₄) ?_ (fun _ _ h => h)
                fun _ h => h)
              rintro ⟨ws, nr⟩ t ⟨rfl, hws⟩
              obtain rfl : ws = [] := hws
              exact ⟨Std.Refl.refl _, Spared.of_quiet (Moves.bind (quiet_reserveEvicting_nil env fs.func n nr)
                fun r => quiet_startSnapshotWorker env fs.func f n [] r) _⟩
    next => exact Std.Refl.refl _

end Search

/-! ## The handlers -/

section Handlers

variable {s : SchedulerHandler}

/-- The pod that a lease request gets from the pool. -/
def LeasedTo (s : SchedulerHandler) (req : LeaseWorkerReq) (k : String) (_ : WorkerPod) : Prop :=
  ∃ w, s.idlePodOf req.funcKey = some w ∧ k = w.pod.podKey

/-- The procedure leaves the pods, their cells and the pool alone. -/
abbrev Still {α : Type} (x : SchedM α) : Prop :=
  Moves (fun s t => (t.pods, t.workers, t.idlePods) = (s.pods, s.workers, s.idlePods)) (fun _ => True) x

theorem Still.spared {α : Type} {E : String → WorkerPod → Prop} {x : SchedM α} (h : Still x)
    (s : SchedulerHandler) : Spared E s x := by
  have hspares : ∀ t : SchedulerHandler, (t.pods, t.workers, t.idlePods) = (s.pods, s.workers, s.idlePods) →
      Spares E s t := by
    intro t ht
    simp only [Prod.mk.injEq] at ht
    exact Spares.of_cells ht.1 ht.2.1 ht.2.2
  exact wp_mono (h s) (fun _ t ht => hspares t ht) (fun _ t ht => hspares t ht) fun _ h => h

theorem still_sendLease (env : Env) (tx : ℕ) (req : LeaseWorkerReq) (k : Option String)
    (resp : LeaseWorkerResp) : Still (sendLease env tx req k resp) := by
  unfold sendLease
  split
  next => exact Moves.modify fun _ => rfl
  next => exact Moves.crash trivial

theorem still_answerLease (env : Env) (req : LeaseWorkerReq) (tx : ℕ) (pod : FuncPod) :
    Still (answerLease env req tx pod) := by
  refine Moves.bind Moves.get fun s => ?_
  split
  next =>
    rcases s.lookforPeer pod.ipAddr with e | peer
    · exact Moves.throw e
    · exact still_sendLease env tx req _ _
  next =>
    rcases parseIpv4 pod.hostIp with _ | ip
    · exact Moves.crash trivial
    · exact still_sendLease env tx req _ _

theorem leaseIdle_spares (env : Env) (req : LeaseWorkerReq) (tx : ℕ) {w : WorkerPod}
    (hw : s.idlePodOf req.funcKey = some w) : Spared (LeasedTo s req) s (leaseIdle env req tx w) := by
  have hrest : Spared (LeasedTo s req) s (do
      modify (·.setState w (.working req.gatewayId))
      modify (·.setConsumer w req.consumer)
      popIdleChecked w.pod.podKey
      answerLease env req tx w.pod) := by
    unfold Spared popIdleChecked
    simp only [wp_bind, wp_modify, wp_get]
    split
    next =>
      rw [wp_modify]
      refine wp_mono (Still.spared (E := LeasedTo s req) (still_answerLease env req tx w.pod) _) ?_ ?_
        fun _ h => h
      all_goals
        intro _ t ht
        rw [setConsumer_setState] at ht
        refine IsTrans.trans _ _ _ (Spares.lease rfl fun k v _ hk => ?_) ht
        exact ⟨w, hw, hk⟩
    next => trivial
  unfold Spared leaseIdle
  rw [wp_bind]
  unfold setWorking
  rw [wp_bind, wp_get]
  split
  next => trivial
  next => trivial
  next => trivial
  next => exact (wp_bind _ _).mp hrest

/-- A lease request gets an idle pod, or finds room without evictions. -/
def LeaseRoom (s : SchedulerHandler) (req : LeaseWorkerReq) : Prop :=
  s.idlePodOf req.funcKey = none → ResumeRoom s req.funcKey

theorem processLeaseWorkerReq_spares (env : Env) {req : LeaseWorkerReq} (tx : ℕ) (h : LeaseRoom s req) :
    Spared (LeasedTo s req) s (processLeaseWorkerReq env req tx) := by
  have hthrow : ∀ error, Spared (LeasedTo s req) s (do
      refuseLease env req tx error
      throw (.notExist error) : SchedM Unit) := fun error =>
    Spared.of_quiet (Moves.bind (quiet_refuseLease env req tx error) fun _ => Moves.throw _) s
  unfold processLeaseWorkerReq
  refine Spared.bind (wp_get.mpr ⟨Std.Refl.refl _, ?_⟩)
  rcases s.funcs[req.funcKey]? with _ | fs
  · exact hthrow _
  · dsimp only
    split
    next => trivial
    next =>
      split
      next => exact Spared.of_quiet (quiet_refuseLease env req tx _) s
      next =>
        unfold leaseFrom
        refine Spared.bind (wp_get.mpr ⟨Std.Refl.refl _, ?_⟩)
        dsimp only
        split
        next w hw => exact leaseIdle_spares env req tx hw
        next hnone =>
          split
          next => exact hthrow _
          next =>
            unfold leaseResuming
            refine Spared.bind ?_
            rw [wp_attempt]
            refine wp_mono (resumePod_spares (E := LeasedTo s req) env (some req.effectiveTenant) (h hnone))
              (fun _ t ht => ⟨ht, ?_⟩) (fun _ t ht => ⟨ht, ?_⟩) fun _ h => h
            · exact Spared.of_quiet (quiet_pushLeaseWorkerReq env req.funcKey req tx) t
            · exact Spared.of_quiet (quiet_refuseLease env req tx _) t

/-- The oldest task finds room without evictions, or none. -/
def TaskRoom (s : SchedulerHandler) : Prop :=
  ∀ task rest, s.taskQueue = task :: rest →
    (∀ f n, task = .snapshotTask f n → SnapshotSpace { s with taskQueue := rest } f n) ∧
    ∀ f, task = .nvidiaPodTask f → NvidiaRoom { s with taskQueue := rest } f

theorem processNextTask_spares {E : String → WorkerPod → Prop} (env : Env) (h : TaskRoom s) :
    Spared E s (processNextTask env) := by
  unfold processNextTask
  refine Spared.bind (wp_get.mpr ⟨Std.Refl.refl _, ?_⟩)
  rcases hq : s.taskQueue with _ | ⟨task, rest⟩
  · exact Std.Refl.refl _
  · obtain ⟨hsnapshot, hnvidia⟩ := h task rest hq
    refine Spared.bind (wp_modify _ |>.mpr ⟨Spares.of_life rfl, ?_⟩)
    cases task with
    | snapshotTask f n => exact wp_ignore _ |>.mpr (tryCreateSnapshotOnNode_spares env (hsnapshot f n rfl))
    | nvidiaPodTask f => exact wp_ignore _ |>.mpr (createOneNividaPod_spares env (hnvidia f rfl))
    | standbyTask n => exact Spared.of_quiet (Moves.ignore (quiet_tryAdjustStandbyPodsOnNode env n)) _
    | addNode n =>
      refine Spared.of_quiet (Quiet.modify fun _ => ?_) _
      rfl
    | delayedInitNode n =>
      refine Spared.of_quiet (Moves.bind Moves.get fun u => Moves.bind (Moves.each fun f _ =>
        quiet_addSnapshotTask env n f) fun _ => Quiet.modify fun _ => ?_) _
      rfl
    | addFunc f =>
      exact Spared.of_quiet (Moves.bind Moves.get fun u => Moves.each fun n _ =>
        quiet_addSnapshotTask env n f) _
    | refreshSnapshot => exact Std.Refl.refl _
    | removeSnapshotFromNode n f => exact Std.Refl.refl _

/-- The pods of a function, and whoever shares a cell with one of them. -/
def PodOf (s : SchedulerHandler) (f : String) (_ : String) (w : WorkerPod) : Prop :=
  ∃ (k : String) (v : WorkerPod), s.pods[k]? = some v ∧ v.ref = w.ref ∧ v.pod.funcKey = f

theorem mem_podsByFunckey {f : String} {w : WorkerPod} (h : w ∈ s.podsByFunckey f) :
    PodOf s f w.pod.podKey w := by
  unfold podsByFunckey at h
  have hfunc : (w.pod.funcKey == f) = true := by
    have hall := List.all_eq_true.mp (List.all_takeWhile (l := _) (p := _)) w h
    exact hall
  have hmem := (List.takeWhile_sublist _).subset h
  obtain ⟨⟨k, v⟩, hv, rfl⟩ := List.mem_map.mp hmem
  exact ⟨k, v, BTreeMap.mem_toList.mp ((List.dropWhile_sublist _).subset hv), rfl, by simpa using hfunc⟩

/-- Marking a pod of the function. -/
theorem Spares.mark {f k : String} {t : SchedulerHandler} {w : WorkerPod} (env : Env) (hw : PodOf s f k w) :
    Spares (PodOf s f) t (t.markTerminating env w) := by
  have hother : ∀ (k : String) (v : WorkerPod), ¬ PodOf s f k v →
      (t.markTerminating env w).stateOf v = t.stateOf v := by
    intro k v hv
    have hne : v.ref ≠ w.ref := by
      intro href
      obtain ⟨k', v', hv', href', hfunc⟩ := hw
      exact hv ⟨k', v', hv', href'.trans href.symm, hfunc⟩
    unfold stateOf markTerminating setState setCell
    dsimp only
    rw [Function.update_of_ne hne]
  refine ⟨rfl, fun k v _ hv h => ?_, fun k v g _ hv h => ⟨g, ?_⟩, fun _ _ _ _ h => Or.inl h⟩
  · rw [← hother k v hv]
    exact h
  · rw [hother k v hv]
    exact h

theorem processRemoveFunc_spares (env : Env) (spec : Function) :
    Spared (PodOf s spec.id) s (processRemoveFunc env spec) := by
  refine Spared.bind_of ?_ fun b t => ?_
  · refine Spared.bind (wp_get.mpr ⟨Std.Refl.refl _, ?_⟩)
    refine Spared.bind_of ?_ fun _ t => Std.Refl.refl t
    refine Moves.each (R := Spares (PodOf s spec.id)) (fun w hw => ?_) s
    refine Moves.bind (Moves.mono (Moves.attempt (quiet_stopWorker w.pod)) (fun _ _ => Spares.of_life)
      fun _ _ => trivial) fun r => ?_
    rcases r with e | _
    · exact Moves.pure ()
    · exact Moves.modify fun t => Spares.mark env (mem_podsByFunckey hw)
  · cases b with
    | true => exact Std.Refl.refl t
    | false => exact Spared.of_quiet (quiet_removeSnapshotByFunckey spec.id) t

/-- The procedure leaves the policies and the lists alone. -/
abbrev KeepsPolicies {α : Type} (x : SchedM α) : Prop :=
  Moves (fun s t => (t.funcpolicy, t.config, t.listDone) = (s.funcpolicy, s.config, s.listDone))
    (fun _ => True) x

theorem keepsPolicies_stopWorker (pod : FuncPod) : KeepsPolicies (stopWorker pod) := by
  refine Moves.bind Moves.get fun s => ?_
  rcases s.nodes[pod.nodename]? with _ | ns
  · exact Moves.throw _
  · exact Moves.modify fun _ => rfl

theorem keepsPolicies_removeSnapshotFromNode (n f : String) : KeepsPolicies (removeSnapshotFromNode n f) := by
  refine Moves.bind Moves.get fun s => ?_
  dsimp only
  split
  next => exact Moves.pure ()
  next =>
    rcases s.nodes[n]? with _ | ns
    · exact Moves.throw _
    · exact Moves.modify fun _ => rfl

theorem keepsPolicies_processRemoveFunc (env : Env) (spec : Function) :
    KeepsPolicies (processRemoveFunc env spec) := by
  refine Moves.bind (Moves.bind Moves.get fun s => Moves.bind (Moves.each fun w _ => ?_) fun _ =>
    Moves.pure _) fun b => ?_
  · refine Moves.bind (Moves.attempt (keepsPolicies_stopWorker w.pod)) fun r => ?_
    rcases r with e | _
    · exact Moves.pure ()
    · exact Moves.modify fun _ => rfl
  · cases b with
    | true => exact Moves.pure ()
    | false =>
      refine Moves.bind Moves.get fun s => ?_
      rcases s.snapshots[spec.id]? with _ | m
      · exact Moves.pure ()
      · exact Moves.each fun n _ => Moves.ignore (keepsPolicies_removeSnapshotFromNode n spec.id)

theorem still_removeFunc (env : Env) (spec : Function) : Still (removeFunc env spec) := by
  refine Moves.bind Moves.get fun s => ?_
  split
  next =>
    refine Moves.bind (Moves.modify fun _ => rfl) fun _ => Moves.modify fun t => ?_
    unfold endStandbyBilling
    split
    next => rfl
    next => rfl
  next => exact Moves.throw _

theorem keepsPolicies_removeFunc (env : Env) (spec : Function) : KeepsPolicies (removeFunc env spec) := by
  refine Moves.bind Moves.get fun s => ?_
  split
  next =>
    refine Moves.bind (Moves.modify fun _ => rfl) fun _ => Moves.modify fun t => ?_
    unfold endStandbyBilling
    split
    next => rfl
    next => rfl
  next => exact Moves.throw _

/-- The function wants no replicas, or the lists are not complete. -/
def FuncRoom (s : SchedulerHandler) (spec : Function) : Prop :=
  s.listDone = false ∨ (s.policyOf spec).minReplica = 0 ∧ (s.policyOf spec).nvidiaReplica = 0

/-- A function that wants no replicas is not prewarmed. -/
theorem startFunc_spares {E : String → WorkerPod → Prop} (env : Env) {spec : Function} {fs : FuncStatus}
    (hf : s.funcs[spec.id]? = some fs) (hspec : fs.func = spec)
    (hpolicy : (s.policyOf spec).minReplica = 0 ∧ (s.policyOf spec).nvidiaReplica = 0) :
    Spared E s (startFunc env spec.id) := by
  refine Spared.bind_of ?_ fun _ t => Spared.of_quiet (quiet_addTask _) t
  unfold processAddFunc
  refine Spared.bind (wp_get.mpr ⟨Std.Refl.refl _, ?_⟩)
  split
  next => exact Std.Refl.refl _
  next =>
    rw [hf]
    dsimp only
    split
    next => exact Std.Refl.refl _
    next =>
      rw [hspec]
      unfold addNvidiaReplica
      refine Spared.bind ?_
      rw [wp_bind, wp_get, if_neg (by rw [hpolicy.2]; exact Nat.not_lt_zero _)]
      refine (wp_pure _).mpr ⟨Std.Refl.refl _, ?_⟩
      refine Spared.bind (wp_get.mpr ⟨Std.Refl.refl _, ?_⟩)
      rw [if_neg (by rw [hpolicy.1]; exact Nat.not_lt_zero _)]
      exact Std.Refl.refl _

theorem funcModified_spares (env : Env) (oldspec : Function) {spec : Function} (h : FuncRoom s spec) :
    Spared (PodOf s oldspec.id) s (processEvent env (.funcModified oldspec spec)) := by
  -- The policies and the lists are the same throughout.
  refine Spared.bind (wp_mono (wp_and (processRemoveFunc_spares env oldspec)
    (keepsPolicies_processRemoveFunc env oldspec s)) (fun _ t ht => ⟨ht.1, ?_⟩) (fun _ _ ht => ht.1)
    fun _ _ => trivial)
  refine Spared.bind (wp_mono (wp_and (Still.spared (E := PodOf s oldspec.id) (still_removeFunc env oldspec) t)
    (keepsPolicies_removeFunc env oldspec t)) (fun _ u hu => ⟨hu.1, ?_⟩) (fun _ _ hu => hu.1) fun _ _ => trivial)
  have hsame := hu.2.trans ht.2
  simp only [Prod.mk.injEq] at hsame
  obtain ⟨hpolicies, hconfig, hlist⟩ := hsame
  refine Spared.bind ?_
  unfold addFunc
  rw [wp_bind, wp_get]
  split
  next => exact Std.Refl.refl _
  next =>
    refine (wp_modify _).mpr ⟨Spares.of_cells rfl rfl rfl, ?_⟩
    refine Spared.bind (wp_get.mpr ⟨Std.Refl.refl _, ?_⟩)
    dsimp only
    split
    next hdone =>
      rcases h with h | h
      · rw [hlist, h] at hdone
        cases hdone
      · refine startFunc_spares env (BTreeMap.get_insert_self ..) rfl ?_
        have hpolicy := policyOf_congr spec hpolicies hconfig
        rw [← hpolicy] at h
        exact h
    next => exact Std.Refl.refl _

theorem funcAdded_spares {E : String → WorkerPod → Prop} (env : Env) (func : Function)
    (h : s.warmupComplete = false) : Spared E s (processEvent env (.funcAdded func)) := by
  refine Spared.bind ?_
  unfold addFunc
  rw [wp_bind, wp_get]
  split
  next => exact Std.Refl.refl _
  next =>
    refine (wp_modify _).mpr ⟨Spares.of_cells rfl rfl rfl, ?_⟩
    refine Spared.bind (wp_get.mpr ⟨Std.Refl.refl _, ?_⟩)
    dsimp only
    rw [h, Bool.and_false]
    exact Std.Refl.refl _

/-- The handler completes the warm-up: a gateway is let in, or no gateway has
connected for five seconds. -/
def Handler.CompletesWarmup (env : Env) (s : SchedulerHandler) : Handler → Prop
  | .msg (.connectScheduler req _) => s.listDone = true ∧ (s.connectPods req.gatewayId req.workers).isSome
  | .warmup => ∃ start ∈ s.warmupStartTime, 5000 < env.now - start
  | _ => False

theorem connect_spares {E : String → WorkerPod → Prop} (env : Env) (req : ConnectReq) (tx : ℕ)
    (h : ¬ (Handler.msg (.connectScheduler req tx)).CompletesWarmup env s) :
    Spared E s (processMsg env (.connectScheduler req tx)) := by
  have hfalse : (processConnectReq env req tx).wp (fun b t => Spares E s t ∧ b = false)
      (fun _ t => Spares E s t) (fun _ => True) s := by
    unfold processConnectReq
    rw [wp_bind, wp_get]
    split
    next =>
      rw [wp_bind]
      exact wp_mono (Spared.of_quiet (E := E) (quiet_sendIfAlive env tx rfl) s) (fun _ _ ht => ⟨ht, rfl⟩)
        (fun _ _ ht => ht) fun _ h => h
    next hdone =>
      split
      next =>
        rw [wp_bind]
        exact wp_mono (Spared.of_quiet (E := E) (quiet_sendChecked env tx rfl) s) (fun _ _ ht => ⟨ht, rfl⟩)
          (fun _ _ ht => ht) fun _ h => h
      next pods hpods =>
        refine absurd ⟨by simpa using hdone, ?_⟩ h
        rw [hpods]
        rfl
  refine Spared.bind (wp_mono hfalse (fun b t ht => ⟨ht.1, ?_⟩) (fun _ _ ht => ht) fun _ h => h)
  rw [ht.2]
  exact Std.Refl.refl t

theorem warmup_spares {E : String → WorkerPod → Prop} (env : Env)
    (h : ¬ Handler.warmup.CompletesWarmup env s) : Spared E s (checkAndCompleteWarmup env) := by
  refine Spared.bind (wp_get.mpr ⟨Std.Refl.refl _, ?_⟩)
  split
  next start hstart =>
    split
    next hlate =>
      rw [Bool.and_eq_true, decide_eq_true_eq] at hlate
      exact absurd ⟨start, hstart, hlate.2⟩ h
    next => exact Std.Refl.refl _
  next => exact Std.Refl.refl _

end Handlers

/-! ## Runs -/

namespace Handler

/-- The handlers that resume or create pods, and search for room for them. -/
def makesRoom : Handler → Bool
  | .msg (.connectScheduler _ _) | .msg (.leaseWorker _ _) | .event (.funcAdded _)
  | .event (.funcModified _ _) | .task | .warmup | .refresh => true
  | _ => false

/-- The pods a handler leases or stops for their own sake. -/
def exempt (s : SchedulerHandler) : Handler → String → WorkerPod → Prop
  | .msg (.leaseWorker req _) => LeasedTo s req
  | .event (.funcModified oldspec _) => PodOf s oldspec.id
  | _ => fun _ _ => False

/-- The handler evicts an idle pod for another one: the pod is marked
terminating, or leaves the pool and is not leased. -/
def Evicts (h : Handler) (s t : SchedulerHandler) (k : String) : Prop :=
  h.makesRoom = true ∧ ∃ w, s.pods[k]? = some w ∧ s.stateOf w = .idle ∧ k ∈ s.idlePods ∧
    ¬ h.exempt s k w ∧
    (t.stateOf w = .terminating ∨ k ∉ t.idlePods ∧ ∀ g, t.stateOf w ≠ .working g)

/-- The handler finds room without evictions, or none. -/
def RoomOk (s : SchedulerHandler) : Handler → Prop
  | .msg (.leaseWorker req _) => LeaseRoom s req
  | .event (.funcModified _ spec) => FuncRoom s spec
  | .task => TaskRoom s
  | .refresh => False
  | _ => True

theorem run_spares (env : Env) (h : Handler) {s : SchedulerHandler} (hwarm : s.warmupComplete = false)
    (hrun : ¬ h.CompletesWarmup env s) (hroom : h.RoomOk s) (hmakes : h.makesRoom = true) :
    Spared (h.exempt s) s (h.run env) := by
  cases h with
  | msg m =>
    cases m with
    | connectScheduler req tx => exact connect_spares env req tx hrun
    | leaseWorker req tx => exact processLeaseWorkerReq_spares env tx hroom
    | _ => cases hmakes
  | event e =>
    cases e with
    | funcAdded func => exact funcAdded_spares env func hwarm
    | funcModified oldspec spec => exact funcModified_spares env oldspec hroom
    | _ => cases hmakes
  | task => exact processNextTask_spares env hroom
  | warmup => exact warmup_spares env hrun
  | refresh => exact hroom.elim
  | _ => cases hmakes

end Handler

/-- The scheduler, and the pods that have been evicted in the warm-up. -/
structure Warming where
  /-- the scheduler -/
  sched : SchedulerHandler
  /-- the evicted pods -/
  evicted : Set String := ∅

namespace Warming

/-- A call in the warm-up. -/
def During (x : Warming) (c : Call) : Prop :=
  x.sched.warmupComplete = false ∧ ¬ c.2.CompletesWarmup c.1 { x.sched with out := [] }

/-- A call of a handler. -/
def next (x : Warming) (c : Call) : Option Warming :=
  (x.sched.next c).map fun t =>
    ⟨t, x.evicted ∪ {k | x.During c ∧ c.2.Evicts { x.sched with out := [] } t k}⟩

/-- Nothing has been evicted yet. -/
def Start (x : Warming) : Prop := x.evicted = ∅

/-- In the warm-up the handlers find room without evictions, or none. -/
def Ok (x : Warming) (c : Call) : Prop := x.During c → c.2.RoomOk { x.sched with out := [] }

/-- **No evictions in the warm-up.** In every run whose handlers keep to `Ok`, no
idle pod is evicted before the warm-up is over. -/
theorem no_eviction_in_warmup {x : Warming} (h : Reach next Start Ok x) : x.evicted = ∅ := by
  refine h.invariant (I := fun x : Warming => x.evicted = ∅) (fun _ hx => hx) ?_
  rintro x c y hx hok hnext
  obtain ⟨t, ht, rfl⟩ := Option.map_eq_some_iff.mp hnext
  refine Set.union_empty_iff.mpr ⟨hx, Set.eq_empty_of_forall_notMem ?_⟩
  rintro k ⟨hduring, hmakes, w, hw, hidle, hpool, hexempt, hgone⟩
  have hspares : Spares (c.2.exempt { x.sched with out := [] }) { x.sched with out := [] } t :=
    wp_state (c.2.run_spares c.1 hduring.1 hduring.2 (hok hduring) hmakes) ht
  rcases hgone with hmarked | ⟨hleft, hfree⟩
  · have hbefore := hspares.marked k w hw hexempt hmarked
    rw [hidle] at hbefore
    cases hbefore
  · rcases hspares.idle k w hw hexempt hpool with hstays | ⟨g, hg⟩
    · exact hleft hstays
    · exact hfree g hg

theorem start_new : Start { sched := {} } := rfl

theorem next_after {l : List Call} {evicted : Set String} {c : Call}
    (h : (calls {} (l ++ [c])).isSome) : (⟨after l, evicted⟩ : Warming).next c =
      some ⟨after (l ++ [c]), evicted ∪ {k | (⟨after l, evicted⟩ : Warming).During c ∧
        c.2.Evicts { after l with out := [] } (after (l ++ [c])) k}⟩ := by
  unfold next
  rw [Inferx.next_after h]
  rfl

end Warming

namespace Sample

/-- A function that takes nearly the whole memory of the node when it is resumed. -/
def greedy : Function :=
  { func with name := "g", resources := { func.resources with memory := 999, readyMemory := 999 } }

/-- An idle pod of one function stands in the way of a standby pod of another. -/
def contended : List Call :=
  [event (.nodeAdded node), event (.funcAdded func), event (.funcAdded greedy),
    event (.podAdded (pod "1" .ready)), event (.podAdded { pod "2" .standby with funcname := "g" }),
    event (.snapshotAdded { readySnapshot with object := { readySnapshot.object with funckey := greedy.id } })]

/-- A request for the greedy function. -/
def greedyLease : LeaseWorkerReq := { leaseReq 1 with funcname := "g" }

end Sample

/-- An idle pod is leased in the warm-up. -/
theorem no_eviction_by_lease : ∃ evicted : Set String,
    Reach Warming.next Warming.Start Warming.Ok ⟨after (Sample.readyPod ++ [Sample.lease 1]), evicted⟩ ∧
    evicted = ∅ := by
  have hready : ∃ evicted : Set String,
      Reach Warming.next Warming.Start Warming.Ok ⟨after Sample.readyPod, evicted⟩ := by
    refine ⟨_, .step (c := Sample.event (.podAdded (Sample.pod "1" .ready)))
      (.step (c := Sample.event (.funcAdded Sample.func))
        (.step (c := Sample.event (.nodeAdded Sample.node)) (.init Warming.start_new)
          (fun _ => trivial) (Warming.next_after (l := []) ?_)) (fun _ => trivial)
        (Warming.next_after (l := [_]) ?_)) (fun _ => trivial) (Warming.next_after (l := [_, _]) ?_)⟩
    · decide +kernel
    · decide +kernel
    · decide +kernel
  obtain ⟨evicted, hready⟩ := hready
  have hsome : ({ after Sample.readyPod with out := [] }.idlePodOf (Sample.leaseReq 1).funcKey).isSome := by
    decide +kernel
  have hok : Warming.Ok ⟨after Sample.readyPod, evicted⟩ (Sample.lease 1) := by
    intro _ hnone
    rw [hnone] at hsome
    cases hsome
  have hreach := hready.step hok (Warming.next_after (by decide +kernel))
  exact ⟨_, hreach, Warming.no_eviction_in_warmup hreach⟩

/-- A lease request evicts an idle pod in the warm-up. -/
theorem lease_evicts_in_warmup : ¬ ∀ (l : List Call) (c : Call) (s t : SchedulerHandler) (k : String),
    calls {} l = some s → s.next c = some t → s.warmupComplete = false → t.warmupComplete = false →
    ¬ c.2.Evicts { s with out := [] } t k := by
  intro h
  have hnot := h Sample.contended (Sample.msg (.leaseWorker Sample.greedyLease 0)) _ _
    "t/s/f/1/1" (calls_eq_after (by decide +kernel)) (next_after (by decide +kernel)) (by decide +kernel)
    (by decide +kernel)
  have hidle : ({ after Sample.contended with out := [] }.pods["t/s/f/1/1"]?.map fun w =>
      ({ after Sample.contended with out := [] }.stateOf w,
        (after (Sample.contended ++ [Sample.msg (.leaseWorker Sample.greedyLease 0)])).stateOf w)) =
      some (.idle, .terminating) := by
    decide +kernel
  have hpool : "t/s/f/1/1" ∈ { after Sample.contended with out := [] }.idlePods := by decide +kernel
  have hnone : { after Sample.contended with out := [] }.idlePodOf Sample.greedyLease.funcKey = none := by
    decide +kernel
  obtain ⟨w, hw, hstates⟩ := Option.map_eq_some_iff.mp hidle
  obtain ⟨hbefore, hafter⟩ := Prod.mk.inj hstates
  refine hnot ⟨rfl, w, hw, hbefore, hpool, ?_, Or.inl hafter⟩
  rintro ⟨v, hv, -⟩
  rw [hnone] at hv
  cases hv

end Inferx
